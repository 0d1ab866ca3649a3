import FirmwareTasks.Proofs.Run.Script
import FirmwareTasks.Proofs.SearchPath
import FirmwareTasks.Run.Body
/-!
What the tasks do, within a footprint for each: a task writes no line but a search path it shows,
hands over its own program with its own search path, and fails over the configuration only where it
looks up one of these.
-/
namespace FirmwareTasks
variable {σ α : Type}

/-- The errors of a configuration that names what it does not have. -/
def Error.isConfiguration : Error → Bool
  | searchPath | unknownPath _ | unknownTool _ => true
  | _ => false

/-- The errors that a runner has of its own: a tool cannot be started, or does not succeed. -/
def Error.isTool : Error → Bool
  | launch .. | toolFailed .. => true
  | _ => false

lemma Error.isTool_eq_false_of_isConfiguration {e : Error} (h : e.isConfiguration = true) :
    e.isTool = false := by
  cases e <;> first | rfl | cases h

/-- The task that shows the search path of a profile. -/
def Profile.task : Profile → Task
  | full => .env
  | gcc => .envGcc

/-- A search path as a line of the standard output. -/
def SearchPath.line (path : Bytes) : Bytes := Utf8.encode (Utf8.lossy path ++ "\n")

/-! What cannot be looked up is an error of the configuration. -/

namespace Config
variable {c : Config} {e : Error}

end Config

namespace Context
variable (ctx : Context σ)

/-- The search path that tools get for a profile. -/
def toolPath : Option Profile → Except Error (Option Bytes)
  | none => .ok none
  | some p => (SearchPath.ofProfile ctx.config ctx.inherited p).map some

def program? : Task → Except Error (Option Bytes)
  | .configure => .ok (some (word "cmake"))
  | .all | .clean | .testConf | .testRun => ctx.config.buildTool.map fun tool => some tool.bytes
  | .testJunit => .ok (some (word ctx.config.project.python))
  | .cov => .ok (some (word "gcovr"))
  | .doxy =>
    if ctx.ci then .ok (some (word "doxygen"))
    else (ctx.config.tool "doxygen").map fun tool => some tool.bytes
  | .breathe => .ok (some (word "sphinx-build"))
  | .showDoc => .ok (some (word "xdg-open"))
  | .diff => .ok (some (word "git"))
  | .env | .envGcc | .cleanAll | .make | .test | .doc => .ok none

/-- How a task may fail by itself: over its files, or over what it looks up. -/
inductive Fails (t : Task) : Error → Prop
  | plain {e : Error} (hc : e.isConfiguration = false) (ht : e.isTool = false) : Fails t e
  | program {e : Error} (h : ctx.program? t = .error e) : Fails t e
  | toolPath {e : Error} (h : ctx.toolPath t.profile = .error e) : Fails t e
  | shown {e : Error} {p : Profile} (ht : t = p.task)
      (h : SearchPath.ofProfile ctx.config ctx.inherited p = .error e) : Fails t e

variable {ctx}

variable (ctx)

def footprint (t : Task) : Footprint where
  emits e := (∃ level message, e = .log level message) ∨
    ∃ p path, t = p.task ∧ SearchPath.ofProfile ctx.config ctx.inherited p = .ok path ∧
      e = .output (SearchPath.line path)
  launches inv :=
    ctx.program? t = .ok (some inv.program) ∧ ctx.toolPath t.profile = .ok inv.searchPath
  raises := ctx.Fails t

end Context

/-- The footprint has room for logging and for refused file calls. -/
structure Footprint.Roomy (F : Footprint) : Prop where
  log : ∀ level message, F.emits (.log level message)
  plain : ∀ e : Error, e.isConfiguration = false → e.isTool = false → F.raises e

lemma Context.footprint_roomy (ctx : Context σ) (t : Task) : (ctx.footprint t).Roomy where
  log level message := .inl ⟨level, message, rfl⟩
  plain _ hc ht := .plain hc ht

namespace Act

lemma ofExcept_ok {x : Except Error α} {w u : World σ} {a : α}
    (h : (ofExcept x : Act σ α) w = .ok a u) : x = .ok a := by
  cases x with
  | ok b => cases h; rfl
  | error e => cases h

end Act

namespace Script
variable {ctx : Context σ} {F : Footprint}

lemma log (hF : F.Roomy) (level : Level) (message : String) :
    Script ctx F (Act.log level message) := .emit (hF.log level message)

lemma ofExcept {x : Except Error α} (h : ∀ e, x = .error e → F.raises e) :
    Script ctx F (ofExcept x : Act σ α) := by
  cases x with
  | ok a => exact .pure a
  | error e => exact .throw (h e rfl)

lemma ensureAbsent (hF : F.Roomy) (site : Site) (path : Path) :
    Script ctx F (Act.ensureAbsent site path) := by
  refine .bind (.files fun _ => hF.plain _ rfl rfl) fun removed _ _ _ => ?_
  cases removed with
  | true => exact log hF _ _
  | false => exact .pure _

lemma ensureFresh (hF : F.Roomy) (site : Site) (path : Path) :
    Script ctx F (Act.ensureFresh site path) := by
  refine .bind (ensureAbsent hF site path) fun _ _ _ _ => ?_
  refine .bind (.files fun _ => hF.plain _ rfl rfl) fun _ _ _ _ => ?_
  exact log hF _ _

lemma relocate (hF : F.Roomy) (site : Site) (src dst : Path) :
    Script ctx F (Act.relocate site src dst) := by
  refine .bind (.files fun _ => hF.plain _ rfl rfl) fun crossing _ _ _ => ?_
  cases crossing with
  | none => exact log hF _ _
  | some isDir =>
    refine .bind (log hF _ _) fun _ _ _ _ => ?_
    refine .bind (.files fun _ => hF.plain _ rfl rfl) fun _ _ _ _ => ?_
    exact log hF _ _

lemma copyTree (hF : F.Roomy) (site : Site) (src dst : Path) :
    Script ctx F (Act.copyTree site src dst) :=
  .bind (.files fun _ => hF.plain _ rfl rfl) fun _ _ _ _ => log hF _ _

lemma searchPath (hF : F.Roomy) {profile : Option Profile}
    (h : ∀ e, ctx.toolPath profile = .error e → F.raises e) :
    Script ctx F (ctx.searchPath profile) := by
  cases profile with
  | none => exact .pure none
  | some p =>
    refine .bind (ofExcept fun e he => h e (Except.map_eq_error_iff.2 he)) fun path _ _ _ => ?_
    exact .bind (log hF _ _) fun _ _ _ _ => .pure _

lemma command (hF : F.Roomy) {program : Bytes} {cwd : Path} {profile : Option Profile}
    (h : ∀ e, ctx.toolPath profile = .error e → F.raises e) :
    Script ctx F (ctx.command program cwd profile) :=
  .bind (searchPath hF h) fun _ _ _ _ => .pure _

end Script

namespace Context
variable {ctx : Context σ}

lemma searchPath_ok {profile : Option Profile} {w u : World σ} {path : Option Bytes}
    (h : ctx.searchPath profile w = .ok path u) : ctx.toolPath profile = .ok path := by
  cases profile with
  | none => cases h; rfl
  | some p =>
    obtain ⟨q, v, hq, h⟩ := EStateM.bind_eq_ok_iff.1 h
    cases h
    exact Except.map_eq_ok_iff.2 ⟨q, Act.ofExcept_ok hq, rfl⟩

/-- A command is made of what was asked for, and its search path is that of the profile. -/
theorem command_ok {program : Bytes} {cwd : Path} {profile : Option Profile} {w u : World σ}
    {inv : Invocation} (h : ctx.command program cwd profile w = .ok inv u) :
    inv.program = program ∧ ctx.toolPath profile = .ok inv.searchPath := by
  obtain ⟨path, v, hp, h⟩ := EStateM.bind_eq_ok_iff.1 h
  cases h
  exact ⟨rfl, searchPath_ok hp⟩

variable (ctx)

lemma script_command {t : Task} {program : Bytes} {cwd : Path} {k : Invocation → Act σ α}
    (hk : ∀ inv : Invocation, inv.program = program → ctx.toolPath t.profile = .ok inv.searchPath →
      Script ctx (ctx.footprint t) (k inv)) :
    Script ctx (ctx.footprint t) (ctx.command program cwd t.profile >>= k) := by
  refine .bind (.command (ctx.footprint_roomy t) fun _ he => .toolPath he) fun inv w u h => ?_
  obtain ⟨hprogram, hpath⟩ := command_ok h
  exact hk inv hprogram hpath

lemma script_launch {t : Task} {inv : Invocation} (hp : ctx.program? t = .ok (some inv.program))
    (hs : ctx.toolPath t.profile = .ok inv.searchPath) :
    Script ctx (ctx.footprint t) (ctx.launch inv) :=
  .launch ⟨hp, hs⟩

lemma script_showSearchPath (p : Profile) :
    Script ctx (ctx.footprint p.task) (ctx.showSearchPath p) := by
  have hF := ctx.footprint_roomy p.task
  have hraises (e : Error) (he : ctx.toolPath (some p) = .error e) : ctx.Fails p.task e :=
    .shown rfl (Except.map_eq_error_iff.1 he)
  refine .bind (.searchPath hF hraises) fun path w u h => ?_
  obtain ⟨q, hq, rfl⟩ := Except.map_eq_ok_iff.1 (searchPath_ok h)
  exact .bind (.log hF _ _) fun _ _ _ _ => .emit (.inr ⟨p, q, rfl, hq, rfl⟩)

lemma script_runBuildTool {t : Task} (args : List String)
    (ht : ctx.program? t = ctx.config.buildTool.map fun tool => some tool.bytes) :
    Script ctx (ctx.footprint t) (ctx.runBuildTool t args) := by
  refine .bind (.ofExcept fun e he => .program ?_) fun tool w u htool => ?_
  · rw [ht]
    exact Except.map_eq_error_iff.2 he
  · refine ctx.script_command fun inv hp hs => ctx.script_launch ?_ hs
    rw [ht, hp]
    exact Except.map_eq_ok_iff.2 ⟨tool, Act.ofExcept_ok htool, rfl⟩

lemma script_configure : Script ctx (ctx.footprint .configure) ctx.configure := by
  refine .bind (.ensureFresh (ctx.footprint_roomy _) _ _) fun _ _ _ _ => ?_
  exact ctx.script_command fun inv hp hs => ctx.script_launch (by rw [hp]; rfl) hs

lemma script_cleanAll : Script ctx (ctx.footprint .cleanAll) ctx.cleanAll :=
  .bind (.ensureAbsent (ctx.footprint_roomy _) _ _) fun _ _ _ _ =>
    .ensureAbsent (ctx.footprint_roomy _) _ _

lemma script_testJunit : Script ctx (ctx.footprint .testJunit) ctx.testJunit := by
  have hF := ctx.footprint_roomy .testJunit
  refine ctx.script_command fun inv hp hs => ?_
  refine .bind (ctx.script_launch (by rw [hp]; rfl) hs) fun _ _ _ _ => ?_
  exact .bind (.relocate hF _ _ _) fun _ _ _ _ => .log hF _ _

lemma script_coverage : Script ctx (ctx.footprint .cov) ctx.coverage := by
  have hF := ctx.footprint_roomy .cov
  refine .bind (.ensureFresh hF _ _) fun _ _ _ _ => ?_
  refine ctx.script_command fun inv hp hs => ?_
  refine .bind (ctx.script_launch (by rw [hp]; rfl) hs) fun _ _ _ _ => ?_
  dsimp only
  split
  · refine .bind (.ensureAbsent hF _ _) fun _ _ _ _ => ?_
    exact .bind (.relocate hF _ _ _) fun _ _ _ _ => .log hF _ _
  · exact .log hF _ _

lemma documentation_ok {w u : World σ} {base : Path} {tool : Bytes}
    (h : ctx.documentation w = .ok (base, tool) u) : ctx.program? .doxy = .ok (some tool) := by
  unfold documentation at h
  split at h <;> rename_i hci
  · obtain ⟨_, _, _, h⟩ := EStateM.bind_eq_ok_iff.1 h
    cases h
    rw [program?, if_pos hci]
  · obtain ⟨_, _, _, h⟩ := EStateM.bind_eq_ok_iff.1 h
    obtain ⟨tool, _, htool, h⟩ := EStateM.bind_eq_ok_iff.1 h
    cases h
    rw [program?, if_neg hci]
    exact Except.map_eq_ok_iff.2 ⟨_, Act.ofExcept_ok htool, rfl⟩

lemma script_documentation : Script ctx (ctx.footprint .doxy) ctx.documentation := by
  have hF := ctx.footprint_roomy .doxy
  unfold documentation
  split <;> rename_i hci
  · exact .bind (.log hF _ _) fun _ _ _ _ => .pure _
  · refine .bind (.log hF _ _) fun _ _ _ _ => ?_
    refine .bind (.ofExcept fun e he => .program ?_) fun _ _ _ _ => .pure _
    rw [program?, if_neg hci]
    exact Except.map_eq_error_iff.2 he

lemma script_doxygen : Script ctx (ctx.footprint .doxy) ctx.doxygen := by
  have hF := ctx.footprint_roomy .doxy
  refine .bind ctx.script_documentation fun ⟨base, tool⟩ w u h => ?_
  refine .bind (.ensureFresh hF _ _) fun _ _ _ _ => ?_
  refine .bind (.ensureAbsent hF _ _) fun _ _ _ _ => ?_
  refine ctx.script_command fun inv hp hs => ?_
  refine .bind (ctx.script_launch (by rw [ctx.documentation_ok h, hp]) hs) fun _ _ _ _ => ?_
  exact .bind (.copyTree hF _ _ _) fun _ _ _ _ => .ensureAbsent hF _ _

lemma script_breathe : Script ctx (ctx.footprint .breathe) ctx.breathe := by
  refine .bind (.ensureAbsent (ctx.footprint_roomy _) _ _) fun _ _ _ _ => ?_
  exact ctx.script_command fun inv hp hs => ctx.script_launch (by rw [hp]; rfl) hs

lemma script_showDoc : Script ctx (ctx.footprint .showDoc) ctx.showDoc := by
  have hF := ctx.footprint_roomy .showDoc
  refine .look (f := fun t => if t.isFileAt ctx.site _ then _ else _) fun t => ?_
  split
  · exact ctx.script_launch rfl rfl
  · exact .bind (.log hF _ _) fun _ _ _ _ => .throw (.plain rfl rfl)

lemma script_diff : Script ctx (ctx.footprint .diff) ctx.diff :=
  ctx.script_command fun inv hp hs => ctx.script_launch (by rw [hp]; rfl) hs

theorem script_body (t : Task) : Script ctx (ctx.footprint t) (ctx.body t) := by
  cases t with
  | env => exact ctx.script_showSearchPath .full
  | envGcc => exact ctx.script_showSearchPath .gcc
  | configure => exact ctx.script_configure
  | all | clean | testConf | testRun => exact ctx.script_runBuildTool _ rfl
  | cleanAll => exact ctx.script_cleanAll
  | testJunit => exact ctx.script_testJunit
  | cov => exact ctx.script_coverage
  | doxy => exact ctx.script_doxygen
  | breathe => exact ctx.script_breathe
  | showDoc => exact ctx.script_showDoc
  | diff => exact ctx.script_diff
  | make | test | doc => exact .pure ()

end Context
end FirmwareTasks
