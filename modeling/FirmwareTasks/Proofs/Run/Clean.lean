import FirmwareTasks.Proofs.Files.Freshness
import FirmwareTasks.Proofs.Run.Invocations
import FirmwareTasks.Proofs.Run.ToolPath
/-!
What a tool finds. A place that a task promises its tool to be free is free when the tool is
launched. A directory that it promises to be empty is so, unless a step outwards leads somewhere
only since it has been made, or it has gone with the directory that is removed after it.
-/
namespace FirmwareTasks
open Files

variable {σ α : Type}

namespace Act
variable {site : Site} {path : Path} {w v : World σ} {e : Error}

lemma files_ok {wrap : IoError → Error} {call : FileCall α} {a : α}
    (h : files wrap call w = .ok a v) : call w.tree = .ok a v.tree := by
  cases hc : call w.tree with
  | ok b t =>
    rw [files_of_ok hc] at h
    cases h
    rfl
  | error e t =>
    rw [files_of_error hc] at h
    cases h

lemma tree_log {level : Level} {message : String} (h : log level message w = .ok () v) :
    v.tree = w.tree := by
  cases h
  rfl

lemma tree_ofExcept {x : Except Error α} {a : α} (h : (ofExcept x : Act σ α) w = .ok a v) :
    v.tree = w.tree := by
  cases x with
  | ok b => cases h; rfl
  | error e => cases h

lemma ensureAbsent_ok (h : ensureAbsent site path w = .ok () v) :
    ∃ b, removeIfThere site path w.tree = .ok b v.tree := by
  obtain ⟨b, u, hu, h⟩ := EStateM.bind_eq_ok_iff.1 h
  have hv : v.tree = u.tree := by
    cases b with
    | true => exact tree_log h
    | false => cases h; rfl
  exact ⟨b, hv ▸ files_ok hu⟩

lemma ensureFresh_ok (h : ensureFresh site path w = .ok () v) :
    ∃ b t, removeIfThere site path w.tree = .ok b t ∧ makeDirs site path t = .ok () v.tree := by
  obtain ⟨_, u, hu, h⟩ := EStateM.bind_eq_ok_iff.1 h
  obtain ⟨_, x, hx, h⟩ := EStateM.bind_eq_ok_iff.1 h
  obtain ⟨b, hb⟩ := ensureAbsent_ok hu
  exact ⟨b, u.tree, hb, tree_log h ▸ files_ok hx⟩

end Act

/-- The directories that tasks clean and fill are made of names. -/
structure Layout.Ordinary (l : Layout) : Prop where
  buildDir : l.buildDir.Ordinary
  coverageDir : l.coverageDir.Ordinary
  artifactsDir : l.artifactsDir.Ordinary
  doxyOutDir : l.doxyOutDir.Ordinary
  doxyXmlDir : l.doxyXmlDir.Ordinary
  sphinxStaleDir : l.sphinxStaleDir.Ordinary

instance (l : Layout) : Decidable l.Ordinary :=
  decidable_of_iff (∀ dir ∈ [l.buildDir, l.coverageDir, l.artifactsDir, l.doxyOutDir, l.doxyXmlDir,
    l.sphinxStaleDir], dir.Ordinary) <| by
    simp only [List.forall_mem_cons, List.not_mem_nil, false_implies, implies_true, and_true]
    exact ⟨fun ⟨h₁, h₂, h₃, h₄, h₅, h₆⟩ => ⟨h₁, h₂, h₃, h₄, h₅, h₆⟩,
      fun ⟨h₁, h₂, h₃, h₄, h₅, h₆⟩ => ⟨h₁, h₂, h₃, h₄, h₅, h₆⟩⟩

namespace Context
variable (ctx : Context σ)

def doxyOut : Path := ctx.documentationBase.join ctx.config.layout.doxyOutDir

/-- Where the documentation build looks for what doxygen has written. -/
def doxyXml : Path := ctx.documentationBase.join ctx.config.layout.doxyXmlDir

/-- The directories that a task promises its tool to be there with nothing in them. -/
def emptied : Task → List Path
  | .configure => [ctx.buildDir]
  | .cov => [ctx.path ctx.config.layout.coverageDir]
  | .doxy => [ctx.doxyOut]
  | _ => []

/-- The paths that a task promises its tool to be free. -/
def freed : Task → List Path
  | .doxy => [ctx.doxyXml]
  | .breathe => [ctx.path ctx.config.layout.sphinxStaleDir]
  | _ => []

/-- The directories that a task makes anew. -/
def recreated : Task → List Path
  | .configure => [ctx.config.layout.buildDir]
  | .cov => [ctx.config.layout.coverageDir]
  | .doxy => [ctx.config.layout.doxyOutDir, ctx.config.layout.doxyXmlDir]
  | _ => []

/-- The path that the directories of a task are within. -/
def baseOf (t : Task) : Path := if t = .doxy then ctx.documentationBase else ctx.root

/-- What the promise of empty directories takes in the tree where the task starts. For doxygen's
first directory it takes more than for the others, since the second is removed when the first has
been made: the second is not around the first by its name, nor by a link, nor by a detour that the
base of the documentation makes. -/
def CanEmpty (t : Task) (tree : Tree) : Prop :=
  (∀ path ∈ ctx.emptied t, StepsBacked ctx.site path tree) ∧
  (t = .doxy →
    ¬ctx.config.layout.doxyXmlDir.names <+: ctx.config.layout.doxyOutDir.names ∧
    ∃ B, tree.OffDirs ctx.site ctx.documentationBase (ctx.recreated .doxy) B)

variable {ctx}

/-- Within a root without steps outwards, the promise of one directory takes nothing. -/
theorem canEmpty_of_not_outwards (hl : ctx.config.layout.Ordinary) {t : Task} (ht : t ≠ .doxy)
    (hroot : Path.dotDot ∉ ctx.root.names) (tree : Tree) : ctx.CanEmpty t tree := by
  have hback {dir : Path} (hdir : dir.Ordinary) : StepsBacked ctx.site (ctx.root.join dir) tree :=
    stepsBacked_join hdir tree fun hdots => absurd hdots hroot
  refine ⟨fun path hpath => ?_, fun hdoxy => absurd hdoxy ht⟩
  cases t with
  | configure =>
    rw [List.mem_singleton.1 hpath]
    exact hback hl.buildDir
  | cov =>
    rw [List.mem_singleton.1 hpath]
    exact hback hl.coverageDir
  | doxy => exact absurd rfl ht
  | _ => cases hpath

/-- Without links, the promise takes no more than that the names are apart, and that the directories
are within a base that has no steps outwards, or is there and not reached through them. -/
theorem canEmpty_of_linkless (hl : ctx.config.layout.Ordinary) {t : Task} {tree : Tree}
    (ht : tree.Linkless)
    (hnames : ¬ctx.config.layout.doxyXmlDir.names <+: ctx.config.layout.doxyOutDir.names)
    (hbase : tree.Reached ctx.site (ctx.baseOf t) (ctx.recreated t)) : ctx.CanEmpty t tree := by
  have hdirs : ∀ dir ∈ ctx.recreated t, dir.Ordinary := by
    cases t <;> simp [recreated, hl.buildDir, hl.coverageDir, hl.doxyOutDir, hl.doxyXmlDir]
  have hback {dir : Path} (hmem : dir ∈ ctx.recreated t) :
      StepsBacked ctx.site ((ctx.baseOf t).join dir) tree :=
    stepsBacked_of_reached hbase ht hdirs hmem
  refine ⟨fun path hpath => ?_, fun hdoxy => ⟨hnames, ?_⟩⟩
  · cases t with
    | configure | cov | doxy =>
      rw [List.mem_singleton.1 hpath]
      exact hback (.head _)
    | _ => cases hpath
  · subst hdoxy
    exact ⟨_, hbase.offDirs ht hdirs⟩

lemma fresh_of_ensureFresh {dir base : Path} (hdir : dir.Ordinary) {w v : World σ}
    (h : Act.ensureFresh ctx.site (base.join dir) w = .ok () v)
    (hback : StepsBacked ctx.site (base.join dir) w.tree) :
    v.tree.Fresh ctx.site (base.join dir) := by
  obtain ⟨b, t, hremove, hmake⟩ := Act.ensureFresh_ok h
  obtain ⟨u, hu⟩ := exists_makeDir_of_backed hdir hback hremove hmake
  exact Tree.fresh_makeDir hu

lemma locate_of_ensureAbsent {dir base : Path} (hdir : dir.Ordinary) {w v : World σ}
    (h : Act.ensureAbsent ctx.site (base.join dir) w = .ok () v) :
    v.tree.locate ctx.site (base.join dir) = .error .noEntry := by
  obtain ⟨outer, s, -, hends⟩ := hdir.endsIn
  obtain ⟨b, hremove⟩ := Act.ensureAbsent_ok h
  exact Files.locate_of_removeIfThere (hends base) hremove

lemma tree_command {program : Bytes} {cwd : Path} {profile : Option Profile} {inv : Invocation}
    {w v : World σ} (h : ctx.command program cwd profile w = .ok inv v) : v.tree = w.tree := by
  obtain ⟨path, u, hu, h⟩ := EStateM.bind_eq_ok_iff.1 h
  cases h
  cases profile with
  | none => cases hu; rfl
  | some p =>
    obtain ⟨q, x, hx, hu⟩ := EStateM.bind_eq_ok_iff.1 hu
    obtain ⟨_, y, hy, hu⟩ := EStateM.bind_eq_ok_iff.1 hu
    cases hu
    rw [Act.tree_log hy, Act.tree_ofExcept hx]

lemma tree_change_command {change : Act σ Unit} {program : Bytes} {cwd : Path}
    {profile : Option Profile} {f : Invocation → Invocation} {call : Option Invocation}
    {w v : World σ}
    (h : (do
      change
      let inv ← ctx.command program cwd profile
      return some (f inv) : Act σ (Option Invocation)) w = .ok call v) :
    ∃ u, change w = .ok () u ∧ v.tree = u.tree := by
  obtain ⟨_, u, hu, h⟩ := EStateM.bind_eq_ok_iff.1 h
  obtain ⟨inv, x, hx, h⟩ := EStateM.bind_eq_ok_iff.1 h
  cases h
  exact ⟨u, hu, tree_command hx⟩

lemma tree_documentation {w v : World σ} {base : Path} {tool : Bytes}
    (h : ctx.documentation w = .ok (base, tool) v) : v.tree = w.tree := by
  unfold documentation at h
  split at h
  · obtain ⟨_, u, hu, h⟩ := EStateM.bind_eq_ok_iff.1 h
    cases h
    exact Act.tree_log hu
  · obtain ⟨_, u, hu, h⟩ := EStateM.bind_eq_ok_iff.1 h
    obtain ⟨tool, x, hx, h⟩ := EStateM.bind_eq_ok_iff.1 h
    cases h
    rw [Act.tree_ofExcept hx, Act.tree_log hu]

lemma prepare_doxy_eq_ok {w v : World σ} {call : Option Invocation}
    (h : ctx.prepare .doxy w = .ok call v) :
    ∃ u x y : World σ, u.tree = w.tree ∧ Act.ensureFresh ctx.site ctx.doxyOut u = .ok () x ∧
      Act.ensureAbsent ctx.site ctx.doxyXml x = .ok () y ∧ v.tree = y.tree := by
  obtain ⟨⟨base, tool⟩, u, hdoc, h⟩ := EStateM.bind_eq_ok_iff.1 h
  obtain rfl := (documentation_eq_ok hdoc).1
  obtain ⟨_, x, hx, h⟩ := EStateM.bind_eq_ok_iff.1 h
  obtain ⟨y, hy, hv⟩ := tree_change_command h
  exact ⟨u, x, y, tree_documentation hdoc, hx, hy, hv⟩

theorem freed_of_prepare (hl : ctx.config.layout.Ordinary) {t : Task} {w v : World σ}
    {call : Option Invocation} (h : ctx.prepare t w = .ok call v) :
    ∀ path ∈ ctx.freed t, v.tree.locate ctx.site path = .error .noEntry := by
  intro path hpath
  cases t with
  | doxy =>
    obtain ⟨u, x, y, -, -, hy, hv⟩ := prepare_doxy_eq_ok h
    rw [List.mem_singleton.1 hpath, hv]
    exact locate_of_ensureAbsent hl.doxyXmlDir hy
  | breathe =>
    obtain ⟨u, hu, hv⟩ := tree_change_command h
    rw [List.mem_singleton.1 hpath, hv]
    exact locate_of_ensureAbsent hl.sphinxStaleDir hu
  | _ => cases hpath

/-- What a task that has got ready has promised to be empty is a directory with nothing in it. -/
theorem emptied_of_prepare (hl : ctx.config.layout.Ordinary) {t : Task} {w v : World σ}
    {call : Option Invocation} (h : ctx.prepare t w = .ok call v) (hcan : ctx.CanEmpty t w.tree) :
    ∀ path ∈ ctx.emptied t, v.tree.Fresh ctx.site path := by
  intro path hpath
  have hback := hcan.1 path hpath
  cases t with
  | configure =>
    obtain ⟨u, hu, hv⟩ := tree_change_command h
    obtain rfl := List.mem_singleton.1 hpath
    rw [hv]
    exact fresh_of_ensureFresh hl.buildDir hu hback
  | cov =>
    obtain ⟨u, hu, hv⟩ := tree_change_command h
    obtain rfl := List.mem_singleton.1 hpath
    rw [hv]
    exact fresh_of_ensureFresh hl.coverageDir hu hback
  | doxy =>
    obtain ⟨u, x, y, hu, hx, hy, hv⟩ := prepare_doxy_eq_ok h
    obtain rfl := List.mem_singleton.1 hpath
    obtain ⟨hnames, B, hoff⟩ := hcan.2 rfl
    obtain ⟨b, t, hremove, hmake⟩ := Act.ensureFresh_ok hx
    obtain ⟨c, hclear⟩ := Act.ensureAbsent_ok hy
    rw [hu] at hremove
    rw [hv]
    exact fresh_of_remade hl.doxyOutDir hl.doxyXmlDir hnames hoff hback hremove hmake hclear
  | _ => cases hpath

end Context

namespace Stage
variable {ctx : Context σ} {s : Stage σ}

/-- What a stage launches, its task has got ready; it is handed over in the world that this left. -/
theorem Runs.prepare_of_mem_launches (h : s.Runs ctx) {inv : Invocation} (hinv : inv ∈ s.launches) :
    ∃ v, ctx.prepare s.task s.start = .ok (some inv) v ∧
      ctx.body s.task s.start = (do ctx.launch inv; ctx.collect s.task) v := by
  have hquiet := Context.launches_of_quiet (ctx.quiet_prepare s.task) s.start
  have hevents : Event.launches s.finish.events = Event.launches s.start.events ++ s.launches := by
    rw [h.finish_events.1, Event.launches_append, launches]
  rw [← h, Context.body_eq] at hevents
  -- getting ready launches nothing, and what follows launches the call alone
  cases hready : ctx.prepare s.task s.start with
  | error e v =>
    rw [hready] at hquiet
    rw [EStateM.bind_of_error hready, EStateM.Result.state, ← hquiet] at hevents
    have hnone : s.launches = [] := List.self_eq_append_right.1 hevents
    simp [hnone] at hinv
  | ok call v =>
    rw [hready] at hquiet
    rw [EStateM.bind_of_ok hready, ctx.launches_rest, ← hquiet] at hevents
    rw [← List.append_cancel_left hevents, Option.mem_toList] at hinv
    obtain rfl := hinv
    refine ⟨v, rfl, ?_⟩
    rw [Context.body_eq, EStateM.bind_of_ok hready]
    rfl

end Stage

namespace Context

/-- Whatever a run launches, what its task has promised to be free is free at that moment. The
directory that it has promised to be empty is so, if no step outwards on the path leads somewhere
only since it has been made, and it has not gone with the one that is removed after it. -/
theorem tools_find_clean_directories (ctx : Context σ) (hl : ctx.config.layout.Ordinary)
    (requested : List Task) (w : World σ) :
    Event.launches (ctx.runTasks requested w).state.events =
      Event.launches w.events ++ (ctx.stages (Task.plan requested) w).flatMap Stage.launches ∧
    ∀ s ∈ ctx.stages (Task.plan requested) w, ∀ inv ∈ s.launches,
      ∃ v, ctx.prepare s.task s.start = .ok (some inv) v ∧
        ctx.body s.task s.start = (do ctx.launch inv; ctx.collect s.task) v ∧
        (∀ path ∈ ctx.freed s.task, v.tree.locate ctx.site path = .error .noEntry) ∧
        (ctx.CanEmpty s.task s.start.tree →
          ∀ path ∈ ctx.emptied s.task, v.tree.Fresh ctx.site path) := by
  refine ⟨ctx.launches_runTasks requested w, fun s hs inv hinv => ?_⟩
  obtain ⟨v, hready, hbody⟩ := (runs_of_mem_stages hs).prepare_of_mem_launches hinv
  exact ⟨v, hready, hbody, freed_of_prepare hl hready, emptied_of_prepare hl hready⟩

/-- A project in a directory, with a runner that remembers the trees it is handed. -/
def rebuilding (root : String) : Context (List Tree) where
  config := { Config.builtIn with project := { Project.builtIn with gccPaths := [] } }
  root := .ofString root
  ci := false
  inherited := none
  site := { cwd := [] }
  runner _ seen t := ⟨seen ++ [t], t, [], .ok ()⟩

/-- A build directory in which an earlier build has left a file. -/
def built : Tree :=
  let project := word "project"
  let build := word "build"
  ((Tree.empty.insert [project] .dir).insert [build, project] .dir).insert
    [word "old", build, project] (.file [] false)

/-- The same, with a file in each directory of doxygen. -/
def builtDocs : Tree :=
  let place (names : List String) : Place := names.map word
  let out := [["docs", "build", "project"], ["doxy", "docs", "build", "project"]]
  let xml := [["docs", "project"], ["sphinx", "docs", "project"],
    ["_doxyxml", "sphinx", "docs", "project"]]
  let dirs := (out ++ xml).foldl (fun t names => t.insert (place names) .dir) built
  (dirs.insert (place ["old", "doxy", "docs", "build", "project"]) (.file [] false)).insert
    (place ["old", "_doxyxml", "sphinx", "docs", "project"]) (.file [] false)

theorem tools_find_clean_directories_rebuild :
    let ctx := rebuilding "project"
    ctx.config.layout.Ordinary ∧ ∀ t ∈ [Task.configure, .doxy],
      ∃ s ∈ ctx.stages (Task.plan [t]) ⟨builtDocs, [], []⟩, ∃ inv ∈ s.launches, s.task = t ∧
        ∃ v, ctx.prepare s.task s.start = .ok (some inv) v ∧
          (∀ path ∈ ctx.freed t, v.tree.locate ctx.site path = .error .noEntry) ∧
          ∀ path ∈ ctx.emptied t, v.tree.Fresh ctx.site path := by
  intro ctx
  have hl : ctx.config.layout.Ordinary := by decide +kernel
  have hstages : ∀ t ∈ [Task.configure, .doxy], ∃ s ∈ ctx.stages (Task.plan [t])
      ⟨builtDocs, [], []⟩, s.task = t ∧ s.launches.length = 1 ∧ s.start.tree.Linkless := by
    decide +kernel
  refine ⟨hl, fun t ht => ?_⟩
  obtain ⟨s, hs, rfl, hlen, hlinks⟩ := hstages t ht
  obtain ⟨inv, hinv⟩ := List.exists_mem_of_length_pos (by omega : 0 < s.launches.length)
  obtain ⟨v, hready, -, hfree, hempty⟩ :=
    (tools_find_clean_directories ctx hl [s.task] _).2 s hs inv hinv
  refine ⟨s, hs, inv, hinv, rfl, v, hready, hfree, hempty ?_⟩
  have hroot : Path.dotDot ∉ ctx.root.names := by decide +kernel
  by_cases hdoxy : s.task = .doxy
  · have hnames : ¬ctx.config.layout.doxyXmlDir.names <+: ctx.config.layout.doxyOutDir.names := by
      decide +kernel
    have hbase : ctx.baseOf s.task = ctx.root := by
      rw [hdoxy]
      rfl
    exact canEmpty_of_linkless hl hlinks hnames fun hdots => absurd (hbase ▸ hdots) hroot
  · exact canEmpty_of_not_outwards hl hdoxy hroot s.start.tree

/-- What an earlier build has left can be there when cmake is launched: by way of a missing
directory it is not found when the old directory is to be removed, but then this way is made. -/
theorem stale_build_at_launch :
    let ctx := rebuilding "missing/../project"
    ∃ u, ctx.runTasks [.configure] ⟨built, [], []⟩ = .ok () u ∧ ∃ tree ∈ u.runner,
      ¬tree.Fresh ctx.site ctx.buildDir ∧
      tree.at? [word "old", word "build", word "project"] = some (.file [] false) := by
  decide +kernel

/-- A project with a link to its build directory, by way of which the second directory of doxygen is
around the first. -/
def aliasing : Context (List Tree) :=
  let layout := { Layout.builtIn with doxyXmlDir := .ofString "alias/docs" }
  let ctx := rebuilding "project"
  { ctx with config := { ctx.config with layout } }

def aliased : Tree := built.insert [word "alias", word "project"] (.link (word "build"))

/-- The first directory of doxygen can be gone when doxygen is launched: with the second, where a
link leads to it, or out of reach without it, where the root is reached through it. -/
theorem output_gone_at_launch :
    let detour := rebuilding "project/docs/sphinx/_doxyxml/../../.."
    ∀ x ∈ [(aliasing, aliased), (detour, builtDocs)],
      x.1.config.layout.Ordinary ∧
      ¬x.1.config.layout.doxyXmlDir.names <+: x.1.config.layout.doxyOutDir.names ∧
      x.2.isDirAt x.1.site x.1.root = true ∧
      ∃ e u, x.1.runTasks [.doxy] ⟨x.2, [], []⟩ = .error e u ∧ ∃ tree ∈ u.runner,
        tree.isDirAt x.1.site x.1.doxyOut = false := by
  decide +kernel

end Context
end FirmwareTasks
