import FirmwareTasks.Proofs.Path
import FirmwareTasks.Proofs.Run.Body
/-!
The parts of a task. A task with a tool first gets ready and puts together the call, then hands it
over, and then puts away what the tool has left. Only the second part has to do with the runner, so
what a tool finds is what the first part leaves.
-/
namespace FirmwareTasks
variable {σ α : Type}

namespace Context
variable (ctx : Context σ)

/-- The directory that the documentation paths are relative to. -/
def documentationBase : Path := if ctx.ci then ctx.path ctx.config.layout.ciPrefix else ctx.root

def prepareBuildTool (t : Task) (args : List String) : Act σ (Option Invocation) := do
  let tool ← ofExcept ctx.config.buildTool
  let inv ← ctx.command tool.bytes ctx.buildDir t.profile
  return some { inv with args := args.map word }

/-- What a task does up to the call of its tool. -/
def prepare : Task → Act σ (Option Invocation)
  | .env => do ctx.showSearchPath .full; return none
  | .envGcc => do ctx.showSearchPath .gcc; return none
  | .configure => do
    Act.ensureFresh ctx.site ctx.buildDir
    let project := ctx.config.project
    let inv ← ctx.command (word "cmake") ctx.buildDir Task.configure.profile
    return some { inv with
      args := [word ("-DCMAKE_TOOLCHAIN_FILE=" ++ project.toolchainFile),
        word ("-G" ++ project.generator), ctx.root.bytes] }
  | .all => ctx.prepareBuildTool .all ["-j" ++ toString ctx.config.project.jobs, "all"]
  | .clean => ctx.prepareBuildTool .clean ["clean"]
  | .cleanAll => do ctx.cleanAll; return none
  | .testConf => ctx.prepareBuildTool .testConf ["unittest_prepare"]
  | .testRun => ctx.prepareBuildTool .testRun ["unittest_run"]
  | .testJunit => do
    let project := ctx.config.project
    let inv ← ctx.command (word project.python) ctx.root Task.testJunit.profile
    return some { inv with
      args := [project.junitScript.bytes,
        ctx.config.layout.unittestDir.bytes ++ [Path.slash]] }
  | .cov => do
    let dir := ctx.path ctx.config.layout.coverageDir
    Act.ensureFresh ctx.site dir
    let inv ← ctx.command (word "gcovr") ctx.buildDir Task.cov.profile
    return some { inv with
      args := ["-r", ".", "--html", "--html-details", "-o"].map word ++
        [(dir.join reportPage).bytes] }
  | .doxy => do
    let layout := ctx.config.layout
    let (base, tool) ← ctx.documentation
    Act.ensureFresh ctx.site (base.join layout.doxyOutDir)
    Act.ensureAbsent ctx.site (base.join layout.doxyXmlDir)
    let inv ← ctx.command tool (base.join layout.doxyConfDir) Task.doxy.profile
    return some { inv with args := [word ctx.config.project.doxyfile] }
  | .breathe => do
    let layout := ctx.config.layout
    let version := ctx.config.project.docVersion
    Act.ensureAbsent ctx.site (ctx.path layout.sphinxStaleDir)
    let inv ← ctx.command (word "sphinx-build") ctx.root Task.breathe.profile
    return some { inv with
      args := [word ("-Dversion=" ++ version), word ("-Drelease=" ++ version),
        word ("-Aversion=" ++ version), word "-b", word "html",
        (ctx.path layout.sphinxSourceDir).bytes, (ctx.path layout.sphinxOutDir).bytes] }
  | .showDoc => do
    let index := (ctx.path ctx.config.layout.sphinxOutDir).join (.ofString "index.html")
    if (← get).tree.isFileAt ctx.site index then
      return some ⟨word "xdg-open", [index.bytes], ctx.root, none⟩
    else
      Act.log .warn "Documentation not built yet, run `doc` first"
      throw (.missingFile index)
  | .diff => do
    let inv ← ctx.command (word "git") ctx.root Task.diff.profile
    return some { inv with args := ["difftool", "--dir-diff"].map word }
  | .make | .test | .doc => return none

/-- What a task does once its tool has succeeded. -/
def collect : Task → Act σ Unit
  | .testJunit => do
    let report := Path.ofString ctx.config.project.junitReport
    let target := (ctx.path ctx.config.layout.artifactsDir).join report
    Act.relocate ctx.site (ctx.path report) target
    Act.log .info ("JUnit report: " ++ target.text)
  | .cov => do
    let dir := ctx.path ctx.config.layout.coverageDir
    let target := ctx.coverageTarget
    if !decide (target.SameAs dir) then
      Act.ensureAbsent ctx.site target
      Act.relocate ctx.site dir target
    Act.log .info ("Coverage report: " ++ (target.join reportPage).text)
  | .doxy => do
    let layout := ctx.config.layout
    let xml := (ctx.documentationBase.join layout.doxyOutDir).join (.ofString "xml")
    Act.copyTree ctx.site xml (ctx.documentationBase.join layout.doxyXmlDir)
    Act.ensureAbsent ctx.site xml
  | _ => pure ()

def launchAny : Option Invocation → Act σ Unit
  | none => pure ()
  | some inv => ctx.launch inv

theorem body_eq (t : Task) :
    ctx.body t = (do
      let call ← ctx.prepare t
      ctx.launchAny call
      ctx.collect t) := by
  cases t with
  | env | envGcc | cleanAll | make | test | doc =>
    simp [body, prepare, collect, launchAny]
  | configure => simp [body, configure, prepare, collect, launchAny]
  | all | clean | testConf | testRun =>
    simp [body, runBuildTool, prepare, prepareBuildTool, collect, launchAny]
  | testJunit => simp [body, testJunit, prepare, collect, launchAny]
  | cov => simp [body, coverage, prepare, collect, launchAny]
  | breathe => simp [body, breathe, prepare, collect, launchAny]
  | diff => simp [body, diff, prepare, collect, launchAny]
  | doxy =>
    simp only [body, doxygen, prepare, collect, launchAny, documentation, documentationBase]
    split <;> simp
  | showDoc =>
    simp only [body, showDoc, prepare, collect, launchAny, bind_assoc]
    refine bind_congr fun w => ?_
    split
    · simp
    · rfl

/-- The world in which the tool of a task has succeeded, if it comes to that. -/
def afterTool (t : Task) (w : World σ) : Option (World σ) :=
  match ctx.prepare t w with
  | .ok (some inv) v =>
    match ctx.launch inv v with
    | .ok _ l => some l
    | .error .. => none
  | _ => none

lemma afterTool_eq_some_iff {t : Task} {w l : World σ} :
    ctx.afterTool t w = some l ↔
      ∃ inv v, ctx.prepare t w = .ok (some inv) v ∧ ctx.launch inv v = .ok () l := by
  unfold afterTool
  constructor
  · intro h
    split at h
    · rename_i inv v hready
      split at h
      · rename_i hlaunch
        obtain rfl := Option.some.inj h
        exact ⟨inv, v, hready, hlaunch⟩
      · cases h
    · cases h
  · rintro ⟨inv, v, hready, hlaunch⟩
    simp only [hready, hlaunch]

lemma body_of_afterTool {t : Task} {w l : World σ} (h : ctx.afterTool t w = some l) :
    ctx.body t w = ctx.collect t l := by
  obtain ⟨inv, v, hready, hlaunch⟩ := ctx.afterTool_eq_some_iff.1 h
  rw [body_eq, EStateM.bind_of_ok hready]
  exact EStateM.bind_of_ok hlaunch _

/-! ### Where the coverage report is collected -/

lemma coverageTarget_eq : ∃ n, Path.IsName n ∧ Path.slash ∉ n ∧
    ctx.coverageTarget = (ctx.path ctx.config.layout.artifactsDir).join ⟨n⟩ := by
  unfold coverageTarget
  dsimp only
  cases h : ctx.config.layout.coverageDir.fileName? with
  | none => exact ⟨word "coverage", by decide +kernel, by decide +kernel, rfl⟩
  | some n =>
    obtain ⟨hn, hslash⟩ := Path.isName_of_fileName? h
    exact ⟨n, hn, hslash, rfl⟩

lemma coverageTarget_of_ordinary (h : ctx.config.layout.coverageDir.Ordinary) :
    ∃ outer n, ctx.config.layout.coverageDir.names = outer ++ [n] ∧
      (Path.IsName n ∧ Path.slash ∉ n) ∧
      ctx.coverageTarget = (ctx.path ctx.config.layout.artifactsDir).join ⟨n⟩ := by
  obtain ⟨outer, n, hnames, -⟩ := h.endsIn
  have hmem : n ∈ ctx.config.layout.coverageDir.names := by simp [hnames]
  refine ⟨outer, n, hnames, ⟨h.isName_of_mem hmem, Path.slash_not_mem_of_mem_names hmem⟩, ?_⟩
  rw [coverageTarget, h.fileName?_eq, hnames, List.getLast?_concat]
  rfl

lemma endsIn_coverageTarget : ∃ outer s, ctx.coverageTarget.EndsIn outer s := by
  obtain ⟨n, hn, hslash, htarget⟩ := ctx.coverageTarget_eq
  rw [htarget]
  exact ⟨_, n, Path.endsIn_join_mk hn hslash _⟩

def quiet : Footprint := ⟨fun _ => True, fun _ => False, fun _ => True⟩

lemma quiet_roomy : quiet.Roomy := ⟨fun _ _ => trivial, fun _ _ _ => trivial⟩

lemma quiet_command {program : Bytes} {cwd : Path} {profile : Option Profile}
    {k : Invocation → Act σ α} (h : ∀ inv, Script ctx quiet (k inv)) :
    Script ctx quiet (ctx.command program cwd profile >>= k) :=
  .bind (.command quiet_roomy fun _ _ => trivial) fun _ _ _ _ => h _

theorem quiet_prepare (t : Task) : Script ctx quiet (ctx.prepare t) := by
  have hF := quiet_roomy
  cases t with
  | env | envGcc =>
    refine .bind (.bind (.searchPath hF fun _ _ => trivial) fun _ _ _ _ => ?_) fun _ _ _ _ =>
      .pure _
    exact .bind (.log hF _ _) fun _ _ _ _ => .emit trivial
  | configure | cov =>
    refine .bind (.ensureFresh hF _ _) fun _ _ _ _ => ?_
    exact ctx.quiet_command fun _ => .pure _
  | breathe =>
    refine .bind (.ensureAbsent hF _ _) fun _ _ _ _ => ?_
    exact ctx.quiet_command fun _ => .pure _
  | all | clean | testConf | testRun =>
    refine .bind (.ofExcept fun _ _ => trivial) fun _ _ _ _ => ?_
    exact ctx.quiet_command fun _ => .pure _
  | testJunit | diff => exact ctx.quiet_command fun _ => .pure _
  | cleanAll =>
    refine .bind (.bind (.ensureAbsent hF _ _) fun _ _ _ _ => ?_) fun _ _ _ _ => .pure _
    exact .ensureAbsent hF _ _
  | doxy =>
    refine .bind ?_ fun (base, tool) _ _ _ => ?_
    · unfold documentation
      split
      · exact .bind (.log hF _ _) fun _ _ _ _ => .pure _
      · refine .bind (.log hF _ _) fun _ _ _ _ => ?_
        exact .bind (.ofExcept fun _ _ => trivial) fun _ _ _ _ => .pure _
    · refine .bind (.ensureFresh hF _ _) fun _ _ _ _ => ?_
      refine .bind (.ensureAbsent hF _ _) fun _ _ _ _ => ?_
      exact ctx.quiet_command fun _ => .pure _
  | showDoc =>
    refine .look (f := fun t => if t.isFileAt ctx.site _ then _ else _) fun t => ?_
    split
    · exact .pure _
    · exact .bind (.log hF _ _) fun _ _ _ _ => .throw trivial
  | make | test | doc => exact .pure _

theorem quiet_collect (t : Task) : Script ctx quiet (ctx.collect t) := by
  have hF := quiet_roomy
  cases t with
  | testJunit => exact .bind (.relocate hF _ _ _) fun _ _ _ _ => .log hF _ _
  | cov =>
    dsimp only [collect]
    split
    · refine .bind (.ensureAbsent hF _ _) fun _ _ _ _ => ?_
      exact .bind (.relocate hF _ _ _) fun _ _ _ _ => .log hF _ _
    · exact .log hF _ _
  | doxy => exact .bind (.copyTree hF _ _ _) fun _ _ _ _ => .ensureAbsent hF _ _
  | _ => exact .pure ()

end Context
end FirmwareTasks
