import Mathlib.Data.List.Basic
import FirmwareTasks.Proofs.Run.Order
import FirmwareTasks.Proofs.Run.Parts
/-!
Which tools a run calls. The call of a task follows from the configuration, the root, the mode and
the inherited search path; a run hands over the calls of its plan in order, up to the task that
fails.
-/
namespace FirmwareTasks
variable {σ : Type}

namespace Task
open Context (word reportPage)

/-- The search path that the tool of a task gets, if it can be put together. -/
def toolPath? (config : Config) (inherited : Option Bytes) (t : Task) : Option (Option Bytes) :=
  match t.profile with
  | none => some none
  | some p => (SearchPath.ofProfile config inherited p).toOption.map some

/-- The directory that the documentation paths are relative to, and the doxygen to run there. -/
def doxygen? (config : Config) (root : Path) (ci : Bool) : Option (Path × Bytes) :=
  if ci then some (root.join config.layout.ciPrefix, word "doxygen")
  else (config.tool "doxygen").toOption.map fun tool => (root, tool.bytes)

/-- The call of the tool of a task, if it has one and the configuration names what it takes. -/
def invocation? (config : Config) (root : Path) (ci : Bool) (inherited : Option Bytes) (t : Task) :
    Option Invocation := do
  let project := config.project
  let layout := config.layout
  let buildDir := root.join layout.buildDir
  let path ← t.toolPath? config inherited
  match t with
  | configure =>
    some ⟨word "cmake",
      [word ("-DCMAKE_TOOLCHAIN_FILE=" ++ project.toolchainFile), word ("-G" ++ project.generator),
        root.bytes], buildDir, path⟩
  | all =>
    let tool ← config.buildTool.toOption
    some ⟨tool.bytes, [word ("-j" ++ toString project.jobs), word "all"], buildDir, path⟩
  | clean =>
    let tool ← config.buildTool.toOption
    some ⟨tool.bytes, [word "clean"], buildDir, path⟩
  | testConf =>
    let tool ← config.buildTool.toOption
    some ⟨tool.bytes, [word "unittest_prepare"], buildDir, path⟩
  | testRun =>
    let tool ← config.buildTool.toOption
    some ⟨tool.bytes, [word "unittest_run"], buildDir, path⟩
  | testJunit =>
    some ⟨word project.python,
      [project.junitScript.bytes, layout.unittestDir.bytes ++ [Path.slash]], root, path⟩
  | cov =>
    some ⟨word "gcovr",
      [word "-r", word ".", word "--html", word "--html-details", word "-o",
        ((root.join layout.coverageDir).join reportPage).bytes], buildDir, path⟩
  | doxy =>
    let (base, tool) ← doxygen? config root ci
    some ⟨tool, [word project.doxyfile], base.join layout.doxyConfDir, path⟩
  | breathe =>
    some ⟨word "sphinx-build",
      [word ("-Dversion=" ++ project.docVersion), word ("-Drelease=" ++ project.docVersion),
        word ("-Aversion=" ++ project.docVersion), word "-b", word "html",
        (root.join layout.sphinxSourceDir).bytes, (root.join layout.sphinxOutDir).bytes],
      root, path⟩
  | showDoc =>
    some ⟨word "xdg-open",
      [((root.join layout.sphinxOutDir).join (.ofString "index.html")).bytes], root, path⟩
  | diff => some ⟨word "git", [word "difftool", word "--dir-diff"], root, path⟩
  | env | envGcc | cleanAll | make | test | doc => none

def toolless : List Task := [env, envGcc, cleanAll, make, test, doc]

end Task
namespace Context
variable {ctx : Context σ}

def invocation? (ctx : Context σ) (t : Task) : Option Invocation :=
  t.invocation? ctx.config ctx.root ctx.ci ctx.inherited

lemma command_eq_ok {program : Bytes} {cwd : Path} {t : Task} {w u : World σ}
    {inv : Invocation} (h : ctx.command program cwd t.profile w = .ok inv u) :
    ∃ path, t.toolPath? ctx.config ctx.inherited = some path ∧ inv = ⟨program, [], cwd, path⟩ := by
  obtain ⟨path, v, hp, h⟩ := EStateM.bind_eq_ok_iff.1 h
  cases h
  refine ⟨path, ?_, rfl⟩
  have hpath := searchPath_ok hp
  unfold Task.toolPath?
  split <;> rename_i hprofile <;> rw [hprofile] at hpath
  · cases hpath; rfl
  · obtain ⟨q, hq, rfl⟩ := Except.map_eq_ok_iff.1 hpath
    rw [hq]
    rfl

lemma prepareBuildTool_ok {t : Task} {args : List String} {w u : World σ} {call : Option Invocation}
    (h : ctx.prepareBuildTool t args w = .ok call u) :
    ∃ tool path, ctx.config.buildTool = .ok tool ∧
      t.toolPath? ctx.config ctx.inherited = some path ∧
      call = some ⟨tool.bytes, args.map word, ctx.buildDir, path⟩ := by
  obtain ⟨tool, v, htool, h⟩ := EStateM.bind_eq_ok_iff.1 h
  obtain ⟨inv, v', hinv, h⟩ := EStateM.bind_eq_ok_iff.1 h
  obtain ⟨path, hpath, rfl⟩ := command_eq_ok hinv
  cases h
  exact ⟨tool, path, Act.ofExcept_ok htool, hpath, rfl⟩

lemma documentation_eq_ok {w u : World σ} {base : Path} {tool : Bytes}
    (h : ctx.documentation w = .ok (base, tool) u) :
    base = ctx.documentationBase ∧
      Task.doxygen? ctx.config ctx.root ctx.ci = some (base, tool) := by
  unfold documentation at h
  unfold documentationBase Task.doxygen?
  split at h <;> rename_i hci
  · obtain ⟨_, _, _, h⟩ := EStateM.bind_eq_ok_iff.1 h
    cases h
    simp [hci, path]
  · obtain ⟨_, _, _, h⟩ := EStateM.bind_eq_ok_iff.1 h
    obtain ⟨tool, _, htool, h⟩ := EStateM.bind_eq_ok_iff.1 h
    cases h
    simp [hci, Act.ofExcept_ok htool, Except.toOption]

theorem prepare_eq_ok {t : Task} {w u : World σ} {call : Option Invocation}
    (h : ctx.prepare t w = .ok call u) :
    call = ctx.invocation? t ∧ (call = none ↔ t ∈ Task.toolless) := by
  unfold invocation?
  cases t with
  | env | envGcc | cleanAll =>
    obtain ⟨_, _, _, h⟩ := EStateM.bind_eq_ok_iff.1 h
    cases h
    exact ⟨rfl, by decide⟩
  | make | test | doc =>
    cases h
    exact ⟨rfl, by decide⟩
  | configure | cov | breathe =>
    obtain ⟨_, _, _, h⟩ := EStateM.bind_eq_ok_iff.1 h
    obtain ⟨inv, _, hinv, h⟩ := EStateM.bind_eq_ok_iff.1 h
    obtain ⟨path, hpath, rfl⟩ := command_eq_ok hinv
    cases h
    exact ⟨by rw [Task.invocation?, hpath]; rfl, by simp [Task.toolless]⟩
  | all | clean | testConf | testRun =>
    obtain ⟨tool, path, htool, hpath, rfl⟩ := prepareBuildTool_ok h
    exact ⟨by rw [Task.invocation?, hpath, htool]; rfl, by simp [Task.toolless]⟩
  | testJunit | diff =>
    obtain ⟨inv, _, hinv, h⟩ := EStateM.bind_eq_ok_iff.1 h
    obtain ⟨path, hpath, rfl⟩ := command_eq_ok hinv
    cases h
    exact ⟨by rw [Task.invocation?, hpath]; rfl, by simp [Task.toolless]⟩
  | doxy =>
    obtain ⟨⟨base, tool⟩, _, hdoc, h⟩ := EStateM.bind_eq_ok_iff.1 h
    obtain ⟨_, _, _, h⟩ := EStateM.bind_eq_ok_iff.1 h
    obtain ⟨_, _, _, h⟩ := EStateM.bind_eq_ok_iff.1 h
    obtain ⟨inv, _, hinv, h⟩ := EStateM.bind_eq_ok_iff.1 h
    obtain ⟨path, hpath, rfl⟩ := command_eq_ok hinv
    cases h
    have hbase := (documentation_eq_ok hdoc).2
    exact ⟨by rw [Task.invocation?, hpath, hbase]; rfl, by simp [Task.toolless]⟩
  | showDoc =>
    obtain ⟨v, _, hv, h⟩ := EStateM.bind_eq_ok_iff.1 h
    split at h
    · cases h
      exact ⟨rfl, by simp [Task.toolless]⟩
    · obtain ⟨_, _, _, h⟩ := EStateM.bind_eq_ok_iff.1 h
      cases h

lemma launches_of_quiet {α : Type} {m : Act σ α} (h : Script ctx quiet m) (w : World σ) :
    Event.launches (m w).state.events = Event.launches w.events := by
  obtain ⟨es, he, hes⟩ := h.events w
  have hnone : Event.launches es = [] := by
    refine List.filterMap_eq_nil_iff.2 fun e hmem => ?_
    cases e with
    | own _ => rfl
    | launch inv _ => exact (hes _ hmem).elim
  rw [he, Event.launches_append, hnone, List.append_nil]

lemma launches_launchAny (ctx : Context σ) (call : Option Invocation) (w : World σ) :
    Event.launches (ctx.launchAny call w).state.events =
      Event.launches w.events ++ call.toList := by
  cases call with
  | none => exact (List.append_nil _).symm
  | some inv =>
    rw [launchAny, state_launch, launched, Event.launches_append]
    rfl

lemma launches_rest (ctx : Context σ) (t : Task) (call : Option Invocation) (w : World σ) :
    Event.launches ((do ctx.launchAny call; ctx.collect t : Act σ Unit) w).state.events =
      Event.launches w.events ++ call.toList := by
  have hlaunch := ctx.launches_launchAny call w
  cases h : ctx.launchAny call w with
  | error e u =>
    rw [EStateM.bind_of_error h]
    rw [h] at hlaunch
    exact hlaunch
  | ok _ u =>
    rw [EStateM.bind_of_ok h, launches_of_quiet (ctx.quiet_collect t)]
    rw [h] at hlaunch
    exact hlaunch

/-- A body that succeeds has handed over the invocation of its task, and nothing else. -/
theorem launches_of_body_ok {t : Task} {w u : World σ} (h : ctx.body t w = .ok () u) :
    Event.launches u.events = Event.launches w.events ++ (ctx.invocation? t).toList ∧
      (ctx.invocation? t = none ↔ t ∈ Task.toolless) := by
  rw [body_eq] at h
  obtain ⟨call, v, hprepare, hrest⟩ := EStateM.bind_eq_ok_iff.1 h
  obtain ⟨rfl, hcall⟩ := prepare_eq_ok hprepare
  refine ⟨?_, hcall⟩
  have hv := launches_of_quiet (ctx.quiet_prepare t) w
  have hu := ctx.launches_rest t (ctx.invocation? t) v
  rw [hprepare] at hv
  rw [hrest] at hu
  calc Event.launches u.events
    _ = Event.launches v.events ++ (ctx.invocation? t).toList := hu
    _ = Event.launches w.events ++ (ctx.invocation? t).toList := by rw [← hv]; rfl

/-- Bodies that all succeed hand over the invocations of their tasks in order. -/
theorem Completes.launches {ts : List Task} {w v : World σ} (h : ctx.Completes ts w v) :
    Event.launches v.events = Event.launches w.events ++ ts.filterMap ctx.invocation? ∧
      ∀ t ∈ ts, ctx.invocation? t = none ↔ t ∈ Task.toolless := by
  induction h with
  | nil w => exact ⟨(List.append_nil _).symm, by simp⟩
  | @cons t ts w u v first rest ih =>
    obtain ⟨hu, ht⟩ := launches_of_body_ok first
    obtain ⟨hv, hts⟩ := ih
    refine ⟨?_, by simpa [ht] using hts⟩
    rw [hv, hu, List.append_assoc]
    cases hcall : ctx.invocation? t <;> simp [hcall]

end Context
end FirmwareTasks
