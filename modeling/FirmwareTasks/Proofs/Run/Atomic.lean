import FirmwareTasks.Proofs.Run.Calls
import FirmwareTasks.Proofs.Run.Shown
import FirmwareTasks.Tool.Runner
/-!
Errors of the configuration come before any change. Two tasks empty a directory before they put
their search path together; it is the order of the plan that keeps them from failing in between.
-/
namespace FirmwareTasks
variable {σ : Type}

/-- The runner fails over the tools it is handed only. -/
def Runner.FailsOverTools (r : Runner σ) : Prop :=
  ∀ inv s t e, (r inv s t).result = .error e → e.isTool = true

namespace Tool

lemma isTool_of_verdict_eq_error {inv : Invocation} {ending : Ending} {e : Error}
    (h : verdict inv ending = .error e) : e.isTool = true := by
  unfold verdict at h
  split at h <;> cases h <;> rfl

/-- The runner that executes tools as processes fails over tools only. -/
theorem failsOverTools_runner (env : Environment) (site : Site) :
    Runner.FailsOverTools (runner env site) := by
  intro inv s t e h
  cases hstart : start env site inv { tree := t, mounts := site.mounts, order := site.order } with
  | ok p =>
    simp only [runner, runnerOf, run, hstart] at h
    exact isTool_of_verdict_eq_error h
  | error cause =>
    simp only [runner, runnerOf, run, hstart] at h
    cases h
    rfl

end Tool

namespace Context
variable {ctx : Context σ}

lemma runBuildTool_of_error {e : Error} (h : ctx.config.buildTool = .error e) (t : Task)
    (args : List String) (w : World σ) : ctx.runBuildTool t args w = .error e w := by
  rw [runBuildTool, h]
  rfl

lemma doxygen_of_error {e : Error} (h : ctx.program? .doxy = .error e) (w : World σ) :
    ctx.doxygen w = .error e
      { w with events := w.events ++ [.own (.log .info "Normal documentation build")] } := by
  cases hci : ctx.ci with
  | true =>
    rw [program?, if_pos hci] at h
    cases h
  | false =>
    rw [program?, if_neg (by simp [hci])] at h
    have htool := Except.map_eq_error_iff.1 h
    refine EStateM.bind_of_error ?_ _
    rw [documentation, if_neg (by simp [hci]), htool]
    rfl

theorem body_of_program_error {t : Task} {e : Error} (h : ctx.program? t = .error e) {w v : World σ}
    (hv : ctx.body t w = .error e v) : v.unlogged = w.unlogged := by
  cases t with
  | all | clean | testConf | testRun =>
    rw [body, runBuildTool_of_error (Except.map_eq_error_iff.1 h)] at hv
    cases hv
    rfl
  | doxy =>
    rw [body, doxygen_of_error h] at hv
    cases hv
    simp [World.unlogged, Event.unlogged, Event.isLog]
  | _ => cases h

/-- Once its search path is known, a task fails over the configuration before any change. -/
theorem body_of_configuration_error (hr : Runner.FailsOverTools ctx.runner) {t : Task} {e : Error}
    {w v : World σ} (hpath : ∃ path, ctx.toolPath t.profile = .ok path)
    (hv : ctx.body t w = .error e v) (he : e.isConfiguration = true) : v.unlogged = w.unlogged := by
  rcases (ctx.script_body t).raises hv with hfails | ⟨c, hc⟩
  · cases hfails with
    | plain h => simp [h] at he
    | program h => exact body_of_program_error h hv
    | toolPath h =>
      -- `configure` and `coverage` would have emptied their directory by now
      obtain ⟨path, hpath⟩ := hpath
      rw [hpath] at h
      cases h
    | @shown p ht h =>
      subst ht
      rw [body_task, showSearchPath_of_error h] at hv
      cases hv
      rfl
  · have htool := hr _ _ _ _ hc
    simp [Error.isTool_eq_false_of_isConfiguration he] at htool

/-- A run that fails over the configuration fails in a task that has neither changed the file tree
nor launched a tool, nor done anything else but log. -/
theorem configuration_error_is_atomic (hr : Runner.FailsOverTools ctx.runner)
    {requested : List Task} {w u : World σ} {e : Error}
    (h : ctx.runTasks requested w = .error e u) (he : e.isConfiguration = true) :
    ∃ before t rest v v', Task.plan requested = before ++ t :: rest ∧ ctx.Completes before w v ∧
      ctx.body t v = .error e v' ∧ v'.unlogged = u.unlogged ∧ u.unlogged = v.unlogged ∧
      u.tree = v.tree ∧ Event.launches u.events = Event.launches v.events := by
  have hrun : Act.unlogged (ctx.bodies (Task.plan requested)) w = .error e u.unlogged := by
    rw [← unlogged_runTasks]
    exact Act.unlogged_of_error h
  obtain ⟨v', hbodies, hu⟩ := Act.unlogged_eq_error_iff.1 hrun
  obtain ⟨before, t, rest, v, hplan, hc, ht⟩ := bodies_eq_error_iff.1 hbodies
  have hsame := body_of_configuration_error hr (hc.toolPath_ok hplan) ht he
  have huv : u.unlogged = v.unlogged := hu.symm.trans hsame
  have htree : u.tree = v.tree := congrArg (·.tree) huv
  exact ⟨before, t, rest, v, v', hplan, hc, ht, hu, huv, htree, World.launches_eq huv⟩

/-- The built-in configuration without tool directories, and tools that succeed and do nothing. -/
def withoutDirectories : Context Unit where
  config := { Config.builtIn with paths := [] }
  root := .ofString "/project"
  ci := false
  inherited := none
  site := { cwd := [] }
  runner _ s t := ⟨s, t, [], .ok ()⟩

/-- The build tool cannot be found after another task has launched its own tool. -/
theorem configuration_error_is_atomic_withoutDirectories :
    Runner.FailsOverTools withoutDirectories.runner ∧
    ∃ w u, withoutDirectories.runTasks [.diff, .all] w = .error (.unknownPath "ninja") u ∧
      ∃ before t rest v v', Task.plan [.diff, .all] = before ++ t :: rest ∧
        withoutDirectories.Completes before w v ∧
        withoutDirectories.body t v = .error (.unknownPath "ninja") v' ∧
        v'.unlogged = u.unlogged ∧ u.unlogged = v.unlogged ∧ u.tree = v.tree ∧
        Event.launches u.events = Event.launches v.events := by
  have hr : Runner.FailsOverTools withoutDirectories.runner := by
    intro inv s t e h
    cases h
  refine ⟨hr, { tree := .empty, runner := () }, _, rfl, ?_⟩
  exact configuration_error_is_atomic hr rfl rfl

end Context
end FirmwareTasks
