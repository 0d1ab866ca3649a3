import FirmwareTasks.Proofs.Run.Order
/-!
Showing a search path, and what the tasks after it can rely on: a tool with a profile belongs to a
task that stands after the one that shows this profile.
-/
namespace FirmwareTasks

lemma Task.task_mem_prerequisites {t : Task} {p : Profile} (h : t.profile = some p) :
    p.task ∈ t.prerequisites := by
  unfold profile at h
  split at h
  · cases h; assumption
  · split at h
    · cases h; assumption
    · cases h

namespace Context
variable {σ : Type} {ctx : Context σ}

@[simp] lemma body_task (ctx : Context σ) (p : Profile) :
    ctx.body p.task = ctx.showSearchPath p := by
  cases p <;> rfl

lemma searchPath_of_ok {p : Profile} {path : Bytes}
    (h : SearchPath.ofProfile ctx.config ctx.inherited p = .ok path) (w : World σ) :
    ctx.searchPath (some p) w = .ok (some path)
      { w with events := w.events ++ [.own (.log .trace (SearchPath.trace p path))] } := by
  rw [searchPath, h]
  rfl

lemma searchPath_of_error {p : Profile} {e : Error}
    (h : SearchPath.ofProfile ctx.config ctx.inherited p = .error e) (w : World σ) :
    ctx.searchPath (some p) w = .error e w := by
  rw [searchPath, h]
  rfl

theorem showSearchPath_of_ok {p : Profile} {path : Bytes}
    (h : SearchPath.ofProfile ctx.config ctx.inherited p = .ok path) (w : World σ) :
    ∃ es, ctx.showSearchPath p w = .ok () { w with events := w.events ++ es } ∧
      Event.printed es = [SearchPath.line path] := by
  let count := (SearchPath.split path).length
  let entries := p.name ++ " search path has " ++ toString count ++ " entries"
  refine ⟨[.own (.log .trace (SearchPath.trace p path)), .own (.log .debug entries),
    .own (.output (SearchPath.line path))], ?_, rfl⟩
  rw [showSearchPath, EStateM.bind_of_ok (searchPath_of_ok h w)]
  refine (EStateM.bind_of_ok (Act.emit_apply (.log .debug entries) _) _).trans ?_
  rw [Option.getD_some, Act.printLine, Act.emit_apply]
  simp [SearchPath.line]

lemma showSearchPath_of_error {p : Profile} {e : Error}
    (h : SearchPath.ofProfile ctx.config ctx.inherited p = .error e) (w : World σ) :
    ctx.showSearchPath p w = .error e w :=
  EStateM.bind_of_error (searchPath_of_error h w) _

/-- Where the task that shows a profile has succeeded, the profile has a search path. -/
theorem Completes.resolved {ts : List Task} {w v : World σ} (h : ctx.Completes ts w v) {p : Profile}
    (hp : p.task ∈ ts) : ∃ path, SearchPath.ofProfile ctx.config ctx.inherited p = .ok path := by
  induction h with
  | nil => simp at hp
  | @cons t ts w u v first rest ih =>
    rcases List.mem_cons.1 hp with rfl | hp
    · cases hr : SearchPath.ofProfile ctx.config ctx.inherited p with
      | ok path => exact ⟨path, rfl⟩
      | error e =>
        rw [body_task, showSearchPath_of_error hr] at first
        cases first
    · exact ih hp

/-- When a planned task starts, its search path can be put together: this has been done before. -/
theorem Completes.toolPath_ok {requested before rest : List Task} {t : Task} {w v : World σ}
    (h : ctx.Completes before w v) (hplan : Task.plan requested = before ++ t :: rest) :
    ∃ path, ctx.toolPath t.profile = .ok path := by
  cases hp : t.profile with
  | none => exact ⟨none, rfl⟩
  | some p =>
    have hmem := (Task.ordered_plan requested).mem_of_append_cons hplan
      (Task.task_mem_prerequisites hp)
    obtain ⟨path, hpath⟩ := h.resolved hmem
    exact ⟨some path, Except.map_eq_ok_iff.2 ⟨path, hpath, rfl⟩⟩

end Context
end FirmwareTasks
