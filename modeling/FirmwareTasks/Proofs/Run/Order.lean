import FirmwareTasks.Proofs.Plan
import FirmwareTasks.Proofs.Run.Body
import FirmwareTasks.Run.Tasks
/-!
Running a plan is running the bodies of its tasks one after another, up to the first that fails:
nothing else happens, apart from what is logged. Requesting more tasks appends their bodies.
-/
namespace FirmwareTasks.Context

variable {σ : Type} (ctx : Context σ)

/-- The bodies of tasks, one after another up to the first that fails. -/
def bodies : List Task → Act σ Unit
  | [] => pure ()
  | t :: ts => do
    ctx.body t
    bodies ts

/-- The bodies of tasks all succeed one after another: each starts where the one before it ended. -/
inductive Completes : List Task → World σ → World σ → Prop
  | nil (w) : Completes [] w w
  | cons {t ts w u v} (first : ctx.body t w = .ok () u) (rest : Completes ts u v) :
      Completes (t :: ts) w v

variable {ctx}

theorem bodies_eq_ok_iff {ts : List Task} {w v : World σ} :
    ctx.bodies ts w = .ok () v ↔ ctx.Completes ts w v := by
  induction ts generalizing w with
  | nil =>
    constructor
    · intro h; cases h; exact .nil v
    · intro h; cases h; rfl
  | cons t ts ih =>
    rw [bodies, EStateM.bind_eq_ok_iff]
    constructor
    · rintro ⟨_, u, hu, hv⟩
      exact .cons hu (ih.1 hv)
    · rintro (_ | ⟨hu, hv⟩)
      exact ⟨(), _, hu, ih.2 hv⟩

/-- Bodies run one after another fail where one fails after all before it have succeeded. -/
theorem bodies_eq_error_iff {ts : List Task} {w v : World σ} {e : Error} :
    ctx.bodies ts w = .error e v ↔
      ∃ before t rest u, ts = before ++ t :: rest ∧ ctx.Completes before w u ∧
        ctx.body t u = .error e v := by
  induction ts generalizing w with
  | nil =>
    constructor
    · intro h; cases h
    · rintro ⟨before, t, rest, u, h, -⟩; simp at h
  | cons t ts ih =>
    rw [bodies, EStateM.bind_eq_error_iff]
    constructor
    · rintro (h | ⟨_, u, hu, h⟩)
      · exact ⟨[], t, ts, w, rfl, .nil w, h⟩
      · obtain ⟨before, s, rest, x, rfl, hc, hs⟩ := ih.1 h
        exact ⟨t :: before, s, rest, x, rfl, .cons hu hc, hs⟩
    · rintro ⟨before, s, rest, x, h, hc, hs⟩
      cases hc with
      | nil =>
        obtain ⟨rfl, rfl⟩ := List.cons.inj h
        exact .inl hs
      | @cons s' before w u v hu hc =>
        obtain ⟨rfl, rfl⟩ := List.cons.inj h
        exact .inr ⟨(), u, hu, ih.2 ⟨before, s, rest, x, rfl, hc, hs⟩⟩

variable (ctx)

lemma blind_bodies (ts : List Task) : Act.Blind (ctx.bodies ts) := by
  induction ts with
  | nil => exact fun _ _ => rfl
  | cons t ts ih => exact (ctx.script_body t).blind.bind fun _ _ _ _ => ih

lemma bodies_append (xs ys : List Task) :
    ctx.bodies (xs ++ ys) = (do ctx.bodies xs; ctx.bodies ys) := by
  induction xs with
  | nil => exact (pure_bind () fun _ => ctx.bodies ys).symm
  | cons t xs ih => rw [List.cons_append, bodies, ih, bodies, bind_assoc]

lemma unlogged_log (level : Level) (message : String) (w : World σ) :
    Act.unlogged (Act.log level message) w = Act.unlogged (pure ()) w := by
  change EStateM.Result.ok () _ = EStateM.Result.ok () _
  simp [World.unlogged, Event.unlogged, Event.isLog]

/-- Running tasks in order adds nothing to their bodies but log messages. -/
theorem unlogged_runInOrder (ts : List Task) (w : World σ) :
    Act.unlogged (ctx.runInOrder ts) w = Act.unlogged (ctx.bodies ts) w := by
  induction ts generalizing w with
  | nil => rfl
  | cons t ts ih =>
    have hlog := unlogged_log .info ("Running task '" ++ t.name ++ "'") w
    have hblind := ctx.blind_bodies (t :: ts)
    refine Act.unlogged_bind_congr (g := fun _ => ctx.bodies (t :: ts)) hlog (fun _ => hblind) ?_
    intro _ v
    exact Act.unlogged_bind_congr rfl (fun _ => ctx.blind_bodies ts) fun _ => ih

theorem unlogged_runTasks (requested : List Task) (w : World σ) :
    Act.unlogged (ctx.runTasks requested) w =
      Act.unlogged (ctx.bodies (Task.plan requested)) w := by
  have hlog := unlogged_log .debug
    ("Plan: " ++ ", ".intercalate ((Task.plan requested).map Task.name)) w
  exact Act.unlogged_bind_congr (g := fun _ => ctx.bodies (Task.plan requested)) hlog
    (fun _ => ctx.blind_bodies _) fun _ => ctx.unlogged_runInOrder _

/-- A run succeeds when the bodies of its plan all do, and else fails as the first that does not,
without those after it. Apart from its log it does what the bodies do; a longer request goes on with
what is not planned yet. -/
theorem runTasks_runs_bodies (requested xs ys : List Task) (w : World σ) :
    (∀ u, Act.unlogged (ctx.runTasks requested) w = .ok () u ↔
      ∃ v, ctx.Completes (Task.plan requested) w v ∧ v.unlogged = u) ∧
    (∀ e u, Act.unlogged (ctx.runTasks requested) w = .error e u ↔
      ∃ before t rest v v', Task.plan requested = before ++ t :: rest ∧
        ctx.Completes before w v ∧ ctx.body t v = .error e v' ∧ v'.unlogged = u) ∧
    Act.unlogged (ctx.runTasks (xs ++ ys)) w =
      Act.unlogged (do
        ctx.runTasks xs
        ctx.bodies ((Task.plan ys).filter (· ∉ Task.plan xs))) w := by
  refine ⟨fun u => ?_, fun e u => ?_, ?_⟩
  · rw [unlogged_runTasks, Act.unlogged_eq_ok_iff]
    simp only [bodies_eq_ok_iff]
  · rw [unlogged_runTasks, Act.unlogged_eq_error_iff]
    constructor
    · rintro ⟨v', h, hu⟩
      obtain ⟨before, t, rest, v, hplan, hc, ht⟩ := bodies_eq_error_iff.1 h
      exact ⟨before, t, rest, v, v', hplan, hc, ht, hu⟩
    · rintro ⟨before, t, rest, v, v', hplan, hc, ht, hu⟩
      exact ⟨v', bodies_eq_error_iff.2 ⟨before, t, rest, v, hplan, hc, ht⟩, hu⟩
  · rw [unlogged_runTasks, Task.plan_append_eq, bodies_append]
    exact Act.unlogged_bind_congr (ctx.unlogged_runTasks xs w).symm
      (fun _ => ctx.blind_bodies _) fun _ _ => rfl

end FirmwareTasks.Context
