import Mathlib.Data.List.Nodup
import FirmwareTasks.Proofs.Run.Shown
/-!
The search paths that tools get. A run goes through stages, one for each body that is started; a
tool gets the search path that an earlier stage of the same run has shown, or else none of its own.
-/
namespace FirmwareTasks
variable {σ : Type}

/-- The body of a task in a run, between the worlds in which it starts and ends. -/
structure Stage (σ : Type) where
  task : Task
  start : World σ
  finish : World σ

namespace Stage
variable (s : Stage σ)

def events : List Event := s.finish.events.drop s.start.events.length

def launches : List Invocation := Event.launches s.events

def printed : List Bytes := Event.printed s.events

lemma events_eq {es : List Event} (h : s.finish.events = s.start.events ++ es) : s.events = es := by
  rw [events, h, List.drop_left]

/-- The stage is a run of its task's body, however it ends. -/
def Runs (ctx : Context σ) : Prop := (ctx.body s.task s.start).state = s.finish

/-- The task shows the search path of a profile, and has succeeded. -/
structure Shows (ctx : Context σ) (p : Profile) (path : Bytes) : Prop where
  task_eq : s.task = p.task
  resolved : SearchPath.ofProfile ctx.config ctx.inherited p = .ok path
  printed_eq : s.printed = [SearchPath.line path]

end Stage

namespace Context
variable (ctx : Context σ)

/-- The bodies that are started, up to and with the first that fails. -/
def stages : List Task → World σ → List (Stage σ)
  | [], _ => []
  | t :: ts, w =>
    match ctx.body t w with
    | .ok _ u => ⟨t, w, u⟩ :: stages ts u
    | .error _ u => [⟨t, w, u⟩]

variable {ctx}

lemma stages_of_ok {t : Task} {ts : List Task} {w u : World σ} (h : ctx.body t w = .ok () u) :
    ctx.stages (t :: ts) w = ⟨t, w, u⟩ :: ctx.stages ts u := by
  rw [stages, h]

lemma stages_of_error {t : Task} {ts : List Task} {w u : World σ} {e : Error}
    (h : ctx.body t w = .error e u) : ctx.stages (t :: ts) w = [⟨t, w, u⟩] := by
  rw [stages, h]

/-- The stages before any stage are those of the tasks before its own, and have all succeeded. -/
theorem stages_append_cons {ts : List Task} {w : World σ} {earlier later : List (Stage σ)}
    {s : Stage σ} (h : ctx.stages ts w = earlier ++ s :: later) :
    ∃ rest, ts = earlier.map (·.task) ++ s.task :: rest ∧
      (∀ s' ∈ earlier, ctx.body s'.task s'.start = .ok () s'.finish) ∧ s.Runs ctx := by
  induction ts generalizing w earlier with
  | nil => simp [stages] at h
  | cons t ts ih =>
    cases hb : ctx.body t w with
    | error e u =>
      rw [stages_of_error hb] at h
      cases earlier with
      | cons s' earlier => simp at h
      | nil =>
        obtain ⟨rfl, -⟩ := List.cons.inj h
        exact ⟨ts, rfl, by simp, congrArg EStateM.Result.state hb⟩
    | ok _ u =>
      rw [stages_of_ok hb] at h
      cases earlier with
      | nil =>
        obtain ⟨rfl, -⟩ := List.cons.inj h
        exact ⟨ts, rfl, by simp, congrArg EStateM.Result.state hb⟩
      | cons s' earlier =>
        obtain ⟨rfl, hlater⟩ := List.cons.inj h
        obtain ⟨rest, rfl, hok, hs⟩ := ih hlater
        refine ⟨rest, rfl, ?_, hs⟩
        intro x hx
        rcases List.mem_cons.1 hx with rfl | hx
        · exact hb
        · exact hok x hx

lemma runs_of_mem_stages {ts : List Task} {w : World σ} {s : Stage σ} (h : s ∈ ctx.stages ts w) :
    s.Runs ctx := by
  obtain ⟨earlier, later, hs⟩ := List.append_of_mem h
  obtain ⟨_, _, _, hruns⟩ := stages_append_cons hs
  exact hruns

theorem prefix_of_stages (ts : List Task) (w : World σ) :
    (ctx.stages ts w).map (·.task) <+: ts := by
  induction ts generalizing w with
  | nil => exact List.prefix_rfl
  | cons t ts ih =>
    cases hb : ctx.body t w with
    | error e u =>
      rw [stages_of_error hb]
      exact ⟨ts, rfl⟩
    | ok _ u =>
      rw [stages_of_ok hb, List.map_cons, List.prefix_cons_inj]
      exact ih u

end Context

namespace Stage
variable {ctx : Context σ} {s : Stage σ}

/-- A stage adds its events, all of them within the footprint of its task. -/
theorem Runs.finish_events (h : s.Runs ctx) :
    s.finish.events = s.start.events ++ s.events ∧
      ∀ e ∈ s.events, (ctx.footprint s.task).Shows e := by
  obtain ⟨es, he, hes⟩ := (ctx.script_body s.task).events s.start
  rw [h] at he
  rw [s.events_eq he]
  exact ⟨he, hes⟩

/-- A tool launched in a stage is the program of the stage's task, with this task's search path. -/
theorem Runs.of_mem_launches (h : s.Runs ctx) {inv : Invocation} (hinv : inv ∈ s.launches) :
    ctx.program? s.task = .ok (some inv.program) ∧
      ctx.toolPath s.task.profile = .ok inv.searchPath := by
  obtain ⟨e, he, heq⟩ := List.mem_filterMap.1 hinv
  have hshows := h.finish_events.2 e he
  cases e with
  | own _ => cases heq
  | launch inv' _ => cases heq; exact hshows

lemma Runs.shows (h : s.Runs ctx) {p : Profile} {path : Bytes} (ht : s.task = p.task)
    (hpath : SearchPath.ofProfile ctx.config ctx.inherited p = .ok path) : s.Shows ctx p path := by
  obtain ⟨es, hes, hprinted⟩ := Context.showSearchPath_of_ok hpath s.start
  rw [Runs, ht, Context.body_task, hes] at h
  have hevents : s.events = es := s.events_eq (by rw [← h]; rfl)
  exact ⟨ht, hpath, by rw [printed, hevents, hprinted]⟩

theorem Runs.printed_or_shows (h : s.Runs ctx) :
    s.printed = [] ∨ ∃ p path, s.Shows ctx p path := by
  by_cases ht : ∃ p : Profile, s.task = p.task
  · obtain ⟨p, ht⟩ := ht
    cases hpath : SearchPath.ofProfile ctx.config ctx.inherited p with
    | ok path => exact .inr ⟨p, path, h.shows ht hpath⟩
    | error e =>
      rw [Runs, ht, Context.body_task, Context.showSearchPath_of_error hpath] at h
      have hevents : s.events = [] := s.events_eq (by rw [← h]; simp [EStateM.Result.state])
      exact .inl (by rw [printed, hevents]; rfl)
  · refine .inl (List.filterMap_eq_nil_iff.2 ?_)
    intro e he
    have hshows := h.finish_events.2 e he
    rcases e with (text | text | ⟨level, message⟩) | _
    · rcases hshows with ⟨_, _, hlog⟩ | ⟨p, _, htask, _⟩
      · cases hlog
      · exact absurd ⟨p, htask⟩ ht
    all_goals rfl

end Stage

namespace Context
variable (ctx : Context σ)

theorem events_bodies (ts : List Task) (w : World σ) :
    (ctx.bodies ts w).state.events = w.events ++ (ctx.stages ts w).flatMap Stage.events := by
  induction ts generalizing w with
  | nil => exact (List.append_nil w.events).symm
  | cons t ts ih =>
    have hstage (u : World σ) (h : (ctx.body t w).state = u) :
        u.events = w.events ++ Stage.events ⟨t, w, u⟩ :=
      (Stage.Runs.finish_events (s := ⟨t, w, u⟩) h).1
    cases hb : ctx.body t w with
    | error e u =>
      have hu := hstage u (congrArg EStateM.Result.state hb)
      rw [bodies, EStateM.bind_of_error hb, stages_of_error hb, List.flatMap_singleton, ← hu]
      rfl
    | ok _ u =>
      have hu := hstage u (congrArg EStateM.Result.state hb)
      rw [bodies, EStateM.bind_of_ok hb, stages_of_ok hb, ih, List.flatMap_cons, hu,
        List.append_assoc]

lemma unlogged_state_runTasks (requested : List Task) (w : World σ) :
    (ctx.runTasks requested w).state.unlogged =
      (ctx.bodies (Task.plan requested) w).state.unlogged := by
  have h := congrArg EStateM.Result.state (ctx.unlogged_runTasks requested w)
  simpa only [Act.unlogged, EStateM.Result.state_mapState] using h

lemma launches_runTasks (requested : List Task) (w : World σ) :
    Event.launches (ctx.runTasks requested w).state.events =
      Event.launches w.events ++ (ctx.stages (Task.plan requested) w).flatMap Stage.launches := by
  rw [World.launches_eq (ctx.unlogged_state_runTasks requested w), events_bodies,
    Event.launches_append, Event.launches_flatMap]
  rfl

lemma printed_runTasks (requested : List Task) (w : World σ) :
    Event.printed (ctx.runTasks requested w).state.events =
      Event.printed w.events ++ (ctx.stages (Task.plan requested) w).flatMap Stage.printed := by
  rw [World.printed_eq (ctx.unlogged_state_runTasks requested w), events_bodies,
    Event.printed_append, Event.printed_flatMap]
  rfl

variable {ctx}

/-- A tool with a profile is launched after the path of this profile has been shown, and gets it. -/
theorem shows_of_mem_launches {requested : List Task} {w : World σ} {earlier later : List (Stage σ)}
    {s : Stage σ} (h : ctx.stages (Task.plan requested) w = earlier ++ s :: later) {p : Profile}
    (hp : s.task.profile = some p) {inv : Invocation} (hinv : inv ∈ s.launches) :
    ∃ path, inv.searchPath = some path ∧ ∃ s' ∈ earlier, s'.Shows ctx p path := by
  obtain ⟨rest, hplan, hok, hruns⟩ := stages_append_cons h
  have hpath := (hruns.of_mem_launches hinv).2
  -- the task that shows the profile is planned before this one, so it has had its stage
  rw [hp, toolPath] at hpath
  have hmem : p.task ∈ earlier.map (·.task) :=
    (Task.ordered_plan requested).mem_of_append_cons hplan (Task.task_mem_prerequisites hp)
  obtain ⟨s', hs', ht⟩ := List.mem_map.1 hmem
  obtain ⟨path, hresolved, hpath⟩ := Except.map_eq_ok_iff.1 hpath
  have hruns' : s'.Runs ctx := congrArg EStateM.Result.state (hok s' hs')
  exact ⟨path, hpath.symm, s', hs', hruns'.shows ht hresolved⟩

lemma launching_task {t : Task} {program : Bytes} (h : ctx.program? t = .ok (some program)) :
    t = .configure ∨ t ∈ [.all, .clean, .testConf, .testRun, .testJunit, .cov] ∨
      t ∈ [.doxy, .breathe, .showDoc, .diff] := by
  cases t with
  | env | envGcc | cleanAll | make | test | doc => cases h
  | _ => simp

lemma printed_stages {stages : List (Stage σ)} (h : ∀ s ∈ stages, s.Runs ctx) :
    ∃ shown : List (Profile × Bytes),
      (shown.map (·.1.task)).Sublist (stages.map (·.task)) ∧
      (∀ q ∈ shown, SearchPath.ofProfile ctx.config ctx.inherited q.1 = .ok q.2) ∧
      stages.flatMap Stage.printed = shown.map fun q => SearchPath.line q.2 := by
  induction stages with
  | nil => exact ⟨[], .slnil, by simp, rfl⟩
  | cons s stages ih =>
    obtain ⟨shown, hsub, hshown, hprinted⟩ := ih fun x hx => h x (List.mem_cons_of_mem s hx)
    rcases (h s List.mem_cons_self).printed_or_shows with hs | ⟨p, path, hs⟩
    · refine ⟨shown, hsub.cons s.task, hshown, ?_⟩
      rw [List.flatMap_cons, hs, List.nil_append, hprinted]
    · refine ⟨(p, path) :: shown, ?_, ?_, ?_⟩
      · rw [List.map_cons, List.map_cons, hs.task_eq]
        exact hsub.cons_cons p.task
      · intro q hq
        rcases List.mem_cons.1 hq with rfl | hq
        · exact hs.resolved
        · exact hshown q hq
      · rw [List.flatMap_cons, hs.printed_eq, hprinted]
        rfl

variable (ctx)

/-- Every tool of a run gets the search path of its task's profile, and an earlier stage of the same
run has shown just this path; a tool without a profile gets none. No path is shown twice. -/
theorem tools_get_the_shown_path (requested : List Task) (w : World σ) :
    Event.launches (ctx.runTasks requested w).state.events =
      Event.launches w.events ++ (ctx.stages (Task.plan requested) w).flatMap Stage.launches ∧
    Event.printed (ctx.runTasks requested w).state.events =
      Event.printed w.events ++ (ctx.stages (Task.plan requested) w).flatMap Stage.printed ∧
    (∀ earlier s later inv, ctx.stages (Task.plan requested) w = earlier ++ s :: later →
      inv ∈ s.launches →
        (s.task = .configure ∧
          ∃ path, inv.searchPath = some path ∧ ∃ s' ∈ earlier, s'.Shows ctx .gcc path) ∨
        (s.task ∈ [.all, .clean, .testConf, .testRun, .testJunit, .cov] ∧
          ∃ path, inv.searchPath = some path ∧ ∃ s' ∈ earlier, s'.Shows ctx .full path) ∨
        (s.task ∈ [.doxy, .breathe, .showDoc, .diff] ∧ inv.searchPath = none)) ∧
    ∃ shown : List (Profile × Bytes), (shown.map (·.1)).Nodup ∧
      (∀ q ∈ shown, SearchPath.ofProfile ctx.config ctx.inherited q.1 = .ok q.2) ∧
      Event.printed (ctx.runTasks requested w).state.events =
        Event.printed w.events ++ shown.map fun q => SearchPath.line q.2 := by
  refine ⟨ctx.launches_runTasks requested w, ctx.printed_runTasks requested w, ?_, ?_⟩
  · intro earlier s later inv hs hinv
    have hruns : s.Runs ctx := runs_of_mem_stages (by rw [hs]; simp)
    obtain ⟨hprogram, hpath⟩ := hruns.of_mem_launches hinv
    rcases launching_task hprogram with ht | ht | ht
    · have hp : s.task.profile = some .gcc := by rw [ht]; rfl
      exact .inl ⟨ht, shows_of_mem_launches hs hp hinv⟩
    · have hp : s.task.profile = some .full := by
        revert ht
        cases s.task <;> decide
      exact .inr (.inl ⟨ht, shows_of_mem_launches hs hp hinv⟩)
    · have hp : s.task.profile = none := by
        revert ht
        cases s.task <;> decide
      rw [hp] at hpath
      exact .inr (.inr ⟨ht, (Except.ok.inj hpath).symm⟩)
  · have hruns : ∀ s ∈ ctx.stages (Task.plan requested) w, s.Runs ctx :=
      fun s hs => runs_of_mem_stages hs
    obtain ⟨shown, hsub, hshown, hprinted⟩ := printed_stages hruns
    have hnodup : (shown.map (·.1.task)).Nodup :=
      (hsub.trans (prefix_of_stages _ w).sublist).nodup (Task.nodup_plan requested)
    have hprofiles : (shown.map (·.1)).Nodup := by
      refine List.Nodup.of_map Profile.task ?_
      rw [List.map_map]
      exact hnodup
    refine ⟨shown, hprofiles, hshown, ?_⟩
    rw [printed_runTasks, hprinted]

end Context
end FirmwareTasks
