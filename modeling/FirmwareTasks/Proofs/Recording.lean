import FirmwareTasks.Proofs.Sequence
import FirmwareTasks.Recorder
/-!
What a recorder makes of its calls. It records each one first. Then the effects for its program
happen in the order in which they were set up, up to the first that fails; the call fails as this
one does, or else as the first failure that was set up for its program says.
-/
namespace FirmwareTasks.Recorder
open EStateM (Result)

variable {τ : Type}

/-- Recorders by the effects and the failures that have been set up for them and the calls that they
have got, each in the order in which they came. Before a call, what effects remember may have been
changed otherwise, and so may the files. -/
inductive Arises : List (String × Effect τ) → List (String × Int) → List Invocation → Recorder τ →
    Prop
  | new (memory : τ) : Arises [] [] [] { memory }
  | on {effects failures invs r} (h : Arises effects failures invs r) (program : String)
      (effect : Effect τ) :
      Arises (effects ++ [(program, effect)]) failures invs (r.on program effect)
  | fail {effects failures invs r} (h : Arises effects failures invs r) (program : String)
      (code : Int) : Arises effects (failures ++ [(program, code)]) invs (r.fail program code)
  | run {effects failures invs r} (h : Arises effects failures invs r) (inv : Invocation)
      (memory : τ) (t : Tree) :
      Arises effects failures (invs ++ [inv]) (run inv { r with memory } t).state

/-- The recorder and the files, with what its effects have come to remember. -/
def remember (r : Recorder τ) (s : τ × Tree) : Recorder τ × Tree := ({ r with memory := s.1 }, s.2)

/-- An effect as something that happens to its recorder. -/
def perform (inv : Invocation) (effect : Effect τ) : EStateM Error (Recorder τ × Tree) Unit :=
  fun s => (effect inv (s.1.memory, s.2)).mapState s.1.remember

/-- Effects that happen one after another for a call while these calls are recorded, and what they
come to. Only the last may fail. -/
inductive Happen (inv : Invocation) (recorded : List Invocation) : List (Effect τ) →
    Recorder τ × Tree → Result Error (Recorder τ × Tree) Unit → Prop
  | nil (s : Recorder τ × Tree) : Happen inv recorded [] s (.ok () s)
  | failed {effect : Effect τ} {s u : Recorder τ × Tree} {e : Error}
      (hs : s.1.invocations = recorded) (h : perform inv effect s = .error e u) :
      Happen inv recorded [effect] s (.error e u)
  | cons {effect : Effect τ} {s u : Recorder τ × Tree} {rest : List (Effect τ)}
      {ending : Result Error (Recorder τ × Tree) Unit}
      (hs : s.1.invocations = recorded) (h : perform inv effect s = .ok () u)
      (hrest : Happen inv recorded rest u ending) : Happen inv recorded (effect :: rest) s ending

/-- How a call ends whose effects have ended so, with the failures that have been set up. -/
inductive Judged (failures : List (String × Int)) (inv : Invocation) :
    Result Error (Recorder τ × Tree) Unit → Except Error Unit → Prop
  | effect (e : Error) (s : Recorder τ × Tree) : Judged failures inv (.error e s) (.error e)
  | failure {before after : List (String × Int)} {program : String} {code : Int}
      (s : Recorder τ × Tree) (hfailures : failures = before ++ (program, code) :: after)
      (hbefore : ∀ f ∈ before, inv.isProgram f.1 = false) (h : inv.isProgram program = true) :
      Judged failures inv (.ok () s) (.error (.toolFailed (Utf8.lossy inv.program) (some code)))
  | success (s : Recorder τ × Tree) (h : ∀ f ∈ failures, inv.isProgram f.1 = false) :
      Judged failures inv (.ok () s) (.ok ())

/-- The effects that have been set up for the called program. -/
def due (inv : Invocation) (effects : List (String × Effect τ)) : List (Effect τ) :=
  (effects.filter (inv.isProgram ·.1)).map Prod.snd

/-- What becomes of a call that has just been recorded: its effects happen, except those after one
that fails, and it is judged by how they end. -/
def Served (effects : List (String × Effect τ)) (failures : List (String × Int)) (inv : Invocation)
    (s : Recorder τ × Tree) (out : Outcome (Recorder τ)) : Prop :=
  ∃ happened skipped ending, due inv effects = happened ++ skipped ∧
    Happen inv s.1.invocations happened s ending ∧
    (skipped ≠ [] → ∃ e u, ending = .error e u) ∧
    (out.state, out.tree) = ending.state ∧ Judged failures inv ending out.result

variable {inv : Invocation} {effects : List (String × Effect τ)} {failures : List (String × Int)}
  {invs : List Invocation} {r : Recorder τ}

/-! ### One call -/

lemma play_eq_forM (inv : Invocation) (effects : List (String × Effect τ)) :
    play inv effects = (due inv effects).forM fun effect => effect inv := by
  induction effects with
  | nil => rfl
  | cons entry effects ih =>
    obtain ⟨program, effect⟩ := entry
    rw [play, ih]
    cases hprogram : inv.isProgram program <;> simp [due, hprogram]

lemma perform_remember (effect : Effect τ) (s : τ × Tree) :
    perform inv effect (r.remember s) = (effect inv s).mapState r.remember := rfl

lemma happen_forM (inv : Invocation) (r : Recorder τ) (effects : List (Effect τ))
    (s : τ × Tree) : ∃ happened skipped, effects = happened ++ skipped ∧
      Happen inv r.invocations happened (r.remember s)
        (Result.mapState r.remember ((effects.forM fun effect => effect inv) s)) ∧
      (skipped ≠ [] → ∃ e u, (effects.forM fun effect => effect inv) s = .error e u) := by
  induction effects generalizing s with
  | nil => exact ⟨[], [], rfl, .nil _, fun h => absurd rfl h⟩
  | cons effect effects ih =>
    cases heffect : effect inv s with
    | error e u =>
      -- nothing is played after a failure
      have hstop : ((effect :: effects).forM fun effect => effect inv) s = .error e u :=
        EStateM.bind_of_error heffect _
      refine ⟨[effect], effects, rfl, ?_, fun _ => ⟨e, u, hstop⟩⟩
      rw [hstop]
      exact .failed rfl (by rw [perform_remember, heffect]; rfl)
    | ok _ u =>
      have hnext : ((effect :: effects).forM fun effect => effect inv) s =
          (effects.forM fun effect => effect inv) u := EStateM.bind_of_ok heffect _
      obtain ⟨happened, skipped, rfl, hhappened, hskipped⟩ := ih u
      refine ⟨effect :: happened, skipped, rfl, ?_, hnext ▸ hskipped⟩
      rw [hnext]
      exact .cons rfl (by rw [perform_remember, heffect]; rfl) hhappened

lemma judged_verdict (failures : List (String × Int)) (inv : Invocation)
    (s : Recorder τ × Tree) : Judged failures inv (.ok () s) (verdict failures inv) := by
  rw [verdict]
  split
  · rename_i program code hfind
    obtain ⟨hprogram, before, after, hfailures, hbefore⟩ := List.find?_eq_some_iff_append.1 hfind
    exact .failure s hfailures (by simpa using hbefore) hprogram
  · rename_i hfind
    exact .success s (by simpa using List.find?_eq_none.1 hfind)

lemma judged_run (inv : Invocation) (r : Recorder τ) (t : Tree) (f : τ × Tree → Recorder τ × Tree) :
    Judged r.failures inv ((play inv r.effects (r.memory, t)).mapState f) (run inv r t).result := by
  rw [run]
  cases play inv r.effects (r.memory, t) with
  | ok _ u => exact judged_verdict r.failures inv (f u)
  | error e u => exact .effect e (f u)

lemma state_run (inv : Invocation) (r : Recorder τ) (t : Tree) :
    (run inv r t).state =
      { r with invocations := r.invocations ++ [inv]
               memory := (play inv r.effects (r.memory, t)).state.1 } := by
  rw [run]
  cases play inv r.effects (r.memory, t) <;> rfl

lemma tree_run (inv : Invocation) (r : Recorder τ) (t : Tree) :
    (run inv r t).tree = (play inv r.effects (r.memory, t)).state.2 := by
  rw [run]
  cases play inv r.effects (r.memory, t) <;> rfl

/-! ### All calls -/

lemma Arises.fields (h : Arises effects failures invs r) :
    r.effects = effects ∧ r.failures = failures ∧ r.invocations = invs := by
  induction h with
  | new memory => exact ⟨rfl, rfl, rfl⟩
  | on _ program effect ih =>
    obtain ⟨rfl, rfl, rfl⟩ := ih
    exact ⟨rfl, rfl, rfl⟩
  | fail _ program code ih =>
    obtain ⟨rfl, rfl, rfl⟩ := ih
    exact ⟨rfl, rfl, rfl⟩
  | run _ inv memory t ih =>
    obtain ⟨rfl, rfl, rfl⟩ := ih
    rw [state_run]
    exact ⟨rfl, rfl, rfl⟩

/-- Each call is recorded, whatever comes of it. After that the effects for its program, and no
others, happen one after another up to the first that fails; the call fails as that one does, or
else as the first failure for its program says. -/
theorem calls_are_recorded_and_judged (h : Arises effects failures invs r) :
    r.invocations = invs ∧
    ∀ (inv : Invocation) (memory : τ) (t : Tree),
      Served effects failures inv ({ r with invocations := invs ++ [inv], memory }, t)
        (run inv { r with memory } t) := by
  obtain ⟨rfl, rfl, rfl⟩ := h.fields
  refine ⟨rfl, fun inv memory t => ?_⟩
  let called : Recorder τ := { r with invocations := r.invocations ++ [inv] }
  obtain ⟨happened, skipped, hdue, hhappened, hskipped⟩ :=
    happen_forM inv called (due inv r.effects) (memory, t)
  rw [← play_eq_forM] at hhappened hskipped
  refine ⟨happened, skipped, _, hdue, hhappened, ?_, ?_, judged_run inv { r with memory } t _⟩
  · intro hne
    obtain ⟨e, u, hplay⟩ := hskipped hne
    exact ⟨e, called.remember u, by rw [hplay]; rfl⟩
  · rw [state_run, tree_run, EStateM.Result.state_mapState]
    rfl

/-- A program whose first call fails with the code 0. The second fails over an effect, and the one
after that does not happen. -/
theorem calls_are_recorded_and_judged_twice :
    let ninja : Invocation := ⟨Utf8.encode "b/ninja.exe", [], ⟨[]⟩, none⟩
    let count : Effect Nat := fun _ s => .ok () (s.1 + 1, s.2)
    let once : Effect Nat := fun _ s =>
      if s.1 = 1 then .ok () s else .error (.missingFile ⟨[]⟩) s
    let effects := [("ninja", count), ("git", count), ("ninja", once), ("ninja", count)]
    let failures := [("git", 1), ("ninja", 0), ("ninja", 2)]
    let r : Recorder Nat := { memory := 0, effects, failures }
    let first := run ninja r .empty
    let second := run ninja first.state first.tree
    Arises effects failures [ninja, ninja] second.state ∧
      second.state.invocations = [ninja, ninja] ∧
      Served effects failures ninja ({ r with invocations := [ninja] }, .empty) first ∧
      first.result = .error (.toolFailed "b/ninja.exe" (some 0)) ∧ first.state.memory = 2 ∧
      Served effects failures ninja ({ first.state with invocations := [ninja, ninja] }, first.tree)
        second ∧
      second.result = .error (.missingFile ⟨[]⟩) ∧ second.state.memory = 3 := by
  intro ninja count once effects failures r first second
  have hr : Arises effects failures [] r :=
    ((((((Arises.new 0).on "ninja" count).on "git" count).on "ninja" once).on "ninja" count).fail
      "git" 1 |>.fail "ninja" 0).fail "ninja" 2
  have hfirst : Arises effects failures [ninja] first.state := hr.run ninja 0 .empty
  have hsecond : Arises effects failures [ninja, ninja] second.state :=
    hfirst.run ninja first.state.memory first.tree
  exact ⟨hsecond, (calls_are_recorded_and_judged hsecond).1,
    (calls_are_recorded_and_judged hr).2 ninja 0 .empty, by decide +kernel, by decide +kernel,
    (calls_are_recorded_and_judged hfirst).2 ninja first.state.memory first.tree,
    by decide +kernel, by decide +kernel⟩

end FirmwareTasks.Recorder
