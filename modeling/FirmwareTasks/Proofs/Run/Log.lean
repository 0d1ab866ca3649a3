import FirmwareTasks.Proofs.Sequence
import FirmwareTasks.Run.Context
/-!
Runs apart from their log. An action that does not look at earlier events does the same whatever
was logged before; so two worlds that differ only in what the program itself has logged stay so.
-/

namespace FirmwareTasks
open EStateM

namespace Event

def isLog : Event → Bool
  | own (.log ..) => true
  | _ => false

/-- The events but for what the program itself logs. -/
def unlogged (events : List Event) : List Event := events.filter (!·.isLog)

/-- What the program itself writes to the standard output, one text a line. -/
def printed (events : List Event) : List Bytes :=
  events.filterMap fun
    | own (.output text) => some text
    | _ => none

@[simp] lemma unlogged_append (es fs : List Event) :
    unlogged (es ++ fs) = unlogged es ++ unlogged fs :=
  List.filter_append es fs

@[simp] lemma launches_append (es fs : List Event) :
    launches (es ++ fs) = launches es ++ launches fs :=
  List.filterMap_append

@[simp] lemma printed_append (es fs : List Event) : printed (es ++ fs) = printed es ++ printed fs :=
  List.filterMap_append

lemma launches_flatMap {α : Type} (f : α → List Event) (l : List α) :
    launches (l.flatMap f) = l.flatMap fun a => launches (f a) := List.filterMap_flatMap

lemma printed_flatMap {α : Type} (f : α → List Event) (l : List α) :
    printed (l.flatMap f) = l.flatMap fun a => printed (f a) := List.filterMap_flatMap

@[simp] theorem launches_unlogged (es : List Event) : launches (unlogged es) = launches es := by
  induction es with
  | nil => rfl
  | cons e es ih =>
    rcases e with (_ | _ | _) | _ <;> simpa [unlogged, launches, isLog] using ih

@[simp] theorem printed_unlogged (es : List Event) : printed (unlogged es) = printed es := by
  induction es with
  | nil => rfl
  | cons e es ih =>
    rcases e with (_ | _ | _) | _ <;> simpa [unlogged, printed, isLog] using ih

end Event

namespace World
variable {σ : Type}

/-- The world but for what the program itself has logged. -/
def unlogged (w : World σ) : World σ := { w with events := Event.unlogged w.events }

/-- The world with other events before its own. -/
def after (w : World σ) (past : List Event) : World σ := { w with events := past ++ w.events }

lemma unlogged_after (w : World σ) (past : List Event) :
    (w.after past).unlogged = w.unlogged.after (Event.unlogged past) := by
  simp [after, unlogged]

variable {u v : World σ}

lemma launches_eq (h : u.unlogged = v.unlogged) :
    Event.launches u.events = Event.launches v.events := by
  rw [← Event.launches_unlogged u.events, ← Event.launches_unlogged v.events]
  exact congrArg (fun w : World σ => Event.launches w.events) h

lemma printed_eq (h : u.unlogged = v.unlogged) :
    Event.printed u.events = Event.printed v.events := by
  rw [← Event.printed_unlogged u.events, ← Event.printed_unlogged v.events]
  exact congrArg (fun w : World σ => Event.printed w.events) h

end World

namespace Act
variable {σ α β : Type}

/-- The action does not look at what happened before it: earlier events only stay in front. -/
def Blind (m : Act σ α) : Prop := ∀ past w, m (w.after past) = (m w).mapState (·.after past)

lemma Blind.bind {m : Act σ α} {f : α → Act σ β} (hm : Blind m)
    (hf : ∀ a w u, m w = .ok a u → Blind (f a)) : Blind (m >>= f) := by
  intro past w
  cases h : m w with
  | ok a u =>
    have hp : m (w.after past) = .ok a (u.after past) := by rw [hm, h]; rfl
    rw [bind_of_ok hp, bind_of_ok h, hf a w u h]
  | error e u =>
    have hp : m (w.after past) = .error e (u.after past) := by rw [hm, h]; rfl
    rw [bind_of_error hp, bind_of_error h]
    rfl

/-- How an action ends, but for what the program itself has logged. -/
def unlogged (m : Act σ α) (w : World σ) : Result Error (World σ) α :=
  (m w).mapState World.unlogged

/-- From worlds that differ in the log only, an action ends alike but for the log. -/
theorem Blind.unlogged_congr {m : Act σ α} (hm : Blind m) {w u : World σ}
    (h : w.unlogged = u.unlogged) : unlogged m w = unlogged m u := by
  obtain ⟨t, r, es⟩ := w
  obtain ⟨t', r', fs⟩ := u
  simp only [World.unlogged, World.mk.injEq] at h
  obtain ⟨rfl, rfl, he⟩ := h
  have split (past : List Event) : m ⟨t, r, past⟩ = (m ⟨t, r, []⟩).mapState (·.after past) := by
    simpa [World.after] using hm past ⟨t, r, []⟩
  rw [unlogged, unlogged, split es, split fs]
  cases m ⟨t, r, []⟩ <;> simp [Result.mapState, World.unlogged_after, he]

lemma unlogged_of_ok {m : Act σ α} {w u : World σ} {a : α} (h : m w = .ok a u) :
    unlogged m w = .ok a u.unlogged := by rw [unlogged, h]; rfl

lemma unlogged_of_error {m : Act σ α} {w u : World σ} {e : Error} (h : m w = .error e u) :
    unlogged m w = .error e u.unlogged := by rw [unlogged, h]; rfl

lemma unlogged_eq_ok_iff {m : Act σ α} {w v : World σ} {a : α} :
    unlogged m w = .ok a v ↔ ∃ u, m w = .ok a u ∧ u.unlogged = v := Result.mapState_eq_ok_iff

lemma unlogged_eq_error_iff {m : Act σ α} {w v : World σ} {e : Error} :
    unlogged m w = .error e v ↔ ∃ u, m w = .error e u ∧ u.unlogged = v :=
  Result.mapState_eq_error_iff

/-- Sequences of actions that end alike but for the log end alike but for the log. -/
theorem unlogged_bind_congr {m n : Act σ α} {f g : α → Act σ β} {w u : World σ}
    (h : unlogged m w = unlogged n u) (hg : ∀ a, Blind (g a))
    (hfg : ∀ a v, unlogged (f a) v = unlogged (g a) v) :
    unlogged (m >>= f) w = unlogged (n >>= g) u := by
  cases hm : m w with
  | ok a w' =>
    obtain ⟨u', hn, hu⟩ := unlogged_eq_ok_iff.1 (h.symm.trans (unlogged_of_ok hm))
    calc unlogged (m >>= f) w = unlogged (f a) w' := by rw [unlogged, bind_of_ok hm]; rfl
      _ = unlogged (g a) w' := hfg a w'
      _ = unlogged (g a) u' := (hg a).unlogged_congr hu.symm
      _ = unlogged (n >>= g) u := by rw [unlogged, unlogged, bind_of_ok hn]
  | error e w' =>
    obtain ⟨u', hn, hu⟩ := unlogged_eq_error_iff.1 (h.symm.trans (unlogged_of_error hm))
    rw [unlogged_of_error (bind_of_error hm f), unlogged_of_error (bind_of_error hn g), hu]

end Act
end FirmwareTasks
