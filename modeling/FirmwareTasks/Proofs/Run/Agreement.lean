import FirmwareTasks.Proofs.Files.Agreement
import FirmwareTasks.Proofs.Run.Script
/-!
Actions in two worlds that are almost the same. Where two worlds differ in their logs and in what is
to be cleaned, cleaning it leaves no other difference, and what comes after goes alike.
-/
namespace FirmwareTasks
open EStateM Files

variable {σ α : Type}

/-- Two worlds that are the same but for their logs and for what their trees hold off `K`. -/
structure World.AgreeOn (K : Place → Prop) (v w : World σ) : Prop where
  tree : Tree.AgreeOn K v.tree w.tree
  runner : v.runner = w.runner
  events : Event.unlogged v.events = Event.unlogged w.events

namespace World.AgreeOn
variable {K L : Place → Prop} {v w : World σ}

lemma mono (h : AgreeOn K v w) (hLK : ∀ k, L k → K k) : AgreeOn L v w :=
  ⟨fun k hk => h.tree k (hLK k hk), h.runner, h.events⟩

lemma unlogged_eq (h : AgreeOn K v w) (hK : ∀ k, K k) : v.unlogged = w.unlogged := by
  obtain ⟨t, r, es⟩ := v
  obtain ⟨u, r', fs⟩ := w
  obtain ⟨htree, hrunner, hevents⟩ := h
  obtain rfl : t = u := Tree.AgreeOn.eq htree hK
  obtain rfl : r = r' := hrunner
  exact congrArg (World.mk t r) hevents

lemma log_left (h : AgreeOn K v w) (level : Level) (message : String) :
    AgreeOn K { v with events := v.events ++ [.own (.log level message)] } w := by
  refine ⟨h.tree, h.runner, ?_⟩
  rw [← h.events, Event.unlogged_append]
  exact List.append_nil _

lemma symm (h : AgreeOn K v w) : AgreeOn K w v :=
  ⟨fun k hk => (h.tree k hk).symm, h.runner.symm, h.events.symm⟩

lemma log (h : AgreeOn K v w) (level : Level) (message : String) :
    AgreeOn K { v with events := v.events ++ [.own (.log level message)] }
      { w with events := w.events ++ [.own (.log level message)] } :=
  ((h.log_left level message).symm.log_left level message).symm

end World.AgreeOn

namespace Act
variable {K L : Place → Prop} {v w : World σ} {site : Site} {path : Path} {q : Place}

/-- What cleaning a place comes to in two worlds. -/
inductive CleanedAlike (K : Place → Prop) (path : Path) (q : Place) (v w : World σ) :
    Result Error (World σ) Unit → Result Error (World σ) Unit → Prop
  | ofPath {cause : IoError} (he : cause.OfPath) :
      CleanedAlike K path q v w (.error (.removeDir path cause) v)
        (.error (.removeDir path cause) w)
  | refused {cause : IoError} (h : World.AgreeOn (fun k => K k ∨ q <:+ k) v w) :
      CleanedAlike K path q v w (.error (.removeDir path cause) v)
        (.error (.removeDir path cause) w)
  | done {v' w' : World σ} (h : World.AgreeOn (fun k => K k ∨ q <:+ k) v' w')
      (hv : Tree.Emptied q v.tree v'.tree) (hw : Tree.Emptied q w.tree w'.tree) :
      CleanedAlike K path q v w (.ok () v') (.ok () w')

lemma ensureAbsent_of_ok {b : Bool} {t : Tree} (h : removeIfThere site path v.tree = .ok b t) :
    ∃ es, ensureAbsent site path v = .ok () { v with tree := t, events := v.events ++ es } ∧
      Event.unlogged es = [] := by
  have hfiles : files (.removeDir path) (removeIfThere site path) v = .ok b { v with tree := t } :=
    files_of_ok h
  cases b with
  | true => exact ⟨[.own (.log .debug ("Removed " ++ path.text))], bind_of_ok hfiles _, rfl⟩
  | false =>
    refine ⟨[], ?_, rfl⟩
    rw [List.append_nil]
    exact bind_of_ok hfiles _

lemma ensureAbsent_of_error {e : IoError} {t : Tree}
    (h : removeIfThere site path v.tree = .error e t) :
    ensureAbsent site path v = .error (.removeDir path e) { v with tree := t } :=
  bind_of_error (m := files (.removeDir path) (removeIfThere site path)) (files_of_error h) _

theorem ensureAbsent_alike (hvw : World.AgreeOn K v w)
    (h : Files.CleanedAlike K q v.tree w.tree (removeIfThere site path v.tree)
      (removeIfThere site path w.tree)) :
    CleanedAlike K path q v w (ensureAbsent site path v) (ensureAbsent site path w) := by
  generalize hv : removeIfThere site path v.tree = rv at h
  generalize hw : removeIfThere site path w.tree = rw at h
  cases h with
  | ofPath he =>
    rw [ensureAbsent_of_error hv, ensureAbsent_of_error hw]
    exact .ofPath he
  | refused h =>
    rw [ensureAbsent_of_error hv, ensureAbsent_of_error hw]
    exact .refused ⟨h, hvw.runner, hvw.events⟩
  | done h hv' hw' =>
    obtain ⟨es, hv, hes⟩ := ensureAbsent_of_ok hv
    obtain ⟨fs, hw, hfs⟩ := ensureAbsent_of_ok hw
    rw [hv, hw]
    refine .done ⟨h, hvw.runner, ?_⟩ hv' hw'
    simp [hes, hfs, hvw.events]

theorem unlogged_clean_then (rest : Unit → Act σ α) (hrest : Blind (rest ()))
    (h : CleanedAlike K path q v w (ensureAbsent site path v) (ensureAbsent site path w))
    (hall : ∀ k, K k ∨ q <:+ k) :
    unlogged (ensureAbsent site path >>= rest) v = unlogged (ensureAbsent site path >>= rest) w ∨
      ∃ cause : IoError, cause.OfPath ∧
        (ensureAbsent site path >>= rest) v = .error (.removeDir path cause) v ∧
        (ensureAbsent site path >>= rest) w = .error (.removeDir path cause) w := by
  generalize hv : ensureAbsent site path v = rv at h
  generalize hw : ensureAbsent site path w = rw at h
  cases h with
  | ofPath he => exact .inr ⟨_, he, bind_of_error hv _, bind_of_error hw _⟩
  | refused h =>
    refine .inl ?_
    rw [unlogged_of_error (bind_of_error hv rest), unlogged_of_error (bind_of_error hw rest),
      h.unlogged_eq hall]
  | done h _ _ =>
    refine .inl ?_
    rw [unlogged, unlogged, bind_of_ok hv, bind_of_ok hw]
    exact hrest.unlogged_congr (h.unlogged_eq hall)

end Act

end FirmwareTasks
