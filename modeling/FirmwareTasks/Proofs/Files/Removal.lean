import FirmwareTasks.Files.Subtree
import FirmwareTasks.Proofs.Files.Call
import FirmwareTasks.Proofs.Files.Lookup
/-!
Removing what a path names. Afterwards the path names nothing, and nothing has changed but at and
inside the place that was removed.
-/
namespace FirmwareTasks
open EStateM

namespace Tree
variable {t u : Tree} {site : Site} {path : Path} {d p q : Place} {s : Bytes} {outer : List Bytes}
  {x : Entry} {e : IoError}

lemma unlink_of_slot (h : t.slot site path = .ok ⟨d, .name s⟩) (hslash : path.endsInSlash = false)
    (hc : t.child? d s = .ok (some x)) (hx : x ≠ .dir) :
    unlink site path t = .ok (t.erase (s :: d)) := by
  simp only [unlink, h, bind, Except.bind, hc, hslash]
  cases x with
  | dir => exact absurd rfl hx
  | file | link => rfl

lemma removeDir_of_slot (h : t.slot site path = .ok ⟨d, .name s⟩)
    (hc : t.child? d s = .ok (some .dir)) (hempty : t.names (s :: d) = []) :
    removeDir site path t = .ok (t.erase (s :: d)) := by
  simp [removeDir, h, bind, Except.bind, hc, hempty, pure, Except.pure]

lemma removeDir_of_slot_error (h : t.slot site path = .error e) :
    removeDir site path t = .error e := by
  simp [removeDir, h, bind, Except.bind]

/-- The tree without what is at and inside a place that a path names. The place itself is left as an
empty directory if the path went through what was in it. -/
def without (t : Tree) (site : Site) (path : Path) (q : Place) : Tree :=
  if t.at? q = some .dir ∧ (t.clear q).slot site path = .error .noEntry then t.clear q
  else t.erase q

lemma without_le (t : Tree) (site : Site) (path : Path) (s : Bytes) (d : Place) :
    t.without site path (s :: d) ≤ t := by
  unfold without
  split
  · exact t.clear_le _
  · exact t.erase_le s d

lemma at?_without {k : Place} (hk : ¬(s :: d) <:+ k) :
    (t.without site path (s :: d)).at? k = t.at? k := by
  unfold without
  split <;> simp [hk]

lemma at?_without_inside {k : Place} (hk : (s :: d) <:+ k) (hne : s :: d ≠ k) :
    (t.without site path (s :: d)).at? k = none := by
  unfold without
  split <;> simp [hk, hne]

lemma locate_without (h : path.EndsIn outer s) (hq : t.locate site path = .ok q) :
    (t.without site path q).locate site path = .error .noEntry := by
  unfold without
  split
  · rename_i hlost
    exact locate_of_slot_error h.noSlash hlost.2
  · obtain ⟨d, x, rfl, -, -⟩ := (locate_eq_ok_iff h).1 hq
    exact locate_of_le h hq (t.erase_le s d) (by simp)

end Tree

namespace Files
variable {t u : Tree} {site : Site} {path : Path} {d p q : Place} {s : Bytes} {outer : List Bytes}
  {x : Entry} {e : IoError}

/-- Removes what the path names, if anything is there, and says whether there was. -/
def removeIfThere (site : Site) (path : Path) : FileCall Bool :=
  tryCatch (do removeEntry site path; pure true) fun e =>
    if e = .noEntry then pure false else throw e

lemma removeTree_of_dir (hslot : t.slot site path = .ok ⟨d, .name s⟩)
    (hx : t.child? d s = .ok (some .dir)) (hq : t.locate site path = .ok (s :: d)) :
    removeTree site path t = .ok () (t.without site path (s :: d)) := by
  have hdir := (Tree.child?_eq_ok_iff.1 hx).2
  have hstays : (t.clear (s :: d)).child? d s = .ok (some .dir) :=
    Tree.child?_eq_ok_iff.2 ⟨(Tree.child?_eq_ok_iff.1 hx).1, by simp [hdir]⟩
  have hempty : (t.clear (s :: d)).names (s :: d) = [] :=
    Tree.names_eq_nil_iff.2 fun n => by simp [List.suffix_cons]
  have hrun : removeTree site path t =
      tryCatch (removeDir site path) (fun e => if e = .noEntry then pure () else throw e)
        (t.clear (s :: d)) := by
    rw [removeTree, bind_of_ok (FileCall.ask_of_ok hq), bind_of_ok (m := get) (t := t) rfl]
    simp only [hdir]
    exact bind_of_ok (m := modify fun u : Tree => u.clear (s :: d)) rfl _
  rw [hrun, Tree.without]
  rcases Tree.slot_of_le (t.clear_le (s :: d)) hslot with hslot' | hslot'
  · have hdone := FileCall.alter_of_ok (Tree.removeDir_of_slot hslot' hstays hempty)
    rw [Tree.erase_clear] at hdone
    rw [if_neg (by simp [hslot'])]
    exact tryCatch_of_ok hdone _
  · have hlost := FileCall.alter_of_error (Tree.removeDir_of_slot_error hslot')
    rw [if_pos ⟨hdir, hslot'⟩]
    exact tryCatch_of_error hlost _

lemma removeEntry_of_locate (h : path.EndsIn outer s) (hq : t.locate site path = .ok q) :
    removeEntry site path t = .ok () (t.without site path q) := by
  obtain ⟨d, x, rfl, hslot, hx⟩ := (Tree.locate_eq_ok_iff h).1 hq
  have hat := (Tree.child?_eq_ok_iff.1 hx).2
  rw [removeEntry, bind_of_ok (FileCall.ask_of_ok hq), bind_of_ok (m := get) (t := t) rfl]
  split
  · rename_i hdir
    obtain rfl : x = .dir := by simpa using hat.symm.trans hdir
    exact removeTree_of_dir hslot hx hq
  · rename_i hdir
    have hfile : x ≠ .dir := fun hx => hdir (hx ▸ hat)
    rw [Tree.without, if_neg (fun h => hdir h.1)]
    exact FileCall.alter_of_ok (Tree.unlink_of_slot hslot h.noSlash hx hfile)

theorem removeIfThere_eq (site : Site) (h : path.EndsIn outer s) (t : Tree) :
    removeIfThere site path t =
      match t.locate site path with
      | .ok q => .ok true (t.without site path q)
      | .error e => if e = .noEntry then .ok false t else .error e t := by
  cases hloc : t.locate site path with
  | error e =>
    have hentry : removeEntry site path t = .error e t :=
      bind_of_error (FileCall.ask_of_error hloc) _
    rw [removeIfThere, tryCatch_of_error (bind_of_error hentry _)]
    dsimp only
    split <;> rfl
  | ok q =>
    have hall : (do removeEntry site path; pure true : FileCall Bool) t =
        .ok true (t.without site path q) := bind_of_ok (removeEntry_of_locate h hloc) _
    rw [removeIfThere, tryCatch_of_ok hall]

/-- A removal succeeds in two ways: there was nothing, or what was there is gone. -/
theorem removeIfThere_eq_ok_iff (h : path.EndsIn outer s) {b : Bool} :
    removeIfThere site path t = .ok b u ↔
      t.locate site path = .error .noEntry ∧ b = false ∧ u = t ∨
      ∃ q, t.locate site path = .ok q ∧ b = true ∧ u = t.without site path q := by
  rw [removeIfThere_eq site h]
  cases hloc : t.locate site path with
  | error e => by_cases he : e = .noEntry <;> simp [he, eq_comm]
  | ok q => simp [eq_comm]

lemma le_of_removeIfThere (h : path.EndsIn outer s) {b : Bool}
    (hremove : removeIfThere site path t = .ok b u) : u ≤ t := by
  rcases (removeIfThere_eq_ok_iff h).1 hremove with ⟨-, -, rfl⟩ | ⟨q, hq, -, rfl⟩
  · exact le_rfl
  · obtain ⟨d, x, rfl, -, -⟩ := (Tree.locate_eq_ok_iff h).1 hq
    exact t.without_le site path s d

lemma eq_of_removeIfThere_error (h : path.EndsIn outer s)
    (hremove : removeIfThere site path t = .error e u) : u = t := by
  rw [removeIfThere_eq site h] at hremove
  split at hremove
  · cases hremove
  · split at hremove <;> cases hremove
    rfl

theorem locate_of_removeIfThere (h : path.EndsIn outer s) {b : Bool}
    (hremove : removeIfThere site path t = .ok b u) :
    u.locate site path = .error .noEntry := by
  rcases (removeIfThere_eq_ok_iff h).1 hremove with ⟨hnone, -, rfl⟩ | ⟨q, hq, -, rfl⟩
  · exact hnone
  · exact Tree.locate_without h hq

end Files
end FirmwareTasks
