import Mathlib.Order.Defs.PartialOrder
import FirmwareTasks.Files.Tree
/-!
Trees compared. One tree is below another if the other holds all that it holds; removing entries
goes down in this order, and adding one at a free name goes up.
-/
namespace FirmwareTasks.Tree

variable {t u : Tree} {p q k : Place} {n : Bytes} {e : Entry}

/-- All that the first tree holds, the second holds too. -/
instance : LE Tree := ⟨fun t u => ∀ k e, t.at? k = some e → u.at? k = some e⟩

lemma le_iff : t ≤ u ↔ ∀ k, t.at? k = none ∨ t.at? k = u.at? k := by
  constructor
  · intro h k
    cases hk : t.at? k with
    | none => exact .inl rfl
    | some e => exact .inr (h k e hk).symm
  · intro h k e hk
    rcases h k with hn | hu
    · rw [hn] at hk
      cases hk
    · rw [← hu, hk]

instance : PartialOrder Tree where
  le_refl _ _ _ h := h
  le_trans _ _ _ h h' k e hk := h' k e (h k e hk)
  le_antisymm t u h h' := by
    refine ext_at? fun k => Option.ext fun e => ?_
    exact ⟨h k e, h' k e⟩

lemma at?_eq_none_of_suffix (hq : q <:+ k) (h : t.at? q = none) : t.at? k = none := by
  obtain ⟨r, rfl⟩ := hq
  cases r with
  | nil => exact h
  | cons m r => exact at?_append_eq_none (by simp) (by simp [h])

lemma at?_eq_dir_of_suffix (hk : k <:+ q) (h : t.at? q = some .dir) : t.at? k = some .dir := by
  obtain ⟨r, rfl⟩ := hk
  cases r with
  | nil => exact h
  | cons m r => exact at?_eq_dir_of_append (by simp) h

/-- Neither of two places is inside the other. -/
def Apart (p q : Place) : Prop := ¬p <:+ q ∧ ¬q <:+ p

instance (p q : Place) : Decidable (Apart p q) := inferInstanceAs (Decidable (_ ∧ _))

lemma Apart.symm {p q : Place} (h : Apart p q) : Apart q p := ⟨h.2, h.1⟩

lemma Apart.not_suffix {p q r : Place} (h : Apart p q) : ¬q <:+ r ++ p := by
  intro hin
  rcases List.suffix_or_suffix_of_suffix hin (List.suffix_append r p) with hq | hp
  · exact h.2 hq
  · exact h.1 hp

lemma Apart.cons {p q : Place} (h : Apart p q) (m n : Bytes) : Apart (m :: p) (n :: q) := by
  constructor
  · intro hin
    apply h.symm.not_suffix (r := [n])
    exact (List.suffix_cons m p).trans hin
  · intro hin
    apply h.not_suffix (r := [m])
    exact (List.suffix_cons n q).trans hin

lemma nodup_names (t : Tree) (p : Place) : (t.names p).Nodup := by
  rw [names, List.Nodup, List.pairwise_filterMap]
  refine t.entries.distinct_keys_toList.imp ?_
  rintro ⟨k, e⟩ ⟨k', e'⟩ hab m hm m' hm' rfl
  apply hab
  rw [Std.compare_eq_iff_eq]
  cases k with
  | nil => simp at hm
  | cons n q =>
    cases k' with
    | nil => simp at hm'
    | cons n' q' =>
      simp only [Option.ite_none_right_eq_some, Option.some.injEq] at hm hm'
      obtain ⟨rfl, rfl⟩ := hm
      obtain ⟨rfl, rfl⟩ := hm'
      rfl

@[simp] lemma at?_erase_cons (t : Tree) (n : Bytes) (p k : Place) :
    (t.erase (n :: p)).at? k = if (n :: p) <:+ k then none else t.at? k := by
  cases k with
  | nil => simp
  | cons m k => exact at?_erase (by simp)

@[simp] lemma at?_clear' (t : Tree) (q k : Place) :
    (t.clear q).at? k = if q <:+ k ∧ q ≠ k then none else t.at? k := by
  cases k with
  | nil => simp
  | cons m k => exact at?_clear (by simp)

lemma clear_le (t : Tree) (q : Place) : t.clear q ≤ t := by
  refine le_iff.2 fun k => ?_
  rw [at?_clear']
  split <;> simp

lemma clear_mono (h : t ≤ u) (q : Place) : t.clear q ≤ u.clear q := by
  intro k e hk
  rw [at?_clear'] at hk ⊢
  split at hk
  · cases hk
  · rw [if_neg (by assumption), h k e hk]

lemma erase_le (t : Tree) (n : Bytes) (p : Place) : t.erase (n :: p) ≤ t := by
  refine le_iff.2 fun k => ?_
  rw [at?_erase_cons]
  split <;> simp

lemma erase_clear (t : Tree) (n : Bytes) (p : Place) :
    (t.clear (n :: p)).erase (n :: p) = t.erase (n :: p) := by
  refine ext_at? fun k => ?_
  simp only [at?_erase_cons, at?_clear']
  by_cases hk : (n :: p) <:+ k
  · simp [hk]
  · simp [hk]

lemma le_insert (h : t.at? (n :: p) = none) : t ≤ t.insert (n :: p) e := by
  intro k f hk
  by_cases hd : t.at? p = some .dir
  · have hfree : ¬(n :: p) <:+ k := by
      intro hs
      rw [at?_eq_none_of_suffix hs h] at hk
      cases hk
    have hne : k ≠ n :: p := fun he => hfree (he ▸ List.suffix_refl _)
    rw [at?_insert hd, if_neg hne, if_neg hfree, hk]
  · rw [insert, dif_neg hd, hk]

/-- A directory with nothing in it. -/
def EmptyDir (t : Tree) (p : Place) : Prop := t.at? p = some .dir ∧ ∀ n, t.at? (n :: p) = none

lemma names_eq_nil_iff : t.names p = [] ↔ ∀ n, t.at? (n :: p) = none := by
  simp [List.eq_nil_iff_forall_not_mem, mem_names]

instance : Decidable (t.EmptyDir p) :=
  decidable_of_iff (t.at? p = some .dir ∧ t.names p = []) (and_congr_right' names_eq_nil_iff)

lemma emptyDir_insert (h : t.at? p = some .dir) : (t.insert (n :: p) .dir).EmptyDir (n :: p) := by
  refine ⟨by simp [at?_insert h], fun m => ?_⟩
  have hin : (n :: p) <:+ m :: n :: p := List.suffix_cons m (n :: p)
  simp [at?_insert h, hin]

end FirmwareTasks.Tree
