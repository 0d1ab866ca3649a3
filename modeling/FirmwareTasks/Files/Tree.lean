import Std.Data.ExtTreeMap
import FirmwareTasks.Text.Bytes
/-!
File trees. A tree says what is at each place; the entries it holds are closed under going
outward, so nothing is ever inside a file, a link or a missing directory. Every operation has one
lemma that says what the new tree holds at any place.
-/
namespace FirmwareTasks
open Std

/-- A place in a tree: the names on the way to it, innermost first. The root has none. -/
abbrev Place := List Bytes

/-- What can be at a place. -/
inductive Entry where
  | dir
  | file (content : Bytes) (executable : Bool)
  | link (target : Bytes)
deriving DecidableEq, Repr

namespace Entry

def isDir : Entry → Bool
  | dir => true
  | _ => false

def isFile : Entry → Bool
  | file .. => true
  | _ => false

@[simp] theorem isDir_iff {e : Entry} : e.isDir = true ↔ e = dir := by
  cases e <;> simp [isDir]

end Entry

/-- The entries by place. The root is a directory that needs no entry. -/
structure Tree where
  entries : ExtTreeMap Place Entry
  root_absent : entries[([] : Place)]? = none
  closed : ∀ n p e, entries[(n :: p : Place)]? = some e → p = [] ∨ entries[p]? = some .dir

namespace Tree

variable {t u : Tree} {p q k : Place} {n : Bytes} {e : Entry}

/-- What is at a place. -/
def at? (t : Tree) : Place → Option Entry
  | [] => some .dir
  | n :: p => t.entries[(n :: p : Place)]?

@[simp] theorem at?_root : t.at? [] = some .dir := rfl

theorem at?_of_ne_root (h : p ≠ []) : t.at? p = t.entries[p]? := by
  cases p with
  | nil => exact absurd rfl h
  | cons n p => rfl

theorem ext_at? (h : ∀ p, t.at? p = u.at? p) : t = u := by
  have : t.entries = u.entries := by
    apply ExtTreeMap.ext_getElem?
    intro k
    cases k with
    | nil => rw [t.root_absent, u.root_absent]
    | cons n p => exact h (n :: p)
  cases t
  cases u
  cases this
  rfl

theorem at?_eq_dir_of_cons (h : t.at? (n :: p) = some e) : t.at? p = some .dir := by
  rcases t.closed n p e h with rfl | h
  · rfl
  · cases p with
    | nil => rfl
    | cons m p => exact h

theorem at?_eq_dir_of_append {r : Place} (hr : r ≠ []) (h : t.at? (r ++ p) = some e) :
    t.at? p = some .dir := by
  induction r generalizing e with
  | nil => exact absurd rfl hr
  | cons m r ih =>
    have hd := at?_eq_dir_of_cons h
    cases r with
    | nil => exact hd
    | cons m' r => exact ih (by simp) hd

theorem at?_append_eq_none {r : Place} (hr : r ≠ []) (h : t.at? p ≠ some .dir) :
    t.at? (r ++ p) = none := by
  cases hk : t.at? (r ++ p) with
  | none => rfl
  | some e => exact absurd (at?_eq_dir_of_append hr hk) h

def empty : Tree where
  entries := ∅
  root_absent := by simp
  closed := by simp

/-- The tree without the places that fail `keep`, which holds of a place if of one inside it. -/
def restrict (t : Tree) (keep : Place → Bool) (outward : ∀ n p, keep (n :: p) → keep p) :
    Tree where
  entries := t.entries.filter fun k _ => keep k
  root_absent := by simp [ExtTreeMap.getElem?_filter, t.root_absent]
  closed := by
    intro n p e h
    simp only [ExtTreeMap.getElem?_filter, ExtTreeMap.getKey_eq, Option.pfilter_eq_some_iff] at h
    obtain ⟨h, hk⟩ := h
    rcases t.closed n p e h with rfl | hd
    · exact .inl rfl
    · refine .inr ?_
      simp only [ExtTreeMap.getElem?_filter, ExtTreeMap.getKey_eq, Option.pfilter_eq_some_iff]
      exact ⟨hd, outward n p hk⟩

theorem at?_restrict {keep : Place → Bool} {outward} (h : p ≠ []) :
    (t.restrict keep outward).at? p = if keep p then t.at? p else none := by
  rw [at?_of_ne_root h, at?_of_ne_root h, restrict]
  simp only [ExtTreeMap.getElem?_filter, ExtTreeMap.getKey_eq]
  cases hp : t.entries[p]? <;> cases keep p <;> simp [Option.pfilter]

theorem not_cons_suffix (n : Bytes) (p : Place) : ¬(n :: p) <:+ p := by
  intro h
  have hl := h.length_le
  rw [List.length_cons] at hl
  omega

theorem suffix_cons_of_suffix (h : q <:+ p) : q <:+ n :: p := h.trans (List.suffix_cons n p)

/-- The tree without what is at `q` and inside it. -/
def erase (t : Tree) (q : Place) : Tree :=
  t.restrict (fun k => !decide (q <:+ k)) fun n p h => by
    simp only [Bool.not_eq_true', decide_eq_false_iff_not] at h ⊢
    exact fun hp => h (suffix_cons_of_suffix hp)

theorem at?_erase (h : k ≠ []) : (t.erase q).at? k = if q <:+ k then none else t.at? k := by
  rw [erase, at?_restrict h]
  by_cases hq : q <:+ k <;> simp [hq]

def clear (t : Tree) (q : Place) : Tree :=
  t.restrict (fun k => !decide (q <:+ k ∧ q ≠ k)) fun n p h => by
    simp only [Bool.not_eq_true', decide_eq_false_iff_not] at h ⊢
    intro hp
    apply h
    refine ⟨suffix_cons_of_suffix hp.1, ?_⟩
    rintro rfl
    exact not_cons_suffix n p hp.1

theorem at?_clear (h : k ≠ []) :
    (t.clear q).at? k = if q <:+ k ∧ q ≠ k then none else t.at? k := by
  rw [clear, at?_restrict h]
  by_cases hq : q <:+ k ∧ q ≠ k <;> simp [hq]

/-- The tree with `e` at the place, in place of what was there and inside; unchanged where no
directory can hold it. A directory comes empty. -/
def insert (t : Tree) : Place → Entry → Tree
  | [], _ => t
  | n :: p, e =>
    if h : t.at? p = some .dir then
      { entries := (t.erase (n :: p)).entries.insert (n :: p) e
        root_absent := by
          rw [ExtTreeMap.getElem?_insert, (t.erase (n :: p)).root_absent]
          simp
        closed := by
          have hout (q : Place) (hq : (t.erase (n :: p)).at? q = some .dir) :
              q = [] ∨ ((t.erase (n :: p)).entries.insert (n :: p) e)[q]? = some .dir := by
            cases q with
            | nil => exact .inl rfl
            | cons m q =>
              refine .inr ?_
              rw [ExtTreeMap.getElem?_insert, if_neg]
              · exact hq
              · simp only [Std.compare_eq_iff_eq]
                intro he
                rw [← he, at?_erase (by simp)] at hq
                simp at hq
          intro m q f hm
          rw [ExtTreeMap.getElem?_insert] at hm
          by_cases he : compare (n :: p) (m :: q) = .eq
          · simp only [Std.compare_eq_iff_eq] at he
            obtain ⟨rfl, rfl⟩ := List.cons.inj he
            apply hout
            cases p with
            | nil => rfl
            | cons m' p =>
              rw [at?_erase (by simp), if_neg]
              · exact h
              · exact not_cons_suffix n (m' :: p)
          · rw [if_neg he] at hm
            exact hout q (at?_eq_dir_of_cons (n := m) (p := q) (e := f) hm) }
    else t

theorem at?_insert (h : t.at? p = some .dir) :
    (t.insert (n :: p) e).at? k =
      if k = n :: p then some e else if (n :: p) <:+ k then none else t.at? k := by
  rw [insert, dif_pos h]
  cases k with
  | nil => simp
  | cons m q =>
    rw [at?_of_ne_root (by simp)]
    simp only [ExtTreeMap.getElem?_insert, Std.compare_eq_iff_eq]
    by_cases hk : n :: p = m :: q
    · simp [hk]
    · rw [if_neg hk, if_neg (Ne.symm hk), ← at?_erase (by simp)]
      rfl

/-- `k` with its outer end `src` changed to `dst`. -/
def relocate (src dst k : Place) : Place := k.take (k.length - src.length) ++ dst

@[simp] theorem relocate_append (src dst r : Place) : relocate src dst (r ++ src) = r ++ dst := by
  simp [relocate]

/-- What is at `src` and inside it, as it is to be at and inside `dst`. -/
def moving (t : Tree) (src dst : Place) : List (Place × Entry) :=
  t.entries.toList.filterMap fun ke =>
    if src <:+ ke.1 then some (relocate src dst ke.1, ke.2) else none

theorem mem_moving {src dst : Place} :
    (k, e) ∈ t.moving src dst ↔ ∃ r, k = r ++ dst ∧ t.entries[r ++ src]? = some e := by
  simp only [moving, List.mem_filterMap, Prod.exists, Option.ite_none_right_eq_some,
    Option.some.injEq, Prod.mk.injEq, ExtTreeMap.mem_toList_iff_getElem?_eq_some]
  constructor
  · rintro ⟨k', e', hm, ⟨r, rfl⟩, rfl, rfl⟩
    exact ⟨r, relocate_append src dst r, hm⟩
  · rintro ⟨r, rfl, h⟩
    exact ⟨r ++ src, e, h, ⟨r, rfl⟩, relocate_append src dst r, rfl⟩

theorem pairwise_moving (src dst : Place) :
    (t.moving src dst).Pairwise fun a b => ¬compare a.1 b.1 = .eq := by
  rw [moving, List.pairwise_filterMap]
  refine t.entries.distinct_keys_toList.imp ?_
  intro a b hab x hx y hy
  simp only [Option.ite_none_right_eq_some, Option.some.injEq] at hx hy
  obtain ⟨⟨r, hr⟩, rfl⟩ := hx
  obtain ⟨⟨s, hs⟩, rfl⟩ := hy
  simp only [Std.compare_eq_iff_eq, ← hr, ← hs, relocate_append, List.append_cancel_right_eq]
    at hab ⊢
  exact hab

/-- The entries with those at and inside `src` moved to `dst`. -/
def movedEntries (t : Tree) (src dst : Place) : ExtTreeMap Place Entry :=
  ((t.erase src).erase dst).entries.insertMany (t.moving src dst)

theorem getElem?_movedEntries_append {src dst r : Place} (hs : src ≠ []) (hd : dst ≠ []) :
    (t.movedEntries src dst)[r ++ dst]? = t.at? (r ++ src) := by
  rw [at?_of_ne_root (by simp [hs]), movedEntries]
  cases h : t.entries[r ++ src]? with
  | some e =>
    exact ExtTreeMap.getElem?_insertMany_list_of_mem (k := r ++ dst) (by simp)
      (pairwise_moving src dst) (mem_moving.2 ⟨r, rfl, h⟩)
  | none =>
    rw [ExtTreeMap.getElem?_insertMany_list_of_contains_eq_false]
    · rw [← at?_of_ne_root (by simp [hd]), at?_erase (by simp [hd]),
        if_pos (List.suffix_append r dst)]
    · rw [List.contains_eq_mem, decide_eq_false_iff_not, List.mem_map]
      rintro ⟨⟨k, e⟩, hm, hk⟩
      obtain ⟨s, rfl, hs'⟩ := mem_moving.1 hm
      rw [List.append_cancel_right hk, h] at hs'
      exact absurd hs' (by simp)

theorem getElem?_movedEntries_of_not_suffix {src dst : Place} (hk : k ≠ []) (h : ¬dst <:+ k) :
    (t.movedEntries src dst)[k]? = if src <:+ k then none else t.at? k := by
  rw [movedEntries, ExtTreeMap.getElem?_insertMany_list_of_contains_eq_false]
  · rw [← at?_of_ne_root hk, at?_erase hk, if_neg h, at?_erase hk]
  · rw [List.contains_eq_mem, decide_eq_false_iff_not, List.mem_map]
    rintro ⟨⟨k', e⟩, hm, rfl⟩
    obtain ⟨r, hr, -⟩ := mem_moving.1 hm
    exact h (hr ▸ List.suffix_append r dst)

/-- The tree with what is at and inside `src` moved to `dst`, in place of what was there; unchanged
where no directory outside `src` can hold it. -/
def move (t : Tree) (src dst : Place) : Tree :=
  match src, dst with
  | [], _ | _, [] => t
  | m :: src, n :: p =>
    if h : t.at? p = some .dir ∧ ¬(m :: src) <:+ p then
      { entries := t.movedEntries (m :: src) (n :: p)
        root_absent := by
          rw [movedEntries, ExtTreeMap.getElem?_insertMany_list_of_contains_eq_false]
          · exact Tree.root_absent _
          · rw [List.contains_eq_mem, decide_eq_false_iff_not, List.mem_map]
            rintro ⟨⟨k, e⟩, hm, hk⟩
            obtain ⟨r, rfl, -⟩ := mem_moving.1 hm
            exact absurd hk (by simp)
        closed := by
          have hpn := not_cons_suffix n p
          intro l q e hl
          by_cases hs : (n :: p) <:+ (l :: q)
          · obtain ⟨r, hr⟩ := hs
            rw [← hr, getElem?_movedEntries_append (by simp) (by simp)] at hl
            cases r with
            | nil =>
              obtain ⟨rfl, rfl⟩ := List.cons.inj hr
              cases p with
              | nil => exact .inl rfl
              | cons m' p =>
                refine .inr ?_
                rw [getElem?_movedEntries_of_not_suffix (by simp) hpn, if_neg h.2]
                exact h.1
            | cons l' r =>
              obtain ⟨rfl, rfl⟩ := List.cons.inj hr
              refine .inr ?_
              change (t.movedEntries (m :: src) (n :: p))[r ++ n :: p]? = some .dir
              rw [getElem?_movedEntries_append (by simp) (by simp)]
              exact at?_eq_dir_of_cons hl
          · rw [getElem?_movedEntries_of_not_suffix (by simp) hs] at hl
            split at hl
            · exact absurd hl (by simp)
            · rename_i hsrc
              cases q with
              | nil => exact .inl rfl
              | cons l' q =>
                refine .inr ?_
                rw [getElem?_movedEntries_of_not_suffix (by simp)
                  (fun hq => hs (suffix_cons_of_suffix hq)),
                  if_neg (fun hq => hsrc (suffix_cons_of_suffix hq))]
                exact at?_eq_dir_of_cons hl }
    else t

theorem at?_move {src : Place} (hs : src ≠ []) (h : t.at? p = some .dir) (hp : ¬src <:+ p)
    (r : Place) : (t.move src (n :: p)).at? (r ++ n :: p) = t.at? (r ++ src) := by
  cases src with
  | nil => exact absurd rfl hs
  | cons m src =>
    rw [at?_of_ne_root (by simp), move, dif_pos ⟨h, hp⟩]
    exact getElem?_movedEntries_append (by simp) (by simp)

theorem at?_move_of_not_suffix {src : Place} (hs : src ≠ []) (h : t.at? p = some .dir)
    (hp : ¬src <:+ p) (hk : ¬(n :: p) <:+ k) :
    (t.move src (n :: p)).at? k = if src <:+ k then none else t.at? k := by
  cases src with
  | nil => exact absurd rfl hs
  | cons m src =>
    cases k with
    | nil => simp
    | cons l q =>
      rw [at?_of_ne_root (by simp), move, dif_pos ⟨h, hp⟩]
      exact getElem?_movedEntries_of_not_suffix (by simp) hk

/-- The names in a directory, in byte order. -/
def names (t : Tree) (p : Place) : List Bytes :=
  t.entries.toList.filterMap fun ke =>
    match ke.1 with
    | [] => none
    | n :: q => if q = p then some n else none

theorem mem_names : n ∈ t.names p ↔ (t.at? (n :: p)).isSome := by
  simp only [names, List.mem_filterMap, Prod.exists, ExtTreeMap.mem_toList_iff_getElem?_eq_some]
  rw [at?, Option.isSome_iff_exists]
  constructor
  · rintro ⟨k, e, h, hk⟩
    cases k with
    | nil => simp at hk
    | cons m q =>
      simp only [Option.ite_none_right_eq_some, Option.some.injEq] at hk
      obtain ⟨rfl, rfl⟩ := hk
      exact ⟨e, h⟩
  · rintro ⟨e, h⟩
    exact ⟨n :: p, e, h, by simp⟩

end Tree
end FirmwareTasks
