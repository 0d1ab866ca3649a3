import FirmwareTasks.Proofs.Files.Creation
/-!
Going down by names from a directory that a path leads to, and how a path is looked up in two trees
that hold the same on its way.
-/
namespace FirmwareTasks.Tree
open FirmwareTasks.Path (dot dotDot)

/-- The place that names lead down to. -/
def below (p : Place) (xs : List Bytes) : Place := xs.reverse ++ p

variable {t u : Tree} {K L : Place → Prop} {site : Site} {base path : Path} {p q d R : Place}
  {s : Bytes} {xs outer : List Bytes} {n : ℕ} {S : Slot} {e : IoError}

@[simp] lemma below_nil (p : Place) : below p [] = p := rfl

@[simp] lemma below_cons (p : Place) (x : Bytes) (xs : List Bytes) :
    below p (x :: xs) = below (x :: p) xs := by
  simp [below]

@[simp] lemma below_concat (p : Place) (xs : List Bytes) (x : Bytes) :
    below p (xs ++ [x]) = x :: below p xs := by
  simp [below]

lemma below_append (p : Place) (xs ys : List Bytes) :
    below p (xs ++ ys) = below (below p xs) ys := by
  simp [below]

lemma below_suffix_iff {ys : List Bytes} : below p xs <:+ below p ys ↔ xs <+: ys := by
  rw [← List.reverse_suffix]
  constructor
  · rintro ⟨r, hr⟩
    have hall : (r ++ xs.reverse) ++ p = ys.reverse ++ p := by
      rw [List.append_assoc]
      exact hr
    exact ⟨r, List.append_cancel_right hall⟩
  · rintro ⟨r, hr⟩
    exact ⟨r, by rw [below, below, ← hr, List.append_assoc]⟩

lemma ne_concat_of_isPrefix {ys : List Bytes} (hys : ys <+: xs) (s : Bytes) : ys ≠ xs ++ [s] := by
  rintro rfl
  have hlen := hys.length_le
  rw [List.length_append, List.length_singleton] at hlen
  omega

lemma not_below_suffix {ys : List Bytes} (hys : ys <+: xs) (hne : ys ≠ xs) :
    ¬below p xs <:+ below p ys := by
  rw [below_suffix_iff]
  exact fun hle => hne (hys.eq_of_length_le hle.length_le)

/-- No link is on the way down. -/
def NoLinks (t : Tree) (p : Place) (xs : List Bytes) : Prop :=
  ∀ ys, ys <+: xs → ∀ target, t.at? (below p ys) ≠ some (.link target)

lemma NoLinks.tail {x : Bytes} (h : t.NoLinks p (x :: xs)) : t.NoLinks (x :: p) xs := by
  intro ys hys
  rw [← below_cons]
  exact h (x :: ys) (by simpa using hys)

lemma NoLinks.head {x : Bytes} (h : t.NoLinks p (x :: xs)) (target : Bytes) :
    t.at? (x :: p) ≠ some (.link target) := h [x] (by simp) target

lemma heads_below (hxs : ∀ x ∈ xs, x ≠ dot ∧ x ≠ dotDot) (hno : t.NoLinks p xs)
    (hK : ∀ ys, ys <+: xs → K (below p ys)) : Heads t K p xs n (below p xs) n := by
  induction xs generalizing p with
  | nil => exact .done (hK [] List.nil_prefix)
  | cons x xs ih =>
    obtain ⟨hx, hxs⟩ := List.forall_mem_cons.1 hxs
    have hrest : ∀ ys, ys <+: xs → K (below (x :: p) ys) := fun ys hys => by
      rw [← below_cons]
      exact hK (x :: ys) (by simpa using hys)
    rw [below_cons]
    exact .name (hK [] List.nil_prefix) hx hno.head (ih hxs hno.tail hrest)

theorem walk_below (hxs : ∀ x ∈ xs, x ≠ dot ∧ x ≠ dotDot) (hno : t.NoLinks p xs)
    (h : (t.at? (below p xs)).isSome) :
    t.walk p xs n = .ok (.entry (below p xs)) ∨ t.walk p xs n = .error .nameTooLong := by
  induction xs generalizing p with
  | nil => simp
  | cons x xs ih =>
    obtain ⟨hx, hxs⟩ := List.forall_mem_cons.1 hxs
    obtain ⟨e, he⟩ := Option.isSome_iff_exists.1 h
    have hd : t.at? p = some .dir := at?_eq_dir_of_append (by simp) he
    rw [below_cons] at h ⊢
    rw [walk_name hx hno.head, stepIn, hd]
    cases hc : t.child? p x with
    | error e => simp [(child?_eq_error_iff.1 hc).2]
    | ok o =>
      cases o with
      | some _ => exact ih hxs hno.tail h
      | none =>
        rw [below, at?_eq_none_of_suffix (List.suffix_append _ _) (child?_eq_ok_iff.1 hc).2] at h
        cases h

/-- The steps of a path head for a place. -/
def PathHeads (t : Tree) (site : Site) (K : Place → Prop) (path : Path) (q : Place) : Prop :=
  ∃ m, Heads t K (startOf site.cwd path) path.names linkLimit q m

/-- The steps of a path but for the last head for a directory, and the last is a name there. -/
def Aims (t : Tree) (site : Site) (K : Place → Prop) (path : Path) (d : Place) (s : Bytes) : Prop :=
  ∃ outer m, path.names = outer ++ [s] ∧ Heads t K (startOf site.cwd path) outer linkLimit d m

theorem PathHeads.leadsToDir_congr (h : t.PathHeads site K path q) (htu : AgreeOn K t u) :
    t.LeadsToDir site path ↔ u.LeadsToDir site path := by
  obtain ⟨m, hm⟩ := h
  rw [leadsToDir_iff, leadsToDir_iff, ← hm.walk_congr htu]
  refine exists_congr fun r => and_congr_right fun hr => ?_
  rw [hm.walk_eq_entry hr, htu _ hm.stop]

lemma PathHeads.isDirAt_congr (h : t.PathHeads site K path q) (htu : AgreeOn K t u) :
    t.isDirAt site path = u.isDirAt site path := by
  rw [Bool.eq_iff_iff, isDirAt_iff, isDirAt_iff, h.leadsToDir_congr htu]

lemma PathHeads.leads_of_isDirAt {dir : Path} (h : t.PathHeads site K base R) (hdir : dir.Ordinary)
    (hin : t.isDirAt site (base.join dir) = true) : t.PathLeads site K base R := by
  obtain ⟨m, hm⟩ := h
  obtain ⟨-, q, ⟨l, hl⟩, -⟩ := isDirAt_iff.1 hin
  rw [Path.names_join hdir.not_isAbsolute, startOf, Path.isAbsolute_join hdir.not_isAbsolute] at hl
  exact ⟨m, hm.leads hl.walk_eq⟩

lemma PathLeads.present (h : t.PathLeads site K path q) (hq : t.at? q = some .dir) :
    t.PathLeads site (fun k => K k ∧ (t.at? k).isSome) path q := by
  obtain ⟨m, hm⟩ := h
  exact ⟨m, hm.present (by simp [hm.start_dir hq])⟩

namespace Aims

lemma congr (h : t.Aims site K path d s) (htu : AgreeOn K t u) : u.Aims site K path d s := by
  obtain ⟨outer, m, hnames, hm⟩ := h
  exact ⟨outer, m, hnames, hm.congr htu⟩

/-- The last step of a path is taken in the same directory, or for the same reason it is not. -/
theorem slot_congr (h : t.Aims site K path d s) (htu : AgreeOn K t u) :
    t.slot site path = u.slot site path := by
  obtain ⟨outer, m, hnames, hm⟩ := h
  cases hc : check path with
  | error e => rw [slot_of_check_error hc, slot_of_check_error hc]
  | ok =>
    rw [slot_of_names hnames hc, slot_of_names hnames hc, ← hm.walk_congr htu]
    split
    · rfl
    · rfl
    · rename_i q hq
      rw [hm.walk_eq_entry hq, htu _ hm.stop]

lemma eq_of_slot (h : t.Aims site K path d s) (hS : t.slot site path = .ok S) :
    S = ⟨d, .ofStep s⟩ := by
  obtain ⟨outer, m, hnames, hm⟩ := h
  obtain ⟨-, hlast, hwalk, -⟩ := (slot_eq_ok_iff hnames).1 hS
  obtain ⟨dir, last⟩ := S
  obtain rfl := hm.walk_eq_entry hwalk
  rw [← hlast]

end Aims

/-- A path that goes on by names from another. -/
structure Continues (base path : Path) (xs : List Bytes) : Prop where
  names : path.names = base.names ++ xs
  isAbsolute : path.isAbsolute = base.isAbsolute
  isName : ∀ x ∈ xs, x ≠ dot ∧ x ≠ dotDot

namespace Continues

lemma of_join {dir : Path} (h : dir.Ordinary) (base : Path) :
    Continues base (base.join dir) dir.names where
  names := Path.names_join h.not_isAbsolute
  isAbsolute := Path.isAbsolute_join h.not_isAbsolute
  isName _ hx := (h.isName_of_mem hx).2

lemma join {q : Path} (h : Continues base path xs) (hq : q.Ordinary) :
    Continues base (path.join q) (xs ++ q.names) where
  names := by rw [Path.names_join hq.not_isAbsolute, h.names, List.append_assoc]
  isAbsolute := by rw [Path.isAbsolute_join hq.not_isAbsolute, h.isAbsolute]
  isName x hx := (List.mem_append.1 hx).elim (h.isName x) fun hx => (hq.isName_of_mem hx).2

lemma startOf_eq (h : Continues base path xs) (p : Place) : startOf p path = startOf p base := by
  rw [startOf, startOf, h.isAbsolute]

lemma heads (h : Continues base path xs) (hbase : t.PathHeads site K base R)
    (hno : t.NoLinks R xs) (hK : ∀ ys, ys <+: xs → K (below R ys)) :
    t.PathHeads site K path (below R xs) := by
  obtain ⟨m, hm⟩ := hbase
  refine ⟨m, ?_⟩
  rw [h.names, h.startOf_eq]
  exact hm.append (heads_below h.isName hno hK)

lemma aims (h : Continues base path (xs ++ [s])) (hbase : t.PathHeads site K base R)
    (hno : t.NoLinks R xs) (hK : ∀ ys, ys <+: xs → K (below R ys)) :
    t.Aims site K path (below R xs) s := by
  obtain ⟨m, hm⟩ := hbase
  refine ⟨base.names ++ xs, m, by rw [h.names, List.append_assoc], ?_⟩
  rw [h.startOf_eq]
  exact hm.append (heads_below (fun x hx => h.isName x (by simp [hx])) hno hK)

/-- Where the last step of a path is not taken, nothing is at its end, unless the path is refused
for how it is written. -/
theorem at?_of_slot_error (h : Continues base path (xs ++ [s]))
    (hbase : t.PathLeads site K base R) (hno : t.NoLinks R xs)
    (hslot : t.slot site path = .error e) : e.OfPath ∨ t.at? (s :: below R xs) = none := by
  by_contra! hall
  obtain ⟨he, hsome⟩ := hall
  obtain ⟨x, hx⟩ := Option.ne_none_iff_exists'.1 hsome
  have hd := at?_eq_dir_of_cons hx
  have hne : path.isEmpty = false := Path.not_isEmpty_of_names (by simp [h.names])
  cases hc : check path with
  | error e' =>
    rw [slot_of_check_error hc] at hslot
    cases hslot
    exact he (ofPath_of_check hne hc)
  | ok =>
    obtain ⟨m, hm⟩ := hbase
    have hnames : path.names = (base.names ++ xs) ++ [s] := by rw [h.names, List.append_assoc]
    have hxs : ∀ x ∈ xs, x ≠ dot ∧ x ≠ dotDot := fun x hx => h.isName x (by simp [hx])
    rw [slot_of_names hnames hc, h.startOf_eq, hm.walk] at hslot
    rcases walk_below (n := m) hxs hno (by simp [hd]) with hwalk | hwalk
    · simp [hwalk, hd] at hslot
    · rw [hwalk] at hslot
      exact he (.inr (Except.error.inj hslot).symm)

end Continues
end FirmwareTasks.Tree
