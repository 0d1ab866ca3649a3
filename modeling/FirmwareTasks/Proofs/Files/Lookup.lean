import FirmwareTasks.Proofs.Files.Heading
import FirmwareTasks.Proofs.Sequence
/-!
What a path leads to and what it names. A path that names an entry names it in the directory that
its other steps lead to. A tree that holds less gives the same answer or none.
-/
namespace FirmwareTasks

/-- Whether a path is refused for how it is written, whatever there is. -/
def IoError.OfPath (e : IoError) : Prop := e = .zeroByte ∨ e = .nameTooLong

instance (e : IoError) : Decidable e.OfPath := inferInstanceAs (Decidable (_ ∨ _))

namespace Tree
open FirmwareTasks.Path (dot dotDot)

variable {t u : Tree} {K : Place → Prop} {site : Site} {path : Path} {p q d : Place} {s : Bytes}
  {xs outer : List Bytes} {S : Slot} {e : IoError}

/-- A path leads to a place by way of places in `K`. -/
def PathLeads (t : Tree) (site : Site) (K : Place → Prop) (path : Path) (q : Place) : Prop :=
  ∃ m, Leads t K (startOf site.cwd path) path.names linkLimit q m

theorem follow_eq_ok_iff :
    t.follow site path = .ok q ↔ check path = .ok () ∧
      t.walk (startOf site.cwd path) path.steps linkLimit = .ok (.entry q) := by
  unfold follow find
  cases check path with
  | error e => simp [bind, Except.bind]
  | ok =>
    cases t.walk (startOf site.cwd path) path.steps linkLimit with
    | error e => simp [bind, Except.bind]
    | ok spot => cases spot <;> simp [bind, Except.bind, pure, Except.pure]

/-- Paths to directories lead there, be there a slash at the end or not. -/
theorem follow_eq_ok_iff_of_dir (hq : t.at? q = some .dir) :
    t.follow site path = .ok q ↔
      check path = .ok () ∧ t.PathLeads site (fun _ => True) path q := by
  have hdots : ∀ y ∈ (if path.endsInSlash then [dot] else []), y = dot := by
    split <;> simp
  rw [follow_eq_ok_iff, Path.steps_eq, and_congr_right_iff]
  intro _
  constructor
  · intro h
    obtain ⟨m, hm⟩ := leads_of_walk h
    exact ⟨m, hm.of_dots hdots⟩
  · rintro ⟨m, hm⟩
    exact (hm.dots hq hdots).walk_eq

/-- A path leads to a directory, were it not for its length. -/
def LeadsToDir (t : Tree) (site : Site) (path : Path) : Prop :=
  ∃ q, t.PathLeads site (fun _ => True) path q ∧ t.at? q = some .dir

lemma leadsToDir_iff :
    t.LeadsToDir site path ↔ ∃ q,
      t.walk (startOf site.cwd path) path.names linkLimit = .ok (.entry q) ∧
        t.at? q = some .dir := by
  constructor
  · rintro ⟨q, ⟨m, hm⟩, hq⟩
    exact ⟨q, hm.walk_eq, hq⟩
  · rintro ⟨q, hwalk, hq⟩
    exact ⟨q, leads_of_walk hwalk, hq⟩

theorem isDirAt_iff :
    t.isDirAt site path = true ↔ check path = .ok () ∧ t.LeadsToDir site path := by
  unfold isDirAt
  constructor
  · intro h
    split at h
    · rename_i q hq
      have hd : t.at? q = some .dir := by simpa using h
      obtain ⟨hc, hlead⟩ := (follow_eq_ok_iff_of_dir hd).1 hq
      exact ⟨hc, q, hlead, hd⟩
    · cases h
  · rintro ⟨hc, q, hlead, hd⟩
    rw [(follow_eq_ok_iff_of_dir hd).2 ⟨hc, hlead⟩]
    simpa using hd

lemma isDirAt_of_follow (hq : t.follow site path = .ok q) (hdir : t.at? q = some .dir) :
    t.isDirAt site path = true := by
  simp [isDirAt, hq, hdir]

lemma check_eq_ok_iff :
    check path = .ok () ↔
      0 ∉ path.bytes ∧ path.isEmpty = false ∧ path.bytes.length < pathLimit := by
  unfold check
  by_cases hzero : 0 ∈ path.bytes
  · simp [hzero]
  · cases hempty : path.isEmpty with
    | true => simp [hzero]
    | false =>
      by_cases hlong : pathLimit ≤ path.bytes.length
      · simp [hzero, hlong]
      · simp [hzero, hlong, Nat.not_le.1 hlong]

lemma ofPath_of_check (hne : path.isEmpty = false) (h : check path = .error e) : e.OfPath := by
  unfold check at h
  rw [hne] at h
  split at h
  · exact .inl (Except.error.inj h).symm
  · split at h
    · contradiction
    · split at h
      · exact .inr (Except.error.inj h).symm
      · cases h

lemma slot_of_check_error (h : check path = .error e) : t.slot site path = .error e := by
  rw [slot, h]
  rfl

lemma slot_of_names_nil (h : path.names = []) :
    t.slot site path = (check path).map fun _ => ⟨[], .root⟩ := by
  have hlast : (path.segments.filter (· ≠ [])).getLast? = none := by
    rw [← Path.names, h]
    rfl
  cases hc : check path with
  | error e => exact slot_of_check_error hc
  | ok =>
    simp only [slot, hc, hlast]
    rfl

lemma slot_of_names (h : path.names = xs ++ [s]) (hc : check path = .ok ()) :
    t.slot site path =
      match t.walk (startOf site.cwd path) xs linkLimit with
      | .error e => .error e
      | .ok (.vacant ..) => .error .noEntry
      | .ok (.entry p) =>
        match t.at? p with
        | some .dir => .ok ⟨p, .ofStep s⟩
        | some _ => .error .notDirectory
        | none => .error .noEntry := by
  have hnames : path.segments.filter (· ≠ []) = xs ++ [s] := h
  simp only [slot, hc, hnames, List.getLast?_concat, List.dropLast_concat]
  cases t.walk (startOf site.cwd path) xs linkLimit with
  | error e => rfl
  | ok spot => cases spot <;> rfl

theorem slot_eq_ok_iff (h : path.names = xs ++ [s]) :
    t.slot site path = .ok S ↔ check path = .ok () ∧ S.last = .ofStep s ∧
      t.walk (startOf site.cwd path) xs linkLimit = .ok (.entry S.dir) ∧
      t.at? S.dir = some .dir := by
  cases hc : check path with
  | error e => simp [slot_of_check_error hc]
  | ok =>
    rw [slot_of_names h hc]
    obtain ⟨dir, last⟩ := S
    cases t.walk (startOf site.cwd path) xs linkLimit with
    | error e => simp
    | ok spot =>
      cases spot with
      | vacant n p => simp
      | entry p =>
        simp only [Except.ok.injEq, Spot.entry.injEq, true_and]
        constructor
        · intro hS
          split at hS
          · rename_i hd
            cases hS
            exact ⟨rfl, rfl, hd⟩
          · cases hS
          · cases hS
        · rintro ⟨rfl, rfl, hd⟩
          rw [hd]

lemma Last.ofStep_of_name (h : s ≠ dot ∧ s ≠ dotDot) : Last.ofStep s = .name s := by
  simp [Last.ofStep, h]

lemma Last.ofStep_eq_name_iff {n : Bytes} :
    Last.ofStep s = .name n ↔ s = n ∧ s ≠ dot ∧ s ≠ dotDot := by
  unfold Last.ofStep
  grind

/-- Where the last step is to a name, the steps before it lead to the directory of that name. -/
theorem leads_of_slot (h : t.slot site path = .ok ⟨d, .name s⟩) :
    ∃ xs m, path.names = xs ++ [s] ∧ (s ≠ dot ∧ s ≠ dotDot) ∧ check path = .ok () ∧
      Leads t (fun _ => True) (startOf site.cwd path) xs linkLimit d m ∧ t.at? d = some .dir := by
  rcases path.names.eq_nil_or_concat with hnil | ⟨xs, s', hnames⟩
  · rw [slot_of_names_nil hnil] at h
    cases hc : check path <;> rw [hc] at h <;> cases h
  · rw [List.concat_eq_append] at hnames
    obtain ⟨hc, hlast, hwalk, hd⟩ := (slot_eq_ok_iff hnames).1 h
    obtain ⟨rfl, hs⟩ := Last.ofStep_eq_name_iff.1 hlast.symm
    obtain ⟨m, hm⟩ := leads_of_walk hwalk
    exact ⟨xs, m, hnames, hs, hc, hm, hd⟩

lemma PathLeads.slot (h : t.PathLeads site K path q)
    (hd : t.at? q = some .dir) {inner : Path} (hc : check inner = .ok ())
    (hstart : inner.isAbsolute = path.isAbsolute) (hdots : ∀ y ∈ xs, y = dot)
    (hnames : inner.names = path.names ++ xs ++ [s]) :
    t.slot site inner = .ok ⟨q, .ofStep s⟩ := by
  obtain ⟨m, hm⟩ := h
  refine (slot_eq_ok_iff hnames).2 ⟨hc, rfl, ?_, hd⟩
  have hsame : startOf site.cwd inner = startOf site.cwd path := by rw [startOf, startOf, hstart]
  rw [hsame]
  exact (hm.dots hd hdots).walk_eq

/-- In a smaller tree the last step of a path is taken where it was, or cannot be. -/
theorem slot_of_le (hu : u ≤ t) (h : t.slot site path = .ok S) :
    u.slot site path = .ok S ∨ u.slot site path = .error .noEntry := by
  rcases path.names.eq_nil_or_concat with hnil | ⟨xs, s, hnames⟩
  · rw [slot_of_names_nil hnil] at h ⊢
    exact .inl h
  · rw [List.concat_eq_append] at hnames
    obtain ⟨hc, hlast, hwalk, hd⟩ := (slot_eq_ok_iff hnames).1 h
    obtain ⟨m, hm⟩ := leads_of_walk hwalk
    rcases hm.restrict hu with hm | hmiss
    · rcases le_iff.1 hu S.dir with hnone | hsame
      · exact .inr (by rw [slot_of_names hnames hc, hm.walk_eq]; simp [hnone])
      · exact .inl ((slot_eq_ok_iff hnames).2 ⟨hc, hlast, hm.walk_eq, hsame.trans hd⟩)
    · refine .inr ?_
      rw [slot_of_names hnames hc]
      rcases hmiss with hmiss | ⟨s', d', hmiss⟩ <;> rw [hmiss]

lemma locate_of_slot (hslash : path.endsInSlash = false)
    (h : t.slot site path = .ok ⟨d, .name s⟩) :
    t.locate site path =
      match t.child? d s with
      | .error e => .error e
      | .ok (some _) => .ok (s :: d)
      | .ok none => .error .noEntry := by
  simp only [locate, hslash, h, bind, Except.bind, pure, Except.pure]
  cases t.child? d s with
  | error e => rfl
  | ok o => cases o <;> rfl

lemma locate_of_slot_error (hslash : path.endsInSlash = false)
    (h : t.slot site path = .error e) : t.locate site path = .error e := by
  simp only [locate, hslash, h]
  rfl

/-- A path that ends in a name names an entry in the directory of its last step. -/
theorem locate_eq_ok_iff (h : path.EndsIn outer s) :
    t.locate site path = .ok q ↔ ∃ d x, q = s :: d ∧ t.slot site path = .ok ⟨d, .name s⟩ ∧
      t.child? d s = .ok (some x) := by
  cases hslot : t.slot site path with
  | error e => simp [locate_of_slot_error h.noSlash hslot]
  | ok S =>
    obtain ⟨d, last⟩ := S
    obtain rfl : last = .name s := by
      rw [← Last.ofStep_of_name h.isName.2]
      exact ((slot_eq_ok_iff h.names).1 hslot).2.1
    rw [locate_of_slot h.noSlash hslot]
    constructor
    · intro hq
      split at hq
      · cases hq
      · rename_i x hx
        cases hq
        exact ⟨d, x, rfl, rfl, hx⟩
      · cases hq
    · rintro ⟨d', x, rfl, hd, hx⟩
      cases hd
      rw [hx]

/-- A path to a directory names an entry, if its last step is a name. -/
theorem slot_of_isDirAt (hnames : path.names = xs ++ [s]) (hs : s ≠ dot ∧ s ≠ dotDot)
    (h : t.isDirAt site path = true) :
    ∃ d x, t.slot site path = .ok ⟨d, .name s⟩ ∧ t.child? d s = .ok (some x) := by
  obtain ⟨hc, q, ⟨m, hm⟩, -⟩ := isDirAt_iff.1 h
  rw [hnames] at hm
  obtain ⟨d, l, hd, hlast⟩ := hm.split
  obtain ⟨hdir, x, hx⟩ : t.at? d = some .dir ∧ ∃ x, t.child? d s = .ok (some x) := by
    cases hlast with
    | here => exact absurd rfl hs.1
    | outside => exact absurd rfl hs.2
    | entry _ hdir _ hx => exact ⟨hdir, _, hx⟩
    | link _ hdir _ _ hx => exact ⟨hdir, _, hx⟩
  exact ⟨d, x, (slot_eq_ok_iff hnames).2 ⟨hc, (Last.ofStep_of_name hs).symm, hd.walk_eq, hdir⟩, hx⟩

lemma isDirAt_of_locate_error (h : path.EndsIn outer s) (he : t.locate site path = .error e) :
    t.isDirAt site path = false := by
  rw [Bool.eq_false_iff]
  intro hdir
  obtain ⟨d, x, hslot, hx⟩ := slot_of_isDirAt h.names h.isName.2 hdir
  rw [(locate_eq_ok_iff h).2 ⟨d, x, rfl, hslot, hx⟩] at he
  cases he

/-- Where the entry that a path has named is gone, the path names nothing. -/
theorem locate_of_le (h : path.EndsIn outer s) (hq : t.locate site path = .ok q) (hu : u ≤ t)
    (hgone : u.at? q = none) : u.locate site path = .error .noEntry := by
  obtain ⟨d, x, rfl, hslot, hx⟩ := (locate_eq_ok_iff h).1 hq
  rcases slot_of_le hu hslot with hslot | hslot
  · have hnone := child?_eq_ok_iff.2 ⟨(child?_eq_ok_iff.1 hx).1, hgone⟩
    rw [locate_of_slot h.noSlash hslot, hnone]
  · exact locate_of_slot_error h.noSlash hslot

lemma dir_of_slot (h : t.slot site path = .ok S) : t.at? S.dir = some .dir := by
  rcases path.names.eq_nil_or_concat with hnil | ⟨xs, s, hnames⟩
  · rw [slot_of_names_nil hnil] at h
    cases hc : check path <;> rw [hc] at h <;> cases h
    rfl
  · rw [List.concat_eq_append] at hnames
    exact ((slot_eq_ok_iff hnames).1 h).2.2.2

theorem slot_mono (htu : t ≤ u) (h : t.slot site path = .ok S) : u.slot site path = .ok S := by
  rcases path.names.eq_nil_or_concat with hnil | ⟨xs, s, hnames⟩
  · rw [slot_of_names_nil hnil] at h ⊢
    exact h
  · rw [List.concat_eq_append] at hnames
    obtain ⟨hc, hlast, hwalk, hd⟩ := (slot_eq_ok_iff hnames).1 h
    obtain ⟨m, hm⟩ := leads_of_walk hwalk
    have hway := hm.extend (by simp [hd]) htu
    exact (slot_eq_ok_iff hnames).2 ⟨hc, hlast, hway.walk_eq, htu _ _ hd⟩

lemma slot_of_solid (hu : ∀ k, (t.at? k = some .dir ∨ ∃ target, t.at? k = some (.link target)) →
    u.at? k = t.at? k) (h : t.slot site path = .ok ⟨d, .name s⟩) :
    u.slot site path = .ok ⟨d, .name s⟩ := by
  obtain ⟨xs, m, hnames, hs, hc, hm, hd⟩ := leads_of_slot h
  have hway := (hm.solid hd).congr fun k hk => (hu k hk.2).symm
  refine (slot_eq_ok_iff hnames).2 ⟨hc, (Last.ofStep_of_name hs).symm, hway.walk_eq, ?_⟩
  exact (hu d (.inl hd)).trans hd

lemma isDirAt_mono (htu : t ≤ u) (h : t.isDirAt site path = true) :
    u.isDirAt site path = true := by
  rw [isDirAt_iff] at h ⊢
  obtain ⟨hc, q, ⟨m, hm⟩, hq⟩ := h
  exact ⟨hc, q, ⟨m, hm.extend (by simp [hq]) htu⟩, htu _ _ hq⟩

lemma dir_of_follow (hslash : path.endsInSlash = true) (h : t.follow site path = .ok q) :
    t.at? q = some .dir := by
  obtain ⟨-, hwalk⟩ := follow_eq_ok_iff.1 h
  rw [Path.steps_eq, if_pos hslash] at hwalk
  obtain ⟨m, hm⟩ := leads_of_walk hwalk
  obtain ⟨r, l, -, hlast⟩ := hm.split
  cases hlast with
  | here _ hd rest =>
    cases rest
    exact hd
  | entry _ _ hs | link _ _ hs => exact absurd rfl hs.1

lemma isSome_of_locate (h : t.locate site path = .ok q) : (t.at? q).isSome := by
  unfold locate at h
  split at h
  · simp [dir_of_follow (by assumption) h]
  · obtain ⟨⟨d, last⟩, hslot, h⟩ := Except.bind_eq_ok h
    have hd := dir_of_slot hslot
    cases last with
    | here => cases h; simp [hd]
    | root => cases h; rfl
    | outside =>
      cases h
      cases d with
      | nil => rfl
      | cons n d => exact Option.isSome_iff_exists.2 ⟨_, at?_eq_dir_of_cons hd⟩
    | name n =>
      obtain ⟨o, hc, h⟩ := Except.bind_eq_ok h
      cases o with
      | none => cases h
      | some x =>
        cases h
        simp [(child?_eq_ok_iff.1 hc).2]

theorem locate_mono (htu : t ≤ u) (h : t.locate site path = .ok q) :
    u.locate site path = .ok q := by
  unfold locate at h ⊢
  split at h
  · have hslash : path.endsInSlash = true := by assumption
    have hq := dir_of_follow hslash h
    obtain ⟨hc, m, hm⟩ := (follow_eq_ok_iff_of_dir hq).1 h
    rw [if_pos hslash, follow_eq_ok_iff_of_dir (htu _ _ hq)]
    exact ⟨hc, m, hm.extend (by simp [hq]) htu⟩
  · have hslash : ¬path.endsInSlash = true := by assumption
    obtain ⟨⟨d, last⟩, hslot, h⟩ := Except.bind_eq_ok h
    rw [if_neg hslash, slot_mono htu hslot]
    cases last with
    | here | root | outside => exact h
    | name n =>
      obtain ⟨o, hc, h⟩ := Except.bind_eq_ok h
      cases o with
      | none => cases h
      | some x =>
        obtain ⟨hlen, hx⟩ := child?_eq_ok_iff.1 hc
        have hc' := child?_eq_ok_iff.2 ⟨hlen, htu _ _ hx⟩
        simp only [bind, Except.bind, hc']
        exact h

lemma eq_of_locate_of_slot {k : Place} (hslot : t.slot site path = .ok ⟨d, .name s⟩)
    (h : t.locate site path = .ok k) :
    k = s :: d ∨ path.endsInSlash = true ∧ ∃ target, t.at? (s :: d) = some (.link target) := by
  cases hslash : path.endsInSlash with
  | false =>
    rw [locate_of_slot hslash hslot] at h
    split at h <;> cases h
    exact .inl rfl
  | true =>
    rw [locate, if_pos hslash] at h
    obtain ⟨hc, j, hj⟩ := (follow_eq_ok_iff_of_dir (dir_of_follow hslash h)).1 h
    obtain ⟨xs, l, hnames, hs, -, hl, -⟩ := leads_of_slot hslot
    rw [hnames] at hj
    obtain ⟨r, i, hr, hlast⟩ := hj.split
    have hwalk := hr.walk_eq
    rw [hl.walk_eq] at hwalk
    cases hwalk
    cases hlast with
    | here => exact absurd rfl hs.1
    | outside => exact absurd rfl hs.2
    | entry _ _ _ _ _ rest =>
      cases rest
      exact .inl rfl
    | link _ _ _ _ hx => exact .inr ⟨rfl, _, (child?_eq_ok_iff.1 hx).2⟩

lemma locate_of_slot_dir (hslot : t.slot site path = .ok ⟨d, .name s⟩)
    (hx : t.child? d s = .ok (some .dir)) : t.locate site path = .ok (s :: d) := by
  cases hslash : path.endsInSlash with
  | false => rw [locate_of_slot hslash hslot, hx]
  | true =>
    have hdir := (child?_eq_ok_iff.1 hx).2
    obtain ⟨xs, l, hnames, hs, hc, hl, hd⟩ := leads_of_slot hslot
    rw [locate, if_pos hslash, follow_eq_ok_iff_of_dir hdir]
    refine ⟨hc, l, ?_⟩
    rw [hnames]
    exact hl.concat hd hs hx (by simp) trivial

lemma isSome_of_follow (h : t.follow site path = .ok q) : (t.at? q).isSome := by
  obtain ⟨hc, hwalk⟩ := follow_eq_ok_iff.1 h
  obtain ⟨m, hm⟩ := leads_of_walk hwalk
  obtain ⟨s, xs, hsteps⟩ := List.exists_cons_of_ne_nil
    (Path.steps_ne_nil (check_eq_ok_iff.1 hc).2.1)
  rw [hsteps] at hm
  refine (hm.present ?_).stop.2
  cases hm <;> simp_all

theorem follow_mono (htu : t ≤ u) (h : t.follow site path = .ok q) :
    u.follow site path = .ok q := by
  obtain ⟨hc, hwalk⟩ := follow_eq_ok_iff.1 h
  obtain ⟨m, hm⟩ := leads_of_walk hwalk
  exact follow_eq_ok_iff.2 ⟨hc, (hm.extend (isSome_of_follow h) htu).walk_eq⟩

lemma isFileAt_iff : t.isFileAt site path = true ↔
    ∃ q c x, t.follow site path = .ok q ∧ t.at? q = some (.file c x) := by
  unfold isFileAt
  constructor
  · intro h
    split at h
    · rename_i q hq
      cases hat : t.at? q with
      | none => simp [hat] at h
      | some e =>
        cases e with
        | file c x => exact ⟨q, c, x, hq, hat⟩
        | dir | link => simp [hat, Entry.isFile] at h
    · cases h
  · rintro ⟨q, c, x, hq, hat⟩
    rw [hq]
    simp [hat, Entry.isFile]

lemma isFileAt_mono (htu : t ≤ u) (h : t.isFileAt site path = true) :
    u.isFileAt site path = true := by
  obtain ⟨q, c, x, hq, hat⟩ := isFileAt_iff.1 h
  exact isFileAt_iff.2 ⟨q, c, x, follow_mono htu hq, htu _ _ hat⟩

end Tree
end FirmwareTasks
