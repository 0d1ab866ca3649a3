import Mathlib.Data.List.Infix
import FirmwareTasks.Proofs.Files.Descent
/-!
Lookups in a tree without links. There a path leads to the place that its names spell, if it leads
anywhere at all.
-/
namespace FirmwareTasks
open FirmwareTasks.Path (dot dotDot)

/-- The place that names spell from another one. -/
def spell (p : Place) : List Bytes → Place
  | [] => p
  | s :: xs =>
    if s = dot then spell p xs else if s = dotDot then spell p.tail xs else spell (s :: p) xs

section spell
variable {p : Place} {s : Bytes} {xs ys : List Bytes}

@[simp] lemma spell_nil (p : Place) : spell p [] = p := rfl

@[simp] lemma spell_dot (p : Place) (xs : List Bytes) : spell p (dot :: xs) = spell p xs := by
  rw [spell, if_pos rfl]

@[simp] lemma spell_dotDot (p : Place) (xs : List Bytes) :
    spell p (dotDot :: xs) = spell p.tail xs := by
  rw [spell, if_neg (by decide), if_pos rfl]

lemma spell_name (hs : s ≠ dot ∧ s ≠ dotDot) : spell p (s :: xs) = spell (s :: p) xs := by
  rw [spell, if_neg hs.1, if_neg hs.2]

lemma spell_append (p : Place) (xs ys : List Bytes) :
    spell p (xs ++ ys) = spell (spell p xs) ys := by
  induction xs generalizing p with
  | nil => rfl
  | cons s xs ih =>
    rw [List.cons_append, spell, spell]
    split
    · exact ih p
    · split
      · exact ih p.tail
      · exact ih (s :: p)

lemma spell_concat (hs : s ≠ dot ∧ s ≠ dotDot) : spell p (xs ++ [s]) = s :: spell p xs := by
  rw [spell_append, spell_name hs, spell_nil]

lemma suffix_spell (h : dotDot ∉ xs) : p <:+ spell p xs := by
  induction xs generalizing p with
  | nil => exact List.suffix_rfl
  | cons x xs ih =>
    rw [List.mem_cons, not_or] at h
    rw [spell, if_neg (Ne.symm h.1)]
    split
    · exact ih h.2
    · exact (List.suffix_cons x p).trans (ih h.2)

lemma spell_names (h : ∀ x ∈ xs, x ≠ dot ∧ x ≠ dotDot) : spell p xs = Tree.below p xs := by
  induction xs generalizing p with
  | nil => rfl
  | cons x xs ih =>
    obtain ⟨hx, hxs⟩ := List.forall_mem_cons.1 h
    rw [spell_name hx, ih hxs, Tree.below_cons]

end spell

/-- The place that a path spells. -/
def Site.spell (site : Site) (path : Path) : Place :=
  FirmwareTasks.spell (Tree.startOf site.cwd path) path.names

namespace Tree

namespace Continues
variable {site : Site} {base path : Path} {xs ys zs : List Bytes} (h : Continues base path xs)
include h

lemma spell_prefix (hzs : zs <+: xs) :
    FirmwareTasks.spell (startOf site.cwd path) (base.names ++ zs) =
      below (site.spell base) zs := by
  rw [h.startOf_eq, spell_append, spell_names fun x hx => h.isName x (hzs.subset hx)]
  rfl

lemma spell_eq (site : Site) : site.spell path = below (site.spell base) xs := by
  rw [← h.spell_prefix List.prefix_rfl, ← h.names]
  rfl

lemma prefix_cases (hys : ys <+: path.names) :
    ys <+: base.names ∨ ∃ zs, zs <+: xs ∧ ys = base.names ++ zs := by
  rw [h.names] at hys
  rcases List.prefix_or_prefix_of_prefix hys (List.prefix_append _ _) with hbase | ⟨zs, rfl⟩
  · exact .inl hbase
  · exact .inr ⟨zs, (List.prefix_append_right_inj _).1 hys, rfl⟩

end Continues

lemma spell_join_mk (site : Site) (path : Path) {n : Bytes} (hn : Path.IsName n ∧ Path.slash ∉ n) :
    site.spell (path.join ⟨n⟩) = n :: site.spell path := by
  rw [(Continues.of_join (Path.ordinary_mk hn.1 hn.2) path).spell_eq, Path.names_mk hn.1 hn.2]
  rfl

/-- A tree without links. -/
def Linkless (t : Tree) : Prop := ∀ k target, t.at? k ≠ some (.link target)

lemma Linkless.noLinks {t : Tree} (h : t.Linkless) {p : Place} {xs : List Bytes} :
    t.NoLinks p xs := fun _ _ => h _

lemma mem_moving_root {t : Tree} {k : Place} {e : Entry} :
    (k, e) ∈ t.moving [] [] ↔ t.entries[k]? = some e := by
  simp [mem_moving]

lemma linkless_iff {t : Tree} :
    t.Linkless ↔ ∀ k e, (k, e) ∈ t.moving [] [] → e.isDir ∨ e.isFile := by
  simp only [mem_moving_root]
  constructor
  · intro h k e hk
    have hne : k ≠ [] := by
      rintro rfl
      rw [t.root_absent] at hk
      cases hk
    rw [← at?_of_ne_root hne] at hk
    cases e with
    | dir => exact .inl rfl
    | file => exact .inr rfl
    | link target => exact absurd hk (h k target)
  · intro h k target hk
    cases k with
    | nil => cases hk
    | cons n p => simpa [Entry.isDir, Entry.isFile] using h _ _ hk

lemma Grown.linkless {t u : Tree} (h : Grown t u) (ht : t.Linkless) : u.Linkless := by
  intro k target hk
  rcases h k with hsame | ⟨-, hdir⟩
  · exact ht k target (hsame.symm.trans hk)
  · rw [hdir] at hk
    cases hk

instance (t : Tree) : Decidable t.Linkless :=
  decidable_of_iff (∀ ke ∈ t.moving [] [], ke.2.isDir ∨ ke.2.isFile) <| by
    rw [linkless_iff, Prod.forall]

namespace Linkless
variable {t : Tree} {site : Site} {path : Path} {p q d : Place} {s : Bytes}
  {xs outer : List Bytes} {n : ℕ} (h : t.Linkless)
include h

lemma heads {K : Place → Prop} {p : Place} {xs : List Bytes} (n : ℕ)
    (hK : ∀ ys, ys <+: xs → K (spell p ys)) : Heads t K p xs n (spell p xs) n := by
  induction xs generalizing p with
  | nil => exact .done (hK [] List.nil_prefix)
  | cons s xs ih =>
    have hp : K p := hK [] List.nil_prefix
    have hcons {ys : List Bytes} (hys : ys <+: xs) : K (spell p (s :: ys)) :=
      hK _ ((List.prefix_cons_inj s).2 hys)
    by_cases hdot : s = dot
    · subst hdot
      rw [spell_dot]
      exact .here hp (ih fun ys hys => by simpa using hcons hys)
    · by_cases hdots : s = dotDot
      · subst hdots
        rw [spell_dotDot]
        exact .outside hp (ih fun ys hys => by simpa using hcons hys)
      · have hs : s ≠ dot ∧ s ≠ dotDot := ⟨hdot, hdots⟩
        rw [spell_name hs]
        exact .name hp hs (h _) (ih fun ys hys => by simpa [spell_name hs] using hcons hys)

lemma pathHeads {K : Place → Prop}
    (hK : ∀ ys, ys <+: path.names → K (spell (startOf site.cwd path) ys)) :
    t.PathHeads site K path (site.spell path) :=
  ⟨linkLimit, h.heads linkLimit hK⟩

lemma eq_of_walk (hq : t.walk p xs n = .ok (.entry q)) : q = spell p xs :=
  (h.heads (K := fun _ => True) n fun _ _ => trivial).walk_eq_entry hq

lemma eq_of_walk_vacant (hq : t.walk p xs n = .ok (.vacant s d)) : s :: d = spell p xs := by
  induction xs generalizing p with
  | nil =>
    rw [walk_nil] at hq
    cases hq
  | cons x xs ih =>
    by_cases hdot : x = dot
    · subst hdot
      rw [walk_dot, stepIn_eq_ok_iff] at hq
      rw [spell_dot]
      exact ih hq.2
    · by_cases hdots : x = dotDot
      · subst hdots
        rw [walk_dotDot, stepIn_eq_ok_iff] at hq
        rw [spell_dotDot]
        exact ih hq.2
      · have hx : x ≠ dot ∧ x ≠ dotDot := ⟨hdot, hdots⟩
        rw [walk_name hx (h _), stepIn_eq_ok_iff] at hq
        rw [spell_name hx]
        obtain ⟨-, hq⟩ := hq
        split at hq
        · cases hq
        · split at hq
          · rename_i hxs
            cases hq
            rw [hxs, spell_nil]
          · cases hq
        · exact ih hq

lemma eq_of_slot (hslot : t.slot site path = .ok ⟨d, .name s⟩) : s :: d = site.spell path := by
  obtain ⟨xs, m, hnames, hs, -, hm, -⟩ := leads_of_slot hslot
  rw [Site.spell, hnames, spell_concat hs, h.eq_of_walk hm.walk_eq]

lemma eq_of_locate (hends : path.EndsIn outer s) (hq : t.locate site path = .ok q) :
    q = site.spell path := by
  obtain ⟨d, x, rfl, hslot, -⟩ := (locate_eq_ok_iff hends).1 hq
  exact h.eq_of_slot hslot

lemma eq_of_writable (hq : t.writable site path = .ok q) : q = site.spell path := by
  unfold writable at hq
  split at hq
  · cases hslot : t.slot site path <;> rw [hslot] at hq <;> cases hq
  · rename_i hend
    have hsteps : path.steps = path.names := by
      rw [Path.steps_eq, if_neg hend, List.append_nil]
    cases hc : check path with
    | error e => simp [find, hc, bind, Except.bind] at hq
    | ok =>
      simp only [find, hc, bind, Except.bind, hsteps] at hq
      cases hwalk : t.walk (startOf site.cwd path) path.names linkLimit with
      | error e => simp [hwalk] at hq
      | ok spot =>
        cases spot with
        | entry p =>
          simp only [hwalk] at hq
          split at hq
          · cases hq
          · cases hq
            exact h.eq_of_walk hwalk
        | vacant n d =>
          simp only [hwalk] at hq
          cases hq
          exact h.eq_of_walk_vacant hwalk

lemma dir_of_pathLeads (hlead : t.PathLeads site (fun _ => True) path q)
    (hq : t.at? q = some .dir) :
    ∀ ys, ys <+: path.names → t.at? (spell (startOf site.cwd path) ys) = some .dir := by
  rintro ys ⟨zs, hzs⟩
  obtain ⟨m, hm⟩ := hlead
  rw [← hzs] at hm
  obtain ⟨r, l, hr, hrest⟩ := hm.split
  rw [← h.eq_of_walk hr.walk_eq]
  exact hrest.start_dir hq

lemma leads_of_isDirAt (hdir : t.isDirAt site path = true) :
    t.PathLeads site (fun _ => True) path (site.spell path) ∧
      t.at? (site.spell path) = some .dir := by
  obtain ⟨-, q, ⟨m, hm⟩, hq⟩ := isDirAt_iff.1 hdir
  obtain rfl : q = site.spell path := h.eq_of_walk hm.walk_eq
  exact ⟨⟨m, hm⟩, hq⟩

end Linkless

/-- A path goes through a place if one of its beginnings spells a place at or inside it. -/
def Through (site : Site) (path : Path) (q : Place) : Prop :=
  ∃ ys, ys <+: path.names ∧ q <:+ spell (startOf site.cwd path) ys

instance (site : Site) (path : Path) (q : Place) : Decidable (Through site path q) :=
  decidable_of_iff (∃ ys ∈ path.names.inits, q <:+ spell (startOf site.cwd path) ys) <| by
    simp only [List.mem_inits, Through]

variable {t u : Tree} {site : Site} {base path : Path} {q : Place} {xs : List Bytes}

lemma through_iff (h : Continues base path xs) :
    Through site path q ↔
      Through site base q ∨ ∃ zs, zs <+: xs ∧ q <:+ below (site.spell base) zs := by
  constructor
  · rintro ⟨ys, hys, hq⟩
    rcases h.prefix_cases hys with hbase | ⟨zs, hzs, rfl⟩
    · rw [h.startOf_eq] at hq
      exact .inl ⟨ys, hbase, hq⟩
    · rw [h.spell_prefix hzs] at hq
      exact .inr ⟨zs, hzs, hq⟩
  · rintro (⟨ys, hys, hq⟩ | ⟨zs, hzs, hq⟩)
    · refine ⟨ys, ?_, by rwa [h.startOf_eq]⟩
      rw [h.names]
      exact hys.trans (List.prefix_append _ _)
    · refine ⟨base.names ++ zs, ?_, by rwa [h.spell_prefix hzs]⟩
      rw [h.names]
      exact (List.prefix_append_right_inj _).2 hzs

lemma not_through_below (site : Site) (h : dotDot ∉ path.names) (hne : xs ≠ []) :
    ¬Through site path (below (site.spell path) xs) := by
  rintro ⟨ys, ⟨zs, hzs⟩, hin⟩
  have hspell : site.spell path = spell (spell (startOf site.cwd path) ys) zs := by
    rw [Site.spell, ← hzs, spell_append]
  have hzs' : dotDot ∉ zs := fun hmem => h (hzs ▸ List.mem_append_right ys hmem)
  have hlen := (hin.trans (hspell ▸ suffix_spell hzs')).length_le
  rw [below, List.length_append, List.length_reverse] at hlen
  have hpos := List.length_pos_iff.2 hne
  omega

lemma isDirAt_congr_of_not_through (ht : t.Linkless) (h : ¬Through site path q)
    (hu : ∀ k, ¬q <:+ k → u.at? k = t.at? k) : t.isDirAt site path = u.isDirAt site path :=
  PathHeads.isDirAt_congr (K := fun k => ¬q <:+ k)
    (ht.pathHeads fun ys hys hq => h ⟨ys, hys, hq⟩) fun k hk => (hu k hk).symm

end Tree
end FirmwareTasks
