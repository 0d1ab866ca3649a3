import Mathlib.Data.List.Infix
import Mathlib.Data.List.TakeWhile
import FirmwareTasks.Proofs.Files.Descent
/-!
Paths that lead to a directory and go on from there by names. Where the first of the names is free,
a directory is made with those on the way to it exactly if its path can be given to the system, and
whatever comes of it, only directories on that way come in. Links elsewhere make no difference.
-/
namespace FirmwareTasks
open EStateM
open FirmwareTasks.Path (dot dotDot IsName slash)

namespace Tree
variable {t u v : Tree} {K : Place → Prop} {site : Site} {path : Path} {p q k b d D : Place}
  {xs ys ws : List Bytes} {s n w : Bytes} {m l : ℕ} {e : Entry} {x : IoError}

lemma Leads.length_le (h : Leads t K p xs l q m) : ∀ x ∈ xs, x.length ≤ nameLimit := by
  induction h with
  | done _ => simp
  | here _ _ _ ih => exact List.forall_mem_cons.2 ⟨by decide, ih⟩
  | outside _ _ _ ih => exact List.forall_mem_cons.2 ⟨by decide, ih⟩
  | entry _ _ _ hc _ _ ih => exact List.forall_mem_cons.2 ⟨(child?_eq_ok_iff.1 hc).1, ih⟩
  | link _ _ _ _ hc _ ih =>
    refine List.forall_mem_cons.2 ⟨(child?_eq_ok_iff.1 hc).1, fun x hx => ?_⟩
    exact ih x (List.mem_append_right _ hx)

lemma leads_below (hno : t.NoLinks p xs) (hxs : ∀ x ∈ xs, x ≠ dot ∧ x ≠ dotDot)
    (hlen : ∀ x ∈ xs, x.length ≤ nameLimit) (h : (t.at? (below p xs)).isSome) :
    Leads t (fun _ => True) p xs l (below p xs) l := by
  induction xs generalizing p with
  | nil => exact .done trivial
  | cons x xs ih =>
    obtain ⟨hx, hxs⟩ := List.forall_mem_cons.1 hxs
    obtain ⟨hlx, hlen⟩ := List.forall_mem_cons.1 hlen
    rw [below_cons] at h ⊢
    obtain ⟨e, he⟩ : ∃ e, t.at? (x :: p) = some e := by
      rw [← Option.ne_none_iff_exists']
      intro hnone
      rw [below, at?_eq_none_of_suffix (List.suffix_append _ _) hnone] at h
      cases h
    refine .entry trivial (at?_eq_dir_of_cons he) hx (child?_eq_ok_iff.2 ⟨hlx, he⟩) ?_
      (ih hno.tail hxs hlen h)
    rintro target rfl
    exact hno.head target he

lemma noLinks_of_dir (h : t.at? (below p xs) = some .dir) : t.NoLinks p xs := by
  intro ys hys target hlink
  rw [at?_eq_dir_of_suffix (below_suffix_iff.2 hys) h] at hlink
  cases hlink

/-- A path that the system takes: it is short enough, and so is each of its names. -/
structure Fits (path : Path) : Prop where
  check : check path = .ok ()
  length_le : ∀ x ∈ path.names, x.length ≤ nameLimit

instance (path : Path) : Decidable (Fits path) :=
  decidable_of_iff (Tree.check path = .ok () ∧ ∀ x ∈ path.names, x.length ≤ nameLimit)
    ⟨fun h => ⟨h.1, h.2⟩, fun h => ⟨h.check, h.length_le⟩⟩

lemma check_outward {a : Path} (h : check path = .ok ()) (hbytes : a.bytes <+: path.bytes)
    (hne : a.isEmpty = false) : check a = .ok () := by
  obtain ⟨hzero, -, hlen⟩ := check_eq_ok_iff.1 h
  refine check_eq_ok_iff.2 ⟨fun h => hzero (hbytes.subset h), hne, ?_⟩
  exact hbytes.length_le.trans_lt hlen

lemma fits_of_follow (h : t.follow site path = .ok q) : Fits path := by
  obtain ⟨hc, hwalk⟩ := follow_eq_ok_iff.1 h
  obtain ⟨m, hm⟩ := leads_of_walk hwalk
  exact ⟨hc, fun x hx => hm.length_le x (List.mem_append_left _ hx)⟩

/-- Nothing is changed but that there are directories all the way to a place. -/
def Paved (q : Place) (t u : Tree) : Prop :=
  ∀ k, u.at? k = if k <:+ q then some .dir else t.at? k

lemma paved_of_dir (h : t.at? q = some .dir) : Paved q t t := by
  intro k
  split
  · exact at?_eq_dir_of_suffix (by assumption) h
  · rfl

lemma paved_insert (h : t.at? p = some .dir) (hfree : t.at? (s :: p) = none) :
    Paved (s :: p) t (t.insert (s :: p) .dir) := by
  intro k
  rw [at?_insert h]
  by_cases hk : k = s :: p
  · rw [if_pos hk, if_pos (hk ▸ List.suffix_rfl)]
  · rw [if_neg hk]
    by_cases hin : (s :: p) <:+ k
    · rw [if_pos hin, if_neg fun hout => hk (hout.eq_of_length_le hin.length_le),
        at?_eq_none_of_suffix hin hfree]
    · rw [if_neg hin]
      split
      · rename_i hout
        have houter := (List.suffix_cons_iff.1 hout).resolve_left hk
        exact at?_eq_dir_of_suffix houter h
      · rfl

lemma Paved.trans_cons (h : Paved p t v) (h' : Paved (s :: p) v u) : Paved (s :: p) t u := by
  intro k
  rw [h' k, h k]
  split
  · rfl
  · rename_i hk
    rw [if_neg fun hin => hk (hin.trans (List.suffix_cons s p))]

def shortNames (xs : List Bytes) : List Bytes := xs.takeWhile (·.length ≤ nameLimit)

lemma shortNames_isPrefix (xs : List Bytes) : shortNames xs <+: xs := List.takeWhile_prefix _

lemma shortNames_append (hxs : ∀ x ∈ xs, x.length ≤ nameLimit) (ys : List Bytes) :
    shortNames (xs ++ ys) = xs ++ shortNames ys :=
  List.takeWhile_append_of_pos fun x hx => decide_eq_true (hxs x hx)

lemma shortNames_append_of_long (hxs : ∃ x ∈ xs, nameLimit < x.length) (ys : List Bytes) :
    shortNames (xs ++ ys) = shortNames xs := by
  obtain ⟨x, hx, hlen⟩ := hxs
  rw [shortNames, shortNames, List.takeWhile_append, if_neg]
  intro hall
  have hself := (shortNames_isPrefix xs).eq_of_length hall
  exact Nat.not_le.2 hlen (of_decide_eq_true (List.takeWhile_eq_self_iff.1 hself x hx))

/-- Nothing is changed but that there are directories on the way down by names, up to the first that
is too long. -/
structure Stopped (D : Place) (xs : List Bytes) (t u : Tree) : Prop where
  long : ∃ x ∈ xs, nameLimit < x.length
  paved : Paved (below D (shortNames xs)) t u

namespace Stopped

lemma of_head (ys : List Bytes) (hD : t.at? D = some .dir) (hlen : nameLimit < w.length) :
    Stopped D (w :: ys) t t where
  long := ⟨w, .head ys, hlen⟩
  paved := by
    rw [shortNames, List.takeWhile_cons, if_neg (by simpa using hlen)]
    exact paved_of_dir hD

lemma of_last (hu : Paved (below D xs) t u) (hxs : ∀ x ∈ xs, x.length ≤ nameLimit)
    (hlen : nameLimit < s.length) : Stopped D (xs ++ [s]) t u where
  long := ⟨s, by simp, hlen⟩
  paved := by
    rw [shortNames_append hxs, shortNames, List.takeWhile_cons, if_neg (by simpa using hlen),
      List.append_nil]
    exact hu

lemma append (h : Stopped D xs t u) (ys : List Bytes) : Stopped D (xs ++ ys) t u where
  long := h.long.imp fun x hx => ⟨List.mem_append_left ys hx.1, hx.2⟩
  paved := by
    rw [shortNames_append_of_long h.long]
    exact h.paved

lemma prepend (h : Stopped (below D ys) xs t u) (hys : ∀ y ∈ ys, y.length ≤ nameLimit) :
    Stopped D (ys ++ xs) t u where
  long := h.long.imp fun x hx => ⟨List.mem_append_right ys hx.1, hx.2⟩
  paved := by
    rw [shortNames_append hys, below_append]
    exact h.paved

lemma not_fits (h : Stopped D xs t u) (hxs : ∀ x ∈ xs, x ∈ path.names) : ¬Fits path := by
  obtain ⟨x, hx, hlen⟩ := h.long
  exact fun hfits => Nat.not_lt.2 (hfits.length_le x (hxs x hx)) hlen

end Stopped

/-- Something comes in at and in a place, with directories on the way there, and nothing that was
there is changed. -/
structure Adds (b : Place) (t u : Tree) : Prop where
  le : t ≤ u
  rest : ∀ k, ¬b <:+ k → t.at? k = none → u.at? k = none ∨ k <:+ b ∧ u.at? k = some .dir

instance : IsPreorder Tree (Adds b) where
  refl t := ⟨le_rfl, fun _ _ hnone => .inl hnone⟩
  trans t u v htu huv := by
    refine ⟨htu.le.trans huv.le, fun k hk hnone => ?_⟩
    rcases htu.rest k hk hnone with hnone | ⟨hkb, hdir⟩
    · exact huv.rest k hk hnone
    · exact .inr ⟨hkb, huv.le _ _ hdir⟩

namespace Adds

lemma refl (b : Place) (t : Tree) : Adds b t t := refl_of (Adds b) t

lemma trans (h : Adds b t v) (h' : Adds b v u) : Adds b t u := trans_of (Adds b) h h'

lemma at?_of_dir (h : Adds (n :: b) t u) (hb : t.at? b = some .dir) (hk : ¬(n :: b) <:+ k) :
    u.at? k = t.at? k := by
  cases hat : t.at? k with
  | some e => exact h.le _ _ hat
  | none =>
    refine (h.rest k hk hat).resolve_right ?_
    rintro ⟨hkb, -⟩
    rcases List.suffix_cons_iff.1 hkb with rfl | hkb
    · exact hk List.suffix_rfl
    · rw [at?_eq_dir_of_suffix hkb hb] at hat
      cases hat

lemma of_cons (h : Adds (n :: b) t u) (hb : t.at? b = some .dir) : Adds b t u where
  le := h.le
  rest k hk hnone := by
    rw [h.at?_of_dir hb fun hin => hk ((List.suffix_cons n b).trans hin)]
    exact .inl hnone

end Adds

/-- Nothing but directories is at a place and around it. -/
def Passable (t : Tree) (q : Place) : Prop :=
  ∀ k, k <:+ q → t.at? k = none ∨ t.at? k = some .dir

instance (t : Tree) (q : Place) : Decidable (t.Passable q) :=
  decidable_of_iff (∀ k ∈ q.tails, t.at? k = none ∨ t.at? k = some .dir) <| by
    simp only [List.mem_tails, Passable]

lemma passable_cons (h : t.Passable p) (hfree : t.at? (n :: p) = none) : t.Passable (n :: p) := by
  intro k hk
  rcases List.suffix_cons_iff.1 hk with rfl | hk
  · exact .inl hfree
  · exact h k hk

lemma passable_of_dir (h : t.at? p = some .dir) : t.Passable p := fun _ hk =>
  .inr (at?_eq_dir_of_suffix hk h)

lemma passable_below (ws : List Bytes) (h : t.at? D = some .dir) (hfree : t.at? (w :: D) = none) :
    t.Passable (below D (w :: ws)) := by
  have hin : (w :: D) <:+ below D (w :: ws) := by
    rw [below_cons]
    exact List.suffix_append _ _
  intro k hk
  rcases List.suffix_or_suffix_of_suffix hk hin with hk | hk
  · exact passable_cons (passable_of_dir h) hfree k hk
  · exact .inl (at?_eq_none_of_suffix hk hfree)

lemma at?_below_eq_none (ws : List Bytes) (hfree : t.at? (w :: D) = none) :
    t.at? (below D (w :: ws)) = none := by
  rw [below_cons]
  exact at?_eq_none_of_suffix (List.suffix_append _ _) hfree

lemma Paved.emptyDir (h : Paved q t u) (hfree : t.at? q = none) : u.EmptyDir q := by
  refine ⟨by rw [h, if_pos List.suffix_rfl], fun n => ?_⟩
  rw [h, if_neg (not_cons_suffix n q)]
  exact at?_eq_none_of_suffix (List.suffix_cons n q) hfree

lemma Paved.le (h : Paved q t u) (hway : t.Passable q) : t ≤ u := by
  refine le_iff.2 fun k => ?_
  rw [h k]
  split
  · exact hway k (by assumption)
  · exact .inr rfl

lemma Paved.adds (h : Paved p t u) (hp : p <:+ q) (hway : t.Passable q) : Adds q t u where
  le := h.le fun k hk => hway k (hk.trans hp)
  rest k _ hnone := by
    rw [h k]
    split
    · rename_i hk
      exact .inr ⟨hk.trans hp, rfl⟩
    · exact .inl hnone

/-- A path leads to a directory and goes on from there by names. -/
structure Approaches (t : Tree) (site : Site) (path : Path) (D : Place) (ws : List Bytes) :
    Prop where
  way : ∃ outer m, path.names = outer ++ ws ∧
    Leads t (fun _ => True) (startOf site.cwd path) outer linkLimit D m
  dir : t.at? D = some .dir
  isName : ∀ w ∈ ws, w ≠ dot ∧ w ≠ dotDot

namespace Approaches

lemma grow (h : t.Approaches site path D ws) (htu : t ≤ u) : u.Approaches site path D ws := by
  obtain ⟨outer, m, hnames, hm⟩ := h.way
  exact ⟨⟨outer, m, hnames, hm.extend (by simp [h.dir]) htu⟩, htu _ _ h.dir, h.isName⟩

lemma of_pathLeads (h : t.PathLeads site K path q) (hq : t.at? q = some .dir) :
    t.Approaches site path q [] := by
  obtain ⟨m, hm⟩ := h
  exact ⟨⟨_, m, (List.append_nil _).symm, hm.mono fun _ _ => trivial⟩, hq, by simp⟩

lemma of_follow (hq : t.follow site path = .ok q) (hdir : t.at? q = some .dir) :
    t.Approaches site path q [] :=
  .of_pathLeads ((follow_eq_ok_iff_of_dir hdir).1 hq).2 hdir

lemma of_slot (h : t.slot site path = .ok ⟨d, .name s⟩) : t.Approaches site path d [s] := by
  obtain ⟨xs, m, hnames, hs, -, hm, hd⟩ := leads_of_slot h
  exact ⟨⟨xs, m, hnames, hm⟩, hd, by simpa using hs⟩

lemma exists_last (h : t.Approaches site path D (w :: ws)) :
    ∃ outer s, path.names = outer ++ [s] ∧ IsName s := by
  obtain ⟨outer, m, hnames, -⟩ := h.way
  obtain ⟨ys, s, hws⟩ := (w :: ws).eq_nil_or_concat.resolve_left (by simp)
  rw [List.concat_eq_append] at hws
  have hs : s ≠ [] := (Path.mem_names.1 (by simp [hnames, hws] : s ∈ path.names)).2
  exact ⟨outer ++ ys, s, by rw [hnames, hws, List.append_assoc], hs, h.isName s (by simp [hws])⟩

lemma join (h : t.Approaches site path D ws) (hn : IsName n ∧ slash ∉ n) :
    t.Approaches site (path.join ⟨n⟩) D (ws ++ [n]) := by
  obtain ⟨outer, m, hnames, hm⟩ := h.way
  have habs := (Path.ordinary_mk hn.1 hn.2).not_isAbsolute
  refine ⟨⟨outer, m, ?_, ?_⟩, h.dir, fun w hw => ?_⟩
  · rw [Path.names_join habs, Path.names_mk hn.1 hn.2, hnames, List.append_assoc]
  · rwa [startOf, Path.isAbsolute_join habs]
  · rcases List.mem_append.1 hw with hw | hw
    · exact h.isName w hw
    · exact List.mem_singleton.1 hw ▸ hn.1.2

lemma advance (xs : List Bytes) (h : t.Approaches site path D (xs ++ ys))
    (hlen : ∀ x ∈ xs, x.length ≤ nameLimit)
    (hdir : t.at? (below D xs) = some .dir) : t.Approaches site path (below D xs) ys := by
  obtain ⟨outer, m, hnames, hm⟩ := h.way
  have hxs : ∀ x ∈ xs, x ≠ dot ∧ x ≠ dotDot := fun x hx => h.isName x (List.mem_append_left _ hx)
  refine ⟨⟨outer ++ xs, m, by rw [hnames, List.append_assoc], ?_⟩, hdir, fun y hy =>
    h.isName y (List.mem_append_right _ hy)⟩
  exact hm.append (leads_below (noLinks_of_dir hdir) hxs hlen (by simp [hdir]))

lemma paved (h : t.Approaches site path D (w :: ws ++ ys)) (hfree : t.at? (w :: D) = none)
    (hlen : ∀ x ∈ w :: ws, x.length ≤ nameLimit) (hu : Paved (below D (w :: ws)) t u) :
    u.Approaches site path (below D (w :: ws)) ys :=
  (h.grow (hu.le (passable_below ws h.dir hfree))).advance _ hlen
    (by rw [hu, if_pos List.suffix_rfl])

lemma walk (h : t.Approaches site path D ws) : ∃ m, ∀ ys,
    t.walk (startOf site.cwd path) (path.names ++ ys) linkLimit = t.walk D (ws ++ ys) m := by
  obtain ⟨outer, m, hnames, hm⟩ := h.way
  exact ⟨m, fun ys => by rw [hnames, List.append_assoc, hm.walk]⟩

lemma fits_of_length_le (h : t.Approaches site path D ws) (hc : check path = .ok ())
    (hlen : ∀ w ∈ ws, w.length ≤ nameLimit) : Fits path where
  check := hc
  length_le x hx := by
    obtain ⟨outer, m, hnames, hm⟩ := h.way
    rw [hnames] at hx
    rcases List.mem_append.1 hx with hx | hx
    · exact hm.length_le x hx
    · exact hlen x hx

lemma length_le (h : t.Approaches site path D ws) (hfits : Fits path) :
    ∀ w ∈ ws, w.length ≤ nameLimit := fun w hw => by
  obtain ⟨outer, m, hnames, -⟩ := h.way
  exact hfits.length_le w (by simp [hnames, hw])

lemma outer_length_le {outer : List Bytes} (h : t.Approaches site path D ws)
    (hnames : path.names = outer ++ ws) : ∀ x ∈ outer, x.length ≤ nameLimit := by
  obtain ⟨outer', m, hnames', hm⟩ := h.way
  obtain rfl : outer = outer' := List.append_cancel_right (hnames.symm.trans hnames')
  exact hm.length_le

lemma walk_free (hd : t.at? D = some .dir) (hw : w ≠ dot ∧ w ≠ dotDot)
    (hfree : t.at? (w :: D) = none) :
    t.walk D (w :: xs) m =
      if nameLimit < w.length then .error .nameTooLong
      else if xs = [] then .ok (.vacant w D) else .error .noEntry := by
  rw [walk_cons, hd, child?, hfree]
  by_cases hlen : nameLimit < w.length <;> simp [hw.1, hw.2, hlen]

lemma existsAt_eq_false (h : t.Approaches site path D (w :: ws)) (hfree : t.at? (w :: D) = none) :
    t.existsAt site path = false := by
  rw [existsAt]
  split
  · rename_i q hq
    obtain ⟨-, hwalk⟩ := follow_eq_ok_iff.1 hq
    obtain ⟨m, hm⟩ := h.walk
    rw [Path.steps_eq, hm, List.cons_append, walk_free h.dir (h.isName w (by simp)) hfree] at hwalk
    generalize ws ++ _ = rest at hwalk
    split at hwalk
    · cases hwalk
    · split at hwalk <;> cases hwalk
  · rfl

lemma isDirAt_eq_false (h : t.Approaches site path D (w :: ws)) (hfree : t.at? (w :: D) = none) :
    t.isDirAt site path = false := by
  have hnot := h.existsAt_eq_false hfree
  rw [existsAt] at hnot
  rw [isDirAt]
  split at hnot
  · cases hnot
  · rfl

lemma follow_of_dir (h : t.Approaches site path D []) (hc : check path = .ok ()) :
    t.follow site path = .ok D := by
  obtain ⟨outer, m, hnames, hm⟩ := h.way
  refine (follow_eq_ok_iff_of_dir h.dir).2 ⟨hc, m, ?_⟩
  rwa [hnames, List.append_nil]

lemma follow_of_file {c : Bytes} {x : Bool} (h : t.Approaches site path D [s])
    (hslash : path.endsInSlash = false) (hfits : Fits path)
    (hat : t.at? (s :: D) = some (.file c x)) : t.follow site path = .ok (s :: D) := by
  obtain ⟨outer, m, hnames, hm⟩ := h.way
  have hc := child?_eq_ok_iff.2 ⟨h.length_le hfits s (by simp), hat⟩
  refine follow_eq_ok_iff.2 ⟨hfits.check, ?_⟩
  rw [Path.steps_eq, if_neg (by simp [hslash]), List.append_nil, hnames]
  exact (hm.concat h.dir (h.isName s (by simp)) hc (by simp) trivial).walk_eq

lemma slot (h : t.Approaches site path D [s]) (hc : check path = .ok ()) :
    t.slot site path = .ok ⟨D, .name s⟩ := by
  obtain ⟨outer, m, hnames, hm⟩ := h.way
  exact (slot_eq_ok_iff hnames).2
    ⟨hc, (Last.ofStep_of_name (h.isName s (by simp))).symm, hm.walk_eq, h.dir⟩

lemma slot_missing (h : t.Approaches site path D (w :: ws ++ [s])) (hc : check path = .ok ())
    (hfree : t.at? (w :: D) = none) :
    t.slot site path =
      .error (if nameLimit < w.length then .nameTooLong else .noEntry) := by
  obtain ⟨outer, m, hnames, hm⟩ := h.way
  rw [← List.append_assoc] at hnames
  rw [slot_of_names hnames hc, hm.walk, walk_free h.dir (h.isName w (by simp)) hfree]
  by_cases hlen : nameLimit < w.length
  · simp [hlen]
  · by_cases hws : ws = [] <;> simp [hlen, hws]

lemma slot_blocked (h : t.Approaches site path D (w :: ws ++ [s])) (hc : check path = .ok ())
    (hat : t.at? (w :: D) = some e) (hlink : ∀ target, e ≠ .link target)
    (hstop : e = .dir → nameLimit < w.length) :
    t.slot site path =
      .error (if nameLimit < w.length then .nameTooLong else .notDirectory) := by
  obtain ⟨outer, m, hnames, hm⟩ := h.way
  have hl : ∀ target, t.at? (w :: D) ≠ some (.link target) := fun target htarget =>
    hlink target (Option.some.inj (hat.symm.trans htarget))
  rw [← List.append_assoc] at hnames
  rw [slot_of_names hnames hc, hm.walk, walk_name (h.isName w (by simp)) hl, stepIn, h.dir, child?,
    hat]
  by_cases hlen : nameLimit < w.length
  · simp [hlen]
  · have hfile : e ≠ .dir := fun he => hlen (hstop he)
    cases ws with
    | nil => simp [hlen, hat]
    | cons x ws => simp [hlen, walk_cons, hat]

lemma outside {o : Path} (h : t.Approaches site path D (ws ++ [s])) (ho : path.Outside o)
    (hne : ws ≠ []) : t.Approaches site o D ws := by
  obtain ⟨outer, m, hnames, hm⟩ := h.way
  obtain ⟨dots, s', hdots, hall, -⟩ := ho.names
  obtain ⟨ys, y, hys⟩ := ws.eq_nil_or_concat.resolve_left hne
  obtain rfl : ws = ys ++ [y] := by rwa [List.concat_eq_append] at hys
  rw [hnames, ← List.append_assoc] at hdots
  obtain ⟨hdots, -⟩ := List.append_inj' hdots rfl
  have honames : o.names = outer ++ (ys ++ [y]) := by
    rcases dots.eq_nil_or_concat with rfl | ⟨dots, d, rfl⟩
    · rw [hdots, List.append_nil]
    · rw [List.concat_eq_append, ← List.append_assoc, ← List.append_assoc] at hdots
      obtain ⟨-, hyd⟩ := List.append_inj' hdots rfl
      obtain rfl := List.singleton_inj.1 hyd
      exact absurd (hall y (by simp)) (h.isName y (by simp)).1
  refine ⟨⟨outer, m, honames, ?_⟩, h.dir, fun x hx => h.isName x (List.mem_append_left [s] hx)⟩
  rwa [startOf, ho.isAbsolute (Path.not_isEmpty_of_names (by simp [honames]))]

end Approaches

lemma Approaches.furthest (h : t.Approaches site path D ws) :
    t.at? (below D ws) = some .dir ∨ ∃ xs w ys, ws = xs ++ w :: ys ∧
      t.Approaches site path (below D xs) (w :: ys) ∧
      (t.at? (w :: below D xs) = some .dir → nameLimit < w.length) := by
  induction ws generalizing D with
  | nil => exact .inl h.dir
  | cons w ws ih =>
    by_cases hgo : t.at? (w :: D) = some .dir ∧ w.length ≤ nameLimit
    · have hnext := h.advance [w] (by simpa using hgo.2) hgo.1
      refine (ih hnext).imp (fun hdir => by rwa [below_cons]) ?_
      rintro ⟨xs, w', ys, rfl, hnear, hstop⟩
      exact ⟨w :: xs, w', ys, rfl, by rwa [below_cons], by rwa [below_cons]⟩
    · refine .inr ⟨[], w, ws, rfl, h, fun hdir => ?_⟩
      exact Nat.not_le.1 fun hlen => hgo ⟨hdir, hlen⟩

lemma Approaches.deepest (h : t.Approaches site path D ws)
    (hlen : ∀ w ∈ ws, w.length ≤ nameLimit) (hway : t.Passable (below D ws)) :
    t.at? (below D ws) = some .dir ∨ ∃ p w ys, t.Approaches site path p (w :: ys) ∧
      t.at? (w :: p) = none ∧ below p (w :: ys) = below D ws := by
  refine h.furthest.imp_right ?_
  rintro ⟨xs, w, ys, rfl, hnear, hstop⟩
  rw [below_append] at hway ⊢
  refine ⟨below D xs, w, ys, hnear, (hway _ ?_).resolve_right fun hdir => ?_, rfl⟩
  · rw [below_cons]
    exact List.suffix_append _ _
  · exact Nat.not_lt.2 (hlen w (by simp)) (hstop hdir)

lemma Approaches.makeDir_eq (h : t.Approaches site path D [s]) (hfree : t.at? (s :: D) = none)
    (hc : check path = .ok ()) :
    makeDir site path t =
      if nameLimit < s.length then .error .nameTooLong else .ok (t.insert (s :: D) .dir) := by
  rw [makeDir_of_slot (h.slot hc), child?, hfree]
  by_cases hlen : nameLimit < s.length <;> simp [hlen]

end Tree

namespace Files
open FirmwareTasks.Tree (Approaches Fits Paved Stopped below)
variable {t u v : Tree} {site : Site} {c : Path} {D : Place} {w s : Bytes} {ws : List Bytes}
  {l : List Path} {e : IoError}

lemma makeDirsIn_of_refused (hne : c.isEmpty = false) (hnot : t.isDirAt site c = false)
    (h : Tree.makeDir site c t = .error e) (he : e ≠ .noEntry) :
    makeDirsIn site (c :: l) t = .error e t := by
  rw [makeDirsIn, if_neg (by simp [hne]), tryCatch_of_error (makeDir_of_error h), if_neg he]
  exact acceptDir_of_not_isDirAt hnot

lemma makeDir_ends (h : t.Approaches site c D (w :: ws ++ [s])) (hfree : t.at? (w :: D) = none)
    (hc : Tree.check c = .ok ()) (hlen : ∀ y ∈ w :: ws, y.length ≤ Tree.nameLimit)
    (hv : Paved (below D (w :: ws)) t v) :
    (tryCatch (makeDir site c) (acceptDir site c) v).Ends
      (fun u => Fits c ∧ Paved (s :: below D (w :: ws)) t u)
      fun u => Tree.nameLimit < s.length ∧ u = v := by
  obtain ⟨hdir, hempty⟩ := hv.emptyDir (Tree.at?_below_eq_none ws hfree)
  have hfree' := hempty s
  have hnear : v.Approaches site c (below D (w :: ws)) [s] := h.paved hfree hlen hv
  have hmake := hnear.makeDir_eq hfree' hc
  split at hmake
  · rw [tryCatch_of_error (makeDir_of_error hmake),
      acceptDir_of_not_isDirAt (hnear.isDirAt_eq_false hfree')]
    exact ⟨by assumption, rfl⟩
  · rename_i hshort
    rw [tryCatch_of_ok (makeDir_of_ok hmake)]
    refine ⟨hnear.fits_of_length_le hc (by simpa using hshort), ?_⟩
    exact hv.trans_cons (Tree.paved_insert hdir hfree')

/-- The directories on the way into a free name are made, or those up to a name that is too long. -/
theorem makeDirsIn_ends (h : t.Approaches site c D (w :: ws)) (hfree : t.at? (w :: D) = none)
    (hchain : List.IsChain Path.Outside (c :: l))
    (hlast : ∀ a ∈ (c :: l).getLast?, a.names = [])
    (hcheck : ∀ a ∈ c :: l, a.isEmpty = false → Tree.check a = .ok ()) :
    (makeDirsIn site (c :: l) t).Ends (fun u => Fits c ∧ Paved (below D (w :: ws)) t u)
      fun u => Stopped D (w :: ws) t u := by
  induction l generalizing c ws with
  | nil =>
    obtain ⟨outer, m, hnames, -⟩ := h.way
    have hnil := hlast c rfl
    simp [hnames] at hnil
  | cons o l ih =>
    obtain ⟨hout, hchain⟩ := List.isChain_cons_cons.1 hchain
    have hne := hout.not_isEmpty
    have hnot : t.isDirAt site c = false := h.isDirAt_eq_false hfree
    have hc := hcheck c (.head _) hne
    rcases ws.eq_nil_or_concat with rfl | ⟨ys, s, hws⟩
    · have hmake := h.makeDir_eq hfree hc
      split at hmake
      · rw [makeDirsIn_of_refused hne hnot hmake (by decide)]
        exact .of_head [] h.dir (by assumption)
      · rename_i hshort
        rw [makeDirsIn, if_neg (by simp [hne]), tryCatch_of_ok (makeDir_of_ok hmake)]
        refine ⟨h.fits_of_length_le hc (by simpa using hshort), ?_⟩
        exact Tree.paved_insert h.dir hfree
    · obtain rfl : ws = ys ++ [s] := by rwa [List.concat_eq_append] at hws
      have hmake := Tree.makeDir_of_slot_error (h.slot_missing hc hfree)
      split at hmake
      · rw [makeDirsIn_of_refused hne hnot hmake (by decide)]
        exact .of_head _ h.dir (by assumption)
      · -- those on the way are made first
        have hout : t.Approaches site o D (w :: ys) := h.outside hout (by simp)
        have hbelow : below D (w :: (ys ++ [s])) = s :: below D (w :: ys) :=
          Tree.below_concat D (w :: ys) s
        rw [hbelow]
        rw [makeDirsIn, if_neg (by simp [hne]), tryCatch_of_error (makeDir_of_error hmake),
          if_pos rfl]
        have houter := ih hout hchain hlast fun a ha => hcheck a (.tail c ha)
        refine ends_bind houter ?_ fun u hu => hu.append [s]
        rintro _ v ⟨hfits, hv⟩
        refine (makeDir_ends h hfree hc (hout.length_le hfits) hv).imp (fun _ hu => hu) ?_
        rintro u ⟨hlen, rfl⟩
        exact .of_last hv (hout.length_le hfits) hlen

/-- A directory is made in a free name, with those on the way there, or those up to a name that is
too long. -/
theorem makeDirs_stops (h : t.Approaches site c D (w :: ws)) (hfree : t.at? (w :: D) = none)
    (hc : Tree.check c = .ok ()) :
    (makeDirs site c t).Ends (fun u => Fits c ∧ Paved (below D (w :: ws)) t u)
      fun u => Stopped D (w :: ws) t u := by
  obtain ⟨outer, s, hends, hs⟩ := h.exists_last
  obtain ⟨a, hlast, ha⟩ := Path.getLast?_ancestors hends hs
  refine makeDirsIn_ends h hfree (Path.chain_ancestors hends hs)
    (by simp [List.getLast?_cons, hlast, ha]) fun o ho hne => ?_
  rcases List.mem_cons.1 ho with rfl | ho
  · exact hc
  · exact Tree.check_outward hc (Path.prefix_of_mem_ancestors hends hs ho) hne

/-- A directory is made in a free name, with those on the way there, exactly if its path can be
given to the system; otherwise some of those on the way are made. -/
theorem makeDirs_ends (h : t.Approaches site c D (w :: ws)) (hfree : t.at? (w :: D) = none) :
    (makeDirs site c t).Ends (fun u => Fits c ∧ Paved (below D (w :: ws)) t u)
      fun u => ¬Fits c ∧ ∃ p, p <:+ below D (w :: ws) ∧ Paved p t u := by
  cases hc : Tree.check c with
  | ok _ =>
    refine (makeDirs_stops h hfree hc).imp (fun _ hu => hu) ?_
    intro u hu
    obtain ⟨outer, m, hnames, -⟩ := h.way
    refine ⟨hu.not_fits fun x hx => by simp [hnames, hx], _, ?_, hu.paved⟩
    exact Tree.below_suffix_iff.2 (Tree.shortNames_isPrefix _)
  | error e =>
    obtain ⟨outer, s, hends, hs⟩ := h.exists_last
    have hne : c.isEmpty = false := Path.not_isEmpty_of_names (by simp [hends])
    have he : e ≠ .noEntry := by
      rintro rfl
      exact absurd (Tree.ofPath_of_check hne hc) (by decide)
    rw [makeDirs, makeDirsIn_of_refused hne (h.isDirAt_eq_false hfree)
      (Tree.makeDir_of_slot_error (Tree.slot_of_check_error hc)) he]
    refine ⟨fun hfits => ?_, D, List.suffix_append _ _, Tree.paved_of_dir h.dir⟩
    rw [hfits.check] at hc
    cases hc

end Files
end FirmwareTasks
