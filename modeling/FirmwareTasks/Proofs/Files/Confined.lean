import FirmwareTasks.Proofs.Files.Lexical
import FirmwareTasks.Proofs.Files.Renaming
/-!
What file calls leave alone. In a tree without links, a call changes nothing outside the area to
which its paths belong, but that directories come in on the way there.
-/
namespace FirmwareTasks
open EStateM
open FirmwareTasks.Path (dot dotDot IsName slash)

namespace Tree

/-- A tree without links, in which all names are names. -/
structure Plain (t : Tree) : Prop where
  linkless : t.Linkless
  isName : ∀ n p, (t.at? (n :: p)).isSome → IsName n ∧ slash ∉ n

/-- Places at and inside which anything may change, and places where directories may come in. -/
structure Area where
  own : Place → Prop
  made : Place → Prop
  own_of_suffix : ∀ {p q}, own p → p <:+ q → own q

/-- From a plain tree only the area changes. -/
def Confined (A : Area) (t u : Tree) : Prop :=
  t.Plain → u.Plain ∧ ∀ k, ¬A.own k →
    u.at? k = t.at? k ∨ t.at? k = none ∧ u.at? k = some .dir ∧ A.made k

instance (A : Area) : IsPreorder Tree (Confined A) where
  refl t ht := ⟨ht, fun _ _ => .inl rfl⟩
  trans t u v htu huv ht := by
    obtain ⟨hu, hframe⟩ := htu ht
    obtain ⟨hv, hframe'⟩ := huv hu
    refine ⟨hv, fun k hk => ?_⟩
    rcases hframe' k hk with hsame | ⟨hnone, hdir, hmade⟩
    · rw [hsame]
      exact hframe k hk
    · rcases hframe k hk with hsame | ⟨-, hdir', -⟩
      · exact .inr ⟨hsame.symm.trans hnone, hdir, hmade⟩
      · rw [hnone] at hdir'
        cases hdir'

variable {A : Area} {t u : Tree} {site : Site} {path src dst : Path} {p q d : Place} {s n : Bytes}
  {e : Entry}

lemma Plain.of_le (h : t.Plain) (hu : u ≤ t) : u.Plain where
  linkless k target hk := h.linkless k target (hu k _ hk)
  isName n p hsome := by
    obtain ⟨e, he⟩ := Option.isSome_iff_exists.1 hsome
    exact h.isName n p (by simp [hu _ e he])

lemma Plain.insert (h : t.Plain) (hn : IsName n ∧ slash ∉ n) (he : ∀ target, e ≠ .link target) :
    (t.insert (n :: p) e).Plain := by
  by_cases hd : t.at? p = some .dir
  · have hat (k : Place) : (t.insert (n :: p) e).at? k = t.at? k ∨
        (t.insert (n :: p) e).at? k = none ∨ k = n :: p ∧ (t.insert (n :: p) e).at? k = some e := by
      rw [at?_insert hd]
      split
      · exact .inr (.inr ⟨‹_›, rfl⟩)
      · split
        · exact .inr (.inl rfl)
        · exact .inl rfl
    constructor
    · intro k target hk
      rcases hat k with hsame | hnone | ⟨-, hnew⟩
      · exact h.linkless k target (hsame.symm.trans hk)
      · simp [hnone] at hk
      · exact he target (Option.some.inj (hnew.symm.trans hk))
    · intro m q hsome
      rcases hat (m :: q) with hsame | hnone | ⟨hk, -⟩
      · exact h.isName m q (hsame ▸ hsome)
      · simp [hnone] at hsome
      · obtain ⟨rfl, rfl⟩ := List.cons.inj hk
        exact hn
  · rwa [Tree.insert, dif_neg hd]

lemma plain_iff :
    t.Plain ↔ t.Linkless ∧ ∀ ke ∈ t.moving [] [], ∀ n ∈ ke.1.head?, IsName n ∧ slash ∉ n := by
  simp only [Prod.forall, mem_moving_root]
  constructor
  · intro h
    refine ⟨h.linkless, fun k e hk n hn => ?_⟩
    obtain ⟨p, rfl⟩ := List.head?_eq_some_iff.1 hn
    exact h.isName n p (Option.isSome_iff_exists.2 ⟨e, hk⟩)
  · rintro ⟨hlinkless, hname⟩
    refine ⟨hlinkless, fun n p hsome => ?_⟩
    obtain ⟨e, he⟩ := Option.isSome_iff_exists.1 hsome
    exact hname (n :: p) e he n rfl

instance (t : Tree) : Decidable t.Plain := decidable_of_iff _ plain_iff.symm

lemma confined_of_frame (hq : A.own q) (hplain : t.Plain → u.Plain)
    (h : ∀ k, ¬q <:+ k → u.at? k = t.at? k) : Confined A t u := fun ht =>
  ⟨hplain ht, fun k hk => .inl (h k fun hin => hk (A.own_of_suffix hq hin))⟩

lemma confined_erase (hq : A.own (s :: d)) : Confined A t (t.erase (s :: d)) :=
  confined_of_frame hq (·.of_le (t.erase_le s d)) fun k hk => by simp [hk]

lemma confined_clear (hq : A.own q) : Confined A t (t.clear q) :=
  confined_of_frame hq (·.of_le (t.clear_le q)) fun k hk => by simp [hk]

lemma confined_insert (hq : A.own (n :: p)) (hn : IsName n ∧ slash ∉ n)
    (he : ∀ target, e ≠ .link target) : Confined A t (t.insert (n :: p) e) := by
  refine confined_of_frame hq (·.insert hn he) fun k hk => ?_
  by_cases hd : t.at? p = some .dir
  · rw [at?_insert hd, if_neg hk, if_neg]
    rintro rfl
    exact hk List.suffix_rfl
  · rw [Tree.insert, dif_neg hd]

lemma Plain.move {m : Bytes} {q : Place} (h : t.Plain) (hn : IsName n ∧ slash ∉ n)
    (hd : t.at? p = some .dir) (hoff : ¬(m :: q) <:+ p) : (t.move (m :: q) (n :: p)).Plain := by
  have hat {k : Place} (hk : ¬(n :: p) <:+ k) : (t.move (m :: q) (n :: p)).at? k =
      if (m :: q) <:+ k then none else t.at? k := at?_move_of_not_suffix (by simp) hd hoff hk
  have hin (r : Place) : (t.move (m :: q) (n :: p)).at? (r ++ n :: p) = t.at? (r ++ m :: q) :=
    at?_move (by simp) hd hoff r
  constructor
  · intro k target hk
    by_cases hdst : (n :: p) <:+ k
    · obtain ⟨r, rfl⟩ := hdst
      exact h.linkless _ target ((hin r).symm.trans hk)
    · rw [hat hdst] at hk
      split at hk
      · cases hk
      · exact h.linkless k target hk
  · intro x k hsome
    by_cases hdst : (n :: p) <:+ x :: k
    · obtain ⟨r, hr⟩ := hdst
      cases r with
      | nil =>
        obtain ⟨rfl, rfl⟩ := List.cons.inj hr
        exact hn
      | cons y r =>
        obtain ⟨rfl, rfl⟩ := List.cons.inj hr
        exact h.isName y _ ((hin (y :: r)) ▸ hsome)
    · rw [hat hdst] at hsome
      split at hsome
      · cases hsome
      · exact h.isName x k hsome

lemma confined_move {m : Bytes} {q : Place} (hsrc : A.own (m :: q)) (hdst : A.own (n :: p))
    (hn : IsName n ∧ slash ∉ n) : Confined A t (t.move (m :: q) (n :: p)) := by
  by_cases hd : t.at? p = some .dir ∧ ¬(m :: q) <:+ p
  · refine fun ht => ⟨ht.move hn hd.1 hd.2, fun k hk => .inl ?_⟩
    have hoff : ¬(n :: p) <:+ k := fun hin => hk (A.own_of_suffix hdst hin)
    have hoff' : ¬(m :: q) <:+ k := fun hin => hk (A.own_of_suffix hsrc hin)
    rw [at?_move_of_not_suffix (by simp) hd.1 hd.2 hoff, if_neg hoff']
  · have hsame : t.move (m :: q) (n :: p) = t := by rw [Tree.move, dif_neg hd]
    rw [hsame]
    exact refl_of (Confined A) t

lemma confined_makeDir (h : A.own (site.spell path) ∨ A.made (site.spell path))
    (hu : makeDir site path t = .ok u) : Confined A t u := by
  intro ht
  obtain ⟨d, s, hslot, hfree, rfl⟩ := makeDir_eq_ok_iff.1 hu
  obtain ⟨xs, m, hnames, hs, -, -, hd⟩ := leads_of_slot hslot
  have hfree := (child?_eq_ok_iff.1 hfree).2
  have hmem : s ∈ path.names := by simp [hnames]
  rw [← ht.linkless.eq_of_slot hslot] at h
  refine ⟨ht.insert ⟨⟨(Path.mem_names.1 hmem).2, hs⟩, Path.slash_not_mem_of_mem_names hmem⟩
    (by simp), fun k hk => ?_⟩
  rw [at?_insert hd]
  split
  · rename_i hkd
    subst hkd
    exact .inr ⟨hfree, rfl, h.resolve_left hk⟩
  · split
    · rename_i hin
      exact .inl (at?_eq_none_of_suffix hin hfree).symm
    · exact .inl rfl

lemma unlink_eq_ok (h : unlink site path t = .ok u) :
    ∃ d s, t.slot site path = .ok ⟨d, .name s⟩ ∧ u = t.erase (s :: d) := by
  obtain ⟨⟨d, last⟩, hslot, h⟩ := Except.bind_eq_ok h
  cases last with
  | name s =>
    obtain ⟨o, -, h⟩ := Except.bind_eq_ok h
    refine ⟨d, s, hslot, ?_⟩
    rcases o with _ | _ | _ | _
    · cases h
    · cases h
    all_goals
      dsimp only at h
      split at h
      · cases h
      · cases h
        rfl
  | _ => cases h

lemma removeDir_eq_ok (h : removeDir site path t = .ok u) :
    ∃ d s, t.slot site path = .ok ⟨d, .name s⟩ ∧ u = t.erase (s :: d) := by
  obtain ⟨⟨d, last⟩, hslot, h⟩ := Except.bind_eq_ok h
  cases last with
  | name s =>
    obtain ⟨o, -, h⟩ := Except.bind_eq_ok h
    refine ⟨d, s, hslot, ?_⟩
    rcases o with _ | _ | _ | _
    · cases h
    · dsimp only at h
      split at h
      · cases h
        rfl
      · cases h
    · cases h
    · cases h
  | _ => cases h

end Tree

namespace Tree.Area
variable {A : Area} {site : Site} {path src dst : Path} {l : List Path}

/-- The path of an entry in the area, with all of the way there in the area or open to
directories. -/
structure Holds (A : Area) (site : Site) (path : Path) : Prop where
  endsIn : ∃ outer s, path.EndsIn outer s
  own : A.own (site.spell path)
  way : ∀ ys, ys <+: path.names →
    A.own (spell (startOf site.cwd path) ys) ∨ A.made (spell (startOf site.cwd path) ys)

namespace Holds

lemma place (h : A.Holds site path) :
    ∃ s d, site.spell path = s :: d ∧ IsName s ∧ slash ∉ s := by
  obtain ⟨outer, s, hends⟩ := h.endsIn
  refine ⟨s, spell (startOf site.cwd path) outer, ?_, hends.isName, ?_⟩
  · rw [Site.spell, hends.names, spell_concat hends.isName.2]
  · exact Path.slash_not_mem_of_mem_names (p := path) (by simp [hends.names])

lemma join (h : A.Holds site path) {n : Bytes} (hn : IsName n ∧ slash ∉ n) :
    A.Holds site (path.join ⟨n⟩) := by
  have hord := Path.ordinary_mk hn.1 hn.2
  obtain ⟨outer, s, hnames, hends⟩ := hord.endsIn
  have hn' : (⟨n⟩ : Path).names = [n] := by
    rw [hord.names_eq, Path.segments_mk_of_not_mem hn.2]
  have hstart : startOf site.cwd (path.join ⟨n⟩) = startOf site.cwd path := by
    rw [startOf, startOf, Path.isAbsolute_join hord.not_isAbsolute]
  have hown : A.own (spell (startOf site.cwd path) (path.names ++ [n])) := by
    rw [spell_concat hn.1.2]
    exact A.own_of_suffix h.own (List.suffix_cons _ _)
  have hnames : (path.join ⟨n⟩).names = path.names ++ [n] := by
    rw [Path.names_join hord.not_isAbsolute, hn']
  refine ⟨⟨_, s, hends path⟩, ?_, fun ys hys => ?_⟩
  · rwa [Site.spell, hstart, hnames]
  · rw [hstart]
    rw [hnames] at hys
    rcases List.prefix_concat_iff.1 hys with rfl | hys
    · exact .inl hown
    · exact h.way ys hys

end Holds
end Tree.Area
end FirmwareTasks
