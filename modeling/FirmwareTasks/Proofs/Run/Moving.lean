import FirmwareTasks.Proofs.Files.Renaming
import FirmwareTasks.Proofs.Run.Script
/-!
Moving an entry on one file system. It is moved whole, with all that is in it, or nothing is
changed; the three ways in which this can end exclude each other.
-/
namespace FirmwareTasks
open EStateM
open Files
open FirmwareTasks.Tree (GivesWay OffLink Shifted)

variable {σ : Type} {site : Site} {src dst : Path} {t u : Tree} {q b p : Place} {n : Bytes}

namespace Act

/-- On one file system a move is done, or refused with the tree unchanged. -/
theorem relocate_cases (hm : site.mounts = []) (src dst : Path) (w : World σ) :
    (∃ v, relocate site src dst w = .ok () v ∧ Moved site src dst w.tree v.tree) ∨
    (∃ e v, relocate site src dst w = .error (.relocate src dst e) v ∧ v.tree = w.tree) ∧
      ∀ u, ¬Moved site src dst w.tree u := by
  rcases moveWithin_cases hm src dst w.tree with ⟨u, hcall, hmoved⟩ | ⟨⟨e, hcall⟩, hnot⟩
  · have hfiles : files (.relocate src dst) (moveWithin site src dst) w =
        .ok none { w with tree := u } := files_of_ok hcall
    exact .inl ⟨_, bind_of_ok hfiles _, hmoved⟩
  · have hfiles : files (.relocate src dst) (moveWithin site src dst) w =
        .error (.relocate src dst e) { w with tree := w.tree } := files_of_error hcall
    exact .inr ⟨⟨_, _, bind_of_error hfiles _, rfl⟩, hnot⟩

end Act

namespace Files

/-- The entry that a path names comes to the place that another names, where something that gives
way to it may have been, and nothing is where it was. The first path names nothing any more, unless
it leads over a link that has given way; the second names the entry, unless it leads over such a
link or through what has been moved. -/
structure MovedTo (site : Site) (src dst : Path) (q b : Place) (t u : Tree) : Prop extends
    Shifted q b t u where
  source : t.locate site src = .ok q
  target : ∃ p n, b = n :: p ∧ t.slot site dst = .ok ⟨p, .name n⟩
  givesWay : ∃ old, t.at? q = some old ∧ GivesWay t b old
  unnamed : t.NearsBy site (OffLink t b) src → u.locate site src = .error .noEntry
  named : t.NearsBy site (fun k => ¬q <:+ k ∧ OffLink t b k) dst → u.locate site dst = .ok b

lemma MovedTo.ne (h : MovedTo site src dst q b t u) : u ≠ t := by
  rintro rfl
  obtain ⟨old, hold, -⟩ := h.givesWay
  have hgone := h.gone []
  rw [List.nil_append, hold] at hgone
  cases hgone

namespace Moved

/-- The paths name the same entry, or what the first names is taken to where the second is. -/
theorem cases (h : Moved site src dst t u) :
    ∃ q, t.locate site src = .ok q ∧
      (t.locate site dst = .ok q ∧ u = t ∨ ∃ b, MovedTo site src dst q b t u) := by
  obtain ⟨d, m, p, n, hsrc, hdst, hq, hmove⟩ := Tree.rename_eq_ok h.rename
  obtain ⟨old, hx, hlen, hslash, hway⟩ := Tree.givesWay_of_rename h.rename hsrc hdst
  have hold := (Tree.child?_eq_ok_iff.1 hx).2
  refine ⟨m :: d, hq, ?_⟩
  rcases hmove with ⟨hsame, rfl⟩ | ⟨hin, hout, rfl⟩
  · obtain ⟨rfl, rfl⟩ := List.cons.inj hsame
    refine .inl ⟨?_, rfl⟩
    cases hend : dst.endsInSlash with
    | false => rw [Tree.locate_of_slot hend hdst, hx]
    | true =>
      obtain rfl := hslash (by simp [hend])
      exact Tree.locate_of_slot_dir hdst hx
  · have hne : m :: d ≠ n :: p := fun heq => hin (heq ▸ List.suffix_rfl)
    have hshift := Tree.shifted_move (Tree.dir_of_slot hdst) (by simp) ⟨hin, hout⟩
    exact .inr ⟨n :: p, hshift, hq, ⟨p, n, rfl, hdst⟩, ⟨old, hold, hway hne⟩,
      (hshift.locate_source hsrc hx (hway hne) · hq),
      hshift.locate_target hdst hold hlen (hway hne) fun hend => hslash (by simp [hend])⟩

end Moved

/-- What a move is refused for: there is nothing to move, or no directory to move it into; what is
in the way is a directory with something in it; or a directory would be moved into itself. -/
inductive Hopeless (site : Site) (src dst : Path) (t : Tree) : Prop
  | source (h : ∀ p, t.follow site src ≠ .ok p)
  | target {dir : Path} (hparent : dst.parent? = some dir) (hne : dir.isEmpty = false)
      (h : t.isDirAt site dir = false)
  | populated {b : Place} (hb : t.locate site dst = .ok b) (hdir : t.at? b = some .dir)
      (hin : t.names b ≠ []) (h : t.locate site src ≠ .ok b)
  | inside {q : Place} (hq : t.locate site src = .ok q)
      (h : (∃ p n, t.slot site dst = .ok ⟨p, .name n⟩ ∧ q <:+ p) ∨
        ∃ b, t.locate site dst = .ok b ∧ q <:+ b ∧ q ≠ b)

lemma Moved.eq_of_locate {k : Place} (h : Moved site src dst t u)
    (hdst : t.slot site dst = .ok ⟨p, .name n⟩) (hk : t.locate site dst = .ok k) : k = n :: p := by
  obtain ⟨d, m, p', n', hsrc, hdst', -, -⟩ := Tree.rename_eq_ok h.rename
  rw [hdst] at hdst'
  cases hdst'
  obtain ⟨old, hx, -, hslash, hway⟩ := Tree.givesWay_of_rename h.rename hsrc hdst
  rcases Tree.eq_of_locate_of_slot hdst hk with rfl | ⟨hend, link, hlink⟩
  · rfl
  · obtain rfl := hslash (by simp [hend])
    by_cases hsame : m :: d = n :: p
    · rw [← hsame, (Tree.child?_eq_ok_iff.1 hx).2] at hlink
      cases hlink
    · have hway := hway hsame
      rw [GivesWay, hlink] at hway
      exact absurd rfl hway

theorem Hopeless.not_moved (h : Hopeless site src dst t) : ¬Moved site src dst t u := by
  intro hmoved
  obtain ⟨d, m, p, n, hsrc, hdst, hq, hmove⟩ := Tree.rename_eq_ok hmoved.rename
  cases h with
  | source h =>
    obtain ⟨p, hp⟩ := hmoved.found
    exact h p hp
  | target hparent hne h =>
    rw [(checkTarget_eq_ok_iff hparent hne).1 hmoved.target] at h
    cases h
  | populated hb hdir hin h =>
    obtain rfl := hmoved.eq_of_locate hdst hb
    obtain ⟨old, -, -, -, hway⟩ := Tree.givesWay_of_rename hmoved.rename hsrc hdst
    have hway := hway fun hsame => h (hsame ▸ hq)
    rw [GivesWay, hdir] at hway
    exact hin hway.2
  | inside hq' h =>
    rw [hq] at hq'
    cases hq'
    have hoff : m :: d = n :: p ∨ ¬(m :: d) <:+ n :: p := hmove.imp And.left And.left
    rcases h with ⟨p', n', hslot, hin⟩ | ⟨b, hb, hin, hne⟩
    · rw [hdst] at hslot
      cases hslot
      rcases hoff with hsame | hoff
      · exact Tree.not_cons_suffix n p (hsame ▸ hin)
      · exact hoff (Tree.suffix_cons_of_suffix hin)
    · obtain rfl := hmoved.eq_of_locate hdst hb
      exact hoff.elim hne fun hoff => hoff hin

end Files

namespace Act

/-- How a move on one file system ends. -/
inductive Ending where
  | refused
  | same
  | moved
deriving DecidableEq, Repr

/-- What an ending says of the result of a move and of the tree that is left. -/
def Ending.Holds (site : Site) (src dst : Path) (w : World σ)
    (r : Result Error (World σ) Unit) : Ending → Prop
  | refused => ∃ e v, r = .error (.relocate src dst e) v ∧ v.tree = w.tree
  | same => ∃ v q, r = .ok () v ∧ v.tree = w.tree ∧ w.tree.locate site src = .ok q ∧
      w.tree.locate site dst = .ok q
  | moved => ∃ v q b, r = .ok () v ∧ MovedTo site src dst q b w.tree v.tree

/-- On one file system a move ends in exactly one of three ways: it is refused with nothing changed;
or both paths name one entry, and nothing is changed; or the entry is moved whole, onto nothing or
onto what gives way to it, and nothing else is changed. It is refused wherever it is hopeless. -/
theorem relocate_ends (hm : site.mounts = []) (src dst : Path) (w : World σ) :
    let r := relocate site src dst w
    (∃! ending : Ending, ending.Holds site src dst w r) ∧
      (Hopeless site src dst w.tree → Ending.refused.Holds site src dst w r) := by
  intro r
  rcases relocate_cases hm src dst w with ⟨v, hr, hmoved⟩ | ⟨⟨e, v, hr, hv⟩, -⟩
  · have hdone : r = .ok () v := hr
    refine ⟨?_, fun h => absurd hmoved h.not_moved⟩
    have hnot : ¬Ending.refused.Holds site src dst w r := by
      rintro ⟨e, v', he, -⟩
      rw [hdone] at he
      cases he
    obtain ⟨q, hq, ⟨hdst, hsame⟩ | ⟨b, hto⟩⟩ := hmoved.cases
    · refine ⟨.same, ⟨v, q, hdone, hsame, hq, hdst⟩, fun ending hending => ?_⟩
      cases ending with
      | refused => exact absurd hending hnot
      | same => rfl
      | moved =>
        obtain ⟨v', q', b, hr', hto⟩ := hending
        rw [hdone] at hr'
        cases hr'
        exact absurd hsame hto.ne
    · refine ⟨.moved, ⟨v, q, b, hdone, hto⟩, fun ending hending => ?_⟩
      cases ending with
      | refused => exact absurd hending hnot
      | same =>
        obtain ⟨v', q', hr', hsame, -, -⟩ := hending
        rw [hdone] at hr'
        cases hr'
        exact absurd hsame hto.ne
      | moved => rfl
  · have hrefused : Ending.refused.Holds site src dst w r := ⟨e, v, hr, hv⟩
    refine ⟨⟨.refused, hrefused, fun ending hending => ?_⟩, fun _ => hrefused⟩
    have hfails : r = .error (.relocate src dst e) v := hr
    cases ending with
    | refused => rfl
    | same =>
      obtain ⟨v', q, hr', -⟩ := hending
      rw [hfails] at hr'
      cases hr'
    | moved =>
      obtain ⟨v', q, b, hr', -⟩ := hending
      rw [hfails] at hr'
      cases hr'

/-- A directory with a file in it, and an empty directory. -/
def fullAndEmpty : Tree :=
  let full := Tree.empty.insert [Utf8.encode "full"] .dir
  let filled := full.insert [Utf8.encode "file", Utf8.encode "full"] (.file [] false)
  filled.insert [Utf8.encode "empty"] .dir

theorem relocate_ends_moved :
    let site : Site := { cwd := [] }
    let w : World Unit := ⟨fullAndEmpty, (), []⟩
    let move := relocate (σ := Unit) site (.ofString "full") (.ofString "empty")
    site.mounts = [] ∧
      Ending.moved.Holds site (.ofString "full") (.ofString "empty") w (move w) := by
  intro site w move
  obtain ⟨⟨ending, hending, -⟩, -⟩ :=
    relocate_ends (rfl : site.mounts = []) (.ofString "full") (.ofString "empty") w
  refine ⟨rfl, ?_⟩
  cases ending with
  | refused =>
    obtain ⟨e, v, hr, -⟩ := hending
    obtain ⟨u, hu⟩ : ∃ u, move w = .ok () u := by decide +kernel
    have hr : move w = .error _ v := hr
    rw [hu] at hr
    cases hr
  | same =>
    obtain ⟨v, q, -, -, hsrc, hdst⟩ := hending
    have hne : w.tree.locate site (.ofString "full") ≠ w.tree.locate site (.ofString "empty") := by
      decide +kernel
    exact absurd (hsrc.trans hdst.symm) hne
  | moved => exact hending

/-- A directory `d` with a link `x` to its file `e`, a directory `e` with a file `x`, and a link `l`
to `d`. -/
def linked : Tree :=
  let place (names : List String) : Place := names.map Utf8.encode
  let dirs := (Tree.empty.insert (place ["d"]) .dir).insert (place ["e"]) .dir
  let files := (dirs.insert (place ["e", "d"]) (.file [] false)).insert (place ["x", "e"])
    (.file [] false)
  (files.insert (place ["x", "d"]) (.link (Utf8.encode "e"))).insert (place ["l"])
    (.link (Utf8.encode "d"))

/-- A path can name something where its entry has been moved away, by way of a link that has given
way to that entry; and a path through what has been moved does not name it where it has come to. -/
theorem relocate_redirects :
    let site : Site := { cwd := [] }
    let place (names : List String) : Place := names.map Utf8.encode
    let names (t : Tree) (path : String) := t.locate site (.ofString path)
    let lone := Tree.empty.insert (place ["a"]) .dir
    names linked "l/x" = .ok (place ["x", "d"]) ∧ names linked "l" = .ok (place ["l"]) ∧
    (∃ v, relocate site (.ofString "l/x") (.ofString "l") ⟨linked, (), []⟩ = .ok () v ∧
      names v.tree "l/x" = .ok (place ["x", "e"])) ∧
    names lone "a" = .ok (place ["a"]) ∧ names lone "a/../b" = .error .noEntry ∧
    ∃ v, relocate site (.ofString "a") (.ofString "a/../b") ⟨lone, (), []⟩ = .ok () v ∧
      names v.tree "a/../b" = .error .noEntry := by
  decide +kernel

end Act
end FirmwareTasks
