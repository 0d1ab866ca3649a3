import FirmwareTasks.Proofs.Files.Copying
import FirmwareTasks.Proofs.Files.Footing
import FirmwareTasks.Proofs.Files.Frame
/-!
Copying a directory in a tree without links. It ends well exactly if nothing but directories is on
the way to the target and every path of the copy can be given to the system. Then all that is in the
directory is at the target as well, and nothing else has changed but that there are directories on
the way there.
-/
namespace FirmwareTasks
open EStateM

namespace Tree
variable {t u : Tree} {site : Site} {src dst : Path} {a b k : Place}

/-- What is at and in one place is at and in another as well; there are directories on the way
there, and nothing else is changed. -/
structure Grafted (a b : Place) (t u : Tree) : Prop where
  copy : ∀ r, u.at? (r ++ b) = t.at? (r ++ a)
  rest : ∀ k, ¬b <:+ k → u.at? k = if k <:+ b then some .dir else t.at? k

namespace Grafted

lemma le (h : Grafted a b t u) (hfree : t.at? b = none) (hway : t.Passable b) : t ≤ u := by
  refine le_iff.2 fun k => ?_
  by_cases hk : b <:+ k
  · exact .inl (at?_eq_none_of_suffix hk hfree)
  · rw [h.rest k hk]
    split
    · exact hway k (by assumption)
    · exact .inr rfl

lemma linkless (h : Grafted a b t u) (ht : t.Linkless) : u.Linkless := by
  intro k target hk
  by_cases hin : b <:+ k
  · obtain ⟨r, rfl⟩ := hin
    exact ht _ target ((h.copy r).symm.trans hk)
  · rw [h.rest k hin] at hk
    split at hk
    · cases hk
    · exact ht k target hk

end Grafted

lemma Replica.grafted (h : Replica site src dst a b u) (hadds : Adds b t u) (ht : t.Linkless)
    (ha : t.at? a = some .dir) (hfree : t.at? b = none) (hoff : ¬a <:+ b) : Grafted a b t u := by
  have hkept := hadds.at?_append hfree (a := a) (by simp [ha]) hoff
  have hcopy (r : Place) : u.at? (r ++ b) = t.at? (r ++ a) := by
    rw [h.copy, image_of_ne_link fun target => hkept r ▸ ht _ target, hkept]
  have hdir : u.at? b = some .dir := (hcopy []).trans ha
  refine ⟨hcopy, fun k hk => ?_⟩
  split
  · exact at?_eq_dir_of_suffix (by assumption) hdir
  · rename_i hout
    cases hat : t.at? k with
    | some e => exact hadds.le _ _ hat
    | none => exact (hadds.rest k hk hat).resolve_right fun hin => hout hin.1

lemma copyable_iff_of_linkless (ht : t.Linkless) :
    t.Copyable site a src dst ↔ t.CopyFits a src dst :=
  ⟨fun h => h.fits, fun h => ⟨h, fun _ target hlink => absurd hlink (ht _ target)⟩⟩

end Tree

namespace Files
open FirmwareTasks.Tree (Footed Descends Fits CopyFits Grafted Apart)
variable {t u : Tree} {site : Site} {base src dst : Path} {xs ys : List Bytes}

/-- A directory is copied to where nothing is exactly if nothing but directories is on the way there
and every path of the copy can be given to the system. -/
theorem copyDir_settles (h : t.Footed site base) (hsrc : Descends base src xs)
    (hdst : Descends base dst ys) (hfits : Fits src) (hdir : t.at? (site.spell src) = some .dir)
    (hfree : t.at? (site.spell dst) = none) (hoff : ¬site.spell src <:+ site.spell dst)
    (htidy : t.Tidy (site.spell src)) :
    (copyDir site Tree.pathLimit src dst t).Settles
      (t.CopyFits (site.spell src) src dst ∧ t.Passable (site.spell dst))
      (Grafted (site.spell src) (site.spell dst) t) := by
  have hroot (hcond : t.CopyFits (site.spell src) src dst) : Fits dst :=
    ((Tree.copyFits_iff hdir).1 hcond).1.2
  by_cases hway : Fits dst ∧ t.Passable (site.spell dst)
  · have hsrc' := h.approaches hsrc.toContinues
    have hdst' := h.approaches hdst.toContinues
    have hnear : t.Approaches site src (site.spell src) [] := by
      rw [hsrc.spell_eq] at hdir ⊢
      rw [← List.append_nil xs] at hsrc'
      exact hsrc'.advance _ (fun x hx => hfits.length_le x (by simp [hsrc.names, hx])) hdir
    obtain ⟨hfits', hpass⟩ := hway
    have hpass' := hpass
    rw [hdst.spell_eq] at hpass'
    rcases hdst'.deepest (hdst'.length_le hfits') hpass' with
      hthere | ⟨p, w, ws, hdst', hnew, hbelow⟩
    · rw [← hdst.spell_eq, hfree] at hthere
      cases hthere
    · rw [← hdst.spell_eq] at hbelow
      have hcopy := copyDir_ends site Tree.pathLimit hnear hdst' hnew (hbelow ▸ hoff) htidy
        (Nat.le_add_right _ _)
      rw [hbelow, Tree.copyable_iff_of_linkless h.linkless] at hcopy
      cases hrun : copyDir site Tree.pathLimit src dst t with
      | ok _ u =>
        rw [hrun] at hcopy
        obtain ⟨hadds, hreplica⟩ := hcopy
        have hkept := hadds.at?_append hfree (a := site.spell src) (by simp [hdir]) hoff
        exact ⟨⟨(Tree.copyFits_congr hkept).1 hreplica.fits, hpass⟩,
          hreplica.grafted hadds h.linkless hdir hfree hoff⟩
      | error e u =>
        rw [hrun] at hcopy
        exact fun hcond => hcopy.2 hcond.1
  · have hdepth : Tree.pathLimit = 4095 + 1 := rfl
    rw [hdepth, copyDir_succ]
    exact settles_bind (makeDirs_settles h hdst) (fun hcond => ⟨hroot hcond.1, hcond.2⟩)
      fun _ _ hcond _ => absurd hcond hway

/-- A directory is copied exactly if it is there and nothing is at the target, nothing but
directories is on the way there, and every path of the copy can be given to the system. -/
theorem copyWhole_settles (ht : t.Linkless) (hsrc : Descends base src xs)
    (hdst : Descends base dst ys) (hoff : ¬site.spell src <:+ site.spell dst)
    (htidy : t.Tidy (site.spell src)) :
    (copyWhole site src dst t).Settles
      (t.isDirAt site src = true ∧ t.at? (site.spell dst) = none ∧ t.Passable (site.spell dst) ∧
        t.CopyFits (site.spell src) src dst)
      (Grafted (site.spell src) (site.spell dst) t) := by
  cases hisDir : t.isDirAt site src with
  | false =>
    obtain ⟨e, he⟩ : ∃ e, copyWhole site src dst t = .error e t := copyWhole_of_not_isDirAt hisDir
    rw [he]
    exact fun hcond => Bool.false_ne_true hcond.1
  | true =>
    have h : t.Footed site base := .of_isDirAt ht hsrc.toContinues hisDir
    obtain ⟨hfits, hdir⟩ := (h.isDirAt_iff hsrc.toContinues).1 hisDir
    have hexists := h.existsAt_iff hdst
    rw [copyWhole_of_isDirAt hisDir]
    cases hfree : t.at? (site.spell dst) with
    | none =>
      rw [hfree, Option.isSome_none, Bool.false_eq_true, and_false, iff_false] at hexists
      rw [if_neg hexists]
      have hcopy := copyDir_settles h hsrc hdst hfits hdir hfree hoff htidy
      refine hcopy.congr ⟨fun hcond => ⟨rfl, rfl, hcond.2, hcond.1⟩, fun hcond => ?_⟩
        fun _ _ hgraft => hgraft
      exact ⟨hcond.2.2.2, hcond.2.2.1⟩
    | some x =>
      rw [hfree, Option.isSome_some, and_iff_left rfl] at hexists
      split
      · exact fun hcond => Option.some_ne_none x hcond.2.1
      · rename_i hnot
        -- something is there, but its path is refused
        refine settles_bind (m := makeDirs site dst) (makeDirs_settles h hdst)
          (fun hcond => absurd hcond.2.1 (Option.some_ne_none x)) fun _ _ hcond _ => ?_
        exact absurd (hexists.2 hcond.1) hnot

lemma makeDirs_of_check_error {x : IoError} (h : t.Footed site base)
    (hpath : Descends base dst ys) (hc : Tree.check dst = .error x) :
    ∃ e, makeDirs site dst t = .error e t := by
  obtain ⟨outer, s, rfl⟩ := hpath.exists_concat
  have hne := hpath.endsIn.not_isEmpty
  have hslot : t.slot site dst = .error x := Tree.slot_of_check_error hc
  have hx : x ≠ .noEntry := by
    rintro rfl
    exact absurd (Tree.ofPath_of_check hne hc) (by decide)
  have hnot : t.isDirAt site dst = false := by
    rw [Bool.eq_false_iff]
    intro hdir
    rw [((h.isDirAt_iff hpath.toContinues).1 hdir).1.check] at hc
    cases hc
  refine ⟨x, ?_⟩
  rw [makeDirs, makeDirsIn, if_neg (by simp [hne]),
    tryCatch_of_error (makeDir_of_error (Tree.makeDir_of_slot_error hslot)), if_neg hx]
  exact acceptDir_of_not_isDirAt hnot

/-- The room that a copy takes: at and in its target, and directories on the way there. -/
def copyArea (t : Tree) (b : Place) : Tree.Area where
  own k := b <:+ k
  made k := k <:+ b ∨ t.at? k = some .dir
  own_of_suffix hp hq := hp.trans hq

lemma holds_copyArea (h : t.Footed site base) (hdst : Descends base dst ys) :
    (copyArea t (site.spell dst)).Holds site dst where
  endsIn := by
    obtain ⟨outer, s, rfl⟩ := hdst.exists_concat
    exact ⟨_, s, hdst.endsIn⟩
  own := List.suffix_rfl
  way zs hzs := by
    rcases hdst.prefix_cases hzs with hbase | ⟨zs, hrest, rfl⟩
    · refine .inr (.inr ?_)
      rw [hdst.startOf_eq]
      exact h.linkless.dir_of_pathLeads h.leads h.dir zs hbase
    · refine .inr (.inl ?_)
      rw [hdst.spell_prefix hrest, hdst.spell_eq]
      exact Tree.below_suffix_iff.2 hrest

lemma apart_of_not_existsAt (h : t.Footed site base) (hsrc : Descends base src xs)
    (hdst : Descends base dst ys) (hisDir : t.isDirAt site src = true)
    (hnot : ¬t.existsAt site dst = true) (hc : Tree.check dst = .ok ())
    (hoff : ¬site.spell src <:+ site.spell dst) : Apart (site.spell src) (site.spell dst) := by
  refine ⟨hoff, fun hin => hnot ?_⟩
  obtain ⟨hfits, hdir⟩ := (h.isDirAt_iff hsrc.toContinues).1 hisDir
  have hys : ys <+: xs := by
    rwa [hsrc.spell_eq, hdst.spell_eq, Tree.below_suffix_iff] at hin
  have hnames : dst.names <+: src.names := by
    rw [hsrc.names, hdst.names]
    exact (List.prefix_append_right_inj _).2 hys
  have hfits' : Fits dst := ⟨hc, fun x hx => hfits.length_le x (hnames.subset hx)⟩
  refine (h.existsAt_iff hdst).2 ⟨hfits', ?_⟩
  rw [Tree.at?_eq_dir_of_suffix hin hdir]
  rfl

theorem at?_of_copyWhole_error {x : IoError} (ht : t.Plain) (hsrc : Descends base src xs)
    (hdst : Descends base dst ys) (hoff : ¬site.spell src <:+ site.spell dst)
    (hcopy : copyWhole site src dst t = .error x u) (r : Place) :
    u.at? (r ++ site.spell src) = t.at? (r ++ site.spell src) := by
  cases hisDir : t.isDirAt site src with
  | false =>
    obtain ⟨e, he⟩ : ∃ e, copyWhole site src dst t = .error e t := copyWhole_of_not_isDirAt hisDir
    rw [he] at hcopy
    cases hcopy
    rfl
  | true =>
    have h : t.Footed site base := .of_isDirAt ht.linkless hsrc.toContinues hisDir
    rw [copyWhole_of_isDirAt hisDir] at hcopy
    split at hcopy
    · cases hcopy
      rfl
    · rename_i hnot
      cases hc : Tree.check dst with
      | error e =>
        obtain ⟨e, he⟩ := makeDirs_of_check_error h hdst hc
        have hdone : copyDir site Tree.pathLimit src dst t = .error e t := bind_of_error he _
        rw [hdone] at hcopy
        cases hcopy
        rfl
      | ok _ =>
        have hapart := apart_of_not_existsAt h hsrc hdst hisDir hnot hc hoff
        have hframe : Tree.Confined (copyArea t (site.spell dst)) t
            (copyDir site Tree.pathLimit src dst t).state :=
          Confined.copyDir Tree.pathLimit (holds_copyArea h hdst) t
        rw [hcopy] at hframe
        obtain ⟨-, hframe⟩ := hframe ht
        rcases hframe _ hapart.not_suffix with hsame | ⟨hnone, -, hout | hthere⟩
        · exact hsame
        · exact absurd ((List.suffix_append r _).trans hout) hoff
        · rw [hthere] at hnone
          cases hnone

end Files
end FirmwareTasks
