import Mathlib.Data.Finset.Card
import FirmwareTasks.Proofs.Files.Extent
import FirmwareTasks.Proofs.Run.CopyTree
/-!
How much the copying of a directory makes, and how far in it goes. A copy that puts nothing into the
directory that is copied makes no more than one entry for each that is in it, besides the target and
what is outside that, and it goes in no further than the directory does.
-/
namespace FirmwareTasks
open EStateM
open Files
open FirmwareTasks.Tree (Adds Extends Gains nested)

variable {σ : Type} {site : Site} {src dst : Path} {t u : Tree} {q k r : Place}

namespace Tree

/-- The places at which there is something, the root apart. -/
def places (t : Tree) : Finset Place := ((t.moving [] []).map Prod.fst).toFinset

lemma mem_places : k ∈ t.places ↔ k ≠ [] ∧ (t.at? k).isSome := by
  simp only [places, List.mem_toFinset, List.mem_map, Prod.exists, exists_and_right,
    exists_eq_right, mem_moving_root]
  constructor
  · rintro ⟨e, he⟩
    have hne : k ≠ [] := by
      rintro rfl
      rw [t.root_absent] at he
      cases he
    exact ⟨hne, by rw [at?_of_ne_root hne, he]; rfl⟩
  · rintro ⟨hne, hsome⟩
    rw [at?_of_ne_root hne] at hsome
    exact Option.isSome_iff_exists.1 hsome

/-- The places in a directory at which there is something. -/
def insideOf (t : Tree) (q : Place) : Finset Place := t.places.filter fun k => q <:+ k ∧ k ≠ q

lemma mem_insideOf : k ∈ t.insideOf q ↔ ∃ r ≠ [], k = r ++ q ∧ (t.at? (r ++ q)).isSome := by
  simp only [insideOf, Finset.mem_filter, mem_places]
  constructor
  · rintro ⟨⟨-, hsome⟩, ⟨r, rfl⟩, hne⟩
    exact ⟨r, by rintro rfl; exact hne rfl, rfl, hsome⟩
  · rintro ⟨r, hr, rfl, hsome⟩
    exact ⟨⟨by simp [hr], hsome⟩, List.suffix_append r q, by simpa using hr⟩

lemma root_of_outermost {a : Path} (ha : a ∈ dst.ancestors) (hlast : a ∉ dst.ancestors.dropLast)
    (hk : t.follow site a = .ok k) : k = [] := by
  rcases Path.mem_ancestors_cases ha with hin | rfl | rfl
  · exact absurd hin hlast
  · cases hk
  · have hroot : t.follow site ⟨[Path.slash]⟩ = .ok [] := rfl
    exact (Except.ok.inj (hroot.symm.trans hk)).symm

/-- No more than one entry has come in for each that is in the directory by then, besides the target
and what is outside that. -/
theorem Gains.card_le (h : Gains site q dst t u) :
    (u.places \ t.places).card ≤ (u.insideOf q).card + dst.ancestors.dropLast.length + 1 := by
  let inner := (u.insideOf q).toList.map fun k => dst.inside (k.take (k.length - q.length))
  let led := (dst :: dst.ancestors.dropLast ++ inner).filterMap fun a =>
    (u.follow site a).toOption
  have hsub : u.places \ t.places ⊆ led.toFinset := by
    intro k hk
    rw [Finset.mem_sdiff, mem_places, mem_places, not_and, Option.not_isSome_iff_eq_none] at hk
    obtain ⟨⟨hne, hsome⟩, hnone⟩ := hk
    obtain ⟨a, ha, hlead⟩ := h.named k (hnone hne) hsome
    refine List.mem_toFinset.2 (List.mem_filterMap.2 ⟨a, ?_, by rw [hlead]; rfl⟩)
    rcases ha with ha | ⟨r, hr, hin, rfl⟩
    · refine List.mem_append_left _ (List.mem_cons.2 ?_)
      refine (List.mem_cons.1 ha).imp_right fun hout => ?_
      by_contra hlast
      exact hne (root_of_outermost hout hlast hlead)
    · refine List.mem_append_right _ (List.mem_map.2 ⟨r ++ q, ?_, by simp⟩)
      exact Finset.mem_toList.2 (mem_insideOf.2 ⟨r, hr, rfl, hin⟩)
  calc (u.places \ t.places).card ≤ led.toFinset.card := Finset.card_le_card hsub
    _ ≤ led.length := List.toFinset_card_le led
    _ ≤ (dst :: dst.ancestors.dropLast ++ inner).length := List.length_filterMap_le _ _
    _ = (u.insideOf q).card + dst.ancestors.dropLast.length + 1 := by
      simp [inner]
      omega

lemma Extends.insideOf_eq (h : Extends t u)
    (hnone : ∀ r, t.at? (r ++ q) = none → u.at? (r ++ q) = none) : u.insideOf q = t.insideOf q := by
  ext k
  rw [mem_insideOf, mem_insideOf]
  refine exists_congr fun r => and_congr_right fun _ => and_congr_right fun _ =>
    ⟨fun hsome => ?_, h.isSome⟩
  rw [← Option.ne_none_iff_isSome] at hsome ⊢
  exact fun hempty => hsome (hnone r hempty)

end Tree

namespace Files

section directory
variable (hq : t.follow site src = .ok q) (hdir : t.at? q = some .dir) (htidy : t.Tidy q)
include hq hdir htidy

lemma due_of_follow (dst : Path) : Due t site src dst q [] where
  way := .of_follow hq hdir
  tidy := htidy
  dir := hdir
  ready := trivial
  fits := nofun

/-- What the copy of a directory makes is where paths of the copy lead, whatever the target is. -/
theorem copyWithin_gains (depth : ℕ) :
    Gains site q dst t (copyWithin site depth src dst t).state := by
  rw [copyWithin_of_isDirAt (Tree.isDirAt_of_follow hq hdir)]
  split
  · exact refl_of (Gains site q dst) t
  · exact (due_of_follow hq hdir htidy dst).copyDir_gains depth

/-- A copy that puts nothing into what it copies goes in no further than that does. -/
theorem copyWithin_depth
    (hnone : ∀ r, t.at? (r ++ q) = none → (copyWhole site src dst t).state.at? (r ++ q) = none)
    {depth : ℕ} (hdepth : ∀ r, t.at? (r ++ q) = some .dir → r.length < depth) :
    copyWithin site depth src dst t = copyWhole site src dst t := by
  have hisDir := Tree.isDirAt_of_follow hq hdir
  have hdue := due_of_follow hq hdir htidy dst
  rw [copyWhole_eq_copyWithin] at hnone ⊢
  have hext : Extends t (copyWithin site Tree.pathLimit src dst t).state :=
    (copyWithin_gains hq hdir htidy Tree.pathLimit).toExtends
  rw [copyWithin_of_isDirAt hisDir] at hnone hext ⊢
  rw [copyWithin_of_isDirAt hisDir]
  split
  · rfl
  · rename_i hexists
    rw [if_neg hexists] at hnone hext
    refine hdue.copyDir_depth (m := min depth Tree.pathLimit) (fun r hr hpasses => ?_)
      (by simp) (by simp)
    rw [Path.inside, Path.inside] at hr
    have hdir' : t.at? (r ++ q) = some .dir := by
      refine hext.dir_of_dir hr fun hempty => ?_
      rw [hnone r hempty] at hr
      cases hr
    refine lt_min (hdepth r hdir') ?_
    cases r with
    | nil => decide
    | cons n r =>
      have hnames := hdue.isName (r := n :: r) (Option.isSome_iff_exists.2 ⟨_, hdir'⟩)
      have hle := Path.length_le_inside (List.forall_mem_cons.1 hnames).2 src
      have hlt := (Tree.check_eq_ok_iff.1 (hpasses n r rfl).check).2.2
      have hpos : 0 < src.bytes.length := by
        have hempty := (Tree.check_eq_ok_iff.1 (Tree.follow_eq_ok_iff.1 hq).1).2.1
        simpa [Path.isEmpty, ← List.length_pos_iff] using hempty
      rw [List.length_cons]
      omega

end directory
end Files

namespace Act
variable {w : World σ}

/-- Copies a directory to a path where nothing is, no further in than a depth. -/
def copyTreeWithin (site : Site) (depth : ℕ) (src dst : Path) : Act σ Unit := do
  files (.copy src dst) (copyWithin site depth src dst)
  log .debug ("Copied " ++ src.text ++ " to " ++ dst.text)

lemma copyTree_eq_copyTreeWithin (site : Site) (src dst : Path) :
    copyTree (σ := σ) site src dst = copyTreeWithin site Tree.pathLimit src dst := rfl

lemma tree_copyTree (site : Site) (src dst : Path) (w : World σ) :
    (copyTree site src dst w).state.tree = (copyWhole site src dst w.tree).state := by
  cases hrun : copyWhole site src dst w.tree with
  | ok _ t =>
    obtain ⟨v, hv, rfl⟩ := copyTree_of_ok hrun
    rw [hv]
    rfl
  | error e t =>
    rw [copyTree_of_error hrun]
    rfl

/-- What is no directory is not copied, nor is anything to where something is. The copying of a
directory to where nothing is, off itself, puts nothing into it. A copy that puts nothing into the
directory makes no more than one entry for each that is in the directory, besides the target and
what is outside that, the root apart; and it ends as it would if it could go in no further than the
directory does. -/
theorem copyTree_makes_few (site : Site) (src dst : Path) (w : World σ) :
    (w.tree.isDirAt site src = false ∨ w.tree.existsAt site dst = true →
      (copyTree site src dst w).state.tree = w.tree) ∧
    ∀ q, w.tree.follow site src = .ok q → w.tree.at? q = some .dir → w.tree.Tidy q →
      (∀ b, w.tree.VacantAt site dst b → ¬q <:+ b → ∀ r,
        (copyTree site src dst w).state.tree.at? (r ++ q) = w.tree.at? (r ++ q)) ∧
      ((∀ r, w.tree.at? (r ++ q) = none →
          (copyTree site src dst w).state.tree.at? (r ++ q) = none) →
        ((copyTree site src dst w).state.tree.places \ w.tree.places).card ≤
          (w.tree.insideOf q).card + dst.ancestors.dropLast.length + 1 ∧
        ∀ depth, (∀ r, w.tree.at? (r ++ q) = some .dir → r.length < depth) →
          copyTreeWithin site depth src dst w = copyTree site src dst w) := by
  refine ⟨fun hnot => ?_, fun q hq hdir htidy => ?_⟩
  · obtain ⟨e, v, hrun, hsame⟩ := copyTree_refused hnot
    rw [hrun]
    exact hsame
  rw [tree_copyTree]
  refine ⟨fun b hdst hoff r => ?_, fun hnone => ⟨?_, ?_⟩⟩
  · have hadds : Adds b w.tree (copyWhole site src dst w.tree).state :=
      ((copyWhole_ends hq hdir hdst hoff htidy).imp (fun _ h => h.1) fun _ h => h.1).state
    exact hadds.at?_append hdst.at?_eq_none (by simp [hdir]) hoff r
  · have hgains : Gains site q dst w.tree (copyWhole site src dst w.tree).state :=
      copyWithin_gains hq hdir htidy Tree.pathLimit
    rw [← hgains.toExtends.insideOf_eq hnone]
    exact hgains.card_le
  · intro depth hdepth
    have hfiles : files (.copy src dst) (copyWithin site depth src dst) w =
        files (.copy src dst) (copyWhole site src dst) w :=
      files_congr (copyWithin_depth hq hdir htidy hnone hdepth)
    rw [copyTree_eq_copyTreeWithin, copyTreeWithin, copyTreeWithin, ← copyWhole_eq_copyWithin]
    exact bind_congr_of_eq hfiles _

theorem copyTree_makes_few_nested :
    let site : Site := { cwd := [] }
    let src := Path.ofString "dir"
    let dst := Path.ofString "new/dir"
    let q := [Utf8.encode "dir"]
    let b := [Utf8.encode "dir", Utf8.encode "new"]
    let w : World Unit := ⟨nested, (), []⟩
    let v := (copyTree site src dst w).state
    (nested.isDirAt site dst = false ∧ (copyTree site dst src w).state.tree = nested) ∧
    (nested.follow site src = .ok q ∧ nested.at? q = some .dir ∧ nested.Tidy q ∧
      nested.VacantAt site dst b ∧ ¬q <:+ b) ∧
    (∀ r, v.tree.at? (r ++ q) = nested.at? (r ++ q)) ∧
    (v.tree.places \ nested.places).card ≤ 2 + 1 + 1 ∧
    (∀ r, nested.at? (r ++ q) = some .dir → r.length < 2) ∧
    copyTreeWithin site 2 src dst w = copyTree site src dst w := by
  intro site src dst q b w v
  have hnot : nested.isDirAt site dst = false := by decide +kernel
  have hq : nested.follow site src = .ok q := by decide +kernel
  have hdir : nested.at? q = some .dir := by decide +kernel
  have htidy : nested.Tidy q := by decide +kernel
  have hoff : ¬q <:+ b := by decide +kernel
  have hdst : nested.VacantAt site dst b := by
    have hnames : dst.names = ["new", "dir"].map Utf8.encode := by decide +kernel
    exact Tree.vacantAt_of_names hnames (by decide +kernel) (by decide +kernel) rfl
      (by decide +kernel)
  have hdepth (r : Place) (hr : nested.at? (r ++ q) = some .dir) : r.length < 2 := by
    have hall : ∀ k ∈ nested.insideOf q, nested.at? k = some .dir → k.length < 3 := by
      decide +kernel
    by_cases hnil : r = []
    · rw [hnil]
      decide
    · have hlt := hall (r ++ q) (Tree.mem_insideOf.2 ⟨r, hnil, rfl, by simp [hr]⟩) hr
      rw [List.length_append, show q.length = 1 from rfl] at hlt
      omega
  have hkept := ((copyTree_makes_few site src dst w).2 q hq hdir htidy).1 b hdst hoff
  obtain ⟨hcard, hwithin⟩ := ((copyTree_makes_few site src dst w).2 q hq hdir htidy).2
    fun r hnone => (hkept r).trans hnone
  have hfew : (nested.insideOf q).card + dst.ancestors.dropLast.length + 1 = 2 + 1 + 1 := by
    decide +kernel
  exact ⟨⟨hnot, (copyTree_makes_few site dst src w).1 (.inl hnot)⟩,
    ⟨hq, hdir, htidy, hdst, hoff⟩, hkept, hfew ▸ hcard, hdepth, hwithin 2 hdepth⟩

/-- An empty directory that is copied into itself is copied again and again, until the paths get too
long for the system. -/
theorem copyTree_copies_its_copies :
    let site : Site := { cwd := [] }
    let src := Path.ofString "other"
    let dst := src.join ⟨List.replicate 250 98⟩
    let q := [Utf8.encode "other"]
    nested.follow site src = .ok q ∧ nested.at? q = some .dir ∧ nested.Tidy q ∧
      nested.insideOf q = ∅ ∧
      (copyTree (σ := Unit) site src dst ⟨nested, (), []⟩).Ends (fun _ => False) fun v =>
        (nested.insideOf q).card + dst.ancestors.dropLast.length + 1 <
          (v.tree.places \ nested.places).card := by
  decide +kernel

end Act
end FirmwareTasks
