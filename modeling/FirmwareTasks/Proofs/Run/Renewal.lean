import FirmwareTasks.Proofs.Files.Copying
import FirmwareTasks.Proofs.Files.Renewal
import FirmwareTasks.Proofs.Run.Agreement
/-!
Leaving an empty directory at a path. It comes to that exactly if the system takes the path and
nothing but directories is around the place, whatever is at the place itself.
-/
namespace FirmwareTasks
open EStateM Files
open FirmwareTasks.Tree (Fits Paved Stopped Straight below faraway nested nestedWithLink)

variable {σ : Type} {site : Site} {base path : Path} {D : Place} {xs : List Bytes}

namespace Act
variable {w v : World σ} {t u : Tree} {c : Bool} {cause : IoError} {e : Error}

lemma ensureFresh_of_refused (h : removeIfThere site path w.tree = .error cause t) :
    ensureFresh site path w = .error (.removeDir path cause) { w with tree := t } :=
  bind_of_error (ensureAbsent_of_error h) _

lemma ensureFresh_of_made (h : removeIfThere site path w.tree = .ok c t)
    (hmake : makeDirs site path t = .ok () u) :
    ∃ v, ensureFresh site path w = .ok () v ∧ v.tree = u := by
  obtain ⟨es, habsent, -⟩ := ensureAbsent_of_ok h
  have hfiles : files (.createDir path) (makeDirs site path)
      { w with tree := t, events := w.events ++ es } =
        .ok () { w with tree := u, events := w.events ++ es } := files_of_ok hmake
  exact ⟨_, (bind_of_ok habsent _).trans (bind_of_ok hfiles _), rfl⟩

lemma ensureFresh_of_stopped (h : removeIfThere site path w.tree = .ok c t)
    (hmake : makeDirs site path t = .error cause u) :
    ∃ v, ensureFresh site path w = .error (.createDir path cause) v ∧ v.tree = u := by
  obtain ⟨es, habsent, -⟩ := ensureAbsent_of_ok h
  have hfiles : files (.createDir path) (makeDirs site path)
      { w with tree := t, events := w.events ++ es } =
        .error (.createDir path cause) { w with tree := u, events := w.events ++ es } :=
    files_of_error hmake
  exact ⟨_, (bind_of_ok habsent _).trans (bind_of_error hfiles _), rfl⟩

lemma ensureFresh_cases (h : w.tree.Straight site base path D xs) :
    (∃ v, ensureFresh site path w = .ok () v ∧ (Fits path ∧ w.tree.Unblocked (below D xs)) ∧
      Paved (below D xs) (w.tree.erase (below D xs)) v.tree) ∨
    (∃ cause, ensureFresh site path w = .error (.removeDir path cause) w ∧
      ¬(Fits path ∧ w.tree.Unblocked (below D xs))) ∨
    ∃ cause v, ensureFresh site path w = .error (.createDir path cause) v ∧ ¬Fits path ∧
      w.tree.Unblocked (below D xs) ∧ Stopped D xs w.tree v.tree := by
  obtain ⟨ys, s, rfl⟩ := h.exists_concat
  rw [Tree.below_concat]
  rcases h.renewal with ⟨cause, hremove, hnot⟩ | ⟨c, hremove, hopen, hmake⟩
  · exact .inr (.inl ⟨cause, ensureFresh_of_refused hremove, hnot⟩)
  · cases hrun : makeDirs site path (w.tree.erase (s :: below D ys)) with
    | ok _ u =>
      rw [hrun] at hmake
      obtain ⟨v, hv, rfl⟩ := ensureFresh_of_made hremove hrun
      exact .inl ⟨v, hv, ⟨hmake.1, hopen⟩, hmake.2⟩
    | error cause u =>
      rw [hrun] at hmake
      obtain ⟨v, hv, rfl⟩ := ensureFresh_of_stopped hremove hrun
      exact .inr (.inr ⟨cause, v, hv, hmake.1, hopen, hmake.2⟩)

lemma paved_of_ensureFresh_ok (h : w.tree.Straight site base path D xs)
    (hv : ensureFresh site path w = .ok () v) :
    (Fits path ∧ w.tree.Unblocked (below D xs)) ∧
      Paved (below D xs) (w.tree.erase (below D xs)) v.tree := by
  rcases ensureFresh_cases h with ⟨v', hv', hall⟩ | ⟨_, hv', -⟩ | ⟨_, _, hv', -⟩
  · rw [hv'] at hv
    cases hv
    exact hall
  · rw [hv'] at hv
    cases hv
  · rw [hv'] at hv
    cases hv

lemma stopped_of_ensureFresh_error (h : w.tree.Straight site base path D xs)
    (hv : ensureFresh site path w = .error e v) :
    (∃ cause, e = .removeDir path cause ∧ v = w) ∨
      ∃ cause, e = .createDir path cause ∧ Stopped D xs w.tree v.tree := by
  rcases ensureFresh_cases h with ⟨v', hv', -⟩ | ⟨cause, hv', -⟩ | ⟨cause, v', hv', -, -, hu⟩
  · rw [hv'] at hv
    cases hv
  · rw [hv'] at hv
    cases hv
    exact .inl ⟨cause, rfl, rfl⟩
  · rw [hv'] at hv
    cases hv
    exact .inr ⟨cause, rfl, hu⟩

theorem ensureFresh_ok_iff (h : w.tree.Straight site base path D xs) :
    (∃ v, ensureFresh site path w = .ok () v) ↔ Fits path ∧ w.tree.Unblocked (below D xs) := by
  constructor
  · rintro ⟨v, hv⟩
    exact (paved_of_ensureFresh_ok h hv).1
  · intro hcond
    rcases ensureFresh_cases h with ⟨v, hv, -⟩ | ⟨_, -, hnot⟩ | ⟨_, _, -, hnot, -⟩
    · exact ⟨v, hv⟩
    · exact absurd hcond hnot
    · exact absurd hcond.1 hnot

lemma tree_ensureFresh_twice (h : w.tree.Straight site base path D xs) :
    (ensureFresh site path (ensureFresh site path w).state).state.tree =
      (ensureFresh site path w).state.tree := by
  rcases ensureFresh_cases h with ⟨v, hv, ⟨hfits, hopen⟩, hu⟩ | ⟨cause, hv, -⟩ |
    ⟨cause, v, hv, hnot, hopen, hu⟩
  · rw [hv]
    have hagain : v.tree.Unblocked (below D xs) := fun k hk _ => .inr (by rw [hu k, if_pos hk])
    rcases ensureFresh_cases (h.renewed hopen hu) with ⟨v', hv', -, hu'⟩ |
      ⟨_, _, hnot⟩ | ⟨_, _, _, hnot, -⟩
    · rw [Result.state, hv', Result.state, hu'.eq_of_emptyDir (h.emptyDir_of_renewed hu)]
    · exact absurd ⟨hfits, hagain⟩ hnot
    · exact absurd hfits hnot
  · rw [hv]
    exact congrArg (fun r => r.state.tree) hv
  · rw [hv]
    rcases ensureFresh_cases (h.stopped hopen hu) with ⟨v', hv', ⟨hfits, -⟩, -⟩ |
      ⟨_, hv', -⟩ | ⟨_, v', hv', -, -, hu'⟩
    · exact absurd hfits hnot
    · exact congrArg (fun r => r.state.tree) hv'
    · rw [Result.state, hv', Result.state, hu'.paved.eq_of_dir]
      rw [hu.paved, if_pos List.suffix_rfl]

/-- An empty directory is left at a path that goes down from a directory without links on the way,
whatever is there, exactly if the system takes the path and nothing but directories is around the
place. Those that are missing are made and hold only what is next on the way; everything else is as
it was, and what a link has led to as well. An error changes nothing, unless a name is too long:
then there are directories up to the first such name. Doing it again changes nothing more. -/
theorem ensureFresh_renews (h : w.tree.Straight site base path D xs) :
    ((∃ v, ensureFresh site path w = .ok () v) ↔ Fits path ∧ w.tree.Unblocked (below D xs)) ∧
    (∀ v, ensureFresh site path w = .ok () v →
      v.tree.locate site path = .ok (below D xs) ∧ v.tree.EmptyDir (below D xs) ∧
      (∀ k, k <:+ below D xs → w.tree.at? k = none →
        v.tree.at? k = some .dir ∧ ∀ n, (v.tree.at? (n :: k)).isSome ↔ n :: k <:+ below D xs) ∧
      (∀ k, ¬below D xs <:+ k →
        v.tree.at? k = w.tree.at? k ∨ w.tree.at? k = none ∧ k <:+ below D xs) ∧
      ∀ target, w.tree.at? (below D xs) = some (.link target) →
        ∀ k, k ≠ below D xs → v.tree.at? k = w.tree.at? k) ∧
    (∀ e v, ensureFresh site path w = .error e v →
      (∃ cause, e = .removeDir path cause ∧ v = w) ∨
        ∃ cause, e = .createDir path cause ∧ Stopped D xs w.tree v.tree) ∧
    (ensureFresh site path (ensureFresh site path w).state).state.tree =
      (ensureFresh site path w).state.tree := by
  refine ⟨ensureFresh_ok_iff h, fun v hv => ?_, fun e v => stopped_of_ensureFresh_error h,
    tree_ensureFresh_twice h⟩
  obtain ⟨⟨hfits, hopen⟩, hu⟩ := paved_of_ensureFresh_ok h hv
  have hempty := h.emptyDir_of_renewed hu
  refine ⟨(h.renewed hopen hu).locate_eq hfits hempty.1, hempty,
    fun k hk hnone => hu.at?_of_missing hk hnone, fun k hk => ?_,
    fun target hlink k hk => hu.at?_of_link hlink hk⟩
  exact (hopen.at?_of_paved List.suffix_rfl (Tree.agreeOn_erase _ _) hu hk).imp_right
    fun hmade => ⟨hmade.1, hmade.2.1⟩

theorem ensureFresh_renews_nested :
    let site : Site := { cwd := [] }
    let link := Path.ofString "dir/link"
    let inFile := Path.ofString "dir/sub/file/new"
    let w : World Unit := ⟨nestedWithLink "sub", (), []⟩
    let w' : World Unit := ⟨nested, (), []⟩
    let xs := ["dir", "link"].map Utf8.encode
    let ys := ["dir", "sub", "file", "new"].map Utf8.encode
    (w.tree.Straight site ⟨[]⟩ link [] xs ∧
      w.tree.at? (below [] xs) = some (.link (Utf8.encode "sub")) ∧
      ∃ v, ensureFresh site link w = .ok () v ∧ v.tree.EmptyDir (below [] xs) ∧
        v.tree.at? (["file", "sub", "dir"].map Utf8.encode) =
          some (.file (Utf8.encode "content") true)) ∧
    w'.tree.Straight site ⟨[]⟩ inFile [] ys ∧
      ∃ cause, ensureFresh site inFile w' = .error (.removeDir inFile cause) w' := by
  intro site link inFile w w' xs ys
  have hstart (t : Tree) (zs : List Bytes) (hzs : zs ≠ []) :
      t.PathLeads site (fun k => ¬below [] zs <:+ k) ⟨[]⟩ [] :=
    ⟨_, .done fun hin => hzs (by simpa [below] using List.suffix_nil.1 hin)⟩
  have hlink : w.tree.at? (below [] xs) = some (.link (Utf8.encode "sub")) := by decide +kernel
  have hstraight : w.tree.Straight site ⟨[]⟩ link [] xs :=
    { names := by decide +kernel
      isAbsolute := by decide +kernel
      isName := by decide +kernel
      ne_nil := by decide
      noSlash := by decide +kernel
      leads := hstart _ xs (by decide)
      dir := rfl
      noLinks := fun zs hzs hne => by
        have hdir : w.tree.at? (below [] [Utf8.encode "dir"]) = some .dir := by decide +kernel
        have hzs : zs <+: [Utf8.encode "dir"] ++ [Utf8.encode "link"] := hzs
        exact Tree.noLinks_of_dir hdir zs ((List.prefix_concat_iff.1 hzs).resolve_left hne) }
  have hblocked : w'.tree.Straight site ⟨[]⟩ inFile [] ys :=
    { names := by decide +kernel
      isAbsolute := by decide +kernel
      isName := by decide +kernel
      ne_nil := by decide
      noSlash := by decide +kernel
      leads := hstart _ ys (by decide)
      dir := rfl
      noLinks := fun zs _ _ target => by
        have hlinkless : w'.tree.Linkless := by decide +kernel
        exact hlinkless _ target }
  refine ⟨⟨hstraight, hlink, ?_⟩, hblocked, ?_⟩
  · obtain ⟨hok, hends, -, -⟩ := ensureFresh_renews hstraight
    obtain ⟨v, hv⟩ := hok.2 ⟨by decide +kernel, by decide +kernel⟩
    obtain ⟨-, hempty, -, -, hrest⟩ := hends v hv
    refine ⟨v, hv, hempty, ?_⟩
    rw [hrest _ hlink _ (by decide)]
    decide +kernel
  · obtain ⟨hok, -, hfails, -⟩ := ensureFresh_renews hblocked
    cases hrun : ensureFresh site inFile w' with
    | ok _ v => exact absurd (hok.1 ⟨v, hrun⟩).2 (by decide +kernel)
    | error e v =>
      rcases hfails e v hrun with ⟨cause, rfl, rfl⟩ | ⟨cause, -, hstopped⟩
      · exact ⟨cause, rfl⟩
      · exact absurd hstopped.long (by decide +kernel)

/-- Names may be too long, and so may paths; what is at the place may be on the way there; and a
slash at the end has a link followed. -/
theorem ensureFresh_unlike_fresh :
    let site : Site := { cwd := [] }
    let t := nestedWithLink "sub"
    let fresh (path : Path) := ensureFresh (σ := Unit) site path ⟨t, (), []⟩
    let new := Utf8.encode "new"
    let other := Utf8.encode "other"
    let long : Bytes := List.replicate 256 97
    (∀ pq ∈ [(Path.join ⟨new⟩ ⟨long⟩, [long, new]), (Path.join ⟨other⟩ ⟨[0]⟩, [[0], other]),
        (faraway.join ⟨new⟩, [new, Utf8.encode "dir", other])],
      t.Unblocked pq.2 ∧ (fresh pq.1).Ends (fun _ => False) fun _ => True) ∧
    (t.at? [new] = none ∧ (fresh (Path.join ⟨new⟩ ⟨long⟩)).Ends (fun _ => False) fun v =>
      v.tree.at? [new] = some .dir) ∧
    ((fresh (.ofString "dir/sub/../../dir")).Ends (fun v =>
      v.tree.at? (["sub", "dir"].map Utf8.encode) = some .dir) fun _ => False) ∧
    (t.at? (["file", "sub", "dir"].map Utf8.encode)).isSome ∧
      (fresh (.ofString "dir/link/")).Ends (fun _ => False) fun v =>
        v.tree.at? (["file", "sub", "dir"].map Utf8.encode) = none := by
  decide +kernel

end Act
end FirmwareTasks
