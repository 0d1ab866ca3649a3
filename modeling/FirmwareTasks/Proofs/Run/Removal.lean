import FirmwareTasks.Proofs.Files.Copying
import FirmwareTasks.Proofs.Files.Renaming
import FirmwareTasks.Proofs.Run.Agreement
import FirmwareTasks.Proofs.Run.Clean
/-!
Making sure that nothing is where a path leads. What the path names is gone afterwards with all that
is in it, and no link is followed to do so; a lookup that is refused changes nothing.
-/
namespace FirmwareTasks
open Files
open FirmwareTasks.Tree (nestedWithLink)

variable {σ : Type} {site : Site} {path : Path} {outer : List Bytes} {s : Bytes}

namespace Tree
variable {t : Tree} {q k z : Place} {target : Bytes} {e : IoError}

/-- Where the target of a link leads, from the directory that the link is in. -/
def LinkLeads (t : Tree) (k : Place) (target : Bytes) (z : Place) : Prop :=
  t.walk (startOf k.tail ⟨target⟩) (Path.steps ⟨target⟩) linkLimit = .ok (.entry z)

instance : Decidable (t.LinkLeads k target z) := inferInstanceAs (Decidable (_ = _))

lemma ofLookup_of_locate (h : path.EndsIn outer s) (he : t.locate site path = .error e) :
    e.OfLookup := by
  cases hslot : t.slot site path with
  | error e' =>
    rw [locate_of_slot_error h.noSlash hslot] at he
    exact Except.error.inj he ▸ ofLookup_of_slot hslot
  | ok S =>
    obtain ⟨d, last⟩ := S
    obtain rfl : last = .name s := by
      rw [← Last.ofStep_of_name h.isName.2]
      exact ((slot_eq_ok_iff h.names).1 hslot).2.1
    rw [locate_of_slot h.noSlash hslot] at he
    split at he
    · rename_i e' hc
      rw [← Except.error.inj he, (child?_eq_error_iff.1 hc).2]
      decide
    · cases he
    · rw [← Except.error.inj he]
      decide

lemma at?_without_of_ne_dir (hq : t.at? (s :: q) ≠ some .dir) :
    (t.without site path (s :: q)).at? (s :: q) = none := by
  rw [without, if_neg fun h => hq h.1, at?_erase_cons, if_pos List.suffix_rfl]

end Tree

namespace Act
variable {w v : World σ} {e : Error}

lemma tree_of_ensureAbsent_ok (h : path.EndsIn outer s)
    (hrun : ensureAbsent site path w = .ok () v) :
    w.tree.locate site path = .error .noEntry ∧ v.tree = w.tree ∨
      ∃ q, w.tree.locate site path = .ok q ∧ v.tree = w.tree.without site path q := by
  obtain ⟨b, hremove⟩ := ensureAbsent_ok hrun
  exact ((removeIfThere_eq_ok_iff h).1 hremove).imp (fun hnone => ⟨hnone.1, hnone.2.2⟩)
    fun ⟨q, hq, _, hv⟩ => ⟨q, hq, hv⟩

lemma ensureAbsent_of_noEntry (h : path.EndsIn outer s)
    (hnone : w.tree.locate site path = .error .noEntry) : ensureAbsent site path w = .ok () w := by
  have hfiles : files (.removeDir path) (removeIfThere site path) w = .ok false w :=
    files_of_ok ((removeIfThere_eq_ok_iff h).2 (.inl ⟨hnone, rfl, rfl⟩))
  exact EStateM.bind_of_ok hfiles _

lemma ensureAbsent_eq_error (h : path.EndsIn outer s)
    (hrun : ensureAbsent site path w = .error e v) :
    ∃ cause, w.tree.locate site path = .error cause ∧ cause ≠ .noEntry ∧
      e = .removeDir path cause ∧ v = w := by
  have hremove := removeIfThere_eq site h w.tree
  split at hremove
  · obtain ⟨es, hok, -⟩ := ensureAbsent_of_ok hremove
    rw [hok] at hrun
    cases hrun
  · rename_i cause hcause
    split at hremove
    · rename_i hnone
      rw [ensureAbsent_of_noEntry h (hnone ▸ hcause)] at hrun
      cases hrun
    · rename_i hne
      rw [ensureAbsent_of_error hremove] at hrun
      cases hrun
      exact ⟨cause, hcause, hne, rfl, rfl⟩

/-- Where a removal ends well, the path names nothing any more, and there is nothing left to do for
another one. Only what was at and in the entry that the path has named is gone; a link there is
removed itself, and what it leads to is as it was, unless that is in the entry as well. A removal
fails only if the lookup is refused, for the path itself, for what is no directory on the way or for
too many links, and then nothing is changed. -/
theorem ensureAbsent_ends (site : Site) (h : path.EndsIn outer s) (w : World σ) :
    (∀ v, ensureAbsent site path w = .ok () v →
      v.tree.locate site path = .error .noEntry ∧ ensureAbsent site path v = .ok () v ∧
      (∀ k, (∀ q, w.tree.locate site path = .ok q → ¬q <:+ k) → v.tree.at? k = w.tree.at? k) ∧
      ∀ q, w.tree.locate site path = .ok q →
        (∀ k, q <:+ k → q ≠ k → v.tree.at? k = none) ∧
        ∀ k target, q <:+ k → w.tree.at? k = some (.link target) → v.tree.at? k = none ∧
          ∀ z, w.tree.LinkLeads k target z → ∀ j, z <:+ j → ¬q <:+ j →
            v.tree.at? j = w.tree.at? j) ∧
    ∀ e v, ensureAbsent site path w = .error e v →
      ∃ cause : IoError, w.tree.locate site path = .error cause ∧
        (cause.OfPath ∨ cause = .notDirectory ∨ cause = .tooManyLinks) ∧
        e = .removeDir path cause ∧ v = w := by
  refine ⟨fun v hrun => ?_, fun e v hrun => ?_⟩
  · rcases tree_of_ensureAbsent_ok h hrun with ⟨hnone, hv⟩ | ⟨q, hq, hv⟩
    · have hgone : v.tree.locate site path = .error .noEntry := hv ▸ hnone
      refine ⟨hgone, ensureAbsent_of_noEntry h hgone, fun k _ => by rw [hv], fun q hq => ?_⟩
      rw [hnone] at hq
      cases hq
    · have hgone : v.tree.locate site path = .error .noEntry := by
        rw [hv]
        exact Tree.locate_without h hq
      obtain ⟨d, x, rfl, -, -⟩ := (Tree.locate_eq_ok_iff h).1 hq
      have hinside (k : Place) (hin : (s :: d) <:+ k) (hne : s :: d ≠ k) : v.tree.at? k = none := by
        rw [hv, Tree.at?_without_inside hin hne]
      have houtside (k : Place) (hout : ¬(s :: d) <:+ k) : v.tree.at? k = w.tree.at? k := by
        rw [hv, Tree.at?_without hout]
      refine ⟨hgone, ensureAbsent_of_noEntry h hgone, fun k hk => houtside k (hk _ hq), ?_⟩
      intro q hq'
      obtain rfl : s :: d = q := Except.ok.inj (hq.symm.trans hq')
      refine ⟨hinside, fun k target hin hlink => ⟨?_, fun z _ j _ => houtside j⟩⟩
      by_cases hne : s :: d = k
      · subst hne
        rw [hv]
        exact Tree.at?_without_of_ne_dir (by simp [hlink])
      · exact hinside k hin hne
  · obtain ⟨cause, hcause, hne, rfl, rfl⟩ := ensureAbsent_eq_error h hrun
    have hlookup := Tree.ofLookup_of_locate h hcause
    exact ⟨cause, hcause, hlookup.imp_right fun h => h.resolve_left hne, rfl, rfl⟩

theorem ensureAbsent_ends_nested :
    let site : Site := { cwd := [] }
    let dir := Path.ofString "dir"
    let file := Path.ofString "dir/sub/file/more"
    let w : World Unit := ⟨nestedWithLink "../other", (), []⟩
    dir.EndsIn [] (Utf8.encode "dir") ∧
    (w.tree.LinkLeads (["link", "dir"].map Utf8.encode) (Utf8.encode "../other")
      [Utf8.encode "other"] ∧
      ∃ v, ensureAbsent site dir w = .ok () v ∧ ensureAbsent site dir v = .ok () v ∧
        v.tree.locate site dir = .error .noEntry ∧
        v.tree.at? (["link", "dir"].map Utf8.encode) = none ∧
        v.tree.at? [Utf8.encode "other"] = some .dir) ∧
    file.EndsIn (["dir", "sub", "file"].map Utf8.encode) (Utf8.encode "more") ∧
      ensureAbsent site file w = .error (.removeDir file .notDirectory) w := by
  intro site dir file w
  have hdir : dir.EndsIn [] (Utf8.encode "dir") :=
    ⟨by decide +kernel, by decide +kernel, by decide +kernel⟩
  have hfile : file.EndsIn (["dir", "sub", "file"].map Utf8.encode) (Utf8.encode "more") :=
    ⟨by decide +kernel, by decide +kernel, by decide +kernel⟩
  have hleads : w.tree.LinkLeads (["link", "dir"].map Utf8.encode) (Utf8.encode "../other")
      [Utf8.encode "other"] := by
    decide +kernel
  have hlocate : w.tree.locate site dir = .ok [Utf8.encode "dir"] := by decide +kernel
  have hlink : w.tree.at? (["link", "dir"].map Utf8.encode) =
      some (.link (Utf8.encode "../other")) := by
    decide +kernel
  have hother : w.tree.at? [Utf8.encode "other"] = some .dir := by decide +kernel
  refine ⟨hdir, ⟨hleads, ?_⟩, hfile, ?_⟩
  · cases hrun : ensureAbsent site dir w with
    | error e v =>
      obtain ⟨cause, hcause, -⟩ := (ensureAbsent_ends site hdir w).2 e v hrun
      rw [hlocate] at hcause
      cases hcause
    | ok _ v =>
      obtain ⟨hgone, hagain, -, hall⟩ := (ensureAbsent_ends site hdir w).1 v hrun
      obtain ⟨hremoved, htarget⟩ := (hall _ hlocate).2 _ _ (by decide +kernel) hlink
      refine ⟨v, rfl, hagain, hgone, hremoved, ?_⟩
      rw [htarget _ hleads _ List.suffix_rfl (by decide +kernel), hother]
  · have hfails : (ensureAbsent site file w).Ends (fun _ => False) fun _ => True := by
      decide +kernel
    cases hrun : ensureAbsent site file w with
    | ok _ v =>
      rw [hrun] at hfails
      exact hfails.elim
    | error e v =>
      obtain ⟨cause, hcause, -, rfl, rfl⟩ := (ensureAbsent_ends site hfile w).2 e v hrun
      have hsame : w.tree.locate site file = .error .notDirectory := by decide +kernel
      rw [hsame] at hcause
      cases hcause
      rfl

end Act
end FirmwareTasks
