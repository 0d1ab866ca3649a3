import FirmwareTasks.Proofs.Files.Confined
/-!
File calls whose paths belong to an area change only that area: making, removing, moving and
copying, one entry or a whole tree.
-/
namespace FirmwareTasks.Files
open EStateM
open FirmwareTasks.Path (IsName slash)
open FirmwareTasks.Tree (Area Confined)
open FileCall (Within)

variable {A : Area} {site : Site} {path src dst : Path} {α : Type}

namespace Confined

lemma unlink (h : A.Holds site path) : Within (Tree.Confined A) (unlink site path) := by
  refine .alter fun t u hu ht => ?_
  obtain ⟨d, s, hslot, rfl⟩ := Tree.unlink_eq_ok hu
  refine Tree.confined_erase ?_ ht
  rw [ht.linkless.eq_of_slot hslot]
  exact h.own

lemma removeDir (h : A.Holds site path) : Within (Tree.Confined A) (removeDir site path) := by
  refine .alter fun t u hu ht => ?_
  obtain ⟨d, s, hslot, rfl⟩ := Tree.removeDir_eq_ok hu
  refine Tree.confined_erase ?_ ht
  rw [ht.linkless.eq_of_slot hslot]
  exact h.own

lemma rename (hsrc : A.Holds site src) (hdst : A.Holds site dst) :
    Within (Tree.Confined A) (rename site src dst) := by
  refine .alter fun t u hu ht => ?_
  obtain ⟨d, m, p, n, hs, hd, -, ⟨-, rfl⟩ | ⟨-, -, rfl⟩⟩ := Tree.rename_eq_ok hu
  · exact refl_of (Tree.Confined A) _ ht
  · have hm := ht.linkless.eq_of_slot hs
    have hn := ht.linkless.eq_of_slot hd
    obtain ⟨s, q, hplace, hname⟩ := hdst.place
    rw [hplace] at hn
    obtain ⟨rfl, -⟩ := List.cons.inj hn
    refine Tree.confined_move (hm ▸ hsrc.own) ?_ hname ht
    rw [hn, ← hplace]
    exact hdst.own

lemma makeDirs (h : A.Holds site path) : Within (Tree.Confined A) (makeDirs site path) := by
  refine within_makeDirsIn fun a ha hne => .alter fun t u hu => Tree.confined_makeDir ?_ hu
  obtain ⟨outer, s, hends⟩ := h.endsIn
  rcases List.mem_cons.1 ha with rfl | ha
  · exact .inl h.own
  · obtain ⟨hfront, habs⟩ := Path.prefix_of_chain hends.chain_ancestors a ha
    rw [Site.spell, Tree.startOf, habs hne]
    exact h.way a.names hfront

lemma locating {f : Place → FileCall α} (h : A.Holds site path)
    (hf : Within (Tree.Confined A) (f (site.spell path))) :
    Within (Tree.Confined A) (FileCall.ask (Tree.locate · site path) >>= f) := by
  refine .asking fun t p hp ht => ?_
  obtain ⟨outer, s, hends⟩ := h.endsIn
  rw [ht.linkless.eq_of_locate hends hp]
  exact hf t ht

lemma removeTree (h : A.Holds site path) : Within (Tree.Confined A) (removeTree site path) := by
  refine locating h (.look fun t => ?_)
  split
  · exact unlink h
  · exact .throw _
  · refine .bind (.modify fun u => Tree.confined_clear h.own) fun _ => ?_
    refine .tryCatch (removeDir h) fun e => ?_
    split
    · exact .pure ()
    · exact .throw e

lemma removeIfThere (h : A.Holds site path) :
    Within (Tree.Confined A) (removeIfThere site path) := by
  refine .tryCatch (.bind ?_ fun _ => .pure true) fun e => ?_
  · refine locating h (.look fun t => ?_)
    split
    · exact removeTree h
    · exact unlink h
  · split
    · exact .pure false
    · exact .throw e

lemma truncate {f : Place → FileCall α} {executable : Bool} (h : A.Holds site path)
    (hf : Within (Tree.Confined A) (f (site.spell path))) :
    Within (Tree.Confined A) (truncate site path executable >>= f) := by
  rw [Files.truncate, bind_assoc]
  refine .asking fun t p hp ht => ?_
  obtain rfl := ht.linkless.eq_of_writable hp
  obtain ⟨s, d, hplace, hname⟩ := h.place
  have hrest : Within (Tree.Confined A) (do
      modify fun t => t.insert (site.spell path) (.file [] (t.bitAt (site.spell path) executable))
      f (site.spell path)) := by
    refine .bind (.modify fun u => ?_) fun _ => hf
    rw [hplace]
    exact Tree.confined_insert (hplace ▸ h.own) hname (by simp)
  simpa using hrest t ht

lemma copyFile (h : A.Holds site dst) : Within (Tree.Confined A) (copyFile site src dst) := by
  obtain ⟨s, d, hplace, hname⟩ := h.place
  refine .asking fun t p _ => ?_
  refine Within.look (fun u => ?_) t
  split
  · refine truncate h (.modify fun u => ?_)
    split
    · rw [hplace]
      exact Tree.confined_insert (hplace ▸ h.own) hname (by simp)
    · exact refl_of (Tree.Confined A) u
  · exact .throw _

lemma isName_of_mem_list {t : Tree} {entries : List (Bytes × Entry)} (ht : t.Plain)
    (h : Tree.list site path t = .ok entries) {n : Bytes} {e : Entry} (hmem : (n, e) ∈ entries) :
    IsName n ∧ slash ∉ n := by
  obtain ⟨p, -, h⟩ := Except.bind_eq_ok h
  split at h
  · cases h
    obtain ⟨m, -, hm⟩ := List.mem_filterMap.1 hmem
    obtain ⟨x, hx, heq⟩ := Option.map_eq_some_iff.1 hm
    obtain ⟨rfl, rfl⟩ := Prod.mk.inj heq
    exact ht.isName m p (by simp [hx])
  · cases h

lemma copyDir (depth : ℕ) (h : A.Holds site dst) :
    Within (Tree.Confined A) (copyDir site depth src dst) := by
  induction depth generalizing src dst with
  | zero => exact .throw _
  | succ depth ih =>
    rw [Files.copyDir]
    refine .bind (makeDirs h) fun _ => .asking fun t entries hlist ht => ?_
    refine (?_ : Within (Tree.Confined A) _) t ht
    refine .bind (.forIn fun ⟨n, e⟩ hmem => ?_) fun _ => .pure ()
    -- what a plain tree lists are names, so the copies stay within the area
    have hjoin := h.join (isName_of_mem_list ht hlist hmem)
    dsimp only
    split
    · exact .bind (ih hjoin) fun _ => .pure _
    · exact .bind (copyFile hjoin) fun _ => .pure _

lemma checkTarget (site : Site) (path : Path) :
    Within (Tree.Confined A) (checkTarget site path) := by
  unfold Files.checkTarget
  split
  · refine .look fun t => ?_
    split
    · exact .pure ()
    · exact .throw _
  · exact .pure ()

lemma moveByCopy (isDir : Bool) (hsrc : A.Holds site src) (hdst : A.Holds site dst) :
    Within (Tree.Confined A) (moveByCopy site isDir src dst) := by
  unfold Files.moveByCopy
  split
  · exact .bind (copyDir _ hdst) fun _ => removeTree hsrc
  · exact .bind (copyFile hdst) fun _ => unlink hsrc

end Confined
end FirmwareTasks.Files
