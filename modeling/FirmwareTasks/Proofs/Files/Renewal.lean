import FirmwareTasks.Proofs.Files.Agreement
import FirmwareTasks.Proofs.Files.Footing
/-!
Making a directory anew: what a path names is removed, and then a directory is made there with those
missing on the way. The removal does not get in the way of what follows, so that all depends on what
is around the place, and not on what was there.
-/
namespace FirmwareTasks
open EStateM
open FirmwareTasks.Path (dot dotDot)

namespace Tree
variable {t u v : Tree} {K : Place → Prop} {site : Site} {base path : Path} {D p q : Place}
  {xs ys ws : List Bytes} {s w x : Bytes} {S : Slot} {e : Entry}

lemma agreeOn_erase (t : Tree) (q : Place) : AgreeOn (fun k => ¬q <:+ k) t (t.erase q) := by
  intro k hk
  cases k with
  | nil => rfl
  | cons n k => rw [at?_erase (by simp), if_neg hk]

lemma agreeOn_clear (t : Tree) (q : Place) : AgreeOn (fun k => ¬q <:+ k) t (t.clear q) :=
  fun k hk => by rw [at?_clear', if_neg fun hin => hk hin.1]

lemma erase_eq_self (h : t.at? (s :: q) = none) : t.erase (s :: q) = t := by
  refine ext_at? fun k => ?_
  rw [at?_erase_cons]
  split
  · rw [at?_eq_none_of_suffix (by assumption) h]
  · rfl

lemma Paved.eq_of_dir (h : Paved q t u) (hdir : t.at? q = some .dir) : u = t := by
  refine ext_at? fun k => ?_
  rw [h k]
  split
  · rw [at?_eq_dir_of_suffix (by assumption) hdir]
  · rfl

lemma Paved.at?_of_no_inside {k : Place} (h : Paved q (t.erase q) u)
    (hin : ∀ n, t.at? (n :: q) = none) (hk : ¬k <:+ q) : u.at? k = t.at? k := by
  rw [h k, if_neg hk]
  by_cases hqk : q <:+ k
  · obtain ⟨r, rfl⟩ := hqk
    rcases r.eq_nil_or_concat with rfl | ⟨r, n, rfl⟩
    · exact absurd List.suffix_rfl hk
    · have hnone : t.at? (r ++ ([n] ++ q)) = none :=
        at?_eq_none_of_suffix (List.suffix_append r _) (hin n)
      rw [List.concat_eq_append, List.append_assoc, at?_erase (by simp), hnone, ite_self]
  · exact (agreeOn_erase t q k hqk).symm

lemma Paved.eq_of_emptyDir (h : Paved q (t.erase q) u) (hq : t.EmptyDir q) : u = t := by
  refine ext_at? fun k => ?_
  by_cases hk : k <:+ q
  · rw [h k, if_pos hk, at?_eq_dir_of_suffix hk hq.1]
  · exact h.at?_of_no_inside hq.2 hk

lemma Paved.at?_of_link {target : Bytes} {k : Place} (h : Paved q (t.erase q) u)
    (hq : t.at? q = some (.link target)) (hk : k ≠ q) : u.at? k = t.at? k := by
  by_cases hkq : k <:+ q
  · obtain ⟨r, rfl⟩ := hkq
    have hdir := at?_eq_dir_of_append (fun hr => hk (by rw [hr, List.nil_append])) hq
    rw [h k, if_pos (List.suffix_append r k), hdir]
  · refine h.at?_of_no_inside (fun n => ?_) hkq
    exact at?_append_eq_none (r := [n]) (by simp) (by simp [hq])

lemma Paved.at?_of_missing {k : Place} (h : Paved q (t.erase q) u) (hk : k <:+ q)
    (hnone : t.at? k = none) :
    u.at? k = some .dir ∧ ∀ n, (u.at? (n :: k)).isSome ↔ n :: k <:+ q := by
  refine ⟨by rw [h k, if_pos hk], fun n => ?_⟩
  have hfree : t.at? (n :: k) = none := at?_eq_none_of_suffix (List.suffix_cons n k) hnone
  rw [h (n :: k), at?_erase (by simp), hfree, ite_self]
  split <;> simp [*]

/-- Nothing but directories is around a place. -/
def Unblocked (t : Tree) (q : Place) : Prop :=
  ∀ k, k <:+ q → k ≠ q → t.at? k = none ∨ t.at? k = some .dir

instance (t : Tree) (q : Place) : Decidable (t.Unblocked q) :=
  decidable_of_iff (∀ k ∈ q.tails, k ≠ q → t.at? k = none ∨ t.at? k = some .dir) <| by
    simp only [List.mem_tails, Unblocked]

lemma Unblocked.at?_of_paved (h : t.Unblocked q) (hp : p <:+ q)
    (hv : AgreeOn (fun k => ¬q <:+ k) t v) (hu : Paved p v u) {k : Place} (hk : ¬q <:+ k) :
    u.at? k = t.at? k ∨ t.at? k = none ∧ k <:+ q ∧ u.at? k = some .dir := by
  rw [hu k]
  split
  · rename_i hkp
    have hin := hkp.trans hp
    rcases h k hin fun heq => hk (heq ▸ List.suffix_rfl) with hnone | hdir
    · exact .inr ⟨hnone, hin, rfl⟩
    · exact .inl hdir.symm
  · exact .inl (hv k hk).symm

/-- A path goes down by names from a directory to a place. Neither a link is before that place, nor
is the place on the way to the directory. -/
structure Straight (t : Tree) (site : Site) (base path : Path) (D : Place) (xs : List Bytes) :
    Prop extends Descends base path xs where
  leads : t.PathLeads site (fun k => ¬below D xs <:+ k) base D
  dir : t.at? D = some .dir
  noLinks : ∀ ys, ys <+: xs → ys ≠ xs → ∀ target, t.at? (below D ys) ≠ some (.link target)

namespace Straight

lemma keep (h : t.Straight site base path D xs) (hu : ∀ k, ¬below D xs <:+ k →
    u.at? k = t.at? k ∨ t.at? k = none ∧ u.at? k = some .dir) :
    u.Straight site base path D xs where
  toDescends := h.toDescends
  leads := by
    refine (h.leads.present h.dir).imp fun m hm => ?_
    refine (hm.congr fun k hk => ?_).mono fun k hk => hk.1
    rcases hu k hk.1 with hsame | ⟨hnone, -⟩
    · exact hsame.symm
    · rw [hnone] at hk
      cases hk.2
  dir := by
    obtain ⟨m, hm⟩ := h.leads
    rcases hu D hm.stop with hsame | ⟨-, hdir⟩
    · exact hsame.trans h.dir
    · exact hdir
  noLinks ys hys hne target := by
    rcases hu _ (not_below_suffix hys hne) with hsame | ⟨-, hdir⟩
    · exact hsame ▸ h.noLinks ys hys hne target
    · simp [hdir]

lemma approaches (h : t.Straight site base path D xs) : t.Approaches site path D xs where
  way := by
    obtain ⟨m, hm⟩ := h.leads
    refine ⟨base.names, m, h.names, ?_⟩
    rw [h.startOf_eq]
    exact hm.mono fun _ _ => trivial
  dir := h.dir
  isName := h.isName

lemma renewed (h : t.Straight site base path D xs) (hopen : t.Unblocked (below D xs))
    (hu : Paved (below D xs) (t.erase (below D xs)) u) : u.Straight site base path D xs :=
  h.keep fun _ hk => (hopen.at?_of_paved List.suffix_rfl (agreeOn_erase t _) hu hk).imp_right
    fun hmade => ⟨hmade.1, hmade.2.2⟩

lemma stopped (h : t.Straight site base path D xs) (hopen : t.Unblocked (below D xs))
    (hu : Stopped D xs t u) : u.Straight site base path D xs := by
  have hway : below D (shortNames xs) <:+ below D xs :=
    below_suffix_iff.2 (shortNames_isPrefix xs)
  exact h.keep fun _ hk => (hopen.at?_of_paved hway (fun _ _ => rfl) hu.paved hk).imp_right
    fun hmade => ⟨hmade.1, hmade.2.2⟩

lemma emptyDir_of_renewed (h : t.Straight site base path D xs)
    (hu : Paved (below D xs) (t.erase (below D xs)) u) : u.EmptyDir (below D xs) := by
  obtain ⟨ys, s, rfl⟩ := h.exists_concat
  rw [below_concat] at hu ⊢
  exact hu.emptyDir (by simp)

lemma locate_eq (h : t.Straight site base path D xs) (hfits : Fits path)
    (hdir : t.at? (below D xs) = some .dir) : t.locate site path = .ok (below D xs) := by
  obtain ⟨ys, s, rfl⟩ := h.exists_concat
  rw [below_concat] at hdir ⊢
  have hlen := h.approaches.length_le hfits
  have hnear := h.approaches.advance ys (fun y hy => hlen y (List.mem_append_left _ hy))
    (at?_eq_dir_of_cons hdir)
  have hchild := child?_eq_ok_iff.2 ⟨hlen s (by simp), hdir⟩
  rw [locate_of_slot h.noSlash (hnear.slot hfits.check), hchild]

variable (h : t.Straight site base path D (ys ++ [s]))
include h

lemma erase : (t.erase (s :: below D ys)).Straight site base path D (ys ++ [s]) :=
  h.keep fun k hk => .inl ((agreeOn_erase t _ k (by rwa [below_concat] at hk)).symm)

lemma noLinks_outside : t.NoLinks D ys := fun zs hzs =>
  h.noLinks zs (hzs.trans (List.prefix_append _ _)) (ne_concat_of_isPrefix hzs s)

lemma aims : t.Aims site (fun k => ¬(s :: below D ys) <:+ k) path (below D ys) s := by
  rw [← below_concat]
  refine h.toContinues.aims (h.leads.imp fun _ hm => hm.heads) h.noLinks_outside fun zs hzs => ?_
  exact not_below_suffix (hzs.trans (List.prefix_append _ _)) (ne_concat_of_isPrefix hzs s)

lemma slot_erase : (t.erase (s :: below D ys)).slot site path = t.slot site path :=
  (h.aims.slot_congr (agreeOn_erase t _)).symm

lemma without_eq (hslot : t.slot site path = .ok S) :
    t.without site path (s :: below D ys) = t.erase (s :: below D ys) := by
  rw [without, if_neg]
  rintro ⟨-, hlost⟩
  rw [← h.aims.slot_congr (agreeOn_clear t _), hslot] at hlost
  cases hlost

lemma erase_of_slot_noEntry (hslot : t.slot site path = .error .noEntry) :
    t.erase (s :: below D ys) = t := by
  have hmiss := h.toContinues.at?_of_slot_error h.leads h.noLinks_outside hslot
  exact erase_eq_self (hmiss.resolve_left (by decide))

/-- A removal that is refused leaves the tree as it was, and one that is not leaves nothing. Where
the way down comes to a free name, it depends on that name alone. -/
theorem removeIfThere_settles_of_free
    (hnear : (t.erase (s :: below D ys)).Approaches site path p (w :: ws))
    (hfree : (t.erase (s :: below D ys)).at? (w :: p) = none) :
    (Files.removeIfThere site path t).Settles (check path = .ok () ∧ w.length ≤ nameLimit)
      fun u => u = t.erase (s :: below D ys) := by
  have hends := h.endsIn
  cases hc : check path with
  | error cause =>
    rw [Files.removeIfThere_of_check_error hends hc]
    exact fun hcond => nomatch hcond.1
  | ok _ =>
    have hsame := h.slot_erase
    rcases ws.eq_nil_or_concat with rfl | ⟨vs, x, rfl⟩
    · have hslot := hsame.symm.trans (hnear.slot hc)
      have hlast := h.aims.eq_of_slot hslot
      rw [Last.ofStep_of_name hends.isName.2] at hlast
      obtain ⟨rfl, rfl⟩ : p = below D ys ∧ w = s := by simpa using hlast
      by_cases hlen : w.length ≤ nameLimit
      · obtain ⟨c, hdone⟩ := Files.removeIfThere_of_slot hends hslot hlen
        rw [hdone, h.without_eq hslot]
        exact ⟨⟨rfl, hlen⟩, rfl⟩
      · rw [Files.removeIfThere_of_long hends hslot (Nat.not_le.1 hlen)]
        exact fun hcond => hlen hcond.2
    · rw [List.concat_eq_append, ← List.cons_append] at hnear
      have hslot := hsame.symm.trans (hnear.slot_missing hc hfree)
      by_cases hlen : nameLimit < w.length
      · rw [if_pos hlen] at hslot
        rw [Files.removeIfThere_of_slot_error hends hslot, if_neg (by decide)]
        exact fun hcond => Nat.not_lt.2 hcond.2 hlen
      · rw [if_neg hlen] at hslot
        rw [Files.removeIfThere_of_slot_error hends hslot, if_pos rfl]
        exact ⟨⟨rfl, Nat.not_lt.1 hlen⟩, (h.erase_of_slot_noEntry hslot).symm⟩

/-- Where something else than a directory is before the place, the removal is refused. -/
theorem removeIfThere_of_blocked
    (hnear : (t.erase (s :: below D ys)).Approaches site path p (w :: ws ++ [x]))
    (hat : (t.erase (s :: below D ys)).at? (w :: p) = some e) (hlink : ∀ target, e ≠ .link target)
    (hstop : e = .dir → nameLimit < w.length) :
    ∃ cause, Files.removeIfThere site path t = .error cause t := by
  have hends := h.endsIn
  cases hc : check path with
  | error cause => exact ⟨cause, Files.removeIfThere_of_check_error hends hc⟩
  | ok _ =>
    have hslot := h.slot_erase.symm.trans (hnear.slot_blocked hc hat hlink hstop)
    rw [Files.removeIfThere_of_slot_error hends hslot, if_neg (by split <;> decide)]
    exact ⟨_, rfl⟩

lemma furthest_erase :
    ∃ zs w ws, ys ++ [s] = zs ++ w :: ws ∧
      (t.erase (s :: below D ys)).Approaches site path (below D zs) (w :: ws) ∧
      ((t.erase (s :: below D ys)).at? (w :: below D zs) = none ∨ ∃ vs x e, ws = vs ++ [x] ∧
        (t.erase (s :: below D ys)).at? (w :: below D zs) = some e ∧
        (∀ target, e ≠ .link target) ∧ (e = .dir → nameLimit < w.length)) := by
  rcases h.erase.approaches.furthest with hdir | ⟨zs, w, ws, hxs, hnear, hstop⟩
  · simp at hdir
  · refine ⟨zs, w, ws, hxs, hnear, ?_⟩
    cases hat : (t.erase (s :: below D ys)).at? (w :: below D zs) with
    | none => exact .inl rfl
    | some e =>
      rcases ws.eq_nil_or_concat with rfl | ⟨vs, x, hws⟩
      · -- the last name is free
        obtain ⟨rfl, hw⟩ := List.append_inj' hxs rfl
        obtain rfl := List.singleton_inj.1 hw
        simp at hat
      · rw [List.concat_eq_append] at hws
        refine .inr ⟨vs, x, e, hws, rfl, ?_, fun he => hstop (by rw [hat, he])⟩
        rintro target rfl
        have hpre : zs ++ [w] <+: ys ++ [s] := ⟨ws, by simp [hxs]⟩
        refine h.erase.noLinks _ hpre (fun hne => ?_) target (by rwa [below_concat])
        rw [hxs, hws] at hne
        simp at hne

/-- Making a directory anew goes in one of three ways. The removal is refused, where the path cannot
be given to the system or something else than a directory is on the way; or the directory is made
with those on the way; or, where a name is too long, those before the first such name. -/
theorem renewal :
    (∃ cause, Files.removeIfThere site path t = .error cause t ∧
      ¬(Fits path ∧ t.Unblocked (s :: below D ys))) ∨
    ∃ c, Files.removeIfThere site path t = .ok c (t.erase (s :: below D ys)) ∧
      t.Unblocked (s :: below D ys) ∧
      (Files.makeDirs site path (t.erase (s :: below D ys))).Ends
        (fun u => Fits path ∧ Paved (s :: below D ys) (t.erase (s :: below D ys)) u)
        fun u => ¬Fits path ∧ Stopped D (ys ++ [s]) t u := by
  obtain ⟨zs, w, ws, hxs, hnear, hnext⟩ := h.furthest_erase
  have hbelow : s :: below D ys = below (w :: below D zs) ws := by
    rw [← below_concat, hxs, below_append, below_cons]
  have hnames : path.names = (base.names ++ zs) ++ w :: ws := by
    rw [h.names, hxs, List.append_assoc]
  have hw : w ∈ path.names := by simp [hnames]
  have hin : w :: below D zs <:+ s :: below D ys := hbelow ▸ List.suffix_append _ _
  rcases hnext with hfree | ⟨vs, x, e, rfl, hat, hlink, hstop⟩
  · have hremove := h.removeIfThere_settles_of_free hnear hfree
    have hopen : t.Unblocked (s :: below D ys) := by
      intro k hk hne
      have hway := passable_below ws hnear.dir hfree k (by rwa [below_cons, ← hbelow])
      rwa [at?_erase_cons, if_neg fun hin => hne (hk.eq_of_length_le hin.length_le)] at hway
    cases hrun : Files.removeIfThere site path t with
    | error cause u =>
      rw [hrun] at hremove
      obtain rfl := Files.eq_of_removeIfThere_error h.endsIn hrun
      exact .inl ⟨cause, rfl, fun hcond => hremove ⟨hcond.1.check, hcond.1.length_le w hw⟩⟩
    | ok c u =>
      rw [hrun] at hremove
      obtain ⟨⟨hc, hlen⟩, rfl⟩ := hremove
      refine .inr ⟨c, rfl, hopen, ?_⟩
      have hmake := Files.makeDirs_stops hnear hfree hc
      rw [below_cons, ← hbelow] at hmake
      refine hmake.imp (fun u hu => hu) fun u hu => ?_
      have hall : Stopped D (ys ++ [s]) (t.erase (s :: below D ys)) u := by
        rw [hxs]
        exact hu.prepend fun z hz => hnear.outer_length_le hnames z (List.mem_append_right _ hz)
      refine ⟨hall.not_fits fun y hy => by simp [h.names, hy], ?_⟩
      have hgone : t.at? (s :: below D ys) = none := by
        -- the name that is too long is further in than the free one
        have hne : ws ≠ [] := by
          rintro rfl
          obtain ⟨y, hy, hlong⟩ := hu.long
          obtain rfl := List.mem_singleton.1 hy
          omega
        have hout : ¬s :: below D ys <:+ w :: below D zs := by
          rw [hbelow]
          exact not_below_suffix List.nil_prefix hne.symm
        rw [at?_erase_cons, if_neg hout] at hfree
        exact at?_eq_none_of_suffix hin hfree
      rwa [erase_eq_self hgone] at hall
  · obtain ⟨cause, hcause⟩ := h.removeIfThere_of_blocked hnear hat hlink hstop
    refine .inl ⟨cause, hcause, fun ⟨hfits, hopen⟩ => ?_⟩
    have hne : w :: below D zs ≠ s :: below D ys := fun heq => by simp [heq] at hat
    have hout : ¬s :: below D ys <:+ w :: below D zs := fun hback =>
      hne (hin.eq_of_length_le hback.length_le)
    rw [at?_erase_cons, if_neg hout] at hat
    rcases hopen _ hin hne with hnone | hdir
    · rw [hnone] at hat
      cases hat
    · have he := hstop (Option.some.inj (hat.symm.trans hdir))
      exact Nat.not_le.2 he (hfits.length_le w hw)

end Straight
end Tree
end FirmwareTasks
