import FirmwareTasks.Proofs.Files.Lexical
/-!
Directories that come out empty. What a path names is removed and a directory is made there; it is
empty unless a step outwards leads somewhere only since then. It stays empty while another directory
is removed that is not on the way there.
-/
namespace FirmwareTasks
open FirmwareTasks.Path (dot dotDot)
open FirmwareTasks.Tree (below below_suffix_iff not_below_suffix)

namespace Tree
variable {t u : Tree} {K : Place → Prop} {site : Site} {base path dir : Path} {B d p : Place}
  {s : Bytes} {outer ys : List Bytes} {dirs dirs' : List Path}

lemma Aims.pathLeads (h : t.Aims site K path d s) (hslot : t.slot site path = .ok ⟨d, .name s⟩)
    (hx : t.child? d s = .ok (some .dir)) (hk : K (s :: d)) : t.PathLeads site K path (s :: d) := by
  obtain ⟨outer, m, hnames, hm⟩ := h
  obtain ⟨-, hlast, hwalk, hd⟩ := (slot_eq_ok_iff hnames).1 hslot
  have hway := hm.leads (by rw [List.append_nil]; exact hwalk)
  refine ⟨m, ?_⟩
  rw [hnames]
  exact hway.concat hd (Last.ofStep_eq_name_iff.1 hlast.symm).2 hx (by simp) hk

/-- The steps of a path head for `B` off the directories within it, and no link is on the ways from
there to these directories. -/
structure OffDirs (t : Tree) (site : Site) (base : Path) (dirs : List Path) (B : Place) : Prop where
  heads : t.PathHeads site (fun k => ∀ dir ∈ dirs, ¬below B dir.names <:+ k) base B
  noLinks : ∀ dir ∈ dirs, ∀ ys, ys <+: dir.names → ys ≠ dir.names →
    ∀ target, t.at? (below B ys) ≠ some (.link target)

namespace OffDirs

lemma mono (h : t.OffDirs site base dirs B) (hsub : dirs' ⊆ dirs) :
    t.OffDirs site base dirs' B where
  heads := h.heads.imp fun _ hm =>
    hm.change (fun _ hk dir hdir => hk dir (hsub hdir)) fun _ _ => .inl rfl
  noLinks dir hdir := h.noLinks dir (hsub hdir)

lemma keep (h : t.OffDirs site base dirs B)
    (hu : ∀ k, (∀ dir ∈ dirs, ¬below B dir.names <:+ k) →
      u.at? k = t.at? k ∨ t.at? k = none ∧ u.at? k = some .dir)
    (hin : ∀ dir ∈ dirs, ∀ ys, ys <+: dir.names → ys ≠ dir.names → ∀ dir' ∈ dirs,
      below B dir'.names <:+ below B ys → ∀ target, u.at? (below B ys) ≠ some (.link target)) :
    u.OffDirs site base dirs B where
  heads := h.heads.imp fun _ hm => hm.change (fun _ hk => hk) fun k hk =>
    (hu k hk).imp_right fun hnew => ⟨by simp [hnew.1], by simp [hnew.2]⟩
  noLinks dir hdir ys hys hne target := by
    by_cases hoff : ∀ dir' ∈ dirs, ¬below B dir'.names <:+ below B ys
    · rcases hu _ hoff with hsame | ⟨-, hnew⟩
      · exact hsame ▸ h.noLinks dir hdir ys hys hne target
      · simp [hnew]
    · push Not at hoff
      obtain ⟨dir', hdir', hsuffix⟩ := hoff
      exact hin dir hdir ys hys hne dir' hdir' hsuffix target

lemma aims_of (h : t.OffDirs site base dirs B) (hmem : dir ∈ dirs) (hdir : dir.Ordinary)
    (hnames : dir.names = outer ++ [s]) (hK : ∀ k, (∀ dir ∈ dirs, ¬below B dir.names <:+ k) → K k)
    (hway : ∀ ys, ys <+: outer → K (below B ys)) :
    t.Aims site K (base.join dir) (below B outer) s := by
  have hcont := Continues.of_join hdir base
  rw [hnames] at hcont
  refine hcont.aims (h.heads.imp fun _ hm => hm.change hK fun _ _ => .inl rfl)
    (fun ys hys => ?_) hway
  refine h.noLinks dir hmem ys ?_ ?_
  · rw [hnames]
    exact hys.trans (List.prefix_append _ _)
  · rw [hnames]
    exact ne_concat_of_isPrefix hys s

lemma aims (h : t.OffDirs site base dirs B) (hmem : dir ∈ dirs) (hdir : dir.Ordinary)
    (hnames : dir.names = outer ++ [s]) :
    t.Aims site (fun _ => True) (base.join dir) (below B outer) s :=
  h.aims_of hmem hdir hnames (fun _ _ => trivial) fun _ _ => trivial

lemma eq_of_locate (h : t.OffDirs site base dirs B) (hmem : dir ∈ dirs) (hdir : dir.Ordinary)
    (hp : t.locate site (base.join dir) = .ok p) : p = below B dir.names := by
  obtain ⟨outer, s, hnames, hends⟩ := hdir.endsIn
  obtain ⟨d, x, rfl, hslot, -⟩ := (locate_eq_ok_iff (hends base)).1 hp
  have heq := (h.aims hmem hdir hnames).eq_of_slot hslot
  rw [Last.ofStep_of_name (hends base).isName.2] at heq
  rw [hnames, below_concat, (Slot.mk.inj heq).1]

end OffDirs

/-- The base of directories has no steps outwards, or it leads to a directory and not through
these. -/
def Reached (t : Tree) (site : Site) (base : Path) (dirs : List Path) : Prop :=
  dotDot ∈ base.names → t.LeadsToDir site base ∧
    ∀ dir ∈ dirs, ¬Through site base (below (site.spell base) dir.names)

lemma Reached.offDirs (h : t.Reached site base dirs) (ht : t.Linkless)
    (hdirs : ∀ dir ∈ dirs, dir.Ordinary) : t.OffDirs site base dirs (site.spell base) where
  heads := by
    refine ht.pathHeads fun ys hys dir hdir hin => ?_
    have hthrough : Through site base (below (site.spell base) dir.names) := ⟨ys, hys, hin⟩
    by_cases hdots : dotDot ∈ base.names
    · exact (h hdots).2 dir hdir hthrough
    · exact not_through_below site hdots (hdirs dir hdir).names_ne_nil hthrough
  noLinks _ _ _ _ _ := ht _

end Tree

namespace Files
variable {site : Site} {base path dir out xml : Path} {t u v w : Tree} {B p : Place} {b c : Bool}
  {dirs : List Path}

/-- Once what the path names has been removed, all steps outwards on it lead to directories. -/
def StepsBacked (site : Site) (path : Path) (t : Tree) : Prop :=
  Backed (removeIfThere site path t).state site path.ancestors

/-- A directory within one that has no steps outwards, or that is still there, is backed. -/
theorem stepsBacked_join (hdir : dir.Ordinary) (t : Tree)
    (h : dotDot ∈ base.names → (removeIfThere site (base.join dir) t).state.LeadsToDir site base) :
    StepsBacked site (base.join dir) t := backed_ancestors hdir h

lemma at?_state_removeIfThere (hdir : dir.Ordinary) (hmem : dir ∈ dirs)
    (hoff : t.OffDirs site base dirs B) {k : Place} (hk : ¬below B dir.names <:+ k) :
    (removeIfThere site (base.join dir) t).state.at? k = t.at? k := by
  obtain ⟨outer, s, -, hends⟩ := hdir.endsIn
  rw [removeIfThere_eq site (hends base)]
  split
  · rename_i q hq
    obtain rfl := hoff.eq_of_locate hmem hdir hq
    obtain ⟨d, x, heq, -, -⟩ := (Tree.locate_eq_ok_iff (hends base)).1 hq
    rw [heq] at hk ⊢
    exact Tree.at?_without hk
  · split <;> rfl

/-- A directory within one that is there is backed, if the way there is off what is removed. -/
theorem stepsBacked_of_offDirs (hdir : dir.Ordinary) (hoff : t.OffDirs site base [dir] B)
    (h : dotDot ∈ base.names → t.LeadsToDir site base) : StepsBacked site (base.join dir) t := by
  refine stepsBacked_join hdir t fun hdots => ?_
  refine (hoff.heads.leadsToDir_congr fun k hk => ?_).1 (h hdots)
  exact (at?_state_removeIfThere hdir (.head _) hoff (hk dir (.head _))).symm

lemma stepsBacked_of_reached (h : t.Reached site base dirs) (ht : t.Linkless)
    (hdirs : ∀ dir ∈ dirs, dir.Ordinary) (hmem : dir ∈ dirs) :
    StepsBacked site (base.join dir) t :=
  stepsBacked_of_offDirs (hdirs dir hmem)
    ((h.offDirs ht hdirs).mono (by simpa using hmem)) fun hdots => (h hdots).1

lemma exists_makeDir_of_backed (hdir : dir.Ordinary) (hback : StepsBacked site (base.join dir) t)
    (hremove : removeIfThere site (base.join dir) t = .ok b u)
    (hmake : makeDirs site (base.join dir) u = .ok () v) :
    ∃ w, Tree.makeDir site (base.join dir) w = .ok v := by
  obtain ⟨outer, s, -, hends⟩ := hdir.endsIn
  rw [StepsBacked, hremove] at hback
  exact exists_makeDir (hends base) (locate_of_removeIfThere (hends base) hremove) hback hmake

section twice
variable (hout : out.Ordinary) (hxml : xml.Ordinary) (hnames : ¬xml.names <+: out.names)
  (hoff : t.OffDirs site base [out, xml] B) (hback : StepsBacked site (base.join out) t)
  (hremove : removeIfThere site (base.join out) t = .ok b u)
  (hmake : makeDirs site (base.join out) u = .ok () v)
include hout hoff hremove hmake

lemma at?_remade {k : Place} (hk : ¬below B out.names <:+ k) :
    v.at? k = t.at? k ∨ t.at? k = none ∧ v.at? k = some .dir := by
  have hsame := at?_state_removeIfThere hout (.head _) hoff hk
  rw [hremove] at hsame
  rw [← hsame]
  exact grown_makeDirsIn hmake k

include hback

lemma slot_remade {outer : List Bytes} {s : Bytes} (hs : out.names = outer ++ [s]) :
    v.slot site (base.join out) = .ok ⟨below B outer, .name s⟩ ∧
      v.child? (below B outer) s = .ok (some .dir) ∧ v.EmptyDir (below B out.names) := by
  have hoff' : v.OffDirs site base [out] B := by
    refine (hoff.mono (by simp)).keep (fun k hk => ?_) fun dir hdir ys hys hne dir' hdir' hin => ?_
    · exact at?_remade hout hoff hremove hmake (hk out (.head _))
    · rw [List.mem_singleton.1 hdir] at hys hne
      rw [List.mem_singleton.1 hdir'] at hin
      exact absurd hin (not_below_suffix hys hne)
  obtain ⟨w, hw⟩ := exists_makeDir_of_backed hout hback hremove hmake
  obtain ⟨d, n, hslot, hx, hempty⟩ := Tree.slot_makeDir hw
  have heq := (hoff'.aims (.head _) hout hs).eq_of_slot hslot
  rw [Tree.Last.ofStep_of_name (hout.isName_of_mem (by simp [hs])).2] at heq
  cases heq
  rw [hs, Tree.below_concat]
  exact ⟨hslot, hx, hempty⟩

include hxml hnames

lemma offDirs_remade : v.OffDirs site base [out, xml] B := by
  obtain ⟨outer, s, hs, -⟩ := hout.endsIn
  obtain ⟨-, -, hdir, hempty⟩ := slot_remade hout hoff hback hremove hmake hs
  refine hoff.keep (fun k hk => at?_remade hout hoff hremove hmake (hk out (.head _))) ?_
  intro dir hmem ys hys hne dir' hmem' hin target
  have hcases : dir' = out ∨ dir' = xml := by simpa using hmem'
  rcases hcases with rfl | rfl
  · -- all that is within the first is the empty directory itself
    obtain ⟨r, hr⟩ := hin
    rw [← hr]
    rcases r.eq_nil_or_concat with rfl | ⟨r, n, rfl⟩
    · simp [hdir]
    · have hnone := Tree.at?_eq_none_of_suffix (List.suffix_append r _) (hempty n)
      rw [List.concat_eq_append, List.append_assoc, List.singleton_append, hnone]
      simp
  · have hle := below_suffix_iff.1 hin
    have hdir : dir = out ∨ dir = dir' := by simpa using hmem
    rcases hdir with rfl | rfl
    · exact absurd (hle.trans hys) hnames
    · exact absurd (hys.eq_of_length_le hle.length_le) hne

lemma pathLeads_remade :
    v.PathLeads site (fun k => ¬below B xml.names <:+ k) (base.join out) (below B out.names) := by
  obtain ⟨outer, s, hs, -⟩ := hout.endsIn
  obtain ⟨hslot, hx, -⟩ := slot_remade hout hoff hback hremove hmake hs
  have hway {ys : List Bytes} (hys : ys <+: out.names) : ¬below B xml.names <:+ below B ys :=
    fun hin => hnames ((below_suffix_iff.1 hin).trans hys)
  have haims : v.Aims site (fun k => ¬below B xml.names <:+ k) (base.join out) (below B outer) s :=
    (offDirs_remade hout hxml hnames hoff hback hremove hmake).aims_of (.head _) hout hs
      (fun k hk => hk xml (.tail _ (.head _)))
      fun ys hys => hway (hys.trans (hs ▸ List.prefix_append _ _))
  have hlast := hway List.prefix_rfl
  rw [hs, Tree.below_concat] at hlast ⊢
  exact haims.pathLeads hslot hx hlast

/-- A directory that is made anew stays empty when the other one is removed. -/
theorem fresh_of_remade (hclear : removeIfThere site (base.join xml) v = .ok c w) :
    w.Fresh site (base.join out) := by
  obtain ⟨outer, s, hs, -⟩ := hout.endsIn
  obtain ⟨outer', s', -, hends⟩ := hxml.endsIn
  obtain ⟨hslot, -, hdir, hempty⟩ := slot_remade hout hoff hback hremove hmake hs
  obtain ⟨-, -, -, -, hcheck, -, -⟩ := Tree.leads_of_slot hslot
  have hoff' := offDirs_remade hout hxml hnames hoff hback hremove hmake
  have hframe (k : Place) (hk : ¬below B xml.names <:+ k) : v.at? k = w.at? k := by
    have hsame := at?_state_removeIfThere hxml (.tail _ (.head _)) hoff' hk
    rw [hclear] at hsame
    exact hsame.symm
  obtain ⟨m, hm⟩ := pathLeads_remade hout hxml hnames hoff hback hremove hmake
  have hdir' := (hframe _ hm.stop).symm.trans hdir
  refine ⟨_, (Tree.follow_eq_ok_iff_of_dir hdir').2 ⟨hcheck, m, ?_⟩, hdir', fun n => ?_⟩
  · exact (hm.congr hframe).mono fun _ _ => trivial
  · rcases Tree.le_iff.1 (le_of_removeIfThere (hends base) hclear) (n :: below B out.names) with
      hnone | hsame
    · exact hnone
    · exact hsame.trans (hempty n)

end twice
end Files
end FirmwareTasks
