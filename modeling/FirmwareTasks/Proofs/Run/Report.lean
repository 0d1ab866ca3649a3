import FirmwareTasks.Proofs.Files.Footing
import FirmwareTasks.Proofs.Run.Agreement
import FirmwareTasks.Proofs.Run.Clean
import FirmwareTasks.Proofs.Run.Moving
/-!
Putting the coverage report away. What is in the way is removed and then the report is moved, on
one file system in one step; so the report is at its old place or at its new one, unless what is
removed holds it, is part of it, or is on the way to it.
-/
namespace FirmwareTasks
open EStateM
open Files
open FirmwareTasks.Tree (Apart Descends Fits Through through_iff isDirAt_congr_of_not_through)

variable {σ : Type}

namespace Files
variable {site : Site} {src dst : Path} {t u : Tree}

/-- What comes of putting a report away: what the target names is removed, if there is anything,
and then the report is moved there. -/
def PutAway (site : Site) (src dst : Path) (t u : Tree) : Prop :=
  ∃ b v, removeIfThere site dst t = .ok b v ∧ Moved site src dst v u

variable {q : Place} {outer : List Bytes} {s : Bytes}

/-- What is removed is off the report: neither part of it nor on the way to it. -/
def Off (site : Site) (src dst : Path) (t : Tree) (q : Place) : Prop :=
  ∀ p, t.locate site dst = .ok p → ¬q <:+ p ∧ (t.erase p).locate site src = .ok q

instance : Decidable (Off site src dst t q) :=
  decidable_of_iff
    (∀ p ∈ (t.locate site dst).toOption, ¬q <:+ p ∧ (t.erase p).locate site src = .ok q) <| by
    unfold Off
    cases t.locate site dst <;> simp [Except.toOption]

lemma Off.of_removeIfThere {b : Bool} (hoff : Off site src dst t q) (hends : dst.EndsIn outer s)
    (hq : t.locate site src = .ok q) (hremove : removeIfThere site dst t = .ok b u) :
    u ≤ t ∧ u.locate site src = .ok q ∧ ∀ r, u.at? (r ++ q) = t.at? (r ++ q) := by
  rcases (removeIfThere_eq_ok_iff hends).1 hremove with ⟨-, -, rfl⟩ | ⟨p, hp, -, rfl⟩
  · exact ⟨le_rfl, hq, fun _ => rfl⟩
  · obtain ⟨hpart, hway⟩ := hoff p hp
    obtain ⟨d, x, rfl, -, -⟩ := (Tree.locate_eq_ok_iff hends).1 hp
    have hle : t.erase (s :: d) ≤ t.without site dst (s :: d) := by
      unfold Tree.without
      split
      · rw [← Tree.erase_clear]
        exact Tree.erase_le _ _ _
      · exact le_rfl
    have hhold : ¬(s :: d) <:+ q := by
      intro hin
      have hsome := Tree.isSome_of_locate hway
      rw [Tree.at?_erase_cons, if_pos hin] at hsome
      cases hsome
    refine ⟨t.without_le site dst s d, Tree.locate_mono hle hway, fun r => ?_⟩
    apply Tree.at?_without
    intro hin
    rcases List.suffix_or_suffix_of_suffix hin (List.suffix_append r q) with h | h
    · exact hhold h
    · exact hpart h

lemma at?_of_removeIfThere {b : Bool} {k : Place} (hends : dst.EndsIn outer s)
    (hremove : removeIfThere site dst t = .ok b u)
    (hk : ∀ p, t.locate site dst = .ok p → ¬p <:+ k) : u.at? k = t.at? k := by
  rcases (removeIfThere_eq_ok_iff hends).1 hremove with ⟨-, -, rfl⟩ | ⟨p, hp, -, rfl⟩
  · rfl
  · obtain ⟨d, x, rfl, -, -⟩ := (Tree.locate_eq_ok_iff hends).1 hp
    exact Tree.at?_without (hk _ hp)

lemma Moved.at?_target (h : Moved site src dst t u) (hq : t.locate site src = .ok q) :
    u = t ∨ ∃ d n, t.slot site dst = .ok ⟨d, .name n⟩ ∧
      ∀ r, u.at? (r ++ n :: d) = t.at? (r ++ q) := by
  obtain ⟨d, m, p, n, -, hdst, hsrc, hmove⟩ := Tree.rename_eq_ok h.rename
  rw [hq] at hsrc
  obtain rfl := Except.ok.inj hsrc
  rcases hmove with ⟨-, rfl⟩ | ⟨hin, -, rfl⟩
  · exact .inl rfl
  · have hdir := Tree.dir_of_slot hdst
    have hoff : ¬(m :: d) <:+ p := fun h => hin (Tree.suffix_cons_of_suffix h)
    exact .inr ⟨p, n, hdst, Tree.at?_move (by simp) hdir hoff⟩

lemma at?_of_locate_noEntry {d : Place} (hends : dst.EndsIn outer s)
    (hslot : t.slot site dst = .ok ⟨d, .name s⟩) (hfree : t.locate site dst = .error .noEntry) :
    t.at? (s :: d) = none := by
  rw [Tree.locate_of_slot hends.noSlash hslot] at hfree
  split at hfree
  · rename_i e hc
    rw [(Tree.child?_eq_error_iff.1 hc).2] at hfree
    exact absurd (Except.error.inj hfree) (by decide)
  · cases hfree
  · rename_i hc
    exact (Tree.child?_eq_ok_iff.1 hc).2

lemma Moved.at?_else {k : Place} (h : Moved site src dst t u) (hends : dst.EndsIn outer s)
    (hq : t.locate site src = .ok q) (hfree : t.locate site dst = .error .noEntry)
    (hk : ¬q <:+ k) (hsome : (t.at? k).isSome) : u.at? k = t.at? k := by
  obtain ⟨d, m, p, n, -, hdst, hsrc, hmove⟩ := Tree.rename_eq_ok h.rename
  rw [hq] at hsrc
  obtain rfl := Except.ok.inj hsrc
  rcases hmove with ⟨-, rfl⟩ | ⟨hin, -, rfl⟩
  · rfl
  · obtain rfl : n = s := by
      have hlast := ((Tree.slot_eq_ok_iff hends.names).1 hdst).2.1
      exact (Tree.Last.ofStep_eq_name_iff.1 hlast.symm).1.symm
    have hoff : ¬(m :: d) <:+ p := fun h => hin (Tree.suffix_cons_of_suffix h)
    have hout : ¬(n :: p) <:+ k := by
      intro hin
      rw [Tree.at?_eq_none_of_suffix hin (at?_of_locate_noEntry hends hdst hfree)] at hsome
      cases hsome
    rw [Tree.at?_move_of_not_suffix (by simp) (Tree.dir_of_slot hdst) hoff hout, if_neg hk]

lemma at?_of_removeIfThere_linkless {b : Bool} {k : Place} (ht : t.Linkless)
    (hends : dst.EndsIn outer s) (hremove : removeIfThere site dst t = .ok b u)
    (hk : ¬site.spell dst <:+ k) : u.at? k = t.at? k := by
  apply at?_of_removeIfThere hends hremove
  intro p hp
  rwa [ht.eq_of_locate hends hp]

/-- Without links, a report that is put away is at the place that the target spells, whole, and
nothing of what was there is left; its old place is free, and nothing else has changed. -/
theorem PutAway.at? (h : PutAway site src dst t u) (ht : t.Linkless) (hends : dst.EndsIn outer s)
    (hapart : Apart (site.spell src) (site.spell dst)) :
    (∀ r, u.at? (r ++ site.spell dst) = t.at? (r ++ site.spell src)) ∧
    (∀ r, u.at? (r ++ site.spell src) = none) ∧
    ∀ k, ¬site.spell src <:+ k → ¬site.spell dst <:+ k → u.at? k = t.at? k := by
  obtain ⟨b, v, hremove, hmoved⟩ := h
  have hkept {k : Place} (hk : ¬site.spell dst <:+ k) : v.at? k = t.at? k :=
    at?_of_removeIfThere_linkless ht hends hremove hk
  have hv : v.Linkless := fun k target hk =>
    ht k target (le_of_removeIfThere hends hremove k _ hk)
  obtain ⟨d, m, p, n, hsrc, hdst, -, hmove⟩ := Tree.rename_eq_ok hmoved.rename
  have hdir := Tree.dir_of_slot hdst
  rw [hv.eq_of_slot hsrc, hv.eq_of_slot hdst] at hmove
  rcases hmove with ⟨hsame, -⟩ | ⟨hin, -, rfl⟩
  · exact absurd (hsame ▸ List.suffix_rfl) hapart.1
  · have hdst := hv.eq_of_slot hdst
    have hne : site.spell src ≠ [] := fun h => hapart.1 (h ▸ List.nil_suffix)
    rw [← hdst] at hin hapart hkept ⊢
    have hoff : ¬site.spell src <:+ p := fun h => hin (Tree.suffix_cons_of_suffix h)
    refine ⟨fun r => ?_, fun r => ?_, fun k hsrc hdst => ?_⟩
    · rw [Tree.at?_move hne hdir hoff, hkept hapart.not_suffix]
    · rw [Tree.at?_move_of_not_suffix hne hdir hoff hapart.not_suffix,
        if_pos (List.suffix_append r _)]
    · rw [Tree.at?_move_of_not_suffix hne hdir hoff hdst, if_neg hsrc, hkept hdst]

section shelf
variable {base shelf : Path} {n s' : Bytes} {xs ys outer' : List Bytes}

lemma PutAway.not_through (h : PutAway site src dst t u) (ht : t.Linkless)
    (hsrc : src.EndsIn outer s) (hdst : dst.EndsIn outer' s') (hdir : t.isDirAt site src = true)
    (hapart : Apart (site.spell src) (site.spell dst)) : ¬Through site src (site.spell dst) := by
  rintro ⟨ys, hys, hin⟩
  obtain ⟨b, v, hremove, hmoved⟩ := h
  have hv : v.Linkless := fun k target hk =>
    ht k target (le_of_removeIfThere hdst hremove k _ hk)
  have hat : v.at? (site.spell src) = some .dir := by
    rw [at?_of_removeIfThere_linkless ht hdst hremove hapart.2]
    exact (ht.leads_of_isDirAt hdir).2
  -- the report is still found, so what is on the way to it is still there
  obtain ⟨p, hp⟩ := hmoved.found
  obtain rfl : p = site.spell src := by
    obtain ⟨-, hwalk⟩ := Tree.follow_eq_ok_iff.1 hp
    rw [hsrc.steps, ← hsrc.names] at hwalk
    exact hv.eq_of_walk hwalk
  have hlead := ((Tree.follow_eq_ok_iff_of_dir hat).1 hp).2
  have hway := hv.dir_of_pathLeads hlead hat ys hys
  obtain ⟨d, m, p, n, -, hslot, -, -⟩ := Tree.rename_eq_ok hmoved.rename
  have hspell := hv.eq_of_slot hslot
  obtain rfl : n = s' := by
    have hlast := ((Tree.slot_eq_ok_iff hdst.names).1 hslot).2.1
    exact (Tree.Last.ofStep_eq_name_iff.1 hlast.symm).1.symm
  have hfree := at?_of_locate_noEntry hdst hslot (locate_of_removeIfThere hdst hremove)
  rw [hspell] at hfree
  rw [Tree.at?_eq_none_of_suffix hin hfree] at hway
  cases hway

lemma PutAway.isDirAt (h : PutAway site src (shelf.join ⟨n⟩) t u) (hshelf : shelf.EndsIn outer s)
    (hn : Path.IsName n ∧ Path.slash ∉ n) :
    t.isDirAt site shelf = true ∧ (shelf.join ⟨n⟩).bytes.length < Tree.pathLimit := by
  obtain ⟨b, v, hremove, hmoved⟩ := h
  have hends := Path.endsIn_join_mk hn.1 hn.2 shelf
  have hparent := hshelf.parent?_join hn.1 hn.2
  constructor
  · apply Tree.isDirAt_mono (le_of_removeIfThere hends hremove)
    exact (checkTarget_eq_ok_iff hparent hshelf.not_isEmpty).1 hmoved.target
  · obtain ⟨d, m, p, x, -, hslot, -, -⟩ := Tree.rename_eq_ok hmoved.rename
    have hcheck := ((Tree.slot_eq_ok_iff hends.names).1 hslot).1
    exact (Tree.check_eq_ok_iff.1 hcheck).2.2

/-- A report is put away in a directory that is there, if the target's path is short enough and the
ways there and to the report do not go through the target. -/
theorem exists_putAway (hm : site.mounts = []) (ht : t.Linkless) (hsrc : Descends base src xs)
    (hshelf : Descends base shelf ys) (hn : Path.IsName n ∧ Path.slash ∉ n)
    (hfits : Fits (shelf.join ⟨n⟩)) (hdir : t.isDirAt site src = true)
    (hisDir : t.isDirAt site shelf = true)
    (hapart : Apart (site.spell src) (site.spell (shelf.join ⟨n⟩)))
    (hway : ¬Through site src (site.spell (shelf.join ⟨n⟩)))
    (hway' : ¬Through site shelf (site.spell (shelf.join ⟨n⟩))) :
    ∃ u, PutAway site src (shelf.join ⟨n⟩) t u := by
  have hends := Path.endsIn_join_mk hn.1 hn.2 shelf
  have hpath := hshelf.join (Path.ordinary_mk hn.1 hn.2)
  rw [Path.names_mk hn.1 hn.2] at hpath
  have hslot {v : Tree} (hv : v.Linkless) (h : v.isDirAt site shelf = true) :
      v.slot site (shelf.join ⟨n⟩) = .ok ⟨site.spell shelf, .name n⟩ := by
    have hfoot : v.Footed site base := .of_isDirAt hv hshelf.toContinues h
    have hat := ((hfoot.isDirAt_iff hshelf.toContinues).1 h).2
    rw [hshelf.spell_eq] at hat ⊢
    exact hfoot.slot hpath.toContinues hfits hat
  have hchild (v : Tree) : v.child? (site.spell shelf) n = .ok (v.at? (n :: site.spell shelf)) :=
    Tree.child?_eq_ok_iff.2 ⟨hfits.length_le n (by simp [hpath.names]), rfl⟩
  obtain ⟨b, v, hremove⟩ : ∃ b v, removeIfThere site (shelf.join ⟨n⟩) t = .ok b v := by
    rw [removeIfThere_eq site hends, Tree.locate_of_slot hends.noSlash (hslot ht hisDir), hchild]
    cases t.at? (n :: site.spell shelf) <;> exact ⟨_, _, rfl⟩
  have hv : v.Linkless := fun k target hk =>
    ht k target (le_of_removeIfThere hends hremove k _ hk)
  have hkept (k : Place) (hk : ¬site.spell (shelf.join ⟨n⟩) <:+ k) : v.at? k = t.at? k :=
    at?_of_removeIfThere_linkless ht hends hremove hk
  rw [isDirAt_congr_of_not_through ht hway hkept] at hdir
  rw [isDirAt_congr_of_not_through ht hway' hkept] at hisDir
  have hdst := hslot hv hisDir
  have hfree := at?_of_locate_noEntry hends hdst (locate_of_removeIfThere hends hremove)
  -- the report is still there and nothing is at the target, so nothing refuses the move
  have hfoot : v.Footed site base := .of_isDirAt hv hsrc.toContinues hdir
  obtain ⟨hfits', hat⟩ := (hfoot.isDirAt_iff hsrc.toContinues).1 hdir
  have hfound : v.follow site src = .ok (site.spell src) :=
    (hfoot.follow_eq_ok_iff hsrc).2 ⟨rfl, hfits', by simp [hat]⟩
  obtain ⟨zs, m, rfl⟩ := hsrc.exists_concat
  rw [Tree.spell_join_mk site shelf hn, hsrc.spell_eq, Tree.below_concat] at hapart
  rw [hsrc.spell_eq, Tree.below_concat] at hat
  have hx := Tree.child?_eq_ok_iff.2 ⟨hfits'.length_le m (by simp [hsrc.names]), hat⟩
  have hmove : Tree.rename site src (shelf.join ⟨n⟩) v = .ok
      (v.move (m :: Tree.below (site.spell base) zs) (n :: site.spell shelf)) := by
    have hslot' := hfoot.slot hsrc.toContinues hfits' (Tree.at?_eq_dir_of_cons hat)
    rw [Tree.rename_of_slots hm hslot' hdst, hx, hchild]
    exact Tree.renameEntry_of_givesWay (fun _ => rfl) hapart (by simp [Tree.GivesWay, hfree])
  obtain ⟨ws, s, rfl⟩ := hshelf.exists_concat
  have hparent := hshelf.endsIn.parent?_join hn.1 hn.2
  have htarget := (checkTarget_eq_ok_iff hparent hshelf.endsIn.not_isEmpty).2 hisDir
  exact ⟨_, b, v, hremove, ⟨_, hfound⟩, htarget, hmove⟩

end shelf

end Files

namespace Context
variable {ctx : Context σ}

lemma collect_cov_of_sameAs (w : World σ)
    (h : ctx.coverageTarget.SameAs (ctx.path ctx.config.layout.coverageDir)) :
    ∃ v, ctx.collect .cov w = .ok () v ∧ v.tree = w.tree := by
  dsimp only [collect]
  rw [if_neg (by simp [h])]
  exact ⟨_, rfl, rfl⟩

/-- A report that is written elsewhere is put away, or this is refused after at most the removal of
what is in the way. -/
theorem collect_cov_cases (hm : ctx.site.mounts = []) (w : World σ)
    (h : ¬ctx.coverageTarget.SameAs (ctx.path ctx.config.layout.coverageDir)) :
    let away := PutAway ctx.site (ctx.path ctx.config.layout.coverageDir) ctx.coverageTarget w.tree
    (∃ v, ctx.collect .cov w = .ok () v ∧ away v.tree) ∨
    (∃ e v, ctx.collect .cov w = .error e v ∧ (v.tree = w.tree ∨
      ∃ b, removeIfThere ctx.site ctx.coverageTarget w.tree = .ok b v.tree)) ∧ ∀ u, ¬away u := by
  intro away
  have hcollect : ctx.collect .cov w = (do
      Act.ensureAbsent ctx.site ctx.coverageTarget
      Act.relocate ctx.site (ctx.path ctx.config.layout.coverageDir) ctx.coverageTarget
      Act.log .info ("Coverage report: " ++ (ctx.coverageTarget.join reportPage).text)) w := by
    dsimp only [collect]
    rw [if_pos (by simp [h])]
  rw [hcollect]
  cases hremove : removeIfThere ctx.site ctx.coverageTarget w.tree with
  | error e t =>
    have ht : t = w.tree := by
      obtain ⟨outer, s, hends⟩ := ctx.endsIn_coverageTarget
      rw [removeIfThere_eq ctx.site hends] at hremove
      split at hremove
      · cases hremove
      · split at hremove <;> cases hremove
        rfl
    refine .inr ⟨⟨_, _, bind_of_error (Act.ensureAbsent_of_error hremove) _, .inl ht⟩, ?_⟩
    rintro u ⟨b, v, hv, -⟩
    rw [hremove] at hv
    cases hv
  | ok b t =>
    obtain ⟨es, habsent, -⟩ := Act.ensureAbsent_of_ok hremove
    rw [bind_of_ok habsent]
    rcases Act.relocate_cases hm (ctx.path ctx.config.layout.coverageDir) ctx.coverageTarget
      { w with tree := t, events := w.events ++ es } with ⟨v, hv, hmoved⟩ | ⟨⟨e, v, hv, ht⟩, hnot⟩
    · rw [bind_of_ok hv]
      exact .inl ⟨_, rfl, b, t, hremove, hmoved⟩
    · refine .inr ⟨⟨_, v, bind_of_error hv _, .inr ⟨b, by rw [ht]⟩⟩, ?_⟩
      rintro u ⟨b', t', ht', hmoved⟩
      rw [hremove] at ht'
      cases ht'
      exact hnot u hmoved

lemma sameAs_iff_spell_eq (hcov : ctx.config.layout.coverageDir.Ordinary)
    (hart : ctx.config.layout.artifactsDir.Ordinary) :
    ctx.coverageTarget.SameAs (ctx.path ctx.config.layout.coverageDir) ↔
      ctx.site.spell (ctx.path ctx.config.layout.coverageDir) =
        ctx.site.spell ctx.coverageTarget := by
  obtain ⟨outer, n, -, hn, htarget⟩ := ctx.coverageTarget_of_ordinary hcov
  have hord := Path.ordinary_mk hn.1 hn.2
  have hdir := Tree.Continues.of_join hcov ctx.root
  have hdst := (Tree.Continues.of_join hart ctx.root).join hord
  have hinj : Function.Injective Path.Component.name := fun _ _ h => Path.Component.name.inj h
  rw [htarget, path, path, hdir.spell_eq, hdst.spell_eq, Path.SameAs, Path.components_join hord,
    Path.components_join hart, Path.components_join hcov, List.append_assoc, ← List.map_append]
  constructor
  · intro h
    rw [hinj.list_map (List.append_cancel_left h)]
  · intro h
    have hnames : ctx.config.layout.coverageDir.names =
        ctx.config.layout.artifactsDir.names ++ (⟨n⟩ : Path).names :=
      List.reverse_injective (List.append_cancel_right h)
    rw [hnames]

/-- Once gcovr has succeeded, its report is not lost, however the task ends: it is where it was
written, or where the target says. Nothing else is lost but what the target named. What has to give
way at the target must be off the report. -/
theorem report_survives_collection (hm : ctx.site.mounts = []) {w l : World σ} {q : Place}
    (hl : ctx.afterTool .cov w = some l)
    (hq : l.tree.locate ctx.site (ctx.path ctx.config.layout.coverageDir) = .ok q)
    (hoff : ¬ctx.coverageTarget.SameAs (ctx.path ctx.config.layout.coverageDir) →
      Off ctx.site (ctx.path ctx.config.layout.coverageDir) ctx.coverageTarget l.tree q) :
    let u := (ctx.body .cov w).state.tree
    (u.locate ctx.site (ctx.path ctx.config.layout.coverageDir) = .ok q ∧
        (∀ r, u.at? (r ++ q) = l.tree.at? (r ++ q)) ∨
      ∃ d n, l.tree.slot ctx.site ctx.coverageTarget = .ok ⟨d, .name n⟩ ∧
        ∀ r, u.at? (r ++ n :: d) = l.tree.at? (r ++ q)) ∧
    ∀ k, (l.tree.at? k).isSome → ¬q <:+ k →
      (∀ p, l.tree.locate ctx.site ctx.coverageTarget = .ok p → ¬p <:+ k) →
      u.at? k = l.tree.at? k := by
  rw [ctx.body_of_afterTool hl]
  by_cases hsame : ctx.coverageTarget.SameAs (ctx.path ctx.config.layout.coverageDir)
  · obtain ⟨x, hx, hu⟩ := collect_cov_of_sameAs l hsame
    rw [hx, Result.state, hu]
    exact ⟨.inl ⟨hq, fun _ => rfl⟩, fun _ _ _ _ => rfl⟩
  · obtain ⟨outer, s, hends⟩ := ctx.endsIn_coverageTarget
    have hoff := hoff hsame
    rcases collect_cov_cases hm l hsame with ⟨x, hx, b, y, hremove, hmoved⟩ | ⟨⟨e, x, hx, hu⟩, -⟩
    · rw [hx, Result.state]
      obtain ⟨hle, hsrc, hkept⟩ := hoff.of_removeIfThere hends hq hremove
      refine ⟨?_, fun k hsome hk htarget => ?_⟩
      · rcases hmoved.at?_target hsrc with hu | ⟨d, n, hdst, hu⟩
        · rw [hu]
          exact .inl ⟨hsrc, hkept⟩
        · exact .inr ⟨d, n, Tree.slot_mono hle hdst, fun r => (hu r).trans (hkept r)⟩
      · have hsame := at?_of_removeIfThere hends hremove htarget
        have hfree := locate_of_removeIfThere hends hremove
        rw [hmoved.at?_else hends hsrc hfree hk (hsame ▸ hsome), hsame]
    · rw [hx, Result.state]
      rcases hu with hu | ⟨b, hremove⟩
      · rw [hu]
        exact ⟨.inl ⟨hq, fun _ => rfl⟩, fun _ _ _ _ => rfl⟩
      · refine ⟨.inl (hoff.of_removeIfThere hends hq hremove).2, fun k _ _ htarget => ?_⟩
        exact at?_of_removeIfThere hends hremove htarget

/-- Without links a report can be put away exactly if the directory to collect it in is there, the
path of the target can be given to the system, and the root is not reached by way of the target. -/
theorem exists_putAway_iff (hm : ctx.site.mounts = []) {t : Tree} (ht : t.Linkless)
    (hcov : ctx.config.layout.coverageDir.Ordinary)
    (hart : ctx.config.layout.artifactsDir.Ordinary)
    (hdir : t.isDirAt ctx.site (ctx.path ctx.config.layout.coverageDir) = true)
    (hapart : Apart (ctx.site.spell (ctx.path ctx.config.layout.coverageDir))
      (ctx.site.spell ctx.coverageTarget)) :
    (∃ u, PutAway ctx.site (ctx.path ctx.config.layout.coverageDir) ctx.coverageTarget t u) ↔
      t.isDirAt ctx.site (ctx.path ctx.config.layout.artifactsDir) = true ∧
        ctx.coverageTarget.bytes.length < Tree.pathLimit ∧
        ¬Through ctx.site ctx.root (ctx.site.spell ctx.coverageTarget) := by
  obtain ⟨xs, n, hnames, hn, htarget⟩ := ctx.coverageTarget_of_ordinary hcov
  have hsrc : Descends ctx.root (ctx.path _) _ := .of_join hcov ctx.root
  have hshelf : Descends ctx.root (ctx.path _) _ := .of_join hart ctx.root
  have hfoot : t.Footed ctx.site ctx.root := .of_isDirAt ht hsrc.toContinues hdir
  rw [htarget] at hapart ⊢
  constructor
  · rintro ⟨u, haway⟩
    obtain ⟨outer, s, -, hends⟩ := hcov.endsIn
    obtain ⟨outer', s', -, hends'⟩ := hart.endsIn
    obtain ⟨hisDir, hlong⟩ := haway.isDirAt (hends' ctx.root) hn
    refine ⟨hisDir, hlong, fun hway => ?_⟩
    apply haway.not_through ht (hends ctx.root) (Path.endsIn_join_mk hn.1 hn.2 _) hdir hapart
    exact (through_iff hsrc.toContinues).2 (.inl hway)
  · rintro ⟨hisDir, hlong, hway⟩
    have hfits := ((hfoot.isDirAt_iff hsrc.toContinues).1 hdir).1
    have hmem : n ∈ (ctx.path ctx.config.layout.coverageDir).names := by
      simp [hsrc.names, hnames]
    have hzero : 0 ∉ n := fun h =>
      (Tree.check_eq_ok_iff.1 hfits.check).1 (Path.subset_of_mem_names hmem h)
    have hfits' := hshelf.fits_join ((hfoot.isDirAt_iff hshelf.toContinues).1 hisDir).1 hn hzero
      (hfits.length_le n hmem) hlong
    apply exists_putAway hm ht hsrc hshelf hn hfits' hdir hisDir hapart
    · -- the way to the report goes on from the root, inside it only where the report is
      rw [through_iff hsrc.toContinues]
      rintro (h | ⟨zs, hzs, hin⟩)
      · exact hway h
      · have hsuffix := hin.trans (Tree.below_suffix_iff.2 hzs)
        rw [← hsrc.spell_eq] at hsuffix
        exact hapart.2 hsuffix
    · rw [through_iff hshelf.toContinues]
      rintro (h | ⟨zs, hzs, hin⟩)
      · exact hway h
      · have hsuffix := hin.trans (Tree.below_suffix_iff.2 hzs)
        rw [← hshelf.spell_eq, Tree.spell_join_mk ctx.site _ hn] at hsuffix
        exact absurd hsuffix.length_le (Nat.not_succ_le_self _)

/-- A project whose gcovr writes one page into the coverage directory. -/
def reporting (root : Path) (artifacts : String) : Context Unit where
  config := { Config.builtIn with
    project := { Project.builtIn with gccPaths := [] }
    layout := { Layout.builtIn with artifactsDir := .ofString artifacts }
    paths := [] }
  root
  ci := false
  inherited := none
  site := { cwd := [] }
  runner _ _ t :=
    let page := [word "page", word "coverage", word "build", word "project"]
    ⟨(), t.insert page (.file [] false), [], .ok ()⟩

/-- A directory for artifacts in which there is a report of earlier. -/
def collected : Tree :=
  let artifacts := [word "artifacts", word "project"]
  let report := word "coverage" :: artifacts
  (((Tree.empty.insert [word "project"] .dir).insert artifacts .dir).insert report .dir).insert
    (word "old" :: report) (.file [] false)

theorem report_survives_collection_collected :
    let ctx := reporting (.ofString "project") "artifacts"
    ∃ l, ctx.afterTool .cov ⟨collected, (), []⟩ = some l ∧
      let u := (ctx.body .cov ⟨collected, (), []⟩).state.tree
      let q := [word "coverage", word "build", word "project"]
      (l.tree.at? (word "page" :: q)).isSome ∧
      (u.locate ctx.site (ctx.path ctx.config.layout.coverageDir) = .ok q ∧
          (∀ r, u.at? (r ++ q) = l.tree.at? (r ++ q)) ∨
        ∃ d n, l.tree.slot ctx.site ctx.coverageTarget = .ok ⟨d, .name n⟩ ∧
          ∀ r, u.at? (r ++ n :: d) = l.tree.at? (r ++ q)) := by
  intro ctx
  obtain ⟨l, hl, hpage, hq, hoff⟩ : ∃ l ∈ ctx.afterTool .cov ⟨collected, (), []⟩,
      let q := [word "coverage", word "build", word "project"]
      (l.tree.at? (word "page" :: q)).isSome ∧
      l.tree.locate ctx.site (ctx.path ctx.config.layout.coverageDir) = .ok q ∧
      Off ctx.site (ctx.path ctx.config.layout.coverageDir) ctx.coverageTarget l.tree q := by
    decide +kernel
  exact ⟨l, hl, hpage, (report_survives_collection rfl hl hq fun _ => hoff).1⟩

/-- A report can be lost: a target that is another way to the report is not seen to be where the
report is, so the report is removed to make room for itself. -/
theorem report_lost_by_detour :
    let ctx := reporting (.ofString "project") "build/../build"
    ∃ l e u, ctx.afterTool .cov ⟨collected, (), []⟩ = some l ∧
      ctx.body .cov ⟨collected, (), []⟩ = .error e u ∧
      (l.tree.at? [word "page", word "coverage", word "build", word "project"]).isSome ∧
      l.tree.locate ctx.site (ctx.path ctx.config.layout.coverageDir) =
        .ok [word "coverage", word "build", word "project"] ∧
      u.tree.locate ctx.site (ctx.path ctx.config.layout.coverageDir) = .error .noEntry ∧
      u.tree.locate ctx.site ctx.coverageTarget = .error .noEntry := by
  intro ctx
  obtain ⟨l, hl, hpage, hq⟩ : ∃ l ∈ ctx.afterTool .cov ⟨collected, (), []⟩,
      (l.tree.at? [word "page", word "coverage", word "build", word "project"]).isSome ∧
      l.tree.locate ctx.site (ctx.path ctx.config.layout.coverageDir) =
        .ok [word "coverage", word "build", word "project"] := by
    decide +kernel
  obtain ⟨e, u, hbody, hgone⟩ : ∃ e u, ctx.body .cov ⟨collected, (), []⟩ = .error e u ∧
      u.tree.locate ctx.site (ctx.path ctx.config.layout.coverageDir) = .error .noEntry ∧
      u.tree.locate ctx.site ctx.coverageTarget = .error .noEntry := by
    decide +kernel
  exact ⟨l, e, u, hl, hbody, hpage, hq, hgone⟩

/-- Once gcovr has succeeded and there are no links, the task ends well exactly if the report is
written where it is collected, or the directory to collect it in is there, the path of the target
can be given to the system, and the root is not reached by way of the target. Then the report is at
the target as gcovr has left it, and nowhere else, and nothing else has changed; otherwise the
report is where it was. -/
theorem report_is_collected_whole (hm : ctx.site.mounts = [])
    (hcov : ctx.config.layout.coverageDir.Ordinary)
    (hart : ctx.config.layout.artifactsDir.Ordinary) {w l : World σ}
    (hl : ctx.afterTool .cov w = some l) (hlinks : l.tree.Linkless)
    (hdir : l.tree.isDirAt ctx.site (ctx.path ctx.config.layout.coverageDir) = true)
    (hapart : ctx.site.spell (ctx.path ctx.config.layout.coverageDir) =
        ctx.site.spell ctx.coverageTarget ∨
      Apart (ctx.site.spell (ctx.path ctx.config.layout.coverageDir))
        (ctx.site.spell ctx.coverageTarget)) :
    let src := ctx.site.spell (ctx.path ctx.config.layout.coverageDir)
    let dst := ctx.site.spell ctx.coverageTarget
    ((∃ u, ctx.body .cov w = .ok () u) ↔
      src = dst ∨ l.tree.isDirAt ctx.site (ctx.path ctx.config.layout.artifactsDir) = true ∧
        ctx.coverageTarget.bytes.length < Tree.pathLimit ∧ ¬Through ctx.site ctx.root dst) ∧
    (∀ u, ctx.body .cov w = .ok () u → src = dst → u.tree = l.tree) ∧
    (∀ u, ctx.body .cov w = .ok () u → src ≠ dst →
      (∀ r, u.tree.at? (r ++ dst) = l.tree.at? (r ++ src)) ∧
      (∀ r, u.tree.at? (r ++ src) = none) ∧
      ∀ k, ¬src <:+ k → ¬dst <:+ k → u.tree.at? k = l.tree.at? k) ∧
    ∀ e u, ctx.body .cov w = .error e u → ∀ r, u.tree.at? (r ++ src) = l.tree.at? (r ++ src) := by
  intro src dst
  rw [ctx.body_of_afterTool hl]
  by_cases hsame : src = dst
  · obtain ⟨x, hx, hu⟩ := collect_cov_of_sameAs l ((sameAs_iff_spell_eq hcov hart).2 hsame)
    rw [hx]
    refine ⟨⟨fun _ => .inl hsame, fun _ => ⟨x, rfl⟩⟩, ?_, ?_, ?_⟩
    · rintro _ ⟨⟩ _
      exact hu
    · intro _ _ hne
      exact absurd hsame hne
    · rintro _ _ ⟨⟩
  · have hapart : Apart src dst := hapart.resolve_left hsame
    have hnot := (sameAs_iff_spell_eq hcov hart).not.2 hsame
    rw [← exists_putAway_iff hm hlinks hcov hart hdir hapart]
    obtain ⟨outer, s, hends⟩ := ctx.endsIn_coverageTarget
    rcases collect_cov_cases hm l hnot with ⟨x, hx, haway⟩ | ⟨⟨e, x, hx, hu⟩, hnever⟩
    · rw [hx]
      refine ⟨⟨fun _ => .inr ⟨_, haway⟩, fun _ => ⟨x, rfl⟩⟩, ?_, ?_, ?_⟩
      · intro _ _ h
        exact absurd h hsame
      · rintro _ ⟨⟩ _
        exact haway.at? hlinks hends hapart
      · rintro _ _ ⟨⟩
    · rw [hx]
      refine ⟨⟨?_, ?_⟩, ?_, ?_, ?_⟩
      · rintro ⟨u, ⟨⟩⟩
      · rintro (h | ⟨u, haway⟩)
        · exact absurd h hsame
        · exact absurd haway (hnever u)
      · rintro _ ⟨⟩
      · rintro _ ⟨⟩
      · rintro _ _ ⟨⟩ r
        rcases hu with hu | ⟨b, hremove⟩
        · rw [hu]
        · exact at?_of_removeIfThere_linkless hlinks hends hremove hapart.not_suffix

theorem report_is_collected_whole_collected :
    let ctx := reporting (.ofString "project") "artifacts"
    ctx.config.layout.coverageDir.Ordinary ∧ ctx.config.layout.artifactsDir.Ordinary ∧
    ∃ l u, ctx.afterTool .cov ⟨collected, (), []⟩ = some l ∧ l.tree.Linkless ∧
      ctx.body .cov ⟨collected, (), []⟩ = .ok () u ∧
      ∀ r, u.tree.at? (r ++ [word "coverage", word "artifacts", word "project"]) =
        l.tree.at? (r ++ [word "coverage", word "build", word "project"]) := by
  intro ctx
  have hcov : ctx.config.layout.coverageDir.Ordinary := by decide +kernel
  have hart : ctx.config.layout.artifactsDir.Ordinary := by decide +kernel
  have hsrc : ctx.site.spell (ctx.path ctx.config.layout.coverageDir) =
      [word "coverage", word "build", word "project"] := by
    decide +kernel
  have hdst : ctx.site.spell ctx.coverageTarget =
      [word "coverage", word "artifacts", word "project"] := by
    decide +kernel
  obtain ⟨l, hl, hlinks, hdir, hisDir⟩ : ∃ l ∈ ctx.afterTool .cov ⟨collected, (), []⟩,
      l.tree.Linkless ∧
      l.tree.isDirAt ctx.site (ctx.path ctx.config.layout.coverageDir) = true ∧
      l.tree.isDirAt ctx.site (ctx.path ctx.config.layout.artifactsDir) = true := by
    decide +kernel
  have hapart : Apart (ctx.site.spell (ctx.path ctx.config.layout.coverageDir))
      (ctx.site.spell ctx.coverageTarget) := by
    decide +kernel
  obtain ⟨hiff, -, hmoved, -⟩ :=
    report_is_collected_whole rfl hcov hart hl hlinks hdir (.inr hapart)
  obtain ⟨u, hu⟩ := hiff.2 (.inr ⟨hisDir, by decide +kernel, by decide +kernel⟩)
  have hne : ctx.site.spell (ctx.path ctx.config.layout.coverageDir) ≠
      ctx.site.spell ctx.coverageTarget := by
    decide +kernel
  have hwhole := (hmoved u hu hne).1
  rw [hsrc, hdst] at hwhole
  exact ⟨hcov, hart, l, u, hl, hlinks, hu, hwhole⟩

/-- A way to the project by the report of earlier, and one that is written with many slashes. -/
def roundabout : List Path :=
  [.ofString "project/artifacts/coverage/../..",
    ⟨word "project" ++ List.replicate 4072 Path.slash⟩]

/-- A report cannot be collected where the root is reached by the report that is to give way, nor
where the path of the target is too long, though the directory to collect it in is there. -/
theorem report_not_collected_roundabout :
    collected.Linkless ∧ ∀ root ∈ roundabout, let ctx := reporting root "artifacts"
      ctx.config.layout.coverageDir.Ordinary ∧ ctx.config.layout.artifactsDir.Ordinary ∧
      ∃ l e u, ctx.afterTool .cov ⟨collected, (), []⟩ = some l ∧ l.tree.Linkless ∧
        l.tree.isDirAt ctx.site (ctx.path ctx.config.layout.coverageDir) = true ∧
        Apart (ctx.site.spell (ctx.path ctx.config.layout.coverageDir))
          (ctx.site.spell ctx.coverageTarget) ∧
        l.tree.isDirAt ctx.site (ctx.path ctx.config.layout.artifactsDir) = true ∧
        ctx.body .cov ⟨collected, (), []⟩ = .error e u := by
  refine ⟨by decide +kernel, fun root hroot => ?_⟩
  intro ctx
  have hlayout : ∀ root ∈ roundabout, let ctx := reporting root "artifacts"
      ctx.config.layout.coverageDir.Ordinary ∧ ctx.config.layout.artifactsDir.Ordinary ∧
      Apart (ctx.site.spell (ctx.path ctx.config.layout.coverageDir))
        (ctx.site.spell ctx.coverageTarget) := by
    decide +kernel
  have hseen : ∀ root ∈ roundabout, let ctx := reporting root "artifacts"
      ∃ l ∈ ctx.afterTool .cov ⟨collected, (), []⟩, l.tree.Linkless ∧
        l.tree.isDirAt ctx.site (ctx.path ctx.config.layout.coverageDir) = true ∧
        l.tree.isDirAt ctx.site (ctx.path ctx.config.layout.artifactsDir) = true := by
    decide +kernel
  have hfails : ∀ root ∈ roundabout, ∃ e u,
      (reporting root "artifacts").body .cov ⟨collected, (), []⟩ = .error e u := by
    decide +kernel
  obtain ⟨hcov, hart, hapart⟩ := hlayout root hroot
  obtain ⟨l, hl, hlinks, hdir, hisDir⟩ := hseen root hroot
  obtain ⟨e, u, hbody⟩ := hfails root hroot
  exact ⟨hcov, hart, l, e, u, hl, hlinks, hdir, hapart, hisDir, hbody⟩

end Context
end FirmwareTasks
