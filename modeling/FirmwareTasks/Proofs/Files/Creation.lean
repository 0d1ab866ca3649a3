import FirmwareTasks.Proofs.Files.Removal
/-!
Making a directory with those outside it. A path that has led to no directory leads to an empty one
afterwards, unless a step outwards was made to lead somewhere on the way.
-/
namespace FirmwareTasks
open EStateM
open FirmwareTasks.Path (dot dotDot)

namespace Tree
variable {t u : Tree} {site : Site} {path : Path} {d q : Place} {s : Bytes}
  {S : Slot} {e : IoError}

lemma makeDir_of_slot_error (h : t.slot site path = .error e) :
    makeDir site path t = .error e := by
  simp [makeDir, h, bind, Except.bind]

lemma makeDir_of_slot (h : t.slot site path = .ok ⟨d, .name s⟩) :
    makeDir site path t =
      match t.child? d s with
      | .error e => .error e
      | .ok (some _) => .error .alreadyExists
      | .ok none => .ok (t.insert (s :: d) .dir) := by
  simp only [makeDir, h, bind, Except.bind, pure, Except.pure]
  cases t.child? d s with
  | error e => rfl
  | ok o => cases o <;> rfl

lemma makeDir_of_not_name (h : t.slot site path = .ok S) (hS : ∀ s, S.last ≠ .name s) :
    makeDir site path t = .error .alreadyExists := by
  obtain ⟨d, last⟩ := S
  cases last with
  | name s => exact absurd rfl (hS s)
  | _ => simp [makeDir, h, bind, Except.bind]

/-- A new directory is made where the last step of the path is to a free name. -/
theorem makeDir_eq_ok_iff :
    makeDir site path t = .ok u ↔ ∃ d s, t.slot site path = .ok ⟨d, .name s⟩ ∧
      t.child? d s = .ok none ∧ u = t.insert (s :: d) .dir := by
  constructor
  · intro h
    cases hslot : t.slot site path with
    | error e =>
      rw [makeDir_of_slot_error hslot] at h
      cases h
    | ok S =>
      obtain ⟨d, last⟩ := S
      cases last with
      | name s =>
        rw [makeDir_of_slot hslot] at h
        split at h
        · cases h
        · cases h
        · rename_i hc
          cases h
          exact ⟨d, s, rfl, hc, rfl⟩
      | _ =>
        rw [makeDir_of_not_name hslot (by simp)] at h
        cases h
  · rintro ⟨d, s, hslot, hc, rfl⟩
    rw [makeDir_of_slot hslot, hc]

lemma slot_of_makeDir_noEntry (h : makeDir site path t = .error .noEntry) :
    t.slot site path = .error .noEntry := by
  cases hslot : t.slot site path with
  | error e =>
    rw [makeDir_of_slot_error hslot] at h
    rw [Except.error.inj h]
  | ok S =>
    obtain ⟨d, last⟩ := S
    cases last with
    | name s =>
      rw [makeDir_of_slot hslot] at h
      split at h
      · rename_i e hc
        have hlong := (child?_eq_error_iff.1 hc).2
        exact absurd (hlong.symm.trans (Except.error.inj h)) (by decide)
      · exact absurd (Except.error.inj h) (by decide)
      · cases h
    | _ =>
      rw [makeDir_of_not_name hslot (by simp)] at h
      exact absurd (Except.error.inj h) (by decide)

/-- Nothing is changed but that directories have come in. -/
def Grown (t u : Tree) : Prop :=
  ∀ k, u.at? k = t.at? k ∨ t.at? k = none ∧ u.at? k = some .dir

instance : IsPreorder Tree Grown where
  refl _ _ := .inl rfl
  trans t u v htu huv k := by
    rcases huv k with hv | ⟨hu, hv⟩ <;> rcases htu k with hu' | ⟨ht, hu'⟩
    · exact .inl (hv.trans hu')
    · exact .inr ⟨ht, hv.trans hu'⟩
    · exact .inr ⟨hu'.symm.trans hu, hv⟩
    · rw [hu] at hu'
      cases hu'

lemma Grown.le (h : Grown t u) : t ≤ u := by
  refine le_iff.2 fun k => ?_
  rcases h k with hk | ⟨hk, -⟩
  · exact .inr hk.symm
  · exact .inl hk

lemma grown_makeDir (h : makeDir site path t = .ok u) : Grown t u := by
  obtain ⟨d, s, hslot, hfree, rfl⟩ := makeDir_eq_ok_iff.1 h
  obtain ⟨-, -, -, -, -, -, hd⟩ := leads_of_slot hslot
  have hfree := (child?_eq_ok_iff.1 hfree).2
  intro k
  rw [at?_insert hd]
  split
  · rename_i hk
    exact .inr ⟨hk ▸ hfree, rfl⟩
  · split
    · rename_i hk
      exact .inl (at?_eq_none_of_suffix hk hfree).symm
    · exact .inl rfl

/-- A path leads to a directory with nothing in it. -/
def Fresh (t : Tree) (site : Site) (path : Path) : Prop :=
  ∃ q, t.follow site path = .ok q ∧ t.EmptyDir q

instance : Decidable (t.Fresh site path) :=
  decidable_of_iff (∃ q ∈ (t.follow site path).toOption, t.EmptyDir q) <| by
    unfold Fresh
    cases t.follow site path <;> simp [Except.toOption]

lemma slot_makeDir (h : makeDir site path t = .ok u) :
    ∃ d s, u.slot site path = .ok ⟨d, .name s⟩ ∧ u.child? d s = .ok (some .dir) ∧
      u.EmptyDir (s :: d) := by
  obtain ⟨d, s, hslot, hfree, rfl⟩ := makeDir_eq_ok_iff.1 h
  obtain ⟨hlen, hfree⟩ := child?_eq_ok_iff.1 hfree
  have hempty := emptyDir_insert (n := s) (dir_of_slot hslot)
  exact ⟨d, s, slot_mono (le_insert hfree) hslot, child?_eq_ok_iff.2 ⟨hlen, hempty.1⟩, hempty⟩

theorem fresh_makeDir (h : makeDir site path t = .ok u) : u.Fresh site path := by
  obtain ⟨d, s, hslot, hx, hempty⟩ := slot_makeDir h
  obtain ⟨xs, m, hnames, hs, hc, hm, hd⟩ := leads_of_slot hslot
  have hway := hm.concat hd hs hx (by simp) trivial
  rw [← hnames] at hway
  exact ⟨s :: d, (follow_eq_ok_iff_of_dir hempty.1).2 ⟨hc, m, hway⟩, hempty⟩

lemma isDirAt_outside {o : Path} (ho : path.Outside o) (hne : o.isEmpty = false)
    (hc : check path = .ok ()) (h : t.slot site path = .error .noEntry) :
    t.isDirAt site o = false := by
  rw [Bool.eq_false_iff]
  intro hdir
  obtain ⟨-, q, hlead, hq⟩ := isDirAt_iff.1 hdir
  obtain ⟨dots, s, hnames, hdots, -⟩ := ho.names
  rw [hlead.slot hq hc (ho.isAbsolute hne).symm hdots hnames] at h
  cases h

lemma Fresh.isDirAt_inside {o : Path} (h : t.Fresh site o) (ho : path.Outside o)
    (hne : o.isEmpty = false) (hlast : path.names.getLast? ≠ some dotDot) :
    t.isDirAt site path = false := by
  rw [Bool.eq_false_iff]
  intro hdir
  obtain ⟨q, hq, hempty⟩ := h
  obtain ⟨dots, s, hnames, hdots, hdot⟩ := ho.names
  have hs : s ≠ dot ∧ s ≠ dotDot := by
    constructor
    · intro hs
      rw [hdot hs] at hne
      cases hne
    · rintro rfl
      exact hlast (by simp [hnames])
  have hlead := ((follow_eq_ok_iff_of_dir hempty.1).1 hq).2
  have hslot := hlead.slot hempty.1 (isDirAt_iff.1 hdir).1 (ho.isAbsolute hne).symm hdots hnames
  obtain ⟨d, x, hsame, hx⟩ := slot_of_isDirAt hnames hs hdir
  rw [hslot, Last.ofStep_of_name hs] at hsame
  cases hsame
  rw [child?_eq_ok_iff, hempty.2 s] at hx
  cases hx.2

lemma check_of_slot_noEntry (hne : path.isEmpty = false) (h : t.slot site path = .error .noEntry) :
    check path = .ok () := by
  cases hc : check path with
  | ok => rfl
  | error e =>
    rw [slot_of_check_error hc] at h
    obtain rfl := Except.error.inj h
    exact absurd (ofPath_of_check hne hc) (by decide)

end Tree

namespace Files
variable {t u : Tree} {site : Site} {path : Path} {c : Path} {l : List Path} {e : IoError}

lemma makeDir_of_ok (h : Tree.makeDir site path t = .ok u) : makeDir site path t = .ok () u :=
  FileCall.alter_of_ok h

lemma makeDir_of_error (h : Tree.makeDir site path t = .error e) :
    makeDir site path t = .error e t := FileCall.alter_of_error h

lemma acceptDir_of_not_isDirAt (h : t.isDirAt site path = false) :
    acceptDir site path e t = .error e t := by
  rw [acceptDir, bind_of_ok (m := get) (t := t) rfl, h]
  rfl

lemma makeDir_of_attempt (hnot : t.isDirAt site path = false)
    (h : tryCatch (makeDir site path) (acceptDir site path) t = .ok () u) :
    Tree.makeDir site path t = .ok u := by
  cases hmake : Tree.makeDir site path t with
  | ok v =>
    rw [tryCatch_of_ok (makeDir_of_ok hmake)] at h
    cases h
    rfl
  | error e =>
    rw [tryCatch_of_error (makeDir_of_error hmake), acceptDir_of_not_isDirAt hnot] at h
    cases h

lemma isDirAt_of_acceptDir (h : acceptDir site path e t = .ok () u) :
    u.isDirAt site path = true := by
  rw [acceptDir, bind_of_ok (m := get) (t := t) rfl] at h
  split at h
  · rename_i hdir
    cases h
    exact hdir
  · cases h

lemma isDirAt_of_makeDir (h : makeDir site path t = .ok () u) : u.isDirAt site path = true := by
  cases hmake : Tree.makeDir site path t with
  | error e =>
    rw [makeDir_of_error hmake] at h
    cases h
  | ok v =>
    rw [makeDir_of_ok hmake] at h
    cases h
    obtain ⟨q, hq, hempty⟩ := Tree.fresh_makeDir hmake
    exact Tree.isDirAt_iff.2 ((Tree.follow_eq_ok_iff_of_dir hempty.1).1 hq |>.imp_right
      fun hlead => ⟨q, hlead, hempty.1⟩)

theorem isDirAt_of_makeDirsIn (hne : c.isEmpty = false)
    (h : makeDirsIn site (c :: l) t = .ok () u) : u.isDirAt site c = true := by
  have htry {v : Tree} {handle : IoError → FileCall Unit}
      (hv : tryCatch (makeDir site c) handle v = .ok () u)
      (hhandle : ∀ e w, handle e w = .ok () u → u.isDirAt site c = true) :
      u.isDirAt site c = true := by
    cases hmake : makeDir site c v with
    | ok _ w =>
      rw [tryCatch_of_ok hmake] at hv
      cases hv
      exact isDirAt_of_makeDir hmake
    | error e w =>
      rw [tryCatch_of_error hmake] at hv
      exact hhandle e w hv
  rw [makeDirsIn, if_neg (by simp [hne])] at h
  refine htry h fun e w he => ?_
  split at he
  · obtain ⟨_, v, -, hv⟩ := bind_eq_ok_iff.1 he
    exact htry hv fun _ _ => isDirAt_of_acceptDir
  · exact isDirAt_of_acceptDir he

lemma makeDirs_of_isDirAt {outer : List Bytes} {s : Bytes} (hnames : path.names = outer ++ [s])
    (hs : s ≠ dot ∧ s ≠ dotDot) (h : t.isDirAt site path = true) :
    makeDirs site path t = .ok () t := by
  obtain ⟨d, x, hslot, hx⟩ := Tree.slot_of_isDirAt hnames hs h
  have hmake : Tree.makeDir site path t = .error .alreadyExists := by
    rw [Tree.makeDir_of_slot hslot, hx]
  have hne : path.isEmpty = false := Path.not_isEmpty_of_names (by simp [hnames])
  rw [makeDirs, makeDirsIn, if_neg (by simp [hne]), tryCatch_of_error (makeDir_of_error hmake),
    if_neg (by decide), acceptDir, bind_of_ok (m := get) (t := t) rfl, if_pos h]
  rfl

theorem within_makeDirsIn {R : Tree → Tree → Prop} [IsPreorder Tree R]
    (h : ∀ a ∈ l, a.isEmpty = false → FileCall.Within R (makeDir site a)) :
    FileCall.Within R (makeDirsIn site l) := by
  have haccept (path : Path) (e : IoError) : FileCall.Within R (acceptDir site path e) := by
    refine .look fun t => ?_
    split
    · exact .pure ()
    · exact .throw e
  induction l with
  | nil => exact .throw _
  | cons path l ih =>
    rw [makeDirsIn]
    split
    · exact .pure ()
    · rename_i hne
      have hmake := h path (.head l) (by simpa using hne)
      refine .tryCatch hmake fun e => ?_
      split
      · exact .bind (ih fun a ha => h a (.tail path ha)) fun _ => .tryCatch hmake (haccept path)
      · exact haccept path e

lemma grown_makeDirsIn (h : makeDirsIn site l t = .ok () u) : Tree.Grown t u := by
  have hwithin : FileCall.Within Tree.Grown (makeDirsIn site l) :=
    within_makeDirsIn fun _ _ _ => .alter fun _ _ h => Tree.grown_makeDir h
  have hgrown := hwithin t
  rwa [h] at hgrown

lemma makeDirsIn_cons_ok (hne : c.isEmpty = false) (hnot : t.isDirAt site c = false)
    (h : makeDirsIn site (c :: l) t = .ok () u) :
    Tree.makeDir site c t = .ok u ∨
      t.slot site c = .error .noEntry ∧ ∃ v, makeDirsIn site l t = .ok () v ∧
        tryCatch (makeDir site c) (acceptDir site c) v = .ok () u := by
  rw [makeDirsIn, if_neg (by simp [hne])] at h
  cases hmake : Tree.makeDir site c t with
  | ok v =>
    rw [tryCatch_of_ok (makeDir_of_ok hmake)] at h
    cases h
    exact .inl rfl
  | error e =>
    rw [tryCatch_of_error (makeDir_of_error hmake)] at h
    split at h
    · rename_i he
      obtain ⟨_, v, hv, h⟩ := bind_eq_ok_iff.1 h
      exact .inr ⟨Tree.slot_of_makeDir_noEntry (he ▸ hmake), v, hv, h⟩
    · rw [acceptDir_of_not_isDirAt hnot] at h
      cases h

/-- The steps outwards on the paths lead to directories already. -/
def Backed (t : Tree) (site : Site) (paths : List Path) : Prop :=
  ∀ path ∈ paths, path.names.getLast? = some dotDot → t.LeadsToDir site path

/-- Nothing is asked where no step is outwards but those to a directory that is there. -/
theorem backed_ancestors {dir base : Path} (hdir : dir.Ordinary)
    (h : dotDot ∈ base.names → t.LeadsToDir site base) :
    Backed t site (base.join dir).ancestors := by
  obtain ⟨outer, s, -, hends⟩ := hdir.endsIn
  intro a ha hlast
  obtain ⟨hfront, habs⟩ := Path.prefix_of_chain (hends base).chain_ancestors a ha
  have hmem : dotDot ∈ a.names := List.mem_of_getLast? hlast
  -- the names of `dir` are no steps outwards, so the path ends within `base`
  have hbase : a.names <+: base.names := by
    rw [Path.names_join hdir.not_isAbsolute] at hfront
    rcases List.prefix_or_prefix_of_prefix hfront (List.prefix_append _ _) with h | ⟨zs, hzs⟩
    · exact h
    · rcases zs.eq_nil_or_concat with rfl | ⟨zs, z, rfl⟩
      · simp [← hzs]
      · rw [List.concat_eq_append, ← List.append_assoc] at hzs
        rw [← hzs, List.getLast?_concat, Option.some.injEq] at hlast
        rw [← hzs, List.append_assoc, List.prefix_append_right_inj] at hfront
        have hz : z ∈ dir.names := hfront.subset (by simp)
        exact absurd hlast (hdir.isName_of_mem hz).2.2
  obtain ⟨zs, hzs⟩ := hbase
  obtain ⟨q, ⟨m, hm⟩, hq⟩ := h (hzs ▸ List.mem_append_left zs hmem)
  rw [← hzs] at hm
  obtain ⟨r, l, hr, hrest⟩ := hm.split
  have hne : a.isEmpty = false := Path.not_isEmpty_of_names (List.ne_nil_of_mem hmem)
  refine ⟨r, ⟨l, ?_⟩, hrest.start_dir hq⟩
  rw [Tree.startOf, habs hne, Path.isAbsolute_join hdir.not_isAbsolute]
  exact hr

/-- Paths each next outside the one before: the first has led to no directory, so one is made there
last of all. -/
theorem exists_makeDir_of_makeDirsIn (hl : List.IsChain Path.Outside (c :: l))
    (hne : c.isEmpty = false) (hnot : t.isDirAt site c = false) (hback : Backed t site (c :: l))
    (h : makeDirsIn site (c :: l) t = .ok () u) : ∃ v, Tree.makeDir site c v = .ok u := by
  induction l generalizing c u with
  | nil =>
    rcases makeDirsIn_cons_ok hne hnot h with hmake | ⟨-, v, hv, -⟩
    · exact ⟨t, hmake⟩
    · cases hv
  | cons o l ih =>
    rcases makeDirsIn_cons_ok hne hnot h with hmake | ⟨hslot, v, hv, h⟩
    · exact ⟨t, hmake⟩
    · obtain ⟨hout, hl⟩ := List.isChain_cons_cons.1 hl
      have hc := Tree.check_of_slot_noEntry hne hslot
      cases hoempty : o.isEmpty with
      | true =>
        -- nothing is outside, so the second attempt ends as the first
        rw [makeDirsIn, if_pos hoempty] at hv
        cases hv
        exact ⟨t, makeDir_of_attempt hnot h⟩
      | false =>
        have hnoto := Tree.isDirAt_outside hout hoempty hc hslot
        obtain ⟨w, hw⟩ := ih hl hoempty hnoto (fun a ha => hback a (.tail c ha)) hv
        have hlast : c.names.getLast? ≠ some dotDot := by
          intro hlast
          rw [Tree.isDirAt_iff.2 ⟨hc, hback c (.head _) hlast⟩] at hnot
          cases hnot
        have hfree := (Tree.fresh_makeDir hw).isDirAt_inside hout hoempty hlast
        exact ⟨v, makeDir_of_attempt hfree h⟩

theorem exists_makeDir {outer : List Bytes} {s : Bytes} (h : path.EndsIn outer s)
    (hgone : t.locate site path = .error .noEntry) (hback : Backed t site path.ancestors)
    (hmake : makeDirs site path t = .ok () u) : ∃ v, Tree.makeDir site path v = .ok u := by
  refine exists_makeDir_of_makeDirsIn h.chain_ancestors h.not_isEmpty
    (Tree.isDirAt_of_locate_error h hgone) (fun a ha hlast => ?_) hmake
  rcases List.mem_cons.1 ha with rfl | ha
  · rw [h.names, List.getLast?_concat, Option.some.injEq] at hlast
    exact absurd hlast h.isName.2.2
  · exact hback a ha hlast

end Files
end FirmwareTasks
