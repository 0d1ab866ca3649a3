import FirmwareTasks.Proofs.Files.Descent
/-!
File calls on two trees at once. Where two trees differ only in what is to be removed, its removal
leaves no difference; where they differ only off the way, directories are made in both alike.
-/
namespace FirmwareTasks
open EStateM
open FirmwareTasks.Path (dot dotDot)
open FirmwareTasks.Tree (below)

variable {t u t' u' : Tree} {K : Place → Prop} {site : Site} {path c : Path} {d q : Place}
  {s : Bytes} {outer : List Bytes} {l : List Path} {e : IoError} {α β : Type}

namespace Tree

lemma AgreeOn.eq (h : AgreeOn K t u) (hK : ∀ k, K k) : t = u := ext_at? fun k => h k (hK k)

/-- What is left where a place has been cleaned: nothing, or an empty directory. -/
structure Emptied (q : Place) (t u : Tree) : Prop where
  frame : ∀ k, ¬q <:+ k → u.at? k = t.at? k
  inside : ∀ k, q <:+ k → u.at? k = none ∨ k = q ∧ u.at? k = some .dir

lemma emptied_without (t : Tree) (site : Site) (path : Path) (s : Bytes) (d : Place) :
    Emptied (s :: d) t (t.without site path (s :: d)) where
  frame k hk := at?_without hk
  inside k hk := by
    by_cases hne : s :: d = k
    · subst hne
      unfold without
      split
      · rename_i h
        exact .inr ⟨rfl, by simp [h.1]⟩
      · exact .inl (by simp)
    · exact .inl (at?_without_inside hk hne)

/-- Cleaning a place leaves trees that agree on the way there in agreement, and the place alike. -/
theorem without_agree (h : t.Aims site K path d s) (htu : AgreeOn K t u)
    (hK : ∀ k, K k → (s :: d) <:+ k → t.at? k = some .dir) {S : Slot}
    (hslot : t.slot site path = .ok S) :
    AgreeOn (fun k => K k ∨ (s :: d) <:+ k) (t.without site path (s :: d))
      (u.without site path (s :: d)) := by
  intro k hk
  by_cases hin : (s :: d) <:+ k
  · by_cases hne : s :: d = k
    · subst hne
      -- a way through the place itself is there in both trees, and broken in both
      by_cases hthrough : ∃ k, K k ∧ (s :: d) <:+ k
      · obtain ⟨k, hk, hin⟩ := hthrough
        have hdir {v : Tree} (hv : v.at? k = some .dir) : v.at? (s :: d) = some .dir := by
          obtain ⟨r, rfl⟩ := hin
          cases r with
          | nil => exact hv
          | cons m r => exact at?_eq_dir_of_append (by simp) hv
        have ht := hdir (hK k hk hin)
        have hu := hdir ((htu k hk).symm.trans (hK k hk hin))
        have hclear : AgreeOn K (t.clear (s :: d)) (u.clear (s :: d)) := by
          intro k hk
          rw [at?_clear', at?_clear', htu k hk]
        have haims : (t.clear (s :: d)).Aims site K path d s := by
          obtain ⟨outer, m, hnames, hm⟩ := h
          refine ⟨outer, m, hnames, hm.change (fun _ hk => hk) fun k hk => ?_⟩
          rw [at?_clear']
          split
          · rename_i hin
            exact .inr ⟨by simp [hK k hk hin.1], by simp⟩
          · exact .inl rfl
        have hsame := haims.slot_congr hclear
        simp only [without, ht, hu, true_and, hsame]
        split <;> simp [ht, hu]
      · have hkeep (v : Tree) : AgreeOn K v (v.clear (s :: d)) := by
          intro k hk
          rw [at?_clear', if_neg]
          exact fun hin => hthrough ⟨k, hk, hin.1⟩
        have ht := (h.slot_congr (hkeep t)).symm.trans hslot
        have hu := ((h.congr htu).slot_congr (hkeep u)).symm.trans
          ((h.slot_congr htu).symm.trans hslot)
        simp [without, ht, hu]
    · rw [at?_without_inside hin hne, at?_without_inside hin hne]
  · rw [at?_without hin, at?_without hin]
    exact htu k (hk.resolve_right hin)

/-- A directory is made in both trees, in the same directory, or refused in both. -/
theorem PathHeads.makeDir_alike (h : t.PathHeads site K c q) (htu : AgreeOn K t u) :
    (∃ e, makeDir site c t = .error e ∧ makeDir site c u = .error e) ∨
    ∃ n p, t.at? p = some .dir ∧ u.at? p = some .dir ∧
      makeDir site c t = .ok (t.insert (n :: p) .dir) ∧
      makeDir site c u = .ok (u.insert (n :: p) .dir) := by
  obtain ⟨m, hm⟩ := h
  rcases c.names.eq_nil_or_concat with hnil | ⟨outer, x, hnames⟩
  · have hslot (v : Tree) : v.slot site c = (check c).map fun _ => ⟨[], .root⟩ :=
      slot_of_names_nil hnil
    cases hc : check c with
    | error e =>
      simp only [hc, Except.map] at hslot
      exact .inl ⟨e, makeDir_of_slot_error (hslot t), makeDir_of_slot_error (hslot u)⟩
    | ok =>
      simp only [hc, Except.map] at hslot
      exact .inl ⟨_, makeDir_of_not_name (hslot t) (by simp),
        makeDir_of_not_name (hslot u) (by simp)⟩
  · rw [List.concat_eq_append] at hnames
    rw [hnames] at hm
    obtain ⟨d, l, hd, hlast⟩ := hm.split
    have haims : t.Aims site K c d x := ⟨outer, l, hnames, hd⟩
    have hsame := haims.slot_congr htu
    cases hslot : t.slot site c with
    | error e =>
      exact .inl ⟨e, makeDir_of_slot_error hslot, makeDir_of_slot_error (hsame ▸ hslot)⟩
    | ok S =>
      obtain rfl := haims.eq_of_slot hslot
      by_cases hx : x ≠ dot ∧ x ≠ dotDot
      · have hk : K (x :: d) := by
          cases hlast with
          | here => exact absurd rfl hx.1
          | outside => exact absurd rfl hx.2
          | name _ _ _ rest => exact rest.start
          | link _ _ hk => exact hk
        have hchild : t.child? d x = u.child? d x := by rw [child?, child?, htu _ hk]
        have hdir {v : Tree} (hv : v.slot site c = .ok ⟨d, .ofStep x⟩) : v.at? d = some .dir :=
          ((slot_eq_ok_iff hnames).1 hv).2.2.2
        have ht := hdir hslot
        have hu := hdir (hsame ▸ hslot)
        rw [Last.ofStep_of_name hx] at hslot
        rw [makeDir_of_slot hslot, makeDir_of_slot (hsame ▸ hslot), ← hchild]
        split
        · exact .inl ⟨_, rfl, rfl⟩
        · exact .inl ⟨_, rfl, rfl⟩
        · exact .inr ⟨x, d, ht, hu, rfl, rfl⟩
      · have hnot : ∀ n, Last.ofStep x ≠ .name n := fun n hn =>
          hx (Last.ofStep_eq_name_iff.1 hn).2
        exact .inl ⟨_, makeDir_of_not_name hslot hnot, makeDir_of_not_name (hsame ▸ hslot) hnot⟩

lemma PathHeads.grown (h : t.PathHeads site K path q) (htu : Grown t u) :
    u.PathHeads site K path q := by
  obtain ⟨m, hm⟩ := h
  refine ⟨m, hm.change (fun _ hk => hk) fun k _ => ?_⟩
  rcases htu k with hsame | ⟨ht, hu⟩
  · exact .inl hsame
  · exact .inr ⟨by simp [ht], by simp [hu]⟩

lemma PathHeads.outside {o : Path} (h : t.PathHeads site K path q) (ho : path.Outside o)
    (hne : o.isEmpty = false) : ∃ r, t.PathHeads site K o r := by
  obtain ⟨m, hm⟩ := h
  obtain ⟨dots, s, hnames, -⟩ := ho.names
  rw [hnames, List.append_assoc, startOf, ← ho.isAbsolute hne] at hm
  obtain ⟨r, l, hr, -⟩ := hm.split
  exact ⟨r, l, hr⟩

/-- What is left where a place has been cleaned and directories have been made. -/
structure Remade (q : Place) (t u : Tree) : Prop where
  frame : ∀ k, ¬q <:+ k → u.at? k = t.at? k ∨ t.at? k = none ∧ u.at? k = some .dir
  inside : ∀ k, q <:+ k → u.at? k = none ∨ u.at? k = some .dir

lemma Emptied.remade {v : Tree} (h : Emptied q t u) (huv : Grown u v) : Remade q t v where
  frame k hk := by
    rw [← h.frame k hk]
    exact huv k
  inside k hk := by
    rcases huv k with hsame | ⟨-, hdir⟩
    · rw [hsame]
      exact (h.inside k hk).imp_right And.right
    · exact .inr hdir

lemma Remade.pathHeads (h : Remade q t u) (hbase : t.PathHeads site K path d)
    (hK : ∀ k, K k → q <:+ k → t.at? k = some .dir) :
    u.PathHeads site (fun k => K k ∨ q <:+ k) path d := by
  obtain ⟨m, hm⟩ := hbase
  refine ⟨m, hm.change (fun _ hk => .inl hk) fun k hk => ?_⟩
  by_cases hin : q <:+ k
  · have hlinks : ∀ target, u.at? k ≠ some (.link target) := by
      rcases h.inside k hin with hnone | hdir
      · simp [hnone]
      · simp [hdir]
    exact .inr ⟨by simp [hK k hk hin], hlinks⟩
  · rcases h.frame k hin with hsame | ⟨hnone, hdir⟩
    · exact .inl hsame
    · exact .inr ⟨by simp [hnone], by simp [hdir]⟩

end Tree

namespace Files

lemma removeIfThere_of_slot_error (h : path.EndsIn outer s) (hslot : t.slot site path = .error e) :
    removeIfThere site path t = if e = .noEntry then .ok false t else .error e t := by
  rw [removeIfThere_eq site h, Tree.locate_of_slot_error h.noSlash hslot]

lemma removeIfThere_of_check_error (h : path.EndsIn outer s) (hc : Tree.check path = .error e) :
    removeIfThere site path t = .error e t := by
  have he := Tree.ofPath_of_check h.not_isEmpty hc
  rw [removeIfThere_of_slot_error h (Tree.slot_of_check_error hc), if_neg]
  rintro rfl
  exact absurd he (by decide)

lemma removeIfThere_of_slot (h : path.EndsIn outer s)
    (hslot : t.slot site path = .ok ⟨d, .name s⟩) (hlen : s.length ≤ Tree.nameLimit) :
    ∃ b, removeIfThere site path t = .ok b (t.without site path (s :: d)) := by
  rw [removeIfThere_eq site h, Tree.locate_of_slot h.noSlash hslot,
    (Tree.child?_eq_ok_iff (o := t.at? (s :: d))).2 ⟨hlen, rfl⟩]
  cases hx : t.at? (s :: d) with
  | some x => exact ⟨true, rfl⟩
  | none =>
    have hsame : t.without site path (s :: d) = t := by
      refine Tree.ext_at? fun k => ?_
      by_cases hin : (s :: d) <:+ k
      · have hgone := Tree.without_le t site path s d
        rw [Tree.at?_eq_none_of_suffix hin hx]
        rcases Tree.le_iff.1 hgone k with hnone | hsame
        · exact hnone
        · rw [hsame, Tree.at?_eq_none_of_suffix hin hx]
      · exact Tree.at?_without hin
    exact ⟨false, by rw [hsame]; rfl⟩

lemma removeIfThere_of_long (h : path.EndsIn outer s)
    (hslot : t.slot site path = .ok ⟨d, .name s⟩) (hlen : Tree.nameLimit < s.length) :
    removeIfThere site path t = .error .nameTooLong t := by
  have hlong : t.child? d s = .error .nameTooLong := Tree.child?_eq_error_iff.2 ⟨hlen, rfl⟩
  rw [removeIfThere_eq site h, Tree.locate_of_slot h.noSlash hslot, hlong]
  rfl

/-- How a place is cleaned in two trees: it is refused for how its path is written, or in both for
another reason, or it is done in both; but in the first case no difference is left there. -/
inductive CleanedAlike (K : Place → Prop) (q : Place) (t u : Tree) :
    Result IoError Tree Bool → Result IoError Tree Bool → Prop
  | ofPath {e : IoError} (he : e.OfPath) : CleanedAlike K q t u (.error e t) (.error e u)
  | refused {e : IoError} (h : Tree.AgreeOn (fun k => K k ∨ q <:+ k) t u) :
      CleanedAlike K q t u (.error e t) (.error e u)
  | done {b c : Bool} {t' u' : Tree} (h : Tree.AgreeOn (fun k => K k ∨ q <:+ k) t' u')
      (ht : Tree.Emptied q t t') (hu : Tree.Emptied q u u') :
      CleanedAlike K q t u (.ok b t') (.ok c u')

theorem removeIfThere_alike (hends : path.EndsIn outer s) (h : t.Aims site K path d s)
    (htu : Tree.AgreeOn K t u) (hK : ∀ k, K k → (s :: d) <:+ k → t.at? k = some .dir)
    (hmiss : ∀ e, t.slot site path = .error e →
      e.OfPath ∨ t.at? (s :: d) = none ∧ u.at? (s :: d) = none) :
    CleanedAlike K (s :: d) t u (removeIfThere site path t) (removeIfThere site path u) := by
  have hsame := h.slot_congr htu
  cases hslot : t.slot site path with
  | error e =>
    rw [removeIfThere_of_slot_error hends hslot, removeIfThere_of_slot_error hends (hsame ▸ hslot)]
    rcases hmiss e hslot with he | ⟨ht, hu⟩
    · rw [if_neg (by rintro rfl; revert he; decide), if_neg (by rintro rfl; revert he; decide)]
      exact .ofPath he
    · have hagree : Tree.AgreeOn (fun k => K k ∨ (s :: d) <:+ k) t u := by
        rintro k (hk | hk)
        · exact htu k hk
        · rw [Tree.at?_eq_none_of_suffix hk ht, Tree.at?_eq_none_of_suffix hk hu]
      split
      · exact .done hagree
          ⟨fun _ _ => rfl, fun k hk => .inl (Tree.at?_eq_none_of_suffix hk ht)⟩
          ⟨fun _ _ => rfl, fun k hk => .inl (Tree.at?_eq_none_of_suffix hk hu)⟩
      · exact .refused hagree
  | ok S =>
    obtain rfl := h.eq_of_slot hslot
    have hagree := Tree.without_agree h htu hK hslot
    rw [Tree.Last.ofStep_of_name hends.isName.2] at hslot
    -- a name that is too long is refused before anything is looked for
    by_cases hlen : s.length ≤ Tree.nameLimit
    · obtain ⟨b, ht⟩ := removeIfThere_of_slot hends hslot hlen
      obtain ⟨c, hu⟩ := removeIfThere_of_slot hends (hsame ▸ hslot) hlen
      rw [ht, hu]
      exact .done hagree (t.emptied_without site path s d) (u.emptied_without site path s d)
    · have hlong := Nat.not_le.1 hlen
      rw [removeIfThere_of_long hends hslot hlong,
        removeIfThere_of_long hends (hsame ▸ hslot) hlong]
      exact .ofPath (.inr rfl)

/-- What a directory in another is to be cleaned of makes no difference afterwards, if the way there
is the same in both trees. -/
theorem removeIfThere_join_alike {base dir : Path} {R : Place} (hdir : dir.Ordinary)
    (hbase : t.PathLeads site K base R) (htu : Tree.AgreeOn K t u)
    (hway : ∀ ys, ys <+: dir.names → ys ≠ dir.names →
      K (below R ys) ∧ ∀ target, t.at? (below R ys) ≠ some (.link target))
    (hK : ∀ k, K k → below R dir.names <:+ k → t.at? k = some .dir) :
    CleanedAlike K (below R dir.names) t u (removeIfThere site (base.join dir) t)
      (removeIfThere site (base.join dir) u) := by
  obtain ⟨outer, s, hnames, hends⟩ := hdir.endsIn
  have hcont := Tree.Continues.of_join hdir base
  have hin (ys : List Bytes) (hys : ys <+: outer) : ys <+: dir.names ∧ ys ≠ dir.names := by
    rw [hnames]
    exact ⟨hys.trans (List.prefix_append _ _), Tree.ne_concat_of_isPrefix hys s⟩
  have hno {v : Tree} (hv : Tree.AgreeOn K t v) : v.NoLinks R outer := by
    intro ys hys target
    obtain ⟨hk, hl⟩ := hway ys (hin ys hys).1 (hin ys hys).2
    rw [← hv _ hk]
    exact hl target
  have hu : u.PathLeads site K base R := hbase.imp fun _ h => h.congr htu
  have hheads : t.PathHeads site K base R := hbase.imp fun _ h => h.heads
  rw [hnames] at hcont hK ⊢
  rw [Tree.below_concat] at hK ⊢
  have haims := hcont.aims hheads (hno fun _ _ => rfl)
    fun ys hys => (hway ys (hin ys hys).1 (hin ys hys).2).1
  refine removeIfThere_alike (hends base) haims htu hK fun e hslot => ?_
  have ht := hcont.at?_of_slot_error hbase (hno fun _ _ => rfl) hslot
  have hslot' := (haims.slot_congr htu).symm.trans hslot
  have hu' := hcont.at?_of_slot_error hu (hno htu) hslot'
  tauto

/-- Two calls end alike, in trees that agree. -/
inductive EndAlike (K : Place → Prop) : Result IoError Tree Unit → Result IoError Tree Unit → Prop
  | ok {t u : Tree} (h : Tree.AgreeOn K t u) : EndAlike K (.ok () t) (.ok () u)
  | error {e : IoError} {t u : Tree} (h : Tree.AgreeOn K t u) : EndAlike K (.error e t) (.error e u)

namespace EndAlike
variable {m : FileCall Unit}

lemma bind {f : Unit → FileCall Unit} (h : EndAlike K (m t) (m u))
    (hf : ∀ t' u', m t = .ok () t' → Tree.AgreeOn K t' u' → EndAlike K (f () t') (f () u')) :
    EndAlike K ((m >>= f) t) ((m >>= f) u) := by
  cases ht : m t <;> cases hu : m u <;> rw [ht, hu] at h <;> cases h
  · rename_i htu
    rw [bind_of_ok ht, bind_of_ok hu]
    exact hf _ _ ht htu
  · rename_i htu
    rw [bind_of_error ht, bind_of_error hu]
    exact .error htu

lemma tryCatch {handle : IoError → FileCall Unit} (h : EndAlike K (m t) (m u))
    (hh : ∀ e t' u', m t = .error e t' → m u = .error e u' → Tree.AgreeOn K t' u' →
      EndAlike K (handle e t') (handle e u')) :
    EndAlike K (tryCatch m handle t) (tryCatch m handle u) := by
  cases ht : m t <;> cases hu : m u <;> rw [ht, hu] at h <;> cases h
  · rename_i htu
    rw [tryCatch_of_ok ht, tryCatch_of_ok hu]
    exact .ok htu
  · rename_i htu
    rw [tryCatch_of_error ht, tryCatch_of_error hu]
    exact hh _ _ _ ht hu htu

end EndAlike

lemma makeDir_alike (h : t.PathHeads site K c q) (htu : Tree.AgreeOn K t u) :
    EndAlike K (makeDir site c t) (makeDir site c u) := by
  rcases h.makeDir_alike htu with ⟨e, ht, hu⟩ | ⟨n, p, htp, hup, ht, hu⟩
  · rw [makeDir_of_error ht, makeDir_of_error hu]
    exact .error htu
  · rw [makeDir_of_ok ht, makeDir_of_ok hu]
    refine .ok fun k hk => ?_
    rw [Tree.at?_insert htp, Tree.at?_insert hup, htu k hk]

lemma acceptDir_alike (h : t.PathHeads site K c q) (htu : Tree.AgreeOn K t u) (e : IoError) :
    EndAlike K (acceptDir site c e t) (acceptDir site c e u) := by
  rw [acceptDir, bind_of_ok (m := get) (t := t) rfl, bind_of_ok (m := get) (t := u) rfl,
    ← h.isDirAt_congr htu]
  split
  · exact .ok htu
  · exact .error htu

lemma makeDirsIn_cons_alike (h : t.PathHeads site K c q) (htu : Tree.AgreeOn K t u)
    (hrest : EndAlike K (makeDirsIn site l t) (makeDirsIn site l u)) :
    EndAlike K (makeDirsIn site (c :: l) t) (makeDirsIn site (c :: l) u) := by
  rw [makeDirsIn]
  split
  · exact .ok htu
  · refine .tryCatch (makeDir_alike h htu) fun e t' u' ht hu htu' => ?_
    obtain rfl := FileCall.eq_of_alter_error ht
    obtain rfl := FileCall.eq_of_alter_error hu
    split
    · refine .bind hrest fun v w hv hvw => ?_
      have hgrown := grown_makeDirsIn hv
      refine .tryCatch (makeDir_alike (h.grown hgrown) hvw) fun e v' w' hv _ hvw' => ?_
      obtain rfl := FileCall.eq_of_alter_error hv
      exact acceptDir_alike (h.grown hgrown) hvw' e
    · exact acceptDir_alike h htu' e

theorem makeDirsIn_alike (hl : List.IsChain Path.Outside (c :: l))
    (h : t.PathHeads site K c q) (htu : Tree.AgreeOn K t u) :
    EndAlike K (makeDirsIn site (c :: l) t) (makeDirsIn site (c :: l) u) := by
  induction l generalizing c q with
  | nil => exact makeDirsIn_cons_alike h htu (.error htu)
  | cons o l ih =>
    obtain ⟨ho, hl⟩ := List.isChain_cons_cons.1 hl
    refine makeDirsIn_cons_alike h htu ?_
    cases hne : o.isEmpty with
    | true =>
      rw [makeDirsIn, if_pos hne]
      exact .ok htu
    | false =>
      obtain ⟨r, hr⟩ := h.outside ho hne
      exact ih hl hr

end Files
end FirmwareTasks
