import FirmwareTasks.Proofs.Files.Extending
/-!
How much a copy makes. Whatever comes in is where a path of the copy leads: that of the target, one
outside it, or that of something in the directory that is copied. A copy that puts nothing into what
it copies goes in no further than that does.
-/
namespace FirmwareTasks
open EStateM
open FirmwareTasks.Path (IsName slash)

namespace Tree
variable {t u v : Tree} {site : Site} {dst a : Path} {q k d p : Place} {n s : Bytes} {c : Bytes}
  {x : Bool}

/-- The paths at which a copy makes something: that of the target, those outside it, and those of
what is in the directory that is copied. -/
def CopyPath (t : Tree) (q : Place) (dst a : Path) : Prop :=
  a ∈ dst :: dst.ancestors ∨ ∃ r ≠ [], (t.at? (r ++ q)).isSome ∧ a = dst.inside r

lemma CopyPath.extend (h : t.CopyPath q dst a) (htu : Extends t u) : u.CopyPath q dst a := by
  rcases h with h | ⟨r, hr, hsome, ha⟩
  · exact .inl h
  · exact .inr ⟨r, hr, htu.isSome hsome, ha⟩

/-- Whatever has come in is where a path of a copy leads. -/
structure Gains (site : Site) (q : Place) (dst : Path) (t u : Tree) : Prop extends
    Extends t u where
  named : ∀ k, t.at? k = none → (u.at? k).isSome →
    ∃ a, u.CopyPath q dst a ∧ u.follow site a = .ok k

instance : IsPreorder Tree (Gains site q dst) where
  refl t := ⟨refl_of Extends t, fun _ hnone hsome => by simp [hnone] at hsome⟩
  trans t u v htu huv := by
    refine ⟨trans_of Extends htu.toExtends huv.toExtends, fun k hnone hsome => ?_⟩
    cases hk : u.at? k with
    | none => exact huv.named k hk hsome
    | some e =>
      obtain ⟨a, ha, hlead⟩ := htu.named k hnone (by simp [hk])
      exact ⟨a, ha.extend huv.toExtends, huv.follow hlead⟩

lemma gains_makeDir (ha : t.CopyPath q dst a) (h : makeDir site a t = .ok u) :
    Gains site q dst t u := by
  obtain ⟨d, s, hslot, hc, rfl⟩ := makeDir_eq_ok_iff.1 h
  obtain ⟨hlen, hfree⟩ := child?_eq_ok_iff.1 hc
  obtain ⟨xs, m, hnames, hs, hcheck, hm, hd⟩ := leads_of_slot hslot
  have hmem : s ∈ a.names := by simp [hnames]
  have hfilled : Filled (s :: d) .dir t (t.insert (s :: d) .dir) :=
    filled_insert hd (by simp [hfree])
  have hext : Extends t (t.insert (s :: d) .dir) := by
    refine hfilled.extends (fun old hold => ?_) fun _ => ?_
    · rw [hfree] at hold
      cases hold
    · exact ⟨⟨(Path.mem_names.1 hmem).2, hs⟩, Path.slash_not_mem_of_mem_names hmem⟩
  refine ⟨hext, fun k hnone hsome => ⟨a, ha.extend hext, ?_⟩⟩
  obtain rfl : k = s :: d := by
    by_contra hne
    rw [hfilled, if_neg hne, hnone] at hsome
    cases hsome
  have hnear := (hext.approaches (Approaches.of_slot hslot)).advance [s] (by simpa using hlen)
    (by rw [below_cons, below_nil, hfilled, if_pos rfl])
  exact hnear.follow_of_dir hcheck

lemma Approaches.inside {src : Path} {D r : Place} {ws : List Bytes}
    (h : t.Approaches site src D ws) (hr : ∀ n ∈ r, IsName n ∧ slash ∉ n) :
    t.Approaches site (src.inside r) D (ws ++ r.reverse) := by
  induction r with
  | nil =>
    rw [List.reverse_nil, List.append_nil]
    exact h
  | cons n r ih =>
    obtain ⟨hn, hr⟩ := List.forall_mem_cons.1 hr
    rw [List.reverse_cons, ← List.append_assoc]
    exact (ih hr).join hn

lemma Filled.gains (h : Filled k (.file c x) t u) (hk : t.writable site a = .ok k)
    (ha : t.CopyPath q dst a) : Gains site q dst t u := by
  obtain ⟨n, p, rfl, -, hn, hway, hlead⟩ := writable_eq_ok hk
  have hext : Extends t u := h.extends (fun old hold => ⟨hway old hold, c, x, rfl⟩) hn
  refine ⟨hext, fun k hnone hsome => ⟨a, ha.extend hext, ?_⟩⟩
  obtain rfl : k = n :: p := by
    by_contra hne
    rw [h, if_neg hne, hnone] at hsome
    cases hsome
  exact hlead u c x hext (by rw [h, if_pos rfl])

end Tree

namespace Files
open FirmwareTasks.Tree (Approaches Extends Filled Fits Gains)
variable {t u v : Tree} {site : Site} {src dst a : Path} {q : Place} {n : Bytes} {e : IoError}

@[simp] lemma state_acceptDir (site : Site) (a : Path) (e : IoError) (t : Tree) :
    (acceptDir site a e t).state = t := by
  rw [acceptDir, bind_of_ok (m := get) (t := t) rfl]
  split <;> rfl

lemma makeDirs_join_cases (hn : IsName n ∧ slash ∉ n)
    (h : a.isEmpty = true ∨ t.isDirAt site a = true) :
    (makeDirs site (a.join ⟨n⟩) t).state = t ∨
      Tree.makeDir site (a.join ⟨n⟩) t = .ok (makeDirs site (a.join ⟨n⟩) t).state := by
  have hne : (a.join ⟨n⟩).isEmpty = false := (Path.endsIn_join_mk hn.1 hn.2 a).not_isEmpty
  rw [makeDirs, makeDirsIn, if_neg (by simp [hne])]
  cases hmake : Tree.makeDir site (a.join ⟨n⟩) t with
  | ok u =>
    rw [tryCatch_of_ok (makeDir_of_ok hmake)]
    exact .inr rfl
  | error e =>
    refine .inl ?_
    rw [tryCatch_of_error (makeDir_of_error hmake)]
    split
    · rename_i he
      subst he
      have hslot := Tree.slot_of_makeDir_noEntry hmake
      rcases h with hempty | hdir
      · obtain rfl := Path.isEmpty_iff.1 hempty
        rw [Path.empty_join] at hmake ⊢
        have houter : makeDirsIn site (⟨n⟩ : Path).ancestors t = .ok () t := by
          rw [Path.ancestors_mk hn.1 hn.2]
          rfl
        rw [bind_of_ok houter, tryCatch_of_error (makeDir_of_error hmake), state_acceptDir]
      · obtain ⟨-, p, hlead, hp⟩ := Tree.isDirAt_iff.1 hdir
        have hcheck := Tree.check_of_slot_noEntry hne hslot
        have habs := (Path.ordinary_mk hn.1 hn.2).not_isAbsolute
        have hnames : (a.join ⟨n⟩).names = a.names ++ [] ++ [n] := by
          rw [Path.names_join habs, Path.names_mk hn.1 hn.2, List.append_nil]
        rw [hlead.slot hp hcheck (Path.isAbsolute_join habs) (by simp) hnames] at hslot
        cases hslot
    · exact state_acceptDir site _ e t

lemma copyFile_cases (site : Site) (src a : Path) (t : Tree) :
    (copyFile site src a t).state = t ∨
      ∃ k c x, t.writable site a = .ok k ∧
        Filled k (.file c x) t (copyFile site src a t).state := by
  cases hk : t.follow site src with
  | error e =>
    rw [copyFile, bind_of_error (FileCall.ask_of_error hk)]
    exact .inl rfl
  | ok p =>
    rw [copyFile, bind_of_ok (FileCall.ask_of_ok hk), bind_of_ok (m := get) (t := t) rfl]
    cases hat : t.at? p with
    | none => exact .inl rfl
    | some e =>
      cases e with
      | dir | link => exact .inl rfl
      | file c x =>
        dsimp only
        cases hwrite : t.writable site a with
        | error e =>
          rw [truncate, bind_of_error (bind_of_error (FileCall.ask_of_error hwrite) _)]
          exact .inl rfl
        | ok k =>
          obtain ⟨n, d, rfl, hd, -, hway, -⟩ := Tree.writable_eq_ok hwrite
          have hdir : t.at? (n :: d) ≠ some .dir := fun hdir => by cases hway _ hdir
          have hopened := Tree.filled_insert (e := .file [] (t.bitAt (n :: d) x)) hd hdir
          have hopen : truncate site a x t = .ok (n :: d)
              (t.insert (n :: d) (.file [] (t.bitAt (n :: d) x))) := by
            rw [truncate, bind_of_ok (FileCall.ask_of_ok hwrite)]
            rfl
          obtain ⟨c', x', hat'⟩ : ∃ c' x',
              (t.insert (n :: d) (.file [] (t.bitAt (n :: d) x))).at? p =
                some (.file c' x') := by
            rw [hopened p]
            split
            · exact ⟨_, _, rfl⟩
            · exact ⟨c, x, hat⟩
          refine .inr ⟨n :: d, c', x, rfl, ?_⟩
          rw [bind_of_ok hopen, modify_apply, hat']
          have hdone : Filled (n :: d) (.file c' x) t
              ((t.insert (n :: d) (.file [] (t.bitAt (n :: d) x))).insert (n :: d)
                (.file c' x)) := by
            refine hopened.trans (Tree.filled_insert ?_ ?_)
            · rw [hopened d, if_neg (List.cons_ne_self n d).symm, hd]
            · rw [hopened, if_pos rfl]
              simp
          exact hdone

/-- A path leads to a directory, and what is in it has proper names. -/
structure Source (t : Tree) (site : Site) (src : Path) (q : Place) : Prop where
  way : t.Approaches site src q []
  tidy : t.Tidy q

namespace Source

lemma extend (h : Source t site src q) (htu : Extends t u) : Source u site src q :=
  ⟨htu.approaches h.way, htu.tidy h.tidy⟩

lemma isName {r : Place} (h : Source t site src q) (hsome : (t.at? (r ++ q)).isSome) :
    ∀ n ∈ r, IsName n ∧ slash ∉ n := by
  induction r with
  | nil => nofun
  | cons n r ih =>
    refine List.forall_mem_cons.2 ⟨h.tidy r n hsome, ih ?_⟩
    obtain ⟨e, he⟩ := Option.isSome_iff_exists.1 hsome
    exact Option.isSome_iff_exists.2 ⟨_, Tree.at?_eq_dir_of_cons he⟩

lemma follow_eq {r p : Place} (h : Source t site src q) (hdir : t.at? (r ++ q) = some .dir)
    (hp : t.follow site (src.inside r) = .ok p) : p = r ++ q := by
  have hfits := Tree.fits_of_follow hp
  have hinside := h.way.inside (h.isName (r := r) (by simp [hdir]))
  have hbelow : Tree.below q r.reverse = r ++ q := by rw [Tree.below, List.reverse_reverse]
  have hnear : t.Approaches site (src.inside r) (r ++ q) [] := by
    rw [← hbelow]
    refine Approaches.advance r.reverse ?_ ?_ (by rw [hbelow, hdir])
    · rw [List.append_nil]
      exact hinside
    · exact hinside.length_le hfits
  rw [hnear.follow_of_dir hfits.check] at hp
  exact (Except.ok.inj hp).symm

end Source

/-- The copy of something can be made without what is outside it: the path next outside its own
leads to a directory, or is empty. -/
def Ready (t : Tree) (site : Site) (dst : Path) : Place → Prop
  | [] => True
  | _ :: r => (dst.inside r).isEmpty = true ∨ t.isDirAt site (dst.inside r) = true

lemma Ready.extend {r : Place} (h : Ready t site dst r) (htu : Extends t u) :
    Ready u site dst r := by
  cases r with
  | nil => trivial
  | cons n r => exact h.imp_right htu.isDirAt

/-- The path next outside that of what is inside can be given to the system. -/
def Passes (src : Path) (r : Place) : Prop := ∀ n s, r = n :: s → Fits (src.inside s)

/-- A directory inside the one that is copied is next to be copied. -/
structure Due (t : Tree) (site : Site) (src dst : Path) (q r : Place) : Prop extends
    Source t site src q where
  dir : t.at? (r ++ q) = some .dir
  ready : Ready t site dst r
  fits : Passes src r

/-- Entries that such a directory had when it was listed are next to be copied. -/
structure Underway (t : Tree) (site : Site) (src dst : Path) (q r : Place)
    (l : List (Bytes × Entry)) : Prop extends Source t site src q where
  entries : ∀ entry ∈ l, ∃ e, t.at? (entry.1 :: (r ++ q)) = some e ∧ (entry.2 = .dir → e = .dir)
  ready : ∀ n, Ready t site dst (n :: r)
  fits : Fits (src.inside r)

namespace Underway
variable {r : Place} {l : List (Bytes × Entry)} {entry : Bytes × Entry}

lemma extend (h : Underway t site src dst q r l) (htu : Extends t u) :
    Underway u site src dst q r l := by
  refine ⟨h.toSource.extend htu, fun entry hmem => ?_, fun n => (h.ready n).extend htu, h.fits⟩
  obtain ⟨e, hat, hdir⟩ := h.entries entry hmem
  rcases htu.kept _ _ hat with hsame | ⟨hfile, c, x, hat'⟩
  · exact ⟨e, hsame, hdir⟩
  · refine ⟨_, hat', fun he => ?_⟩
    rw [hdir he] at hfile
    cases hfile

lemma tail (h : Underway t site src dst q r (entry :: l)) : Underway t site src dst q r l :=
  ⟨h.toSource, fun entry hmem => h.entries entry (.tail _ hmem), h.ready, h.fits⟩

lemma due (h : Underway t site src dst q r (entry :: l)) (he : entry.2.isDir = true) :
    Due t site src dst q (entry.1 :: r) := by
  obtain ⟨e, hat, hdir⟩ := h.entries entry (.head _)
  refine ⟨h.toSource, hdir (Entry.isDir_iff.1 he) ▸ hat, h.ready entry.1, fun n s hr => ?_⟩
  obtain ⟨-, rfl⟩ := List.cons.inj hr
  exact h.fits

end Underway

lemma Due.underway {r : Place} {l : List (Bytes × Entry)} (h : Due t site src dst q r)
    (hmake : makeDirs site (dst.inside r) t = .ok () v) (htv : Extends t v)
    (hlist : Tree.list site (src.inside r) v = .ok l) : Underway v site src dst q r l := by
  have hsource := h.toSource.extend htv
  obtain ⟨p, hp, -, rfl⟩ := list_eq_ok hlist
  obtain rfl := hsource.follow_eq (htv.dir h.dir) hp
  refine ⟨hsource, fun entry hmem => ⟨entry.2, mem_listed.1 hmem, id⟩, fun n => ?_,
    Tree.fits_of_follow hp⟩
  cases hempty : (dst.inside r).isEmpty with
  | true => exact .inl hempty
  | false => exact .inr (isDirAt_of_makeDirsIn hempty hmake)

/-! ### What is made -/

lemma Due.makeDirs_gains {r : Place} (h : Due t site src dst q r) :
    Gains site q dst t (makeDirs site (dst.inside r) t).state := by
  cases r with
  | nil =>
    refine within_makeDirsIn (R := Gains site q dst) (fun a ha _ => ?_) t
    exact .alter fun v u hmake => Tree.gains_makeDir (.inl ha) hmake
  | cons n r =>
    have hsome : (t.at? (n :: r ++ q)).isSome := Option.isSome_iff_exists.2 ⟨_, h.dir⟩
    rcases makeDirs_join_cases (h.isName hsome n (.head _)) h.ready with hsame | hmake
    · rw [Path.inside, hsame]
      exact refl_of (Gains site q dst) t
    · exact Tree.gains_makeDir (.inr ⟨n :: r, by simp, hsome, rfl⟩) hmake

section entries
variable {depth : ℕ} {r : Place} {l : List (Bytes × Entry)} {entry : Bytes × Entry}
  (ih : ∀ {t : Tree} {r : Place}, Due t site src dst q r →
    Gains site q dst t (copyDir site depth (src.inside r) (dst.inside r) t).state)
include ih

lemma Underway.copyEntry_gains (h : Underway t site src dst q r (entry :: l)) :
    Gains site q dst t (copyEntry site depth (src.inside r) (dst.inside r) entry t).state := by
  obtain ⟨e, hat, -⟩ := h.entries entry (.head _)
  unfold copyEntry
  split
  · rename_i he
    exact ih (h.due he)
  · rcases copyFile_cases site (src.inside (entry.1 :: r)) (dst.inside (entry.1 :: r)) t with
      hsame | ⟨k, c, x, hk, hfilled⟩
    · rw [Path.inside, Path.inside] at hsame
      rw [hsame]
      exact refl_of (Gains site q dst) t
    · exact hfilled.gains hk (.inr ⟨entry.1 :: r, by simp, by simp [hat], rfl⟩)

lemma Underway.copyEntries_gains (h : Underway t site src dst q r l) :
    Gains site q dst t (copyEntries site depth (src.inside r) (dst.inside r) l t).state := by
  induction l generalizing t with
  | nil => exact refl_of (Gains site q dst) t
  | cons entry l ihl =>
    have hfirst := h.copyEntry_gains ih
    refine rel_bind hfirst fun _ v hv => ihl (h.tail.extend ?_)
    rw [hv] at hfirst
    exact hfirst.toExtends

end entries

/-- What the copy of a directory makes is where the paths of the copy lead, however it ends. -/
theorem Due.copyDir_gains (depth : ℕ) {r : Place} (h : Due t site src dst q r) :
    Gains site q dst t (copyDir site depth (src.inside r) (dst.inside r) t).state := by
  induction depth generalizing t r with
  | zero => exact refl_of (Gains site q dst) t
  | succ depth ih =>
    have hmake := h.makeDirs_gains
    rw [copyDir_succ]
    refine rel_bind hmake fun _ v hv => ?_
    rw [hv] at hmake
    cases hlist : Tree.list site (src.inside r) v with
    | error e =>
      rw [listDir, bind_of_error (FileCall.ask_of_error hlist)]
      exact refl_of (Gains site q dst) v
    | ok l =>
      rw [listDir, bind_of_ok (FileCall.ask_of_ok hlist)]
      exact (h.underway hv hmake.toExtends hlist).copyEntries_gains ih

/-! ### How far in a copy goes -/

section depth
variable {depth depth' m : ℕ} {r : Place} {l : List (Bytes × Entry)}

lemma Underway.copyEntries_depth
    (ih : ∀ {t : Tree} {r : Place}, Due t site src dst q r →
      (∀ s, (copyDir site depth (src.inside r) (dst.inside r) t).state.at? (s ++ q) = some .dir →
        Passes src s → s.length < m) → m ≤ r.length + depth → m ≤ r.length + depth' →
      copyDir site depth' (src.inside r) (dst.inside r) t =
        copyDir site depth (src.inside r) (dst.inside r) t)
    (h : Underway t site src dst q r l)
    (hin : ∀ s, (copyEntries site depth (src.inside r) (dst.inside r) l t).state.at? (s ++ q) =
      some .dir → Passes src s → s.length < m)
    (hm : m ≤ r.length + 1 + depth) (hm' : m ≤ r.length + 1 + depth') :
    copyEntries site depth' (src.inside r) (dst.inside r) l t =
      copyEntries site depth (src.inside r) (dst.inside r) l t := by
  induction l generalizing t with
  | nil => rfl
  | cons entry l ihl =>
    have hgains := h.copyEntry_gains (fun h => h.copyDir_gains depth)
    have hrest (v : Tree)
        (hv : copyEntry site depth (src.inside r) (dst.inside r) entry t = .ok () v) :
        Underway v site src dst q r l := by
      rw [hv] at hgains
      exact h.tail.extend hgains.toExtends
    -- what is there after the first entry is there at the end
    have hkept : Gains site q dst (copyEntry site depth (src.inside r) (dst.inside r) entry t).state
        (copyEntries site depth (src.inside r) (dst.inside r) (entry :: l) t).state :=
      rel_of_bind fun _ v hv => (hrest v hv).copyEntries_gains fun h => h.copyDir_gains depth
    have hfirst : copyEntry site depth' (src.inside r) (dst.inside r) entry t =
        copyEntry site depth (src.inside r) (dst.inside r) entry t := by
      unfold copyEntry at hkept ⊢
      split
      · rename_i he
        rw [if_pos he] at hkept
        exact ih (r := entry.1 :: r) (h.due he) (fun s hs => hin s (hkept.toExtends.dir hs))
          (by simpa [Nat.add_right_comm] using hm) (by simpa [Nat.add_right_comm] using hm')
      · rfl
    rw [copyEntries, copyEntries] at *
    cases hv : copyEntry site depth (src.inside r) (dst.inside r) entry t with
    | error e v => rw [bind_of_error hv, bind_of_error (hfirst.trans hv)]
    | ok _ v =>
      rw [bind_of_ok hv] at hin ⊢
      rw [bind_of_ok (hfirst.trans hv)]
      exact ihl (hrest v hv) hin

/-- How far in a copy may go makes no difference, if it may go further in than any directory that it
comes to is in what is copied. -/
theorem Due.copyDir_depth (h : Due t site src dst q r)
    (hin : ∀ s, (copyDir site depth (src.inside r) (dst.inside r) t).state.at? (s ++ q) =
      some .dir → Passes src s → s.length < m)
    (hm : m ≤ r.length + depth) (hm' : m ≤ r.length + depth') :
    copyDir site depth' (src.inside r) (dst.inside r) t =
      copyDir site depth (src.inside r) (dst.inside r) t := by
  induction depth generalizing depth' t r with
  | zero =>
    have hlt := hin r h.dir h.fits
    omega
  | succ depth ih =>
    have hlt := hin r ((h.copyDir_gains (depth + 1)).toExtends.dir h.dir) h.fits
    obtain ⟨depth', rfl⟩ : ∃ n, depth' = n + 1 := ⟨depth' - 1, by omega⟩
    have hmake := h.makeDirs_gains
    rw [copyDir_succ] at hin ⊢
    rw [copyDir_succ]
    cases hv : makeDirs site (dst.inside r) t with
    | error e v => rw [bind_of_error hv, bind_of_error hv]
    | ok _ v =>
      rw [hv] at hmake
      rw [bind_of_ok hv] at hin ⊢
      rw [bind_of_ok hv]
      cases hlist : Tree.list site (src.inside r) v with
      | error e =>
        rw [listDir, bind_of_error (FileCall.ask_of_error hlist),
          bind_of_error (FileCall.ask_of_error hlist)]
      | ok l =>
        rw [listDir, bind_of_ok (FileCall.ask_of_ok hlist)] at hin ⊢
        rw [bind_of_ok (FileCall.ask_of_ok hlist)]
        exact (h.underway hv hmake.toExtends hlist).copyEntries_depth
          (fun h hin hm hm' => ih h hin hm hm') hin (by omega) (by omega)

end depth

end Files
end FirmwareTasks
