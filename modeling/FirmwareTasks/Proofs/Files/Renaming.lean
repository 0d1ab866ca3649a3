import FirmwareTasks.Files.Subtree
import FirmwareTasks.Proofs.Files.Call
import FirmwareTasks.Proofs.Files.Lookup
/-!
Moving what one path names to where another is. On one file system this is done at once or not at
all; the tree that is moved holds afterwards what it held before, at its new place.
-/
namespace FirmwareTasks
open EStateM

/-- What a lookup can be refused for. -/
def IoError.OfLookup (e : IoError) : Prop :=
  e.OfPath ∨ e = .noEntry ∨ e = .notDirectory ∨ e = .tooManyLinks

instance (e : IoError) : Decidable e.OfLookup := inferInstanceAs (Decidable (_ ∨ _))

namespace Tree
open FirmwareTasks.Path (dot dotDot)

variable {t u : Tree} {site : Site} {src dst path : Path} {p q d : Place} {m n : Bytes}
  {xs : List Bytes} {e : IoError} {asDir : Bool} {old : Entry} {new : Option Entry}

lemma ofLookup_of_check (h : check path = .error e) : e.OfLookup := by
  unfold check at h
  split at h
  · cases h
    decide
  · split at h
    · cases h
      decide
    · split at h <;> cases h
      decide

lemma ofLookup_of_walk {l : ℕ} (h : t.walk p xs l = .error e) : e.OfLookup := by
  induction p, xs, l using walk_induction with
  | nil p l =>
    rw [walk_nil] at h
    cases h
  | cons p s xs l ih ihl =>
    rw [walk_cons] at h
    split at h
    · cases h
      decide
    · split at h
      · exact ih _ h
      · split at h
        · exact ih _ h
        · split at h
          · rename_i e' hc
            obtain rfl := Except.error.inj h
            rw [(child?_eq_error_iff.1 hc).2]
            decide
          · split at h <;> cases h
            decide
          · split at h
            · cases h
              decide
            · exact ihl _ _ _ (Nat.lt_succ_self _) h
          · exact ih _ h
    · cases h
      decide

lemma ofLookup_of_slot (h : t.slot site path = .error e) : e.OfLookup := by
  cases hc : check path with
  | error e' =>
    rw [slot_of_check_error hc] at h
    cases h
    exact ofLookup_of_check hc
  | ok =>
    rcases path.names.eq_nil_or_concat with hnil | ⟨xs, s, hnames⟩
    · rw [slot_of_names_nil hnil, hc] at h
      cases h
    · rw [List.concat_eq_append] at hnames
      rw [slot_of_names hnames hc] at h
      split at h
      · rename_i e' hwalk
        cases h
        exact ofLookup_of_walk hwalk
      · cases h
        decide
      · split at h <;> cases h <;> decide

/-! ### What is moved -/

lemma renameEntry_eq_error (h : t.renameEntry asDir p q old new = .error e) :
    e = .notDirectory ∨ e = .invalidArgument ∨ e = .notEmpty ∨ e = .isDirectory := by
  unfold renameEntry at h
  repeat' split at h
  all_goals cases h
  all_goals decide

lemma renameEntry_eq_ok (h : t.renameEntry asDir p q old new = .ok u) :
    (asDir = true → old = .dir) ∧
      (p = q ∧ u = t ∨ ¬p <:+ q ∧ ¬q <:+ p ∧ u = t.move p q) := by
  unfold renameEntry at h
  split at h
  · cases h
  · rename_i hdir
    refine ⟨fun has => by_contra fun hold => hdir ⟨has, hold⟩, ?_⟩
    split at h
    · cases h
    · rename_i hin
      split at h
      · cases h
      · rename_i hout
        split at h
        · rename_i hsame
          exact .inl ⟨hsame, (Except.ok.inj h).symm⟩
        · rename_i hne
          refine .inr ⟨fun hs => hin ⟨hs, hne⟩, fun hs => hout ⟨hs, hne⟩, ?_⟩
          split at h
          · exact (Except.ok.inj h).symm
          · split at h
            · exact (Except.ok.inj h).symm
            · cases h
          · cases h
          · cases h
          · exact (Except.ok.inj h).symm

lemma rename_of_slots (hm : site.mounts = []) (hsrc : t.slot site src = .ok ⟨d, .name m⟩)
    (hdst : t.slot site dst = .ok ⟨p, .name n⟩) :
    rename site src dst t =
      match t.child? d m with
      | .error e => .error e
      | .ok none => .error .noEntry
      | .ok (some old) =>
        match t.child? p n with
        | .error e => .error e
        | .ok new =>
          t.renameEntry (src.endsInSlash || dst.endsInSlash) (m :: d) (n :: p) old new := by
  have hvolume (q : Place) : site.volume q = [] := by simp [Site.volume, hm]
  simp only [rename, hsrc, hdst, hvolume, bind, Except.bind]
  rw [if_neg (by simp)]
  cases t.child? d m with
  | error e => rfl
  | ok o =>
    cases o with
    | none => rfl
    | some old => cases t.child? p n <;> rfl

/-- What is moved is what the first path names, and it is moved to where the second path says. -/
theorem rename_eq_ok (h : rename site src dst t = .ok u) :
    ∃ d m p n, t.slot site src = .ok ⟨d, .name m⟩ ∧ t.slot site dst = .ok ⟨p, .name n⟩ ∧
      t.locate site src = .ok (m :: d) ∧
      (m :: d = n :: p ∧ u = t ∨
        ¬(m :: d) <:+ n :: p ∧ ¬(n :: p) <:+ m :: d ∧ u = t.move (m :: d) (n :: p)) := by
  obtain ⟨⟨d, last⟩, hsrc, h⟩ := Except.bind_eq_ok h
  obtain ⟨⟨p, last'⟩, hdst, h⟩ := Except.bind_eq_ok h
  split at h
  · cases h
  · split at h
    · rename_i m n hm hn
      obtain rfl : last = .name m := hm
      obtain rfl : last' = .name n := hn
      obtain ⟨o, hold, h⟩ := Except.bind_eq_ok h
      cases o with
      | none => cases h
      | some old =>
        obtain ⟨new, -, h⟩ := Except.bind_eq_ok h
        obtain ⟨hdir, hmove⟩ := renameEntry_eq_ok h
        refine ⟨d, m, p, n, hsrc, hdst, ?_, hmove⟩
        cases hslash : src.endsInSlash with
        | false => rw [locate_of_slot hslash hsrc, hold]
        | true =>
          obtain rfl := hdir (by simp [hslash])
          exact locate_of_slot_dir hsrc hold
    · cases h

/-- What is at a place gives way to what is moved there: an empty directory to a directory, and
what is no directory to what is none. -/
def GivesWay (t : Tree) (q : Place) (old : Entry) : Prop :=
  match t.at? q with
  | none => True
  | some .dir => old = .dir ∧ t.names q = []
  | some _ => old ≠ .dir

lemma givesWay_of_renameEntry (h : t.renameEntry asDir p q old (t.at? q) = .ok u) (hne : p ≠ q) :
    t.GivesWay q old := by
  unfold renameEntry at h
  unfold GivesWay
  split at h
  · cases h
  · split at h
    · cases h
    · split at h
      · cases h
      · cases hnew : t.at? q with
        | none => trivial
        | some new =>
          rw [hnew] at h
          cases new with
          | dir =>
            cases old with
            | dir =>
              dsimp only at h
              split at h
              · exact ⟨rfl, by assumption⟩
              · cases h
            | file | link => cases h
          | file | link =>
            rintro rfl
            cases h

lemma renameEntry_of_givesWay (hdir : asDir = true → old = .dir) (happ : Apart p q)
    (hway : t.GivesWay q old) :
    t.renameEntry asDir p q old (t.at? q) = .ok (t.move p q) := by
  have hne : p ≠ q := fun h => happ.1 (h ▸ List.suffix_rfl)
  unfold renameEntry
  unfold GivesWay at hway
  rw [if_neg (fun h => h.2 (hdir h.1)), if_neg (fun h => happ.1 h.1),
    if_neg (fun h => happ.2 h.1), if_neg hne]
  cases hq : t.at? q with
  | none => rfl
  | some new =>
    rw [hq] at hway
    cases new with
    | dir =>
      obtain ⟨rfl, hempty⟩ := hway
      exact if_pos hempty
    | file | link =>
      cases old with
      | dir => exact absurd rfl hway
      | file | link => rfl

theorem givesWay_of_rename (h : rename site src dst t = .ok u)
    (hsrc : t.slot site src = .ok ⟨d, .name m⟩) (hdst : t.slot site dst = .ok ⟨p, .name n⟩) :
    ∃ old, t.child? d m = .ok (some old) ∧ n.length ≤ nameLimit ∧
      ((src.endsInSlash || dst.endsInSlash) = true → old = .dir) ∧
      (m :: d ≠ n :: p → t.GivesWay (n :: p) old) := by
  simp only [rename, hsrc, hdst, bind, Except.bind] at h
  split at h
  · cases h
  · cases hold : t.child? d m with
    | error e =>
      rw [hold] at h
      cases h
    | ok o =>
      rw [hold] at h
      cases o with
      | none => cases h
      | some old =>
        cases hnew : t.child? p n with
        | error e =>
          rw [hnew] at h
          cases h
        | ok new =>
          rw [hnew] at h
          obtain ⟨hlen, rfl⟩ := child?_eq_ok_iff.1 hnew
          exact ⟨old, rfl, hlen, (renameEntry_eq_ok h).1, givesWay_of_renameEntry h⟩

/-- What has been at one place is at another, whole; nothing is left of it, nor of what was at the
other, and nothing else is changed. -/
structure Shifted (q b : Place) (t u : Tree) : Prop where
  copy : ∀ r, u.at? (r ++ b) = t.at? (r ++ q)
  gone : ∀ r, u.at? (r ++ q) = none
  rest : ∀ k, ¬q <:+ k → ¬b <:+ k → u.at? k = t.at? k

lemma shifted_move (hd : t.at? p = some .dir) (hne : q ≠ []) (happ : Apart q (n :: p)) :
    Shifted q (n :: p) t (t.move q (n :: p)) := by
  have hoff : ¬q <:+ p := fun h => happ.1 (suffix_cons_of_suffix h)
  refine ⟨at?_move hne hd hoff, fun r => ?_, fun k hq hb => ?_⟩
  · rw [at?_move_of_not_suffix hne hd hoff happ.not_suffix, if_pos (List.suffix_append r _)]
  · rw [at?_move_of_not_suffix hne hd hoff hb, if_neg hq]

/-- A place is not that of a link that gives way at `b`. -/
def OffLink (t : Tree) (b k : Place) : Prop := k = b → ∀ target, t.at? k ≠ some (.link target)

/-- A path comes to its last step by way of places in `K`. -/
def NearsBy (t : Tree) (site : Site) (K : Place → Prop) (path : Path) : Prop :=
  ∃ xs s d l, path.names = xs ++ [s] ∧ Leads t K (startOf site.cwd path) xs linkLimit d l

lemma NearsBy.leads {K : Place → Prop} {s : Bytes} (h : t.NearsBy site K path)
    (hnames : path.names = xs ++ [s])
    (hwalk : t.walk (startOf site.cwd path) xs linkLimit = .ok (.entry d)) :
    ∃ l, Leads t K (startOf site.cwd path) xs linkLimit d l := by
  obtain ⟨ys, s', d', l, hnames', hl⟩ := h
  obtain ⟨rfl, -⟩ := List.append_inj' (hnames.symm.trans hnames') rfl
  obtain rfl : d = d' := by simpa using hwalk.symm.trans hl.walk_eq
  exact ⟨l, hl⟩

namespace Shifted

lemma ne (h : Shifted q p t u) (hq : t.at? q = some old) : q ≠ p := by
  rintro rfl
  have hcopy := h.copy []
  rw [h.gone [], List.nil_append, hq] at hcopy
  cases hcopy

/-- Of the directories and links that could be on a way, a move takes away what is moved, and
changes nothing but a link that gives way. -/
theorem at?_solid {b k : Place} (h : Shifted q b t u) (hq : t.at? q = some old)
    (hway : t.GivesWay b old) (hk : t.at? k = some .dir ∨ ∃ target, t.at? k = some (.link target))
    (hoff : OffLink t b k) : q <:+ k ∧ u.at? k = none ∨ ¬q <:+ k ∧ u.at? k = t.at? k := by
  by_cases hin : q <:+ k
  · obtain ⟨r, rfl⟩ := hin
    exact .inl ⟨List.suffix_append r q, h.gone r⟩
  refine .inr ⟨hin, ?_⟩
  by_cases hb : b <:+ k
  · obtain ⟨r, rfl⟩ := hb
    rcases r.eq_nil_or_concat with rfl | ⟨r, s, rfl⟩
    · -- a directory gives way only to a directory
      have hdir : t.at? b = some .dir := hk.resolve_right fun ⟨target, hl⟩ => hoff rfl target hl
      rw [GivesWay, hdir] at hway
      rw [h.copy, List.nil_append, List.nil_append, hq, hway.1, hdir]
    · have hnone : t.at? (r.concat s ++ b) = none := by
        by_cases hdir : t.at? b = some .dir
        · rw [GivesWay, hdir] at hway
          rw [List.concat_eq_append, List.append_assoc]
          exact at?_eq_none_of_suffix (List.suffix_append r _) (names_eq_nil_iff.1 hway.2 s)
        · exact at?_append_eq_none (by simp) hdir
      rw [hnone] at hk
      rcases hk with hk | ⟨_, hk⟩ <;> cases hk
  · exact h.rest k hin hb

lemma gone_or_same {b : Place} (h : Shifted q b t u) (hq : t.at? q = some old)
    (hway : t.GivesWay b old) (k : Place)
    (hk : OffLink t b k ∧ (t.at? k = some .dir ∨ ∃ target, t.at? k = some (.link target))) :
    u.at? k = none ∨ u.at? k = t.at? k :=
  (h.at?_solid hq hway hk.2 hk.1).imp And.right And.right

section source
variable {b : Place} (h : Shifted (m :: d) b t u) (hsrc : t.slot site path = .ok ⟨d, .name m⟩)
  (hx : t.child? d m = .ok (some old)) (hway : t.GivesWay b old)
  (hnears : t.NearsBy site (OffLink t b) path)
include h hsrc hx hway hnears

lemma slot_source :
    u.slot site path = .ok ⟨d, .name m⟩ ∨ u.slot site path = .error .noEntry := by
  have hat := h.gone_or_same (child?_eq_ok_iff.1 hx).2 hway
  obtain ⟨xs, _, hnames, hs, hc, hl, hd⟩ := leads_of_slot hsrc
  obtain ⟨l, hl⟩ := hnears.leads hnames hl.walk_eq
  rcases (hl.solid hd).thin hat with hl' | hmiss
  · rcases hat d hl'.stop with hnone | hsame
    · exact .inr (by rw [slot_of_names hnames hc, hl'.walk_eq]; simp [hnone])
    · refine .inl ((slot_eq_ok_iff hnames).2 ⟨hc, ?_, hl'.walk_eq, hsame.trans hd⟩)
      exact (Last.ofStep_of_name hs).symm
  · refine .inr ?_
    rw [slot_of_names hnames hc]
    rcases hmiss with hmiss | ⟨s, d', hmiss⟩ <;> rw [hmiss]

lemma follow_source (hend : path.endsInSlash = true) (hdir : t.at? (m :: d) = some .dir) :
    u.follow site path = .error .noEntry := by
  have hold := (child?_eq_ok_iff.1 hx).2
  have hat := h.gone_or_same hold hway
  obtain ⟨xs, _, hnames, hs, hc, hl, hd⟩ := leads_of_slot hsrc
  obtain ⟨l, hl⟩ := hnears.leads hnames hl.walk_eq
  obtain rfl : old = .dir := by simpa [hold] using hdir
  -- the slash asks for a directory, so the whole way has led to what is gone
  have hoff : OffLink t b (m :: d) := fun hb => absurd hb (h.ne hold)
  have hdots : ∀ y ∈ (if path.endsInSlash then [dot] else []), y = dot := by
    split <;> simp
  have hall := (hl.concat hd hs hx (by simp) hoff).dots hdir hdots
  rw [← hnames, ← Path.steps_eq] at hall
  rcases (hall.solid hdir).thin hat with hl' | hmiss
  · have hstays := dir_of_follow hend (follow_eq_ok_iff.2 ⟨hc, hl'.walk_eq⟩)
    rw [← List.nil_append (m :: d), h.gone []] at hstays
    cases hstays
  · rw [follow, find, hc]
    rcases hmiss with hmiss | ⟨s, d', hmiss⟩ <;> simp [hmiss, bind, Except.bind]

/-- Where an entry has been moved away, its path names nothing, unless a link has given way on which
the path depends. -/
theorem locate_source (hq : t.locate site path = .ok (m :: d)) :
    u.locate site path = .error .noEntry := by
  cases hend : path.endsInSlash with
  | false =>
    rcases h.slot_source hsrc hx hway hnears with hslot | hslot
    · have hlen := (child?_eq_ok_iff.1 hx).1
      rw [locate_of_slot hend hslot, child?_eq_ok_iff.2 ⟨hlen, h.gone []⟩]
    · exact locate_of_slot_error hend hslot
  | true =>
    rw [locate, if_pos hend] at hq ⊢
    exact h.follow_source hsrc hx hway hnears hend (dir_of_follow hend hq)

end source

/-- Where an entry has been moved to, its new path names it, unless the path depends on a link that
has given way or on what has been moved. -/
theorem locate_target (h : Shifted q (n :: p) t u) (hdst : t.slot site path = .ok ⟨p, .name n⟩)
    (hq : t.at? q = some old) (hlen : n.length ≤ nameLimit) (hway : t.GivesWay (n :: p) old)
    (hslash : path.endsInSlash = true → old = .dir)
    (hnears : t.NearsBy site (fun k => ¬q <:+ k ∧ OffLink t (n :: p) k) path) :
    u.locate site path = .ok (n :: p) := by
  obtain ⟨xs, _, hnames, hs, hc, hl, hd⟩ := leads_of_slot hdst
  obtain ⟨l, hl⟩ := hnears.leads hnames hl.walk_eq
  have hat (k : Place) (hk : (¬q <:+ k ∧ OffLink t (n :: p) k) ∧
      (t.at? k = some .dir ∨ ∃ target, t.at? k = some (.link target))) : t.at? k = u.at? k :=
    ((h.at?_solid hq hway hk.2 hk.1.2).resolve_left fun hin => hk.1.1 hin.1).2.symm
  have hl' := (hl.solid hd).congr hat
  have hslot : u.slot site path = .ok ⟨p, .name n⟩ :=
    (slot_eq_ok_iff hnames).2
      ⟨hc, (Last.ofStep_of_name hs).symm, hl'.walk_eq, (hat p hl'.stop).symm.trans hd⟩
  have hx : u.child? p n = .ok (some old) :=
    child?_eq_ok_iff.2 ⟨hlen, (h.copy []).trans hq⟩
  cases hend : path.endsInSlash with
  | false => rw [locate_of_slot hend hslot, hx]
  | true =>
    obtain rfl := hslash hend
    exact locate_of_slot_dir hslot hx

end Shifted

/-- A move is refused for crossing to another file system only if it does. -/
theorem volume_ne_of_rename (h : rename site src dst t = .error .otherFileSystem) :
    ∃ s s', t.slot site src = .ok s ∧ t.slot site dst = .ok s' ∧
      site.volume s.dir ≠ site.volume s'.dir := by
  rcases Except.bind_eq_error h with hsrc | ⟨⟨d, last⟩, hsrc, h⟩
  · exact absurd (ofLookup_of_slot hsrc) (by decide)
  · rcases Except.bind_eq_error h with hdst | ⟨⟨p, last'⟩, hdst, h⟩
    · exact absurd (ofLookup_of_slot hdst) (by decide)
    · refine ⟨_, _, hsrc, hdst, fun hsame => ?_⟩
      rw [if_neg (not_not.2 hsame)] at h
      split at h
      · rename_i m n hlast hlast'
        obtain rfl : last = .name m := hlast
        obtain rfl : last' = .name n := hlast'
        rcases Except.bind_eq_error h with hold | ⟨o, hold, h⟩
        · exact absurd (child?_eq_error_iff.1 hold).2 (by decide)
        · cases o with
          | none => exact absurd (Except.error.inj h) (by decide)
          | some old =>
            rcases Except.bind_eq_error h with hnew | ⟨new, -, h⟩
            · exact absurd (child?_eq_error_iff.1 hnew).2 (by decide)
            · exact absurd (renameEntry_eq_error h) (by decide)
      · exact absurd (Except.error.inj h) (by decide)

theorem rename_ne_otherFileSystem (hm : site.mounts = []) :
    rename site src dst t ≠ .error .otherFileSystem := by
  intro h
  obtain ⟨s, s', -, -, hne⟩ := volume_ne_of_rename h
  exact hne (by simp [Site.volume, hm])

end Tree

namespace Files
variable {t u : Tree} {site : Site} {src dst dir : Path} {e : IoError}

/-- What it takes to move what one path names to where another is, and what comes of it. -/
structure Moved (site : Site) (src dst : Path) (t u : Tree) : Prop where
  found : ∃ p, t.follow site src = .ok p
  target : checkTarget site dst t = .ok () t
  rename : Tree.rename site src dst t = .ok u

lemma checkTarget_cases (site : Site) (dst : Path) (t : Tree) :
    checkTarget site dst t = .ok () t ∨ ∃ e, checkTarget site dst t = .error e t := by
  unfold checkTarget
  cases dst.parent? with
  | none => exact .inl rfl
  | some dir =>
    dsimp only
    rw [bind_of_ok (m := get) (t := t) rfl]
    cases dir.isEmpty || t.isDirAt site dir with
    | true => exact .inl rfl
    | false => exact .inr ⟨_, rfl⟩

lemma checkTarget_eq_ok_iff (hdir : dst.parent? = some dir) (hne : dir.isEmpty = false) :
    checkTarget site dst t = .ok () t ↔ t.isDirAt site dir = true := by
  unfold checkTarget
  rw [hdir]
  dsimp only
  rw [bind_of_ok (m := get) (t := t) rfl, hne, Bool.false_or]
  cases t.isDirAt site dir with
  | true => exact ⟨fun _ => rfl, fun _ => rfl⟩
  | false => exact ⟨fun h => (nomatch h), fun h => (nomatch h)⟩

/-- Moves what one path names to where another is; a move that would cross to another file system
is left undone, and whether it is a directory that would cross is told. -/
def moveWithin (site : Site) (src dst : Path) : FileCall (Option Bool) := do
  let p ← FileCall.ask (Tree.follow · site src)
  let isDir := (← get).at? p = some .dir
  checkTarget site dst
  tryCatch (do Files.rename site src dst; pure none) fun e =>
    if e = .otherFileSystem then pure (some (decide isDir)) else throw e

/-- On one file system a move is done, or refused with nothing changed. -/
theorem moveWithin_cases (hm : site.mounts = []) (src dst : Path) (t : Tree) :
    (∃ u, moveWithin site src dst t = .ok none u ∧ Moved site src dst t u) ∨
    (∃ e, moveWithin site src dst t = .error e t) ∧ ∀ u, ¬Moved site src dst t u := by
  cases hp : t.follow site src with
  | error e =>
    refine .inr ⟨⟨e, bind_of_error (FileCall.ask_of_error hp) _⟩, fun u hu => ?_⟩
    obtain ⟨p, hp'⟩ := hu.found
    rw [hp] at hp'
    cases hp'
  | ok p =>
    rw [moveWithin, bind_of_ok (FileCall.ask_of_ok hp), bind_of_ok (m := get) (t := t) rfl]
    rcases checkTarget_cases site dst t with htarget | ⟨e, htarget⟩
    · rw [bind_of_ok htarget]
      cases hmove : Tree.rename site src dst t with
      | ok u =>
        have hcall : Files.rename site src dst t = .ok () u := FileCall.alter_of_ok hmove
        have hdone : (do Files.rename site src dst; pure none : FileCall (Option Bool)) t =
            .ok none u := bind_of_ok hcall _
        exact .inl ⟨u, tryCatch_of_ok hdone _, ⟨p, hp⟩, htarget, hmove⟩
      | error e =>
        have he : e ≠ .otherFileSystem := by
          rintro rfl
          exact Tree.rename_ne_otherFileSystem hm hmove
        have hcall : Files.rename site src dst t = .error e t := FileCall.alter_of_error hmove
        have hfails : (do Files.rename site src dst; pure none : FileCall (Option Bool)) t =
            .error e t := bind_of_error hcall _
        refine .inr ⟨⟨e, ?_⟩, fun u hu => ?_⟩
        · rw [tryCatch_of_error hfails, if_neg he]
          rfl
        · rw [hu.rename] at hmove
          cases hmove
    · refine .inr ⟨⟨e, bind_of_error htarget _⟩, fun u hu => ?_⟩
      rw [hu.target] at htarget
      cases htarget

end Files
end FirmwareTasks
