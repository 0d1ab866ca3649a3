import FirmwareTasks.Proofs.Files.Copying
import FirmwareTasks.Proofs.Files.Lexical
import FirmwareTasks.Proofs.Files.Removal
import FirmwareTasks.Proofs.Run.Moving
/-!
Moving to another file system. It goes by copying and removing, and comes to the same as a move on
one file system for files and for directories without links in them. A directory that cannot be
copied whole is left as it is.
-/
namespace FirmwareTasks
open EStateM
open Files
open FirmwareTasks.Path (IsName slash)
open FirmwareTasks.Tree (Adds Apart Approaches Filled Fits Replica Shifted faraway nested
  nestedWithLink)

variable {σ : Type} {site : Site} {src dst : Path} {t u v : Tree} {q b d p : Place} {m n : Bytes}
  {e : IoError}

namespace Tree

lemma Shifted.unique (h : Shifted q b t u) (h' : Shifted q b t v) : u = v := by
  refine ext_at? fun k => ?_
  by_cases hb : b <:+ k
  · obtain ⟨r, rfl⟩ := hb
    rw [h.copy, h'.copy]
  · by_cases hq : q <:+ k
    · obtain ⟨r, rfl⟩ := hq
      rw [h.gone, h'.gone]
    · rw [h.rest k hq hb, h'.rest k hq hb]

lemma shifted_erase (happ : Apart (m :: d) b) (hcopy : ∀ r, v.at? (r ++ b) = t.at? (r ++ m :: d))
    (hrest : ∀ k, ¬b <:+ k → v.at? k = t.at? k) : Shifted (m :: d) b t (v.erase (m :: d)) where
  copy r := by rw [at?_erase_cons, if_neg happ.symm.not_suffix, hcopy]
  gone r := by rw [at?_erase_cons, if_pos (List.suffix_append r _)]
  rest k hq hb := by rw [at?_erase_cons, if_neg hq, hrest k hb]

end Tree

namespace Files

lemma checkTarget_of_slot (h : t.slot site dst = .ok ⟨p, .name n⟩) :
    checkTarget site dst t = .ok () t := by
  obtain ⟨xs, j, hnames, hn, hc, hj, hp⟩ := Tree.leads_of_slot h
  have hn : IsName n := ⟨(Path.mem_names.1 (by simp [hnames] : n ∈ dst.names)).2, hn⟩
  have hchain := Path.chain_ancestors hnames hn
  obtain ⟨o, hlast, -⟩ := Path.getLast?_ancestors hnames hn
  obtain ⟨o, l, hl⟩ : ∃ o l, dst.ancestors = o :: l :=
    List.exists_cons_of_ne_nil (by rintro hnil; simp [hnil] at hlast)
  have hparent : dst.parent? = some o := by rw [Path.parent?, hl]; rfl
  cases hempty : o.isEmpty with
  | true =>
    rw [checkTarget, hparent]
    dsimp only
    rw [bind_of_ok (m := get) (t := t) rfl, hempty]
    rfl
  | false =>
    refine (checkTarget_eq_ok_iff hparent hempty).2 (Tree.isDirAt_iff.2 ⟨?_, p, ⟨j, ?_⟩, hp⟩)
    · exact Tree.check_outward hc (Path.prefix_of_mem_ancestors hnames hn (by simp [hl])) hempty
    · rw [hl] at hchain
      have hout := (List.isChain_cons_cons.1 hchain).1
      obtain ⟨dots, s, hdots, hall, -⟩ := hout.names
      rw [hnames] at hdots
      obtain ⟨rfl, -⟩ := List.append_inj' hdots rfl
      rw [Tree.startOf, hout.isAbsolute hempty]
      exact hj.of_dots hall

lemma approaches_of_slot_dir (h : t.slot site src = .ok ⟨d, .name m⟩)
    (hdir : t.at? (m :: d) = some .dir) (hlen : m.length ≤ Tree.nameLimit) :
    t.Approaches site src (m :: d) [] :=
  (Approaches.of_slot h).advance [m] (by simpa using hlen) hdir

section directory
variable (hsrc : t.slot site src = .ok ⟨d, .name m⟩) (hdst : t.slot site dst = .ok ⟨p, .name n⟩)
  (hdir : t.at? (m :: d) = some .dir) (hlen : m.length ≤ Tree.nameLimit)
  (hfree : t.at? (n :: p) = none) (hoff : ¬(m :: d) <:+ p) (htidy : t.Tidy (m :: d))
include hsrc hdst hdir hlen hfree hoff htidy

/-- A directory is copied and then removed, or it is not copied whole; then it stays. -/
theorem moveByCopy_dir_ends :
    (moveByCopy site true src dst t).Ends
      (fun u => ∃ v, Adds (n :: p) t v ∧ Replica site src dst (m :: d) (n :: p) v ∧
        u = v.without site src (m :: d))
      fun u => Adds (n :: p) t u ∧ ¬t.Copyable site (m :: d) src dst := by
  have hoff' : ¬(m :: d) <:+ n :: p := by
    intro hin
    rcases List.suffix_cons_iff.1 hin with heq | hin
    · rw [heq, hfree] at hdir
      cases hdir
    · exact hoff hin
  have hcopy := copyDir_ends site Tree.pathLimit
    (approaches_of_slot_dir hsrc hdir hlen) (Approaches.of_slot hdst) hfree hoff' htidy
    (Nat.le_add_right _ _)
  rw [moveByCopy, if_pos rfl]
  refine ends_bind hcopy (fun _ v ⟨hadds, hreplica⟩ => ?_) fun _ hv => hv
  have hx : v.child? d m = .ok (some .dir) :=
    Tree.child?_eq_ok_iff.2 ⟨hlen, hadds.le _ _ hdir⟩
  have hslot := Tree.slot_mono hadds.le hsrc
  rw [removeTree_of_dir hslot hx (Tree.locate_of_slot_dir hslot hx)]
  exact ⟨v, hadds, hreplica, rfl⟩

end directory

lemma moveByCopy_file {c : Bytes} {x : Bool} (hsrc : t.slot site src = .ok ⟨d, .name m⟩)
    (hdst : t.slot site dst = .ok ⟨p, .name n⟩) (hfile : t.at? (m :: d) = some (.file c x))
    (hway : ∀ e, t.at? (n :: p) = some e → e.isFile = true) (hne : m :: d ≠ n :: p)
    (hslash : src.endsInSlash = false ∧ dst.endsInSlash = false) (hfits : Fits src ∧ Fits dst) :
    ∃ v, Filled (n :: p) (.file c x) t v ∧
      moveByCopy site false src dst t = .ok () (v.erase (m :: d)) := by
  have hnear := Approaches.of_slot hsrc
  have hfollow := hnear.follow_of_file hslash.1 hfits.1 hfile
  have hoff : t.follow site src ≠ .ok (n :: p) := by rw [hfollow]; simpa using hne
  have hcopy := copyFile_ends (Approaches.of_slot hdst) hslash.2 hway hoff
  cases hrun : copyFile site src dst t with
  | error e u =>
    rw [hrun] at hcopy
    exact absurd ⟨hfits.2, Tree.isFileAt_iff.2 ⟨_, c, x, hfollow, hfile⟩⟩ hcopy.2
  | ok _ v =>
    rw [hrun] at hcopy
    obtain ⟨-, k, c', x', hk, hat, hfilled⟩ := hcopy
    rw [hfollow] at hk
    cases hk
    rw [hfile] at hat
    cases hat
    have hkept : v.at? (m :: d) = some (.file c x) := by rw [hfilled, if_neg hne, hfile]
    have hslot : v.slot site src = .ok ⟨d, .name m⟩ := by
      refine Tree.slot_of_solid (fun k hk => ?_) hsrc
      rw [hfilled, if_neg]
      rintro rfl
      rcases hk with hk | ⟨target, hk⟩ <;> cases hway _ hk
    refine ⟨v, hfilled, ?_⟩
    rw [moveByCopy, if_neg (by simp), bind_of_ok hrun]
    exact FileCall.alter_of_ok (Tree.unlink_of_slot hslot hslash.1
      (Tree.child?_eq_ok_iff.2 ⟨hnear.length_le hfits.1 m (by simp), hkept⟩) (by simp))

lemma moveWithin_of_crossing {k : Place} (hk : t.follow site src = .ok k)
    (htarget : checkTarget site dst t = .ok () t)
    (hcross : Tree.rename site src dst t = .error .otherFileSystem) :
    moveWithin site src dst t = .ok (some (decide (t.at? k = some .dir))) t := by
  have hcall : Files.rename site src dst t = .error .otherFileSystem t :=
    FileCall.alter_of_error hcross
  have hfails : (do Files.rename site src dst; pure none : FileCall (Option Bool)) t =
      .error .otherFileSystem t := bind_of_error hcall _
  rw [moveWithin, bind_of_ok (FileCall.ask_of_ok hk), bind_of_ok (m := get) (t := t) rfl,
    bind_of_ok htarget, tryCatch_of_error hfails, if_pos rfl]
  rfl

/-- A file, or a directory with directories and files in it, that may be taken to where nothing is
or a file that a file gives way to. Every path of its copy can be given to the system, and its own
path does not go through what is in it. -/
structure Transferable (site : Site) (src dst : Path) (q b : Place) (t : Tree) : Prop where
  there : (t.at? q).isSome
  linkless : ∀ r target, t.at? (r ++ q) ≠ some (.link target)
  way : ∀ e, t.at? b = some e → e.isFile = true ∧ (t.at? q).any Entry.isFile = true
  slashes : t.at? q ≠ some .dir → src.endsInSlash = false ∧ dst.endsInSlash = false
  fits : t.CopyFits q src dst
  stays : (t.clear q).slot site src = t.slot site src

namespace Transferable
variable (h : Transferable site src dst (m :: d) (n :: p) t)
include h

lemma noLinks : t.LinksLead site (m :: d) src := fun r target hlink =>
  absurd hlink (h.linkless r target)

lemma follow_eq (hsrc : t.slot site src = .ok ⟨d, .name m⟩) :
    t.follow site src = .ok (m :: d) := by
  obtain ⟨hfits, -⟩ := h.fits [] h.there
  have hnear := Approaches.of_slot hsrc
  obtain ⟨old, hold⟩ := Option.isSome_iff_exists.1 h.there
  cases old with
  | dir =>
    exact (approaches_of_slot_dir hsrc hold (hnear.length_le hfits m (by simp))).follow_of_dir
      hfits.check
  | file c x => exact hnear.follow_of_file (h.slashes (by simp [hold])).1 hfits hold
  | link target => exact absurd hold (h.linkless [] target)

lemma apart (hoff : ¬(m :: d) <:+ p) (hne : m :: d ≠ n :: p) : Apart (m :: d) (n :: p) := by
  refine ⟨fun hin => (List.suffix_cons_iff.1 hin).elim hne hoff, fun hin => ?_⟩
  rcases List.suffix_cons_iff.1 hin with heq | hin
  · exact hne heq.symm
  · obtain ⟨old, hold⟩ := Option.isSome_iff_exists.1 h.there
    have hdir := Tree.at?_eq_dir_of_suffix hin (Tree.at?_eq_dir_of_cons hold)
    cases (h.way _ hdir).1

lemma moved (hsrc : t.slot site src = .ok ⟨d, .name m⟩) (hdst : t.slot site dst = .ok ⟨p, .name n⟩)
    (hm : site.mounts = []) (happ : Apart (m :: d) (n :: p)) :
    Moved site src dst t (t.move (m :: d) (n :: p)) where
  found := ⟨_, h.follow_eq hsrc⟩
  target := checkTarget_of_slot hdst
  rename := by
    obtain ⟨hfits, hfits'⟩ := h.fits [] h.there
    obtain ⟨old, hold⟩ := Option.isSome_iff_exists.1 h.there
    have hlen := (Approaches.of_slot hsrc).length_le hfits m (by simp)
    have hlen' := (Approaches.of_slot hdst).length_le hfits' n (by simp)
    rw [Tree.rename_of_slots hm hsrc hdst, Tree.child?_eq_ok_iff.2 ⟨hlen, hold⟩,
      Tree.child?_eq_ok_iff.2 ⟨hlen', rfl⟩]
    refine Tree.renameEntry_of_givesWay (fun hslash => ?_) happ ?_
    · by_contra hfile
      obtain ⟨hs, hs'⟩ := h.slashes (by simpa [hold] using hfile)
      simp [hs, hs'] at hslash
    · cases hnew : t.at? (n :: p) with
      | none => simp [Tree.GivesWay, hnew]
      | some new =>
        obtain ⟨hfile, hfile'⟩ := h.way new hnew
        cases new with
        | dir | link => cases hfile
        | file c x =>
          rw [Tree.GivesWay, hnew]
          rintro rfl
          rw [hold] at hfile'
          cases hfile'

lemma moveByCopy_ends (hsrc : t.slot site src = .ok ⟨d, .name m⟩)
    (hdst : t.slot site dst = .ok ⟨p, .name n⟩) (happ : Apart (m :: d) (n :: p))
    (htidy : t.Tidy (m :: d)) :
    (moveByCopy site (decide (t.at? (m :: d) = some .dir)) src dst t).Ends
      (Shifted (m :: d) (n :: p) t) fun _ => False := by
  have hfits := h.fits [] h.there
  have hnear := Approaches.of_slot hsrc
  obtain ⟨old, hold⟩ := Option.isSome_iff_exists.1 h.there
  cases old with
  | link target => exact absurd hold (h.linkless [] target)
  | file c x =>
    rw [hold, decide_eq_false (by simp)]
    have hne : m :: d ≠ n :: p := fun heq => happ.1 (heq ▸ List.suffix_rfl)
    obtain ⟨v, hfilled, hrun⟩ := moveByCopy_file hsrc hdst hold (fun e he => (h.way e he).1) hne
      (h.slashes (by simp [hold])) hfits
    rw [hrun]
    refine Tree.shifted_erase happ (fun r => ?_) fun k hk => ?_
    · by_cases hr : r = []
      · subst hr
        rw [List.nil_append, hfilled, if_pos rfl, List.nil_append, hold]
      · have hsource : t.at? (r ++ m :: d) = none := Tree.at?_append_eq_none hr (by simp [hold])
        have htarget : t.at? (r ++ n :: p) = none :=
          Tree.at?_append_eq_none hr fun hdir => by cases (h.way _ hdir).1
        rw [hfilled, if_neg (by simpa using hr), htarget, hsource]
    · rw [hfilled, if_neg (by rintro rfl; exact hk List.suffix_rfl)]
  | dir =>
    rw [hold, decide_eq_true rfl]
    have hlen := hnear.length_le hfits.1 m (by simp)
    have hfree : t.at? (n :: p) = none := by
      cases hnew : t.at? (n :: p) with
      | none => rfl
      | some new =>
        have hfile := (h.way new hnew).2
        rw [hold] at hfile
        cases hfile
    have hoff : ¬(m :: d) <:+ p := fun hin => happ.1 (Tree.suffix_cons_of_suffix hin)
    refine (moveByCopy_dir_ends hsrc hdst hold hlen hfree hoff htidy).imp ?_
      fun _ hu => hu.2 ⟨h.fits, h.noLinks⟩
    rintro u ⟨v, hadds, hreplica, rfl⟩
    have hkept := hadds.at?_append hfree h.there happ.1
    have hwithout : v.without site src (m :: d) = v.erase (m :: d) := by
      refine if_neg fun hlost => ?_
      have hclear : t.clear (m :: d) ≤ v.clear (m :: d) := Tree.clear_mono hadds.le _
      have hstays := Tree.slot_mono hclear (h.stays.trans hsrc)
      rw [hlost.2] at hstays
      cases hstays
    rw [hwithout]
    refine Tree.shifted_erase happ (fun r => ?_) fun k hk =>
      hadds.at?_of_dir (Tree.dir_of_slot hdst) hk
    rw [hreplica.copy, Tree.image_of_ne_link fun target => hkept r ▸ h.linkless r target, hkept]

end Transferable

end Files

namespace Act

section crossing
variable {w : World σ} {k : Place}
  (hk : w.tree.follow site src = .ok k) (htarget : checkTarget site dst w.tree = .ok () w.tree)
  (hcross : Tree.rename site src dst w.tree = .error .otherFileSystem)
include hk htarget hcross

lemma relocate_of_crossing :
    relocate site src dst w = (do
      log .debug ("Copying " ++ src.text ++ " across filesystems")
      files (.relocate src dst)
        (moveByCopy site (decide (w.tree.at? k = some .dir)) src dst)
      log .debug ("Moved " ++ src.text ++ " to " ++ dst.text) : Act σ Unit) w := by
  have hfiles : files (.relocate src dst) (moveWithin site src dst) w =
      .ok (some (decide (w.tree.at? k = some .dir))) { w with tree := w.tree } :=
    files_of_ok (moveWithin_of_crossing hk htarget hcross)
  exact bind_of_ok hfiles _

lemma relocate_crossing_ends {P E : Tree → Prop}
    (h : (moveByCopy site (decide (w.tree.at? k = some .dir)) src dst w.tree).Ends P E) :
    (relocate site src dst w).Ends (fun v => P v.tree) fun v => E v.tree := by
  have hlog (message : String) (v : World σ) :
      (log .debug message v).Ends (fun u => u.tree = v.tree) fun _ => False := rfl
  rw [relocate_of_crossing hk htarget hcross]
  refine ends_bind (hlog _ w) (fun _ v hv => ?_) fun _ hv => hv.elim
  have hcall : (moveByCopy site (decide (w.tree.at? k = some .dir)) src dst v.tree).Ends P E := by
    rwa [hv]
  refine ends_bind (files_ends (.relocate src dst) hcall) (fun _ u hu => ?_) fun _ hu => hu
  exact (hlog _ u).imp (fun _ hsame => hsame ▸ hu) fun _ hfalse => hfalse.elim

end crossing

section across
variable {w : World σ} (hsrc : w.tree.slot site src = .ok ⟨d, .name m⟩)
  (hdst : w.tree.slot site dst = .ok ⟨p, .name n⟩) (hoff : ¬(m :: d) <:+ p)
  (htidy : w.tree.Tidy (m :: d))
  (hcross : Tree.rename site src dst w.tree = .error .otherFileSystem)
include hsrc hdst hoff htidy hcross

lemma relocate_like_within (h : Transferable site src dst (m :: d) (n :: p) w.tree) :
    ∃ v v', relocate site src dst w = .ok () v ∧
      relocate { site with mounts := [] } src dst w = .ok () v' ∧ v.tree = v'.tree := by
  have hne : m :: d ≠ n :: p := by
    obtain ⟨s, s', hs, hs', hvolumes⟩ := Tree.volume_ne_of_rename hcross
    obtain rfl := Except.ok.inj (hsrc.symm.trans hs)
    obtain rfl := Except.ok.inj (hdst.symm.trans hs')
    exact fun heq => hvolumes (congrArg site.volume (List.cons.inj heq).2)
  have happ := h.apart hoff hne
  have hends := relocate_crossing_ends (h.follow_eq hsrc) (checkTarget_of_slot hdst) hcross
    (h.moveByCopy_ends hsrc hdst happ htidy)
  have hshift := Tree.shifted_move (Tree.dir_of_slot hdst) (List.cons_ne_nil m d) happ
  -- looking up takes no notice of file systems
  have hwithin : Transferable { site with mounts := [] } src dst (m :: d) (n :: p) w.tree :=
    ⟨h.there, h.linkless, h.way, h.slashes, h.fits, h.stays⟩
  have hmoved := hwithin.moved hsrc hdst rfl happ
  rcases relocate_cases (rfl : ({ site with mounts := [] } : Site).mounts = []) src dst w with
    ⟨v', hone, hmoved'⟩ | ⟨-, hnot⟩
  · cases hrun : relocate site src dst w with
    | error e v =>
      rw [hrun] at hends
      exact hends.elim
    | ok _ v =>
      rw [hrun] at hends
      have hsame := Except.ok.inj (hmoved.rename.symm.trans hmoved'.rename)
      exact ⟨v, v', rfl, hone, hends.unique (hsame ▸ hshift)⟩
  · exact absurd hmoved (hnot _)

lemma source_kept_of_relocate_error {e : Error} {v : World σ}
    (hdir : w.tree.at? (m :: d) = some .dir) (hfree : w.tree.at? (n :: p) = none)
    (hrun : relocate site src dst w = .error e v) (r : Place) :
    v.tree.at? (r ++ m :: d) = w.tree.at? (r ++ m :: d) := by
  cases hk : w.tree.follow site src with
  | error x =>
    have hfirst : moveWithin site src dst w.tree = .error x w.tree :=
      bind_of_error (FileCall.ask_of_error hk) _
    have hfails : relocate site src dst w = _ := bind_of_error (files_of_error hfirst) _
    rw [hfails] at hrun
    cases hrun
    rfl
  | ok k =>
    have hlen : m.length ≤ Tree.nameLimit :=
      (Approaches.of_slot hsrc).length_le (Tree.fits_of_follow hk) m (by simp)
    have hnear := approaches_of_slot_dir hsrc hdir hlen
    obtain rfl : m :: d = k := by
      rw [hnear.follow_of_dir (Tree.fits_of_follow hk).check] at hk
      exact Except.ok.inj hk
    have hcopy := moveByCopy_dir_ends hsrc hdst hdir hlen hfree hoff htidy
    rw [← decide_eq_true hdir] at hcopy
    have hends := relocate_crossing_ends hk (checkTarget_of_slot hdst) hcross hcopy
    rw [hrun] at hends
    refine hends.1.at?_append hfree (by simp [hdir]) (fun hin => ?_) r
    rcases List.suffix_cons_iff.1 hin with heq | hin
    · rw [heq, hfree] at hdir
      cases hdir
    · exact hoff hin

end across

/-- Where a move crosses to another file system, a file or a directory without links in it is moved
as it is on one file system. A directory that is not moved is still there with all that is in it. -/
theorem relocate_across {w : World σ} (hsrc : w.tree.slot site src = .ok ⟨d, .name m⟩)
    (hdst : w.tree.slot site dst = .ok ⟨p, .name n⟩) (hoff : ¬(m :: d) <:+ p)
    (htidy : w.tree.Tidy (m :: d))
    (hcross : Tree.rename site src dst w.tree = .error .otherFileSystem) :
    (Transferable site src dst (m :: d) (n :: p) w.tree →
      ∃ v v', relocate site src dst w = .ok () v ∧
        relocate { site with mounts := [] } src dst w = .ok () v' ∧ v.tree = v'.tree) ∧
    (w.tree.at? (m :: d) = some .dir → w.tree.at? (n :: p) = none →
      ∀ e v, relocate site src dst w = .error e v →
        ∀ r, v.tree.at? (r ++ m :: d) = w.tree.at? (r ++ m :: d)) :=
  ⟨relocate_like_within hsrc hdst hoff htidy hcross, fun hdir hfree _ _ hrun =>
    source_kept_of_relocate_error hsrc hdst hoff htidy hcross hdir hfree hrun⟩

/-- Surroundings in which another file system begins at `other`. -/
def besideOther : Site := { cwd := [], mounts := [[Utf8.encode "other"]] }

theorem relocate_across_nested :
    let dir := Utf8.encode "dir"
    let src := Path.ofString "dir"
    let dst := Path.ofString "other/dir"
    (∀ t ∈ [nested, nestedWithLink "nowhere"], t.slot besideOther src = .ok ⟨[], .name dir⟩ ∧
      t.slot besideOther dst = .ok ⟨[Utf8.encode "other"], .name dir⟩ ∧
      ¬[dir] <:+ [Utf8.encode "other"] ∧ t.Tidy [dir] ∧
      Tree.rename besideOther src dst t = .error .otherFileSystem) ∧
    Transferable besideOther src dst [dir] [dir, Utf8.encode "other"] nested ∧
    (∃ v v', relocate (σ := Unit) besideOther src dst ⟨nested, (), []⟩ = .ok () v ∧
      relocate { besideOther with mounts := [] } src dst ⟨nested, (), []⟩ = .ok () v' ∧
      v.tree = v'.tree) ∧
    ∃ e v, relocate (σ := Unit) besideOther src dst ⟨nestedWithLink "nowhere", (), []⟩ =
        .error e v ∧
      ∀ r, v.tree.at? (r ++ [dir]) = (nestedWithLink "nowhere").at? (r ++ [dir]) := by
  intro dir src dst
  have hall : ∀ t ∈ [nested, nestedWithLink "nowhere"],
      t.slot besideOther src = .ok ⟨[], .name dir⟩ ∧
      t.slot besideOther dst = .ok ⟨[Utf8.encode "other"], .name dir⟩ ∧
      ¬[dir] <:+ [Utf8.encode "other"] ∧ t.Tidy [dir] ∧
      Tree.rename besideOther src dst t = .error .otherFileSystem := by
    decide +kernel
  have hlinks : nested.Linkless := by decide +kernel
  have hfree : ∀ t ∈ [nested, nestedWithLink "nowhere"],
      t.at? [dir] = some .dir ∧ t.at? [dir, Utf8.encode "other"] = none := by
    decide +kernel
  have htransferable :
      Transferable besideOther src dst [dir] [dir, Utf8.encode "other"] nested := by
    obtain ⟨hdir, hnone⟩ := hfree nested (.head _)
    refine ⟨by simp [hdir], fun r target => hlinks _ target, fun e he => ?_,
      fun hfile => absurd hdir hfile, by decide +kernel, by decide +kernel⟩
    rw [hnone] at he
    cases he
  refine ⟨hall, htransferable, ?_, ?_⟩
  · obtain ⟨hsrc, hdst, hoff, htidy, hcross⟩ := hall nested (.head _)
    exact (relocate_across (w := ⟨nested, (), []⟩) hsrc hdst hoff htidy hcross).1 htransferable
  · obtain ⟨hsrc, hdst, hoff, htidy, hcross⟩ := hall (nestedWithLink "nowhere") (.tail _ (.head _))
    have hsafe := (relocate_across (w := ⟨nestedWithLink "nowhere", (), []⟩) hsrc hdst hoff htidy
      hcross).2 (hfree _ (.tail _ (.head _))).1 (hfree _ (.tail _ (.head _))).2
    have hfails : (relocate (σ := Unit) besideOther src dst
        ⟨nestedWithLink "nowhere", (), []⟩).Ends (fun _ => False) fun _ => True := by
      decide +kernel
    cases hrun : relocate (σ := Unit) besideOther src dst ⟨nestedWithLink "nowhere", (), []⟩ with
    | ok _ v =>
      rw [hrun] at hfails
      exact hfails.elim
    | error e v => exact ⟨e, v, rfl, hsafe e v hrun⟩

/-- A move to another file system is not like one within a file system where a path of the copy is
too long, where the source is found by way of what is in it, and where the last step of its path is
not its name: it is refused, leaves the directory behind or is refused after the directory has been
emptied. A file is not moved to a free name with a slash after it. -/
theorem relocate_across_unlike_within :
    let dir := Utf8.encode "dir"
    let move (site : Site) (t : Tree) (src : String) (dst : Path) :=
      relocate (σ := Unit) site (.ofString src) dst ⟨t, (), []⟩
    let near := Path.ofString "other/dir"
    let within : Site := { besideOther with mounts := [] }
    let t := nestedWithLink "sub/file"
    (nested.Linkless ∧ ∀ u ∈ [nested, t], u.at? [dir] = some .dir ∧
      u.at? [dir, Utf8.encode "other"] = none) ∧
    (∀ src ∈ ["dir", "dir/sub/../../dir", "dir/."], ∀ dst ∈ [faraway, near], ∀ u ∈ [nested, t],
      u.follow besideOther (.ofString src) = .ok [dir] ∧
        u.slot besideOther dst = .ok ⟨[Utf8.encode "other"], .name dir⟩ ∧
        Tree.rename besideOther (.ofString src) dst u = .error .otherFileSystem) ∧
    ((move within nested "dir" faraway).Ends (fun _ => True) fun _ => False) ∧
    ((move besideOther nested "dir" faraway).Ends (fun _ => False) fun _ => True) ∧
    ((move within nested "dir/sub/../../dir" near).Ends
      (fun v => v.tree.at? [dir] = none) fun _ => False) ∧
    ((move besideOther nested "dir/sub/../../dir" near).Ends
      (fun v => v.tree.at? [dir] = some .dir) fun _ => False) ∧
    ((move besideOther t "dir/." near).Ends (fun _ => False)
      fun v => v.tree.at? [Utf8.encode "sub", dir] = none) ∧
    nested.slot besideOther (.ofString "other/file/") =
        .ok ⟨[Utf8.encode "other"], .name (Utf8.encode "file")⟩ ∧
      Tree.rename besideOther (.ofString "dir/sub/file") (.ofString "other/file/") nested =
        .error .otherFileSystem ∧
      (move besideOther nested "dir/sub/file" (.ofString "other/file/")).Ends (fun _ => False)
        fun _ => True := by
  decide +kernel

end Act
end FirmwareTasks
