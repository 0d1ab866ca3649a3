import FirmwareTasks.Proofs.Files.Copying
import FirmwareTasks.Proofs.Files.Lexical
import FirmwareTasks.Proofs.Files.Missing
import FirmwareTasks.Proofs.Run.Script
/-!
Copying a directory to a path where nothing is. All of it is copied, with the files that links in it
lead to in place of the links; or the copy is refused, and what was there before is as it was.
-/
namespace FirmwareTasks
open EStateM
open Files
open FirmwareTasks.Tree (Adds Approaches Replica below faraway nested nestedWithLink)

variable {σ : Type} {site : Site} {src dst path : Path} {t u : Tree} {q b k : Place} {e : IoError}

namespace Tree

/-- Nothing is where a path goes. As far as there is anything on the way it leads through
directories and links to them, and from the last directory it goes on by names. -/
def VacantAt (t : Tree) (site : Site) (path : Path) (b : Place) : Prop :=
  ∃ D w ws, t.Approaches site path D (w :: ws) ∧ t.at? (w :: D) = none ∧ below D (w :: ws) = b

lemma VacantAt.at?_eq_none (h : t.VacantAt site path b) : t.at? b = none := by
  obtain ⟨D, w, ws, -, hfree, rfl⟩ := h
  exact at?_below_eq_none ws hfree

lemma vacantAt_of_names {w : Bytes} {ws : List Bytes} (hnames : path.names = w :: ws)
    (hrel : path.isAbsolute = false) (hws : ∀ x ∈ w :: ws, x ≠ Path.dot ∧ x ≠ Path.dotDot)
    (hdir : t.at? site.cwd = some .dir) (hfree : t.at? (w :: site.cwd) = none) :
    t.VacantAt site path (below site.cwd (w :: ws)) := by
  refine ⟨site.cwd, w, ws, ⟨⟨[], linkLimit, hnames, ?_⟩, hdir, hws⟩, hfree, rfl⟩
  rw [startOf, hrel]
  exact .done trivial

/-- A path leads to no file, and does not when something comes in at a place: it leads to a
directory, or it comes to a place where nothing is that is neither in nor around the other. -/
def LeadsToNoFile (t : Tree) (site : Site) (path : Path) (b : Place) : Prop :=
  (∃ k, t.follow site path = .ok k ∧ t.at? k = some .dir) ∨
    (∀ k, t.follow site path ≠ .ok k) ∧ ∀ k, t.PathMisses site path k → Apart k b

lemma LeadsToNoFile.not_isFileAt (h : t.LeadsToNoFile site path b) (hadds : Adds b t u) :
    ¬u.isFileAt site path = true := by
  intro hfile
  obtain ⟨j, c, x, hj, hat⟩ := isFileAt_iff.1 hfile
  rcases h with ⟨k, hk, hdir⟩ | ⟨hnone, hmiss⟩
  · have hsame := follow_mono hadds.le hk
    rw [hj] at hsame
    obtain rfl := Except.ok.inj hsame
    rw [hadds.le _ _ hdir] at hat
    cases hat
  · rcases follow_eq_or_misses hadds.le site path with hsame | ⟨k, hk, hsome⟩
    · exact hnone j (hsame.symm.trans hj)
    · obtain ⟨hkb, hbk⟩ := hmiss k hk
      rcases hadds.rest k hbk hk.at?_eq_none with hempty | ⟨hin, -⟩
      · simp [hempty] at hsome
      · exact hkb hin

end Tree

namespace Files

/-- A directory is copied to where nothing is: all of it if that can be done, and nothing that was
there is changed in any case. -/
theorem copyWhole_ends (hq : t.follow site src = .ok q) (hdir : t.at? q = some .dir)
    (hdst : t.VacantAt site dst b) (hoff : ¬q <:+ b) (htidy : t.Tidy q) :
    (copyWhole site src dst t).Ends (fun u => Adds b t u ∧ Replica site src dst q b u)
      fun u => Adds b t u ∧ ¬t.Copyable site q src dst := by
  obtain ⟨D, w, ws, hway, hfree, rfl⟩ := hdst
  have hsrc := Approaches.of_follow hq hdir
  rw [copyWhole_of_isDirAt (Tree.isDirAt_of_follow hq hdir), hway.existsAt_eq_false hfree,
    if_neg Bool.false_ne_true]
  exact copyDir_ends site Tree.pathLimit hsrc hway hfree hoff htidy (Nat.le_add_right _ _)

end Files

namespace Act
variable {w : World σ}

lemma copyTree_of_ok (h : copyWhole site src dst w.tree = .ok () t) :
    ∃ v, copyTree site src dst w = .ok () v ∧ v.tree = t := by
  have hfiles : files (.copy src dst) (copyWhole site src dst) w = .ok () { w with tree := t } :=
    files_of_ok h
  exact ⟨_, bind_of_ok hfiles _, rfl⟩

lemma copyTree_of_error (h : copyWhole site src dst w.tree = .error e t) :
    copyTree site src dst w = .error (.copy src dst e) { w with tree := t } := by
  have hfiles : files (.copy src dst) (copyWhole site src dst) w =
      .error (.copy src dst e) { w with tree := t } := files_of_error h
  exact bind_of_error hfiles _

lemma copyTree_refused (h : w.tree.isDirAt site src = false ∨ w.tree.existsAt site dst = true) :
    ∃ e v, copyTree site src dst w = .error (.copy src dst e) v ∧ v.tree = w.tree := by
  have hrun : ∃ e, copyWhole site src dst w.tree = .error e w.tree := by
    cases hdir : w.tree.isDirAt site src with
    | false => exact copyWhole_of_not_isDirAt hdir
    | true =>
      rw [copyWhole_of_isDirAt hdir, if_pos (h.resolve_left (by simp [hdir]))]
      exact ⟨_, rfl⟩
  obtain ⟨e, hrun⟩ := hrun
  exact ⟨e, _, copyTree_of_error hrun, rfl⟩

/-- What is no directory is not copied, nor is anything to where something is; then nothing is
changed. A directory is copied to where nothing is, off itself, if every path of the copy can be
given to the system and every link in it leads to a file: then all that is in it is at the target,
with the file that a link leads to in place of the link. It is not copied if a link in it leads to
no file, whatever comes in at the target. In either case nothing else is changed but that there are
directories on the way to the target. -/
theorem copyTree_ends (site : Site) (src dst : Path) (w : World σ) :
    (w.tree.isDirAt site src = false ∨ w.tree.existsAt site dst = true →
      ∃ e v, copyTree site src dst w = .error (.copy src dst e) v ∧ v.tree = w.tree) ∧
    ∀ q b, w.tree.follow site src = .ok q → w.tree.at? q = some .dir →
      w.tree.VacantAt site dst b → ¬q <:+ b → w.tree.Tidy q →
      (w.tree.Copyable site q src dst →
        ∃ v, copyTree site src dst w = .ok () v ∧ Adds b w.tree v.tree ∧
          ∀ r, v.tree.at? (r ++ b) = w.tree.image site q src r) ∧
      ((∃ r target, w.tree.at? (r ++ q) = some (.link target) ∧
          w.tree.LeadsToNoFile site (src.inside r) b) →
        ∃ e v, copyTree site src dst w = .error (.copy src dst e) v ∧ Adds b w.tree v.tree) := by
  refine ⟨copyTree_refused, fun q b hq hdir hdst hoff htidy => ?_⟩
  have hcopy := copyWhole_ends hq hdir hdst hoff htidy
  cases hrun : copyWhole site src dst w.tree with
  | ok _ u =>
    rw [hrun] at hcopy
    obtain ⟨hadds, hreplica⟩ := hcopy
    obtain ⟨v, hv, rfl⟩ := copyTree_of_ok hrun
    have hkept := hadds.at?_append hdst.at?_eq_none (a := q) (by simp [hdir]) hoff
    refine ⟨fun hcond => ⟨v, hv, hadds, fun r => ?_⟩, ?_⟩
    · rw [hreplica.copy, Tree.image_grow hcond.links hadds.le hkept]
    · rintro ⟨r, target, hlink, hnone⟩
      exact absurd (hreplica.links r target ((hkept r).trans hlink)) (hnone.not_isFileAt hadds)
  | error e u =>
    rw [hrun] at hcopy
    exact ⟨fun hcond => absurd hcond hcopy.2, fun _ => ⟨e, _, copyTree_of_error hrun, hcopy.1⟩⟩

theorem copyTree_ends_nested :
    let site : Site := { cwd := [] }
    let src := Path.ofString "dir"
    let dst := Path.ofString "new/dir"
    let q := [Utf8.encode "dir"]
    let b := [Utf8.encode "dir", Utf8.encode "new"]
    (∀ t ∈ [nestedWithLink "sub/file", nestedWithLink "sub"], t.isDirAt site dst = false ∧
      t.follow site src = .ok q ∧ t.at? q = some .dir ∧ t.VacantAt site dst b ∧ ¬q <:+ b ∧
      t.Tidy q) ∧
    (∃ e v, copyTree (σ := Unit) site dst src ⟨nestedWithLink "sub", (), []⟩ =
        .error (.copy dst src e) v ∧ v.tree = nestedWithLink "sub") ∧
    ((nestedWithLink "sub/file").Copyable site q src dst ∧
      ∃ v, copyTree (σ := Unit) site src dst ⟨nestedWithLink "sub/file", (), []⟩ = .ok () v ∧
        Adds b (nestedWithLink "sub/file") v.tree ∧
        ∀ r, v.tree.at? (r ++ b) = (nestedWithLink "sub/file").image site q src r) ∧
    (nestedWithLink "sub").LeadsToNoFile site (src.inside [Utf8.encode "link"]) b ∧
      ∃ e v, copyTree (σ := Unit) site src dst ⟨nestedWithLink "sub", (), []⟩ =
          .error (.copy src dst e) v ∧ Adds b (nestedWithLink "sub") v.tree := by
  intro site src dst q b
  have hall : ∀ t ∈ [nestedWithLink "sub/file", nestedWithLink "sub"],
      t.isDirAt site dst = false ∧ t.follow site src = .ok q ∧ t.at? q = some .dir ∧
        t.at? [Utf8.encode "new"] = none ∧ ¬q <:+ b ∧ t.Tidy q := by
    decide +kernel
  have hvacant (t : Tree) (ht : t ∈ [nestedWithLink "sub/file", nestedWithLink "sub"]) :
      t.VacantAt site dst b := by
    have hnames : dst.names = ["new", "dir"].map Utf8.encode := by decide +kernel
    exact Tree.vacantAt_of_names hnames (by decide +kernel) (by decide +kernel) rfl
      (hall t ht).2.2.2.1
  have hcopyable : (nestedWithLink "sub/file").Copyable site q src dst :=
    ⟨by decide +kernel, by decide +kernel⟩
  have hlink : (nestedWithLink "sub").LeadsToNoFile site (src.inside [Utf8.encode "link"]) b :=
    .inl ⟨[Utf8.encode "sub", Utf8.encode "dir"], by decide +kernel, by decide +kernel⟩
  refine ⟨fun t ht => ?_, ?_, ⟨hcopyable, ?_⟩, hlink, ?_⟩
  · obtain ⟨hnot, hq, hdir, -, hoff, htidy⟩ := hall t ht
    exact ⟨hnot, hq, hdir, hvacant t ht, hoff, htidy⟩
  · exact (copyTree_ends site dst src ⟨nestedWithLink "sub", (), []⟩).1
      (.inl (hall _ (.tail _ (.head _))).1)
  · obtain ⟨-, hq, hdir, -, hoff, htidy⟩ := hall _ (.head _)
    exact ((copyTree_ends site src dst ⟨nestedWithLink "sub/file", (), []⟩).2 q b hq hdir
      (hvacant _ (.head _)) hoff htidy).1 hcopyable
  · obtain ⟨-, hq, hdir, -, hoff, htidy⟩ := hall _ (.tail _ (.head _))
    exact ((copyTree_ends site src dst ⟨nestedWithLink "sub", (), []⟩).2 q b hq hdir
      (hvacant _ (.tail _ (.head _))) hoff htidy).2
      ⟨[Utf8.encode "link"], Utf8.encode "sub", by decide +kernel, hlink⟩

/-- A directory without links is not copied to where nothing is if the path of what is in it gets
too long; and a link that leads nowhere at first may lead to a file by way of a directory that is
made for the copy. -/
theorem copyTree_not_as_links_lead :
    let site : Site := { cwd := [] }
    let src := Path.ofString "dir"
    let dst := Path.ofString "new/dir"
    let q := [Utf8.encode "dir"]
    let b := [Utf8.encode "dir", Utf8.encode "new"]
    let t := nestedWithLink "../new/../dir/sub/file"
    let link := src.inside [Utf8.encode "link"]
    (∀ u ∈ [nested, t], u.follow site src = .ok q ∧ u.at? q = some .dir ∧ u.Tidy q) ∧
    (nested.Linkless ∧
      nested.slot site faraway = .ok ⟨[Utf8.encode "other"], .name (Utf8.encode "dir")⟩ ∧
      nested.at? [Utf8.encode "dir", Utf8.encode "other"] = none ∧
      ¬q <:+ [Utf8.encode "dir", Utf8.encode "other"] ∧
      (copyTree (σ := Unit) site src faraway ⟨nested, (), []⟩).Ends (fun _ => False)
        fun _ => True) ∧
    t.VacantAt site dst b ∧ (¬q <:+ b) ∧ t.at? (Utf8.encode "link" :: q) =
        some (.link (Utf8.encode "../new/../dir/sub/file")) ∧
      t.follow site link = .error .noEntry ∧ (∀ k, t.PathMisses site link k → ¬b <:+ k) ∧
      (copyTree (σ := Unit) site src dst ⟨t, (), []⟩).Ends
        (fun v => v.tree.at? (Utf8.encode "link" :: b) =
          some (.file (Utf8.encode "content") true)) fun _ => False := by
  intro site src dst q b t link
  have hmiss : t.PathMisses site link [Utf8.encode "new"] := by
    have hsteps : link.steps = ["dir", "link"].map Utf8.encode := by decide +kernel
    have hsteps' : Path.steps ⟨Utf8.encode "../new/../dir/sub/file"⟩ =
        Path.dotDot :: ["new", "..", "dir", "sub", "file"].map Utf8.encode := by
      decide +kernel
    have hstart : Tree.startOf q ⟨Utf8.encode "../new/../dir/sub/file"⟩ = q := by decide +kernel
    have hstart' : Tree.startOf site.cwd link = [] := by decide +kernel
    have hlink : t.child? q (Utf8.encode "link") =
        .ok (some (.link (Utf8.encode "../new/../dir/sub/file"))) := by
      decide +kernel
    rw [Tree.PathMisses, hstart', hsteps]
    refine .name (o := some .dir) rfl (by decide +kernel) (by decide +kernel) (by simp) ?_
    refine .link (by decide +kernel) (by decide +kernel) hlink ?_
    rw [hstart, hsteps']
    refine .outside (by decide +kernel) ?_
    exact .name (o := none) rfl (by decide +kernel) (by decide +kernel) (by simp)
      (.stop (by decide +kernel))
  have hvacant : t.VacantAt site dst b := by
    have hnames : dst.names = ["new", "dir"].map Utf8.encode := by decide +kernel
    exact Tree.vacantAt_of_names hnames (by decide +kernel) (by decide +kernel) rfl
      (by decide +kernel)
  refine ⟨by decide +kernel, by decide +kernel, hvacant, by decide +kernel, by decide +kernel,
    by decide +kernel, fun k hk => ?_, by decide +kernel⟩
  rw [hk.unique hmiss]
  decide +kernel

end Act
end FirmwareTasks
