import FirmwareTasks.Proofs.Files.Frame
import FirmwareTasks.Proofs.Run.Clean
/-!
What a run leaves alone. Each task owns a few places; a run changes the tree only at and inside the
places that its planned tasks own, and makes directories only on the way to them.
-/
namespace FirmwareTasks
open EStateM
open FirmwareTasks.Tree (below Area Confined)

variable {σ α β : Type}

namespace Act

/-- However the action ends, it has changed the tree within a relation. -/
def Within (R : Tree → Tree → Prop) (m : Act σ α) : Prop := ∀ w, R w.tree (m w).state.tree

namespace Within
variable {R : Tree → Tree → Prop} [IsPreorder Tree R] {m : Act σ α} {site : Site}

lemma pure (a : α) : Within R (Pure.pure a : Act σ α) := fun w => refl_of R w.tree

lemma throw (e : Error) : Within R (throw e : Act σ α) := fun w => refl_of R w.tree

lemma log (level : Level) (message : String) : Within R (log level message : Act σ Unit) :=
  fun w => refl_of R w.tree

lemma printLine (line : String) : Within R (printLine line : Act σ Unit) :=
  fun w => refl_of R w.tree

lemma ofExcept (x : Except Error α) : Within R (ofExcept x : Act σ α) := by
  cases x with
  | ok a => exact pure a
  | error e => exact throw e

lemma bind {f : α → Act σ β} (hm : Within R m) (hf : ∀ a w u, m w = .ok a u → Within R (f a)) :
    Within R (m >>= f) := by
  intro w
  have hfirst := hm w
  cases h : m w with
  | ok a u =>
    rw [h] at hfirst
    rw [bind_of_ok h]
    exact trans_of R hfirst (hf a w u h u)
  | error e u =>
    rw [h] at hfirst
    rw [bind_of_error h]
    exact hfirst

omit [IsPreorder Tree R] in
lemma look {f : World σ → Act σ α} (h : ∀ w, Within R (f w)) : Within R (get >>= f) :=
  fun w => h w w

omit [IsPreorder Tree R] in
lemma files {wrap : IoError → Error} {call : FileCall α} (h : FileCall.Within R call) :
    Within R (files wrap call : Act σ α) := by
  intro w
  have hcall := h w.tree
  cases hc : call w.tree with
  | ok a t =>
    rw [hc] at hcall
    rw [files_of_ok hc]
    exact hcall
  | error e t =>
    rw [hc] at hcall
    rw [files_of_error hc]
    exact hcall

lemma launch {ctx : Context σ} (h : ∀ inv s t, (ctx.runner inv s t).tree = t) (inv : Invocation) :
    Within R (ctx.launch inv) := by
  intro w
  rw [Context.state_launch, Context.launched, h]
  exact refl_of R w.tree

lemma searchPath (ctx : Context σ) (profile : Option Profile) :
    Within R (ctx.searchPath profile) := by
  cases profile with
  | none => exact pure none
  | some p =>
    refine bind (ofExcept _) fun path _ _ _ => ?_
    exact bind (log _ _) fun _ _ _ _ => pure _

lemma command (ctx : Context σ) (program : Bytes) (cwd : Path) (profile : Option Profile) :
    Within R (ctx.command program cwd profile) :=
  bind (searchPath ctx profile) fun _ _ _ _ => pure _

end Within

section area
variable {A : Area} {site : Site} {path src dst : Path}

lemma within_ensureAbsent (h : A.Holds site path) :
    Within (Confined A) (ensureAbsent site path : Act σ Unit) := by
  refine .bind (.files (Files.Confined.removeIfThere h)) fun removed _ _ _ => ?_
  cases removed with
  | true => exact .log _ _
  | false => exact .pure _

lemma within_ensureFresh (h : A.Holds site path) :
    Within (Confined A) (ensureFresh site path : Act σ Unit) := by
  refine .bind (within_ensureAbsent h) fun _ _ _ _ => ?_
  exact .bind (.files (Files.Confined.makeDirs h)) fun _ _ _ _ => .log _ _

lemma within_relocate (hsrc : A.Holds site src) (hdst : A.Holds site dst) :
    Within (Confined A) (relocate site src dst : Act σ Unit) := by
  refine .bind (.files (.bind (.ask _) fun p => .look fun t => ?_)) fun crossing _ _ _ => ?_
  · refine .bind (Files.Confined.checkTarget site dst) fun _ => ?_
    refine .tryCatch (.bind (Files.Confined.rename hsrc hdst) fun _ => .pure _) fun e => ?_
    split
    · exact .pure _
    · exact .throw e
  · cases crossing with
    | none => exact .log _ _
    | some isDir =>
      refine .bind (.log _ _) fun _ _ _ _ => ?_
      exact .bind (.files (Files.Confined.moveByCopy isDir hsrc hdst)) fun _ _ _ _ => .log _ _

lemma within_copyTree (hdst : A.Holds site dst) :
    Within (Confined A) (copyTree site src dst : Act σ Unit) := by
  have hcheck : FileCall.Within (Confined A) (do
      if (← get).existsAt site dst then throw (.other "destination already exists")
      Files.copyDir site Tree.pathLimit src dst) := by
    refine .look fun t => ?_
    split
    · exact .bind (.throw _) fun _ => Files.Confined.copyDir _ hdst
    · exact Files.Confined.copyDir _ hdst
  refine .bind (.files (.look fun t => ?_)) fun _ _ _ _ => .log _ _
  split
  · exact .bind (.throw _) fun _ => hcheck
  · exact hcheck

end area
end Act

namespace Context
variable (ctx : Context σ)

/-- The places that a task owns, by the names that lead there from the root. -/
def ownedNames : Task → List (List Bytes)
  | .configure => [ctx.config.layout.buildDir.names]
  | .cleanAll => [ctx.config.layout.buildDir.names, ctx.config.layout.doxyXmlDir.names]
  | .testJunit =>
    let report := Path.ofString ctx.config.project.junitReport
    [report.names, ctx.config.layout.artifactsDir.names ++ report.names]
  | .cov =>
    let dir := ctx.config.layout.coverageDir
    [dir.names, ctx.config.layout.artifactsDir.names ++ dir.names.getLast?.toList]
  | .doxy => [ctx.config.layout.doxyOutDir.names, ctx.config.layout.doxyXmlDir.names]
  | .breathe => [ctx.config.layout.sphinxStaleDir.names]
  | _ => []

/-- A place at or inside one that some of the tasks own in `R`. -/
def Owned (ts : List Task) (R k : Place) : Prop :=
  ∃ t ∈ ts, ∃ xs ∈ ctx.ownedNames t, below R xs <:+ k

instance (ts : List Task) (R : Place) : DecidablePred (ctx.Owned ts R) := fun _ =>
  inferInstanceAs (Decidable (∃ _ ∈ ts, ∃ _ ∈ _, _))

/-- A place outside one that some of the tasks own in `R`. -/
def OutsideOwned (ts : List Task) (R k : Place) : Prop :=
  ∃ t ∈ ts, ∃ xs ∈ ctx.ownedNames t, k <:+ below R xs

/-- What tasks may change: directories may come in on the way to their places. -/
def area (ts : List Task) : Area where
  own := ctx.Owned ts (ctx.site.spell ctx.root)
  made k := ctx.OutsideOwned ts (ctx.site.spell ctx.root) k ∨
    ∃ ys, ys <+: ctx.root.names ∧ k = spell (Tree.startOf ctx.site.cwd ctx.root) ys
  own_of_suffix := fun ⟨t, ht, xs, hxs, hin⟩ hpq => ⟨t, ht, xs, hxs, hin.trans hpq⟩

variable {ctx}

theorem holds {ts : List Task} {t : Task} (ht : t ∈ ts) {xs : List Bytes}
    (hxs : xs ∈ ctx.ownedNames t) {path : Path} (hpath : Tree.Continues ctx.root path xs)
    (hends : ∃ outer s, path.EndsIn outer s) : (ctx.area ts).Holds ctx.site path := by
  refine ⟨hends, ?_, fun ys hys => .inr ?_⟩
  · rw [hpath.spell_eq]
    exact ⟨t, ht, xs, hxs, List.suffix_rfl⟩
  · rcases hpath.prefix_cases hys with hroot | ⟨zs, hzs, rfl⟩
    · exact .inr ⟨ys, hroot, by rw [hpath.startOf_eq]⟩
    · rw [hpath.spell_prefix hzs]
      exact .inl ⟨t, ht, xs, hxs, Tree.below_suffix_iff.2 hzs⟩

section tasks
variable {ts : List Task}

lemma within_documentation {R : Tree → Tree → Prop} [IsPreorder Tree R] (ctx : Context σ) :
    Act.Within R ctx.documentation := by
  unfold documentation
  split
  · exact .bind (.log _ _) fun _ _ _ _ => .pure _
  · refine .bind (.log _ _) fun _ _ _ _ => ?_
    exact .bind (.ofExcept _) fun _ _ _ _ => .pure _

lemma holds_path {t : Task} (ht : t ∈ ts) {dir : Path} (hdir : dir.Ordinary)
    (hxs : dir.names ∈ ctx.ownedNames t) : (ctx.area ts).Holds ctx.site (ctx.path dir) := by
  obtain ⟨outer, s, -, hends⟩ := hdir.endsIn
  exact holds ht hxs (.of_join hdir ctx.root) ⟨_, s, hends _⟩

lemma holds_path_join {t : Task} (ht : t ∈ ts) {dir q : Path} (hdir : dir.Ordinary)
    (hq : q.Ordinary) (hxs : dir.names ++ q.names ∈ ctx.ownedNames t) :
    (ctx.area ts).Holds ctx.site ((ctx.path dir).join q) := by
  obtain ⟨outer, s, -, hends⟩ := hq.endsIn
  exact holds ht hxs ((Tree.Continues.of_join hdir ctx.root).join hq) ⟨_, s, hends _⟩

lemma holds_coverageTarget (ht : .cov ∈ ts) (hl : ctx.config.layout.Ordinary) :
    (ctx.area ts).Holds ctx.site ctx.coverageTarget := by
  obtain ⟨outer, n, hnames, hn, htarget⟩ := ctx.coverageTarget_of_ordinary hl.coverageDir
  rw [htarget]
  refine holds_path_join ht hl.artifactsDir (Path.ordinary_mk hn.1 hn.2) ?_
  simp [ownedNames, Path.names_mk hn.1 hn.2, hnames]

variable (hrunner : ∀ inv s t, (ctx.runner inv s t).tree = t)
include hrunner

lemma within_runBuildTool {R : Tree → Tree → Prop} [IsPreorder Tree R] (t : Task)
    (args : List String) :
    Act.Within R (ctx.runBuildTool t args) := by
  refine .bind (.ofExcept _) fun _ _ _ _ => .bind (.command ctx _ _ _) fun _ _ _ _ => ?_
  exact .launch hrunner _

theorem within_body (hl : ctx.config.layout.Ordinary)
    (hreport : (Path.ofString ctx.config.project.junitReport).Ordinary) (hci : ctx.ci = false)
    {t : Task} (ht : t ∈ ts) : Act.Within (Confined (ctx.area ts)) (ctx.body t) := by
  cases t with
  | env | envGcc =>
    refine .bind (.searchPath ctx _) fun _ _ _ _ => ?_
    exact .bind (.log _ _) fun _ _ _ _ => .printLine _
  | configure =>
    refine .bind (Act.within_ensureFresh (holds_path ht hl.buildDir (.head _))) fun _ _ _ _ => ?_
    exact .bind (.command ctx _ _ _) fun _ _ _ _ => .launch hrunner _
  | all | clean | testConf | testRun => exact within_runBuildTool hrunner _ _
  | cleanAll =>
    refine .bind (Act.within_ensureAbsent (holds_path ht hl.buildDir (.head _))) fun _ _ _ _ => ?_
    exact Act.within_ensureAbsent (holds_path ht hl.doxyXmlDir (.tail _ (.head _)))
  | testJunit =>
    refine .bind (.command ctx _ _ _) fun _ _ _ _ => .bind (.launch hrunner _) fun _ _ _ _ => ?_
    have hsrc := holds_path ht hreport (.head _)
    have hdst := holds_path_join ht hl.artifactsDir hreport (.tail _ (.head _))
    exact .bind (Act.within_relocate hsrc hdst) fun _ _ _ _ => .log _ _
  | cov =>
    have hdir := holds_path ht hl.coverageDir (.head _)
    have htarget := holds_coverageTarget ht hl
    refine .bind (Act.within_ensureFresh hdir) fun _ _ _ _ => ?_
    refine .bind (.command ctx _ _ _) fun _ _ _ _ => .bind (.launch hrunner _) fun _ _ _ _ => ?_
    dsimp only
    split
    · refine .bind (Act.within_ensureAbsent htarget) fun _ _ _ _ => ?_
      exact .bind (Act.within_relocate hdir htarget) fun _ _ _ _ => .log _ _
    · exact .log _ _
  | doxy =>
    have hout := holds_path ht hl.doxyOutDir (.head _)
    have hxml := holds_path ht hl.doxyXmlDir (.tail _ (.head _))
    have hinner := hout.join (n := word "xml") (by decide +kernel)
    refine .bind (within_documentation _) fun (base, tool) w u hdoc => ?_
    obtain rfl : base = ctx.root := by
      rw [(documentation_eq_ok hdoc).1, documentationBase, if_neg (by simp [hci])]
    refine .bind (Act.within_ensureFresh hout) fun _ _ _ _ => ?_
    refine .bind (Act.within_ensureAbsent hxml) fun _ _ _ _ => ?_
    refine .bind (.command ctx _ _ _) fun _ _ _ _ => .bind (.launch hrunner _) fun _ _ _ _ => ?_
    exact .bind (Act.within_copyTree hxml) fun _ _ _ _ => Act.within_ensureAbsent hinner
  | breathe =>
    refine .bind (Act.within_ensureAbsent (holds_path ht hl.sphinxStaleDir (.head _)))
      fun _ _ _ _ => ?_
    exact .bind (.command ctx _ _ _) fun _ _ _ _ => .launch hrunner _
  | showDoc =>
    refine .look fun w => ?_
    split
    · exact .launch hrunner _
    · exact .bind (.log _ _) fun _ _ _ _ => .throw _
  | diff => exact .bind (.command ctx _ _ _) fun _ _ _ _ => .launch hrunner _
  | make | test | doc => exact .pure ()

theorem within_runInOrder (hl : ctx.config.layout.Ordinary)
    (hreport : (Path.ofString ctx.config.project.junitReport).Ordinary) (hci : ctx.ci = false)
    {l : List Task} (hsub : l ⊆ ts) :
    Act.Within (Confined (ctx.area ts)) (ctx.runInOrder l) := by
  induction l with
  | nil => exact .pure ()
  | cons t l ih =>
    obtain ⟨ht, hsub⟩ := List.cons_subset.1 hsub
    refine .bind (.log _ _) fun _ _ _ _ => ?_
    exact .bind (within_body hrunner hl hreport hci ht) fun _ _ _ _ => ih hsub

end tasks

/-- A run leaves the sources alone. However it ends, whatever is not at or inside a place that one
of its planned tasks owns is still there and is what it was; and whatever is new is at or inside
such a place, or is a directory outside one. -/
theorem runTasks_leaves_sources (ctx : Context σ) (hl : ctx.config.layout.Ordinary)
    (hreport : (Path.ofString ctx.config.project.junitReport).Ordinary) (hci : ctx.ci = false)
    (hrunner : ∀ inv s t, (ctx.runner inv s t).tree = t) (requested : List Task) (w : World σ)
    {R : Place} (hroot : w.tree.PathLeads ctx.site (fun _ => True) ctx.root R)
    (hR : w.tree.at? R = some .dir) (hplain : w.tree.Plain) :
    (∀ k e, w.tree.at? k = some e → ¬ctx.Owned (Task.plan requested) R k →
      (ctx.runTasks requested w).state.tree.at? k = some e) ∧
    ∀ k e, w.tree.at? k = none → (ctx.runTasks requested w).state.tree.at? k = some e →
      ctx.Owned (Task.plan requested) R k ∨
        e = .dir ∧ ctx.OutsideOwned (Task.plan requested) R k := by
  obtain rfl : R = ctx.site.spell ctx.root := by
    obtain ⟨m, hm⟩ := hroot
    exact hplain.linkless.eq_of_walk hm.walk_eq
  have hrun : Act.Within (Confined (ctx.area (Task.plan requested))) (ctx.runTasks requested) :=
    .bind (.log _ _) fun _ _ _ _ =>
      within_runInOrder hrunner hl hreport hci (List.Subset.refl _)
  obtain ⟨-, hframe⟩ := hrun w hplain
  constructor
  · intro k e he hk
    rcases hframe k hk with hsame | ⟨hnone, -⟩
    · exact hsame.trans he
    · rw [he] at hnone
      cases hnone
  · intro k e hnone he
    by_cases hk : ctx.Owned (Task.plan requested) (ctx.site.spell ctx.root) k
    · exact .inl hk
    · rcases hframe k hk with hsame | ⟨-, hdir, hmade⟩
      · rw [hsame, hnone] at he
        cases he
      · rw [he, Option.some.injEq] at hdir
        rcases hmade with hout | ⟨ys, hys, rfl⟩
        · exact .inr ⟨hdir, hout⟩
        · -- no directory comes in on the way to the root, which is there already
          rw [hplain.linkless.dir_of_pathLeads hroot hR ys hys] at hnone
          cases hnone

/-- A project with a source beside what an earlier build has left. -/
def withSource : Tree := built.insert [word "main.c", word "project"] (.file (word "int") false)

theorem runTasks_leaves_sources_withSource :
    (rebuilding "project").config.layout.Ordinary ∧ withSource.Plain ∧
    ((rebuilding "project").runTasks [.configure, .doc] ⟨withSource, [], []⟩).state.tree.at?
      [word "main.c", word "project"] = some (.file (word "int") false) := by
  have hl : (rebuilding "project").config.layout.Ordinary := by decide +kernel
  have hplain : withSource.Plain := by decide +kernel
  refine ⟨hl, hplain, ?_⟩
  have hproject : withSource.at? [word "project"] = some .dir := by decide +kernel
  have hroot : withSource.PathLeads (rebuilding "project").site (fun _ => True)
      (rebuilding "project").root [word "project"] :=
    ⟨Tree.linkLimit, .entry trivial Tree.at?_root (by decide +kernel)
      (Tree.child?_eq_ok_iff.2 ⟨by decide +kernel, hproject⟩) (by simp) (.done trivial)⟩
  refine (runTasks_leaves_sources (rebuilding "project") hl (by decide +kernel) rfl
    (fun _ _ _ => rfl) [.configure, .doc] ⟨withSource, [], []⟩ hroot hproject hplain).1 _ _ ?_ ?_
  · decide +kernel
  · decide +kernel

end Context
end FirmwareTasks
