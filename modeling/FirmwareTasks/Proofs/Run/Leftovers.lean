import Mathlib.Data.List.Infix
import FirmwareTasks.Proofs.Run.Agreement
import FirmwareTasks.Proofs.Run.Clean
/-!
What is left of an earlier build. Two runs of a task from trees that differ only in the directories
which it makes anew are one run, unless the task ends before these are clean.
-/
namespace FirmwareTasks
open EStateM Files
open FirmwareTasks.Tree (below)

variable {σ : Type}

namespace Context
variable (ctx : Context σ)

/-- A place that is neither at nor inside a directory that the task makes anew in `R`. -/
def Kept (t : Task) (R k : Place) : Prop := ∀ dir ∈ ctx.recreated t, ¬below R dir.names <:+ k

instance (t : Task) (R : Place) : DecidablePred (ctx.Kept t R) := fun _ =>
  inferInstanceAs (Decidable (∀ _ ∈ _, ¬_))

/-- A place that is kept, or at which both trees hold a directory. -/
def Firm (t : Task) (R : Place) (tree₁ tree₂ : Tree) (k : Place) : Prop :=
  ctx.Kept t R k ∨ tree₁.at? k = some .dir ∧ tree₂.at? k = some .dir

/-- Two trees that are the same but for what is left in the directories that a task makes anew. The
root leads to `R` in both, and no link is on the way from there to these directories. -/
structure Leftovers (t : Task) (R : Place) (tree₁ tree₂ : Tree) : Prop where
  agree : Tree.AgreeOn (ctx.Kept t R) tree₁ tree₂
  root : tree₁.PathLeads ctx.site (ctx.Firm t R tree₁ tree₂) ctx.root R
  isDir : tree₁.at? R = some .dir
  noLinks : ∀ dir ∈ ctx.recreated t, ∀ ys, ys <+: dir.names → ctx.Kept t R (below R ys) →
    ∀ target, tree₁.at? (below R ys) ≠ some (.link target)

/-- How a task may fail before its directories are clean: a path is refused for how it is written,
doxygen is not found in the configuration, or its first directory cannot be made anew. -/
def EndsUnclean (t : Task) (e : Error) : Prop :=
  match t with
  | .configure => ∃ cause : IoError, cause.OfPath ∧ e = .removeDir ctx.buildDir cause
  | .cov => ∃ cause : IoError, cause.OfPath ∧
      e = .removeDir (ctx.path ctx.config.layout.coverageDir) cause
  | .doxy => ctx.program? .doxy = .error e ∨ ∃ cause : IoError,
      e = .removeDir ctx.doxyOut cause ∨ e = .createDir ctx.doxyOut cause ∨
        cause.OfPath ∧ e = .removeDir ctx.doxyXml cause
  | _ => False

/-- A task gets ready alike in two worlds, but for the log, or in both it ends before its
directories are clean. -/
def ReadyAlike (t : Task) (R : Place) (v w : World σ) : Prop :=
  Act.unlogged (ctx.prepare t) v = Act.unlogged (ctx.prepare t) w ∨
  ∃ e v' w', ctx.prepare t v = .error e v' ∧ ctx.prepare t w = .error e w' ∧
    ctx.EndsUnclean t e ∧ World.AgreeOn (ctx.Kept t R) v' w'

variable {ctx}

lemma Leftovers.agree_firm {t : Task} {R : Place} {tree₁ tree₂ : Tree}
    (h : ctx.Leftovers t R tree₁ tree₂) : Tree.AgreeOn (ctx.Firm t R tree₁ tree₂) tree₁ tree₂ := by
  rintro k (hk | ⟨h₁, h₂⟩)
  · exact h.agree k hk
  · rw [h₁, h₂]

lemma Leftovers.dir_of_firm {t : Task} {R k : Place} {tree₁ tree₂ : Tree} {dir : Path}
    (hk : ctx.Firm t R tree₁ tree₂ k) (hmem : dir ∈ ctx.recreated t)
    (hin : below R dir.names <:+ k) : tree₁.at? k = some .dir :=
  (hk.resolve_left fun hk => hk dir hmem hin).1

/-- A directory to be made anew is cleaned alike, if none other is on the way there. -/
theorem Leftovers.clean {t : Task} {R : Place} {v w : World σ} {dir : Path}
    (h : ctx.Leftovers t R v.tree w.tree) (hvw : World.AgreeOn (ctx.Kept t R) v w)
    (hdir : dir.Ordinary) (hmem : dir ∈ ctx.recreated t)
    (hway : ∀ ys, ys <+: dir.names → ys ≠ dir.names → ctx.Kept t R (below R ys)) :
    Act.CleanedAlike (ctx.Firm t R v.tree w.tree) (ctx.root.join dir) (below R dir.names) v w
      (Act.ensureAbsent ctx.site (ctx.root.join dir) v)
      (Act.ensureAbsent ctx.site (ctx.root.join dir) w) := by
  refine Act.ensureAbsent_alike ⟨h.agree_firm, hvw.runner, hvw.events⟩ ?_
  refine removeIfThere_join_alike hdir h.root h.agree_firm (fun ys hys hne => ?_)
    (fun k hk hin => dir_of_firm hk hmem hin)
  have hk := hway ys hys hne
  exact ⟨.inl hk, h.noLinks dir hmem ys hys hk⟩

theorem readyAlike_of_ensureFresh {t : Task} {dir : Path} {rest : Unit → Act σ (Option Invocation)}
    {R : Place} {v w : World σ} (hdir : dir.Ordinary) (hdirs : ctx.recreated t = [dir])
    (hprepare : ctx.prepare t = Act.ensureFresh ctx.site (ctx.root.join dir) >>= rest)
    (hrest : Script ctx quiet (rest ()))
    (hends : ∀ cause : IoError, cause.OfPath →
      ctx.EndsUnclean t (.removeDir (ctx.root.join dir) cause))
    (h : ctx.Leftovers t R v.tree w.tree) (hvw : World.AgreeOn (ctx.Kept t R) v w) :
    ctx.ReadyAlike t R v w := by
  have hkept {k : Place} : ctx.Kept t R k ↔ ¬below R dir.names <:+ k := by simp [Kept, hdirs]
  have hclean := h.clean hvw hdir (by simp [hdirs]) fun ys hys hne =>
    hkept.2 (Tree.not_below_suffix hys hne)
  have hall (k : Place) : ctx.Firm t R v.tree w.tree k ∨ below R dir.names <:+ k := by
    by_cases hin : below R dir.names <:+ k
    · exact .inr hin
    · exact .inl (.inl (hkept.2 hin))
  let next (_ : Unit) : Act σ (Option Invocation) := do
    Act.files (.createDir (ctx.root.join dir)) (makeDirs ctx.site (ctx.root.join dir))
    Act.log .debug ("Created " ++ (ctx.root.join dir).text)
    rest ()
  have hnext : Script ctx quiet (next ()) :=
    .bind (.files fun _ => trivial) fun _ _ _ _ => .bind (.emit trivial) fun _ _ _ _ => hrest
  have hsplit : ctx.prepare t = Act.ensureAbsent ctx.site (ctx.root.join dir) >>= next := by
    rw [hprepare, Act.ensureFresh, bind_assoc]
    simp only [bind_assoc, next]
  rw [ReadyAlike, hsplit]
  rcases Act.unlogged_clean_then next hnext.blind hclean hall with heq | ⟨cause, hc, hv, hw⟩
  · exact .inl heq
  · exact .inr ⟨_, v, w, hv, hw, hends cause hc, hvw⟩

section doxygen
variable {R : Place} {tree₁ tree₂ t u : Tree} {v w : World σ}

variable (ctx) in
/-- The place of doxygen's first directory in `R`. -/
def outPlace (R : Place) : Place := below R ctx.config.layout.doxyOutDir.names

variable (ctx) in
/-- The place of doxygen's second directory in `R`. -/
def xmlPlace (R : Place) : Place := below R ctx.config.layout.doxyXmlDir.names

lemma kept_doxy {k : Place} :
    ctx.Kept .doxy R k ↔ ¬ctx.outPlace R <:+ k ∧ ¬ctx.xmlPlace R <:+ k := by
  simp [Kept, recreated, outPlace, xmlPlace]

lemma outDir_mem : ctx.config.layout.doxyOutDir ∈ ctx.recreated .doxy := .head _

lemma xmlDir_mem : ctx.config.layout.doxyXmlDir ∈ ctx.recreated .doxy := .tail _ (.head _)

lemma Leftovers.firm_of_isSome (ht : Tree.Remade (ctx.outPlace R) tree₁ t) {k : Place}
    (hk : ctx.Firm .doxy R tree₁ tree₂ k ∨ ctx.outPlace R <:+ k) (hin : ctx.xmlPlace R <:+ k)
    (hsome : (t.at? k).isSome) : t.at? k = some .dir := by
  by_cases hout : ctx.outPlace R <:+ k
  · rcases ht.inside k hout with hnone | hdir
    · simp [hnone] at hsome
    · exact hdir
  · have hdir := dir_of_firm (hk.resolve_right hout) xmlDir_mem hin
    rcases ht.frame k hout with hsame | ⟨hnone, -⟩
    · exact hsame.trans hdir
    · simp [hnone] at hdir

lemma Leftovers.pathHeads_root (h : ctx.Leftovers .doxy R tree₁ tree₂)
    (ht : Tree.Remade (ctx.outPlace R) tree₁ t) :
    t.PathHeads ctx.site (fun k => ctx.Firm .doxy R tree₁ tree₂ k ∨ ctx.outPlace R <:+ k)
      ctx.root R :=
  ht.pathHeads (h.root.imp fun _ hm => hm.heads) fun _ hk hin => dir_of_firm hk outDir_mem hin

lemma Leftovers.pathLeads_root (h : ctx.Leftovers .doxy R tree₁ tree₂)
    (hl : ctx.config.layout.Ordinary) (ht : Tree.Remade (ctx.outPlace R) tree₁ t)
    (htu : Tree.AgreeOn (fun k => ctx.Firm .doxy R tree₁ tree₂ k ∨ ctx.outPlace R <:+ k) t u)
    (hout : t.isDirAt ctx.site (ctx.root.join ctx.config.layout.doxyOutDir) = true) :
    t.PathLeads ctx.site
      (fun k => ¬ctx.xmlPlace R <:+ k ∨ t.at? k = some .dir ∧ u.at? k = some .dir) ctx.root R := by
  have hR : t.at? R = some .dir := by
    have hkept : ¬ctx.outPlace R <:+ below R [] :=
      Tree.not_below_suffix List.nil_prefix hl.doxyOutDir.names_ne_nil.symm
    rcases ht.frame R hkept with hsame | ⟨-, hdir⟩
    · exact hsame.trans h.isDir
    · exact hdir
  have hleads := ((h.pathHeads_root ht).leads_of_isDirAt hl.doxyOutDir hout).present hR
  refine hleads.imp fun _ hm => hm.mono fun k ⟨hk, hsome⟩ => ?_
  by_cases hin : ctx.xmlPlace R <:+ k
  · have hdir := firm_of_isSome ht hk hin hsome
    exact .inr ⟨hdir, (htu k hk).symm.trans hdir⟩
  · exact .inl hin

lemma Leftovers.noLinks_xml (h : ctx.Leftovers .doxy R tree₁ tree₂)
    (ht : Tree.Remade (ctx.outPlace R) tree₁ t) {ys : List Bytes}
    (hys : ys <+: ctx.config.layout.doxyXmlDir.names)
    (hoff : ¬ctx.xmlPlace R <:+ below R ys) (target : Bytes) :
    t.at? (below R ys) ≠ some (.link target) := by
  by_cases hin : ctx.outPlace R <:+ below R ys
  · rcases ht.inside _ hin with hnone | hdir
    · simp [hnone]
    · simp [hdir]
  · have hno := h.noLinks _ xmlDir_mem ys hys (kept_doxy.2 ⟨hin, hoff⟩) target
    rcases ht.frame _ hin with hsame | ⟨-, hdir⟩
    · rwa [hsame]
    · simp [hdir]

/-- Once doxygen's first directory has been made anew, the second is cleaned alike. -/
theorem Leftovers.clean_xml (h : ctx.Leftovers .doxy R tree₁ tree₂)
    (hl : ctx.config.layout.Ordinary) (ht : Tree.Remade (ctx.outPlace R) tree₁ t)
    (htu : Tree.AgreeOn (fun k => ctx.Firm .doxy R tree₁ tree₂ k ∨ ctx.outPlace R <:+ k) t u)
    (hout : t.isDirAt ctx.site (ctx.root.join ctx.config.layout.doxyOutDir) = true) :
    ∃ K : Place → Prop, (∀ k, K k ∨ ctx.xmlPlace R <:+ k) ∧ Tree.AgreeOn K t u ∧
      Files.CleanedAlike K (ctx.xmlPlace R) t u
        (removeIfThere ctx.site (ctx.root.join ctx.config.layout.doxyXmlDir) t)
        (removeIfThere ctx.site (ctx.root.join ctx.config.layout.doxyXmlDir) u) := by
  -- by now the trees may differ within the second directory only
  let K k := ¬ctx.xmlPlace R <:+ k ∨ t.at? k = some .dir ∧ u.at? k = some .dir
  have hagree : Tree.AgreeOn K t u := by
    rintro k (hk | ⟨hdir, hdir'⟩)
    · by_cases hin : ctx.outPlace R <:+ k
      · exact htu k (.inr hin)
      · exact htu k (.inl (.inl (kept_doxy.2 ⟨hin, hk⟩)))
    · rw [hdir, hdir']
  refine ⟨K, fun k => ?_, hagree, removeIfThere_join_alike hl.doxyXmlDir
    (h.pathLeads_root hl ht htu hout) hagree (fun ys hys hne => ?_)
    (fun k hk hin => (hk.resolve_left fun hnot => hnot hin).1)⟩
  · by_cases hin : ctx.xmlPlace R <:+ k
    · exact .inr hin
    · exact .inl (.inl hin)
  · have hoff : ¬ctx.xmlPlace R <:+ below R ys := Tree.not_below_suffix hys hne
    exact ⟨.inl hoff, h.noLinks_xml ht hys hoff⟩

lemma kept_below (hxml : ¬ctx.config.layout.doxyXmlDir.names <+: ctx.config.layout.doxyOutDir.names)
    {ys : List Bytes} (hys : ys <+: ctx.config.layout.doxyOutDir.names)
    (hne : ys ≠ ctx.config.layout.doxyOutDir.names) : ctx.Kept .doxy R (below R ys) := by
  rw [kept_doxy, xmlPlace, Tree.below_suffix_iff]
  exact ⟨Tree.not_below_suffix hys hne, fun hle => hxml (hle.trans hys)⟩

/-- The way to doxygen's first directory stays what it is when this has been cleaned. -/
theorem Leftovers.heads_out (h : ctx.Leftovers .doxy R tree₁ tree₂)
    (hl : ctx.config.layout.Ordinary)
    (hxml : ¬ctx.config.layout.doxyXmlDir.names <+: ctx.config.layout.doxyOutDir.names)
    (ht : Tree.Emptied (ctx.outPlace R) tree₁ t) :
    t.PathHeads ctx.site (fun k => ctx.Firm .doxy R tree₁ tree₂ k ∨ ctx.outPlace R <:+ k)
      (ctx.root.join ctx.config.layout.doxyOutDir) (ctx.outPlace R) := by
  have hroot := h.pathHeads_root (ht.remade (refl_of Tree.Grown t))
  refine (Tree.Continues.of_join hl.doxyOutDir ctx.root).heads hroot
    (fun ys hys target => ?_) (fun ys hys => ?_)
  · by_cases hne : ys = ctx.config.layout.doxyOutDir.names
    · have hin : ctx.outPlace R <:+ below R ys := by
        rw [hne]
        exact List.suffix_rfl
      rcases ht.inside _ hin with hnone | ⟨-, hdir⟩
      · simp [hnone]
      · simp [hdir]
    · have hk := kept_below (R := R) hxml hys hne
      rw [ht.frame _ (kept_doxy.1 hk).1]
      exact h.noLinks _ outDir_mem ys hys hk target
  · by_cases hne : ys = ctx.config.layout.doxyOutDir.names
    · rw [hne]
      exact .inr List.suffix_rfl
    · exact .inl (.inl (kept_below hxml hys hne))

theorem Leftovers.make_out (h : ctx.Leftovers .doxy R tree₁ tree₂)
    (hl : ctx.config.layout.Ordinary)
    (hxml : ¬ctx.config.layout.doxyXmlDir.names <+: ctx.config.layout.doxyOutDir.names)
    (ht : Tree.Emptied (ctx.outPlace R) tree₁ t)
    (htu : Tree.AgreeOn (fun k => ctx.Firm .doxy R tree₁ tree₂ k ∨ ctx.outPlace R <:+ k) t u) :
    EndAlike (fun k => ctx.Firm .doxy R tree₁ tree₂ k ∨ ctx.outPlace R <:+ k)
      (makeDirs ctx.site (ctx.root.join ctx.config.layout.doxyOutDir) t)
      (makeDirs ctx.site (ctx.root.join ctx.config.layout.doxyOutDir) u) := by
  obtain ⟨outer, s, -, hends⟩ := hl.doxyOutDir.endsIn
  exact makeDirsIn_alike (hends ctx.root).chain_ancestors (h.heads_out hl hxml ht) htu

/-- Doxygen's first directory is made anew alike, up to what is left in the second. -/
theorem Leftovers.remake_out (h : ctx.Leftovers .doxy R v.tree w.tree)
    (hl : ctx.config.layout.Ordinary) (hvw : World.AgreeOn (ctx.Kept .doxy R) v w)
    (hxml : ¬ctx.config.layout.doxyXmlDir.names <+: ctx.config.layout.doxyOutDir.names)
    {out : Path} (hout : out = ctx.root.join ctx.config.layout.doxyOutDir) :
    (∃ e v' w', Act.ensureFresh ctx.site out v = .error e v' ∧
      Act.ensureFresh ctx.site out w = .error e w' ∧
      (∃ cause, e = .removeDir out cause ∨ e = .createDir out cause) ∧
      World.AgreeOn (ctx.Kept .doxy R) v' w') ∨
    ∃ v' w', Act.ensureFresh ctx.site out v = .ok () v' ∧
      Act.ensureFresh ctx.site out w = .ok () w' ∧
      Tree.Remade (ctx.outPlace R) v.tree v'.tree ∧ v'.tree.isDirAt ctx.site out = true ∧
      World.AgreeOn (fun k => ctx.Firm .doxy R v.tree w.tree k ∨ ctx.outPlace R <:+ k) v' w' := by
  subst hout
  have hclean := h.clean hvw hl.doxyOutDir outDir_mem fun ys hys hne => kept_below hxml hys hne
  generalize hout : ctx.root.join ctx.config.layout.doxyOutDir = out at hclean ⊢
  generalize hv : Act.ensureAbsent ctx.site out v = rv at hclean
  generalize hw : Act.ensureAbsent ctx.site out w = rw at hclean
  cases hclean with
  | ofPath _ =>
    -- nothing has been changed, so the trees differ as before
    exact .inl ⟨_, v, w, bind_of_error hv _, bind_of_error hw _, ⟨_, .inl rfl⟩, hvw⟩
  | refused _ =>
    exact .inl ⟨_, v, w, bind_of_error hv _, bind_of_error hw _, ⟨_, .inl rfl⟩, hvw⟩
  | @done v' w' hvw' hv' hw' =>
    have hmake := h.make_out hl hxml hv' hvw'.tree
    rw [hout] at hmake
    rw [Act.ensureFresh, bind_of_ok hv, bind_of_ok hw]
    generalize hv₁ : makeDirs ctx.site out v'.tree = rv at hmake
    generalize hw₁ : makeDirs ctx.site out w'.tree = rw at hmake
    cases hmake with
    | error hmade =>
      refine .inl ⟨_, _, _, bind_of_error (Act.files_of_error hv₁) _,
        bind_of_error (Act.files_of_error hw₁) _, ⟨_, .inr rfl⟩, ?_⟩
      exact ⟨fun k hk => hmade k (.inl (.inl hk)), hvw'.runner, hvw'.events⟩
    | @ok t u hmade =>
      obtain ⟨outer, s, -, hends⟩ := hl.doxyOutDir.endsIn
      have hdir := isDirAt_of_makeDirsIn (hout ▸ (hends ctx.root).not_isEmpty) hv₁
      have hmade' := World.AgreeOn.log (v := { v' with tree := t }) (w := { w' with tree := u })
        ⟨hmade, hvw'.runner, hvw'.events⟩ .debug ("Created " ++ out.text)
      exact .inr ⟨_, _, bind_of_ok (Act.files_of_ok hv₁) _, bind_of_ok (Act.files_of_ok hw₁) _,
        hv'.remade (grown_makeDirsIn hv₁), hdir, hmade'⟩

/-- What the documentation build says where it is not run for the CI. -/
def announced (w : World σ) : World σ :=
  { w with events := w.events ++ [.own (.log .info "Normal documentation build")] }

variable (ctx) in
/-- Doxygen's call, put together once its directories are clean. -/
def doxyCall (tool : Path) (_ : Unit) : Act σ (Option Invocation) := do
  let inv ← ctx.command tool.bytes (ctx.root.join ctx.config.layout.doxyConfDir) Task.doxy.profile
  return some { inv with args := [word ctx.config.project.doxyfile] }

lemma documentation_of_not_ci (hci : ctx.ci = false) (w : World σ) :
    ctx.documentation w =
      match ctx.config.tool "doxygen" with
      | .ok tool => .ok (ctx.root, tool.bytes) (announced w)
      | .error e => .error e (announced w) := by
  rw [documentation, if_neg (by simp [hci])]
  cases ctx.config.tool "doxygen" <;> rfl

lemma prepare_doxy_of_error (hci : ctx.ci = false) {e : Error}
    (htool : ctx.config.tool "doxygen" = .error e) (w : World σ) :
    ctx.prepare .doxy w = .error e (announced w) := by
  refine bind_of_error ?_ _
  rw [documentation_of_not_ci hci, htool]

lemma prepare_doxy_of_ok (hci : ctx.ci = false) {tool : Path}
    (htool : ctx.config.tool "doxygen" = .ok tool) (w : World σ) :
    ctx.prepare .doxy w =
      (do
        Act.ensureFresh ctx.site (ctx.root.join ctx.config.layout.doxyOutDir)
        Act.ensureAbsent ctx.site (ctx.root.join ctx.config.layout.doxyXmlDir) >>=
          ctx.doxyCall tool) (announced w) := by
  have hdoc : ctx.documentation w = .ok (ctx.root, tool.bytes) (announced w) := by
    rw [documentation_of_not_ci hci, htool]
  exact bind_of_ok hdoc _

theorem readyAlike_doxy (h : ctx.Leftovers .doxy R v.tree w.tree)
    (hl : ctx.config.layout.Ordinary) (hci : ctx.ci = false)
    (hvw : World.AgreeOn (ctx.Kept .doxy R) v w)
    (hxml : ¬ctx.config.layout.doxyXmlDir.names <+: ctx.config.layout.doxyOutDir.names) :
    ctx.ReadyAlike .doxy R v w := by
  have hbase : ctx.documentationBase = ctx.root := by simp [documentationBase, hci]
  have hlogged : World.AgreeOn (ctx.Kept .doxy R) (announced v) (announced w) := hvw.log .info _
  cases htool : ctx.config.tool "doxygen" with
  | error e =>
    have hprogram : ctx.program? .doxy = .error e := by
      rw [program?, if_neg (by simp [hci]), htool]
      rfl
    exact .inr ⟨e, _, _, prepare_doxy_of_error hci htool v, prepare_doxy_of_error hci htool w,
      .inl hprogram, hlogged⟩
  | ok tool =>
    have hout : ctx.root.join ctx.config.layout.doxyOutDir = ctx.doxyOut := by rw [doxyOut, hbase]
    have hxml' : ctx.root.join ctx.config.layout.doxyXmlDir = ctx.doxyXml := by rw [doxyXml, hbase]
    have hcall : Act.Blind (ctx.doxyCall tool ()) := by
      have hscript : Script ctx quiet (ctx.doxyCall tool ()) :=
        ctx.quiet_command fun _ => .pure _
      exact hscript.blind
    have h' : ctx.Leftovers .doxy R (announced v).tree (announced w).tree := h
    rw [ReadyAlike, Act.unlogged, Act.unlogged, prepare_doxy_of_ok hci htool,
      prepare_doxy_of_ok hci htool]
    rcases h'.remake_out hl hlogged hxml rfl with
      ⟨e, v', w', hv, hw, ⟨cause, he⟩, hvw'⟩ | ⟨v', w', hv, hw, hmade, hdir, hvw'⟩
    · refine .inr ⟨e, v', w', bind_of_error hv _, bind_of_error hw _, .inr ⟨cause, ?_⟩, hvw'⟩
      rw [← hout]
      tauto
    · obtain ⟨K, hall, hagree, hclean⟩ := h'.clean_xml hl hmade hvw'.tree hdir
      have hclean' := Act.ensureAbsent_alike ⟨hagree, hvw'.runner, hvw'.events⟩ hclean
      rw [bind_of_ok hv, bind_of_ok hw]
      rcases Act.unlogged_clean_then (ctx.doxyCall tool) hcall hclean' hall with
        heq | ⟨cause, hc, hv₂, hw₂⟩
      · exact .inl heq
      · refine .inr ⟨_, v', w', hv₂, hw₂, .inr ⟨cause, .inr (.inr ⟨hc, by rw [hxml']⟩)⟩, ?_⟩
        exact hvw'.mono fun k hk => .inl (.inl hk)

end doxygen

theorem readyAlike (hl : ctx.config.layout.Ordinary) (hci : ctx.ci = false) (t : Task)
    (hxml : t = .doxy →
      ¬ctx.config.layout.doxyXmlDir.names <+: ctx.config.layout.doxyOutDir.names)
    {R : Place} {v w : World σ} (h : ctx.Leftovers t R v.tree w.tree)
    (hvw : World.AgreeOn (ctx.Kept t R) v w) : ctx.ReadyAlike t R v w := by
  cases t with
  | configure =>
    exact readyAlike_of_ensureFresh hl.buildDir rfl rfl (ctx.quiet_command fun _ => .pure _)
      (fun cause hc => ⟨cause, hc, rfl⟩) h hvw
  | cov =>
    exact readyAlike_of_ensureFresh hl.coverageDir rfl rfl (ctx.quiet_command fun _ => .pure _)
      (fun cause hc => ⟨cause, hc, rfl⟩) h hvw
  | doxy => exact readyAlike_doxy h hl hci hvw (hxml rfl)
  | _ =>
    -- the other tasks make nothing anew, so the trees are the same
    refine .inl ((ctx.quiet_prepare _).blind.unlogged_congr (hvw.unlogged_eq fun k => ?_))
    simp [Kept, recreated]

lemma blind_rest (t : Task) (call : Option Invocation) :
    Act.Blind (do ctx.launchAny call; ctx.collect t) := by
  refine .bind ?_ fun _ _ _ _ => (ctx.quiet_collect t).blind
  cases call with
  | none => exact fun _ _ => rfl
  | some inv =>
    have hscript : Script ctx ⟨fun _ => True, fun _ => True, fun _ => True⟩ (ctx.launch inv) :=
      .launch trivial
    exact hscript.blind

/-- What an earlier build has left where a task makes its directories anew has no part in what the
task does: its result, the calls it hands over and the tree at the end are the same. Only a task
that fails before these directories are clean leaves them as they are; it fails alike, and without
a call. -/
theorem rebuild_ignores_leftovers (ctx : Context σ) (hl : ctx.config.layout.Ordinary)
    (hci : ctx.ci = false) (t : Task)
    (hxml : t = .doxy →
      ¬ctx.config.layout.doxyXmlDir.names <+: ctx.config.layout.doxyOutDir.names)
    {R : Place} {tree₁ tree₂ : Tree} (h : ctx.Leftovers t R tree₁ tree₂) (r : σ)
    (es : List Event) :
    Act.unlogged (ctx.body t) ⟨tree₁, r, es⟩ = Act.unlogged (ctx.body t) ⟨tree₂, r, es⟩ ∨
    ∃ e u₁ u₂, ctx.body t ⟨tree₁, r, es⟩ = .error e u₁ ∧
      ctx.body t ⟨tree₂, r, es⟩ = .error e u₂ ∧ ctx.EndsUnclean t e ∧
      Event.launches u₁.events = Event.launches es ∧
      Event.launches u₂.events = Event.launches es ∧
      Tree.AgreeOn (ctx.Kept t R) u₁.tree u₂.tree := by
  rw [body_eq]
  rcases readyAlike hl hci t hxml (v := ⟨tree₁, r, es⟩) (w := ⟨tree₂, r, es⟩) h ⟨h.agree, rfl, rfl⟩
    with heq | ⟨e, u₁, u₂, h₁, h₂, he, hu⟩
  · exact .inl (Act.unlogged_bind_congr heq (blind_rest t) fun _ _ => rfl)
  · refine .inr ⟨e, u₁, u₂, bind_of_error h₁ _, bind_of_error h₂ _, he, ?_, ?_, hu.tree⟩
    · have hquiet := launches_of_quiet (ctx.quiet_prepare t) ⟨tree₁, r, es⟩
      rwa [h₁] at hquiet
    · have hquiet := launches_of_quiet (ctx.quiet_prepare t) ⟨tree₂, r, es⟩
      rwa [h₂] at hquiet

lemma leftovers_erase {t : Task} {tree : Tree} {n : Bytes} {p : Place} {dir : Path}
    (hdir : dir ∈ ctx.recreated t) (hplace : below [word "project"] dir.names = n :: p)
    (hroot : ctx.root.names = [word "project"]) (hcwd : Tree.startOf ctx.site.cwd ctx.root = [])
    (hkept : ctx.Kept t [word "project"] [] ∧ ctx.Kept t [word "project"] [word "project"])
    (hproject : tree.at? [word "project"] = some .dir)
    (hdirs : ∀ dir ∈ ctx.recreated t, ∀ ys ∈ dir.names.inits,
      tree.at? (below [word "project"] ys) = none ∨
        tree.at? (below [word "project"] ys) = some .dir) :
    ctx.Leftovers t [word "project"] tree (tree.erase (n :: p)) where
  agree k hk := by
    have hoff := hk dir hdir
    rw [hplace] at hoff
    rw [Tree.at?_erase_cons, if_neg hoff]
  root := by
    refine ⟨Tree.linkLimit, ?_⟩
    rw [hroot, hcwd]
    exact .entry (.inl hkept.1) Tree.at?_root (by decide +kernel)
      (Tree.child?_eq_ok_iff.2 ⟨by decide +kernel, hproject⟩) (by simp) (.done (.inl hkept.2))
  isDir := hproject
  noLinks dir hdir ys hys _ target := by
    rcases hdirs dir hdir ys ((List.mem_inits ys dir.names).2 hys) with hnone | hdir
    · simp [hnone]
    · simp [hdir]

theorem rebuild_ignores_leftovers_built :
    (rebuilding "project").Leftovers .configure [word "project"] built
      (built.erase [word "build", word "project"]) ∧
    Act.unlogged ((rebuilding "project").body .configure) ⟨built, [], []⟩ =
      Act.unlogged ((rebuilding "project").body .configure)
        ⟨built.erase [word "build", word "project"], [], []⟩ := by
  have hl : (rebuilding "project").config.layout.Ordinary := by decide +kernel
  have h : (rebuilding "project").Leftovers .configure [word "project"] built
      (built.erase [word "build", word "project"]) := by
    refine leftovers_erase (.head _) rfl ?_ ?_ ?_ ?_ ?_ <;> decide +kernel
  refine ⟨h, ?_⟩
  rcases rebuild_ignores_leftovers (rebuilding "project") hl rfl .configure (by simp) h [] [] with
    heq | ⟨e, u, _, hrun, -⟩
  · exact heq
  · obtain ⟨v, hv⟩ : ∃ v, (rebuilding "project").body .configure ⟨built, [], []⟩ = .ok () v := by
      decide +kernel
    rw [hv] at hrun
    cases hrun

/-- A project whose doxygen is in a directory that the configuration does not have. -/
def misplaced : Context Unit where
  config := { Config.builtIn with tools := .ofList [("doxygen", "\x7bnosuch\x7d/doxygen")] }
  root := .ofString "project"
  ci := false
  inherited := none
  site := { cwd := [] }
  runner _ s t := ⟨s, t, [], .ok ()⟩

/-- A documentation directory into which doxygen's output has been copied. -/
def staged : Tree :=
  let sphinx := [word "sphinx", word "docs", word "project"]
  let xml := word "_doxyxml" :: sphinx
  ((((Tree.empty.insert [word "project"] .dir).insert [word "docs", word "project"] .dir).insert
    sphinx .dir).insert xml .dir).insert (word "stale.xml" :: xml) (.file [] false)

/-- Where doxygen is not found in the configuration, nothing is cleaned and the leftovers stay. -/
theorem leftovers_stay_without_doxygen :
    misplaced.config.layout.Ordinary ∧ misplaced.ci = false ∧
    ¬misplaced.config.layout.doxyXmlDir.names <+: misplaced.config.layout.doxyOutDir.names ∧
    ∃ tree₁ tree₂, misplaced.Leftovers .doxy [word "project"] tree₁ tree₂ ∧
      (misplaced.body .doxy ⟨tree₁, (), []⟩).state.tree ≠
        (misplaced.body .doxy ⟨tree₂, (), []⟩).state.tree := by
  let xml := [word "_doxyxml", word "sphinx", word "docs", word "project"]
  refine ⟨by decide +kernel, rfl, by decide +kernel, staged, staged.erase xml, ?_, fun heq => ?_⟩
  · refine leftovers_erase (.tail _ (.head _)) rfl ?_ ?_ ?_ ?_ ?_ <;> decide +kernel
  · have hstays : ((misplaced.body .doxy ⟨staged, (), []⟩).state.tree.at? xml).isSome := by
      decide +kernel
    have hgone : (misplaced.body .doxy ⟨staged.erase xml, (), []⟩).state.tree.at? xml = none := by
      decide +kernel
    rw [heq, hgone] at hstays
    cases hstays

end Context
end FirmwareTasks
