import FirmwareTasks.Proofs.Config.Section
/-!
The slots of the sections, and the fields that fill them.
-/
namespace FirmwareTasks
open Toml

namespace Decode

/-! What values mean. -/

def IsText (v : Value) (s : String) : Prop := v = .text s

def IsPath (v : Value) (p : Path) : Prop := ∃ s, v = .text s ∧ p = .ofString s

/-- A number of 32 bits without a sign. -/
def IsCount (v : Value) (n : Nat) : Prop := v = .integer n ∧ n < 4294967296

/-- A list of what `Means` says. -/
def IsList {α : Type} (Means : Value → α → Prop) (v : Value) (l : List α) : Prop :=
  ∃ items, v = .array items ∧ List.Forall₂ Means items l

lemma reads_text : Reads text IsText := by
  intro v s
  cases v <;> simp [text, IsText]

lemma reads_path : Reads path IsPath := by
  intro v p
  cases v <;> simp [path, IsPath, eq_comm]

lemma reads_count : Reads count IsCount := by
  intro v n
  cases v with
  | integer i =>
    simp only [count, IsCount, Value.integer.injEq]
    split
    · rw [Except.ok.injEq]
      omega
    · simp only [reduceCtorEq, false_iff, not_and]
      omega
  | _ => simp [count, IsCount]

lemma list_eq_ok_iff {α : Type} {item : Decode α} {v : Value} {l : List α} :
    list item v = .ok l ↔ IsList (fun v a => item v = .ok a) v l := by
  cases v <;> simp [list, IsList, Except.mapM_eq_ok_iff]

lemma reads_list {α : Type} {item : Decode α} {Means : Value → α → Prop}
    (h : Reads item Means) : Reads (list item) (IsList Means) := by
  intro v l
  simp only [list_eq_ok_iff, h _ _]

def projectSlots : List (Slot Project) :=
  [⟨"name", IsText, (·.name)⟩,
    ⟨"toolchain_file", IsText, (·.toolchainFile)⟩,
    ⟨"generator", IsText, (·.generator)⟩,
    ⟨"jobs", IsCount, (·.jobs)⟩,
    ⟨"build_tool", IsText, (·.buildTool)⟩,
    ⟨"gcc_paths", IsList IsText, (·.gccPaths)⟩,
    ⟨"doxyfile", IsText, (·.doxyfile)⟩,
    ⟨"doc_version", IsText, (·.docVersion)⟩,
    ⟨"python", IsText, (·.python)⟩,
    ⟨"junit_script", IsPath, (·.junitScript)⟩,
    ⟨"junit_report", IsText, (·.junitReport)⟩]

def layoutSlots : List (Slot Layout) :=
  [⟨"build_dir", IsPath, (·.buildDir)⟩,
    ⟨"coverage_dir", IsPath, (·.coverageDir)⟩,
    ⟨"unittest_dir", IsPath, (·.unittestDir)⟩,
    ⟨"artifacts_dir", IsPath, (·.artifactsDir)⟩,
    ⟨"doxy_out_dir", IsPath, (·.doxyOutDir)⟩,
    ⟨"doxy_conf_dir", IsPath, (·.doxyConfDir)⟩,
    ⟨"doxy_xml_dir", IsPath, (·.doxyXmlDir)⟩,
    ⟨"sphinx_source_dir", IsPath, (·.sphinxSourceDir)⟩,
    ⟨"sphinx_out_dir", IsPath, (·.sphinxOutDir)⟩,
    ⟨"sphinx_stale_dir", IsPath, (·.sphinxStaleDir)⟩,
    ⟨"ci_prefix", IsPath, (·.ciPrefix)⟩]

def ciSlots : List (Slot CiDetection) :=
  [⟨"env", IsText, (·.envName)⟩, ⟨"value", IsText, (·.value)⟩]

def draftSlots : List (Slot ToolDirDraft) :=
  [⟨"name", fun v y => ∃ s, IsText v s ∧ some s = y, (·.name?)⟩,
    ⟨"dir", fun v y => ∃ p, IsPath v p ∧ some p = y, (·.dir?)⟩]

theorem project_fill :
    ∃ fs, Fill fs projectSlots Project.builtIn ∧ project = fields "Project" fs .builtIn := by
  refine ⟨_, ⟨?_, ?_, ?_, ?_⟩, rfl⟩
  · simp [projectSlots, field]
  · simp only [projectSlots, List.forall_mem_cons]
    and_intros
    all_goals first
      | exact ⟨_, rfl, fills_of_reads reads_text fun _ _ => rfl⟩
      | exact ⟨_, rfl, fills_of_reads reads_path fun _ _ => rfl⟩
      | exact ⟨_, rfl, fills_of_reads reads_count fun _ _ => rfl⟩
      | exact ⟨_, rfl, fills_of_reads (reads_list reads_text) fun _ _ => rfl⟩
      | simp
  · simp only [projectSlots, List.forall_mem_cons]
    and_intros
    all_goals first
      | exact fun h => absurd rfl h
      | exact fun _ => keeps_field fun _ _ => rfl
      | simp
  · rintro ⟨⟩ ⟨⟩ h
    simpa [projectSlots] using h

theorem layout_fill :
    ∃ fs, Fill fs layoutSlots Layout.builtIn ∧ layout = fields "DirLayout" fs .builtIn := by
  refine ⟨_, ⟨?_, ?_, ?_, ?_⟩, rfl⟩
  · simp [layoutSlots, field]
  · simp only [layoutSlots, List.forall_mem_cons]
    and_intros
    all_goals first
      | exact ⟨_, rfl, fills_of_reads reads_path fun _ _ => rfl⟩
      | simp
  · simp only [layoutSlots, List.forall_mem_cons]
    and_intros
    all_goals first
      | exact fun h => absurd rfl h
      | exact fun _ => keeps_field fun _ _ => rfl
      | simp
  · rintro ⟨⟩ ⟨⟩ h
    simpa [layoutSlots] using h

theorem ci_fill :
    ∃ fs, Fill fs ciSlots CiDetection.builtIn ∧ ci = fields "CiDetection" fs .builtIn := by
  refine ⟨_, ⟨?_, ?_, ?_, ?_⟩, rfl⟩
  · simp [ciSlots, field]
  · simp only [ciSlots, List.forall_mem_cons]
    and_intros
    all_goals first
      | exact ⟨_, rfl, fills_of_reads reads_text fun _ _ => rfl⟩
      | simp
  · simp only [ciSlots, List.forall_mem_cons]
    and_intros
    all_goals first
      | exact fun h => absurd rfl h
      | exact fun _ => keeps_field fun _ _ => rfl
      | simp
  · rintro ⟨⟩ ⟨⟩ h
    simpa [ciSlots] using h

def draftFields : List (Field ToolDirDraft) :=
  [field "name" text fun d x => { d with name? := some x },
    field "dir" path fun d x => { d with dir? := some x }]

theorem draft_fill : Fill draftFields draftSlots ⟨none, none⟩ where
  slot := by simp [draftFields, draftSlots, field]
  field := by
    simp only [draftSlots, List.forall_mem_cons]
    and_intros
    · refine ⟨_, rfl, fills_field some (fun v y => ?_) fun _ _ _ => rfl⟩
      simp only [reads_text v]
    · refine ⟨_, rfl, fills_field some (fun v y => ?_) fun _ _ _ => rfl⟩
      simp only [reads_path v]
    · simp
  keeps := by
    simp only [draftFields, draftSlots, List.forall_mem_cons]
    and_intros
    all_goals first
      | exact fun h => absurd rfl h
      | exact fun _ => keeps_field fun _ _ => rfl
      | simp
  ext := by
    rintro ⟨⟩ ⟨⟩ h
    simpa [draftSlots] using h

lemma toolDir_table_eq_ok_iff {es : List (String × Value)} {t : ToolDir} :
    toolDir (.table es) = .ok t ↔
      es.foldlM (takeEntry draftFields) ⟨none, none⟩ = .ok ⟨some t.name, some t.dir⟩ := by
  rw [← fields_table "ToolDir"]
  change (fields "ToolDir" draftFields ⟨none, none⟩ (.table es) >>= _) = _ ↔ _
  cases fields "ToolDir" draftFields ⟨none, none⟩ (.table es) with
  | error m => simp [bind, Except.bind]
  | ok draft =>
    obtain ⟨_ | name, _ | dir⟩ := draft <;> cases t <;> simp [bind, Except.bind]

end Decode
end FirmwareTasks
