import FirmwareTasks.Proofs.Config.Document
/-!
What a document says about a configuration, told without reading it: `WellTyped` documents describe
a configuration, and `Describes` tells which one, section by section and key by key. Where the
sections are written as tables, reading finds exactly that configuration. The order of keys plays
no part in either, so documents that differ in it only are read alike.
-/
namespace FirmwareTasks
open Toml

namespace Decode

/-- The entries of the section with a key, none if it is not there. -/
def entriesAt (doc : List (String × Value)) (key : String) : List (String × Value) :=
  match doc.lookup key with
  | some (.table es) => es
  | _ => []

/-- What stands at a key is written as a table. -/
def TableAt (doc : List (String × Value)) (key : String) : Prop :=
  ∀ v, doc.lookup key = some v → ∃ es, v = .table es

/-- The sections with fields, and the tool directories, are written as tables. -/
structure Sectioned (doc : List (String × Value)) : Prop where
  project : TableAt doc "project"
  layout : TableAt doc "layout"
  ci : TableAt doc "ci"
  path : ∀ items, doc.lookup "path" = some (.array items) → ∀ i ∈ items, ∃ es, i = .table es

/-- The sections without fields, which are read as a whole. -/
def wholeSlots : List (Slot Config) :=
  [⟨"path", IsList IsToolDir, (·.paths)⟩,
    ⟨"make", IsMerged Config.builtIn.make, (·.make)⟩,
    ⟨"tools", IsMerged Config.builtIn.tools, (·.tools)⟩]

/-- Every key is known, and what stands there is of its type. -/
structure WellTyped (doc : List (String × Value)) : Prop where
  known : ∀ e ∈ doc, e.1 ∈ sectionKeys
  project : ∀ a ∈ projectSlots, a.Typed (entriesAt doc "project")
  layout : ∀ a ∈ layoutSlots, a.Typed (entriesAt doc "layout")
  ci : ∀ a ∈ ciSlots, a.Typed (entriesAt doc "ci")
  whole : ∀ a ∈ wholeSlots, a.Typed doc

/-- The configuration is as the document says, and built-in where it does not say anything. -/
structure Describes (doc : List (String × Value)) (c : Config) : Prop where
  project : ∀ a ∈ projectSlots, a.Follows (entriesAt doc "project") .builtIn c.project
  layout : ∀ a ∈ layoutSlots, a.Follows (entriesAt doc "layout") .builtIn c.layout
  ci : ∀ a ∈ ciSlots, a.Follows (entriesAt doc "ci") .builtIn c.ci
  whole : ∀ a ∈ wholeSlots, a.Follows doc .builtIn c

section Slots
variable {σ α : Type} {key : String} {M N : Value → α → Prop} {get : σ → α}
  {doc : List (String × Value)} {base x : σ}

lemma Slot.follows_congr (h : ∀ v, doc.lookup key = some v → ∀ y, M v y ↔ N v y) :
    Slot.Follows ⟨key, M, get⟩ doc base x ↔ Slot.Follows ⟨key, N, get⟩ doc base x := by
  unfold Slot.Follows
  dsimp only
  split
  · rename_i v hv
    exact h v hv _
  · rfl

lemma Slot.typed_congr (h : ∀ v, doc.lookup key = some v → ∀ y, M v y ↔ N v y) :
    Slot.Typed (σ := σ) ⟨key, M, get⟩ doc ↔ Slot.Typed (σ := σ) ⟨key, N, get⟩ doc :=
  forall₂_congr fun v hv => exists_congr (h v hv)

/-! ## What is read is what is described -/

variable {slots : List (Slot σ)} {fs : List (Field σ)} {c c₀ : Config}

lemma keyed_entriesAt (hdoc : (Value.table doc).Keyed) :
    (Value.table (entriesAt doc key)).Keyed := by
  unfold entriesAt
  split
  · rename_i es hes
    exact hdoc.of_lookup hes
  · exact .table List.nodup_nil (by simp)

lemma follows_section {name : String} {part : Config → σ} (hfill : Fill fs slots base)
    (hbase : part c₀ = base) (hdoc : (Value.table doc).Keyed) (htable : TableAt doc key) :
    Slot.Follows ⟨key, fun v y => fields name fs base v = .ok y, part⟩ doc c₀ c ↔
      ∀ a ∈ slots, a.Follows (entriesAt doc key) base (part c) := by
  rw [← hfill.eq_ok_iff (keyed_entriesAt hdoc).unique]
  unfold Slot.Follows entriesAt
  dsimp only
  cases hv : doc.lookup key with
  | none => simp [hbase, eq_comm, pure, Except.pure]
  | some v =>
    obtain ⟨es, rfl⟩ := htable v hv
    rfl

lemma typed_section {name : String} {part : Config → σ} (hfill : Fill fs slots base)
    (hdoc : (Value.table doc).Keyed) (htable : TableAt doc key) :
    Slot.Typed ⟨key, fun v y => fields name fs base v = .ok y, part⟩ doc ↔
      ∀ a ∈ slots, a.Typed (entriesAt doc key) := by
  rw [← hfill.exists_ok_iff (keyed_entriesAt hdoc).unique]
  unfold Slot.Typed entriesAt
  dsimp only
  cases hv : doc.lookup key with
  | none => simp [pure, Except.pure]
  | some v =>
    obtain ⟨es, rfl⟩ := htable v hv
    simp [fields_table]

end Slots

section Documents
variable {doc : List (String × Value)} {c : Config}

lemma toolDirs_at (hdoc : (Value.table doc).Keyed) (hs : Sectioned doc) :
    ∀ v, doc.lookup "path" = some v →
      ∀ l, list toolDir v = .ok l ↔ IsList IsToolDir v l := by
  intro v hv l
  refine toolDirs_eq_ok_iff (hdoc.of_lookup hv) fun items hitems => ?_
  exact hs.path items (hitems ▸ hv)

lemma table_at (hdoc : (Value.table doc).Keyed) (key : String) (base : Table) :
    ∀ v, doc.lookup key = some v →
      ∀ t, (∃ l, table v = .ok l ∧ overlay base l = t) ↔ IsMerged base v t :=
  fun _ hv _ => overlay_eq_iff (hdoc.of_lookup hv)

theorem config_eq_ok_iff (hdoc : (Value.table doc).Keyed) (hs : Sectioned doc) :
    config doc = .ok c ↔ (∀ e ∈ doc, e.1 ∈ sectionKeys) ∧ Describes doc c := by
  obtain ⟨projectFields, hproject, hp⟩ := project_fill
  obtain ⟨layoutFields, hlayout, hl⟩ := layout_fill
  obtain ⟨ciFields, hci, hc⟩ := ci_fill
  rw [config_eq_ok_iff_foldlM, document_fill.eq_ok_iff hdoc.unique]
  refine and_congr_right fun _ => ?_
  simp only [documentSlots, List.forall_mem_cons, hp, hl, hc]
  rw [follows_section hproject rfl hdoc hs.project, follows_section hlayout rfl hdoc hs.layout,
    follows_section hci rfl hdoc hs.ci, Slot.follows_congr (toolDirs_at hdoc hs),
    Slot.follows_congr (table_at hdoc "make" _), Slot.follows_congr (table_at hdoc "tools" _)]
  constructor
  · rintro ⟨project, layout, ci, whole⟩
    exact ⟨project, layout, ci, by simpa only [wholeSlots, List.forall_mem_cons] using whole⟩
  · rintro ⟨project, layout, ci, whole⟩
    exact ⟨project, layout, ci, by simpa only [wholeSlots, List.forall_mem_cons] using whole⟩

theorem exists_config_iff (hdoc : (Value.table doc).Keyed) (hs : Sectioned doc) :
    (∃ c, config doc = .ok c) ↔ WellTyped doc := by
  obtain ⟨projectFields, hproject, hp⟩ := project_fill
  obtain ⟨layoutFields, hlayout, hl⟩ := layout_fill
  obtain ⟨ciFields, hci, hc⟩ := ci_fill
  simp only [config_eq_ok_iff_foldlM, exists_and_left]
  rw [document_fill.exists_ok_iff hdoc.unique]
  simp only [documentSlots, List.forall_mem_cons, hp, hl, hc]
  rw [typed_section hproject hdoc hs.project, typed_section hlayout hdoc hs.layout,
    typed_section hci hdoc hs.ci, Slot.typed_congr (toolDirs_at hdoc hs),
    Slot.typed_congr (table_at hdoc "make" _), Slot.typed_congr (table_at hdoc "tools" _)]
  constructor
  · rintro ⟨known, project, layout, ci, whole⟩
    exact ⟨known, project, layout, ci, by simpa only [wholeSlots, List.forall_mem_cons] using whole⟩
  · rintro ⟨known, project, layout, ci, whole⟩
    exact ⟨known, project, layout, ci, by simpa only [wholeSlots, List.forall_mem_cons] using whole⟩

end Documents
end Decode
end FirmwareTasks
