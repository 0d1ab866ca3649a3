import Mathlib
import FirmwareTasks.Proofs.Config.Described
/-!
The order of keys. Documents are the same up to it when their tables, at every depth, have the same
keys with the same values; such documents describe the same configurations, and so they are read
alike.
-/
namespace FirmwareTasks
open Toml

namespace Toml.Value

/-- The same but for the order of keys. -/
inductive Same : Value → Value → Prop
  | refl (v) : Same v v
  | array {vs ws} (length : vs.length = ws.length)
      (each : ∀ (i : Nat) v w, vs[i]? = some v → ws[i]? = some w → Same v w) :
    Same (.array vs) (.array ws)
  | table {es fs} (keys : (es.map Prod.fst).Perm (fs.map Prod.fst))
      (each : ∀ key v w, es.lookup key = some v → fs.lookup key = some w → Same v w) :
    Same (.table es) (.table fs)

variable {es fs : List (String × Value)} {v w : Value}

lemma Same.of_perm (hkeys : UniqueKeys es) (h : es.Perm fs) : Same (.table es) (.table fs) := by
  refine .table (h.map Prod.fst) fun key v w hv hw => ?_
  rw [hkeys.lookup_eq_of_perm h, hw] at hv
  cases hv
  exact .refl v

theorem Same.symm (h : Same v w) : Same w v := by
  induction h with
  | refl v => exact .refl v
  | array length _ ih => exact .array length.symm fun i v w hv hw => ih i w v hw hv
  | table keys _ ih => exact .table keys.symm fun key v w hv hw => ih key w v hw hv

lemma Same.items {vs ws : List Value} (h : Same (.array vs) (.array ws)) :
    List.Forall₂ Same vs ws := by
  cases h with
  | refl => exact List.forall₂_same.2 fun v _ => .refl v
  | array length each =>
    refine List.forall₂_iff_get.2 ⟨length, fun i hv hw => each i _ _ ?_ ?_⟩ <;> simp

lemma Same.lookup (h : Same (.table es) (.table fs)) (key : String) :
    Option.Rel Same (es.lookup key) (fs.lookup key) := by
  cases h with
  | refl =>
    cases es.lookup key with
    | none => exact .none
    | some v => exact .some (.refl v)
  | table keys each =>
    cases hv : es.lookup key with
    | none =>
      have hout : fs.lookup key = none := by
        rw [lookup_eq_none_iff, ← keys.mem_iff, ← lookup_eq_none_iff, hv]
      rw [hout]
      exact .none
    | some v =>
      cases hw : fs.lookup key with
      | none =>
        rw [lookup_eq_none_iff, ← keys.mem_iff, ← lookup_eq_none_iff, hv] at hw
        cases hw
      | some w => exact .some (each key v w hv hw)

lemma Same.of_lookup (h : Same (.table es) (.table fs)) {key : String}
    (hw : fs.lookup key = some w) : ∃ v, es.lookup key = some v ∧ Same v w := by
  have hrel := h.lookup key
  rw [hw] at hrel
  cases hv : es.lookup key with
  | none =>
    rw [hv] at hrel
    cases hrel
  | some v =>
    rw [hv] at hrel
    cases hrel with
    | some hsame => exact ⟨v, rfl, hsame⟩

lemma Same.table_of_table (h : Same (.table es) w) : ∃ fs, w = .table fs := by
  cases h with
  | refl => exact ⟨es, rfl⟩
  | table => exact ⟨_, rfl⟩

lemma Same.array_of_array {vs : List Value} (h : Same (.array vs) w) : ∃ ws, w = .array ws := by
  cases h with
  | refl => exact ⟨vs, rfl⟩
  | array => exact ⟨_, rfl⟩

lemma Same.eq_of_texts {a b : Option String}
    (h : Option.Rel Same (a.map Value.text) (b.map Value.text)) : a = b := by
  cases a <;> cases b <;> cases h
  · rfl
  · rename_i hsame
    cases hsame
    rfl

lemma Same.keys (h : Same (.table es) (.table fs)) :
    (es.map Prod.fst).Perm (fs.map Prod.fst) := by
  cases h with
  | refl => rfl
  | table keys => exact keys

end Toml.Value

namespace Decode
open Toml.Value

/-- What values mean does not depend on the order of keys. -/
def Orderless {α : Type} (Means : Value → α → Prop) : Prop :=
  ∀ v w, v.Keyed → w.Keyed → Same v w → ∀ x, Means v x ↔ Means w x

lemma orderless_text : Orderless IsText := by
  rintro v w - - h s
  constructor
  · rintro rfl
    cases h
    rfl
  · rintro rfl
    cases h
    rfl

lemma orderless_path : Orderless IsPath := by
  intro v w hv hw h p
  exact exists_congr fun s => and_congr_left' (orderless_text v w hv hw h s)

lemma orderless_count : Orderless IsCount := by
  rintro v w - - h n
  refine and_congr_left' ⟨?_, ?_⟩
  · rintro rfl
    cases h
    rfl
  · rintro rfl
    cases h
    rfl

lemma orderless_list {α : Type} {Means : Value → α → Prop} (hmeans : Orderless Means) :
    Orderless (IsList Means) := by
  intro v w hv hw h l
  cases h with
  | refl => rfl
  | table => simp [IsList]
  | @array vs ws length each =>
    have hsame := (Same.array length each).items
    clear length each
    simp only [IsList, Value.array.injEq, exists_eq_left']
    have hvs : ∀ i ∈ vs, i.Keyed := fun i => hv.of_mem
    have hws : ∀ i ∈ ws, i.Keyed := fun i => hw.of_mem
    clear hv hw
    induction hsame generalizing l with
    | nil => rfl
    | cons h _ ih =>
      rw [List.forall_mem_cons] at hvs hws
      simp only [List.forall₂_cons_left_iff, hmeans _ _ hvs.1 hws.1 h, ih _ hvs.2 hws.2]

section Entries
variable {es fs : List (String × Value)} (hes : (Value.table es).Keyed)
  (hfs : (Value.table fs).Keyed) (h : Same (.table es) (.table fs))
include hes hfs h

lemma found_iff {α : Type} {Means : Value → α → Prop} (hmeans : Orderless Means) (key : String)
    (x : α) :
    (∃ v, es.lookup key = some v ∧ Means v x) ↔ ∃ w, fs.lookup key = some w ∧ Means w x := by
  have hrel := h.lookup key
  have hv (v) (h : es.lookup key = some v) : v.Keyed := hes.of_lookup h
  have hw (w) : fs.lookup key = some w → w.Keyed := hfs.of_lookup
  generalize es.lookup key = a at hrel hv ⊢
  generalize fs.lookup key = b at hrel hw ⊢
  cases hrel with
  | none => rfl
  | some hsame => simp [hmeans _ _ (hv _ rfl) (hw _ rfl) hsame x]

variable {σ : Type} {a : Slot σ} (ha : Orderless a.Means)
include ha

lemma follows_of_same {base x : σ} : a.Follows es base x ↔ a.Follows fs base x := by
  unfold Slot.Follows
  have hrel := h.lookup a.key
  have hv (v) : es.lookup a.key = some v → v.Keyed := hes.of_lookup
  have hw (w) : fs.lookup a.key = some w → w.Keyed := hfs.of_lookup
  generalize es.lookup a.key = b at hrel hv ⊢
  generalize fs.lookup a.key = c at hrel hw ⊢
  cases hrel with
  | none => rfl
  | some hsame => exact ha _ _ (hv _ rfl) (hw _ rfl) hsame _

end Entries

lemma orderless_toolDir : Orderless IsToolDir := by
  intro v w hv hw h t
  cases h with
  | refl => rfl
  | array => simp [IsToolDir]
  | table keys each =>
    have hsame := Same.table keys each
    simp only [IsToolDir, Value.table.injEq, exists_eq_left',
      found_iff hv hw hsame orderless_text, found_iff hv hw hsame orderless_path]

lemma exists_texts {fs : List (String × Value)} (h : ∀ e ∈ fs, ∃ s, e.2 = .text s) :
    ∃ l : List (String × String), fs = l.map fun e => (e.1, .text e.2) := by
  induction fs with
  | nil => exact ⟨[], rfl⟩
  | cons e fs ih =>
    obtain ⟨key, v⟩ := e
    rw [List.forall_mem_cons] at h
    obtain ⟨⟨s, rfl⟩, hfs⟩ := h
    obtain ⟨l, rfl⟩ := ih hfs
    exact ⟨(key, s) :: l, rfl⟩

lemma isTextTable_of_same {es fs : List (String × Value)} {l : List (String × String)}
    (hfs : (Value.table fs).Keyed) (h : Same (.table es) (.table fs))
    (hl : IsTextTable (.table es) l) :
    ∃ l', IsTextTable (.table fs) l' ∧ ∀ key, l'.lookup key = l.lookup key := by
  simp only [IsTextTable, Value.table.injEq, reduceCtorEq, false_and, exists_false, or_false]
    at hl ⊢
  have hfound (key) : Option.Rel Same ((l.lookup key).map .text) (fs.lookup key) := by
    rw [← lookup_map_snd, ← hl]
    exact h.lookup key
  have htexts : ∀ e ∈ fs, ∃ s, e.2 = .text s := by
    intro e he
    have hrel := hfound e.1
    rw [hfs.unique.lookup_eq_some_iff.2 he] at hrel
    cases hs : l.lookup e.1 with
    | none =>
      rw [hs] at hrel
      cases hrel
    | some s =>
      rw [hs] at hrel
      rcases hrel with ⟨hsame⟩
      exact ⟨s, by generalize e.2 = v at hsame; cases hsame; rfl⟩
  obtain ⟨l', rfl⟩ := exists_texts htexts
  refine ⟨l', rfl, fun key => ?_⟩
  have hrel := hfound key
  rw [lookup_map_snd] at hrel
  exact (Same.eq_of_texts hrel).symm

lemma merged_of_same {base t : Table} {v w : Value} (hw : w.Keyed) (h : Same v w)
    (ht : IsMerged base v t) : IsMerged base w t := by
  cases h with
  | refl => exact ht
  | array =>
    obtain ⟨l, hl, -⟩ := ht
    simp [IsTextTable] at hl
  | table keys each =>
    obtain ⟨l, hl, hget⟩ := ht
    obtain ⟨l', hl', hlookup⟩ := isTextTable_of_same hw (.table keys each) hl
    exact ⟨l', hl', fun key => by rw [hlookup, hget]⟩

lemma orderless_merged (base : Table) : Orderless (IsMerged base) :=
  fun _ _ hv hw h _ => ⟨merged_of_same hw h, merged_of_same hv h.symm⟩

/-! ## Documents -/

lemma orderless_projectSlots : ∀ a ∈ projectSlots, Orderless a.Means := by
  simp only [projectSlots, List.forall_mem_cons]
  simp [orderless_text, orderless_path, orderless_count, orderless_list orderless_text]

lemma orderless_layoutSlots : ∀ a ∈ layoutSlots, Orderless a.Means := by
  simp only [layoutSlots, List.forall_mem_cons]
  simp [orderless_path]

lemma orderless_ciSlots : ∀ a ∈ ciSlots, Orderless a.Means := by
  simp only [ciSlots, List.forall_mem_cons]
  simp [orderless_text]

lemma orderless_wholeSlots : ∀ a ∈ wholeSlots, Orderless a.Means := by
  simp only [wholeSlots, List.forall_mem_cons]
  simp [orderless_list orderless_toolDir, orderless_merged]

section Documents
variable {doc doc' : List (String × Value)} (hdoc : (Value.table doc).Keyed)
  (hdoc' : (Value.table doc').Keyed) (h : Same (.table doc) (.table doc'))

include h

lemma same_entriesAt (key : String) :
    Same (.table (entriesAt doc key)) (.table (entriesAt doc' key)) := by
  have hrel := h.lookup key
  unfold entriesAt
  generalize doc.lookup key = a at hrel ⊢
  generalize doc'.lookup key = b at hrel ⊢
  cases hrel with
  | none => exact .refl _
  | some hsame =>
    cases hsame with
    | refl => exact .refl _
    | array => exact .refl _
    | table keys each => exact .table keys each

lemma tableAt_of_same {key : String} (htable : TableAt doc key) : TableAt doc' key := by
  intro w hw
  obtain ⟨v, hv, hsame⟩ := h.of_lookup hw
  obtain ⟨es, rfl⟩ := htable v hv
  exact hsame.table_of_table

lemma sectioned_of_same (hs : Sectioned doc) : Sectioned doc' where
  project := tableAt_of_same h hs.project
  layout := tableAt_of_same h hs.layout
  ci := tableAt_of_same h hs.ci
  path ws hws w hw := by
    obtain ⟨v, hv, hsame⟩ := h.of_lookup hws
    obtain ⟨vs, rfl⟩ := hsame.symm.array_of_array
    obtain ⟨i, hi, rfl⟩ := List.mem_iff_getElem.1 hw
    have hi' : i < vs.length := hsame.items.length_eq ▸ hi
    obtain ⟨es, hes⟩ := hs.path vs hv vs[i] (List.getElem_mem hi')
    have hitem := hsame.items.get hi' hi
    simp only [List.get_eq_getElem, hes] at hitem
    exact hitem.table_of_table

include hdoc hdoc'

lemma follows_entriesAt {σ : Type} {slots : List (Slot σ)} {base x : σ}
    (hslots : ∀ a ∈ slots, Orderless a.Means) (key : String) :
    (∀ a ∈ slots, a.Follows (entriesAt doc key) base x) ↔
      ∀ a ∈ slots, a.Follows (entriesAt doc' key) base x :=
  forall₂_congr fun a ha =>
    follows_of_same (keyed_entriesAt hdoc) (keyed_entriesAt hdoc') (same_entriesAt h key)
      (hslots a ha)

/-- Documents that differ in the order of keys only describe the same. -/
theorem describes_of_same {c : Config} (hd : Describes doc c) : Describes doc' c where
  project := (follows_entriesAt hdoc hdoc' h orderless_projectSlots "project").1 hd.project
  layout := (follows_entriesAt hdoc hdoc' h orderless_layoutSlots "layout").1 hd.layout
  ci := (follows_entriesAt hdoc hdoc' h orderless_ciSlots "ci").1 hd.ci
  whole a ha := (follows_of_same hdoc hdoc' h (orderless_wholeSlots a ha)).1 (hd.whole a ha)

theorem config_of_same {c : Config} (hs : Sectioned doc) :
    config doc = .ok c ↔ config doc' = .ok c := by
  rw [config_eq_ok_iff hdoc hs, config_eq_ok_iff hdoc' (sectioned_of_same h hs)]
  have hknown : (∀ e ∈ doc, e.1 ∈ sectionKeys) ↔ ∀ e ∈ doc', e.1 ∈ sectionKeys := by
    have hall (d : List (String × Value)) :
        (∀ e ∈ d, e.1 ∈ sectionKeys) ↔ ∀ key ∈ d.map Prod.fst, key ∈ sectionKeys := by simp
    rw [hall, hall]
    exact forall_congr' fun key => imp_congr_left h.keys.mem_iff
  exact and_congr hknown
    ⟨describes_of_same hdoc hdoc' h, describes_of_same hdoc' hdoc h.symm⟩

end Documents
end Decode

section Reading
open Decode

variable {text : String} {doc : List (String × Value)}

/-- A document is read as the configuration that it describes, section by section. It can be read
if its keys are known and its values have their types, and what is read does not depend on the
order of keys. -/
theorem document_read_as_described (hread : Toml.read? text = some doc) (hs : Sectioned doc) :
    ((∃ c, Config.ofText text = .ok c) ↔ WellTyped doc) ∧
    (¬ WellTyped doc → ∃ m, Config.ofText text = .error (.configParse m)) ∧
    (∀ c, Config.ofText text = .ok c ↔ (∀ e ∈ doc, e.1 ∈ sectionKeys) ∧ Describes doc c) ∧
    ∀ text' doc', Toml.read? text' = some doc' → Value.Same (.table doc) (.table doc') →
      ∀ c, Config.ofText text' = .ok c ↔ Config.ofText text = .ok c := by
  have hok {text doc} (h : Toml.read? text = some doc) (c : Config) :
      Config.ofText text = .ok c ↔ config doc = .ok c := by
    simp only [Config.ofText, h]
    cases config doc <;> simp [Except.mapError]
  have hdoc := keyed_of_read? hread
  refine ⟨?_, fun hill => ?_, fun c => ?_, fun text' doc' hread' hsame c => ?_⟩
  · simp only [hok hread, exists_config_iff hdoc hs]
  · rw [← exists_config_iff hdoc hs] at hill
    cases hm : config doc with
    | error m => exact ⟨.mismatch m, by simp [Config.ofText, hread, hm, Except.mapError]⟩
    | ok c => exact absurd ⟨c, hm⟩ hill
  · rw [hok hread, config_eq_ok_iff hdoc hs]
  · rw [hok hread', hok hread]
    exact (config_of_same hdoc (keyed_of_read? hread') hsame hs).symm

/-- A project and a tool, and the same with the sections and the keys the other way round. -/
def projectLast : List (String × Value) :=
  [("tools", .table [("ant", .text "a")]),
    ("project", .table [("jobs", .integer 4), ("name", .text "p")])]

def projectFirst : List (String × Value) :=
  [("project", .table [("name", .text "p"), ("jobs", .integer 4)]),
    ("tools", .table [("ant", .text "a")])]

theorem document_read_in_both_orders :
    Toml.read? "tools.ant = 'a'\n[project]\njobs = 4\nname = 'p'\n" = some projectLast ∧
    Sectioned projectLast ∧
    ∃ c, Config.ofText "tools.ant = 'a'\n[project]\njobs = 4\nname = 'p'\n" = .ok c ∧
      Config.ofText "[project]\nname = 'p'\njobs = 4\n[tools]\nant = 'a'\n" = .ok c ∧
      c.project.jobs = 4 ∧ c.project.generator = "Ninja" := by
  have hread : Toml.read? "tools.ant = 'a'\n[project]\njobs = 4\nname = 'p'\n" =
      some projectLast := by cbv
  have hread' : Toml.read? "[project]\nname = 'p'\njobs = 4\n[tools]\nant = 'a'\n" =
      some projectFirst := by cbv
  have hs : Sectioned projectLast := by
    constructor <;> simp [TableAt, projectLast, List.lookup]
  have hsame : Value.Same (.table projectLast) (.table projectFirst) := by
    refine .table (List.Perm.swap _ _ _) fun key v w hv hw => ?_
    have hmem := mem_of_lookup hv
    simp only [projectLast, List.mem_cons, Prod.mk.injEq, List.not_mem_nil, or_false] at hmem
    rcases hmem with ⟨rfl, rfl⟩ | ⟨rfl, rfl⟩
    · cases hw
      exact .refl _
    · cases hw
      exact .of_perm (by simp [UniqueKeys]) (List.Perm.swap _ _ _)
  obtain ⟨hok, -, hdescribes, horder⟩ := document_read_as_described hread hs
  obtain ⟨c, hc⟩ := hok.2 ((exists_config_iff (keyed_of_read? hread) hs).1 ⟨_, rfl⟩)
  have hd := ((hdescribes c).1 hc).2
  refine ⟨hread, hs, c, hc, (horder _ _ hread' hsame c).2 hc, ?_, ?_⟩
  · have hjobs : IsCount (.integer 4) c.project.jobs :=
      hd.project ⟨"jobs", IsCount, (·.jobs)⟩ (by simp [projectSlots])
    have h := Value.integer.inj hjobs.1
    omega
  · exact hd.project ⟨"generator", IsText, (·.generator)⟩ (by simp [projectSlots])

/-- A date where a table of texts is wanted is taken for one. -/
theorem date_read_as_table : ∃ m, Toml.read? "make = 1979-05-27" = some [("make", .moment m)] ∧
    Sectioned [("make", .moment m)] ∧ (∀ es, Value.moment m ≠ .table es) ∧
    ∃ c, Config.ofText "make = 1979-05-27" = .ok c := by
  obtain ⟨m, hread⟩ : ∃ m, Toml.read? "make = 1979-05-27" = some [("make", .moment m)] :=
    ⟨_, by cbv⟩
  refine ⟨m, hread, ?_, by simp, ?_⟩
  · constructor <;> simp [TableAt, List.lookup]
  · exact ⟨_, by simp only [Config.ofText, hread]; rfl⟩

end Reading
end FirmwareTasks
