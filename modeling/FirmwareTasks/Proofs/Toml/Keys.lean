import Mathlib.Data.List.Induction
import FirmwareTasks.Proofs.Keyed
import FirmwareTasks.Toml.Statement
/-!
No table of a document has a key twice. Every way in which the reader adds to a table asks first
whether the key is there, and goes on into the table or the list that it finds.
-/
namespace FirmwareTasks.Toml

/-- No table in the value has a key twice. -/
inductive Value.Keyed : Value → Prop
  | text (s) : Keyed (.text s)
  | integer (n) : Keyed (.integer n)
  | float (d) : Keyed (.float d)
  | boolean (b) : Keyed (.boolean b)
  | moment (m) : Keyed (.moment m)
  | array {items} (each : ∀ v ∈ items, Keyed v) : Keyed (.array items)
  | table {es} (unique : UniqueKeys es) (each : ∀ e ∈ es, Keyed e.2) : Keyed (.table es)

namespace Value.Keyed
variable {es : List (String × Value)} {items : List Value} {key : String} {v : Value}

lemma unique (h : (Value.table es).Keyed) : UniqueKeys es := by
  cases h with
  | table unique => exact unique

lemma of_lookup (h : (Value.table es).Keyed) (hv : es.lookup key = some v) : v.Keyed := by
  cases h with
  | table _ each => exact each _ (mem_of_lookup hv)

lemma of_mem (h : (Value.array items).Keyed) (hv : v ∈ items) : v.Keyed := by
  cases h with
  | array each => exact each v hv

end Value.Keyed

/-- No table in the node has a key twice. -/
inductive Node.Keyed : Node → Prop
  | value {v} (h : v.Keyed) : Keyed (.value v)
  | table {form es} (unique : UniqueKeys es) (each : ∀ e ∈ es, Keyed e.2) :
    Keyed (.table form es)
  | tables {items} (unique : ∀ es ∈ items, UniqueKeys es)
      (each : ∀ es ∈ items, ∀ e ∈ es, Keyed e.2) : Keyed (.tables items)

namespace Entries

/-- No table in the entries has a key twice, and neither have they. -/
structure Keyed (es : Entries) : Prop where
  unique : UniqueKeys es
  each : ∀ e ∈ es, e.2.Keyed

variable {es es' : Entries} {key : String} {node : Node}

lemma keyed_nil : Keyed [] := ⟨List.nodup_nil, by simp⟩

lemma Keyed.of_lookup (h : es.Keyed) (hl : es.lookup key = some node) : node.Keyed :=
  h.each _ (mem_of_lookup hl)

lemma Keyed.add (h : es.Keyed) (hl : es.lookup key = none) (hn : node.Keyed) :
    Keyed (es ++ [(key, node)]) where
  unique := by
    rw [UniqueKeys, List.map_append, List.nodup_append]
    refine ⟨h.unique, by simp, ?_⟩
    rintro a ha b hb rfl
    cases List.mem_singleton.1 hb
    exact lookup_eq_none_iff.1 hl ha
  each e he := by
    rcases List.mem_append.1 he with he | he
    · exact h.each e he
    · rw [List.mem_singleton.1 he]
      exact hn

lemma Keyed.replace (h : es.Keyed) (hn : node.Keyed) : Keyed (replace key node es) where
  unique := by
    have hkeys : (Entries.replace key node es).map Prod.fst = es.map Prod.fst := by
      rw [Entries.replace, List.map_map]
      refine List.map_congr_left fun e _ => ?_
      simp only [Function.comp_apply]
      split <;> simp_all
    rw [UniqueKeys, hkeys]
    exact h.unique
  each e he := by
    obtain ⟨e', he', rfl⟩ := List.mem_map.1 he
    split
    · exact hn
    · exact h.each e' he'

lemma Keyed.without (h : es.Keyed) (key : String) : Keyed (es.filter (·.1 ≠ key)) where
  unique := h.unique.sublist (List.filter_sublist.map _)
  each e he := h.each e (List.mem_filter.1 he).1

lemma Keyed.ofTable {form : Form} (h : (Node.table form es).Keyed) : es.Keyed := by
  cases h with
  | table unique each => exact ⟨unique, each⟩

lemma Keyed.toTable (h : es.Keyed) (form : Form) : (Node.table form es).Keyed :=
  .table h.unique h.each

lemma keyed_tables_iff {items : List Entries} :
    (Node.tables items).Keyed ↔ ∀ es ∈ items, es.Keyed := by
  constructor
  · rintro (_ | _ | ⟨unique, each⟩) es hes
    exact ⟨unique es hes, each es hes⟩
  · intro h
    exact .tables (fun es hes => (h es hes).unique) fun es hes => (h es hes).each

lemma keyed_getLastD {items : List Entries} (h : ∀ es ∈ items, es.Keyed) :
    Keyed (items.getLastD []) := by
  cases items using List.reverseRecOn with
  | nil => exact keyed_nil
  | append_singleton items es => simpa using h es (by simp)

lemma keyed_exchange {items : List Entries} (h : ∀ es ∈ items, es.Keyed) (hes : es.Keyed) :
    (Node.tables (items.dropLast ++ [es])).Keyed := by
  refine keyed_tables_iff.2 fun u hu => ?_
  rcases List.mem_append.1 hu with hu | hu
  · exact h u ((List.dropLast_sublist items).subset hu)
  · rw [List.mem_singleton.1 hu]
    exact hes

theorem keyed_put? {v : Value} (hv : v.Keyed) {path : List String} (h : es.Keyed)
    (hput : put? v path es = some es') : es'.Keyed := by
  induction path generalizing es es' with
  | nil => cases hput
  | cons key path ih =>
    cases path with
    | nil =>
      rw [put?] at hput
      split at hput
      · cases hput
      · rename_i hnone
        cases hput
        rw [Option.not_isSome_iff_eq_none] at hnone
        exact h.add hnone (.value hv)
    | cons next path =>
      rw [put?] at hput
      · split at hput
        · rename_i hnone
          obtain ⟨sub, hsub, rfl⟩ := Option.map_eq_some_iff.1 hput
          exact h.add hnone ((ih keyed_nil hsub).toTable _)
        · rename_i form sub hsome
          split at hput
          · cases hput
          · obtain ⟨sub', hsub, rfl⟩ := Option.map_eq_some_iff.1 hput
            exact h.replace ((ih (Keyed.ofTable (h.of_lookup hsome)) hsub).toTable _)
        · rename_i items hsome
          split at hput
          · cases hput
          · obtain ⟨sub', hsub, rfl⟩ := Option.map_eq_some_iff.1 hput
            have hitems := keyed_tables_iff.1 (h.of_lookup hsome)
            exact h.replace (keyed_exchange hitems (ih (keyed_getLastD hitems) hsub))
        · cases hput
      · simp

theorem keyed_putAll? {pairs : List (List String × Value)} (hpairs : ∀ p ∈ pairs, p.2.Keyed)
    (h : es.Keyed) (hput : putAll? pairs es = some es') : es'.Keyed := by
  induction pairs generalizing es with
  | nil =>
    cases hput
    exact h
  | cons p pairs ih =>
    rw [List.forall_mem_cons] at hpairs
    rw [putAll?, List.foldlM_cons] at hput
    obtain ⟨es₁, hes₁, hput⟩ := Option.bind_eq_some_iff.1 hput
    exact ih hpairs.2 (keyed_put? hpairs.1 h hes₁) hput

theorem keyed_within? {change : Entries → Option Entries}
    (hchange : ∀ {u u' : Entries}, u.Keyed → change u = some u' → u'.Keyed) {path : List String}
    (h : es.Keyed) (hw : within? change path es = some es') : es'.Keyed := by
  induction path generalizing es es' with
  | nil => exact hchange h hw
  | cons key path ih =>
    rw [within?] at hw
    split at hw
    · rename_i hnone
      obtain ⟨sub, hsub, rfl⟩ := Option.map_eq_some_iff.1 hw
      exact h.add hnone ((ih keyed_nil hsub).toTable _)
    · rename_i form sub hsome
      obtain ⟨sub', hsub, rfl⟩ := Option.map_eq_some_iff.1 hw
      exact h.replace ((ih (Keyed.ofTable (h.of_lookup hsome)) hsub).toTable _)
    · rename_i items hsome
      obtain ⟨sub', hsub, rfl⟩ := Option.map_eq_some_iff.1 hw
      have hitems := keyed_tables_iff.1 (h.of_lookup hsome)
      exact h.replace (keyed_exchange hitems (ih (keyed_getLastD hitems) hsub))
    · cases hw

section Blocks
variable {pairs : List (List String × Value)} (hpairs : ∀ p ∈ pairs, p.2.Keyed)
include hpairs

lemma keyed_define? (h : es.Keyed) (hdef : define? pairs key es = some es') : es'.Keyed := by
  unfold define? at hdef
  split at hdef
  · rename_i hnone
    obtain ⟨sub, hsub, rfl⟩ := Option.map_eq_some_iff.1 hdef
    exact h.add hnone ((keyed_putAll? hpairs keyed_nil hsub).toTable _)
  · rename_i sub hsome
    obtain ⟨sub', hsub, rfl⟩ := Option.map_eq_some_iff.1 hdef
    have hgone : (es.filter (·.1 ≠ key)).lookup key = none := by
      rw [lookup_eq_none_iff]
      simp
    refine (h.without key).add hgone (Keyed.toTable ?_ _)
    exact keyed_putAll? hpairs (Keyed.ofTable (h.of_lookup hsome)) hsub
  · cases hdef

lemma keyed_enlist? (h : es.Keyed) (hlist : enlist? pairs key es = some es') : es'.Keyed := by
  unfold enlist? at hlist
  split at hlist
  · rename_i hnone
    obtain ⟨sub, hsub, rfl⟩ := Option.map_eq_some_iff.1 hlist
    refine h.add hnone (keyed_tables_iff.2 fun u hu => ?_)
    rw [List.mem_singleton.1 hu]
    exact keyed_putAll? hpairs keyed_nil hsub
  · rename_i items hsome
    obtain ⟨sub, hsub, rfl⟩ := Option.map_eq_some_iff.1 hlist
    refine h.replace (keyed_tables_iff.2 fun u hu => ?_)
    rcases List.mem_append.1 hu with hu | hu
    · exact keyed_tables_iff.1 (h.of_lookup hsome) u hu
    · rw [List.mem_singleton.1 hu]
      exact keyed_putAll? hpairs keyed_nil hsub
  · cases hlist

end Blocks

theorem keyed_block? {b : Block} (hb : ∀ p ∈ b.pairs, p.2.Keyed) (h : es.Keyed)
    (hblock : block? es b = some es') : es'.Keyed := by
  unfold block? at hblock
  split at hblock
  · cases hblock
  · refine keyed_within? (fun hu hu' => ?_) h hblock
    split at hu'
    · exact keyed_enlist? hb hu hu'
    · exact keyed_define? hb hu hu'

lemma keyed_blocks {bs : List Block} (hbs : ∀ b ∈ bs, ∀ p ∈ b.pairs, p.2.Keyed) (h : es.Keyed)
    (hblocks : bs.foldlM block? es = some es') : es'.Keyed := by
  induction bs generalizing es with
  | nil =>
    cases hblocks
    exact h
  | cons b bs ih =>
    rw [List.forall_mem_cons] at hbs
    rw [List.foldlM_cons] at hblocks
    obtain ⟨next, hnext, hblocks⟩ := Option.bind_eq_some_iff.1 hblocks
    exact ih hbs.2 (keyed_block? hbs.1 h hnext) hblocks

theorem keyed_ofBlocks? {pairs : List (List String × Value)} {bs : List Block}
    (hpairs : ∀ p ∈ pairs, p.2.Keyed) (hbs : ∀ b ∈ bs, ∀ p ∈ b.pairs, p.2.Keyed)
    (h : ofBlocks? pairs bs = some es) : es.Keyed := by
  obtain ⟨start, hstart, hblocks⟩ := Option.bind_eq_some_iff.1 h
  exact keyed_blocks hbs (keyed_putAll? hpairs keyed_nil hstart) hblocks

lemma toValues_eq (es : Entries) : es.toValues = es.map fun e => (e.1, ofNode e.2) := by
  induction es with
  | nil => rfl
  | cons e es ih => rw [toValues, ih, List.map_cons]

lemma ofItems_eq (items : List Entries) :
    ofItems items = items.map fun es => .table es.toValues := by
  induction items with
  | nil => rfl
  | cons es items ih => rw [ofItems, ih, List.map_cons]

lemma keyed_toValues (hunique : UniqueKeys es) (heach : ∀ e ∈ es, (ofNode e.2).Keyed) :
    (Value.table es.toValues).Keyed := by
  rw [toValues_eq]
  refine .table ?_ ?_
  · simpa [UniqueKeys, Function.comp_def] using hunique
  · intro e he
    obtain ⟨e', he', rfl⟩ := List.mem_map.1 he
    exact heach e' he'

theorem keyed_ofNode (h : node.Keyed) : (ofNode node).Keyed := by
  induction h with
  | value h => exact h
  | table unique each ih => exact keyed_toValues unique ih
  | tables unique each ih =>
    rw [ofNode, ofItems_eq]
    refine .array fun v hv => ?_
    obtain ⟨es, hes, rfl⟩ := List.mem_map.1 hv
    exact keyed_toValues (unique es hes) (ih es hes)

lemma Keyed.toValues (h : es.Keyed) : (Value.table es.toValues).Keyed :=
  keyed_toValues h.unique fun e he => keyed_ofNode (h.each e he)

end Entries

/-! What the reader takes has no key twice. -/

lemma keyed_takeItems {item : Reader Value} (hitem : ∀ {s v r}, item s = some (v, r) → v.Keyed)
    {fuel : Nat} {s r : List Char} {vs : List Value} (h : takeItems item fuel s = some (vs, r)) :
    ∀ v ∈ vs, v.Keyed := by
  induction fuel generalizing s vs with
  | zero => cases h
  | succ fuel ih =>
    obtain ⟨u, -, h⟩ := Option.bind_eq_some_iff.1 h
    split at h
    · cases h
      simp
    · obtain ⟨⟨v, u'⟩, hv, h⟩ := Option.bind_eq_some_iff.1 h
      obtain ⟨w, -, h⟩ := Option.bind_eq_some_iff.1 h
      split at h
      · obtain ⟨⟨vs', r'⟩, hvs, heq⟩ := Option.map_eq_some_iff.1 h
        cases heq
        exact List.forall_mem_cons.2 ⟨hitem hv, ih hvs⟩
      · cases h
        simpa using hitem hv
      · cases h

lemma keyed_takePair {value : Reader Value} (hvalue : ∀ {s v r}, value s = some (v, r) → v.Keyed)
    {s r : List Char} {pair : List String × Value} (h : takePair value s = some (pair, r)) :
    pair.2.Keyed := by
  obtain ⟨⟨path, u⟩, -, h⟩ := Option.bind_eq_some_iff.1 h
  obtain ⟨u', -, h⟩ := Option.bind_eq_some_iff.1 h
  obtain ⟨⟨v, w⟩, hv, h⟩ := Option.bind_eq_some_iff.1 h
  cases h
  exact hvalue hv

lemma keyed_takePairs {value : Reader Value} (hvalue : ∀ {s v r}, value s = some (v, r) → v.Keyed)
    {fuel : Nat} {s r : List Char} {pairs : List (List String × Value)}
    (h : takePairs value fuel s = some (pairs, r)) : ∀ p ∈ pairs, p.2.Keyed := by
  induction fuel generalizing s pairs with
  | zero => cases h
  | succ fuel ih =>
    obtain ⟨⟨pair, u⟩, hpair, h⟩ := Option.bind_eq_some_iff.1 h
    have hp := keyed_takePair hvalue hpair
    dsimp only at h
    split at h
    · obtain ⟨⟨pairs', r'⟩, hpairs, heq⟩ := Option.map_eq_some_iff.1 h
      cases heq
      exact List.forall_mem_cons.2 ⟨hp, ih hpairs⟩
    · cases h
      simpa using hp
    · cases h

lemma keyed_takeBraces {value : Reader Value} (hvalue : ∀ {s v r}, value s = some (v, r) → v.Keyed)
    {s r : List Char} {pairs : List (List String × Value)}
    (h : takeBraces value s = some (pairs, r)) : ∀ p ∈ pairs, p.2.Keyed := by
  unfold takeBraces at h
  split at h
  · cases h
    simp
  · exact keyed_takePairs hvalue h

lemma keyed_scalar? {s : List Char} {v : Value} (h : scalar? s = some v) : v.Keyed := by
  simp only [scalar?, Option.or_eq_some_iff, Option.map_eq_some_iff] at h
  rcases h with ⟨b, -, rfl⟩ | ⟨-, ⟨n, -, rfl⟩ | ⟨-, ⟨d, -, rfl⟩ | ⟨-, m, -, rfl⟩⟩⟩
  · exact .boolean b
  · exact .integer n
  · exact .float d
  · exact .moment m

lemma keyed_takeLeaf {s r : List Char} {v : Value} (h : takeLeaf s = some (v, r)) : v.Keyed := by
  unfold takeLeaf at h
  split at h
  · obtain ⟨_, -, heq⟩ := Option.map_eq_some_iff.1 h
    cases heq
    exact .text _
  · obtain ⟨_, -, heq⟩ := Option.map_eq_some_iff.1 h
    cases heq
    exact .text _
  · obtain ⟨w, hw, heq⟩ := Option.map_eq_some_iff.1 h
    cases heq
    exact keyed_scalar? hw

theorem keyed_takeValue {depth : Nat} {s r : List Char} {v : Value}
    (h : takeValue depth s = some (v, r)) : v.Keyed := by
  induction depth generalizing s r v with
  | zero => exact keyed_takeLeaf h
  | succ depth ih =>
    unfold takeValue at h
    split at h
    · obtain ⟨⟨vs, r'⟩, hvs, heq⟩ := Option.map_eq_some_iff.1 h
      cases heq
      exact .array (keyed_takeItems ih hvs)
    · obtain ⟨⟨pairs, r'⟩, hpairs, h⟩ := Option.bind_eq_some_iff.1 h
      obtain ⟨es, hes, h⟩ := Option.bind_eq_some_iff.1 h
      cases h
      exact (Entries.keyed_putAll? (keyed_takeBraces ih hpairs) Entries.keyed_nil hes).toValues
    · exact keyed_takeLeaf h

lemma keyed_takeStatements {fuel : Nat} {s : List Char} {statements : List Statement}
    (h : takeStatements fuel s = some statements) :
    ∀ path v, Statement.pair path v ∈ statements → v.Keyed := by
  induction fuel generalizing s statements with
  | zero => cases h
  | succ fuel ih =>
    rw [takeStatements] at h
    split at h
    · cases h
      simp
    · exact ih h
    · exact ih h
    · obtain ⟨u, -, h⟩ := Option.bind_eq_some_iff.1 h
      exact ih h
    · obtain ⟨⟨header, u⟩, -, h⟩ := Option.bind_eq_some_iff.1 h
      obtain ⟨w, -, h⟩ := Option.bind_eq_some_iff.1 h
      obtain ⟨rest, hrest, h⟩ := Option.bind_eq_some_iff.1 h
      cases h
      simpa using ih hrest
    · obtain ⟨⟨⟨path, v⟩, u⟩, hpair, h⟩ := Option.bind_eq_some_iff.1 h
      obtain ⟨w, -, h⟩ := Option.bind_eq_some_iff.1 h
      obtain ⟨rest, hrest, h⟩ := Option.bind_eq_some_iff.1 h
      cases h
      intro path' v' hmem
      rcases List.mem_cons.1 hmem with heq | hmem
      · cases heq
        exact keyed_takePair keyed_takeValue hpair
      · exact ih hrest path' v' hmem

lemma mem_blocks {statements : List Statement} {p : List String × Value}
    (h : p ∈ (blocks statements).1 ∨ ∃ b ∈ (blocks statements).2, p ∈ b.pairs) :
    .pair p.1 p.2 ∈ statements := by
  induction statements with
  | nil => simp [blocks] at h
  | cons statement rest ih =>
    cases statement with
    | pair path v =>
      rcases h with h | ⟨b, hb, hp⟩
      · rcases List.mem_cons.1 h with rfl | h
        · exact List.mem_cons_self
        · exact List.mem_cons_of_mem _ (ih (.inl h))
      · exact List.mem_cons_of_mem _ (ih (.inr ⟨b, hb, hp⟩))
    | header header =>
      rcases h with h | ⟨b, hb, hp⟩
      · cases h
      · rcases List.mem_cons.1 hb with rfl | hb
        · exact List.mem_cons_of_mem _ (ih (.inl hp))
        · exact List.mem_cons_of_mem _ (ih (.inr ⟨b, hb, hp⟩))

theorem keyed_of_read? {text : String} {doc : List (String × Value)} (h : read? text = some doc) :
    (Value.table doc).Keyed := by
  obtain ⟨statements, hstatements, h⟩ := Option.bind_eq_some_iff.1 h
  obtain ⟨es, hes, h⟩ := Option.bind_eq_some_iff.1 h
  cases h
  have hpairs := keyed_takeStatements hstatements
  refine (Entries.keyed_ofBlocks? (fun p hp => ?_) (fun b hb p hp => ?_) hes).toValues
  · exact hpairs p.1 p.2 (mem_blocks (.inl hp))
  · exact hpairs p.1 p.2 (mem_blocks (.inr ⟨b, hb, hp⟩))

end FirmwareTasks.Toml
