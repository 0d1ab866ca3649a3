import FirmwareTasks.Proofs.Config.Slots
import FirmwareTasks.Proofs.Toml.Keys
/-!
The sections of a document, and how they make a configuration: each is read on its own, the tables
of tools over the built-in ones, and a key that belongs to none of them is refused.
-/
namespace FirmwareTasks
open Toml

namespace Decode

/-! ## Tool directories and tables of texts -/

def IsToolDir (v : Value) (t : ToolDir) : Prop :=
  ∃ es, v = .table es ∧ (∃ n, es.lookup "name" = some n ∧ IsText n t.name) ∧
    ∃ d, es.lookup "dir" = some d ∧ IsPath d t.dir

/-- A table of texts. A date or time stands for a table with one entry, which shows its text. -/
def IsTextTable (v : Value) (l : List (String × String)) : Prop :=
  v = .table (l.map fun e => (e.1, .text e.2)) ∨
    ∃ m, v = .moment m ∧ l = [(Value.momentKey, m.text)]

/-- A table of texts merged over `base`. -/
def IsMerged (base : Table) (v : Value) (t : Table) : Prop :=
  ∃ l, IsTextTable v l ∧ ∀ key, t[key]? = (l.lookup key).or base[key]?

variable {v : Value} {es : List (String × Value)}

lemma toolDir_eq_ok_iff {t : ToolDir} (hkeys : UniqueKeys es) :
    toolDir (.table es) = .ok t ↔ IsToolDir (.table es) t := by
  rw [toolDir_table_eq_ok_iff, draft_fill.eq_ok_iff hkeys]
  simp only [draftSlots, List.forall_mem_cons, List.not_mem_nil, false_imp_iff, implies_true,
    and_true, Slot.Follows]
  cases hn : es.lookup "name" <;> cases hd : es.lookup "dir" <;> simp [IsToolDir, hn, hd]

lemma toolDirs_eq_ok_iff {l : List ToolDir} (hv : v.Keyed)
    (htables : ∀ items, v = .array items → ∀ i ∈ items, ∃ es, i = .table es) :
    list toolDir v = .ok l ↔ IsList IsToolDir v l := by
  rw [list_eq_ok_iff]
  refine exists_congr fun items => and_congr_right fun hitems => ?_
  refine List.forall₂_congr_of_mem fun i hi t => ?_
  obtain ⟨es, rfl⟩ := htables items hitems i hi
  subst hitems
  exact toolDir_eq_ok_iff (hv.of_mem hi).unique

lemma entry_eq_ok_iff {e : String × Value} {p : String × String} :
    (text e.2).map (e.1, ·) = .ok p ↔ e = (p.1, .text p.2) := by
  obtain ⟨key, v⟩ := e
  obtain ⟨key', s⟩ := p
  cases v <;> simp [text, Except.map]

lemma table_eq_ok_iff {l : List (String × String)} : table v = .ok l ↔ IsTextTable v l := by
  have hentries (es : List (String × Value)) :
      es.mapM (fun e => (text e.2).map (e.1, ·)) = .ok l ↔
        es = l.map fun e => (e.1, .text e.2) :=
    Except.mapM_eq_ok_iff_eq_map fun _ _ => entry_eq_ok_iff
  cases v with
  | table es => simp [table, Value.entries?, hentries, IsTextTable]
  | moment m =>
    simp only [table, Value.entries?, hentries, IsTextTable, reduceCtorEq, false_or,
      Value.moment.injEq, exists_eq_left']
    rw [eq_comm, List.map_eq_singleton_iff]
    simp [Prod.ext_iff]
  | _ => simp [table, Value.entries?, IsTextTable]

lemma uniqueKeys_of_isTextTable {l : List (String × String)} (hv : v.Keyed)
    (hl : IsTextTable v l) : UniqueKeys l := by
  rcases hl with rfl | ⟨m, -, rfl⟩
  · exact uniqueKeys_map_snd.1 hv.unique
  · simp [UniqueKeys]

theorem getElem?_overlay (base : Table) {l : List (String × String)} (hkeys : UniqueKeys l)
    (key : String) : (overlay base l)[key]? = (l.lookup key).or base[key]? := by
  have hdistinct : l.Pairwise fun a b => ¬ compare a.1 b.1 = .eq := by
    rw [UniqueKeys, List.Nodup, List.pairwise_map] at hkeys
    exact hkeys.imp fun hne heq => hne (Std.LawfulEqCmp.eq_of_compare heq)
  cases hl : l.lookup key with
  | some v =>
    have hmem := mem_of_lookup hl
    simpa [overlay] using
      Std.ExtTreeMap.getElem?_insertMany_list_of_mem Std.ReflCmp.compare_self hdistinct hmem
  | none =>
    have hout : (l.map Prod.fst).contains key = false := by
      simpa using lookup_eq_none_iff.1 hl
    simpa [overlay] using Std.ExtTreeMap.getElem?_insertMany_list_of_contains_eq_false hout

lemma overlay_eq_iff {base t : Table} (hv : v.Keyed) :
    (∃ l, table v = .ok l ∧ overlay base l = t) ↔ IsMerged base v t := by
  simp only [table_eq_ok_iff]
  refine exists_congr fun l => and_congr_right fun hl => ?_
  have hget := getElem?_overlay base (uniqueKeys_of_isTextTable hv hl)
  constructor
  · rintro rfl
    exact hget
  · intro ht
    exact Std.ExtTreeMap.ext_getElem? fun key => (hget key).trans (ht key).symm

/-! ## Sections of a document -/

/-- The sections as they are read, each by its own reader. -/
def documentSlots : List (Slot Config) :=
  [⟨"project", fun v p => project v = .ok p, (·.project)⟩,
    ⟨"layout", fun v l => layout v = .ok l, (·.layout)⟩,
    ⟨"ci", fun v c => ci v = .ok c, (·.ci)⟩,
    ⟨"path", fun v l => list toolDir v = .ok l, (·.paths)⟩,
    ⟨"make", fun v t => ∃ l, table v = .ok l ∧ overlay Config.builtIn.make l = t, (·.make)⟩,
    ⟨"tools", fun v t => ∃ l, table v = .ok l ∧ overlay Config.builtIn.tools l = t, (·.tools)⟩]

theorem document_fill : Fill sections documentSlots .builtIn where
  slot := by simp [documentSlots, sections, field]
  field := by
    simp only [documentSlots, List.forall_mem_cons]
    and_intros
    · exact ⟨_, rfl, fills_of_reads (fun _ _ => Iff.rfl) fun _ _ => rfl⟩
    · exact ⟨_, rfl, fills_of_reads (fun _ _ => Iff.rfl) fun _ _ => rfl⟩
    · exact ⟨_, rfl, fills_of_reads (fun _ _ => Iff.rfl) fun _ _ => rfl⟩
    · exact ⟨_, rfl, fills_of_reads (fun _ _ => Iff.rfl) fun _ _ => rfl⟩
    · exact ⟨_, rfl, fills_field _ (fun _ _ => Iff.rfl) fun _ l hs => congrArg (overlay · l) hs⟩
    · exact ⟨_, rfl, fills_field _ (fun _ _ => Iff.rfl) fun _ l hs => congrArg (overlay · l) hs⟩
    · simp
  keeps := by
    simp only [documentSlots, sections, List.forall_mem_cons]
    and_intros
    all_goals first
      | exact fun h => absurd rfl h
      | exact fun _ => keeps_field fun _ _ => rfl
      | simp
  ext := by
    rintro ⟨⟩ ⟨⟩ h
    simpa [documentSlots] using h

def sectionKeys : List String := ["project", "layout", "ci", "path", "make", "tools"]

lemma config_eq_ok_iff_foldlM {c : Config} :
    config es = .ok c ↔
      (∀ e ∈ es, e.1 ∈ sectionKeys) ∧ es.foldlM (takeEntry sections) .builtIn = .ok c := by
  change _ ↔ (∀ e ∈ es, e.1 ∈ sections.map (·.key)) ∧ _
  unfold config
  generalize Config.builtIn = start
  induction es generalizing start with
  | nil => simp
  | cons e es ih =>
    rw [List.forall_mem_cons, List.foldlM_cons, List.foldlM_cons, takeEntry]
    cases hfind : sections.find? (·.key == e.1) with
    | none =>
      have hout : e.1 ∉ sections.map (·.key) := by
        intro hin
        obtain ⟨f, hf, hkey⟩ := List.mem_map.1 hin
        exact List.find?_eq_none.1 hfind f hf (beq_iff_eq.2 hkey)
      simp [hout, bind, Except.bind]
    | some f =>
      have hin : e.1 ∈ sections.map (·.key) :=
        List.mem_map.2 ⟨f, List.mem_of_find?_eq_some hfind, by simpa using List.find?_some hfind⟩
      dsimp only
      cases hput : f.put start e.2 with
      | error m => simp [bind, Except.bind]
      | ok s => simpa [hin, bind, Except.bind] using ih s

end Decode
end FirmwareTasks
