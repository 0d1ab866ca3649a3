import FirmwareTasks.Config.Decode
import FirmwareTasks.Proofs.Keyed
/-!
Sections of a configuration, read entry by entry. A section is seen through its slots: what it ends
up with in a slot is what the entry with that key says, wherever this stands, or else what it
starts with; and it can be read when each entry for a slot can.
-/
namespace FirmwareTasks.Decode
open Toml

/-- A part of a section: its key, what a value at that key means, and where the section has it. -/
structure Slot (σ : Type) where
  key : String
  {α : Type}
  Means : Value → α → Prop
  get : σ → α

variable {σ α : Type}

namespace Slot

/-- The slot can be read, if it is there. -/
def Typed (a : Slot σ) (es : List (String × Value)) : Prop :=
  ∀ v, es.lookup a.key = some v → ∃ y, a.Means v y

/-- The slot is what the entries say, and as in `base` where they do not say anything. -/
def Follows (a : Slot σ) (es : List (String × Value)) (base x : σ) : Prop :=
  match es.lookup a.key with
  | some v => a.Means v (a.get x)
  | none => a.get x = a.get base

end Slot

/-- What is read is what is meant. -/
def Reads (decode : Decode α) (Means : Value → α → Prop) : Prop :=
  ∀ v x, decode v = .ok x ↔ Means v x

/-- The field reads what its slot means, and puts it there if the slot is still as in `base`. -/
structure Field.Fills (f : Field σ) (a : Slot σ) (base : σ) : Prop where
  ok_iff : ∀ s v, (∃ s', f.put s v = .ok s') ↔ ∃ y, a.Means v y
  sets : ∀ s v s', a.get s = a.get base → f.put s v = .ok s' → ∀ y, a.Means v y ↔ a.get s' = y

/-- The field leaves the slot alone. -/
def Field.Keeps (f : Field σ) (a : Slot σ) : Prop :=
  ∀ s v s', f.put s v = .ok s' → a.get s' = a.get s

/-- The fields fill the slots, each the one with its key and no other, and the slots are all there
is to a section. -/
structure Fill (fs : List (Field σ)) (slots : List (Slot σ)) (base : σ) : Prop where
  slot : ∀ f ∈ fs, ∃ a ∈ slots, a.key = f.key
  field : ∀ a ∈ slots, ∃ f, fs.find? (·.key == a.key) = some f ∧ f.Fills a base
  keeps : ∀ f ∈ fs, ∀ a ∈ slots, f.key ≠ a.key → f.Keeps a
  ext : ∀ x y : σ, (∀ a ∈ slots, a.get x = a.get y) → x = y

lemma put_field_eq_ok_iff {key : String} {decode : Decode α} {set : σ → α → σ} {s s' : σ}
    {v : Value} :
    (field key decode set).put s v = .ok s' ↔ ∃ x, decode v = .ok x ∧ set s x = s' := by
  cases h : decode v <;> simp [field, h, Except.map]

lemma fills_field {β : Type} {key name : String} {decode : Decode α} {set : σ → α → σ}
    {Means : Value → β → Prop} {get : σ → β} {base : σ} (made : α → β)
    (hmeans : ∀ v y, Means v y ↔ ∃ x, decode v = .ok x ∧ made x = y)
    (hget : ∀ s x, get s = get base → get (set s x) = made x) :
    (field key decode set).Fills ⟨name, Means, get⟩ base where
  ok_iff s v := by
    simp only [put_field_eq_ok_iff, hmeans v]
    constructor
    · rintro ⟨-, x, hx, -⟩; exact ⟨made x, x, hx, rfl⟩
    · rintro ⟨-, x, hx, -⟩; exact ⟨set s x, x, hx, rfl⟩
  sets s v s' hs h y := by
    obtain ⟨x, hx, rfl⟩ := put_field_eq_ok_iff.1 h
    change Means v y ↔ get (set s x) = y
    rw [hget s x hs, hmeans]
    simp [hx]

lemma fills_of_reads {key name : String} {decode : Decode α} {set : σ → α → σ}
    {Means : Value → α → Prop} {get : σ → α} {base : σ} (hreads : Reads decode Means)
    (hget : ∀ s x, get (set s x) = x) :
    (field key decode set).Fills ⟨name, Means, get⟩ base :=
  fills_field id (fun v y => by simp [hreads v]) fun s x _ => hget s x

lemma keeps_field {a : Slot σ} {key : String} {decode : Decode α} {set : σ → α → σ}
    (hget : ∀ s x, a.get (set s x) = a.get s) : (field key decode set).Keeps a := by
  intro s v s' h
  obtain ⟨x, -, rfl⟩ := put_field_eq_ok_iff.1 h
  exact hget s x

/-- What one entry does to a section: it fills the slot with its key, or it is ignored. -/
def takeEntry (fs : List (Field σ)) (s : σ) (e : String × Value) : Except Mismatch σ :=
  match fs.find? (·.key == e.1) with
  | some f => f.put s e.2
  | none => .ok s

variable {fs : List (Field σ)} {slots : List (Slot σ)} {es : List (String × Value)} {base x : σ}

lemma fields_table (name : String) (fs : List (Field σ)) (base : σ)
    (es : List (String × Value)) :
    fields name fs base (.table es) = es.foldlM (takeEntry fs) base := rfl

lemma takeEntry_eq_ok {s s' : σ} {e : String × Value} (h : takeEntry fs s e = .ok s') :
    (∃ f ∈ fs, f.key = e.1 ∧ f.put s e.2 = .ok s') ∨ s' = s := by
  unfold takeEntry at h
  split at h
  · rename_i f hf
    exact .inl ⟨f, List.mem_of_find?_eq_some hf, by simpa using List.find?_some hf, h⟩
  · cases h
    exact .inr rfl

namespace Fill

lemma takeEntry_ok_iff (h : Fill fs slots base) (s : σ) (e : String × Value) :
    (∃ s', takeEntry fs s e = .ok s') ↔ ∀ a ∈ slots, a.key = e.1 → ∃ y, a.Means e.2 y := by
  unfold takeEntry
  cases hfind : fs.find? (·.key == e.1) with
  | some f =>
    have hkey : f.key = e.1 := by simpa using List.find?_some hfind
    constructor
    · intro hput a ha hae
      obtain ⟨g, hg, hfill⟩ := h.field a ha
      rw [hae, hfind] at hg
      cases hg
      exact (hfill.ok_iff s e.2).1 hput
    · intro hmeans
      obtain ⟨a, ha, hak⟩ := h.slot f (List.mem_of_find?_eq_some hfind)
      obtain ⟨g, hg, hfill⟩ := h.field a ha
      rw [hak, hkey, hfind] at hg
      cases hg
      exact (hfill.ok_iff s e.2).2 (hmeans a ha (hak.trans hkey))
  | none =>
    refine ⟨fun _ a ha hae => ?_, fun _ => ⟨s, rfl⟩⟩
    obtain ⟨g, hg, -⟩ := h.field a ha
    rw [hae, hfind] at hg
    cases hg

theorem exists_ok_iff (h : Fill fs slots base) (hkeys : UniqueKeys es) :
    (∃ x, es.foldlM (takeEntry fs) base = .ok x) ↔ ∀ a ∈ slots, a.Typed es := by
  rw [exists_foldlM_ok_iff fun e _ s => h.takeEntry_ok_iff s e]
  constructor
  · intro hall a ha v hv
    exact hall _ (mem_of_lookup hv) a ha rfl
  · intro htyped e he a ha hae
    refine htyped a ha e.2 (hkeys.lookup_eq_some_iff.2 ?_)
    rw [hae]
    exact he

lemma follows_iff (h : Fill fs slots base) (hkeys : UniqueKeys es)
    (hx : es.foldlM (takeEntry fs) base = .ok x) {a : Slot σ} (ha : a ∈ slots) (y : σ) :
    a.Follows es base y ↔ a.get x = a.get y := by
  have hkept : ∀ e ∈ es, e.1 ≠ a.key → ∀ s s', takeEntry fs s e = .ok s' → a.get s' = a.get s := by
    intro e _ hne s s' hstep
    rcases takeEntry_eq_ok hstep with ⟨f, hf, hkey, hput⟩ | rfl
    · exact h.keeps f hf a ha (hkey ▸ hne) s e.2 s' hput
    · rfl
  have hget := get_foldlM hkeys hkept hx
  unfold Slot.Follows
  cases hv : es.lookup a.key with
  | none =>
    simp only [hv] at hget ⊢
    rw [hget, eq_comm]
  | some v =>
    simp only [hv] at hget ⊢
    obtain ⟨s, s', hs, hstep, hget⟩ := hget
    obtain ⟨f, hf, hfill⟩ := h.field a ha
    have hput : f.put s v = .ok s' := by simpa [takeEntry, hf] using hstep
    rw [hget]
    exact hfill.sets s v s' hs hput (a.get y)

theorem eq_ok_iff (h : Fill fs slots base) (hkeys : UniqueKeys es) :
    es.foldlM (takeEntry fs) base = .ok x ↔ ∀ a ∈ slots, a.Follows es base x := by
  constructor
  · intro hx a ha
    exact (h.follows_iff hkeys hx ha x).2 rfl
  · intro hfollows
    have htyped : ∀ a ∈ slots, a.Typed es := by
      intro a ha v hv
      have := hfollows a ha
      rw [Slot.Follows, hv] at this
      exact ⟨a.get x, this⟩
    obtain ⟨y, hy⟩ := (h.exists_ok_iff hkeys).2 htyped
    have hyx : y = x := h.ext y x fun a ha => (h.follows_iff hkeys hy ha x).1 (hfollows a ha)
    rw [hy, hyx]

end Fill
end FirmwareTasks.Decode
