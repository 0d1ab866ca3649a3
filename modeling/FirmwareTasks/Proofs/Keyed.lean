import FirmwareTasks.Proofs.Sequence
/-!
Entries by key. Where no key comes twice, looking a key up finds its one entry; and what comes of
going through all entries depends, as far as one key goes, on the entry of that key only.
-/
namespace FirmwareTasks

section Lookup
variable {β : Type} {es : List (String × β)} {key : String} {v : β}

/-- No key comes twice. -/
def UniqueKeys (es : List (String × β)) : Prop := (es.map Prod.fst).Nodup

lemma lookup_eq_none_iff : es.lookup key = none ↔ key ∉ es.map Prod.fst := by
  induction es with
  | nil => simp
  | cons e es ih =>
    obtain ⟨k, v⟩ := e
    rw [List.lookup_cons, List.map_cons, List.mem_cons, not_or]
    by_cases h : key = k
    · simp [h]
    · have hne : (key == k) = false := by simpa using h
      rw [hne]
      exact ⟨fun hes => ⟨h, ih.1 hes⟩, fun hes => ih.2 hes.2⟩

lemma mem_of_lookup {κ : Type} [DecidableEq κ] {key : κ} {es : List (κ × β)}
    (h : es.lookup key = some v) : (key, v) ∈ es := by
  obtain ⟨before, rest, rfl, -⟩ := List.lookup_eq_some_iff.1 h
  simp

lemma uniqueKeys_cons {k : String} :
    UniqueKeys ((k, v) :: es) ↔ k ∉ es.map Prod.fst ∧ UniqueKeys es := List.nodup_cons

lemma UniqueKeys.lookup_eq_none {fs : List (String × β)} (h : UniqueKeys (es ++ (key, v) :: fs)) :
    es.lookup key = none := by
  rw [UniqueKeys, List.map_append, List.nodup_append] at h
  exact lookup_eq_none_iff.2 fun hkey => h.2.2 key hkey key (by simp) rfl

lemma UniqueKeys.lookup_eq_some_iff (h : UniqueKeys es) :
    es.lookup key = some v ↔ (key, v) ∈ es := by
  refine ⟨mem_of_lookup, fun hmem => ?_⟩
  induction es with
  | nil => simp at hmem
  | cons e es ih =>
    obtain ⟨k, w⟩ := e
    obtain ⟨hk, hes⟩ := uniqueKeys_cons.1 h
    rw [List.lookup_cons]
    rcases List.mem_cons.1 hmem with heq | hmem
    · cases heq
      simp
    · have hin : key ∈ es.map Prod.fst := List.mem_map_of_mem hmem
      have hne : (key == k) = false := by
        rw [beq_eq_false_iff_ne]
        rintro rfl
        exact hk hin
      rw [hne]
      exact ih hes hmem

lemma lookup_map_snd {γ : Type} (f : β → γ) (es : List (String × β)) (key : String) :
    (es.map fun e => (e.1, f e.2)).lookup key = (es.lookup key).map f := by
  induction es with
  | nil => rfl
  | cons e es ih =>
    obtain ⟨k, v⟩ := e
    rw [List.map_cons, List.lookup_cons, List.lookup_cons, ih]
    cases key == k <;> rfl

lemma uniqueKeys_map_snd {γ : Type} {f : β → γ} :
    UniqueKeys (es.map fun e => (e.1, f e.2)) ↔ UniqueKeys es := by
  simp [UniqueKeys, Function.comp_def]

lemma UniqueKeys.lookup_eq_of_perm {fs : List (String × β)} (h : UniqueKeys es)
    (hperm : es.Perm fs) (key : String) : es.lookup key = fs.lookup key := by
  have hfs : UniqueKeys fs := (hperm.map Prod.fst).nodup_iff.1 h
  ext v
  rw [h.lookup_eq_some_iff, hfs.lookup_eq_some_iff, hperm.mem_iff]

end Lookup

section Fold
variable {ε σ α β : Type} {step : σ → String × β → Except ε σ} {es : List (String × β)}
  {start x : σ}

/-- Going through all entries succeeds when each can be taken, where that is up to the entry. -/
theorem exists_foldlM_ok_iff {Accepted : String × β → Prop}
    (h : ∀ e ∈ es, ∀ s, (∃ s', step s e = .ok s') ↔ Accepted e) :
    (∃ x, es.foldlM step start = .ok x) ↔ ∀ e ∈ es, Accepted e := by
  induction es generalizing start with
  | nil => simp [pure, Except.pure]
  | cons e es ih =>
    rw [List.forall_mem_cons] at h
    rw [List.forall_mem_cons, List.foldlM_cons]
    constructor
    · rintro ⟨x, hx⟩
      obtain ⟨s, hs, hx⟩ := Except.bind_eq_ok hx
      exact ⟨(h.1 start).1 ⟨s, hs⟩, (ih h.2).1 ⟨x, hx⟩⟩
    · rintro ⟨he, hes⟩
      obtain ⟨s, hs⟩ := (h.1 start).2 he
      obtain ⟨x, hx⟩ := (@ih s h.2).2 hes
      exact ⟨x, by rw [hs]; exact hx⟩

lemma get_foldlM_of_kept {get : σ → α}
    (hkept : ∀ e ∈ es, ∀ s s', step s e = .ok s' → get s' = get s)
    (h : es.foldlM step start = .ok x) : get x = get start := by
  induction es generalizing start with
  | nil => cases h; rfl
  | cons e es ih =>
    rw [List.forall_mem_cons] at hkept
    rw [List.foldlM_cons] at h
    obtain ⟨s, hs, hx⟩ := Except.bind_eq_ok h
    exact (ih hkept.2 hx).trans (hkept.1 start s hs)

/-- What only the entry of one key changes is as that entry leaves it, which finds it as it was
before all of them. -/
theorem get_foldlM {get : σ → α} {key : String} (hkeys : UniqueKeys es)
    (hkept : ∀ e ∈ es, e.1 ≠ key → ∀ s s', step s e = .ok s' → get s' = get s)
    (h : es.foldlM step start = .ok x) :
    match es.lookup key with
    | some v => ∃ s s', get s = get start ∧ step s (key, v) = .ok s' ∧ get x = get s'
    | none => get x = get start := by
  induction es generalizing start with
  | nil => cases h; rfl
  | cons e es ih =>
    obtain ⟨k, v⟩ := e
    obtain ⟨hk, hes⟩ := uniqueKeys_cons.1 hkeys
    rw [List.forall_mem_cons] at hkept
    rw [List.foldlM_cons] at h
    obtain ⟨s, hs, hx⟩ := Except.bind_eq_ok h
    by_cases hkey : k = key
    · subst hkey
      have hrest : ∀ e ∈ es, e.1 ≠ k := fun e he h => hk (h ▸ List.mem_map_of_mem he)
      have hget : get x = get s :=
        get_foldlM_of_kept (fun e he => hkept.2 e he (hrest e he)) hx
      simpa using ⟨start, rfl, s, hs, hget⟩
    · have hget : get s = get start := hkept.1 hkey start s hs
      have hne : (key == k) = false := by simpa using Ne.symm hkey
      rw [List.lookup_cons, hne, ← hget]
      exact ih hes hkept.2 hx

end Fold
end FirmwareTasks
