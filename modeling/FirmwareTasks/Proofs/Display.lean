import FirmwareTasks.Invocation
import FirmwareTasks.Proofs.Utf8
/-!
Shown command lines read back. Any white space puts a word in quotes, but only spaces separate
words, and a word without quotes of its own has them at both ends or nowhere. So a space separates
exactly where the quotes before it are even in number, and what has been shown is read as the
program and the arguments that it was made from.
-/
namespace FirmwareTasks.Invocation

/-- The words of a shown command line, read from within quotes or from outside them. Quotes belong
to no word. -/
def wordsFrom (quoted : Bool) : List Char → List (List Char)
  | [] => [[]]
  | c :: cs =>
    if c = '"' then wordsFrom (!quoted) cs
    else if c = ' ' ∧ quoted = false then [] :: wordsFrom false cs
    else (wordsFrom quoted cs).modifyHead (c :: ·)

/-- Reads a shown command line: the program first, then the arguments. -/
def readDisplay (text : String) : List Bytes :=
  (wordsFrom false text.toList).map fun word => Utf8.encode (.ofList word)

/-- A word that is a text without quotes. -/
def IsLegible (word : Bytes) : Prop := ∃ text, Utf8.decode? word = some text ∧ '"' ∉ text.toList

instance (word : Bytes) : Decidable (IsLegible word) :=
  decidable_of_iff ((Utf8.decode? word).any fun text => '"' ∉ text.toList)
    (by simp [IsLegible, Option.any_eq_true])

/-- A call whose program and arguments are texts without quotes. -/
def Legible (inv : Invocation) : Prop := ∀ word ∈ inv.program :: inv.args, IsLegible word

instance (inv : Invocation) : Decidable inv.Legible :=
  inferInstanceAs (Decidable (∀ word ∈ inv.program :: inv.args, IsLegible word))

variable {quoted : Bool} {word rest : List Char} {s : String}

lemma wordsFrom_append (h : ∀ c ∈ word, c ≠ '"' ∧ ¬(c = ' ' ∧ quoted = false)) :
    wordsFrom quoted (word ++ rest) = (wordsFrom quoted rest).modifyHead (word ++ ·) := by
  induction word with
  | nil => exact (congrFun List.modifyHead_id _).symm
  | cons c word ih =>
    rw [List.forall_mem_cons] at h
    rw [List.cons_append, wordsFrom, if_neg h.1.1, if_neg h.1.2, ih h.2, List.modifyHead_modifyHead]
    rfl

lemma wordsFrom_quote (h : '"' ∉ s.toList) :
    wordsFrom false ((quote s).toList ++ rest) =
      (wordsFrom false rest).modifyHead (s.toList ++ ·) := by
  have hquote : ∀ c ∈ s.toList, c ≠ '"' := fun c hc hcq => h (hcq ▸ hc)
  rw [quote]
  split
  · have hinside : wordsFrom true (s.toList ++ '"' :: rest) =
        (wordsFrom true ('"' :: rest)).modifyHead (s.toList ++ ·) :=
      wordsFrom_append fun c hc => ⟨hquote c hc, by simp⟩
    have hshown : ("\"" ++ s ++ "\"").toList ++ rest = '"' :: (s.toList ++ '"' :: rest) := by simp
    rw [hshown, wordsFrom, if_pos rfl, Bool.not_false, hinside, wordsFrom, if_pos rfl,
      Bool.not_true]
  · rename_i hplain
    -- outside quotes the word has no white space in it, hence no space that would separate
    refine wordsFrom_append fun c hc => ⟨hquote c hc, fun hspace => hplain ?_⟩
    obtain ⟨rfl, -⟩ := hspace
    rw [Bool.or_eq_true, List.any_eq_true]
    exact .inr ⟨' ', hc, rfl⟩

lemma wordsFrom_intercalate {texts : List String} (hne : texts ≠ [])
    (h : ∀ text ∈ texts, '"' ∉ text.toList) :
    wordsFrom false (" ".intercalate (texts.map quote)).toList = texts.map String.toList := by
  induction texts with
  | nil => exact absurd rfl hne
  | cons s texts ih =>
    rw [List.forall_mem_cons] at h
    cases texts with
    | nil =>
      have hlast : wordsFrom false ((quote s).toList ++ []) =
          (wordsFrom false []).modifyHead (s.toList ++ ·) := wordsFrom_quote h.1
      simpa [wordsFrom] using hlast
    | cons next texts =>
      have hshown : (" ".intercalate ((s :: next :: texts).map quote)).toList =
          (quote s).toList ++ ' ' :: (" ".intercalate ((next :: texts).map quote)).toList := by
        simp [String.intercalate_cons_cons]
      rw [hshown, wordsFrom_quote h.1, wordsFrom, if_neg (by decide), if_pos ⟨rfl, rfl⟩,
        ih (List.cons_ne_nil _ _) h.2]
      simp

lemma quote_not_mem_lossy {word : Bytes} (h : IsLegible word) : '"' ∉ (Utf8.lossy word).toList := by
  obtain ⟨text, htext, hquote⟩ := h
  rwa [Utf8.decode?_eq_some_iff.1 htext, Utf8.lossy_encode]

lemma encode_lossy {word : Bytes} (h : IsLegible word) : Utf8.encode (Utf8.lossy word) = word := by
  obtain ⟨text, htext, -⟩ := h
  rw [Utf8.decode?_eq_some_iff.1 htext, Utf8.lossy_encode]

lemma display_eq (inv : Invocation) :
    inv.display = " ".intercalate (((inv.program :: inv.args).map Utf8.lossy).map quote) := rfl

/-- What is shown of a call is read as its program and its arguments, so calls that look alike call
the same program with the same arguments. -/
theorem shown_words_are_kept :
    (∀ inv : Invocation, inv.Legible → readDisplay inv.display = inv.program :: inv.args) ∧
    ∀ inv inv' : Invocation, inv.Legible → inv'.Legible → inv.display = inv'.display →
      inv.program = inv'.program ∧ inv.args = inv'.args := by
  have hread (inv : Invocation) (h : inv.Legible) :
      readDisplay inv.display = inv.program :: inv.args := by
    have hquote : ∀ text ∈ (inv.program :: inv.args).map Utf8.lossy, '"' ∉ text.toList :=
      List.forall_mem_map.2 fun word hword => quote_not_mem_lossy (h word hword)
    calc readDisplay inv.display
      _ = (((inv.program :: inv.args).map Utf8.lossy).map String.toList).map
            fun word => Utf8.encode (.ofList word) := by
          rw [readDisplay, display_eq, wordsFrom_intercalate (by simp) hquote]
      _ = (inv.program :: inv.args).map fun word => Utf8.encode (Utf8.lossy word) := by simp
      _ = inv.program :: inv.args :=
          (List.map_congr_left fun word hword => encode_lossy (h word hword)).trans (List.map_id _)
  refine ⟨hread, ?_⟩
  intro inv inv' h h' hshown
  have hwords : inv.program :: inv.args = inv'.program :: inv'.args := by
    rw [← hread inv h, ← hread inv' h', hshown]
  exact List.cons.inj hwords

/-- An empty argument, one with white space that does not separate, and one that is a space; the
directory and the search path are not shown. -/
theorem shown_words_are_kept_spaced :
    let inv : Invocation :=
      ⟨Utf8.encode "my tool", ["", "a\u00A0b", "-x", " "].map Utf8.encode, ⟨[]⟩, none⟩
    let inv' : Invocation := { inv with cwd := ⟨Utf8.encode "build"⟩, searchPath := some [] }
    inv.Legible ∧ inv'.Legible ∧ inv.display = inv'.display ∧
      readDisplay inv.display = ["my tool", "", "a\u00A0b", "-x", " "].map Utf8.encode ∧
      inv.program = inv'.program ∧ inv.args = inv'.args := by
  intro inv inv'
  have h : inv.Legible := by decide +kernel
  have h' : inv'.Legible := h
  have hshown : inv.display = inv'.display := rfl
  exact ⟨h, h', hshown, shown_words_are_kept.1 inv h,
    shown_words_are_kept.2 inv inv' h h' hshown⟩

-- a quote within a word can take the place of one around words
example :
    let inv (args : List String) : Invocation :=
      ⟨Utf8.encode "echo", args.map Utf8.encode, ⟨[]⟩, none⟩
    (inv ["\"a", "b\""]).display = (inv ["a b"]).display := by
  decide +kernel

end FirmwareTasks.Invocation
