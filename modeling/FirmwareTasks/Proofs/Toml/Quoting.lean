import FirmwareTasks.Proofs.Keyed
import FirmwareTasks.Toml.Quoted
/-!
Texts written in double quotes, with an escape for each character that may not stand there as it
is. Whatever follows, the readers take such a text as it was.
-/
namespace FirmwareTasks.Toml

/-- The characters whose escape is one character long. -/
def shortEscapes : List (Char × Char) :=
  [('\x08', 'b'), ('\t', 't'), ('\n', 'n'), ('\x0c', 'f'), ('\r', 'r'), ('"', '"'), ('\\', '\\')]

/-- A character as it is written between double quotes. -/
def escape (c : Char) : List Char :=
  match shortEscapes.lookup c with
  | some e => ['\\', e]
  | none =>
    if c < ' ' ∨ c = '\x7f' then
      ['\\', 'u', '0', '0', Nat.digitChar (c.toNat / 16), Nat.digitChar (c.toNat % 16)]
    else [c]

def quoted (text : String) : List Char := '"' :: (text.toList.flatMap escape ++ ['"'])

variable {s : List Char}

lemma takeEscape_short {p : Char × Char} (hp : p ∈ shortEscapes) :
    takeEscape (p.2 :: s) = some (p.1, s) ∧ escapeLength (p.2 :: s) = 1 := by
  revert p
  simp only [shortEscapes, List.forall_mem_cons]
  and_intros
  all_goals first | rfl | simp

lemma scalarOfHex?_of_lt {n : Nat} (h : n < 128) :
    scalarOfHex? ['0', '0', Nat.digitChar (n / 16), Nat.digitChar (n % 16)] =
      some (Char.ofNat n) := by
  revert n
  decide

lemma toNat_lt_of_control {c : Char} (h : c < ' ' ∨ c = '\x7f') : c.toNat < 128 := by
  rcases h with h | rfl
  · have hlt : c.toNat < ' '.toNat := h
    have hspace : ' '.toNat = 32 := rfl
    omega
  · decide

lemma ne_of_lookup_eq_none {c : Char} (h : shortEscapes.lookup c = none) : c ≠ '"' ∧ c ≠ '\\' := by
  constructor <;> rintro rfl <;> cases h

lemma takeBasic_backslash {c : Char} {u : List Char} (hc : takeEscape u = some (c, s))
    (hs : takeBasic (escapeLength u) u = takeBasic 0 s) :
    takeBasic 0 ('\\' :: u) = (takeBasic 0 s).map fun (cs, r) => (c :: cs, r) := by
  rw [takeBasic, if_neg (by decide), if_pos rfl, hc, hs]
  cases takeBasic 0 s <;> rfl

theorem takeBasic_escape (c : Char) (s : List Char) :
    takeBasic 0 (escape c ++ s) = (takeBasic 0 s).map fun (cs, r) => (c :: cs, r) := by
  unfold escape
  cases hshort : shortEscapes.lookup c with
  | some e =>
    obtain ⟨htake, hlength⟩ := takeEscape_short (s := s) (mem_of_lookup hshort)
    refine takeBasic_backslash htake ?_
    change takeBasic (escapeLength (e :: s)) (e :: s) = takeBasic 0 s
    rw [show escapeLength (e :: s) = 1 from hlength]
    rfl
  | none =>
    obtain ⟨hquote, hslash⟩ := ne_of_lookup_eq_none hshort
    dsimp only
    split_ifs with hcontrol
    · refine takeBasic_backslash ?_ rfl
      simp [takeEscape, scalarOfHex?_of_lt (toNat_lt_of_control hcontrol)]
    · have hplain : isPlain c = true := by
        obtain ⟨hlow, hdel⟩ := not_or.1 hcontrol
        simp [isPlain, hdel, Char.not_lt.1 hlow]
      simp [takeBasic, hquote, hslash, hplain]

lemma takeBasic_written (cs s : List Char) :
    takeBasic 0 (cs.flatMap escape ++ '"' :: s) = some (cs, s) := by
  induction cs with
  | nil => rfl
  | cons c cs ih => rw [List.flatMap_cons, List.append_assoc, takeBasic_escape, ih]; rfl

theorem takeKeyPart_quoted (text : String) (s : List Char) :
    takeKeyPart (quoted text ++ s) = some (text, s) := by
  simp [quoted, takeKeyPart, takeBasic_written]

lemma head_escape_ne (c : Char) : ∃ d u, escape c = d :: u ∧ d ≠ '"' := by
  unfold escape
  cases hshort : shortEscapes.lookup c with
  | some e => exact ⟨_, _, rfl, by decide⟩
  | none =>
    dsimp only
    split_ifs
    · exact ⟨_, _, rfl, by decide⟩
    · exact ⟨_, _, rfl, (ne_of_lookup_eq_none hshort).1⟩

/-- A text in quotes is read as it was, if no further quote follows. -/
theorem takeText_quoted (text : String) (hs : s.head? ≠ some '"') :
    takeText (quoted text ++ s) = some (text, s) := by
  have hbasic : takeText (quoted text ++ s) =
      (takeBasic 0 (text.toList.flatMap escape ++ '"' :: s)).map
        fun (cs, r) => (.ofList cs, r) := by
    cases htext : text.toList with
    | nil =>
      cases s with
      | nil => simp [quoted, htext, takeText]
      | cons c s =>
        have hc : c ≠ '"' := by simpa using hs
        simp [quoted, htext, takeText, hc]
    | cons c cs =>
      obtain ⟨d, u, hd, hne⟩ := head_escape_ne c
      simp [quoted, htext, takeText, hd, hne]
  rw [hbasic, takeBasic_written]
  simp

example : String.ofList (quoted "a\"\n\x7fü") = "\"a\\\"\\n\\u007fü\"" := by decide +kernel

end FirmwareTasks.Toml
