import FirmwareTasks.Text.Bytes
/-!
UTF-8, both ways. Reading goes one byte at a time and never fails: bytes that belong to no
character come out as broken pieces, each as long as the start of a character that it is. The
main statement says that reading the encoding of a text gives that text.
-/
namespace FirmwareTasks.Utf8

/-- The bytes of a character: one below 128, then two, three or four. -/
def encodeChar (c : Char) : Bytes :=
  let n := c.toNat
  if n < 0x80 then [.ofNat n]
  else if n < 0x800 then [.ofNat (0xC0 + n / 64), .ofNat (0x80 + n % 64)]
  else if n < 0x10000 then
    [.ofNat (0xE0 + n / 4096), .ofNat (0x80 + n / 64 % 64), .ofNat (0x80 + n % 64)]
  else
    [.ofNat (0xF0 + n / 262144), .ofNat (0x80 + n / 4096 % 64), .ofNat (0x80 + n / 64 % 64),
      .ofNat (0x80 + n % 64)]

def encode (s : String) : Bytes := s.toList.flatMap encodeChar

/-- What a byte string is made of: characters, and bytes that belong to none. -/
inductive Piece where
  | char (c : Char)
  | broken (bytes : Bytes)
deriving DecidableEq, Repr

/-- A character that has begun: its bytes so far, how many it still owes, the bounds of the next
byte, and the number its bits make so far. -/
structure Begun where
  bytes : Bytes
  owed : Nat
  low : Nat := 0x80
  high : Nat := 0xBF
  bits : Nat
deriving DecidableEq, Repr

/-- What a byte does between characters. -/
inductive Start where
  | char (c : Char)
  | begun (b : Begun)
  | stray

/-- The bounds leave out overlong forms, surrogates and numbers above `0x10FFFF`. -/
def start (b : UInt8) : Start :=
  let n := b.toNat
  if n < 0x80 then .char (.ofNat n)
  else if n < 0xC2 then .stray
  else if n < 0xE0 then .begun { bytes := [b], owed := 1, bits := n - 0xC0 }
  else if n < 0xF0 then
    .begun
      { bytes := [b], owed := 2, bits := n - 0xE0
        low := if n = 0xE0 then 0xA0 else 0x80
        high := if n = 0xED then 0x9F else 0xBF }
  else if n < 0xF5 then
    .begun
      { bytes := [b], owed := 3, bits := n - 0xF0
        low := if n = 0xF0 then 0x90 else 0x80
        high := if n = 0xF4 then 0x8F else 0xBF }
  else .stray

/-- The pieces of the bytes, after the begun character if there is one. -/
def scan : Option Begun → Bytes → List Piece
  | none, [] => []
  | some p, [] => [.broken p.bytes]
  | none, b :: s =>
    match start b with
    | .char c => .char c :: scan none s
    | .begun p => scan (some p) s
    | .stray => .broken [b] :: scan none s
  | some p, b :: s =>
    if p.low ≤ b.toNat ∧ b.toNat ≤ p.high then
      let bits := p.bits * 64 + (b.toNat - 0x80)
      if p.owed ≤ 1 then .char (.ofNat bits) :: scan none s
      else scan (some { bytes := p.bytes ++ [b], owed := p.owed - 1, bits }) s
    else
      .broken p.bytes ::
        match start b with
        | .char c => .char c :: scan none s
        | .begun q => scan (some q) s
        | .stray => .broken [b] :: scan none s

def pieces (s : Bytes) : List Piece := scan none s

def Piece.char? : Piece → Option Char
  | .char c => some c
  | .broken _ => none

def replacement : Char := '\uFFFD'

/-- The text of the bytes, with a replacement character for each broken piece. -/
def lossy (s : Bytes) : String :=
  .ofList ((pieces s).map fun p => p.char?.getD replacement)

/-- The text of the bytes, if all of them belong to characters. -/
def decode? (s : Bytes) : Option String :=
  ((pieces s).mapM Piece.char?).map String.ofList

theorem toNat_lt_of_not_surrogate (c : Char) :
    c.toNat < 0xD800 ∨ 0xDFFF < c.toNat ∧ c.toNat < 0x110000 := c.valid

/-- A character's bytes are read as that character, whatever follows. -/
theorem scan_encodeChar_append (c : Char) (s : Bytes) :
    scan none (encodeChar c ++ s) = Piece.char c :: scan none s := by
  have hv := toNat_lt_of_not_surrogate c
  have hc : Char.ofNat c.toNat = c := Char.ofNat_toNat c
  have hsize : UInt8.size = 256 := rfl
  unfold encodeChar
  generalize c.toNat = n at *
  dsimp only
  split
  · rename_i h
    have hn : (UInt8.ofNat n).toNat = n := UInt8.toNat_ofNat_of_lt' (by omega)
    simp [scan, start, hn, h, hc]
  · split
    · have h1 : (UInt8.ofNat (0xC0 + n / 64)).toNat = 0xC0 + n / 64 :=
        UInt8.toNat_ofNat_of_lt' (by omega)
      have h2 : (UInt8.ofNat (0x80 + n % 64)).toNat = 0x80 + n % 64 :=
        UInt8.toNat_ofNat_of_lt' (by omega)
      have e : n / 64 * 64 + n % 64 = n := by omega
      simp only [List.cons_append, List.nil_append, scan, start, h1, h2]
      rw [if_neg (by omega), if_neg (by omega), if_pos (by omega)]
      dsimp only
      rw [if_pos (by omega), if_pos (by omega), Nat.add_sub_cancel_left, Nat.add_sub_cancel_left,
        e, hc]
    · split
      · have h1 : (UInt8.ofNat (0xE0 + n / 4096)).toNat = 0xE0 + n / 4096 :=
          UInt8.toNat_ofNat_of_lt' (by omega)
        have h2 : (UInt8.ofNat (0x80 + n / 64 % 64)).toNat = 0x80 + n / 64 % 64 :=
          UInt8.toNat_ofNat_of_lt' (by omega)
        have h3 : (UInt8.ofNat (0x80 + n % 64)).toNat = 0x80 + n % 64 :=
          UInt8.toNat_ofNat_of_lt' (by omega)
        have e : (n / 4096 * 64 + n / 64 % 64) * 64 + n % 64 = n := by omega
        simp only [List.cons_append, List.nil_append, scan, start, h1, h2, h3]
        rw [if_neg (by omega), if_neg (by omega), if_neg (by omega), if_pos (by omega)]
        dsimp only
        rw [if_pos (by constructor <;> split <;> omega), if_neg (by omega)]
        rw [if_pos (by omega), if_pos (by omega), Nat.add_sub_cancel_left,
          Nat.add_sub_cancel_left, Nat.add_sub_cancel_left, e, hc]
      · have h1 : (UInt8.ofNat (0xF0 + n / 262144)).toNat = 0xF0 + n / 262144 :=
          UInt8.toNat_ofNat_of_lt' (by omega)
        have h2 : (UInt8.ofNat (0x80 + n / 4096 % 64)).toNat = 0x80 + n / 4096 % 64 :=
          UInt8.toNat_ofNat_of_lt' (by omega)
        have h3 : (UInt8.ofNat (0x80 + n / 64 % 64)).toNat = 0x80 + n / 64 % 64 :=
          UInt8.toNat_ofNat_of_lt' (by omega)
        have h4 : (UInt8.ofNat (0x80 + n % 64)).toNat = 0x80 + n % 64 :=
          UInt8.toNat_ofNat_of_lt' (by omega)
        have e : ((n / 262144 * 64 + n / 4096 % 64) * 64 + n / 64 % 64) * 64 + n % 64 = n := by
          omega
        simp only [List.cons_append, List.nil_append, scan, start, h1, h2, h3, h4]
        rw [if_neg (by omega), if_neg (by omega), if_neg (by omega), if_neg (by omega),
          if_pos (by omega)]
        dsimp only
        rw [if_pos (by constructor <;> split <;> omega), if_neg (by omega)]
        rw [if_pos (by omega), if_neg (by omega)]
        rw [if_pos (by omega), if_pos (by omega), Nat.add_sub_cancel_left,
          Nat.add_sub_cancel_left, Nat.add_sub_cancel_left, Nat.add_sub_cancel_left, e, hc]

theorem scan_flatMap_encodeChar (cs : List Char) (s : Bytes) :
    scan none (cs.flatMap encodeChar ++ s) = cs.map Piece.char ++ scan none s := by
  induction cs with
  | nil => rfl
  | cons c cs ih =>
    rw [List.flatMap_cons, List.append_assoc, scan_encodeChar_append, ih, List.map_cons,
      List.cons_append]

theorem pieces_encode (s : String) : pieces (encode s) = s.toList.map Piece.char := by
  simpa [pieces, encode, scan] using scan_flatMap_encodeChar s.toList []

@[simp] theorem lossy_encode (s : String) : lossy (encode s) = s := by
  simp [lossy, pieces_encode, Function.comp_def, Piece.char?]

@[simp] theorem decode?_encode (s : String) : decode? (encode s) = some s := by
  have h (cs : List Char) : (cs.map Piece.char).mapM Piece.char? = some cs := by
    induction cs with
    | nil => rfl
    | cons c cs ih => simp [Piece.char?, ih]
  simp [decode?, pieces_encode, h]

end FirmwareTasks.Utf8
