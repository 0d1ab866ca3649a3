import FirmwareTasks.Toml.Value
/-!
Numbers, truth values, dates and times: the values that are one word without quotes.
-/
namespace FirmwareTasks.Toml

/-- The digits of a number in which single underscores may stand between digits. -/
def ungroup? (isDigit : Char → Bool) : List Char → Option (List Char)
  | [] => none
  | [c] => if isDigit c then some [c] else none
  | c :: '_' :: s => if isDigit c then (ungroup? isDigit s).map (c :: ·) else none
  | c :: s => if isDigit c then (ungroup? isDigit s).map (c :: ·) else none

def digitValue (c : Char) : Nat :=
  if c.isDigit then c.toNat - 48 else c.toLower.toNat - 87

def isHexDigit (c : Char) : Bool :=
  c.isDigit || ('a' ≤ c && c ≤ 'f') || ('A' ≤ c && c ≤ 'F')

def ofDigits (base : Nat) (ds : List Char) : Nat :=
  ds.foldl (fun n d => n * base + digitValue d) 0

def takeSign : List Char → Bool × List Char
  | '-' :: s => (true, s)
  | '+' :: s => (false, s)
  | s => (false, s)

/-- The digits of a whole number without needless zeros in front. -/
def whole? (s : List Char) : Option (List Char) :=
  match ungroup? Char.isDigit s with
  | some ('0' :: _ :: _) => none
  | ds => ds

/-- Integers have 64 bits. -/
def inRange (n : Int) : Bool := -9223372036854775808 ≤ n && n < 9223372036854775808

def integer? (s : List Char) : Option Int :=
  let n? : Option Int :=
    match s with
    | '0' :: 'x' :: s => (ungroup? isHexDigit s).map fun ds => ofDigits 16 ds
    | '0' :: 'o' :: s => (ungroup? (fun c => '0' ≤ c && c ≤ '7') s).map fun ds => ofDigits 8 ds
    | '0' :: 'b' :: s => (ungroup? (fun c => c == '0' || c == '1') s).map fun ds => ofDigits 2 ds
    | s =>
      let (negative, s) := takeSign s
      (whole? s).map fun ds => if negative then -(ofDigits 10 ds : Int) else ofDigits 10 ds
  n?.filter inRange

def isGrouped (c : Char) : Bool := c.isDigit || c == '_'

/-- The exponent at the end of a number, zero if there is none. -/
def exponent? : List Char → Option Int
  | [] => some 0
  | e :: s =>
    if e = 'e' ∨ e = 'E' then
      let (negative, s) := takeSign s
      (ungroup? Char.isDigit s).map fun ds =>
        if negative then -(ofDigits 10 ds : Int) else ofDigits 10 ds
    else none

/-- A number with a fraction, an exponent or both; it may not be too large, though it may be
negative and too large. -/
def float? (s : List Char) : Option Double :=
  let (negative, s) := takeSign s
  if s = "inf".toList then some (.infinite negative)
  else if s = "nan".toList then some .nan
  else do
    let front ← whole? (s.takeWhile isGrouped)
    let (fraction, s) ← match s.dropWhile isGrouped with
      | [] => none
      | '.' :: s => (ungroup? Char.isDigit (s.takeWhile isGrouped)).map (·, s.dropWhile isGrouped)
      | s => some ([], s)
    let d := Double.ofDecimal negative (ofDigits 10 (front ++ fraction))
      ((← exponent? s) - fraction.length)
    if d = .infinite false then none else some d

def boolean? (s : List Char) : Option Bool :=
  if s = "true".toList then some true else if s = "false".toList then some false else none

def scalar? (s : List Char) : Option Value :=
  ((boolean? s).map Value.boolean).or <|
  ((integer? s).map Value.integer).or <|
  ((float? s).map Value.float).or ((DateTime.read? s).map Value.moment)

def isWordChar (c : Char) : Bool :=
  c.isAlphanum || c == '+' || c == '-' || c == '_' || c == '.' || c == ':'

/-- A word and what follows it. One space may stand between a date and a time. -/
def takeWord (s : List Char) : List Char × List Char :=
  let word := s.takeWhile isWordChar
  match Date.read? word, s.dropWhile isWordChar with
  | some (_, []), ' ' :: c :: rest =>
    if c.isDigit then
      (word ++ 'T' :: (c :: rest).takeWhile isWordChar, (c :: rest).dropWhile isWordChar)
    else (word, ' ' :: c :: rest)
  | _, rest => (word, rest)

example : integer? "-1_000".toList = some (-1000) := by decide +kernel
example : integer? "9223372036854775808".toList = none := by decide +kernel
example : integer? "1__0".toList = none := by decide +kernel
example : float? "1e400".toList = none ∧ float? "-1e400".toList = some (.infinite true) := by
  decide +kernel

end FirmwareTasks.Toml
