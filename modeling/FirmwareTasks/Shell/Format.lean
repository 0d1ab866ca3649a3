import FirmwareTasks.Decimal.Shortest
import FirmwareTasks.Shell.Arithmetic
import FirmwareTasks.Shell.Escape
import FirmwareTasks.Shell.Session
/-!
Formats that are filled in with arguments: texts, whole numbers in three bases, and numbers of
double precision.
-/
namespace FirmwareTasks.Shell.Format

/-- How a value is laid out. -/
structure Layout where
  left : Bool := false
  zeros : Bool := false
  plus : Bool := false
  space : Bool := false
  /-- Whether the base is shown, or zeros at the end are kept. -/
  full : Bool := false
  width : Nat := 0
  precision : Option Nat := none
deriving DecidableEq, Repr

/-- Fills a text up to the width: with zeros between its front and the rest, or with blanks. -/
def Layout.pad (l : Layout) (zeros : Bool) (front s : Bytes) : Bytes :=
  let room := l.width - (front.length + s.length)
  if l.left then front ++ s ++ .replicate room 32
  else if zeros then front ++ .replicate room 48 ++ s
  else .replicate room 32 ++ front ++ s

def Layout.sign (l : Layout) (negative : Bool) : Bytes :=
  if negative then [45] else if l.plus then [43] else if l.space then [32] else []

def digits (base n : Nat) : Bytes := Utf8.encode (.ofList (Nat.toDigits base n))

/-- A whole number; its precision is how many digits there are at least. -/
def Layout.whole (l : Layout) (front : Bytes) (ds : Bytes) : Bytes :=
  match l.precision with
  | none => l.pad l.zeros front ds
  | some p =>
    let ds := if p = 0 ∧ ds = [48] then [] else ds
    l.pad false front (.replicate (p - ds.length) 48 ++ ds)

/-- `n / den` with so many places, the even one of two neighbours. -/
def fixed (num den places : Nat) : Bytes :=
  let ds := digits 10 (Double.roundDiv (num * Nat.pow 10 places) den)
  let ds := .replicate (places + 1 - ds.length) 48 ++ ds
  let whole := ds.take (ds.length - places)
  if places = 0 then whole else whole ++ 46 :: ds.drop (ds.length - places)

/-- The digits of a number from the first one that counts, and the power of ten of that one. -/
def leading (significand : Nat) (exponent : Int) (places : Nat) : Bytes × Int :=
  if significand = 0 then (.replicate (places + 1) 48, 0)
  else
    let power := Double.magnitude significand exponent - 1
    let shift : Int := places - power
    let n := Double.roundDiv
      (significand * Nat.pow 2 exponent.toNat * Nat.pow 10 shift.toNat)
      (Nat.pow 2 (-exponent).toNat * Nat.pow 10 (-shift).toNat)
    let ds := digits 10 n
    if ds.length = places + 2 then (ds.dropLast, power + 1) else (ds, power)

/-- Digits with a point behind the first one, and a power of ten. -/
def scientific (ds : Bytes) (power : Int) : Bytes :=
  let more := if ds.length ≤ 1 then [] else 46 :: ds.tail
  let size := digits 10 power.natAbs
  ds.take 1 ++ more ++ [101, if power < 0 then 45 else 43] ++
    (if size.length = 1 then 48 :: size else size)

/-- A number without the zeros at the end of its fraction. -/
def trim (s : Bytes) : Bytes :=
  if !s.contains 46 then s
  else
    let kept := s.reverse.dropWhile (· = 48)
    (if kept.head? = some 46 then kept.tail else kept).reverse

/-- A number of double precision, by the letter that says how. -/
def Layout.double (l : Layout) (letter : UInt8) (d : Double) : Bytes :=
  let upper := 65 ≤ letter && letter ≤ 90
  let cased (s : Bytes) : Bytes :=
    if upper then s.map fun b => if 97 ≤ b ∧ b ≤ 122 then b - 32 else b else s
  match d with
  | .nan => l.pad false (l.sign false) (cased (Utf8.encode "nan"))
  | .infinite negative => l.pad false (l.sign negative) (cased (Utf8.encode "inf"))
  | .finite negative m e =>
    let places := l.precision.getD 6
    let num := m * Nat.pow 2 e.toNat
    let den := Nat.pow 2 (-e).toNat
    let pointed (s : Bytes) : Bytes := if l.full && !s.contains 46 then s ++ [46] else s
    let body : Bytes :=
      if letter = 102 ∨ letter = 70 then pointed (fixed num den places)
      else if letter = 101 ∨ letter = 69 then
        let (ds, power) := leading m e places
        scientific ds power
      else
        let places := max places 1
        let (ds, power) := leading m e (places - 1)
        if -4 ≤ power ∧ power < places then
          let s := fixed num den (places - 1 - power).toNat
          if l.full then pointed s else trim s
        else if l.full then scientific ds power
        else
          let kept := (ds.reverse.dropWhile (· = 48)).reverse
          scientific (if kept = [] then [48] else kept) power
    l.pad l.zeros (l.sign negative) (cased body)

/-- Why filling in ends before the format does. -/
inductive Halt where
  /-- An argument says so. -/
  | stop
  | fault (text : Bytes)

structure State where
  text : Bytes := []
  args : List Bytes
  /-- What is wrong with arguments. -/
  complaints : List Bytes := []

abbrev Filler := EStateM Halt State

namespace Filler

def put (s : Bytes) : Filler Unit := modify fun t => { t with text := t.text ++ s }

def complain (arg : Bytes) (what : String) : Filler Unit := modify fun t =>
  { t with complaints := t.complaints ++ [arg ++ Utf8.encode (": " ++ what)] }

def next : Filler (Option Bytes) := do
  let s ← get
  set { s with args := s.args.tail }
  return s.args.head?

def isBlank (b : UInt8) : Bool := b = 32 ∨ (9 ≤ b ∧ b ≤ 13)

/-- The sign and the digits of a number, behind blanks. -/
def divideSign (arg : Bytes) : Bool × Bytes :=
  match arg.dropWhile isBlank with
  | 45 :: s => (true, s)
  | 43 :: s => (false, s)
  | s => (false, s)

/-- Complains about an argument of which not all could be taken. -/
def check (arg : Bytes) (digitsLeft : Bool) (rest : Bytes) : Filler Unit := do
  if !digitsLeft && !arg.isEmpty then complain arg "expected numeric value"
  else if digitsLeft && !rest.isEmpty then complain arg "not completely converted"

/-- The whole number that the next argument is: a quote stands for the value of what follows it. -/
def nextWhole (signed : Bool) : Filler Int := do
  match ← next with
  | none => return 0
  | some (34 :: s) | some (39 :: s) => return (s.headD 0).toNat
  | some arg =>
    let (negative, s) := divideSign arg
    let has := s.head?.any fun b => 48 ≤ b ∧ b ≤ 57
    let (n, rest) := Arithmetic.takeNumber (charsOf s)
    check arg has (bytesOf rest)
    if !has then return 0
    let limit := if !signed then 18446744073709551615
      else if negative then 9223372036854775808 else 9223372036854775807
    if limit < n then
      if rest.isEmpty then complain arg "Numerical result out of range"
      return if signed && negative then -limit else limit
    return if negative then -(n : Int) else n

/-- The number of double precision that the next argument is. -/
def nextDouble : Filler Double := do
  match ← next with
  | none => return .finite false 0 0
  | some (34 :: s) | some (39 :: s) => return .ofFraction false (s.headD 0).toNat 1
  | some arg =>
    let (negative, s) := divideSign arg
    let isDigit (b : UInt8) : Bool := 48 ≤ b ∧ b ≤ 57
    let value (s : Bytes) : Nat := s.foldl (fun n b => 10 * n + (b.toNat - 48)) 0
    let lower := Bytes.lowerAscii s
    if lower = Utf8.encode "inf" ∨ lower = Utf8.encode "infinity" then return .infinite negative
    if lower = Utf8.encode "nan" then return .nan
    if lower.take 2 = Utf8.encode "0x" then
      let (n, rest) := Arithmetic.takeNumber (charsOf s)
      check arg true (bytesOf rest)
      return .ofFraction negative n 1
    let whole := s.takeWhile isDigit
    let s := s.dropWhile isDigit
    let (places, s) := match s with
      | 46 :: s => (s.takeWhile isDigit, s.dropWhile isDigit)
      | s => ([], s)
    if whole.isEmpty && places.isEmpty then
      check arg false s
      return .finite false 0 0
    let (power, s) : Int × Bytes := match s with
      | e :: t =>
        let (down, ds) := match t with
          | 45 :: ds => (true, ds)
          | 43 :: ds => (false, ds)
          | ds => (false, ds)
        if (e = 101 ∨ e = 69) ∧ ds.head?.any isDigit then
          let n : Int := value (ds.takeWhile isDigit)
          (if down then -n else n, ds.dropWhile isDigit)
        else (0, s)
      | [] => (0, [])
    check arg true s
    let d := Double.ofDecimal negative (value (whole ++ places)) (power - places.length)
    match d with
    | .infinite _ => if s.isEmpty then complain arg "Numerical result out of range"
    | _ => pure ()
    return d

/-- A width or precision: digits, or a star for the next argument. -/
def takeSize (s : Bytes) : Filler (Option Int × Bytes) := do
  match s with
  | 42 :: s => return (some (← nextWhole true), s)
  | s =>
    let ds := s.takeWhile fun b => 48 ≤ b ∧ b ≤ 57
    let n : Nat := ds.foldl (fun n b => 10 * n + (b.toNat - 48)) 0
    return (if ds.isEmpty then none else some n, s.drop ds.length)

/-- The layout that stands before a conversion letter. -/
def takeLayout (s : Bytes) : Filler (Layout × Bytes) := do
  let flags := s.takeWhile fun b => b = 35 ∨ b = 45 ∨ b = 43 ∨ b = 32 ∨ b = 48
  let (width, s) ← takeSize (s.drop flags.length)
  let width := width.getD 0
  let l : Layout :=
    { left := flags.contains 45 || width < 0, zeros := flags.contains 48, plus := flags.contains 43
      space := flags.contains 32, full := flags.contains 35, width := width.natAbs }
  match s with
  | 46 :: s =>
    let (precision, s) ← takeSize s
    let p := precision.getD 0
    return ({ l with precision := if p < 0 then none else some p.toNat }, s)
  | s => return (l, s)

/-- Fills in what a conversion letter asks for; `directive` is all of the text for it. -/
def convert (directive : Bytes) (letter : UInt8) (l : Layout) : Filler Unit := do
  let cut (s : Bytes) : Bytes := match l.precision with
    | some p => s.take p
    | none => s
  let natural : Filler Nat := return (← nextWhole false) % 18446744073709551616 |>.toNat
  match letter with
  | 115 => put (l.pad false [] (cut ((← next).getD [])))
  | 98 =>
    let arg := (← next).getD []
    let (s, stop) := Escape.fill arg.length arg
    put (l.pad false [] (cut s))
    if stop then throw .stop
  | 99 => put (l.pad false [] [((← next).getD []).headD 0])
  | 100 | 105 =>
    let n ← nextWhole true
    put (l.whole (l.sign (n < 0)) (digits 10 n.natAbs))
  | 117 => put (l.whole [] (digits 10 (← natural)))
  | 111 =>
    let ds := digits 8 (← natural)
    put (l.whole [] (if l.full && ds ≠ [48] then 48 :: ds else ds))
  | 120 | 88 =>
    let n ← natural
    let s : Bytes := digits 16 n
    let front : Bytes := if l.full && n ≠ 0 then [48, letter] else []
    put (l.whole front (if letter = 88 then s.map fun b => if 97 ≤ b then b - 32 else b else s))
  | _ =>
    if letter ∈ [101, 69, 102, 70, 103, 71] then put (l.double letter (← nextDouble))
    else throw (.fault (directive ++ Utf8.encode ": invalid directive"))

/-- Fills a format in once; `fuel` bounds its length. -/
def fillOnce : Nat → Bytes → Filler Unit
  | 0, _ | _, [] => pure ()
  | fuel + 1, 92 :: s => do
    let (b, s) := Escape.take s
    put [b]
    fillOnce fuel s
  | fuel + 1, 37 :: 37 :: s => do
    put [37]
    fillOnce fuel s
  | fuel + 1, 37 :: s => do
    let (l, rest) ← takeLayout s
    match rest with
    | [] => throw (.fault (Utf8.encode "missing format character"))
    | letter :: rest =>
      convert (37 :: s.take (s.length - rest.length)) letter l
      fillOnce fuel rest
  | fuel + 1, b :: s => do
    put [b]
    fillOnce fuel s

/-- Fills a format in until there are no arguments left. -/
def fillAll (format : Bytes) : Nat → Filler Unit
  | 0 => fillOnce format.length format
  | n + 1 => do
    let before := (← get).args.length
    fillOnce format.length format
    let after := (← get).args.length
    if after < before ∧ 0 < after then fillAll format n

end Filler

/-- What came of filling in: the text, and what is wrong with arguments, and with the format. -/
structure Outcome where
  text : Bytes
  complaints : List Bytes
  fault : Option Bytes := none
deriving DecidableEq, Repr

/-- A format, filled in with arguments as often as these need it. -/
def fill (format : Bytes) (args : List Bytes) : Outcome :=
  match Filler.fillAll format args.length { args } with
  | .ok () s | .error .stop s => ⟨s.text, s.complaints, none⟩
  | .error (.fault e) s => ⟨s.text, s.complaints, some e⟩

example : (fill (Utf8.encode "%s|%03d;") (["a", "7", "b", "-5"].map Utf8.encode)).text =
    Utf8.encode "a|007;b|-05;" := by
  decide +kernel

end FirmwareTasks.Shell.Format
