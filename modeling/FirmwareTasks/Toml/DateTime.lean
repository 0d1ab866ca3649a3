/-!
Dates and times as TOML writes them, and the one text by which each is shown.
-/
namespace FirmwareTasks.Toml

structure Date where
  year : Nat
  month : Nat
  day : Nat
deriving DecidableEq, Repr

structure Time where
  hour : Nat
  minute : Nat
  second : Nat
  /-- The digits of the fraction, at most nine. -/
  fraction : List Char
deriving DecidableEq, Repr

/-- How far a time is from universal time; `shift` is in minutes. -/
inductive Offset where
  | zulu
  | shift (negative : Bool) (minutes : Nat)
deriving DecidableEq, Repr

inductive DateTime where
  | date (d : Date)
  | time (t : Time)
  | dateTime (d : Date) (t : Time) (o : Option Offset)
deriving DecidableEq, Repr

def padded (width n : Nat) : String :=
  let ds := Nat.toDigits 10 n
  .ofList (List.replicate (width - ds.length) '0' ++ ds)

def Date.text (d : Date) : String :=
  padded 4 d.year ++ "-" ++ padded 2 d.month ++ "-" ++ padded 2 d.day

def Time.text (t : Time) : String :=
  let fraction := (t.fraction.reverse.dropWhile (· == '0')).reverse
  padded 2 t.hour ++ ":" ++ padded 2 t.minute ++ ":" ++ padded 2 t.second ++
    if fraction = [] then "" else "." ++ .ofList fraction

def Offset.text : Offset → String
  | zulu => "Z"
  | shift negative m =>
    (if negative && m != 0 then "-" else "+") ++ padded 2 (m / 60) ++ ":" ++ padded 2 (m % 60)

def DateTime.text : DateTime → String
  | date d => d.text
  | time t => t.text
  | dateTime d t o => d.text ++ "T" ++ t.text ++ (o.map Offset.text).getD ""

def isLeap (year : Nat) : Bool := year % 4 == 0 && (year % 100 != 0 || year % 400 == 0)

def daysIn (year month : Nat) : Nat :=
  match month with
  | 2 => if isLeap year then 29 else 28
  | 4 | 6 | 9 | 11 => 30
  | _ => 31

def digit? (c : Char) : Option Nat := if c.isDigit then some (c.toNat - 48) else none

def two? (low high : Nat) : List Char → Option (Nat × List Char)
  | a :: b :: s => do
    let n := 10 * (← digit? a) + (← digit? b)
    if low ≤ n ∧ n ≤ high then some (n, s) else none
  | _ => none

def expect? (c : Char) : List Char → Option (List Char)
  | d :: s => if c = d then some s else none
  | [] => none

def Date.read? (s : List Char) : Option (Date × List Char) := do
  let (century, s) ← two? 0 99 s
  let (rest, s) ← two? 0 99 s
  let s ← expect? '-' s
  let (month, s) ← two? 1 12 s
  let s ← expect? '-' s
  let year := 100 * century + rest
  let (day, s) ← two? 1 (daysIn year month) s
  return (⟨year, month, day⟩, s)

/-- A time, and what follows it. Digits of the fraction beyond the ninth are dropped. -/
def Time.read? (s : List Char) : Option (Time × List Char) := do
  let (hour, s) ← two? 0 23 s
  let s ← expect? ':' s
  let (minute, s) ← two? 0 59 s
  let s ← expect? ':' s
  let (second, s) ← two? 0 60 s
  match s with
  | '.' :: s =>
    let fraction := s.takeWhile Char.isDigit
    if fraction = [] then none
    else return (⟨hour, minute, second, fraction.take 9⟩, s.dropWhile Char.isDigit)
  | s => return (⟨hour, minute, second, []⟩, s)

def Offset.read? : List Char → Option Offset
  | ['Z'] | ['z'] => some .zulu
  | sign :: s => do
    if sign ≠ '+' ∧ sign ≠ '-' then none
    let (hours, s) ← two? 0 23 s
    let s ← expect? ':' s
    let (minutes, s) ← two? 0 59 s
    if s = [] then some (.shift (sign == '-') (60 * hours + minutes)) else none
  | [] => none

/-- The date, time or both that the whole text writes. -/
def DateTime.read? (s : List Char) : Option DateTime :=
  match Date.read? s with
  | some (d, []) => some (.date d)
  | some (d, sep :: s) =>
    if sep = 'T' ∨ sep = 't' then
      match Time.read? s with
      | some (t, []) => some (.dateTime d t none)
      | some (t, s) => (Offset.read? s).map fun o => .dateTime d t (some o)
      | none => none
    else none
  | none =>
    match Time.read? s with
    | some (t, []) => some (.time t)
    | _ => none

example : (DateTime.read? "2024-02-29t23:59:60.500Z".toList).map DateTime.text
    = some "2024-02-29T23:59:60.5Z" := by decide +kernel
example : DateTime.read? "2023-02-29".toList = none := by decide +kernel

end FirmwareTasks.Toml
