import FirmwareTasks.Text.Bytes
import FirmwareTasks.Text.Utf8
/-!
Patterns with wildcards, by which a shell trims values and chooses file names.
-/
namespace FirmwareTasks.Shell

/-- A byte of a word; in quotes it stands only for itself. -/
structure Letter where
  byte : UInt8
  quoted : Bool
deriving DecidableEq, Repr

namespace Pattern

inductive Atom where
  | byte (b : UInt8)
  | one
  | many
  /-- A byte that is in one of the ranges, or one that is in none. -/
  | among (inside : Bool) (ranges : List (UInt8 × UInt8))
deriving DecidableEq, Repr

def Atom.accepts : Atom → UInt8 → Bool
  | byte a, b => a == b
  | one, _ | many, _ => true
  | among inside ranges, b => ranges.any (fun r => r.1 ≤ b && b ≤ r.2) == inside

/-- Whether a text is one of those that the atoms describe. -/
def fits : List Atom → Bytes → Bool
  | [], s => s.isEmpty
  | .many :: p, s => (List.range (s.length + 1)).any fun k => fits p (s.drop k)
  | a :: p, b :: s => a.accepts b && fits p s
  | _ :: _, [] => false

def classRanges? (name : Bytes) : Option (List (UInt8 × UInt8)) :=
  match Utf8.lossy name with
  | "alnum" => some [(48, 57), (65, 90), (97, 122)]
  | "alpha" => some [(65, 90), (97, 122)]
  | "blank" => some [(9, 9), (32, 32)]
  | "cntrl" => some [(0, 31), (127, 127)]
  | "digit" => some [(48, 57)]
  | "graph" => some [(33, 126)]
  | "lower" => some [(97, 122)]
  | "print" => some [(32, 126)]
  | "punct" => some [(33, 47), (58, 64), (91, 96), (123, 126)]
  | "space" => some [(9, 13), (32, 32)]
  | "upper" => some [(65, 90)]
  | "xdigit" => some [(48, 57), (65, 70), (97, 102)]
  | _ => none

/-- The ranges of a class that comes next in brackets, and what is behind its name. -/
def takeClass? : List Letter → Option (List (UInt8 × UInt8) × List Letter)
  | ⟨91, false⟩ :: ⟨58, _⟩ :: ls =>
    let name := ls.takeWhile (·.byte ≠ 58)
    match ls.drop name.length with
    | ⟨58, _⟩ :: ⟨93, _⟩ :: rest => (classRanges? (name.map (·.byte))).map (·, rest)
    | _ => none
  | _ => none

/-- Letters without a backslash in front that takes the meaning from the next one. -/
def bare : List Letter → List Letter
  | ⟨92, false⟩ :: l :: ls => { l with quoted := true } :: ls
  | ls => ls

/-- The ranges in brackets, up to where they are closed; a bracket in front closes nothing. `fuel`
bounds the letters. -/
def takeRanges : Nat → Bool → List Letter → Option (List (UInt8 × UInt8) × List Letter)
  | 0, _, _ | _, _, [] => none
  | fuel + 1, first, l :: ls =>
    if l = ⟨93, false⟩ && !first then some ([], ls)
    else match takeClass? (l :: ls) with
      | some (ranges, ls) => (takeRanges fuel false ls).map fun (rs, ls) => (ranges ++ rs, ls)
      | none =>
        match bare (l :: ls) with
        | a :: ⟨45, false⟩ :: b :: ls =>
          if b = ⟨93, false⟩ then some ([(a.byte, a.byte), (45, 45)], ls)
          else match bare (b :: ls) with
            | b :: ls => (takeRanges fuel false ls).map fun (rs, ls) => ((a.byte, b.byte) :: rs, ls)
            | [] => none
        | a :: ls => (takeRanges fuel false ls).map fun (rs, ls) => ((a.byte, a.byte) :: rs, ls)
        | [] => none

/-- What brackets stand for, after the opening one. -/
def takeBrackets : List Letter → Option (Atom × List Letter)
  | ⟨33, false⟩ :: ls =>
    (takeRanges (ls.length + 1) true ls).map fun (rs, ls) => (.among false rs, ls)
  | ls => (takeRanges (ls.length + 1) true ls).map fun (rs, ls) => (.among true rs, ls)

/-- The atoms of a word; `fuel` bounds its letters. -/
def atoms : Nat → List Letter → List Atom
  | 0, _ | _, [] => []
  | fuel + 1, l :: ls =>
    match l with
    | ⟨42, false⟩ => .many :: atoms fuel ls
    | ⟨63, false⟩ => .one :: atoms fuel ls
    | ⟨91, false⟩ =>
      match takeBrackets ls with
      | some (a, ls) => a :: atoms fuel ls
      | none => .byte 91 :: atoms fuel ls
    | l =>
      match bare (l :: ls) with
      | l :: ls => .byte l.byte :: atoms fuel ls
      | [] => []

def ofLetters (ls : List Letter) : List Atom := atoms ls.length ls

def cuts (p : List Atom) (s : Bytes) : List Nat :=
  (List.range (s.length + 1)).filter fun k => fits p (s.take k)

/-- The text without its shortest or longest front that fits. -/
def dropFront (longest : Bool) (p : List Atom) (s : Bytes) : Bytes :=
  match if longest then (cuts p s).getLast? else (cuts p s).head? with
  | some k => s.drop k
  | none => s

/-- The text without its shortest or longest end that fits. -/
def dropBack (longest : Bool) (p : List Atom) (s : Bytes) : Bytes :=
  let cuts := (List.range (s.length + 1)).filter fun k => fits p (s.drop k)
  match if longest then cuts.head? else cuts.getLast? with
  | some k => s.take k
  | none => s

/-- The file name of a path. -/
example : dropFront true [.many, .byte 47] [47, 97, 47, 98] = [98] := by decide +kernel

end Pattern
end FirmwareTasks.Shell
