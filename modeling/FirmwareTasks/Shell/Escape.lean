import FirmwareTasks.Text.Bytes
import FirmwareTasks.Text.Utf8
/-!
Backslash escapes in the texts that a shell writes.
-/
namespace FirmwareTasks.Shell.Escape

def isOctal (b : UInt8) : Bool := 48 ≤ b ∧ b ≤ 55

/-- Up to `n` octal digits, after those that have the value `acc`. -/
def takeOctal : Nat → Nat → Bytes → Nat × Bytes
  | 0, acc, s => (acc, s)
  | _ + 1, acc, [] => (acc, [])
  | n + 1, acc, b :: s =>
    if isOctal b then takeOctal n (8 * acc + (b.toNat - 48)) s else (acc, b :: s)

/-- The byte that a letter after a backslash stands for. -/
def letter? : UInt8 → Option UInt8
  | 97 => some 7
  | 98 => some 8
  | 101 => some 27
  | 102 => some 12
  | 110 => some 10
  | 114 => some 13
  | 116 => some 9
  | 118 => some 11
  | 92 => some 92
  | _ => none

/-- What is meant after a backslash, and what is behind that; a backslash that means nothing stands
for itself. -/
def take (s : Bytes) : UInt8 × Bytes :=
  match s with
  | [] => (92, [])
  | b :: rest =>
    if isOctal b then
      let (n, rest) := takeOctal 3 0 s
      (n.toUInt8, rest)
    else match letter? b with
      | some c => (c, rest)
      | none => (92, s)

/-- A text with its escapes filled in, and whether it says to stop there. Octal digits may follow on
a zero. -/
def fill : Nat → Bytes → Bytes × Bool
  | 0, _ | _, [] => ([], false)
  | fuel + 1, b :: s =>
    let more (b : UInt8) (s : Bytes) := let (t, stop) := fill fuel s; (b :: t, stop)
    if b ≠ 92 then more b s
    else match s with
      | 99 :: _ => ([], true)
      | 48 :: d :: rest =>
        let (c, rest) := take (if isOctal d then d :: rest else 48 :: d :: rest)
        more c rest
      | s =>
        let (c, rest) := take s
        more c rest

def echo (args : List Bytes) : Bytes :=
  let (args, last) : List Bytes × Bytes := match args with
    | [45, 110] :: args => (args, [])
    | args => (args, [10])
  let text := Bytes.join 32 args
  match fill text.length text with
  | (t, true) => t
  | (t, false) => t ++ last

example : echo [Utf8.encode "a\\tb", Utf8.encode "c"] = Utf8.encode "a\tb c\n" := by
  decide +kernel

end FirmwareTasks.Shell.Escape
