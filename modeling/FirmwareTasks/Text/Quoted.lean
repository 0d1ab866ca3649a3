import FirmwareTasks.Text.Printable
import FirmwareTasks.Text.Utf8
/-!
Texts in quotes for messages. What would not show, and what would end the quotation early, is
written with a backslash.
-/
namespace FirmwareTasks.Quoted

/-- The digits of a number to the base sixteen, without leading zeros. -/
def hexDigits (n : Nat) : String := .ofList (Nat.toDigits 16 n)

def character (c : Char) : String :=
  match c with
  | '\x00' => "\\0"
  | '\t' => "\\t"
  | '\r' => "\\r"
  | '\n' => "\\n"
  | '"' => "\\\""
  | '\\' => "\\\\"
  | c =>
    if Printable.isPrintable c then c.toString
    else "\\u\x7b" ++ hexDigits c.toNat ++ "\x7d"

def concat (parts : List String) : String := parts.foldl (· ++ ·) ""

def text (s : String) : String :=
  "\"" ++ concat (s.toList.map character) ++ "\""

/-- A byte outside every character, as two upper-case digits to the base sixteen. -/
def byte (b : UInt8) : String :=
  let digit (n : Nat) := (Nat.digitChar n).toUpper.toString
  "\\x" ++ digit (b.toNat / 16) ++ digit (b.toNat % 16)

def piece : Utf8.Piece → String
  | .char c => character c
  | .broken bs => concat (bs.map byte)

def bytes (s : Bytes) : String :=
  "\"" ++ concat ((Utf8.pieces s).map piece) ++ "\""

example : text "a\"b\u0301" = "\"a\\\"b\\u\x7b301\x7d\"" := by decide +kernel
example : bytes [0x27, 0xFF] = "\"'\\xFF\"" := by decide +kernel

end FirmwareTasks.Quoted
