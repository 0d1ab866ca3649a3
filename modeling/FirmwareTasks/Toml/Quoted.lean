/-!
Keys and quoted texts of a TOML document. Each reader takes what it reads from the front of the
characters and gives the rest back.
-/
namespace FirmwareTasks.Toml

/-- Takes something from the front of the characters. -/
abbrev Reader (α : Type) := List Char → Option (α × List Char)

/-- The characters that may stand in comments, and in texts if they are not special there. -/
def isPlain (c : Char) : Bool := c == '\t' || (' ' ≤ c && c != '\x7f')

def hexValue? (c : Char) : Option Nat :=
  let n := c.toNat
  if 48 ≤ n ∧ n ≤ 57 then some (n - 48)
  else if 65 ≤ n ∧ n ≤ 70 then some (n - 55)
  else if 97 ≤ n ∧ n ≤ 102 then some (n - 87)
  else none

/-- The character with the number that the digits write to the base sixteen. -/
def scalarOfHex? (ds : List Char) : Option Char := do
  let n := (← ds.mapM hexValue?).foldl (fun n d => n * 16 + d) 0
  if n.isValidChar then some (.ofNat n) else none

/-- What follows a backslash: a character of its own, or four or eight digits. -/
def takeEscape : Reader Char
  | 'b' :: s => some ('\x08', s)
  | 't' :: s => some ('\t', s)
  | 'n' :: s => some ('\n', s)
  | 'f' :: s => some ('\x0c', s)
  | 'r' :: s => some ('\r', s)
  | '"' :: s => some ('"', s)
  | '\\' :: s => some ('\\', s)
  | 'u' :: a :: b :: c :: d :: s => (scalarOfHex? [a, b, c, d]).map (·, s)
  | 'U' :: a :: b :: c :: d :: e :: f :: g :: h :: s =>
    (scalarOfHex? [a, b, c, d, e, f, g, h]).map (·, s)
  | _ => none

/-- How many characters an escape takes after its backslash. -/
def escapeLength : List Char → Nat
  | 'u' :: _ => 5
  | 'U' :: _ => 9
  | _ => 1

/-- The rest of a text in double quotes; `skip` characters still belong to an escape. -/
def takeBasic : Nat → Reader (List Char)
  | _, [] => none
  | skip + 1, _ :: s => takeBasic skip s
  | 0, c :: s =>
    if c = '"' then some ([], s)
    else if c = '\\' then do
      let (e, _) ← takeEscape s
      let (cs, r) ← takeBasic (escapeLength s) s
      return (e :: cs, r)
    else if isPlain c then (takeBasic 0 s).map fun (cs, r) => (c :: cs, r)
    else none

def takeLiteral : Reader (List Char)
  | [] => none
  | c :: s =>
    if c = '\'' then some ([], s)
    else if isPlain c then (takeLiteral s).map fun (cs, r) => (c :: cs, r)
    else none

/-- Up to two quotes may stand directly before the three that end a text. -/
def takeClosing (q : Char) (s : List Char) : List Char × List Char :=
  match s with
  | a :: b :: r => if a = q ∧ b = q then ([q, q], r) else if a = q then ([q], b :: r) else ([], s)
  | [a] => if a = q then ([q], []) else ([], s)
  | [] => ([], s)

/-- Without the line break in front, if there is one. -/
def dropBreak : List Char → List Char
  | '\n' :: s => s
  | '\r' :: '\n' :: s => s
  | s => s

def isBlankChar (c : Char) : Bool := c == ' ' || c == '\t'

/-- Whether only blanks come before the next line break. -/
def lineIsOver (s : List Char) : Bool :=
  match s.dropWhile isBlankChar with
  | '\n' :: _ => true
  | '\r' :: '\n' :: _ => true
  | _ => false

/-- Where a reader of a text over several lines stands. -/
inductive Mode where
  | plain
  /-- Characters of an escape are left. -/
  | escape (left : Nat)
  /-- After a backslash at the end of a line, up to the next visible character. -/
  | blank
deriving DecidableEq

def takeMultiBasic : Mode → Reader (List Char)
  | _, [] => none
  | .escape (n + 1), _ :: s => takeMultiBasic (if n = 0 then .plain else .escape n) s
  | _, '"' :: '"' :: '"' :: s => some (takeClosing '"' s)
  | mode, '\r' :: '\n' :: s =>
    if mode = .blank then takeMultiBasic .blank s
    else (takeMultiBasic .plain s).map fun (cs, r) => ('\n' :: cs, r)
  | mode, c :: s =>
    if mode = .blank ∧ (isBlankChar c ∨ c = '\n') then takeMultiBasic .blank s
    else if c = '\\' then
      if lineIsOver s then takeMultiBasic .blank s
      else do
        let (e, _) ← takeEscape s
        let (cs, r) ← takeMultiBasic (.escape (escapeLength s)) s
        return (e :: cs, r)
    else if isPlain c ∨ c = '\n' then (takeMultiBasic .plain s).map fun (cs, r) => (c :: cs, r)
    else none

def takeMultiLiteral : Reader (List Char)
  | [] => none
  | '\'' :: '\'' :: '\'' :: s => some (takeClosing '\'' s)
  | '\r' :: '\n' :: s => (takeMultiLiteral s).map fun (cs, r) => ('\n' :: cs, r)
  | c :: s =>
    if isPlain c ∨ c = '\n' then (takeMultiLiteral s).map fun (cs, r) => (c :: cs, r) else none

def takeText (s : List Char) : Option (String × List Char) :=
  let body : Option (List Char × List Char) :=
    match s with
    | '"' :: '"' :: '"' :: s => takeMultiBasic .plain (dropBreak s)
    | '"' :: s => takeBasic 0 s
    | '\'' :: '\'' :: '\'' :: s => takeMultiLiteral (dropBreak s)
    | '\'' :: s => takeLiteral s
    | _ => none
  body.map fun (cs, r) => (.ofList cs, r)

def isBareChar (c : Char) : Bool := c.isAlphanum || c == '_' || c == '-'

/-- One part of a key: in quotes on one line, or bare. -/
def takeKeyPart (s : List Char) : Option (String × List Char) :=
  match s with
  | '"' :: s => (takeBasic 0 s).map fun (cs, r) => (.ofList cs, r)
  | '\'' :: s => (takeLiteral s).map fun (cs, r) => (.ofList cs, r)
  | s =>
    let bare := s.takeWhile isBareChar
    if bare = [] then none else some (.ofList bare, s.dropWhile isBareChar)

def dropBlanks (s : List Char) : List Char := s.dropWhile isBlankChar

/-- The parts of a key with points between them and blanks around them, fewer than `limit`. -/
def takeKey : Nat → Reader (List String)
  | 0, _ => none
  | limit + 1, s => do
    let (part, s) ← takeKeyPart (dropBlanks s)
    match dropBlanks s with
    | '.' :: s => (takeKey limit s).map fun (parts, r) => (part :: parts, r)
    | s => return ([part], s)

end FirmwareTasks.Toml
