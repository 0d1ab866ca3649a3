import FirmwareTasks.Toml.Quoted
import FirmwareTasks.Toml.Scalar
import FirmwareTasks.Toml.Table
/-!
The lines of a TOML document: pairs of a key and a value, and headers of tables. Readers that go
into brackets are bounded by how deep these may be nested.
-/
namespace FirmwareTasks.Toml

/-- How many parts a key may have, and how deep brackets may be nested. -/
def depthLimit : Nat := 79

/-- What comes after a line's content: blanks, a comment, and the end of the line. -/
def endLine (s : List Char) : Option (List Char) :=
  let s := match dropBlanks s with
    | '#' :: s => s.dropWhile isPlain
    | s => s
  match s with
  | [] => some []
  | '\n' :: s => some s
  | '\r' :: '\n' :: s => some s
  | _ => none

/-- Drops blanks, line breaks and comments, as between the items of an array. -/
def dropSpace (inComment : Bool) : List Char → Option (List Char)
  | [] => some []
  | '\r' :: '\n' :: s => dropSpace false s
  | c :: s =>
    if c = '\n' then dropSpace false s
    else if inComment then if isPlain c then dropSpace true s else none
    else if isBlankChar c then dropSpace false s
    else if c = '#' then dropSpace true s
    else some (c :: s)

/-- The items of an array after its opening bracket; `fuel` bounds their number. -/
def takeItems (item : Reader Value) : Nat → Reader (List Value)
  | 0, _ => none
  | fuel + 1, s => do
    match ← dropSpace false s with
    | ']' :: s => return ([], s)
    | s =>
      let (v, s) ← item s
      match ← dropSpace false s with
      | ',' :: s => (takeItems item fuel s).map fun (vs, r) => (v :: vs, r)
      | ']' :: s => return ([v], s)
      | _ => none

def takePair (value : Reader Value) (s : List Char) :
    Option ((List String × Value) × List Char) := do
  let (path, s) ← takeKey depthLimit s
  let s ← expect? '=' s
  let (v, s) ← value (dropBlanks s)
  return ((path, v), s)

/-- The pairs of a table in braces from the first pair on. -/
def takePairs (value : Reader Value) : Nat → Reader (List (List String × Value))
  | 0, _ => none
  | fuel + 1, s => do
    let (pair, s) ← takePair value s
    match dropBlanks s with
    | ',' :: s => (takePairs value fuel s).map fun (pairs, r) => (pair :: pairs, r)
    | '}' :: s => return ([pair], s)
    | _ => none

/-- A table in braces after the opening one. It stands on one line. -/
def takeBraces (value : Reader Value) (s : List Char) :
    Option (List (List String × Value) × List Char) :=
  match dropBlanks s with
  | '}' :: s => some ([], s)
  | s => takePairs value s.length s

def takeLeaf (s : List Char) : Option (Value × List Char) :=
  match s with
  | '"' :: _ => (takeText s).map fun (t, r) => (.text t, r)
  | '\'' :: _ => (takeText s).map fun (t, r) => (.text t, r)
  | s =>
    let (word, r) := takeWord s
    (scalar? word).map (·, r)

def takeValue : Nat → Reader Value
  | 0, s => takeLeaf s
  | depth + 1, s =>
    match s with
    | '[' :: s => (takeItems (takeValue depth) (s.length + 1) s).map fun (vs, r) => (.array vs, r)
    | '{' :: s => do
      let (pairs, r) ← takeBraces (takeValue depth) s
      let entries ← Entries.ofPairs? pairs
      return (.table entries.toValues, r)
    | s => takeLeaf s

/-- A line with content. -/
inductive Statement where
  | pair (path : List String) (v : Value)
  | header (h : Header)
deriving Repr

/-- The path of a header up to its closing brackets. -/
def takeHeader (s : List Char) : Option (Header × List Char) :=
  match s with
  | '[' :: s => do
    let (path, s) ← takeKey depthLimit s
    let s ← expect? ']' s
    let s ← expect? ']' s
    return (⟨path, true⟩, s)
  | s => do
    let (path, s) ← takeKey depthLimit s
    let s ← expect? ']' s
    return (⟨path, false⟩, s)

/-- The statements of a document; `fuel` bounds the number of its lines. -/
def takeStatements : Nat → List Char → Option (List Statement)
  | 0, _ => none
  | fuel + 1, s =>
    match dropBlanks s with
    | [] => some []
    | '\n' :: s => takeStatements fuel s
    | '\r' :: '\n' :: s => takeStatements fuel s
    | '#' :: s => do takeStatements fuel (← endLine ('#' :: s))
    | '[' :: s => do
      let (h, s) ← takeHeader s
      return .header h :: (← takeStatements fuel (← endLine s))
    | s => do
      let ((path, v), s) ← takePair (takeValue depthLimit) s
      return .pair path v :: (← takeStatements fuel (← endLine s))

/-- The pairs before the first header, and each header with the pairs after it. -/
def blocks : List Statement → List (List String × Value) × List Block
  | [] => ([], [])
  | .pair path v :: rest =>
    let (pairs, bs) := blocks rest
    ((path, v) :: pairs, bs)
  | .header h :: rest =>
    let (pairs, bs) := blocks rest
    ([], ⟨h, pairs⟩ :: bs)

/-- The entries of the document, if the text is one. A byte order mark in front is skipped. -/
def read? (text : String) : Option (List (String × Value)) := do
  let s := match text.toList with
    | '\ufeff' :: s => s
    | s => s
  let (pairs, bs) := blocks (← takeStatements (s.length + 1) s)
  return (← Entries.ofBlocks? pairs bs).toValues

end FirmwareTasks.Toml
