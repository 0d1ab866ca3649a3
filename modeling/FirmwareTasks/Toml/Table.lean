import FirmwareTasks.Toml.Value
/-!
How the tables of a document come about. A pair with a dotted key and a header both lead through
tables that they may have to make; which ones they may enter or define again depends on how these
were made.
-/
namespace FirmwareTasks.Toml

/-- How a table was made: by a header of its own, on the way of a header, or on the way of a dotted
key. -/
inductive Form where
  | defined
  | passed
  | dotted
deriving DecidableEq, Repr

/-- What a key of an unfinished table stands for. -/
inductive Node where
  | value (v : Value)
  | table (form : Form) (entries : List (String × Node))
  | tables (items : List (List (String × Node)))
deriving Inhabited

abbrev Entries := List (String × Node)

/-- The path of a table, or of a list of tables that gets one more. -/
structure Header where
  path : List String
  listed : Bool
deriving DecidableEq, Repr

/-- A header with the pairs below it. -/
structure Block where
  header : Header
  pairs : List (List String × Value)

namespace Entries

/-- The entries with another node at a key that is there. -/
def replace (key : String) (node : Node) (es : Entries) : Entries :=
  es.map fun e => if e.1 = key then (key, node) else e

/-- The entries with a value at a dotted key. Tables on the way are made as dotted ones; one that
has a header of its own is not entered, and the last one must be dotted. -/
def put? (v : Value) : List String → Entries → Option Entries
  | [], _ => none
  | [key], es => if (es.lookup key).isSome then none else some (es ++ [(key, .value v)])
  | key :: path, es =>
    match es.lookup key with
    | none => (put? v path []).map fun sub => es ++ [(key, .table .dotted sub)]
    | some (.table form sub) =>
      if form = .defined ∨ (path.length = 1 ∧ form ≠ .dotted) then none
      else (put? v path sub).map fun sub => replace key (.table form sub) es
    | some (.tables items) =>
      if path.length = 1 then none
      else (put? v path (items.getLastD [])).map fun sub =>
        replace key (.tables (items.dropLast ++ [sub])) es
    | some (.value _) => none

def putAll? (pairs : List (List String × Value)) (es : Entries) : Option Entries :=
  pairs.foldlM (fun es p => put? p.2 p.1 es) es

def ofPairs? (pairs : List (List String × Value)) : Option Entries := putAll? pairs []

/-- Changes the table that a header's path leads to, through the last table of each list; tables on
the way are made. -/
def within? (change : Entries → Option Entries) : List String → Entries → Option Entries
  | [], es => change es
  | key :: path, es =>
    match es.lookup key with
    | none => (within? change path []).map fun sub => es ++ [(key, .table .passed sub)]
    | some (.table form sub) =>
      (within? change path sub).map fun sub => replace key (.table form sub) es
    | some (.tables items) =>
      (within? change path (items.getLastD [])).map fun sub =>
        replace key (.tables (items.dropLast ++ [sub])) es
    | some (.value _) => none

/-- The entries with a table defined by a header. One that was only passed before is completed, and
moves to the end. -/
def define? (pairs : List (List String × Value)) (key : String) (es : Entries) : Option Entries :=
  match es.lookup key with
  | none => (putAll? pairs []).map fun sub => es ++ [(key, .table .defined sub)]
  | some (.table .passed sub) =>
    (putAll? pairs sub).map fun sub => es.filter (·.1 ≠ key) ++ [(key, .table .defined sub)]
  | some _ => none

/-- The entries with one more table in a list of tables. -/
def enlist? (pairs : List (List String × Value)) (key : String) (es : Entries) : Option Entries :=
  match es.lookup key with
  | none => (putAll? pairs []).map fun sub => es ++ [(key, .tables [sub])]
  | some (.tables items) =>
    (putAll? pairs []).map fun sub => replace key (.tables (items ++ [sub])) es
  | some _ => none

def block? (es : Entries) (b : Block) : Option Entries :=
  match b.header.path.getLast? with
  | none => none
  | some key =>
    within? (if b.header.listed then enlist? b.pairs key else define? b.pairs key)
      b.header.path.dropLast es

/-- The entries of a document: its pairs in front, then its blocks. -/
def ofBlocks? (pairs : List (List String × Value)) (bs : List Block) : Option Entries := do
  bs.foldlM block? (← putAll? pairs [])

mutual

def ofNode : Node → Value
  | .value v => v
  | .table _ entries => .table (toValues entries)
  | .tables items => .array (ofItems items)

def toValues : Entries → List (String × Value)
  | [] => []
  | (key, node) :: es => (key, ofNode node) :: toValues es

def ofItems : List Entries → List Value
  | [] => []
  | es :: items => .table (toValues es) :: ofItems items

end

end Entries
end FirmwareTasks.Toml
