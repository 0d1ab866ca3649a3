import FirmwareTasks.Decimal.Shortest
import FirmwareTasks.Text.Quoted
/-!
How a document can fail to be a configuration.
-/
namespace FirmwareTasks

/-- What stands where something else was wanted. -/
inductive Found where
  | integer (n : Int)
  | float (d : Double)
  | boolean (b : Bool)
  | text (s : String)
  | sequence
  | map
deriving DecidableEq, Repr

/-- What a place in the document is for. -/
inductive Wanted where
  | count
  | text
  | path
  | sequence
  | map
  | section (name : String)
deriving DecidableEq, Repr

inductive Mismatch where
  | wrongType (found : Found) (wanted : Wanted)
  | outOfRange (n : Int)
  | tooShort (length : Nat) (name : String) (wanted : Nat)
  | missingField (name : String)
  | unknownField (name : String) (known : List String)
deriving DecidableEq, Repr

/-- Why a text is no configuration: it is no document at all, or holds something unfitting. -/
inductive ConfigProblem where
  | malformed
  | mismatch (m : Mismatch)
deriving DecidableEq, Repr

def Found.message : Found → String
  | integer n => "integer `" ++ toString n ++ "`"
  | float d => "floating point `" ++ d.text ++ "`"
  | boolean b => "boolean `" ++ (if b then "true" else "false") ++ "`"
  | text s => "string " ++ Quoted.text s
  | sequence => "sequence"
  | map => "map"

def Wanted.message : Wanted → String
  | count => "u32"
  | text => "a string"
  | path => "path string"
  | sequence => "a sequence"
  | map => "a map"
  | .section name => "struct " ++ name

def Mismatch.message : Mismatch → String
  | wrongType found wanted => "invalid type: " ++ found.message ++ ", expected " ++ wanted.message
  | outOfRange n => "invalid value: " ++ (Found.integer n).message ++ ", expected u32"
  | tooShort length name wanted =>
    "invalid length " ++ toString length ++ ", expected struct " ++ name ++ " with " ++
      toString wanted ++ " elements"
  | missingField name => "missing field `" ++ name ++ "`"
  | unknownField name known =>
    "unknown field `" ++ name ++ "`, expected one of " ++
      ", ".intercalate (known.map fun k => "`" ++ k ++ "`")

end FirmwareTasks
