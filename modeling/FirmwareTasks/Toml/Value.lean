import FirmwareTasks.Config.Mismatch
import FirmwareTasks.Toml.DateTime
/-!
The values of a TOML document. A table keeps the order in which its keys came.
-/
namespace FirmwareTasks.Toml

inductive Value where
  | text (s : String)
  | integer (n : Int)
  | float (d : Double)
  | boolean (b : Bool)
  | moment (m : DateTime)
  | array (items : List Value)
  | table (entries : List (String × Value))
deriving Repr, Inhabited

namespace Value

/-- The key under which a date or time shows its text where a table is wanted. -/
def momentKey : String := "$__toml_private_datetime"

/-- The entries of a value that can stand for a table. -/
def entries? : Value → Option (List (String × Value))
  | table entries => some entries
  | moment m => some [(momentKey, text m.text)]
  | _ => none

/-- What the value is called where something else was wanted. -/
def found : Value → Found
  | text s => .text s
  | integer n => .integer n
  | float d => .float d
  | boolean b => .boolean b
  | moment _ | table _ => .map
  | array _ => .sequence

end Value
end FirmwareTasks.Toml
