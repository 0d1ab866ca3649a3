import FirmwareTasks.Text.Bytes
/-!
The variables that a program is started with.
-/
namespace FirmwareTasks

/-- Variables by name. -/
abbrev Environment := List (Bytes × Bytes)

namespace Environment

/-- The value of a variable. A name that is empty or has a sign of equality in it is never set. -/
def get? (env : Environment) (name : Bytes) : Option Bytes :=
  if name = [] ∨ 61 ∈ name then none else env.lookup name

/-- The variables with another value for one of them. -/
def set (env : Environment) (name value : Bytes) : Environment :=
  (name, value) :: env.filter (·.1 ≠ name)

end Environment
end FirmwareTasks
