import FirmwareTasks.Task
/-!
The list of tasks as the program prints it.
-/
namespace FirmwareTasks.Task

def column (width : Nat) (s : String) : String :=
  s ++ .ofList (List.replicate (width - s.length) ' ')

/-- The names, other names, tasks before, and purpose of a task, in columns. -/
def row (name aliases before purpose : String) : String :=
  column 12 name ++ " " ++ column 32 aliases ++ " " ++ column 22 before ++ " " ++ purpose

def listingRow (t : Task) : String :=
  row t.name (", ".intercalate t.aliases) (", ".intercalate (t.prerequisites.map name))
    t.description

def listing : List String :=
  ["Available tasks:", "", row "Task" "Aliases" "Runs first" "Description",
    .ofList (List.replicate 100 '-')] ++ every.map listingRow

end FirmwareTasks.Task
