import FirmwareTasks.Task
/-!
Plans: the requested tasks together with the tasks before them, each at most once and each after
the tasks before it.
-/
namespace FirmwareTasks.Task

/-- The tasks planned so far, and then a task with those before it that are not planned yet;
`depth` bounds how far these go back. -/
def visitWithin : Nat → Task → List Task → List Task
  | 0, t, order => if t ∈ order then order else order ++ [t]
  | depth + 1, t, order =>
    if t ∈ order then order
    else t.prerequisites.foldl (fun order p => visitWithin depth p order) order ++ [t]

def visit (t : Task) (order : List Task) : List Task := visitWithin t.depth t order

def plan (requested : List Task) : List Task := requested.foldl (fun order t => t.visit order) []

theorem visit_eq (t : Task) (order : List Task) :
    t.visit order =
      if t ∈ order then order
      else t.prerequisites.foldl (fun order p => p.visit order) order ++ [t] := by
  cases t <;> rfl

theorem visit_of_mem {t : Task} {order : List Task} (h : t ∈ order) : t.visit order = order := by
  rw [visit_eq, if_pos h]

example : plan [test] = [env, testRun, testJunit, test] := by decide
example : plan [testJunit, test] = [env, testJunit, testRun, test] := by decide
example : plan [configure, all, make, test] =
    [envGcc, configure, env, all, make, testRun, testJunit, test] := by decide

end FirmwareTasks.Task
