import FirmwareTasks.Run.Body
import FirmwareTasks.Task.Plan
/-!
Running the tasks of a plan one after another, up to the first that fails.
-/
namespace FirmwareTasks.Context
open Act

variable {σ : Type} (ctx : Context σ)

/-- Runs tasks in order; the first failure ends the run. -/
def runInOrder : List Task → Act σ Unit
  | [] => pure ()
  | t :: ts => do
    log .info ("Running task '" ++ t.name ++ "'")
    ctx.body t
    runInOrder ts

def runTasks (requested : List Task) : Act σ Unit := do
  let order := Task.plan requested
  log .debug ("Plan: " ++ ", ".intercalate (order.map Task.name))
  ctx.runInOrder order

end FirmwareTasks.Context
