import FirmwareTasks.Run.Context
/-!
A runner that launches nothing. It records every call, can be told to let programs fail, and can
stand in for what programs do to the file tree.
-/
namespace FirmwareTasks

/-- Stands in for what a program does; `τ` is what all effects together remember. -/
abbrev Effect (τ : Type) := Invocation → EStateM Error (τ × Tree) Unit

structure Recorder (τ : Type) where
  memory : τ
  /-- The calls so far, in order. -/
  invocations : List Invocation := []
  /-- The programs that fail, with their exit codes. -/
  failures : List (String × Int) := []
  effects : List (String × Effect τ) := []

namespace Recorder

variable {τ : Type}

/-- Lets every call of a program end with a code. -/
def fail (r : Recorder τ) (program : String) (code : Int) : Recorder τ :=
  { r with failures := r.failures ++ [(program, code)] }

/-- Has an effect happen whenever a program is called. -/
def on (r : Recorder τ) (program : String) (effect : Effect τ) : Recorder τ :=
  { r with effects := r.effects ++ [(program, effect)] }

def invocationsOf (r : Recorder τ) (program : String) : List Invocation :=
  r.invocations.filter (·.isProgram program)

def programs (r : Recorder τ) : List String := r.invocations.map (·.shortName)

/-- The effects of the called program, in the order in which they were set up. -/
def play (inv : Invocation) : List (String × Effect τ) → EStateM Error (τ × Tree) Unit
  | [] => pure ()
  | (program, effect) :: rest => do
    if inv.isProgram program then effect inv
    play inv rest

/-- How a call ends whose effects succeeded. -/
def verdict (failures : List (String × Int)) (inv : Invocation) : Except Error Unit :=
  match failures.find? fun f => inv.isProgram f.1 with
  | some (_, code) => .error (.toolFailed inv.programName (some code))
  | none => .ok ()

/-- Records the call, lets its effects happen, and then judges it. -/
def run : Runner (Recorder τ) := fun inv r t =>
  let r := { r with invocations := r.invocations ++ [inv] }
  let emissions := [.log .debug ("recording: " ++ inv.display)]
  match play inv r.effects (r.memory, t) with
  | .error e (memory, tree) => ⟨{ r with memory }, tree, emissions, .error e⟩
  | .ok () (memory, tree) => ⟨{ r with memory }, tree, emissions, verdict r.failures inv⟩

end Recorder
end FirmwareTasks
