import FirmwareTasks.Error
import FirmwareTasks.Files.Subtree
import FirmwareTasks.Run.Event
/-!
What a run works on: the file tree, the memory of the runner that executes tools, and the events so
far. An action that fails keeps what it has done.
-/
namespace FirmwareTasks

/-- The state of a run whose runner remembers a `σ`. -/
structure World (σ : Type) where
  tree : Tree
  runner : σ
  events : List Event := []

/-- A step of a run. -/
abbrev Act (σ : Type) := EStateM Error (World σ)

namespace Act

variable {σ : Type} {α : Type}

def emit (e : Emission) : Act σ Unit := modify fun w => { w with events := w.events ++ [.own e] }

def log (level : Level) (message : String) : Act σ Unit := emit (.log level message)

def printLine (line : String) : Act σ Unit := emit (.output (Utf8.encode (line ++ "\n")))

/-- Carries out file calls on the tree; `wrap` says which error a refusal is. -/
def files (wrap : IoError → Error) (call : FileCall α) : Act σ α := fun w =>
  match call w.tree with
  | .ok a tree => .ok a { w with tree }
  | .error e tree => .error (wrap e) { w with tree }

end Act
end FirmwareTasks
