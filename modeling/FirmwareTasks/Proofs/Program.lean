import FirmwareTasks.Program
import FirmwareTasks.Proofs.Files.Lookup
import FirmwareTasks.Proofs.Run.Calls
import FirmwareTasks.Proofs.Run.Log
/-!
What the exit status of the program tells. It is 0 when the tasks are only listed or have all
succeeded. Otherwise it is that of the tool over which the tasks have failed, or 1; a program that
cannot have its configuration does nothing but say so.
-/
namespace FirmwareTasks
open EStateM

variable {σ α : Type}

/-- How the process of a call has ended, or why there is none. -/
def Call.ending (system : Invocation → σ → Tree → Tool.Execution σ) (c : Call σ) :
    Except IoError Ending := (system c.inv c.memory c.tree).ending

namespace Tool
variable {system : Invocation → σ → Tree → Execution σ}

end Tool

namespace Program

/-- What the bytes of a configuration file come to. -/
inductive Means (path : Path) (bytes : Bytes) : Except Error Config → Prop
  | noText (h : Utf8.decode? bytes = none) :
      Means path bytes (.error (.configRead path (.other "stream did not contain valid UTF-8")))
  | text {text : String} (h : Utf8.decode? bytes = some text) :
      Means path bytes (Config.ofText text)

/-- Lines as they are written to the standard output. -/
def written (lines : List String) : List Event :=
  lines.map fun line => .own (.output (Utf8.encode (line ++ "\n")))

variable {start : Start σ} {root : Path} {chosen : Option Bytes}

variable {c : CommandLine}

/-- The world in which the tasks are run: the program has logged what it is to do. -/
def announced (start : Start σ) (c : CommandLine) (root : Path) (config : Config) (w : World σ) :
    World σ :=
  { w with events := w.events ++
      [.own (.log .info (banner config (start.context c root config).ci))] }

variable {system : Invocation → σ → Tree → Tool.Execution σ}

end Program
end FirmwareTasks
