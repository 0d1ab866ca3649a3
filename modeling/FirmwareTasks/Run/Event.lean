import FirmwareTasks.Invocation
/-!
What a run lets be seen from outside, in the order in which it happens.
-/
namespace FirmwareTasks

/-- The levels of log messages, most important first. -/
inductive Level where
  | error
  | warn
  | info
  | debug
  | trace
deriving DecidableEq, Repr

namespace Level

def name : Level → String
  | error => "ERROR"
  | warn => "WARN"
  | info => "INFO"
  | debug => "DEBUG"
  | trace => "TRACE"

def rank : Level → Nat
  | error => 1
  | warn => 2
  | info => 3
  | debug => 4
  | trace => 5

end Level

/-- Something that is written or logged. -/
inductive Emission where
  /-- Text for the standard output. -/
  | output (text : Bytes)
  /-- Text for the standard error output. -/
  | diagnostic (text : Bytes)
  | log (level : Level) (message : String)
deriving DecidableEq, Repr

namespace Emission

def outputs (emissions : List Emission) : Bytes :=
  emissions.flatMap fun
    | output text => text
    | _ => []

def logs (emissions : List Emission) : List (Level × String) :=
  emissions.filterMap fun
    | log level message => some (level, message)
    | _ => none

end Emission

inductive Event where
  /-- The program itself writes or logs something. -/
  | own (e : Emission)
  /-- A tool is handed to the runner; this is written or logged until it has ended. -/
  | launch (inv : Invocation) (meanwhile : List Emission)
deriving DecidableEq, Repr

namespace Event

def emissions (events : List Event) : List Emission :=
  events.flatMap fun
    | own e => [e]
    | launch _ meanwhile => meanwhile

def outputs (events : List Event) : Bytes := Emission.outputs (emissions events)

def launches (events : List Event) : List Invocation :=
  events.filterMap fun
    | launch inv _ => some inv
    | own _ => none

def logs (events : List Event) : List (Level × String) := Emission.logs (emissions events)

end Event
end FirmwareTasks
