import FirmwareTasks.Environment
import FirmwareTasks.Files.Calls
import FirmwareTasks.Run.Event
/-!
What processes share: the file tree, what can be read, and where their writing goes.
-/
namespace FirmwareTasks

/-- Where a process's writing goes. -/
inductive Sink where
  | output
  | diagnostic
  | file (p : Place)
  /-- To the end of a stream. -/
  | pipe (n : Nat)
  | nowhere
deriving DecidableEq, Repr

/-- What a process reads from. -/
inductive Stream where
  /-- A text, of which this is left. -/
  | held (rest : Bytes)
  /-- A file, of which so many bytes have been read. -/
  | file (p : Place) (offset : Nat)
deriving DecidableEq, Repr

/-- What a descriptor is for. -/
inductive Port where
  | sink (s : Sink)
  /-- The stream of that number. -/
  | stream (n : Nat)
deriving DecidableEq, Repr

/-- What the descriptors of a process are for; those that are closed are not in the list. -/
abbrev Ports := List (Nat × Port)

/-- How a process ends. The system keeps eight bits of its exit code. -/
inductive Ending where
  | exited (code : UInt8)
  | killed (signal : Nat)
deriving DecidableEq, Repr

namespace Ports

/-- The descriptors of a process that reads the first stream and writes to the outside. -/
def standard : Ports := [(0, .stream 0), (1, .sink .output), (2, .sink .diagnostic)]

/-- Where writing to a descriptor goes, if it is open for that. -/
def sink? (ps : Ports) (d : Nat) : Option Sink :=
  match ps.lookup d with
  | some (.sink s) => some s
  | _ => none

/-- The stream that a descriptor reads from, if it is open for that. -/
def stream? (ps : Ports) (d : Nat) : Option Nat :=
  match ps.lookup d with
  | some (.stream n) => some n
  | _ => none

/-- The descriptors with another one in place of one, or without it. -/
def set (ps : Ports) (d : Nat) (port : Option Port) : Ports :=
  (port.map (d, ·)).toList ++ ps.filter (·.1 ≠ d)

end Ports

/-- A process that is to be started; the first argument is the name it is called by. -/
structure Job where
  args : List Bytes
  env : Environment
  cwd : Place
  ports : Ports := .standard

structure System where
  tree : Tree
  mounts : List Place := []
  [order : ListOrder]
  /-- What has been written to the outside. -/
  emissions : List Emission := []
  streams : List Stream := [.held []]

namespace Ending

/-- The number by which a shell knows how a process ended. -/
def status : Ending → Nat
  | exited code => code.toNat
  | killed signal => 128 + signal

/-- What a shell says about a process that was ended. -/
def notice? : Ending → Option String
  | exited _ | killed 2 | killed 13 => none
  | killed signal => some (signalText signal)
where
  signalText : Nat → String
    | 1 => "Hangup"
    | 3 => "Quit"
    | 4 => "Illegal instruction"
    | 5 => "Trace/breakpoint trap"
    | 6 => "Aborted"
    | 7 => "Bus error"
    | 8 => "Floating point exception"
    | 9 => "Killed"
    | 10 => "User defined signal 1"
    | 11 => "Segmentation fault"
    | 12 => "User defined signal 2"
    | 14 => "Alarm clock"
    | 15 => "Terminated"
    | 16 => "Stack fault"
    | 24 => "CPU time limit exceeded"
    | 25 => "File size limit exceeded"
    | 26 => "Virtual timer expired"
    | 27 => "Profiling timer expired"
    | 29 => "I/O possible"
    | 30 => "Power failure"
    | 31 => "Bad system call"
    | n => "Real-time signal " ++ toString (n - 34)

/-- The ending of a process that exits with a code. -/
def ofCode (code : Nat) : Ending := .exited code.toUInt8

end Ending

namespace System

def site (s : System) (cwd : Place) : Site := { cwd, mounts := s.mounts, order := s.order }

def write (s : System) (text : Bytes) : Sink → System
  | .output => if text = [] then s else { s with emissions := s.emissions ++ [.output text] }
  | .diagnostic =>
    if text = [] then s else { s with emissions := s.emissions ++ [.diagnostic text] }
  | .nowhere => s
  | .pipe n =>
    match s.streams[n]? with
    | some (.held rest) => { s with streams := s.streams.set n (.held (rest ++ text)) }
    | _ => s
  | .file p =>
    match s.tree.at? p with
    | some (.file content executable) =>
      { s with tree := s.tree.insert p (.file (content ++ text) executable) }
    | _ => s

/-- Writes to a descriptor, if it is open for that. -/
def writeTo (s : System) (text : Bytes) (ports : Ports) (d : Nat) : System :=
  match ports.sink? d with
  | some sink => s.write text sink
  | none => s

def left (s : System) (n : Nat) : Bytes :=
  match s.streams[n]? with
  | some (.held rest) => rest
  | some (.file p offset) =>
    match s.tree.at? p with
    | some (.file content _) => content.drop offset
    | _ => []
  | none => []

def advance (s : System) (n k : Nat) : System :=
  { s with streams := s.streams.modify n fun
      | .held rest => .held (rest.drop k)
      | .file p offset => .file p (offset + k) }

/-- The system with one more stream, and the number of that. -/
def addStream (s : System) (r : Stream) : Nat × System :=
  (s.streams.length, { s with streams := s.streams ++ [r] })

def call {α : Type} (s : System) (c : FileCall α) : Except IoError α × System :=
  match c s.tree with
  | .ok a tree => (.ok a, { s with tree })
  | .error e tree => (.error e, { s with tree })

end System
end FirmwareTasks
