import FirmwareTasks.Task
/-!
The program's command line. Options and task names may come in any order; what an argument is for
is settled only when the next one of another kind comes or the line ends, so that of several faults
the earliest to be settled is reported.
-/
namespace FirmwareTasks

/-- What the command line asks for. -/
structure CommandLine where
  verbose : Nat := 0
  root? : Option Bytes := none
  config? : Option Bytes := none
  ci : Bool := false
  list : Bool := false
  tasks : List Task := []
deriving DecidableEq, Repr

namespace CommandLine

/-- Why a command line is not carried out: a fault in it, or a question that it asks. -/
inductive Stop where
  | unknownArgument
  | missingValue
  | notTask (name : Bytes)
  | notText
  | missingTask
  | repeated
  | needlessValue
  | help
  | version
deriving DecidableEq, Repr

/-- The project's directory, the current one if none is given. -/
def root (c : CommandLine) : Path := ⟨c.root?.getD Path.dot⟩

/-- The name and version of the program, as it shows them. -/
def versionLine : String := "fwtask 0.1.0"

def notTaskMessage (name : String) : String :=
  (Error.unknownTask name).message ++ " [available: " ++ Task.nameList ++ "]"

/-- The exit status of a program that stops so; only a question is no fault. -/
def Stop.status : Stop → Nat
  | help | version => 0
  | _ => 2

/-- The options that have a value. -/
inductive Valued where
  | root
  | config
deriving DecidableEq, Repr

/-- The options that have none. -/
inductive Flag where
  | verbose
  | ci
  | list
  | help
  | version
deriving DecidableEq, Repr

/-- What is not settled yet. -/
inductive Pending where
  | option (o : Valued) (value : Option Bytes)
  | tasks (names : List Bytes)
deriving DecidableEq, Repr

structure State where
  done : CommandLine := {}
  pending : Option Pending := none
  /-- After two dashes every argument is the name of a task. -/
  onlyTasks : Bool := false
deriving DecidableEq, Repr

def taskOf (name : Bytes) : Except Stop Task :=
  match Utf8.decode? name with
  | none => .error .notText
  | some text =>
    match Task.find? text with
    | some t => .ok t
    | none => .error (.notTask name)

/-- Gives an option its value, which may come only once and may not be empty. -/
def setOption (c : CommandLine) (o : Valued) (value : Bytes) : Except Stop CommandLine :=
  let old := match o with
    | .root => c.root?
    | .config => c.config?
  if old.isSome then .error .repeated
  else if value = [] then .error .missingValue
  else
    match o with
    | .root => .ok { c with root? := some value }
    | .config => .ok { c with config? := some value }

def State.settle (s : State) : Except Stop State :=
  match s.pending with
  | none => .ok s
  | some (.option _ none) => .error .missingValue
  | some (.option o (some value)) => do
    return { s with done := ← setOption s.done o value, pending := none }
  | some (.tasks names) => do
    let ts ← names.mapM taskOf
    return { s with done := { s.done with tasks := s.done.tasks ++ ts }, pending := none }

/-- The greatest number of verbosity flags that is told apart. -/
def verboseLimit : Nat := 255

def State.flag (s : State) (f : Flag) : Except Stop State := do
  let s ← s.settle
  match f with
  | .verbose =>
    let verbose := min verboseLimit (s.done.verbose + 1)
    return { s with done := { s.done with verbose } }
  | .ci =>
    if s.done.ci then .error .repeated
    else return { s with done := { s.done with ci := true } }
  | .list =>
    if s.done.list then .error .repeated else return { s with done := { s.done with list := true } }
  | .help => .error .help
  | .version => .error .version

/-- An option, with its value if that is in the same argument. -/
def State.option (s : State) (o : Valued) (value : Option Bytes) : Except Stop State := do
  let s ← s.settle
  match value with
  | none => return { s with pending := some (.option o none) }
  | some value => return { s with done := ← setOption s.done o value }

def State.task (s : State) (name : Bytes) : Except Stop State :=
  match s.pending with
  | some (.tasks names) => .ok { s with pending := some (.tasks (names ++ [name])) }
  | _ => do
    let s ← s.settle
    return { s with pending := some (.tasks [name]) }

def dash : UInt8 := 45
def equals : UInt8 := 61

def longName (name : Bytes) : Option (Flag ⊕ Valued) :=
  [("verbose", .inl .verbose), ("ci", .inl .ci), ("list", .inl .list), ("help", .inl .help),
    ("version", .inl .version), ("root", .inr .root), ("config", .inr .config)].findSome?
    fun (n, meaning) => if name = Utf8.encode n then some meaning else none

def shortName (letter : UInt8) : Option (Flag ⊕ Valued) :=
  [("v", .inl .verbose), ("l", .inl .list), ("h", .inl .help), ("V", .inl .version),
    ("C", .inr .root)].findSome?
    fun (n, meaning) => if [letter] = Utf8.encode n then some meaning else none

/-- An argument that began with two dashes: a name, and a value after a sign of equality. -/
def State.long (s : State) (arg : Bytes) : Except Stop State :=
  let name := arg.takeWhile (· ≠ equals)
  let value := (arg.dropWhile (· ≠ equals)).tail?
  match longName name with
  | none => .error .unknownArgument
  | some (.inr o) => s.option o value
  | some (.inl f) => if value.isSome then .error .needlessValue else s.flag f

/-- An argument that began with one dash: letters, of which the first with a value takes the rest
of the argument. -/
def State.cluster (s : State) : Bytes → Except Stop State
  | [] => .ok s
  | letter :: rest =>
    match shortName letter with
    | none => .error .unknownArgument
    | some (.inl f) => do (← s.flag f).cluster rest
    | some (.inr o) =>
      match rest with
      | [] => s.option o none
      | b :: value => s.option o (some (if b = equals then value else rest))

def State.step (s : State) (arg : Bytes) : Except Stop State :=
  if s.onlyTasks then s.task arg
  else
    match arg with
    | a :: b :: rest =>
      if a = dash ∧ b = dash then
        if rest = [] then .ok { s with onlyTasks := true } else s.long rest
      else if a = dash then s.cluster (b :: rest)
      else plain s arg
    | arg => plain s arg
where
  /-- A value that is waited for, or else the name of a task. -/
  plain (s : State) (arg : Bytes) : Except Stop State :=
    match s.pending with
    | some (.option o none) => .ok { s with pending := some (.option o (some arg)) }
    | _ => s.task arg

/-- What the arguments after the program's name ask for. Without a task only a list can be asked
for. -/
def parse (args : List Bytes) : Except Stop CommandLine := do
  let s ← args.foldlM State.step {}
  let c := (← s.settle).done
  if c.tasks = [] ∧ !c.list then .error .missingTask else return c

example : (parse (["-vC", "x", "all", "--", "clean"].map Utf8.encode)).toOption =
    some { verbose := 1, root? := some (Utf8.encode "x"), tasks := [.all, .clean] } := by
  decide +kernel

end CommandLine
end FirmwareTasks
