import FirmwareTasks.Shell.Builtin.Directory
import FirmwareTasks.Shell.Builtin.Naming
import FirmwareTasks.Shell.Builtin.Setting
import FirmwareTasks.Shell.Builtin.Signal
import FirmwareTasks.Shell.Condition
import FirmwareTasks.Shell.Format
/-!
The commands that a shell carries out itself and that run no other commands. Each gives the status
with which it ends.
-/
namespace FirmwareTasks.Shell.Builtin

open Step

def statusOf (b : Bool) : Nat := if b then 0 else 1

/-- The command `exit`: in a trap, the status from before the trap goes on. -/
def exit (args : List Bytes) : Step Nat := do
  match args with
  | [] =>
    let s ← get
    throw (.exit (s.before.getD s.status))
  | arg :: _ => throw (.exit (← number arg))

def leave (args : List Bytes) : Step Nat := do
  let status ← match args with
    | [] => pure (← get).status
    | arg :: _ => number arg
  modify fun s => { s with status }
  throw .back

def leaveLoops (next : Bool) (args : List Bytes) : Step Nat := do
  let n ← match args with
    | [] => pure 1
    | arg :: _ =>
      let n ← number arg
      if n = 0 then refuse (Utf8.encode "Illegal number: " ++ arg)
      pure n
  let loops := min n (← get).loops
  if loops = 0 then return 0
  modify fun s => { s with status := 0 }
  throw (.leave next loops)

def test (args : List Bytes) : Step Nat := do
  match Condition.evaluate (← get) args with
  | .ok b => return statusOf b
  | .error e => refuse e

def print (args : List Bytes) : Step Nat := do
  let (_, args) ← options [] [] args
  match args with
  | [] => refuse (Utf8.encode "usage: printf format [arg ...]")
  | format :: args =>
    let o := Format.fill format args
    for c in o.complaints do complain c
    match o.fault with
    | some e =>
      complain e
      say o.text
      modify fun s => { s with status := 2 }
      throw .fault
    | none =>
      say o.text
      return statusOf o.complaints.isEmpty

def umask (args : List Bytes) : Step Nat := do
  let (options, args) ← options [83] [] args
  match args with
  | [] =>
    let mask := (← get).mask
    let rights (n : Nat) : String :=
      (if n / 4 % 2 = 0 then "r" else "") ++ (if n / 2 % 2 = 0 then "w" else "") ++
        (if n % 2 = 0 then "x" else "")
    let digits := Nat.toDigits 8 mask
    if options.isEmpty then
      say (Utf8.encode (.ofList (.replicate (4 - digits.length) '0' ++ digits ++ ['\n'])))
    else
      say (Utf8.encode ("u=" ++ rights (mask / 64) ++ ",g=" ++ rights (mask / 8) ++ ",o=" ++
        rights mask ++ "\n"))
    return 0
  | arg :: _ =>
    if !arg.head?.any (fun b => 48 ≤ b ∧ b ≤ 57) then
      if [117, 103, 111, 97, 43, 45, 61].contains (arg.headD 0) then return 0
      else refuse (Utf8.encode "Illegal mode: " ++ arg)
    else if arg.all Escape.isOctal then
      let mask := arg.foldl (fun n b => 8 * n + (b.toNat - 48)) 0 % 512
      modify fun s => { s with mask }
      return 0
    else refuse (Utf8.encode "Illegal number: " ++ arg)

/-- The command `wait`: nothing goes on in the background. -/
def wait (args : List Bytes) : Step Nat := do
  let (_, args) ← options [] [] args
  let mut status := 0
  for arg in args do
    let jobs := (← get).jobs
    status := (jobs.lookup (← number arg)).getD 127
  return status

def ofName? (name : Bytes) : Option (List Bytes → Step Nat) :=
  match Utf8.lossy name with
  | ":" | "true" | "alias" | "unalias" | "hash" | "jobs" | "times" | "ulimit" =>
    some fun _ => return 0
  | "false" => some fun _ => return 1
  | "echo" => some fun args => do
    say (Escape.echo args)
    return 0
  | "printf" => some print
  | "exit" => some exit
  | "return" => some leave
  | "break" => some (leaveLoops false)
  | "continue" => some (leaveLoops true)
  | "kill" => some Signal.kill
  | "trap" => some Signal.trap
  | "cd" | "chdir" => some Directory.change
  | "pwd" => some Directory.print
  | "test" => some test
  | "[" => some fun args =>
    if args.getLast?.any (·.head? = some 93) then test args.dropLast
    else refuse (Utf8.encode "missing ]")
  | "export" => some (Setting.declare "export" (·.exported) fun v => { v with exported := true })
  | "readonly" => some (Setting.declare "readonly" (·.fixed) fun v => { v with fixed := true })
  | "local" => some Setting.declareLocal
  | "unset" => some Setting.unset
  | "set" => some Setting.set
  | "shift" => some Setting.shift
  | "read" => some Setting.read
  | "getopts" => some Setting.getOption
  | "type" => some Naming.type
  | "umask" => some umask
  | "wait" => some wait
  | "bg" | "fg" => some fun _ => refuse (Utf8.encode "No current job")
  | _ => none

end FirmwareTasks.Shell.Builtin
