import FirmwareTasks.Shell.Session
/-!
Signals: what they are called, what a shell does when it gets one, and how it sends them.
-/
namespace FirmwareTasks.Shell.Signal

open Step

/-- The signals by number; zero stands for the end of a shell. -/
def names : List String :=
  ["EXIT", "HUP", "INT", "QUIT", "ILL", "TRAP", "ABRT", "BUS", "FPE", "KILL", "USR1", "SEGV",
    "USR2", "PIPE", "ALRM", "TERM", "16", "CHLD", "CONT", "STOP", "TSTP", "TTIN", "TTOU", "URG",
    "XCPU", "XFSZ", "VTALRM", "PROF", "WINCH", "IO", "PWR", "SYS", "32", "33", "RTMIN"] ++
  (List.range 15).map (fun n => "RTMIN+" ++ toString (n + 1)) ++
  (List.range 14).map (fun n => "RTMAX-" ++ toString (14 - n)) ++ ["RTMAX"]

def digits? (s : Bytes) : Option Nat :=
  if s ≠ [] ∧ s.all (fun b => 48 ≤ b ∧ b ≤ 57) then
    some (s.foldl (fun n b => 10 * n + (b.toNat - 48)) 0)
  else none

/-- The signal that a text stands for; those below `least` have no name. -/
def ofText? (least : Nat) (s : Bytes) : Option Nat :=
  match digits? s with
  | some n => if n < names.length then some n else none
  | none =>
    let lower := Bytes.lowerAscii s
    (names.zipIdx.find? fun (name, n) =>
      least ≤ n && Bytes.lowerAscii (Utf8.encode name) = lower).map (·.2)

/-- The signals that nobody hears who does not listen. -/
def unheard : List Nat := [17, 18, 19, 20, 21, 22, 23, 28]

def deliver (n : Nat) : Step Unit := do
  let s ← get
  if n = 0 then return ()
  match if n = 9 then none else (s.mainTraps.getD s.traps).lookup n with
  | some [] => pure ()
  | some _ => set { s with caught := s.caught ++ [n] }
  | none => if unheard.contains n then pure () else throw (.struck n)

def usage : String :=
  "Usage: kill [-s sigspec | -signum | -sigspec] [pid | job]... or\nkill -l [exitstatus]"

/-- Sends a signal to processes, of which there are the shell and those that have ended. -/
def send (n : Nat) : List Bytes → Nat → Step Nat
  | [], status => return status
  | target :: targets, status => do
    let (isGroup, digits) := match target with
      | 45 :: digits => (true, digits)
      | digits => (false, digits)
    let p ← number digits
    if !isGroup && p = Session.pid then
      deliver n
      send n targets status
    else if !isGroup && (← get).jobs.any (·.1 = p) then send n targets status
    else
      complain (Utf8.encode "No such process\n")
      send n targets 1

def list : List Bytes → Step Nat
  | [] => do
    say (Utf8.encode (String.join (("0" :: names.drop 1).map (· ++ "\n"))))
    return 0
  | arg :: _ => do
    let n ← number arg
    let n := if 128 < n then n - 128 else n
    if 0 < n ∧ n < names.length then
      say (Utf8.encode (names.getD n "" ++ "\n"))
      return 0
    else refuse (Utf8.encode "invalid signal number or exit status: " ++ arg)

def kill (args : List Bytes) : Step Nat := do
  let direct : Option Nat := match args with
    | (45 :: name) :: _ => ofText? 1 name
    | _ => none
  let (options, targets) ←
    match direct with
    | some _ => pure ([], args.drop 1)
    | none => options [108] [115] args
  let asked ← options.foldlM (fun (n : Option Nat) (o : UInt8 × Bytes) => do
    if o.1 ≠ 115 then return n
    match ofText? 1 o.2 with
    | some n => return some n
    | none => refuse (Utf8.encode "invalid signal number or name: " ++ o.2)) direct
  let isList := options.any (·.1 = 108)
  if isList && asked.isNone then list targets
  else if isList || targets.isEmpty then refuse (Utf8.encode usage)
  else send (asked.getD 15) targets 0

def trap (args : List Bytes) : Step Nat := do
  let (_, args) ← options [] [] args
  match args with
  | [] =>
    let traps := (← get).traps
    for (name, n) in names.zipIdx do
      if let some text := traps.lookup n then
        say (Utf8.encode "trap -- " ++ quoted text ++ Utf8.encode (" " ++ name ++ "\n"))
    return 0
  | arg :: rest =>
    let isAction := !rest.isEmpty && !(digits? arg).any (· < names.length)
    if isAction then put (if arg = [45] then none else some arg) rest else put none args
where
  put (text : Option Bytes) : List Bytes → Step Nat
    | [] => return 0
    | signal :: signals => do
      match ofText? 0 signal with
      | none =>
        let line := Utf8.encode "trap: " ++ signal ++ Utf8.encode ": bad trap\n"
        modify fun s => { s with system := s.system.writeTo line s.ports 2 }
        return 1
      | some n =>
        modify fun s =>
          { s with traps := (text.map (n, ·)).toList ++ s.traps.filter (·.1 ≠ n) }
        put text signals

end FirmwareTasks.Shell.Signal
