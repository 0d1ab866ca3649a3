import FirmwareTasks.Shell.Token
import FirmwareTasks.Tool.System
/-!
What a shell knows while it runs a script, and how it comes to stop.
-/
namespace FirmwareTasks.Shell

def bytesOf (cs : List Char) : Bytes := cs.map fun c => c.toNat.toUInt8

def charsOf (s : Bytes) : List Char := s.map fun b => .ofNat b.toNat

/-- A variable; one that has no value can still have properties. -/
structure Variable where
  value : Option Bytes := none
  /-- Whether the programs that the shell starts get to know it. -/
  exported : Bool := false
  /-- Whether it keeps its value. -/
  fixed : Bool := false
deriving DecidableEq, Repr

/-- Variables by name, in the order in which they came. -/
abbrev Variables := List (Bytes × Variable)

/-- What is done at signals; zero stands for the end of the shell, and no text for nothing. -/
abbrev Traps := List (Nat × Bytes)

structure Session where
  system : System
  cwd : Place
  /-- The name by which the working directory was entered. -/
  dir : Bytes
  vars : Variables
  functions : List (Bytes × Command) := []
  /-- What variables were before functions or commands set them for themselves. -/
  frames : List (List (Bytes × Option Variable)) := []
  traps : Traps := []
  /-- In a copy of the shell, the traps of the shell itself. -/
  mainTraps : Option Traps := none
  /-- The signals whose traps are still to be run. -/
  caught : List Nat := []
  options : List String := []
  /-- The name of the script. -/
  zero : Bytes
  params : List Bytes
  /-- How the last command ended. -/
  status : Nat := 0
  /-- In a trap, how the command before it ended. -/
  before : Option Nat := none
  /-- How the last script ended whose output went into the words of the command at hand. -/
  inner : Nat := 0
  line : Nat := 0
  /-- The shell's own command that is being run. -/
  command : Bytes := []
  ports : Ports := .standard
  /-- The texts in the script that commands read. -/
  documents : List (Nat × Word) := []
  /-- How many loops are around the command at hand. -/
  loops : Nat := 0
  /-- Where `getopts` goes on: the number of the argument, and if the one before it has letters
  left, where these begin. -/
  optIndex : Nat × Nat := (1, 0)
  /-- Whether writing has failed. -/
  jammed : Bool := false
  /-- The rights that new files do not get. -/
  mask : Nat := 18
  /-- The commands that were put into the background, by the numbers of their processes, and how
  they ended; the latest first. -/
  jobs : List (Nat × Nat) := []

def integer? (s : Bytes) : Option Int :=
  let isBlank (b : UInt8) : Bool := b = 32 ∨ (9 ≤ b ∧ b ≤ 13)
  let isDigit (b : UInt8) : Bool := 48 ≤ b ∧ b ≤ 57
  let body := s.dropWhile isBlank
  let negative := body.head? = some 45
  let digits := if negative ∨ body.head? = some 43 then body.tail else body
  let n : Nat := (digits.takeWhile isDigit).foldl (fun n b => 10 * n + (b.toNat - 48)) 0
  let limit := if negative then 9223372036854775808 else 9223372036854775807
  if digits.head?.any isDigit && (digits.dropWhile isDigit).all isBlank && n ≤ limit then
    some (if negative then -n else n)
  else none

/-- A text in quotes, as a shell reads it: single ones, and double ones around those; `fuel` bounds
its length. -/
def quotedBy : Nat → Bytes → Bytes
  | 0, s => 39 :: s ++ [39]
  | fuel + 1, s =>
    let text := s.takeWhile (· ≠ 39)
    let quotes := (s.drop text.length).takeWhile (· = 39)
    let rest := s.drop (text.length + quotes.length)
    39 :: text ++ [39] ++
      (if quotes = [] then [] else 34 :: quotes ++ [34]) ++
      if rest = [] then [] else quotedBy fuel rest

def quoted (s : Bytes) : Bytes := quotedBy s.length s

/-- Why a shell does not go on with the next command. -/
inductive Stop where
  /-- The shell is to end. -/
  | exit (code : Nat)
  /-- A program has taken the shell's place. -/
  | replaced (e : Ending)
  /-- A signal has ended the shell. -/
  | struck (signal : Nat)
  /-- Something is wrong that ends the shell, unless a command of its own can fail instead. -/
  | fault
  /-- So many loops are to be left, or the last of them is to go on with its next turn. -/
  | leave (next : Bool) (loops : Nat)
  /-- The function or the script is to be left. -/
  | back
deriving DecidableEq, Repr

/-- A step of a shell. -/
abbrev Step := EStateM Stop Session

namespace Variables

/-- The variables with another one in place of one, or behind the others. -/
def set : Variables → Bytes → Variable → Variables
  | [], name, v => [(name, v)]
  | (k, u) :: vars, name, v => if k = name then (name, v) :: vars else (k, u) :: set vars name v

/-- How many groups there are into which variables are put by name. -/
def groupCount : Nat := 39

/-- The group of a variable: a sum over the bytes of its name, the first of which counts more. -/
def group (name : Bytes) : Nat :=
  name.foldl (fun sum b => sum + b.toNat) (16 * (name.headD 0).toNat) % groupCount

/-- The variables that started programs get to know, one group after another. -/
def handedOn (vars : Variables) : Environment :=
  (List.range groupCount).flatMap fun g => vars.filterMap fun (name, v) =>
    if v.exported && group name = g then v.value.map (name, ·) else none

end Variables

namespace Session

def pid : Nat := 2

/-- The values of variables that a shell has from the start. -/
def ownValues : List (String × String) :=
  [("IFS", " \t\n"), ("PATH", "/usr/local/sbin:/usr/local/bin:/usr/sbin:/usr/bin:/sbin:/bin"),
    ("PS2", "> "), ("PS4", "+ "), ("OPTIND", "1")]

def site (s : Session) : Site := s.system.site s.cwd

def lookup (s : Session) (name : String) : Option Bytes :=
  (s.vars.lookup (Utf8.encode name)).bind (·.value)

def pathText (p : Place) : Bytes := 47 :: Bytes.join 47 p.reverse

def start (job : Job) (system : System) (zero : Bytes) (params : List Bytes)
    (options : List String) : Session :=
  let own : Variables :=
    ownValues.map fun v => (Utf8.encode v.1, { value := some (Utf8.encode v.2) })
  let given := job.env.filter fun v => isName (charsOf v.1)
  let vars := given.foldl (fun vars v =>
    let value := if v.1 = Utf8.encode "IFS" then Utf8.encode " \t\n"
      else if v.1 = Utf8.encode "OPTIND" then Utf8.encode "1" else v.2
    Variables.set vars v.1 { value := some value, exported := true }) own
  let here := pathText job.cwd
  let dir := match job.env.lookup (Utf8.encode "PWD") with
    | some d =>
      if d.head? = some 47 ∧ (system.tree.follow (system.site job.cwd) ⟨d⟩).toOption = some job.cwd
      then d else here
    | none => here
  { system, cwd := job.cwd, dir, zero, params, options, ports := job.ports
    vars := Variables.set vars (Utf8.encode "PWD") { value := some dir, exported := true } }

end Session

namespace Step

def say (text : Bytes) : Step Unit := modify fun s =>
  match s.ports.sink? 1 with
  | some sink => { s with system := s.system.write text sink }
  | none => { s with jammed := s.jammed || text ≠ [] }

/-- Writes a line with the script's name and the number of its line in front. -/
def complain (text : Bytes) : Step Unit := modify fun s =>
  let of := if s.command = [] then [] else s.command ++ Utf8.encode ": "
  let line := s.zero ++ Utf8.encode (": " ++ toString s.line ++ ": ") ++ of ++ text ++ [10]
  { s with system := s.system.writeTo line s.ports 2 }

def refuse {α : Type} (text : Bytes) : Step α := do
  complain text
  modify fun s => { s with status := 2 }
  throw .fault

/-- The number that an argument is, which is not below zero and not too great. -/
def number (s : Bytes) : Step Nat :=
  match integer? s with
  | some n => if 0 ≤ n ∧ n ≤ 2147483647 then return n.toNat else refuse (illegal s)
  | none => refuse (illegal s)
where
  illegal (s : Bytes) : Bytes := Utf8.encode "Illegal number: " ++ s

/-- The options in front of arguments and the other arguments: one letter each, some with a value
of their own. -/
def takeOptions (plain valued : List UInt8) :
    Nat → List Bytes → Step (List (UInt8 × Bytes) × List Bytes)
  | 0, args => return ([], args)
  | fuel + 1, args => do
    match args with
    | (45 :: letter :: letters) :: rest =>
      if letter = 45 ∧ letters = [] then return ([], rest)
      let again (letters : Bytes) (rest : List Bytes) : List Bytes :=
        if letters = [] then rest else (45 :: letters) :: rest
      if plain.contains letter then
        let (os, args) ← takeOptions plain valued fuel (again letters rest)
        return ((letter, []) :: os, args)
      else if !valued.contains letter then refuse (Utf8.encode "Illegal option -" ++ [letter])
      else
        match letters, rest with
        | [], [] => refuse (Utf8.encode "No arg for -" ++ [letter] ++ Utf8.encode " option")
        | [], value :: rest =>
          let (os, args) ← takeOptions plain valued fuel rest
          return ((letter, value) :: os, args)
        | value, rest =>
          let (os, args) ← takeOptions plain valued fuel rest
          return ((letter, value) :: os, args)
    | args => return ([], args)

/-- The options in front of arguments, and the others. -/
def options (plain valued : List UInt8) (args : List Bytes) :
    Step (List (UInt8 × Bytes) × List Bytes) :=
  takeOptions plain valued (args.flatten.length + 1) args

def files {α : Type} (c : FileCall α) : Step (Except IoError α) := fun s =>
  let (r, system) := s.system.call c
  .ok r { s with system }

/-- Takes a step and then another one, even if the first one comes to a stop. -/
def always {α : Type} (a : Step α) (after : Step Unit) : Step α := fun s =>
  match a s with
  | .ok r t =>
    match after t with
    | .ok () u => .ok r u
    | .error e u => .error e u
  | .error e t =>
    match after t with
    | .ok () u => .error e u
    | .error e' u => .error e' u

/-- Changes a variable, unless it keeps its value. -/
def alter (name : Bytes) (change : Variable → Variable) : Step Unit := do
  let v := ((← get).vars.lookup name).getD {}
  if v.fixed then refuse (name ++ Utf8.encode ": is read only")
  let v := change v
  modify fun s =>
    { s with
      vars := s.vars.set name v
      optIndex := if name = Utf8.encode "OPTIND" then
        (((v.value.bind integer?).getD 1).toNat, 0) else s.optIndex }

def setVar (name value : Bytes) : Step Unit := do
  let all := (← get).options.contains "allexport"
  alter name fun v => { v with value := some value, exported := v.exported || all }

/-- Keeps what a variable is now for the function or command at hand. -/
def keep (name : Bytes) : Step Unit := modify fun s =>
  match s.frames with
  | frame :: frames =>
    if frame.any (·.1 = name) then s
    else { s with frames := ((name, s.vars.lookup name) :: frame) :: frames }
  | [] => s

/-- Takes a step for which variables can be set, and gives them back what they were. -/
def withFrame {α : Type} (a : Step α) : Step α := do
  modify fun s => { s with frames := [] :: s.frames }
  always a do
    modify fun s =>
      let vars := (s.frames.headD []).foldl (fun vars (name, v) =>
        match v with
        | some v => Variables.set vars name v
        | none => vars.filter (·.1 ≠ name)) s.vars
      { s with vars, frames := s.frames.tail }

/-- The ending to which a script comes, with what is done at the end of it. -/
def toEnding (script finish : Step Unit) : Step Ending := fun s =>
  let close (code : Nat) (t : Session) : EStateM.Result Stop Session Ending :=
    match finish { t with status := code, before := some code } with
    | .error (.exit code) t => .ok (.ofCode code) t
    | .error (.replaced e) t => .ok e t
    | .error (.struck n) t => .error (.struck n) t
    | .error .fault t => .ok (.exited 2) t
    | .ok () t | .error _ t => .ok (.ofCode code) t
  match script s with
  | .error (.exit code) t => close code t
  | .error (.replaced e) t => .ok e t
  | .error (.struck n) t => .error (.struck n) t
  | .error .fault t => close 2 t
  | .ok () t | .error _ t => close t.status t

/-- Carries out a script in a copy of the shell; only what happens to the system stays. A signal to
the shell ends the shell that was copied as well. -/
def inCopy (script finish : Step Unit) : Step Ending := fun s =>
  let copy := { s with
    traps := s.traps.filter (·.2.isEmpty)
    mainTraps := some (s.mainTraps.getD s.traps) }
  match toEnding script finish copy with
  | .ok e t => .ok e { s with system := t.system, caught := t.caught }
  | .error e t => .error e { s with system := t.system, caught := t.caught }

def capture (script finish : Step Unit) : Step (Bytes × Ending) := do
  let s ← get
  let (n, system) := s.system.addStream (.held [])
  set { s with system, ports := s.ports.set 1 (some (.sink (.pipe n))) }
  always (do
    let e ← inCopy script finish
    return ((← get).system.left n, e)) do
      modify fun t => { t with ports := s.ports }

end Step
end FirmwareTasks.Shell
