import FirmwareTasks.SearchPath
import FirmwareTasks.Shell.Session
/-!
What a name means as a command: a word of the shell's grammar, a function, a command of the shell's
own, or a program in the search path.
-/
namespace FirmwareTasks.Shell.Naming

open Step

/-- The commands of the shell's own that are not special. -/
def ordinaryNames : List String :=
  ["[", "alias", "bg", "cd", "chdir", "command", "echo", "false", "fg", "getopts", "hash", "jobs",
    "kill", "printf", "pwd", "read", "test", "true", "type", "ulimit", "umask", "unalias", "wait"]

/-- The search path that finds all programs of the system. -/
def systemPath : Bytes := Utf8.encode "/usr/sbin:/usr/bin:/sbin:/bin"

/-- Looks a program up. What cannot be reached is remembered while the search goes on, and so is
what cannot be run. -/
def find (s : Session) (name : Bytes) : IoError → List Bytes → Except IoError Bytes
  | last, [] => .error last
  | last, dir :: dirs =>
    let path := if dir = [] then name else dir ++ 47 :: name
    let t := s.system.tree
    match t.follow s.site ⟨path⟩ with
    | .ok p =>
      match t.at? p with
      | some (.file _ true) => .ok path
      | _ => find s name .accessDenied dirs
    | .error e =>
      find s name (if e = .noEntry ∨ e = .notDirectory then last else e) dirs

def findIn (s : Session) (searchPath name : Bytes) : Except IoError Bytes :=
  find s name .noEntry (SearchPath.split searchPath)

/-- Says what a name means, or only that it means something. -/
def describe (verbose : Bool) (searchPath : Option Bytes) (name : Bytes) : Step Nat := do
  let s ← get
  let text := Utf8.lossy name
  let line (meaning : String) : Step Nat := do
    say (name ++ (if verbose then Utf8.encode meaning else []) ++ [10])
    return 0
  let missing : Step Nat := do
    if verbose then say (name ++ Utf8.encode ": not found\n")
    return 127
  let program (path : Bytes) : Step Nat := do
    say ((if verbose then name ++ Utf8.encode " is " else []) ++ path ++ [10])
    return 0
  if keywords.contains text then line " is a shell keyword"
  else if s.functions.any (·.1 = name) then line " is a shell function"
  else if specialNames.contains text then line " is a special shell builtin"
  else if ordinaryNames.contains text then line " is a shell builtin"
  else if name.contains 47 then
    if s.system.tree.existsAt s.site ⟨name⟩ then program name else missing
  else match findIn s (searchPath.getD ((s.lookup "PATH").getD [])) name with
    | .ok path => program path
    | .error _ => missing

def type (args : List Bytes) : Step Nat := do
  let mut status := 0
  for name in args do
    status := status ||| (← describe true none name)
  return status

/-- The command `command`, if it is to say what a name means. -/
def ask (args : List Bytes) : Step Nat := do
  let (options, names) ← options [112, 118, 86] [] args
  let has (letter : UInt8) : Bool := options.any (·.1 = letter)
  match names with
  | name :: _ =>
    if has 118 || has 86 then describe (has 86) (if has 112 then some systemPath else none) name
    else return 0
  | [] => return 0

end FirmwareTasks.Shell.Naming
