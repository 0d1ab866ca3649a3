import FirmwareTasks.Shell.Session
/-!
The working directory of a shell, which goes by the name under which it was entered.
-/
namespace FirmwareTasks.Shell.Directory

open Step

/-- The names of a path, with those taken back that are left again. -/
def settle (names : List Bytes) : List Bytes :=
  names.foldl (fun taken n =>
    if n = [] ∨ n = Path.dot then taken
    else if n = Path.dotDot then taken.dropLast
    else taken ++ [n]) []

/-- The signs with which an absolute path begins: two slashes are not the same as one. -/
def root (path : Bytes) : Bytes :=
  match path with
  | 47 :: 47 :: 47 :: _ => [47]
  | 47 :: 47 :: _ => [47, 47]
  | _ => [47]

/-- The name of a directory that is entered from another one. -/
def named (dir path : Bytes) : Bytes :=
  if path.head? = some 47 then root path ++ Bytes.join 47 (settle (path.splitOn 47))
  else root dir ++ Bytes.join 47 (settle (dir.splitOn 47 ++ path.splitOn 47))

/-- Enters a directory, by name or by where it is. -/
def enter (physical : Bool) (path : Bytes) : Step Bool := do
  let s ← get
  let target := if physical then path else named s.dir path
  match s.system.tree.follow s.site ⟨target⟩ with
  | .error _ => return false
  | .ok p =>
    if s.system.tree.at? p ≠ some .dir then return false
    let dir := if physical then Session.pathText p else target
    let share (value : Bytes) (v : Variable) : Variable :=
      { v with value := some value, exported := true }
    alter (Utf8.encode "OLDPWD") (share s.dir)
    alter (Utf8.encode "PWD") (share dir)
    modify fun s => { s with cwd := p, dir }
    return true

/-- The directories in which a name is looked up, and whether to say which one it was. -/
def candidates (s : Session) (path : Bytes) : List (Bytes × Bool) :=
  let isLocal := path.head? = some 47 || [Path.dot, Path.dotDot].contains (path.takeWhile (· ≠ 47))
  match s.lookup "CDPATH" with
  | some dirs =>
    if isLocal then []
    else (dirs.splitOn 58).map fun d => if d = [] then (path, false) else (d ++ 47 :: path, true)
  | none => []

def change (args : List Bytes) : Step Nat := do
  let (options, args) ← options [76, 80] [] args
  let physical := (options.getLast?.map (·.1)) = some 80
  let s ← get
  let (path, shown) : Bytes × Bool := match args with
    | [] => ((s.lookup "HOME").getD [], false)
    | [45] :: _ => ((s.lookup "OLDPWD").getD [], true)
    | path :: _ => (path, false)
  let path := if path = [] then Path.dot else path
  let (target, found) := ((candidates s path).find? fun c =>
    s.system.tree.isDirAt s.site ⟨c.1⟩).getD (path, false)
  if ← enter physical target then
    if shown || found then say ((← get).dir ++ [10])
    return 0
  else refuse (Utf8.encode "can't cd to " ++ path)

def print (args : List Bytes) : Step Nat := do
  let (options, _) ← options [76, 80] [] args
  let s ← get
  let physical := (options.getLast?.map (·.1)) = some 80
  say ((if physical then Session.pathText s.cwd else s.dir) ++ [10])
  return 0

example : named (Utf8.encode "/a/b") (Utf8.encode "../c/./d/") = Utf8.encode "/a/c/d" := by
  decide +kernel

end FirmwareTasks.Shell.Directory
