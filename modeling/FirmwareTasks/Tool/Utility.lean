import FirmwareTasks.Files.Subtree
import FirmwareTasks.Tool.System
/-!
The programs that belong to the system: those which scripts use to make, show and remove files.
Each is a file in the tree that holds the program's image.
-/
namespace FirmwareTasks

inductive Utility where
  | shell
  | cat
  | makeDir
  | removeDir
  | remove
  | touch
  | link
  | move
  | copy
  | sleep
  | fileName
  | dirName
  | env
  | echo
  | mode
  | succeed
  | fail
deriving DecidableEq, Repr

namespace Utility

def named : List (String × Utility) :=
  [("sh", shell), ("cat", cat), ("mkdir", makeDir), ("rmdir", removeDir), ("rm", remove),
    ("touch", touch), ("ln", link), ("mv", move), ("cp", copy), ("sleep", sleep),
    ("basename", fileName), ("dirname", dirName), ("env", env), ("echo", echo),
    ("chmod", mode), ("true", succeed), ("false", fail)]

def magic : Bytes := [127, 69, 76, 70]

def image (name : String) : Bytes := magic ++ Utf8.encode name

def ofImage? (content : Bytes) : Option Utility :=
  (named.find? fun u => image u.1 = content).map (·.2)

def install (dir : Place) (t : Tree) : Tree :=
  named.foldl (fun t u => t.insert (Utf8.encode u.1 :: dir) (.file (image u.1) true)) t

/-- How far a utility has come: what it works on, and its exit code so far. -/
structure Progress where
  system : System
  code : Nat := 0

/-- A step of a utility. -/
abbrev Step := StateM Progress

def say (job : Job) (d : Nat) (text : Bytes) : Step Unit :=
  modify fun p => { p with system := p.system.writeTo text job.ports d }

/-- Reports a fault; the utility goes on, but will not have succeeded. -/
def report (job : Job) (text : Bytes) : Step Unit := do
  say job 2 (job.args.headD [] ++ Utf8.encode ": " ++ text ++ [10])
  modify fun p => { p with code := 1 }

def causeText : IoError → Bytes
  | .os n => Utf8.encode (IoError.systemText n)
  | .other text => Utf8.encode text

/-- Carries out file calls; a refusal is reported after what could not be done. -/
def attempt (job : Job) (what : String) (path : Bytes) (c : Site → FileCall Unit) : Step Unit := do
  let p ← get
  let (r, system) := p.system.call (c (p.system.site job.cwd))
  set { p with system }
  match r with
  | .ok () => pure ()
  | .error e =>
    report job (Utf8.encode (what ++ " '") ++ path ++ Utf8.encode "': " ++ causeText e)

/-- The arguments with a dash in front, and the others. -/
def divideArgs (args : List Bytes) : List Bytes × List Bytes :=
  args.partition fun a => a.head? = some 45 ∧ a ≠ [45]

/-- Whether an option with one letter is among the options. -/
def hasOption (letter : Char) (options : List Bytes) : Bool :=
  options.any fun o => letter.toNat.toUInt8 ∈ o.tail

/-- The path of an entry that goes to `dst`, which may be a directory to put it into. -/
def landing (site : Site) (t : Tree) (src dst : Bytes) : Path :=
  match t.isDirAt site ⟨dst⟩, Path.fileName? ⟨src⟩ with
  | true, some name => (⟨dst⟩ : Path).join ⟨name⟩
  | _, _ => ⟨dst⟩

/-- Copies a file, or a directory if that was asked for. -/
def copyEntry (recursive : Bool) (site : Site) (src dst : Path) : FileCall Unit := do
  if recursive && (← get).isDirAt site src then Files.copyDir site Tree.pathLimit src dst
  else if (← get).isDirAt site src then throw .isDirectory
  else Files.copyFile site src dst

def transfer (job : Job) (args : List Bytes) (one : Site → Path → Path → FileCall Unit) :
    Step Unit := do
  match args.getLast?, args.dropLast with
  | some dst, src :: srcs =>
    for src in src :: srcs do
      attempt job "cannot stat" src fun site t => one site ⟨src⟩ (landing site t src dst) t
  | _, _ => report job (Utf8.encode "missing file operand")

def showFile (job : Job) (path : Bytes) : Step Unit := do
  let p ← get
  if path = [45] then
    match job.ports.stream? 0 with
    | some n =>
      let text := p.system.left n
      set { p with system := p.system.advance n text.length }
      say job 1 text
    | none => report job (Utf8.encode "-: Bad file descriptor")
  else
    match Tree.read (p.system.site job.cwd) ⟨path⟩ p.system.tree with
    | .ok content => say job 1 content
    | .error e => report job (path ++ Utf8.encode ": " ++ causeText e)

/-- Removes an entry; `recursive` allows for directories, `force` for paths that lead nowhere. -/
def removeOne (recursive force : Bool) (site : Site) (path : Path) : FileCall Unit := do
  match (← get).locate site path with
  | .error e => if force ∧ (e = .noEntry ∨ e = .notDirectory) then pure () else throw e
  | .ok p =>
    if (← get).at? p = some .dir then
      if recursive then Files.removeTree site path else throw .isDirectory
    else Files.unlink site path

def touchOne (site : Site) (path : Path) : FileCall Unit := do
  if (← get).existsAt site path then pure () else Files.writeFile site path []

/-- Whether a mode lets its owner execute a file, if the mode says so. -/
def executes? (mode : Bytes) : Option Bool :=
  match mode with
  | [owner, _, _] | [_, owner, _, _] =>
    if 48 ≤ owner ∧ owner ≤ 55 then some (owner % 2 = 1) else letters
  | _ => letters
where
  letters : Option Bool :=
    if 120 ∉ mode then none
    else if 43 ∈ mode ∨ 61 ∈ mode then some true
    else if 45 ∈ mode then some false
    else none

/-- Changes a file's mode, of which only the execution bit is kept. -/
def changeMode (mode : Bytes) (site : Site) (path : Path) : FileCall Unit := do
  match executes? mode with
  | some x => Files.setExecutable site path x
  | none =>
    let _ ← FileCall.ask (Tree.follow · site path)

/-- A file name without its directories and without an ending that is not all of it. -/
def baseName (path ending : Bytes) : Bytes :=
  match Path.fileName? ⟨path⟩ with
  | none => path
  | some name => if name = ending then name else (Bytes.stripSuffix? ending name).getD name

/-- Carries out a utility with its arguments. The shell and `env`, which start others, are not
among those. -/
def perform (job : Job) (u : Utility) : Step Unit := do
  let (options, args) := divideArgs job.args.tail
  let has (letter : Char) := hasOption letter options
  let each (what : String) (c : Site → Path → FileCall Unit) : Step Unit :=
    args.forM fun a => attempt job what a fun site => c site ⟨a⟩
  match u with
  | shell | env | sleep | succeed => pure ()
  | fail => modify fun p => { p with code := 1 }
  | cat => (if args.isEmpty then [[45]] else args).forM (showFile job)
  | makeDir => each "cannot create directory" (if has 'p' then Files.makeDirs else Files.makeDir)
  | removeDir => each "failed to remove" Files.removeDir
  | remove => each "cannot remove" (removeOne (has 'r' || has 'R') (has 'f'))
  | touch => each "cannot touch" touchOne
  | link =>
    match args with
    | [target, path] =>
      attempt job "failed to create symbolic link" path fun site t =>
        Files.makeLink site target (landing site t target path) t
    | _ => report job (Utf8.encode "missing file operand")
  | move => transfer job args Files.rename
  | copy => transfer job args (copyEntry (has 'r' || has 'R' || has 'a'))
  | echo =>
    match job.args.tail with
    | [45, 110] :: rest => say job 1 (Bytes.join 32 rest)
    | rest => say job 1 (Bytes.join 32 rest ++ [10])
  | mode =>
    match job.args.tail with
    | m :: paths =>
      paths.forM fun a => attempt job "cannot access" a fun site => changeMode m site ⟨a⟩
    | [] => report job (Utf8.encode "missing operand")
  | fileName => say job 1 (baseName (args.headD []) ((args.drop 1).headD []) ++ [10])
  | dirName =>
    let dir := ((Path.parent? ⟨args.headD []⟩).map (·.bytes)).getD (args.headD [])
    say job 1 ((if dir = [] then Path.dot else dir) ++ [10])

end Utility
end FirmwareTasks
