import FirmwareTasks.Tool.Utility
import FirmwareTasks.SearchPath
import FirmwareTasks.Shell.Eval
/-!
Starting programs: how a name is looked up in a search path, what a file is as a program, and what
it does when it is run. A file that begins with the signs `#!` names the program that reads it.
-/
namespace FirmwareTasks.Tool

/-- What a file is as a program. -/
inductive Program where
  | utility (u : Utility)
  /-- A text that another program reads. -/
  | script (reader : Bytes) (option : Option Bytes)
deriving DecidableEq, Repr

def isGap (b : UInt8) : Bool := b = 32 ∨ b = 9

def Program.ofContent? (content : Bytes) : Option Program :=
  match content with
  | 35 :: 33 :: rest =>
    let line := ((rest.takeWhile (· ≠ 10)).dropWhile isGap).reverse.dropWhile isGap |>.reverse
    let reader := line.takeWhile fun b => !isGap b
    let option := (line.drop reader.length).dropWhile isGap
    if reader = [] then none else some (.script reader (if option = [] then none else some option))
  | content => (Utility.ofImage? content).map .utility

/-- How many files are opened for a program at most: it and its readers. -/
def readerLimit : Nat := 6

/-- The utility that runs when a file is executed, and its arguments. -/
def load (t : Tree) (site : Site) : Nat → Bytes → List Bytes →
    Except IoError (Utility × List Bytes)
  | 0, _, _ => .error .tooManyLinks
  | n + 1, path, args => do
    let p ← t.follow site ⟨path⟩
    match t.at? p with
    | some (.file content true) =>
      match Program.ofContent? content with
      | none => .error .notExecutableFormat
      | some (.utility u) => .ok (u, args)
      | some (.script reader option) =>
        load t site n reader (reader :: option.toList ++ path :: args.tail)
    | _ => .error .accessDenied

/-- The search path if there is none in the environment. -/
def searchFallback : Bytes := Utf8.encode "/bin:/usr/bin"

/-- Tries one directory after another. A file that may not be executed is remembered while the
search goes on; every other refusal but a missing file ends it. -/
def tryDirs (attempt : Bytes → Except IoError α) (name : Bytes) :
    IoError → List Bytes → Except IoError α
  | last, [] => .error last
  | last, dir :: dirs =>
    match attempt (if dir = [] then name else dir ++ 47 :: name) with
    | .ok a => .ok a
    | .error e =>
      if e = .accessDenied then tryDirs attempt name .accessDenied dirs
      else if e = .noEntry ∨ e = .notDirectory then
        tryDirs attempt name (if last = .accessDenied then last else e) dirs
      else .error e

/-- Looks a program up: a name without slashes in the search path. -/
def search (attempt : Bytes → Except IoError α) (searchPath : Option Bytes) (name : Bytes) :
    Except IoError α :=
  if name = [] then .error .noEntry
  else if 47 ∈ name then attempt name
  else tryDirs attempt name .noEntry (SearchPath.split (searchPath.getD searchFallback))

/-- Runs the program of a file; one that is no program by itself is read by the shell. -/
def lenient (execute : Shell.Executor) : Shell.Executor := fun path job s =>
  match execute path job s with
  | .error .notExecutableFormat =>
    let args := Shell.shellPath :: path :: job.args.tail
    execute Shell.shellPath { job with args } s
  | r => r

open Shell Shell.Step in
/-- What a shell does that is started with arguments. -/
def shellScript (execute : Shell.Executor) (p : Options.Parsed) : Shell.Step Unit := do
  let fuel := stepLimit
  let fromStream (n : Nat) : Shell.Step Unit := do
    let s ← get
    let text := s.system.left n
    set { s with system := s.system.advance n text.length }
    runLines execute fuel {} true { rest := charsOf (text.filter (· ≠ 0)) }
  let fromInput : Shell.Step Unit := do
    match (← get).ports.stream? 0 with
    | some n => fromStream n
    | none => pure ()
  say p.shown
  match p.hasText, p.rest with
  | true, [] => refuse (Utf8.encode "-c requires an argument")
  | true, text :: rest =>
    modify fun s => { s with zero := rest.headD s.zero, params := rest.tail }
    let isLast := !p.options.contains "stdin"
    let _ ← runText execute fuel { final := isLast } (charsOf text)
    if !isLast then fromInput
  | false, rest =>
    if rest.isEmpty || p.options.contains "stdin" then
      modify fun s => { s with params := rest, options := Options.switch s.options "stdin" true }
      fromInput
    else
      let s ← get
      let path := rest.headD []
      match Tree.read s.site ⟨path⟩ s.system.tree with
      | .ok text =>
        set { s with zero := path, params := rest.tail }
        runLines execute fuel {} true { rest := charsOf (text.filter (· ≠ 0)) }
      | .error .isDirectory => pure ()
      | .error e =>
        let _ ← Opening.complainOf false path e
        throw (.exit 2)

def runShell (execute : Shell.Executor) (job : Job) (s : System) : Ending × System :=
  let name := job.args.headD []
  let args := job.args.tail
  let (script, options) : Shell.Step Unit × List String :=
    match Shell.Options.take true args.length { options := [], rest := args } with
    | .ok p => (shellScript execute p, p.options)
    | .error e => (Shell.Step.refuse e, [])
  let session := Shell.Session.start job s name [] options
  match Shell.Step.toEnding script (Shell.atEnd execute Shell.stepLimit) session with
  | .ok e t => (e, t.system)
  | .error (.struck n) t => (.killed n, t.system)
  | .error _ t => (.exited 2, t.system)

/-- The variables that `env` shows or hands on, and the program it starts. -/
def divideEnv : Environment → List Bytes → Environment × List Bytes
  | env, [] => (env, [])
  | env, a :: args =>
    match a, Shell.Setting.divide a with
    | _, (name, some value) => divideEnv (env.set name value) args
    | _, (_, none) => (env, a :: args)

def divideEnvOptions : Environment → List Bytes → Environment × List Bytes
  | env, [] => (env, [])
  | env, a :: args =>
    if a = [45] ∨ a = Utf8.encode "-i" then divideEnvOptions [] args
    else if a = Utf8.encode "--" then divideEnv env args
    else match a, args with
      | [45, 117], name :: args => divideEnvOptions (env.filter (·.1 ≠ name)) args
      | a, args => divideEnv env (a :: args)

/-- Runs the program of a file to its end; `depth` bounds how many can wait for another. -/
def execute : Nat → Shell.Executor
  | 0, _, _, _ => .error (.os 11)
  | depth + 1, path, job, s => do
    let (u, args) ← load s.tree (s.site job.cwd) readerLimit path job.args
    let job := { job with args }
    match u with
    | .shell => return runShell (execute depth) job s
    | .env =>
      let (env, rest) := divideEnvOptions job.env args.tail
      match rest with
      | [] =>
        let lines := env.flatMap fun (n, v) => n ++ 61 :: v ++ [10]
        return (.exited 0, s.writeTo lines job.ports 1)
      | name :: _ =>
        let attempt (path : Bytes) := lenient (execute depth) path { job with args := rest, env } s
        match search attempt (env.lookup (Utf8.encode "PATH")) name with
        | .ok r => return r
        | .error e =>
          let text := args.headD [] ++ Utf8.encode ": '" ++ name ++ Utf8.encode "': " ++
            Utility.causeText e ++ [10]
          return (.exited (if e = .noEntry then 127 else 126), s.writeTo text job.ports 2)
    | u =>
      let ((), p) := (u.perform job).run { system := s }
      return (.ofCode p.code, p.system)

/-- How many programs can wait for another to end. -/
def depthLimit : Nat := 100

end FirmwareTasks.Tool
