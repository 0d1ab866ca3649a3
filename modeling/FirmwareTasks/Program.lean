import FirmwareTasks.CommandLine
import FirmwareTasks.Config.Load
import FirmwareTasks.Tool.Runner
import FirmwareTasks.Run.Tasks
import FirmwareTasks.Task.Listing
import FirmwareTasks.Text.Terminal
/-!
The program as a whole: from its arguments, variables and files to its exit status and to what it
writes.
-/
namespace FirmwareTasks

namespace Level

/-- The least important level that is shown: by the name in a variable, or else by how often the
command line asked for more. Nothing is shown for `off` and for a name that is none. -/
def shown (named : Option Bytes) (verbose : Nat) : Option Level :=
  match named with
  | some name =>
    match Utf8.lossy name.lowerAscii with
    | "" | "error" => some .error
    | "warn" => some .warn
    | "info" => some .info
    | "debug" => some .debug
    | "trace" => some .trace
    | _ => none
  | none => some (match verbose with | 0 => .info | 1 => .debug | _ => .trace)

end Level

namespace Event

/-- A log message as it is written: further lines are indented, and a terminal gets no orders. -/
def logText (level : Level) (message : String) : String :=
  Terminal.plain (level.name ++ " " ++ "\n    ".intercalate (message.splitOn "\n") ++ "\n")

/-- What is written to the standard error output if messages up to a level are shown. -/
def errors (shown : Option Level) (events : List Event) : Bytes :=
  (emissions events).flatMap fun
    | .diagnostic text => text
    | .log level message =>
      if shown.any (level.rank ≤ ·.rank) then Utf8.encode (logText level message) else []
    | _ => []

end Event

namespace Program

/-- The file that is looked for in the project's directory. -/
def configName : String := "fwtask.toml"

/-- What is said about a run before its first task. -/
def banner (c : Config) (ci : Bool) : String :=
  "Project " ++ c.project.name ++ if ci then " (CI mode)" else ""

/-- What the program is started with. -/
structure Start (σ : Type) where
  env : Environment
  site : Site
  tree : Tree
  runner : Runner σ
  memory : σ

def Start.world {σ : Type} (start : Start σ) : World σ :=
  { tree := start.tree, runner := start.memory }

def Start.context {σ : Type} (start : Start σ) (c : CommandLine) (root : Path) (config : Config) :
    Context σ where
  config
  root
  ci := c.ci || config.onCiHost start.env
  inherited := start.env.get? (Utf8.encode "PATH")
  site := start.site
  runner := start.runner

/-- What a program leaves behind. -/
structure Finish (σ : Type) where
  status : Nat
  shown : Option Level
  world : World σ

namespace Finish

variable {σ : Type}

def output (f : Finish σ) : Bytes := Event.outputs f.world.events

/-- What was written to the standard error output. -/
def errors (f : Finish σ) : Bytes := Event.errors f.shown f.world.events

end Finish

variable {σ : Type}

/-- The configuration: from the file that was asked for, else from the one in the project's
directory if there is one, else the one that is built in. -/
def loadConfig (site : Site) (root : Path) (chosen : Option Bytes) : Act σ Config := do
  let t := (← get).tree
  let own := root.join (.ofString configName)
  match chosen with
  | some file => fromFile t ⟨file⟩
  | none =>
    if t.isFileAt site own then fromFile t own
    else do
      Act.log .debug ("No " ++ configName ++ " found, using built-in tool table")
      return .builtIn
where
  fromFile (t : Tree) (path : Path) : Act σ Config := do
    let c ← ofExcept (Config.load site t path)
    Act.log .debug ("Loaded config from " ++ path.text)
    return c

def placePath (p : Place) : Path := ⟨Path.slash :: Bytes.join Path.slash p.reverse⟩

/-- The project's directory, seen from the directory that the program is started in, if this is
still there. -/
def projectRoot (start : Start σ) (root : Path) : Except IoError Path :=
  if start.tree.at? start.site.cwd = some .dir then .ok ((placePath start.site.cwd).join root)
  else .error .noEntry

/-- Why the program stops before its first task, as it is written. -/
def complaint (text : String) : Emission := .diagnostic (Utf8.encode (text ++ "\n"))

/-- Carries out a command line in the project's directory. -/
def carryOutIn (start : Start σ) (c : CommandLine) (root : Path) : Act σ Int := do
  match ← observing (loadConfig start.site root c.config?) with
  | .error e =>
    Act.emit (complaint ("Failed to load config: " ++ e.message))
    return 1
  | .ok config =>
    let ctx := start.context c root config
    Act.log .info (banner config ctx.ci)
    match ← observing (ctx.runTasks c.tasks) with
    | .ok () => return 0
    | .error e =>
      Act.log .error e.message
      return e.exitCode

/-- Carries out a command line; the result is the exit code. -/
def carryOut (start : Start σ) (c : CommandLine) : Act σ Int := do
  if c.list then
    Task.listing.forM Act.printLine
    return 0
  match projectRoot start c.root with
  | .error cause =>
    Act.emit (complaint
      ("Failed to resolve project root " ++ c.root.text ++ ": " ++ cause.message))
    return 1
  | .ok root => carryOutIn start c root

/-- The exit code, of which the system keeps eight bits. -/
def statusOf (code : Int) : Nat := (code % 256).toNat

/-- Runs a command line in the world that the program is started in. -/
def run (start : Start σ) (c : CommandLine) : Finish σ :=
  let shown := Level.shown (start.env.get? (Utf8.encode "RUST_LOG")) c.verbose
  match carryOut start c start.world with
  | .ok code w => ⟨statusOf code, shown, w⟩
  | .error e w => ⟨statusOf e.exitCode, shown, w⟩

/-- Shows the call of a tool and takes it to have succeeded. -/
def trial : Runner Unit := fun inv m t => ⟨m, t, [.log .info (Tool.callText inv)], .ok ()⟩

end Program
end FirmwareTasks
