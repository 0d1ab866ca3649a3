import FirmwareTasks.Tool.Launch
import FirmwareTasks.Run.Context
/-!
The runner that executes tools as processes, one at a time, and waits for each.
-/
namespace FirmwareTasks.Tool

def checkTexts (inv : Invocation) : Except IoError Unit :=
  if (inv.program :: inv.cwd.bytes :: inv.searchPath.getD [] :: inv.args).any (0 ∈ ·) then
    .error (.other "nul byte found in provided data")
  else .ok ()

def enter (t : Tree) (site : Site) (path : Path) : Except IoError Place := do
  let p ← t.follow site path
  if t.at? p = some .dir then return p else .error .notDirectory

def toolEnv (env : Environment) (inv : Invocation) : Environment :=
  match inv.searchPath with
  | some path => env.set (Utf8.encode "PATH") path
  | none => env

/-- Executes a tool. A name that is looked up in a search path of its own may also be that of a text
for the shell. -/
def start (env : Environment) (site : Site) (inv : Invocation) (s : System) :
    Except IoError (Ending × System) := do
  checkTexts inv
  let cwd ← enter s.tree site inv.cwd
  let job : Job := { args := inv.program :: inv.args, env := toolEnv env inv, cwd }
  let isLenient := inv.searchPath.isSome && !inv.program.contains 47
  let run := if isLenient then lenient (execute depthLimit) else execute depthLimit
  search (run · job s) (job.env.lookup (Utf8.encode "PATH")) inv.program

def verdict (inv : Invocation) : Ending → Except Error Unit
  | .exited 0 => .ok ()
  | .exited code => .error (.toolFailed inv.programName (some code.toNat))
  | .killed _ => .error (.toolFailed inv.programName none)

/-- A call as it is shown: the directory, and the command line. -/
def callText (inv : Invocation) : String := "[" ++ inv.cwd.text ++ "] " ++ inv.display

/-- What becomes of a call that the system is to execute as a process: how this has ended, or why
it could not be started. -/
structure Execution (σ : Type) where
  state : σ
  tree : Tree
  emissions : List Emission
  ending : Except IoError Ending

/-- Shows each call, has the system execute it, and waits for its end. -/
def runnerOf {σ : Type} (system : Invocation → σ → Tree → Execution σ) : Runner σ := fun inv m t =>
  let e := system inv m t
  let result := match e.ending with
    | .ok ending => verdict inv ending
    | .error cause => .error (.launch inv.programName cause)
  ⟨e.state, e.tree, .log .info (callText inv) :: e.emissions, result⟩

/-- Executes a call with the variables of an environment. -/
def run (env : Environment) (site : Site) (inv : Invocation) (m : Unit) (t : Tree) :
    Execution Unit :=
  match start env site inv { tree := t, mounts := site.mounts, order := site.order } with
  | .ok (e, s) => ⟨m, s.tree, s.emissions, .ok e⟩
  | .error e => ⟨m, t, [], .error e⟩

/-- Executes tools with the variables of an environment. -/
def runner (env : Environment) (site : Site) : Runner Unit := runnerOf (run env site)

end FirmwareTasks.Tool
