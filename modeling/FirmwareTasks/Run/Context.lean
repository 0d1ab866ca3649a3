import FirmwareTasks.Run.World
import FirmwareTasks.SearchPath
/-!
What a run does not change: the configuration, the project's root, the inherited search path, and
how tools are executed. Each tool gets its own directory and search path from here, so that no
task depends on what an earlier one set.
-/
namespace FirmwareTasks

/-- What executing a tool comes to. -/
structure Outcome (σ : Type) where
  state : σ
  tree : Tree
  /-- What is written or logged meanwhile. -/
  emissions : List Emission
  result : Except Error Unit

/-- What an execution lets be seen, apart from a run. -/
def Outcome.events {σ : Type} (o : Outcome σ) : List Event := o.emissions.map .own

/-- Executes tools on a file tree and remembers a `σ` between them. -/
abbrev Runner (σ : Type) := Invocation → σ → Tree → Outcome σ

structure Context (σ : Type) where
  config : Config
  root : Path
  ci : Bool
  /-- The search path of the program itself. -/
  inherited : Option Bytes
  site : Site
  runner : Runner σ

namespace Context

variable {σ : Type}

def path (ctx : Context σ) (rel : Path) : Path := ctx.root.join rel

def buildDir (ctx : Context σ) : Path := ctx.path ctx.config.layout.buildDir

/-- The search path for a profile; without one the tool inherits its search path. -/
def searchPath (ctx : Context σ) : Option Profile → Act σ (Option Bytes)
  | none => pure none
  | some p => do
    let path ← ofExcept (SearchPath.ofProfile ctx.config ctx.inherited p)
    Act.log .trace (SearchPath.trace p path)
    return some path

def command (ctx : Context σ) (program : Bytes) (cwd : Path) (profile : Option Profile) :
    Act σ Invocation := do
  return ⟨program, [], cwd, ← ctx.searchPath profile⟩

def launch (ctx : Context σ) (inv : Invocation) : Act σ Unit := do
  let w ← get
  let out := ctx.runner inv w.runner w.tree
  set { tree := out.tree, runner := out.state,
        events := w.events ++ [.launch inv out.emissions] : World σ }
  ofExcept out.result

end Context
end FirmwareTasks
