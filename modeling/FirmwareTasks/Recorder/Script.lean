import FirmwareTasks.Files.Subtree
import FirmwareTasks.Recorder
/-!
Scripted changes of a file tree, as stand-ins for what a tool writes and removes.
-/
namespace FirmwareTasks

/-- What a change is about: a path seen from the tool's directory, or the tool's last argument. -/
inductive Target where
  | path (p : Path)
  | lastArg
deriving DecidableEq, Repr

inductive Change where
  | makeDir (target : Target)
  | write (target : Target) (content : Bytes) (executable : Bool)
  | link (target : Target) (leadsTo : Bytes)
  | remove (target : Target)
  | fail (e : Error)
deriving DecidableEq, Repr

namespace Target

def resolve (inv : Invocation) : Target → Path
  | path p => inv.cwd.join p
  | lastArg => ⟨inv.args.getLastD []⟩

end Target

namespace Change

def makeRoom (site : Site) (path : Path) : FileCall Unit :=
  match path.parent? with
  | some dir => Files.makeDirs site dir
  | none => pure ()

def writeOut (site : Site) (path : Path) (content : Bytes) (executable : Bool) : FileCall Unit := do
  makeRoom site path
  Files.writeFile site path content
  if executable then Files.setExecutable site path true

def guardPath (path : Path) (call : FileCall Unit) : EStateM Error Tree Unit := fun t =>
  match call t with
  | .ok () t => .ok () t
  | .error _ t => .error (.missingFile path) t

def perform (site : Site) (inv : Invocation) : Change → EStateM Error Tree Unit
  | makeDir target =>
    let path := target.resolve inv
    guardPath path (Files.makeDirs site path)
  | write target content executable =>
    let path := target.resolve inv
    guardPath path (writeOut site path content executable)
  | link target leadsTo =>
    let path := target.resolve inv
    guardPath path do
      makeRoom site path
      Files.makeLink site leadsTo path
  | remove target =>
    let path := target.resolve inv
    guardPath path (Files.removeEntry site path)
  | fail e => throw e

/-- The changes in order, as the effect of a tool. -/
def script (site : Site) (changes : List Change) : Effect Unit := fun inv (m, t) =>
  match (changes.forM (perform site inv)) t with
  | .ok () t => .ok () (m, t)
  | .error e t => .error e (m, t)

end Change
end FirmwareTasks
