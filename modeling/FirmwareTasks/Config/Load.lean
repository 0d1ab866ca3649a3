import FirmwareTasks.Config.Decode
import FirmwareTasks.Environment
import FirmwareTasks.Files.Calls
/-!
Configurations from files.
-/
namespace FirmwareTasks.Config

/-- The configuration in the file that a path leads to. -/
def load (site : Site) (t : Tree) (path : Path) : Except Error Config :=
  match Tree.read site path t with
  | .error e => .error (.configRead path e)
  | .ok bytes =>
    match Utf8.decode? bytes with
    | none => .error (.configRead path (.other "stream did not contain valid UTF-8"))
    | some text => ofText text

/-- Whether the variables of the environment mark a CI host. -/
def onCiHost (c : Config) (env : Environment) : Bool :=
  match env.get? (Utf8.encode c.ci.envName) with
  | some value => Utf8.decode? value = some c.ci.value
  | none => false

end FirmwareTasks.Config
