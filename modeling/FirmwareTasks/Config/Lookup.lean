import FirmwareTasks.Config.Basic
import FirmwareTasks.Error
/-!
Looking things up in a configuration. Texts of tools may hold placeholders, names of tool
directories in braces, which are filled in on look-up.
-/
namespace FirmwareTasks.Config

/-- The directory of the first entry with a name. -/
def pathDir (c : Config) (name : String) : Except Error Path :=
  match c.paths.find? (·.name = name) with
  | some t => .ok t.dir
  | none => .error (.unknownPath name)

def allDirs (c : Config) : List Path := c.paths.map (·.dir)

/-- The directories for the cross build, in their own order. -/
def gccDirs (c : Config) : Except Error (List Path) := c.project.gccPaths.mapM c.pathDir

/-- Where the filling in of placeholders stands: outside of one, or in one whose name so far is
given backwards. -/
inductive Scan where
  | outside
  | inside (name : List Char)

/-- Fills in placeholders with the texts of directories, each once. -/
def fill (c : Config) : Scan → List Char → Except Error (List Char)
  | .outside, [] => .ok []
  | .inside name, [] => .error (.unknownPath (.ofList name.reverse))
  | .outside, ch :: s =>
    if ch = '{' then c.fill (.inside []) s else (c.fill .outside s).map (ch :: ·)
  | .inside name, ch :: s =>
    if ch = '}' then do
      let dir ← c.pathDir (.ofList name.reverse)
      return dir.text.toList ++ (← c.fill .outside s)
    else c.fill (.inside (ch :: name)) s

/-- A text with its placeholders filled in, as a path. -/
def expand (c : Config) (raw : String) : Except Error Path := do
  return .ofString (.ofList (← c.fill .outside raw.toList))

def lookup (c : Config) (t : Table) (name : String) : Except Error Path :=
  match t[name]? with
  | some raw => c.expand raw
  | none => .error (.unknownTool name)

def makeTool (c : Config) (name : String) : Except Error Path := c.lookup c.make name

def tool (c : Config) (name : String) : Except Error Path := c.lookup c.tools name

def buildTool (c : Config) : Except Error Path := c.makeTool c.project.buildTool

end FirmwareTasks.Config
