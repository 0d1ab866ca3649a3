import FirmwareTasks.Config.Mismatch
import FirmwareTasks.Files.IoError
import FirmwareTasks.Path
/-!
Why loading a configuration or running a task fails, in words and as an exit status.
-/
namespace FirmwareTasks

inductive Error where
  | removeDir (path : Path) (cause : IoError)
  | createDir (path : Path) (cause : IoError)
  | relocate (src dst : Path) (cause : IoError)
  | copy (src dst : Path) (cause : IoError)
  | launch (program : String) (cause : IoError)
  | toolFailed (program : String) (code : Option Int)
  | searchPath
  | unknownPath (name : String)
  | unknownTool (name : String)
  | configRead (path : Path) (cause : IoError)
  | configParse (problem : ConfigProblem)
  | missingFile (path : Path)
  | unknownTask (name : String)
deriving DecidableEq, Repr

namespace Error

/-- How a tool ended that did not succeed; without a code a signal ended it. -/
def ending : Option Int → String
  | some code => "exit code " ++ toString code
  | none => "termination by signal"

def message : Error → String
  | removeDir p e => "Failed to remove " ++ p.text ++ ": " ++ e.message
  | createDir p e => "Failed to create " ++ p.text ++ ": " ++ e.message
  | relocate src dst e => "Failed to move " ++ src.text ++ " to " ++ dst.text ++ ": " ++ e.message
  | copy src dst e => "Failed to copy " ++ src.text ++ " to " ++ dst.text ++ ": " ++ e.message
  | launch program e => "Failed to launch " ++ program ++ ": " ++ e.message
  | toolFailed program code => program ++ " failed with " ++ ending code
  | searchPath => "Invalid search path entry: path segment contains separator `:`"
  | unknownPath name => "Unknown path entry '" ++ name ++ "'"
  | unknownTool name => "Unknown tool '" ++ name ++ "'"
  | configRead p e => "Failed to read config " ++ p.text ++ ": " ++ e.message
  | configParse _ => "Invalid config"
  | missingFile p => p.text ++ " not found"
  | unknownTask name => "Unknown task '" ++ name ++ "'"

/-- A failing tool hands its exit code through; every other error ends the program with 1. -/
def exitCode : Error → Int
  | toolFailed _ (some code) => if code = 0 then 1 else code
  | _ => 1

end Error
end FirmwareTasks
