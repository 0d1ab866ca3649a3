import FirmwareTasks.Path
import FirmwareTasks.Text.Blank
/-!
Calls of external tools: what is called, how it is shown, and which names it answers to.
-/
namespace FirmwareTasks

/-- One call of an external tool. -/
structure Invocation where
  program : Bytes
  args : List Bytes
  cwd : Path
  /-- The search path the tool gets instead of the inherited one. -/
  searchPath : Option Bytes
deriving DecidableEq, Repr

namespace Invocation

def programName (inv : Invocation) : String := Utf8.lossy inv.program

def argTexts (inv : Invocation) : List String := inv.args.map Utf8.lossy

/-- A word of a command line; one that is empty or has white space in it stands in quotes. -/
def quote (s : String) : String :=
  if s.isEmpty || s.toList.any isBlank then "\"" ++ s ++ "\"" else s

def display (inv : Invocation) : String :=
  " ".intercalate (quote inv.programName :: inv.argTexts.map quote)

def afterLast (isSep : Char → Bool) (cs : List Char) : List Char :=
  (cs.reverse.takeWhile fun c => !isSep c).reverse

/-- The file name of a program without an extension `exe` in any case. -/
def stem? (program : Bytes) : Option Bytes :=
  (Path.fileName? ⟨program⟩).map fun name =>
    match Path.divideName name with
    | (front, some ext) => if ext.lowerAscii = Utf8.encode "exe" then front else name
    | (_, none) => name

/-- Whether the program is `name`, or a path ending in it; a backslash separates as well. -/
def isProgram (inv : Invocation) (name : String) : Bool :=
  match stem? inv.program with
  | some stem => afterLast (· == '\\') (Utf8.lossy stem).toList == name.toList
  | none => false

/-- The program's name without directories and without `.exe` at its end. -/
def shortName (inv : Invocation) : String :=
  let name := afterLast (fun c => c == '/' || c == '\\') inv.programName.toList
  .ofList (if ".exe".toList <:+ name then name.take (name.length - 4) else name)

example :
    (⟨Utf8.encode "c:\\x\\Ninja.EXE", [], ⟨[]⟩, none⟩ : Invocation).isProgram "Ninja" = true := by
  decide +kernel

end Invocation
end FirmwareTasks
