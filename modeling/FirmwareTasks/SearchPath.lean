import FirmwareTasks.Config.Lookup
import FirmwareTasks.Text.Quoted
/-!
Search paths: directories with colons between them. A tool gets the configured directories in front
of the inherited search path.
-/
namespace FirmwareTasks

/-- Which tool directories come first. -/
inductive Profile where
  /-- All of them, in the order of the table. -/
  | full
  /-- Those for the cross build. -/
  | gcc
deriving DecidableEq, Repr

namespace Profile

def name : Profile → String
  | full => "Full"
  | gcc => "Gcc"

def dirs (c : Config) : Profile → Except Error (List Path)
  | full => .ok c.allDirs
  | gcc => c.gccDirs

end Profile

namespace SearchPath

def colon : UInt8 := 58

/-- The directories of a search path; one that is empty has one empty directory. -/
def split (s : Bytes) : List Bytes := s.splitOn colon

/-- The search path with these directories, none of which may have a colon in it. -/
def ofDirs (dirs : List Bytes) : Except Error Bytes :=
  if dirs.any (colon ∈ ·) then .error .searchPath else .ok (Bytes.join colon dirs)

/-- The directories in front of those of an inherited search path. -/
def prepend (dirs : List Path) (inherited : Option Bytes) : Except Error Bytes :=
  ofDirs (dirs.map (·.bytes) ++ (inherited.map split).getD [])

def ofProfile (c : Config) (inherited : Option Bytes) (p : Profile) : Except Error Bytes := do
  prepend (← p.dirs c) inherited

/-- What is logged when a search path has been put together. -/
def trace (p : Profile) (path : Bytes) : String :=
  p.name ++ " search path: " ++ Quoted.bytes path

end SearchPath
end FirmwareTasks
