import FirmwareTasks.Files.Lookup
import FirmwareTasks.Shell.Pattern
/-!
How the text of expanded words becomes the arguments of a command: it is cut into fields, and a
field with wildcards stands for the file names that it fits.
-/
namespace FirmwareTasks.Shell

/-- A piece of an expanded word. -/
inductive Piece where
  | letter (l : Letter)
  /-- Quotes, which make a field even if nothing is in them. -/
  | quotes
  /-- The end of a field, if there is anything in it. -/
  | gap
  /-- The end of a field, even of an empty one. -/
  | cut
deriving DecidableEq, Repr

namespace Piece

def quoted (s : Bytes) : List Piece := .quotes :: s.map fun b => .letter ⟨b, true⟩

def plain (s : Bytes) : List Piece := s.map fun b => .letter ⟨b, false⟩

/-- Whether a separator is a blank; those around another separator belong to it. -/
def isBlank (b : UInt8) : Bool := b = 32 ∨ b = 9 ∨ b = 10

/-- The pieces of a text between separators. What came before is nothing yet, blanks, or another
separator with blanks. -/
def cutAt (separators : Bytes) : Option Piece → Bytes → List Piece
  | before, [] => before.toList
  | before, b :: s =>
    if !separators.contains b then before.toList ++ .letter ⟨b, false⟩ :: cutAt separators none s
    else if isBlank b then cutAt separators (some (before.getD .gap)) s
    else match before with
      | some .cut => .cut :: cutAt separators (some .cut) s
      | _ => cutAt separators (some .cut) s

def loose (separators s : Bytes) : List Piece := cutAt separators none s

def letters (ps : List Piece) : List Letter :=
  ps.filterMap fun
    | .letter l => some l
    | _ => none

def text (ps : List Piece) : Bytes := (letters ps).map (·.byte)

/-- The groups of pieces between the ends of fields, of which the first has begun with some. -/
def groupsFrom (current : List Piece) : List Piece → List (List Piece)
  | [] => if current = [] then [] else [current]
  | .gap :: ps => if current = [] then groupsFrom [] ps else current :: groupsFrom [] ps
  | .cut :: ps => current :: groupsFrom [] ps
  | p :: ps => groupsFrom (current ++ [p]) ps

def fields (ps : List Piece) : List (List Letter) := (groupsFrom [] ps).map letters

end Piece

def Letter.isWild (l : Letter) : Bool := !l.quoted && (l.byte = 42 || l.byte = 63 || l.byte = 91)

def segments : List Letter → List (List Letter)
  | [] => [[]]
  | l :: ls =>
    if l.byte = 47 then [] :: segments ls
    else match segments ls with
      | [] => [[l]]
      | s :: ss => (l :: s) :: ss

/-- The paths that fit the segments, each after `front`. A name with a dot in front has to be asked
for with that dot. -/
def fitting (t : Tree) (site : Site) (front : Bytes) : List (List Letter) → List Bytes
  | [] => []
  | s :: rest =>
    let name : Bytes := s.map (·.byte)
    let dir : Path := if front = [] then ⟨Path.dot⟩ else ⟨front⟩
    let names : List Bytes :=
      if s.any Letter.isWild then
        match t.follow site dir with
        | .ok p => (Path.dot :: Path.dotDot :: t.names p).filter fun n =>
          Pattern.fits (Pattern.ofLetters s) n && (n.head? ≠ some 46 || name.head? = some 46)
        | .error _ => []
      else [name]
    match rest with
    | [] => (names.map (front ++ ·)).filter fun p => t.existsAt site ⟨p⟩
    | rest => names.flatMap fun n => fitting t site (front ++ n ++ [47]) rest

/-- The arguments that a field stands for; paths are in order of their bytes. -/
def Letter.arguments (t : Tree) (site : Site) (field : List Letter) : List Bytes :=
  let text := field.map (·.byte)
  if field.any isWild then
    match (fitting t site [] (segments field)).mergeSort fun a b => (compare a b).isLE with
    | [] => [text]
    | paths => paths
  else [text]

end FirmwareTasks.Shell
