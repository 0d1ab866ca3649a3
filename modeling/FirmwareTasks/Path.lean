import FirmwareTasks.Text.Utf8
/-!
Paths as text: how two are joined, what their components are, and which path is outside another.
Nothing here looks at a file tree. The main statements say what `join` writes.
-/
namespace FirmwareTasks

/-- A path as it is written. -/
structure Path where
  bytes : Bytes
deriving DecidableEq, Repr, Inhabited

namespace Path

def slash : UInt8 := 47

/-- The segment that stands for the directory itself. -/
def dot : Bytes := [46]

/-- The segment that stands for the directory outside. -/
def dotDot : Bytes := [46, 46]

def ofString (s : String) : Path := ⟨Utf8.encode s⟩

def text (p : Path) : String := Utf8.lossy p.bytes

def isEmpty (p : Path) : Bool := p.bytes.isEmpty

def isAbsolute (p : Path) : Bool := p.bytes.head? == some slash

def endsInSlash (p : Path) : Bool := p.bytes.getLast? == some slash

/-- `q` seen from `p`: an absolute `q` is itself, and an empty one adds a slash only. -/
def join (p q : Path) : Path :=
  if q.isAbsolute then q
  else if p.isEmpty || p.endsInSlash then ⟨p.bytes ++ q.bytes⟩
  else ⟨p.bytes ++ slash :: q.bytes⟩

def segments (p : Path) : List Bytes := p.bytes.splitOn slash

/-- A step of a path. -/
inductive Component where
  | root
  | here
  | outside
  | name (n : Bytes)
deriving DecidableEq, Repr

/-- Empty segments are no components, and one dot is a component only in front. -/
def inner (segment : Bytes) : Option Component :=
  if segment = [] ∨ segment = dot then none
  else if segment = dotDot then some .outside
  else some (.name segment)

def components (p : Path) : List Component :=
  if p.isAbsolute then .root :: p.segments.filterMap inner
  else match p.segments with
    | [] => []
    | first :: rest =>
      if first = dot then .here :: rest.filterMap inner else p.segments.filterMap inner

/-- Two spellings of one path: their components are the same. -/
def SameAs (p q : Path) : Prop := p.components = q.components

instance (p q : Path) : Decidable (SameAs p q) :=
  inferInstanceAs (Decidable (p.components = q.components))

/-- Whether a segment inside the segments `outer`, innermost first, is a component. -/
def counts (segment : Bytes) (outer : List Bytes) : Bool :=
  segment ≠ [] && (segment ≠ dot || outer.isEmpty)

/-- The segment lists, innermost first, that end in a component of the given one. -/
def ancestorSegments : List Bytes → List (List Bytes)
  | [] => []
  | s :: outer =>
    if counts s outer then (s :: outer) :: ancestorSegments outer else ancestorSegments outer

/-- The paths outside `p`, nearest first; the last of them is the root or empty. -/
def ancestors (p : Path) : List Path :=
  match ancestorSegments p.segments.reverse with
  | [] => []
  | _ :: outer =>
    outer.map (fun inward => ⟨Bytes.join slash inward.reverse⟩) ++
      [if p.isAbsolute then ⟨[slash]⟩ else ⟨[]⟩]

def parent? (p : Path) : Option Path := p.ancestors.head?

def fileName? (p : Path) : Option Bytes :=
  match p.components.getLast? with
  | some (.name n) => some n
  | _ => none

/-- A file name up to its last dot, and what follows that dot. A dot in front divides nothing. -/
def divideName (name : Bytes) : Bytes × Option Bytes :=
  match name.splitOn 46 with
  | [] | [_] => (name, none)
  | [[], _] => (name, none)
  | parts => (Bytes.join 46 parts.dropLast, parts.getLast?)

/-- The names to go through from a starting directory; a slash at the end asks for a directory, as
one more dot does. -/
def steps (p : Path) : List Bytes :=
  p.segments.filter (· ≠ []) ++ if p.endsInSlash then [dot] else []

theorem join_of_not_isAbsolute {p q : Path} (hq : q.isAbsolute = false) (hp : p.isEmpty = false)
    (he : p.endsInSlash = false) : p.join q = ⟨p.bytes ++ slash :: q.bytes⟩ := by
  simp [join, hq, hp, he]

@[simp] theorem empty_join (q : Path) : (⟨[]⟩ : Path).join q = q := by
  simp [join, isEmpty]

@[simp] theorem text_ofString (s : String) : (ofString s).text = s := Utf8.lossy_encode s

example : (ofString "./a//b/.").ancestors = [ofString "./a", ofString ".", ofString ""] := by
  decide +kernel
example : (ofString "/a").ancestors = [ofString "/"] := by decide +kernel
example : (ofString "a/..").fileName? = none := by decide +kernel
example : divideName (Utf8.encode ".a.b") = (Utf8.encode ".a", some (Utf8.encode "b")) := by
  decide +kernel
example : divideName (Utf8.encode ".exe") = (Utf8.encode ".exe", none) := by decide +kernel
example : (ofString "a/./b/").SameAs (ofString "a//b") := by decide +kernel

end Path
end FirmwareTasks
