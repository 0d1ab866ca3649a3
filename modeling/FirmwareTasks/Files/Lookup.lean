import FirmwareTasks.Files.IoError
import FirmwareTasks.Files.Tree
import FirmwareTasks.Path
/-!
Where a path leads in a tree. A lookup goes through the steps of the path one by one, follows at
most forty links, and ends at an entry or at a free name in a directory. Calls on an entry itself
take the last step apart instead, so that a link there is not followed.
-/
namespace FirmwareTasks

/-- The order in which the file systems list the names in a directory, of which nothing is
promised. -/
class ListOrder where
  arrange : Place → List Bytes → List Bytes
  perm (p : Place) (names : List Bytes) : (arrange p names).Perm names

instance ListOrder.byBytes : ListOrder := ⟨fun _ names => names, fun _ names => .refl names⟩

/-- The surroundings of file calls: where relative paths start, the directories at which other file
systems begin, and the order of listings. A system refuses to remove or move a directory at which
another file system begins; the calls here are not made on a place that has such a directory at or
inside it. -/
structure Site where
  cwd : Place
  mounts : List Place := []
  [order : ListOrder]

/-- The directory at which the file system of a place begins. -/
def Site.volume (site : Site) (p : Place) : Place :=
  (site.mounts.filter (· <:+ p)).foldl (fun v m => if v.length < m.length then m else v) []

/-- Where a path leads. -/
inductive Spot where
  | entry (p : Place)
  | vacant (n : Bytes) (p : Place)
deriving DecidableEq, Repr

/-- How far steps lead before a link has to be followed. -/
inductive Reach where
  | spot (s : Spot)
  | link (p : Place) (target : Bytes) (rest : List Bytes)
deriving DecidableEq, Repr

namespace Tree

def nameLimit : Nat := 255

/-- A path has fewer bytes than this. -/
def pathLimit : Nat := 4096

def linkLimit : Nat := 40

/-- What a name stands for in a directory. -/
def child? (t : Tree) (p : Place) (n : Bytes) : Except IoError (Option Entry) :=
  if nameLimit < n.length then .error .nameTooLong else .ok (t.at? (n :: p))

/-- Goes through steps from a place until they end or come to a link. -/
def reach (t : Tree) (p : Place) : List Bytes → Except IoError Reach
  | [] => .ok (.spot (.entry p))
  | n :: rest =>
    match t.at? p with
    | none => .error .noEntry
    | some .dir =>
      if n = Path.dot then t.reach p rest
      else if n = Path.dotDot then t.reach p.tail rest
      else
        match t.child? p n with
        | .error e => .error e
        | .ok none => if rest = [] then .ok (.spot (.vacant n p)) else .error .noEntry
        | .ok (some (.link target)) => .ok (.link p target rest)
        | .ok (some _) => t.reach (n :: p) rest
    | some _ => .error .notDirectory

def startOf (p : Place) (path : Path) : Place := if path.isAbsolute then [] else p

/-- Goes through steps from a place and follows links on the way and at the end. -/
def walk (t : Tree) (p : Place) (steps : List Bytes) : Nat → Except IoError Spot
  | 0 =>
    match t.reach p steps with
    | .error e => .error e
    | .ok (.spot s) => .ok s
    | .ok (.link ..) => .error .tooManyLinks
  | links + 1 =>
    match t.reach p steps with
    | .error e => .error e
    | .ok (.spot s) => .ok s
    | .ok (.link q target rest) => t.walk (startOf q ⟨target⟩) (Path.steps ⟨target⟩ ++ rest) links

/-- Refuses the paths that no call can be given. -/
def check (path : Path) : Except IoError Unit :=
  if 0 ∈ path.bytes then .error .zeroByte
  else if path.isEmpty then .error .noEntry
  else if pathLimit ≤ path.bytes.length then .error .nameTooLong
  else .ok ()

/-- Where a path leads, all links followed. -/
def find (t : Tree) (site : Site) (path : Path) : Except IoError Spot := do
  check path
  t.walk (startOf site.cwd path) path.steps linkLimit

/-- The place of the entry that a path leads to. -/
def follow (t : Tree) (site : Site) (path : Path) : Except IoError Place := do
  match ← t.find site path with
  | .entry p => pure p
  | .vacant .. => .error .noEntry

/-- The last step of a path. -/
inductive Last where
  | name (n : Bytes)
  | here
  | outside
  | root
deriving DecidableEq, Repr

/-- The directory in which the last step of a path is taken, and that step. -/
structure Slot where
  dir : Place
  last : Last
deriving DecidableEq, Repr

def Last.ofStep (n : Bytes) : Last :=
  if n = Path.dot then .here else if n = Path.dotDot then .outside else .name n

/-- Takes the last step of a path apart; a slash at the end is left to the caller. -/
def slot (t : Tree) (site : Site) (path : Path) : Except IoError Slot := do
  check path
  let names := path.segments.filter (· ≠ [])
  match names.getLast? with
  | none => pure ⟨[], .root⟩
  | some n =>
    match ← t.walk (startOf site.cwd path) names.dropLast linkLimit with
    | .vacant .. => .error .noEntry
    | .entry p =>
      match t.at? p with
      | some .dir => pure ⟨p, .ofStep n⟩
      | some _ => .error .notDirectory
      | none => .error .noEntry

/-- The place of the entry that a path names, a link at the end not followed unless a slash comes
after it. -/
def locate (t : Tree) (site : Site) (path : Path) : Except IoError Place :=
  if path.endsInSlash then t.follow site path
  else do
    let s ← t.slot site path
    match s.last with
    | .here => pure s.dir
    | .outside => pure s.dir.tail
    | .root => pure []
    | .name n =>
      match ← t.child? s.dir n with
      | some _ => pure (n :: s.dir)
      | none => .error .noEntry

def isDirAt (t : Tree) (site : Site) (path : Path) : Bool :=
  match t.follow site path with
  | .ok p => t.at? p = some .dir
  | .error _ => false

def isFileAt (t : Tree) (site : Site) (path : Path) : Bool :=
  match t.follow site path with
  | .ok p => (t.at? p).any Entry.isFile
  | .error _ => false

def existsAt (t : Tree) (site : Site) (path : Path) : Bool :=
  match t.follow site path with
  | .ok _ => true
  | .error _ => false

end Tree
end FirmwareTasks
