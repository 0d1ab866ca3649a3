import FirmwareTasks.Files.Lookup
/-!
The calls that look at a tree and change it, one entry at a time. A call that fails leaves the tree
as it was.
-/
namespace FirmwareTasks

/-- A computation on a tree that may be refused; what it did before stays done. -/
abbrev FileCall := EStateM IoError Tree

namespace FileCall

/-- Asks about the tree and changes nothing. -/
def ask {α : Type} (question : Tree → Except IoError α) : FileCall α := fun t =>
  match question t with
  | .ok a => .ok a t
  | .error e => .error e t

/-- Changes the tree at once, or is refused. -/
def alter (change : Tree → Except IoError Tree) : FileCall Unit := fun t =>
  match change t with
  | .ok u => .ok () u
  | .error e => .error e t

end FileCall

open FileCall

namespace Tree

def makeDir (site : Site) (path : Path) (t : Tree) : Except IoError Tree := do
  let s ← t.slot site path
  match s.last with
  | .name n =>
    match ← t.child? s.dir n with
    | some _ => .error .alreadyExists
    | none => pure (t.insert (n :: s.dir) .dir)
  | _ => .error .alreadyExists

/-- The tree without an entry that is no directory. -/
def unlink (site : Site) (path : Path) (t : Tree) : Except IoError Tree := do
  let s ← t.slot site path
  match s.last with
  | .name n =>
    match ← t.child? s.dir n with
    | none => .error .noEntry
    | some .dir => .error .isDirectory
    | some _ =>
      if path.endsInSlash then .error .notDirectory else pure (t.erase (n :: s.dir))
  | _ => .error .isDirectory

/-- The tree without an empty directory, at which no other file system begins. -/
def removeDir (site : Site) (path : Path) (t : Tree) : Except IoError Tree := do
  let s ← t.slot site path
  match s.last with
  | .name n =>
    match ← t.child? s.dir n with
    | none => .error .noEntry
    | some .dir =>
      if t.names (n :: s.dir) = [] then pure (t.erase (n :: s.dir)) else .error .notEmpty
    | some _ => .error .notDirectory
  | .here => .error .invalidArgument
  | .outside => .error .notEmpty
  | .root => .error .busy

/-- The tree with what `src` holds at `dst`, once both are known; `asDir` says that the paths asked
for directories. No other file system begins at or inside the two places. -/
def renameEntry (t : Tree) (asDir : Bool) (src dst : Place) (old : Entry) (new : Option Entry) :
    Except IoError Tree :=
  if asDir ∧ old ≠ .dir then .error .notDirectory
  else if src <:+ dst ∧ src ≠ dst then .error .invalidArgument
  else if dst <:+ src ∧ src ≠ dst then .error .notEmpty
  else if src = dst then .ok t
  else
    match old, new with
    | _, none => .ok (t.move src dst)
    | .dir, some .dir => if t.names dst = [] then .ok (t.move src dst) else .error .notEmpty
    | .dir, some _ => .error .notDirectory
    | _, some .dir => .error .isDirectory
    | _, some _ => .ok (t.move src dst)

/-- The tree with an entry, and what is inside it, under another name on its file system. -/
def rename (site : Site) (src dst : Path) (t : Tree) : Except IoError Tree := do
  let s ← t.slot site src
  let d ← t.slot site dst
  if site.volume s.dir ≠ site.volume d.dir then .error .otherFileSystem
  else
    match s.last, d.last with
    | .name m, .name n =>
      match ← t.child? s.dir m with
      | none => .error .noEntry
      | some old =>
        let new ← t.child? d.dir n
        t.renameEntry (src.endsInSlash || dst.endsInSlash) (m :: s.dir) (n :: d.dir) old new
    | _, _ => .error .busy

def makeLink (site : Site) (target : Bytes) (path : Path) (t : Tree) : Except IoError Tree := do
  if 0 ∈ target then .error .zeroByte
  else if target = [] then .error .noEntry
  else
    let s ← t.slot site path
    match s.last with
    | .name n =>
      match ← t.child? s.dir n with
      | some _ => .error .alreadyExists
      | none =>
        if path.endsInSlash then .error .noEntry
        else pure (t.insert (n :: s.dir) (.link target))
    | _ => .error .alreadyExists

/-- The entries of the directory that a path leads to, by name, in the order of the site. -/
def list (site : Site) (path : Path) (t : Tree) : Except IoError (List (Bytes × Entry)) := do
  let p ← t.follow site path
  match t.at? p with
  | some .dir =>
    pure ((site.order.arrange p (t.names p)).filterMap fun n => (t.at? (n :: p)).map (n, ·))
  | _ => .error .notDirectory

def read (site : Site) (path : Path) (t : Tree) : Except IoError Bytes := do
  let p ← t.follow site path
  match t.at? p with
  | some (.file content _) => pure content
  | _ => .error .isDirectory

/-- Where a file that is to be written is, or is to be. -/
def writable (site : Site) (path : Path) (t : Tree) : Except IoError Place := do
  if path.endsInSlash then
    let _ ← t.slot site path
    .error .isDirectory
  else
    match ← t.find site path with
    | .vacant n p => pure (n :: p)
    | .entry p => if t.at? p = some .dir then .error .isDirectory else pure p

/-- The execution bit of the file at a place, or the given one if there is none. -/
def bitAt (t : Tree) (p : Place) (executable : Bool) : Bool :=
  match t.at? p with
  | some (.file _ x) => x
  | _ => executable

end Tree

namespace Files

def makeDir (site : Site) (path : Path) : FileCall Unit := alter (Tree.makeDir site path)
def unlink (site : Site) (path : Path) : FileCall Unit := alter (Tree.unlink site path)
def removeDir (site : Site) (path : Path) : FileCall Unit := alter (Tree.removeDir site path)
def rename (site : Site) (src dst : Path) : FileCall Unit := alter (Tree.rename site src dst)

def makeLink (site : Site) (target : Bytes) (path : Path) : FileCall Unit :=
  alter (Tree.makeLink site target path)

def listDir (site : Site) (path : Path) : FileCall (List (Bytes × Entry)) :=
  ask (Tree.list site path)

/-- Opens a file for writing: a new one is made with the given execution bit, an old one keeps its
own and loses its content. -/
def truncate (site : Site) (path : Path) (executable : Bool) : FileCall Place := do
  let p ← ask (Tree.writable site path)
  modify fun t => t.insert p (.file [] (t.bitAt p executable))
  return p

def writeFile (site : Site) (path : Path) (content : Bytes) : FileCall Unit := do
  let p ← truncate site path false
  modify fun t => t.insert p (.file content (t.bitAt p false))

/-- Sets the execution bit of the file that a path leads to. -/
def setExecutable (site : Site) (path : Path) (executable : Bool) : FileCall Unit := do
  let p ← ask (Tree.follow · site path)
  modify fun t =>
    match t.at? p with
    | some (.file content _) => t.insert p (.file content executable)
    | _ => t

/-- Copies the content and the execution bit of a regular file. The content is read after the
target has been emptied, so that copying a file onto itself leaves nothing in it. -/
def copyFile (site : Site) (src dst : Path) : FileCall Unit := do
  let p ← ask (Tree.follow · site src)
  match (← get).at? p with
  | some (.file _ executable) =>
    let q ← truncate site dst executable
    modify fun t =>
      match t.at? p with
      | some (.file content _) => t.insert q (.file content executable)
      | _ => t
  | _ => throw (.other "the source path is neither a regular file nor a symlink to a regular file")

end Files
end FirmwareTasks
