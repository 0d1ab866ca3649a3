import FirmwareTasks.Run.World
/-!
The changes that tasks make to the file tree. Removing what is already gone succeeds; moving or
copying from or into a missing place fails; so does whatever the system refuses.
-/
namespace FirmwareTasks.Act
open FileCall

variable {σ : Type}

/-- Removes what the path names, if anything is there. -/
def ensureAbsent (site : Site) (path : Path) : Act σ Unit := do
  let removed ← files (.removeDir path) <|
    tryCatch (do Files.removeEntry site path; pure true) fun e =>
      if e = .noEntry then pure false else throw e
  if removed then log .debug ("Removed " ++ path.text)

/-- Leaves an empty directory at the path. -/
def ensureFresh (site : Site) (path : Path) : Act σ Unit := do
  ensureAbsent site path
  files (.createDir path) (Files.makeDirs site path)
  log .debug ("Created " ++ path.text)

/-- Moves a file or a directory tree. The directory to move into has to be there; only a move
across file systems goes by copying. -/
def relocate (site : Site) (src dst : Path) : Act σ Unit := do
  let crossing ← files (.relocate src dst) do
    let p ← ask (Tree.follow · site src)
    let isDir := (← get).at? p = some .dir
    Files.checkTarget site dst
    tryCatch (do Files.rename site src dst; pure none) fun e =>
      if e = .otherFileSystem then pure (some (decide isDir)) else throw e
  match crossing with
  | none => pure ()
  | some isDir =>
    log .debug ("Copying " ++ src.text ++ " across filesystems")
    files (.relocate src dst) (Files.moveByCopy site isDir src dst)
  log .debug ("Moved " ++ src.text ++ " to " ++ dst.text)

/-- Copies a directory tree to a path where nothing is. -/
def copyTree (site : Site) (src dst : Path) : Act σ Unit := do
  files (.copy src dst) do
    if !(← get).isDirAt site src then throw (.other "source directory does not exist")
    if (← get).existsAt site dst then throw (.other "destination already exists")
    Files.copyDir site Tree.pathLimit src dst
  log .debug ("Copied " ++ src.text ++ " to " ++ dst.text)

end FirmwareTasks.Act
