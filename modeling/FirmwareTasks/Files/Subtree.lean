import FirmwareTasks.Files.Calls
/-!
Calls on whole subtrees: making a directory together with those outside it, removing a directory
with all that is in it, and copying one.
-/
namespace FirmwareTasks.Files
open FileCall

/-- What a refusal to make a directory comes to: nothing if there is one already. -/
def acceptDir (site : Site) (path : Path) (e : IoError) : FileCall Unit := do
  if (← get).isDirAt site path then pure () else throw e

/-- Makes the first of the paths, where each is outside the one before: first those outside it that
are missing, then itself. A directory that is already there will do. -/
def makeDirsIn (site : Site) : List Path → FileCall Unit
  | [] => throw (.other "failed to create whole tree")
  | path :: outer =>
    if path.isEmpty then pure ()
    else
      tryCatch (makeDir site path) fun e =>
        if e = .noEntry then do
          makeDirsIn site outer
          tryCatch (makeDir site path) (acceptDir site path)
        else acceptDir site path e

/-- Makes a directory and all missing ones outside it. -/
def makeDirs (site : Site) (path : Path) : FileCall Unit :=
  makeDirsIn site (path :: path.ancestors)

/-- Removes what is in a directory and then the directory, which may be gone by then. A link is
removed itself. -/
def removeTree (site : Site) (path : Path) : FileCall Unit := do
  let p ← ask (Tree.locate · site path)
  match (← get).at? p with
  | some (.link _) => unlink site path
  | some (.file ..) => throw .notDirectory
  | _ =>
    modify (·.clear p)
    tryCatch (removeDir site path) fun e => if e = .noEntry then pure () else throw e

def removeEntry (site : Site) (path : Path) : FileCall Unit := do
  let p ← ask (Tree.locate · site path)
  if (← get).at? p = some .dir then removeTree site path else unlink site path

/-- Copies a directory into another, which is made if it is missing. Links are copied as the files
they lead to. `depth` bounds how far the copy goes in; the length of a path is a bound. -/
def copyDir (site : Site) : Nat → Path → Path → FileCall Unit
  | 0, _, _ => throw .nameTooLong
  | depth + 1, src, dst => do
    makeDirs site dst
    for (n, e) in ← listDir site src do
      if e.isDir then copyDir site depth (src.join ⟨n⟩) (dst.join ⟨n⟩)
      else copyFile site (src.join ⟨n⟩) (dst.join ⟨n⟩)

/-- Refuses a target in a directory that is not there. -/
def checkTarget (site : Site) (dst : Path) : FileCall Unit := do
  match dst.parent? with
  | some dir =>
    if dir.isEmpty || (← get).isDirAt site dir then pure ()
    else throw (.other ("destination directory " ++ dir.text ++ " does not exist"))
  | none => pure ()

/-- Copies across file systems and then removes what was copied. -/
def moveByCopy (site : Site) (isDir : Bool) (src dst : Path) : FileCall Unit := do
  if isDir then
    copyDir site Tree.pathLimit src dst
    removeTree site src
  else
    copyFile site src dst
    unlink site src

end FirmwareTasks.Files
