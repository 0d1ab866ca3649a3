import FirmwareTasks.Shell.Session
/-!
What the descriptors of a shell are turned to: files, other descriptors, and texts of the script.
-/
namespace FirmwareTasks.Shell

open Step

/-- What a redirection opens. -/
inductive Opening where
  | file (kind : RedirectKind) (path : Bytes)
  /-- Another descriptor, or none. -/
  | same (source : Option Nat)
  | text (s : Bytes)
deriving DecidableEq, Repr

namespace Opening

def isCopy : Opening → Bool
  | same (some _) => true
  | _ => false

/-- What a target means that is to be another descriptor. -/
def ofDescriptor (target : Bytes) : Step Opening :=
  match target with
  | [45] => return same none
  | [d] =>
    if 48 ≤ d ∧ d ≤ 57 then return same (some (d.toNat - 48))
    else refuse (Utf8.encode "Syntax error: Bad fd number")
  | _ => refuse (Utf8.encode "Syntax error: Bad fd number")

def device? (path : Bytes) : Option Nat :=
  match Utf8.lossy path with
  | "/dev/stdin" => some 0
  | "/dev/stdout" => some 1
  | "/dev/stderr" => some 2
  | _ => match path.reverse with
    | d :: front =>
      if front.reverse = Utf8.encode "/dev/fd/" ∧ 48 ≤ d ∧ d ≤ 57 then some (d.toNat - 48) else none
    | [] => none

/-- The place of a file that is made, emptied unless it is to be kept. -/
def writable (site : Site) (path : Path) (keep : Bool) : FileCall Place := do
  let t ← get
  if keep && t.isFileAt site path then FileCall.ask (Tree.follow · site path)
  else Files.truncate site path false

def reading (r : Stream) : Step Port := do
  let s ← get
  let (n, system) := s.system.addStream r
  set { s with system }
  return .stream n

def complainOf (creating : Bool) (path : Bytes) (e : IoError) : Step (Option (Option Port)) := do
  let (front, missing) :=
    if creating then ("cannot create ", "Directory nonexistent")
    else ("cannot open ", "No such file")
  let cause := match e with
    | .noEntry | .notDirectory => missing
    | .os n => IoError.systemText n
    | .other cause => cause
  complain (Utf8.encode front ++ path ++ Utf8.encode (": " ++ cause))
  return none

def copied (d : Nat) : Step (Option (Option Port)) := do
  match (← get).ports.lookup d with
  | some port => return some (some port)
  | none =>
    complain (Utf8.encode (toString d ++ ": Bad file descriptor"))
    return none

/-- What a descriptor becomes, if it can be opened. -/
def port? : Opening → Step (Option (Option Port))
  | text s => return some (some (← reading (.held s)))
  | same none => return some none
  | same (some d) => copied d
  | file kind path => do
    let s ← get
    let isNull := path = Utf8.encode "/dev/null"
    match device? path with
    | some d => copied d
    | none =>
      match kind with
      | .read =>
        if isNull then return some (some (← reading (.held [])))
        match s.system.tree.follow s.site ⟨path⟩ with
        | .ok p => return some (some (← reading (.file p 0)))
        | .error e => complainOf false path e
      | .update =>
        if isNull then return some (some (← reading (.held [])))
        match ← files (writable s.site ⟨path⟩ true) with
        | .ok p => return some (some (← reading (.file p 0)))
        | .error e => complainOf true path e
      | kind =>
        if isNull then return some (some (.sink .nowhere))
        let isKept := kind = .write && s.options.contains "noclobber"
        if isKept && s.system.tree.isFileAt s.site ⟨path⟩ then complainOf true path .alreadyExists
        else match ← files (writable s.site ⟨path⟩ (kind = .append)) with
          | .ok p => return some (some (.sink (.file p)))
          | .error e => complainOf true path e

end Opening

/-- Turns descriptors in order; whether all could be. One that is kept to be turned back is closed
before another one is copied to it. -/
def openAll (kept : Bool) : List (Nat × Opening) → Step Bool
  | [] => return true
  | (d, o) :: rest => do
    if o = .same (some d) then return ← openAll kept rest
    if kept && o.isCopy then modify fun s => { s with ports := s.ports.set d none }
    match ← o.port? with
    | none => return false
    | some port =>
      modify fun s => { s with ports := s.ports.set d port }
      openAll kept rest

def turnBack (before : Ports) (ds : List Nat) : Step Unit := modify fun s =>
  { s with ports := ds.foldl (fun ports d => ports.set d (before.lookup d)) s.ports }

end FirmwareTasks.Shell
