import FirmwareTasks.Shell.Token
/-!
The text of a script while it is read: what is left of it, and the texts in it that belong to
commands. A backslash at the end of a line joins the next line to it.
-/
namespace FirmwareTasks.Shell

/-- A text for a command that is still to come, up to a line with a mark. -/
structure Pending where
  number : Nat
  mark : List Char
  /-- Whether nothing is filled in. -/
  literal : Bool
  dropTabs : Bool

structure Source where
  rest : List Char
  line : Nat := 1
  last : Token := .newline
  /-- Whether the last token is to be taken once more. -/
  again : Bool := false
  pending : List Pending := []
  texts : List (Nat × Word) := []
  /-- How many texts have been announced. -/
  count : Nat := 0
  /-- Whether such a text is being read. -/
  inText : Bool := false

abbrev Reader := EStateM Fault Source

/-- The characters without the line ends in front that are joined, and how many these are. -/
def dropJoins : List Char → Nat → List Char × Nat
  | '\\' :: '\n' :: s, n => dropJoins s (n + 1)
  | s, n => (s, n)

/-- The characters from the next token on, where a comment may be open. -/
def dropGap : Bool → List Char → Nat → List Char × Nat
  | true, '\n' :: s, n => ('\n' :: s, n)
  | true, _ :: s, n => dropGap true s n
  | false, ' ' :: s, n => dropGap false s n
  | false, '\t' :: s, n => dropGap false s n
  | false, '#' :: s, n => dropGap true s n
  | false, '\\' :: '\n' :: s, n => dropGap false s (n + 1)
  | _, s, n => (s, n)

def takeBackquoted (quoted : Bool) : List Char → Option (List Char × List Char)
  | [] => none
  | '`' :: s => some ([], s)
  | '\\' :: '\n' :: s => takeBackquoted quoted s
  | '\\' :: c :: s =>
    let cs := if "\\`$".toList.contains c || (quoted && c = '"') then [c] else ['\\', c]
    (takeBackquoted quoted s).map fun (t, r) => (cs ++ t, r)
  | c :: s => (takeBackquoted quoted s).map fun (t, r) => (c :: t, r)

/-- The mark behind which a text ends, whether some of it is quoted, and what is behind the mark. -/
def takeMark : Option Char → List Char → List Char × Bool × List Char
  | _, [] => ([], false, [])
  | none, '\\' :: c :: s => let (m, _, r) := takeMark none s; (c :: m, true, r)
  | some '"', '\\' :: c :: s =>
    let cs := if "\\`$\"".toList.contains c then [c] else ['\\', c]
    let (m, _, r) := takeMark (some '"') s
    (cs ++ m, true, r)
  | none, c :: s =>
    if c = '\'' || c = '"' then let (m, _, r) := takeMark (some c) s; (m, true, r)
    else if endsWord c then ([], false, c :: s)
    else let (m, quoted, r) := takeMark none s; (c :: m, quoted, r)
  | some q, c :: s =>
    if c = q then let (m, _, r) := takeMark none s; (m, true, r)
    else let (m, _, r) := takeMark (some q) s; (c :: m, true, r)

def isJoined (line : List Char) : Bool := (line.reverse.takeWhile (· = '\\')).length % 2 == 1

/-- The text up to the mark or to the end, and what is behind it; `fuel` bounds the lines. -/
def takeBody (p : Pending) : Nat → Bool → List Char → List Char × List Char
  | 0, _, s => ([], s)
  | _, _, [] => ([], [])
  | fuel + 1, joined, s =>
    let s := if p.dropTabs && !joined then s.dropWhile (· = '\t') else s
    let line := s.takeWhile (· ≠ '\n')
    if !joined && line = p.mark then ([], s.drop (line.length + 1))
    else
      let (more, rest) := takeBody p fuel (!p.literal && isJoined line) (s.drop (line.length + 1))
      (s.take (line.length + 1) ++ more, rest)

namespace Reader

/-- What is left, from the next character that counts. -/
def settle : Reader (List Char) := fun s =>
  let (rest, n) := dropJoins s.rest 0
  .ok rest { s with rest, line := s.line + n }

def skipGap : Reader (List Char) := fun s =>
  let (rest, n) := dropGap false s.rest 0
  .ok rest { s with rest, line := s.line + n }

def skip (n : Nat) : Reader Unit := modify fun s =>
  { s with rest := s.rest.drop n, line := s.line + (s.rest.take n).count '\n' }

def goTo (rest : List Char) : Reader Unit := do skip ((← get).rest.length - rest.length)

/-- Reads another text, and then goes on where this one was left. -/
def within {α : Type} (rest : List Char) (line : Nat) (inText : Bool) (a : Reader α) :
    Reader α := do
  let s ← get
  set { s with rest, line, inText, again := false, pending := [] }
  let r ← a
  modify fun t => { s with texts := t.texts, count := t.count }
  return r

def back : Reader Unit := modify fun s => { s with again := true }

def accept (c : Char) : Reader Bool := do
  if (← settle).head? = some c then
    skip 1
    return true
  else return false

/-- Announces a text behind the mark that comes next. -/
def announce (descriptor : Nat) (dropTabs : Bool) (rest : List Char) : Reader Redirect := do
  let (mark, literal, behind) := takeMark none rest
  goTo behind
  let n := (← get).count
  modify fun s => { s with count := n + 1, pending := s.pending ++ [⟨n, mark, literal, dropTabs⟩] }
  return .document descriptor n

def takeRedirect (descriptor : Option Nat) : Reader Token := do
  if ← accept '>' then
    let target := descriptor.getD 1
    if ← accept '>' then return .redirect target .append
    if ← accept '&' then return .redirect target .same
    if ← accept '|' then return .redirect target .replace
    return .redirect target .write
  else
    skip 1
    let from_ := descriptor.getD 0
    if ← accept '<' then return .document from_ (← accept '-')
    if ← accept '&' then return .redirect from_ .same
    if ← accept '>' then return .redirect from_ .update
    return .redirect from_ .read

/-- A sign that comes next, which a second character makes another one. -/
def takeSign (c : Char) (double : Bool) : Reader Token := do
  skip 1
  if double then
    if ← accept c then return .sign (.ofList [c, c])
  return .sign (.singleton c)

/-- What is done with a parameter in braces behind its name, and whether its word is a pattern. -/
def takeEdit : Reader (Edit × Bool) := do
  let emptyToo ← accept ':'
  let c := (← settle).head?
  skip 1
  match c with
  | some '-' => return (.fallback emptyToo, false)
  | some '=' => return (.assign emptyToo, false)
  | some '?' => return (.demand emptyToo, false)
  | some '+' => return (.instead !emptyToo, false)
  | some '#' =>
    if emptyToo then return (.bad, false) else return (.dropFront (← accept '#'), true)
  | some '%' =>
    if emptyToo then return (.bad, false) else return (.dropBack (← accept '%'), true)
  | _ => return (.bad, false)

/-- The characters that come next as long as they are of a kind. -/
def takeLetters (p : Char → Bool) : Reader (List Char) := do
  let cs := (← settle).takeWhile p
  skip cs.length
  return cs

def takeName : Reader (Option (List Char)) := do
  match ← settle with
  | [] => return none
  | c :: _ =>
    if isNameStart c then return some (← takeLetters isNameChar)
    else if c.isDigit then return some (← takeLetters Char.isDigit)
    else if isSpecial c then
      skip 1
      return some [c]
    else return none

end Reader
end FirmwareTasks.Shell
