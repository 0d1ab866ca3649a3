import FirmwareTasks.Shell.Source
/-!
The commands of a shell script, from its text. A script is read one line of commands at a time,
since a line can change how later ones are read, and since a fault stops a script only where it
stands. Every reader is bounded by `fuel`, more than there are steps to take.
-/
namespace FirmwareTasks.Shell

open Reader

/-- What the parts of a word stand in. -/
inductive Mode where
  | word
  /-- Double quotes. -/
  | quotes (inBraces : Bool)
  | braces (quoted : Bool)
  /-- A text for a command. -/
  | document
  /-- An expression, with so many parentheses open. -/
  | sum (depth : Nat)
deriving DecidableEq, Repr

namespace Mode

def isQuoted : Mode → Bool
  | word | braces false => false
  | _ => true

/-- Whether a backslash takes its meaning from a character. -/
def isEscapable (mode : Mode) (c : Char) : Bool :=
  match mode with
  | word | braces false => true
  | quotes inBraces => "\\`$\"".toList.contains c || (inBraces && c = '\x7d')
  | braces true => "\\`$\"\x7d".toList.contains c
  | document => "\\`$".toList.contains c
  | sum _ => "\\`$\"".toList.contains c

def fault? (inText : Bool) : Mode → Option Fault
  | word | document => none
  | quotes _ | braces true => some (if inText then .brace else .quotes)
  | braces false => some .brace
  | sum _ => some .parens

end Mode

/-- How far a list of commands goes. -/
inductive Extent where
  /-- To the end of the line. -/
  | line
  /-- To a word or sign that closes something; there has to be a command. -/
  | body
  /-- The same, and there may be none. -/
  | rest
deriving DecidableEq, Repr

/-- Refuses every token but the one that is wanted. -/
def expect (wanted found : Token) : Reader Unit :=
  if wanted.name = found.name then pure () else throw (.unexpected found (some wanted))

/-- A word that quotes every byte that was given, unless all that was given is every argument. -/
def markQuotes (w : Word) : Word :=
  match w with
  | [.param ['@'] .none _ _] => w
  | w => .text [] true :: w

def Command.redirected (line : Nat) (c : Command) (rs : List Redirect) : Command :=
  match c with
  | .subshell line a _ => .subshell line a rs
  | c => if rs.isEmpty then c else .group line c rs

mutual

/-- The parts up to the end of what they stand in. -/
def takeParts : Nat → Mode → Reader Word
  | 0, _ => return []
  | fuel + 1, mode => do
    let literal (cs : List Char) (mode' : Mode) : Reader Word := do
      skip 1
      return .text cs mode.isQuoted :: (← takeParts fuel mode')
    match ← settle with
    | [] =>
      match mode.fault? (← get).inText with
      | some f => throw f
      | none => return []
    | '\\' :: [] =>
      skip 1
      return [.text ['\\'] true]
    | '\\' :: c :: _ =>
      skip 2
      let cs := if mode.isEscapable c then [c] else ['\\', c]
      return .text cs true :: (← takeParts fuel mode)
    | '$' :: _ =>
      skip 1
      let ps ← takeDollar fuel mode.isQuoted
      return ps ++ (← takeParts fuel mode)
    | '`' :: rest =>
      match takeBackquoted mode.isQuoted rest with
      | none =>
        goTo []
        throw .backquote
      | some (text, behind) =>
        goTo behind
        let c ← within text 1 false do
          let c ← takeList fuel .rest
          readDocuments fuel
          return c.getD .nothing
        return .output c mode.isQuoted :: (← takeParts fuel mode)
    | c :: rest =>
      match mode, c with
      | .quotes _, '"' | .braces _, '\x7d' =>
        skip 1
        return []
      | .word, '\'' | .braces false, '\'' =>
        let text := rest.takeWhile (· ≠ '\'')
        if text.length = rest.length then
          goTo []
          throw .quotes
        skip (text.length + 2)
        return .text text true :: (← takeParts fuel mode)
      | .word, '"' =>
        skip 1
        let w ← takeParts fuel (.quotes false)
        return markQuotes w ++ (← takeParts fuel mode)
      | .braces quoted, '"' =>
        skip 1
        let w ← takeParts fuel (.quotes true)
        return (if quoted then w else markQuotes w) ++ (← takeParts fuel mode)
      | .sum depth, '(' => literal [c] (.sum (depth + 1))
      | .sum (depth + 1), ')' => literal [c] (.sum depth)
      | .sum 0, ')' =>
        skip 1
        if ← accept ')' then return []
        else return .text [c] true :: (← takeParts fuel mode)
      | .word, c => if endsWord c then return [] else literal [c] mode
      | _, c => literal [c] mode

def takeDollar : Nat → Bool → Reader Word
  | 0, _ => return []
  | fuel + 1, quoted => do
    let named (cs : List Char) : Reader Word := do
      skip cs.length
      return [.param cs .none [] quoted]
    match ← settle with
    | '(' :: _ =>
      skip 1
      if ← accept '(' then return [.sum (← takeParts fuel (.sum 0)) quoted]
      else return [.output (← takeInner fuel) quoted]
    | '\x7b' :: _ =>
      skip 1
      takeBraces fuel quoted
    | c :: _ =>
      if isNameStart c then return [.param (← takeLetters isNameChar) .none [] quoted]
      else if c.isDigit || isSpecial c then named [c]
      else return [.text ['$'] quoted]
    | [] => return [.text ['$'] quoted]

/-- The command whose output is filled in, up to its closing parenthesis. -/
def takeInner : Nat → Reader Command
  | 0 => return .nothing
  | fuel + 1 => do
    let s ← get
    set { s with again := false, pending := [], inText := false }
    let c ← takeList fuel .rest
    expect (.sign ")") (← nextToken fuel false false)
    let left := (← get).pending.map fun p => (p.number, [])
    modify fun t =>
      { t with again := false, pending := s.pending, inText := s.inText, texts := t.texts ++ left }
    return c.getD .nothing

def takeBraces : Nat → Bool → Reader Word
  | 0, _ => return []
  | fuel + 1, quoted => do
    let edited (name : List Char) : Reader Word := do
      if ← accept '\x7d' then return [.param name .none [] quoted]
      else
        let (edit, isPattern) ← takeEdit
        return [.param name edit (← takeParts fuel (.braces (quoted && !isPattern))) quoted]
    let closed (name : List Char) (edit : Edit) : Reader Word := do
      if ← accept '\x7d' then return [.param name edit [] quoted]
      else return [.param name .bad (← takeParts fuel (.braces quoted)) quoted]
    if ← accept '#' then
      match ← settle with
      | [] => edited ['#']
      | c :: rest =>
        if isNameChar c then closed ((← takeName).getD []) .length
        else if c ≠ '\x7d' && (dropJoins rest 0).1.head? = some '\x7d' then
          skip 1
          closed [c] (if isSpecial c then .length else .bad)
        else edited ['#']
    else
      match ← takeName with
      | some name => edited name
      | none =>
        if (← settle).head? ≠ some '\x7d' then skip 1
        closed [] .bad

def takeToken : Nat → Reader Token
  | 0 => return .endOfFile
  | fuel + 1 => do
    let _ ← skipGap
    match ← settle with
    | [] => return .endOfFile
    | '\n' :: _ =>
      skip 1
      return .newline
    | c :: rest =>
      if "&|;".toList.contains c then takeSign c true
      else if "()".toList.contains c then takeSign c false
      else if "<>".toList.contains c then takeRedirect none
      else if c.isDigit && (dropJoins rest 0).1.head?.any "<>".toList.contains then
        skip 1
        let _ ← settle
        takeRedirect (some (c.toNat - '0'.toNat))
      else return .word (← takeParts fuel .word)

/-- The next token, behind the ends of lines or not, as a keyword if it can be one or not. -/
def nextToken : Nat → Bool → Bool → Reader Token
  | 0, _, _ => return .endOfFile
  | fuel + 1, newlines, keys => do
    let s ← get
    let t ← if s.again then pure s.last else takeToken fuel
    modify fun s => { s with again := false, last := t }
    match t, newlines with
    | .newline, true =>
      readDocuments fuel
      nextToken fuel newlines keys
    | t, _ =>
      let t := if keys then t.asKeyword else t
      modify fun s => { s with last := t }
      return t

def readDocuments : Nat → Reader Unit
  | 0 => pure ()
  | fuel + 1 => do
    let s ← get
    match s.pending with
    | [] => pure ()
    | p :: pending =>
      let (body, behind) := takeBody p (s.rest.length + 1) false s.rest
      let w ←
        if p.literal then pure [.text body true]
        else within body s.line true (takeParts fuel .document)
      goTo behind
      modify fun s => { s with pending, texts := s.texts ++ [(p.number, w)] }
      readDocuments fuel

def takeTarget : Nat → Token → Reader Redirect
  | 0, _ => throw (.unexpected .endOfFile none)
  | fuel + 1, t => do
    let isAhead := (← skipGap).head?.any fun c => !endsWord c
    match t, isAhead with
    | .document d dropTabs, true => announce d dropTabs (← settle)
    | t, _ =>
      match t, ← nextToken fuel false false with
      | .redirect d kind, .word w => return .file d kind w
      | _, t => throw (.unexpected t none)

def takeRedirects : Nat → Bool → Reader (List Redirect)
  | 0, _ => return []
  | fuel + 1, keys => do
    match ← nextToken fuel false keys with
    | .redirect d kind =>
      let r ← takeTarget fuel (.redirect d kind)
      return r :: (← takeRedirects fuel false)
    | .document d dropTabs =>
      let r ← takeTarget fuel (.document d dropTabs)
      return r :: (← takeRedirects fuel false)
    | _ =>
      back
      return []

/-- Commands one after another; none if there is nothing to read. -/
def takeList : Nat → Extent → Reader (Option Command)
  | 0, _ => return none
  | fuel + 1, e => takeMore fuel e none

def takeMore : Nat → Extent → Option Command → Reader (Option Command)
  | 0, _, c => return c
  | fuel + 1, e, c => do
    match ← nextToken fuel (e ≠ .line) true with
    | .newline =>
      readDocuments fuel
      return some (c.getD .nothing)
    | .endOfFile =>
      readDocuments fuel
      back
      return c
    | t =>
      back
      if (e = .rest || (e = .body && c.isSome)) && t.closes then return c
      let d ← takeChain fuel
      let next ← nextToken fuel false false
      let d := if next.isSign "&" then .background d else d
      let c : Option Command := some (match c with | none => d | some c => .seq c d)
      match next with
      | .endOfFile =>
        readDocuments fuel
        back
        return c
      | .sign "&" | .sign ";" => takeMore fuel e c
      | .newline =>
        back
        takeMore fuel e c
      | t =>
        if e = .line then throw (.unexpected t none)
        back
        return c

def takeInside : Nat → Reader Command
  | 0 => return .nothing
  | fuel + 1 => return (← takeList fuel .body).getD .nothing

/-- Commands of which each depends on how the one before ended. -/
def takeChain : Nat → Reader Command
  | 0 => return .nothing
  | fuel + 1 => do extend fuel (← takePipeline fuel)

def extend : Nat → Command → Reader Command
  | 0, c => return c
  | fuel + 1, c => do
    match ← nextToken fuel false false with
    | .sign "&&" =>
      let _ ← nextToken fuel true true
      back
      extend fuel (.both c (← takePipeline fuel))
    | .sign "||" =>
      let _ ← nextToken fuel true true
      back
      extend fuel (.either c (← takePipeline fuel))
    | _ =>
      back
      return c

/-- Commands of which each reads what the one before writes. -/
def takePipeline : Nat → Reader Command
  | 0 => return .nothing
  | fuel + 1 => do
    let negated := (← nextToken fuel false false).isKeyword "!"
    if negated then let _ ← nextToken fuel false true
    back
    let c ← takeStages fuel
    return if negated then .not c else c

def takeStages : Nat → Reader Command
  | 0 => return .nothing
  | fuel + 1 => do
    let c ← takeCommand fuel
    if (← nextToken fuel false false).isSign "|" then
      let _ ← nextToken fuel true true
      back
      return .pipe c (← takeStages fuel)
    else
      back
      return c

def takeCommand : Nat → Reader Command
  | 0 => return .nothing
  | fuel + 1 => do
    let line := (← get).line
    let closed (s : Token) (c : Command) : Reader Command := do
      expect s (← nextToken fuel false false)
      return c.redirected line (← takeRedirects fuel true)
    match ← nextToken fuel false false with
    | .keyword "if" => closed (.keyword "fi") (← takeBranches fuel)
    | .keyword "while" => closed (.keyword "done") (← takeLoop fuel true)
    | .keyword "until" => closed (.keyword "done") (← takeLoop fuel false)
    | .keyword "for" => closed (.keyword "done") (← takeFor fuel line)
    | .keyword "case" =>
      let c ← takeChoice fuel line
      return c.redirected line (← takeRedirects fuel true)
    | .sign "(" => closed (.sign ")") (.subshell line (← takeInside fuel) [])
    | .keyword "\x7b" => closed (.keyword "\x7d") (← takeInside fuel)
    | .word w =>
      modify fun s => { s with again := true, last := .word w }
      takeSimple fuel line [] [] []
    | t =>
      back
      match t with
      | .redirect .. | .document .. => takeSimple fuel line [] [] []
      | t => throw (.unexpected t none)

/-- What comes after the word that begins a condition. -/
def takeBranches : Nat → Reader Command
  | 0 => return .nothing
  | fuel + 1 => do
    let test ← takeInside fuel
    expect (.keyword "then") (← nextToken fuel false false)
    let yes ← takeInside fuel
    match ← nextToken fuel false false with
    | .keyword "elif" => return .cond test yes (← takeBranches fuel)
    | .keyword "else" => return .cond test yes (← takeInside fuel)
    | _ =>
      back
      return .cond test yes .nothing

def takeLoop : Nat → Bool → Reader Command
  | 0, _ => return .nothing
  | fuel + 1, goal => do
    let test ← takeInside fuel
    expect (.keyword "do") (← nextToken fuel false false)
    return .loop goal test (← takeInside fuel)

/-- A loop over words, which are the arguments of the script if none are given. -/
def takeFor : Nat → Nat → Reader Command
  | 0, _ => return .nothing
  | fuel + 1, line => do
    let name ← match ← nextToken fuel false false with
      | .word w => pure ((plain? w).getD [])
      | _ => pure []
    if !isName name then throw .loopVariable
    let t ← nextToken fuel true true
    let words ←
      if t.isKeyword "in" then takeWords fuel
      else do
        if !t.isSign ";" then back
        pure [[.param ['@'] .none [] true]]
    expect (.keyword "do") (← nextToken fuel true true)
    return .each line name words (← takeInside fuel)

def takeWords : Nat → Reader (List Word)
  | 0 => return []
  | fuel + 1 => do
    match ← nextToken fuel false false with
    | .word w => return w :: (← takeWords fuel)
    | .newline | .sign ";" => return []
    | t => throw (.unexpected t none)

def takeChoice : Nat → Nat → Reader Command
  | 0, _ => return .nothing
  | fuel + 1, line => do
    match ← nextToken fuel false false with
    | .word subject =>
      expect (.keyword "in") (← nextToken fuel true true)
      return .choose line subject (← takeCases fuel)
    | t => throw (.unexpected t (some (.word [])))

def takeCases : Nat → Reader (List (List Word × Command))
  | 0 => return []
  | fuel + 1 => do
    let t ← nextToken fuel true true
    if t.isKeyword "esac" then return []
    let t ← if t.isSign "(" then nextToken fuel false false else pure t
    let patterns ← takePatterns fuel t
    let body := (← takeList fuel .rest).getD .nothing
    let t ← nextToken fuel true true
    if t.isKeyword "esac" then return [(patterns, body)]
    expect (.sign ";;") t
    return (patterns, body) :: (← takeCases fuel)

/-- The patterns of a case, of which the first is a given token. -/
def takePatterns : Nat → Token → Reader (List Word)
  | 0, _ => return []
  | fuel + 1, t => do
    let w ← match t with
      | .word w => pure w
      | .keyword s => pure [.text s.toList false]
      | t => throw (.unexpected t (some (.word [])))
    let t ← nextToken fuel false false
    if t.isSign "|" then
      let t ← nextToken fuel false false
      return w :: (← takePatterns fuel t)
    expect (.sign ")") t
    return [w]

/-- The words and redirections of a simple command, after those that were there before; or a
function, whose name has parentheses after it. -/
def takeSimple : Nat → Nat → List (List Char × Word) → List Word → List Redirect → Reader Command
  | 0, line, as, ws, rs => return .simple line as ws rs
  | fuel + 1, line, as, ws, rs => do
    match ← nextToken fuel false false with
    | .word w =>
      match ws, assignment? w with
      | [], some a => takeSimple fuel line (as ++ [a]) [] rs
      | ws, _ => takeSimple fuel line as (ws ++ [w]) rs
    | .redirect d kind =>
      let r ← takeTarget fuel (.redirect d kind)
      takeSimple fuel line as ws (rs ++ [r])
    | .document d dropTabs =>
      let r ← takeTarget fuel (.document d dropTabs)
      takeSimple fuel line as ws (rs ++ [r])
    | t =>
      match t.isSign "(", as, ws, rs with
      | true, [], [w], [] =>
        expect (.sign ")") (← nextToken fuel false false)
        let name := (plain? w).getD []
        if !isName name || specialNames.contains (.ofList name) then throw .functionName
        let _ ← nextToken fuel true true
        back
        return .define name (← takeCommand fuel)
      | _, as, ws, rs =>
        back
        return .simple line as ws rs

end

/-- The next line of commands; none at the end of the script. -/
def Source.next (s : Source) : Except (Fault × Nat) (Option Command × Source) :=
  let s := { s with again := false, pending := [], texts := [] }
  match takeList (16 * s.rest.length + 64) .line s with
  | .ok none s => .ok (none, s)
  | .ok (some c) s => .ok (some (if s.texts.isEmpty then c else .documents s.texts c), s)
  | .error f s => .error (f, s.line)

/-- Whether nothing comes after the line that was taken last. -/
def Source.atEnd (s : Source) : Bool :=
  s.again && match s.last with
    | .endOfFile => true
    | _ => false

end FirmwareTasks.Shell
