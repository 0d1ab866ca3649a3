import FirmwareTasks.Shell.Command
/-!
The words and signs of a shell script, and what is said when one of them is out of place.
-/
namespace FirmwareTasks.Shell

inductive Token where
  | word (w : Word)
  /-- A word with a meaning of its own, where one is looked for. -/
  | keyword (s : String)
  | sign (s : String)
  | redirect (descriptor : Nat) (kind : RedirectKind)
  /-- A text follows in the script; the tabs in front of its lines may be dropped. -/
  | document (descriptor : Nat) (dropTabs : Bool)
  | newline
  | endOfFile

def keywords : List String :=
  ["!", "case", "do", "done", "elif", "else", "esac", "fi", "for", "if", "in", "then", "until",
    "while", "\x7b", "\x7d"]

namespace Token

def name : Token → String
  | word _ => "word"
  | keyword s | sign s => "\"" ++ s ++ "\""
  | redirect .. | document .. => "redirection"
  | newline => "newline"
  | endOfFile => "end of file"

def isSign (s : String) : Token → Bool
  | sign t => s = t
  | _ => false

def isKeyword (s : String) : Token → Bool
  | keyword t => s = t
  | _ => false

/-- Whether a token ends the commands inside of something. -/
def closes : Token → Bool
  | keyword s => ["do", "done", "elif", "else", "esac", "fi", "then", "\x7d"].contains s
  | sign s => s = ")" || s = ";;"
  | endOfFile => true
  | _ => false

def asKeyword : Token → Token
  | word w =>
    match plain? w with
    | some cs => if keywords.contains (.ofList cs) then keyword (.ofList cs) else word w
    | none => word w
  | t => t

end Token

/-- What is wrong with a script. -/
inductive Fault where
  | unexpected (found : Token) (wanted : Option Token)
  | loopVariable
  | functionName
  | quotes
  | brace
  | parens
  | backquote

def Fault.message : Fault → String
  | unexpected found none => found.name ++ " unexpected"
  | unexpected found (some t) => found.name ++ " unexpected (expecting " ++ t.name ++ ")"
  | loopVariable => "Bad for loop variable"
  | functionName => "Bad function name"
  | quotes => "Unterminated quoted string"
  | brace => "Missing '\x7d'"
  | parens => "Missing '))'"
  | backquote => "EOF in backquote substitution"

def isNameStart (c : Char) : Bool := c.isAlpha || c == '_'
def isNameChar (c : Char) : Bool := c.isAlphanum || c == '_'

/-- Whether characters can be the name of a variable. -/
def isName (cs : List Char) : Bool := cs.head?.any isNameStart && cs.all isNameChar

def isSpecial (c : Char) : Bool := "@*#?$!-".toList.contains c

def endsWord (c : Char) : Bool := " \t\n;&|<>()".toList.contains c

/-- The commands of the shell whose failure ends it, and which no function can replace. -/
def specialNames : List String :=
  [".", ":", "break", "continue", "eval", "exec", "exit", "export", "local", "readonly", "return",
    "set", "shift", "times", "trap", "unset"]

/-- A word that sets a variable: the name, and the rest as the value. -/
def assignment? (w : Word) : Option (List Char × Word) :=
  let name := (w.takeWhile fun
    | .text [c] false => isNameChar c
    | _ => false).filterMap fun
    | .text cs _ => cs.head?
    | _ => none
  match w.drop name.length with
  | .text ['='] false :: value => if isName name then some (name, value) else none
  | _ => none

/-- The assignments in front of a simple command, and its other words. -/
def divide : List Word → List (List Char × Word) × List Word
  | [] => ([], [])
  | w :: ws =>
    match assignment? w with
    | some a => let (as, rest) := divide ws; (a :: as, rest)
    | none => ([], w :: ws)

end FirmwareTasks.Shell
