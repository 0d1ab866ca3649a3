/-!
Shell scripts as trees: words made of parts that are yet to be filled in, and commands made of
words. Characters stand for single bytes.
-/
namespace FirmwareTasks.Shell

/-- What is done with the value of a parameter. -/
inductive Edit where
  | none
  | length
  /-- Drop the shortest or longest front that fits a pattern. -/
  | dropFront (longest : Bool)
  | dropBack (longest : Bool)
  /-- Put a word in place of a value that is missing, or also of one that is empty. -/
  | fallback (emptyToo : Bool)
  /-- The same, and the parameter keeps that value. -/
  | assign (emptyToo : Bool)
  /-- Refuse a value that is missing, or also one that is empty. -/
  | demand (emptyToo : Bool)
  /-- Put a word in place of a value that is there, or that is there and not empty. -/
  | instead (emptyToo : Bool)
  /-- Nothing that can be done. -/
  | bad
deriving DecidableEq, Repr

inductive RedirectKind where
  | write
  /-- Write, even where files are to be kept. -/
  | replace
  | append
  | read
  /-- Read, and make the file if there is none. -/
  | update
  /-- The target is another descriptor. -/
  | same
deriving DecidableEq, Repr

mutual

inductive Part where
  | text (cs : List Char) (quoted : Bool)
  | param (name : List Char) (edit : Edit) (arg : List Part) (quoted : Bool)
  /-- The output of a command. -/
  | output (c : Command) (quoted : Bool)
  /-- The value of an expression. -/
  | sum (expr : List Part) (quoted : Bool)

inductive Redirect where
  | file (descriptor : Nat) (kind : RedirectKind) (target : List Part)
  /-- Reads a text of the script itself. -/
  | document (descriptor : Nat) (number : Nat)

inductive Command where
  | nothing
  | simple (line : Nat) (assignments : List (List Char × List Part)) (words : List (List Part))
      (redirects : List Redirect)
  | seq (a b : Command)
  | both (a b : Command)
  | either (a b : Command)
  | not (a : Command)
  | pipe (a b : Command)
  | background (a : Command)
  | cond (test yes no : Command)
  | each (line : Nat) (name : List Char) (words : List (List Part)) (body : Command)
  /-- Repeats the body as long as the test gives `goal`. -/
  | loop (goal : Bool) (test body : Command)
  /-- The first case with a pattern that the subject fits. -/
  | choose (line : Nat) (subject : List Part) (cases : List (List (List Part) × Command))
  | group (line : Nat) (a : Command) (redirects : List Redirect)
  | subshell (line : Nat) (a : Command) (redirects : List Redirect)
  | define (name : List Char) (body : Command)
  /-- The texts of the script that the command reads, by number. -/
  | documents (texts : List (Nat × List Part)) (a : Command)

end

abbrev Word := List Part

/-- The text of a word in which nothing is quoted or filled in. -/
def plain? : Word → Option (List Char)
  | [] => some []
  | .text cs false :: w => (plain? w).map (cs ++ ·)
  | _ => none

end FirmwareTasks.Shell
