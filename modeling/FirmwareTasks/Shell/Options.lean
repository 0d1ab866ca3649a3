import FirmwareTasks.Shell.Session
/-!
The options of a shell, as they stand in front of its arguments and of those of its command `set`.
-/
namespace FirmwareTasks.Shell.Options

/-- The options by name, with the letters they have. -/
def known : List (String × Option Char) :=
  [("errexit", some 'e'), ("noglob", some 'f'), ("ignoreeof", some 'I'), ("interactive", some 'i'),
    ("monitor", some 'm'), ("noexec", some 'n'), ("stdin", some 's'), ("xtrace", some 'x'),
    ("verbose", some 'v'), ("vi", some 'V'), ("emacs", some 'E'), ("noclobber", some 'C'),
    ("allexport", some 'a'), ("notify", some 'b'), ("nounset", some 'u'), ("privileged", some 'p'),
    ("nolog", none), ("debug", none)]

def switch (options : List String) (name : String) (on : Bool) : List String :=
  let others := options.filter (· ≠ name)
  if on then name :: others else others

def letters (options : List String) : Bytes :=
  known.filterMap fun (name, letter) =>
    if options.contains name then letter.map fun c => c.toNat.toUInt8 else none

/-- All options as they are, for reading, or as commands. -/
def table (options : List String) (asCommands : Bool) : Bytes :=
  if asCommands then
    known.flatMap fun (name, _) =>
      Utf8.encode ("set " ++ (if options.contains name then "-o " else "+o ") ++ name ++ "\n")
  else
    Utf8.encode "Current option settings\n" ++ known.flatMap fun (name, _) =>
      let gap := String.ofList (.replicate (16 - name.length) ' ')
      Utf8.encode (name ++ gap ++ (if options.contains name then "on" else "off") ++ "\n")

/-- What arguments come to. -/
structure Parsed where
  options : List String
  rest : List Bytes
  /-- Whether the script is one of the arguments. -/
  hasText : Bool := false
  /-- Whether it is said that there are no arguments. -/
  clears : Bool := false
  /-- What is to be shown. -/
  shown : Bytes := []

/-- Takes the letters of one argument; more of them are known `atStart` of a shell. -/
def takeLetters (atStart on : Bool) : Bytes → Parsed → Except Bytes Parsed
  | [], p => .ok p
  | b :: bs, p =>
    if atStart && b = 99 then takeLetters atStart on bs { p with hasText := true }
    else if atStart && b = 108 then takeLetters atStart on bs p
    else if b = 111 then
      match p.rest with
      | [] =>
        let all := if atStart then known.map (·.1) else p.options
        takeLetters atStart on bs { p with shown := p.shown ++ table all !on }
      | name :: rest =>
        match known.find? (Utf8.encode ·.1 = name) with
        | some (name, _) =>
          takeLetters atStart on bs { p with options := switch p.options name on, rest }
        | none => .error (Utf8.encode "Illegal option -o " ++ name)
    else
      match known.find? fun o => o.2.any (·.toNat.toUInt8 = b) with
      | some (name, _) => takeLetters atStart on bs { p with options := switch p.options name on }
      | none => .error (Utf8.encode "Illegal option -" ++ [b])

/-- Takes the options in front of arguments; `fuel` bounds these. -/
def take (atStart : Bool) : Nat → Parsed → Except Bytes Parsed
  | 0, p => .ok p
  | fuel + 1, p =>
    match p.rest with
    | [45] :: rest =>
      if atStart then .ok { p with rest }
      else .ok { p with rest, options := switch (switch p.options "xtrace" false) "verbose" false }
    | [45, 45] :: rest => .ok { p with rest, clears := !atStart && rest.isEmpty }
    | (sign :: letters) :: rest =>
      if sign = 45 || sign = 43 then
        match takeLetters atStart (sign = 45) letters { p with rest } with
        | .ok p => take atStart fuel p
        | .error e => .error e
      else .ok p
    | _ => .ok p

end FirmwareTasks.Shell.Options
