import FirmwareTasks.Shell.Field
import FirmwareTasks.Shell.Options
/-!
The commands of a shell that set its variables, arguments and options.
-/
namespace FirmwareTasks.Shell.Setting

open Step

def divide (s : Bytes) : Bytes × Option Bytes :=
  match s.dropWhile (· ≠ 61) with
  | [] => (s, none)
  | _ :: value => (s.takeWhile (· ≠ 61), some value)

/-- Refuses what cannot be the name of a variable. -/
def checkName (name : Bytes) : Step Unit := do
  if !isName (charsOf name) then refuse (name ++ Utf8.encode ": bad variable name")

/-- Sets a variable with a name that has yet to be looked at. -/
def assign (name value : Bytes) : Step Unit := do
  checkName name
  setVar name value

def list (front : String) (chosen : Variable → Bool) : Step Nat := do
  let vars := (← get).vars.filter fun v => chosen v.2
  for (name, v) in vars.mergeSort fun v w => v.1 ≤ w.1 do
    let value : Bytes := match v.value with
      | some value => 61 :: quoted value
      | none => []
    say (Utf8.encode front ++ name ++ value ++ [10])
  return 0

/-- Gives variables a property and perhaps a value. -/
def declare (command : String) (has : Variable → Bool) (give : Variable → Variable)
    (args : List Bytes) : Step Nat := do
  let (options, args) ← options [112] [] args
  if !options.isEmpty || args.isEmpty then list (command ++ " ") has
  else
    for arg in args do
      let (name, value) := divide arg
      match value, (← get).vars.lookup name with
      | none, some v => modify fun s => { s with vars := s.vars.set name (give v) }
      | none, none =>
        checkName name
        alter name give
      | some value, _ =>
        checkName name
        alter name fun v => give { v with value := some value }
    return 0

def declareLocal (args : List Bytes) : Step Nat := do
  if (← get).frames.isEmpty then refuse (Utf8.encode "not in a function")
  for arg in args do
    let (name, value) := divide arg
    checkName name
    keep name
    match value with
    | some value => setVar name value
    | none => if ((← get).vars.lookup name).isNone then alter name id
  return 0

def unset (args : List Bytes) : Step Nat := do
  let (options, args) ← options [118, 102] [] args
  let isFunction := (options.getLast?.map (·.1)) = some 102
  for name in args do
    if isFunction then
      modify fun s => { s with functions := s.functions.filter (·.1 ≠ name) }
    else
      checkName name
      alter name id
      modify fun s => { s with vars := s.vars.filter (·.1 ≠ name) }
  return 0

def set (args : List Bytes) : Step Nat := do
  if args.isEmpty then return ← list "" fun v => v.value.isSome
  match Options.take false args.length { options := (← get).options, rest := args } with
  | .error e => refuse e
  | .ok p =>
    say p.shown
    modify fun s =>
      { s with
        options := p.options
        params := if p.rest.isEmpty && !p.clears then s.params else p.rest
        optIndex := if p.rest.isEmpty && !p.clears then s.optIndex else (1, 0) }
    return 0

def shift (args : List Bytes) : Step Nat := do
  let n ← match args with
    | [] => pure 1
    | arg :: _ => number arg
  if (← get).params.length < n then refuse (Utf8.encode "can't shift that many")
  modify fun s => { s with params := s.params.drop n, optIndex := (1, 0) }
  return 0

/-- What is left of a line, and whether it ends: the letters, of which those behind a backslash are
quoted unless backslashes are `raw`, and how many bytes it takes. -/
def takeLine (raw : Bool) : Bytes → List Letter × Nat × Bool
  | [] => ([], 0, false)
  | 10 :: _ => ([], 1, true)
  | 0 :: s => let (ls, n, ended) := takeLine raw s; (ls, n + 1, ended)
  | 92 :: b :: s =>
    if raw then let (ls, n, ended) := takeLine raw (b :: s); (⟨92, false⟩ :: ls, n + 1, ended)
    else
      let (ls, n, ended) := takeLine raw s
      (if b = 10 then ls else ⟨b, true⟩ :: ls, n + 2, ended)
  | b :: s =>
    let (ls, n, ended) := takeLine raw s
    (if b = 92 && !raw then ls else ⟨b, false⟩ :: ls, n + 1, ended)

/-- Letters without the blanks at their end; what is quoted does not keep those in front of it. -/
def trimEnd (isBlank : Letter → Bool) (ls : List Letter) : List Letter :=
  let last := (ls.reverse.takeWhile fun l => isBlank l || l.quoted).reverse
  ls.take (ls.length - last.length) ++ last.takeWhile fun l => !isBlank l

/-- The values that the fields of a line give so many variables. The last one gets all that is left,
but for blanks at the end and for a separator that ends the only field there. -/
def readFields (separators : Bytes) : Nat → List Letter → List Bytes
  | 0, _ => []
  | n + 1, ls =>
    let isSeparator (l : Letter) : Bool := !l.quoted && separators.contains l.byte
    let isBlank (l : Letter) : Bool := isSeparator l && Piece.isBlank l.byte
    let ls := ls.dropWhile isBlank
    if n = 0 then
      let trimmed := trimEnd isBlank ls
      let shorter := trimEnd isBlank trimmed.dropLast
      let kept := if trimmed.getLast?.any isSeparator && !shorter.any isSeparator then shorter
        else trimmed
      [kept.map (·.byte)]
    else
      let field := ls.takeWhile fun l => !isSeparator l
      let rest := (ls.drop field.length).dropWhile isBlank
      let rest := if rest.head?.any isSeparator then rest.tail.dropWhile isBlank else rest
      field.map (·.byte) :: readFields separators n rest

def read (args : List Bytes) : Step Nat := do
  let (options, names) ← options [114] [112] args
  if names.isEmpty then refuse (Utf8.encode "arg count")
  let s ← get
  let stream := s.ports.stream? 0
  let text := (stream.map s.system.left).getD []
  let (ls, n, ended) := takeLine (options.any (·.1 = 114)) text
  if let some stream := stream then MonadState.set { s with system := s.system.advance stream n }
  let separators := match s.vars.lookup (Utf8.encode "IFS") with
    | some v => v.value.getD []
    | none => [32, 9, 10]
  for (name, value) in names.zip (readFields separators names.length ls) do assign name value
  return if ended then 0 else 1

/-- The letter that comes next among options, and where the one after it stands; `index` counts the
arguments from one, and `offset` the letters of the argument before it. -/
def nextOption (args : List Bytes) (index offset : Nat) : Option (UInt8 × Bytes × Nat) :=
  let pending := ((args[index - 2]?).getD []).drop offset
  match if 1 < index ∧ offset ≠ 0 then pending else [] with
  | c :: more => some (c, more, index)
  | [] =>
    match args[index - 1]? with
    | some (45 :: c :: more) => if c = 45 ∧ more = [] then none else some (c, more, index + 1)
    | _ => none

def getOption (args : List Bytes) : Step Nat := do
  match args with
  | known :: name :: own =>
    let s ← get
    let args := if own.isEmpty then s.params else own
    let index := max 1 s.optIndex.1
    match nextOption args index s.optIndex.2 with
    | none =>
      let isEnd := args[index - 1]? = some [45, 45]
      finish name 63 (if isEnd then index + 1 else index) 0
      return 1
    | some (c, more, index) =>
      let offset := ((args[index - 2]?).getD []).length - more.length
      let quiet := known.head? = some 58
      let place := if c = 58 then none else known.idxOf? c
      match place with
      | none =>
        if quiet then setVar optArg [c] else do
          unsetArg
          tell (Utf8.encode "Illegal option -" ++ [c])
        finish name 63 index (if more = [] then 0 else offset)
      | some i =>
        if known[i + 1]? ≠ some 58 then
          setVar optArg []
          finish name c index (if more = [] then 0 else offset)
        else if more ≠ [] then
          setVar optArg more
          finish name c index 0
        else
          match args[index - 1]? with
          | some value =>
            setVar optArg value
            finish name c (index + 1) 0
          | none =>
            if quiet then setVar optArg [c] else do
              unsetArg
              tell (Utf8.encode "No arg for -" ++ [c] ++ Utf8.encode " option")
            finish name (if quiet then 58 else 63) index 0
      return 0
  | _ => refuse (Utf8.encode "Usage: getopts optstring var [arg...]")
where
  optArg : Bytes := Utf8.encode "OPTARG"
  unsetArg : Step Unit := modify fun s => { s with vars := s.vars.filter (·.1 ≠ optArg) }
  tell (text : Bytes) : Step Unit := modify fun s =>
    { s with system := s.system.writeTo (text ++ [10]) s.ports 2 }
  finish (name : Bytes) (c : UInt8) (index offset : Nat) : Step Unit := do
    setVar (Utf8.encode "OPTIND") (Utf8.encode (toString index))
    assign name [c]
    modify fun s => { s with optIndex := (index, offset) }

end FirmwareTasks.Shell.Setting
