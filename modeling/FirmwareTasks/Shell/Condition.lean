import FirmwareTasks.Shell.Session
/-!
The conditions that a shell tests: about files, texts and numbers, and what is made of those. A
condition is a list of arguments; a reader stops at the last one that it has taken.
-/
namespace FirmwareTasks.Shell.Condition

/-- What an argument is taken for. -/
inductive Sign where
  | operand
  | one
  | two
  | not
  | both
  | either
  | opening
  | closing
  | missing
deriving DecidableEq, Repr

def unary : List String :=
  ["-r", "-w", "-x", "-e", "-f", "-d", "-c", "-b", "-p", "-u", "-g", "-k", "-s", "-t", "-z", "-n",
    "-h", "-O", "-G", "-L", "-S"]

def binary : List String :=
  ["=", "!=", "<", ">", "-eq", "-ne", "-ge", "-gt", "-le", "-lt", "-nt", "-ot", "-ef"]

def Sign.ofArg (s : Bytes) : Sign :=
  let text := Utf8.lossy s
  if unary.contains text then one
  else if binary.contains text then two
  else match text with
    | "!" => not
    | "-a" => both
    | "-o" => either
    | "(" => opening
    | ")" => closing
    | _ => operand

/-- What the first argument is among those that follow it. -/
def Sign.next : List Bytes → Sign
  | [] => missing
  | s :: rest =>
    match ofArg s, rest with
    | one, [] => operand
    | one, [_] => one
    | one, t :: _ => if ofArg t = two then operand else one
    | opening, [] => operand
    | sign, _ => sign

def testFile (s : Session) (op : String) (arg : Bytes) : Bool :=
  let t := s.system.tree
  let isDevice := arg = Utf8.encode "/dev/null"
  let entry := (t.follow s.site ⟨arg⟩).toOption.bind t.at?
  match op with
  | "-e" | "-r" | "-w" | "-O" | "-G" => isDevice || entry.isSome
  | "-c" => isDevice
  | "-f" => entry.any Entry.isFile
  | "-d" => entry.any Entry.isDir
  | "-s" => match entry with
    | some (.file content _) => !content.isEmpty
    | e => e.isSome
  | "-x" => match entry with
    | some (.file _ x) => x
    | e => e.isSome
  | "-h" | "-L" => match (t.locate s.site ⟨arg⟩).toOption.bind t.at? with
    | some (.link _) => true
    | _ => false
  | _ => false

def numberOf (s : Bytes) : Except Bytes Int :=
  match integer? s with
  | some n => .ok n
  | none => .error (Utf8.encode "Illegal number: " ++ s)

def testOne (s : Session) (op arg : Bytes) : Except Bytes Bool :=
  match Utf8.lossy op with
  | "-z" => .ok arg.isEmpty
  | "-n" => .ok !arg.isEmpty
  | "-t" => (numberOf arg).map fun _ => false
  | op => .ok (testFile s op arg)

def testTwo (s : Session) (a op b : Bytes) : Except Bytes Bool :=
  let numbers (r : Int → Int → Bool) : Except Bytes Bool := do
    return r (← numberOf a) (← numberOf b)
  match Utf8.lossy op with
  | "=" => .ok (a = b)
  | "!=" => .ok (a ≠ b)
  | "<" => .ok (a < b)
  | ">" => .ok (b < a)
  | "-eq" => numbers fun a b => a = b
  | "-ne" => numbers fun a b => a ≠ b
  | "-lt" => numbers fun a b => a < b
  | "-le" => numbers fun a b => a ≤ b
  | "-gt" => numbers fun a b => b < a
  | "-ge" => numbers fun a b => b ≤ a
  | "-ef" => .ok <| match s.system.tree.follow s.site ⟨a⟩, s.system.tree.follow s.site ⟨b⟩ with
    | .ok p, .ok q => p = q
    | _, _ => false
  | _ => .ok false

def fault (of : Bytes) (text : String) : Bytes :=
  (if of.isEmpty then [] else of ++ Utf8.encode ": ") ++ Utf8.encode text

abbrev Result := Except Bytes (Bool × List Bytes)

mutual

def takeEither (s : Session) : Nat → List Bytes → Result
  | 0, args => .ok (false, args)
  | fuel + 1, args => do
    let (a, args) ← takeBoth s fuel (Sign.next args) args
    moreEither s fuel a args

def moreEither (s : Session) : Nat → Bool → List Bytes → Result
  | 0, a, args => .ok (a, args)
  | fuel + 1, a, args => do
    if Sign.next args.tail ≠ .either then return (a, args)
    let (b, args) ← takeBoth s fuel (Sign.next (args.drop 2)) (args.drop 2)
    moreEither s fuel (a || b) args

/-- Conditions that are all to hold, of which the first begins with a sign. -/
def takeBoth (s : Session) : Nat → Sign → List Bytes → Result
  | 0, _, args => .ok (false, args)
  | fuel + 1, sign, args => do
    let (a, args) ← takeNot s fuel sign args
    moreBoth s fuel a args

def moreBoth (s : Session) : Nat → Bool → List Bytes → Result
  | 0, a, args => .ok (a, args)
  | fuel + 1, a, args => do
    if Sign.next args.tail ≠ .both then return (a, args)
    let (b, args) ← takeNot s fuel (Sign.next (args.drop 2)) (args.drop 2)
    moreBoth s fuel (a && b) args

def takeNot (s : Session) : Nat → Sign → List Bytes → Result
  | 0, _, args => .ok (false, args)
  | fuel + 1, sign, args => do
    if sign ≠ .not then takePrimary s fuel sign args
    else
      let next := Sign.next args.tail
      let (a, args) ← takeNot s fuel next (if next = .missing then args else args.tail)
      return (!a, args)

def takePrimary (s : Session) : Nat → Sign → List Bytes → Result
  | 0, _, args => .ok (false, args)
  | fuel + 1, sign, args => do
    match sign, args with
    | .missing, args => return (false, args)
    | .opening, _ :: args =>
      if Sign.next args = .closing then return (false, args)
      let (a, args) ← takeEither s fuel args
      if Sign.next args.tail ≠ .closing then throw (fault [] "closing paren expected")
      return (a, args.tail)
    | .one, op :: arg :: rest => return (← testOne s op arg, arg :: rest)
    | .one, [op] => throw (fault op "argument expected")
    | _, a :: op :: rest =>
      if Sign.next (op :: rest) = .two then
        match rest with
        | [] => throw (fault op "argument expected")
        | b :: rest => return (← testTwo s a op b, b :: rest)
      else return (!a.isEmpty, a :: op :: rest)
    | _, args => return (!(args.headD []).isEmpty, args)

end

/-- Whether a condition holds that begins with a sign; all arguments have to belong to it. -/
def whole (s : Session) (sign : Sign) (args : List Bytes) : Except Bytes Bool := do
  let fuel := 8 * args.length + 8
  let (a, args) ← takeBoth s fuel sign args
  let (a, args) ← moreEither s fuel a args
  match args with
  | last :: _ :: _ => throw (fault last "unexpected operator")
  | _ => return a

/-- Whether the condition that arguments are holds. Three arguments with a comparison among them are
just that, whatever the others look like. -/
def evaluate (s : Session) : List Bytes → Except Bytes Bool
  | [] => .ok false
  | [a, op, b] =>
    if Sign.ofArg op = .two then whole s .operand [a, op, b]
    else if a = [40] ∧ b = [41] then whole s (Sign.next [op]) [op]
    else if a = [33] then (evaluate s [op, b]).map (! ·)
    else whole s (Sign.next [a, op, b]) [a, op, b]
  | [a, b, c, d] =>
    if a = [40] ∧ d = [41] then whole s (Sign.next [b, c]) [b, c]
    else if a = [33] then (evaluate s [b, c, d]).map (! ·)
    else whole s (Sign.next [a, b, c, d]) [a, b, c, d]
  | args => whole s (Sign.next args) args

end FirmwareTasks.Shell.Condition
