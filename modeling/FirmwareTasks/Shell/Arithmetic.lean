/-!
The expressions that a shell computes, over words of 64 bits. What a condition makes unnecessary is
read, but not computed.
-/
namespace FirmwareTasks.Shell.Arithmetic

inductive Token where
  | number (n : Int64)
  | name (cs : List Char)
  | sign (s : String)
  | unknown
  | endOfText
deriving DecidableEq, Repr

/-- Why there is no value. -/
inductive Fault where
  | expecting (what : String)
  | divisionByZero
  /-- The value of a variable is no number. -/
  | notNumber (text : List Char)
deriving DecidableEq, Repr

def Fault.message (expr : String) : Fault → String
  | expecting what => "arithmetic expression: expecting " ++ what ++ ": \"" ++ expr ++ "\""
  | divisionByZero => "arithmetic expression: division by zero: \"" ++ expr ++ "\""
  | notNumber text => "Illegal number: " ++ .ofList text

def signs : List String :=
  ["<<=", ">>=", "<=", ">=", "==", "!=", "&&", "||", "<<", ">>", "*=", "/=", "%=", "+=", "-=", "&=",
    "^=", "|=", "+", "-", "*", "/", "%", "<", ">", "&", "|", "^", "~", "!", "(", ")", "?", ":", "="]

def digit? (base : Nat) (c : Char) : Option Nat :=
  let d := if c.isDigit then c.toNat - '0'.toNat
    else if c.isAlpha then c.toLower.toNat - 'a'.toNat + 10 else base
  if d < base then some d else none

/-- The digits in front, as a number, and what is behind them. -/
def takeDigits (base : Nat) : Nat → List Char → Nat × List Char
  | n, c :: cs =>
    match digit? base c with
    | some d => takeDigits base (base * n + d) cs
    | none => (n, c :: cs)
  | n, [] => (n, [])

def greatest : Nat := 9223372036854775807

/-- The number in front, in base 8 behind a zero and in base 16 behind `0x`. -/
def takeNumber (cs : List Char) : Nat × List Char :=
  match cs with
  | '0' :: x :: d :: rest =>
    if (x = 'x' || x = 'X') && (digit? 16 d).isSome then takeDigits 16 0 (d :: rest)
    else takeDigits 8 0 cs
  | '0' :: _ => takeDigits 8 0 cs
  | _ => takeDigits 10 0 cs

def isGap (c : Char) : Bool := " \t\n".toList.contains c

def next (cs : List Char) : Token × List Char :=
  match cs.dropWhile isGap with
  | [] => (.endOfText, [])
  | c :: cs =>
    if c.isDigit then
      let (n, rest) := takeNumber (c :: cs)
      (.number (.ofNat (min n greatest)), rest)
    else if c.isAlpha || c = '_' then
      let isLetter (c : Char) := c.isAlphanum || c = '_'
      (.name ((c :: cs).takeWhile isLetter), (c :: cs).dropWhile isLetter)
    else
      match signs.find? fun s => s.toList.isPrefixOf (c :: cs) with
      | some s => (.sign s, (c :: cs).drop s.length)
      | none => (.unknown, c :: cs)

/-- The number that the value of a variable is; one without a value counts as zero. -/
def valueOf (text : List Char) : Except Fault Int64 :=
  let isBlank (c : Char) := isGap c || "\x0b\x0c\r".toList.contains c
  let body := text.dropWhile isBlank
  let negative := body.head? = some '-'
  let digits := if negative || body.head? = some '+' then body.tail else body
  if digits.head?.any Char.isDigit then
    let (n, rest) := takeNumber digits
    if rest.all isBlank && n ≤ (if negative then greatest + 1 else greatest) then
      .ok (.ofInt (if negative then -n else n))
    else .error (.notNumber text)
  else if text.all isBlank then .ok 0
  else .error (.notNumber text)

structure State where
  /-- The values of variables from outside. -/
  outer : List Char → List Char
  rest : List Char
  token : Token := .endOfText
  /-- The variables that have been set, the latest first. -/
  assigned : List (List Char × Int64) := []

abbrev Reader := EStateM Fault State

def step : Reader Unit := modify fun s =>
  let (token, rest) := next s.rest
  { s with token, rest }

def lookup (name : List Char) : Reader Int64 := do
  let s ← get
  match s.assigned.lookup name with
  | some n => return n
  | none =>
    match valueOf (s.outer name) with
    | .ok n => return n
    | .error f => throw f

/-- How tightly a sign binds the operands at its sides; the least binds most. -/
def rank? : Token → Option Nat
  | .sign s =>
    if ["*", "/", "%"].contains s then some 0
    else if ["+", "-"].contains s then some 1
    else if ["<<", ">>"].contains s then some 2
    else if ["<", "<=", ">", ">="].contains s then some 3
    else if ["==", "!="].contains s then some 4
    else if s = "&" then some 5
    else if s = "^" then some 6
    else if s = "|" then some 7
    else none
  | _ => none

def rankCount : Nat := 8

def ofBool (b : Bool) : Int64 := if b then 1 else 0

def compute (op : String) (a b : Int64) : Except Fault Int64 :=
  match op with
  | "*" => .ok (a * b)
  | "/" => if b = 0 then .error .divisionByZero else .ok (a / b)
  | "%" => if b = 0 then .error .divisionByZero else .ok (a % b)
  | "+" => .ok (a + b)
  | "-" => .ok (a - b)
  | "<<" => .ok (a <<< b)
  | ">>" => .ok (a >>> b)
  | "<" => .ok (ofBool (a < b))
  | "<=" => .ok (ofBool (a ≤ b))
  | ">" => .ok (ofBool (b < a))
  | ">=" => .ok (ofBool (b ≤ a))
  | "==" => .ok (ofBool (a = b))
  | "!=" => .ok (ofBool (a ≠ b))
  | "&" => .ok (a &&& b)
  | "^" => .ok (a ^^^ b)
  | _ => .ok (a ||| b)

/-- Applies a sign to two operands, if that is needed. -/
def apply (skip : Bool) (op : String) (a b : Int64) : Reader Int64 :=
  if skip then return b
  else match compute op a b with
    | .ok n => return n
    | .error f => throw f

/-- The sign of an assignment without its last character, which is the sign to compute with. -/
def assigner? : Token → Option String
  | .sign s =>
    if ["=", "*=", "/=", "%=", "+=", "-=", "&=", "^=", "|=", "<<=", ">>="].contains s then
      some (.ofList s.toList.dropLast)
    else none
  | _ => none

mutual

def takeAssignment : Nat → Bool → Reader Int64
  | 0, _ => return 0
  | fuel + 1, skip => do
    let s ← get
    match s.token, assigner? (next s.rest).1 with
    | .name name, some op =>
      step
      step
      let value ← takeAssignment fuel skip
      if skip then return value
      let value ← if op = "" then pure value else apply false op (← lookup name) value
      modify fun s => { s with assigned := (name, value) :: s.assigned }
      return value
    | _, _ => takeChoice fuel skip

def takeChoice : Nat → Bool → Reader Int64
  | 0, _ => return 0
  | fuel + 1, skip => do
    let a ← takeEither fuel skip
    if (← get).token ≠ .sign "?" then return a
    step
    let b ← takeAssignment fuel (skip || a = 0)
    if (← get).token ≠ .sign ":" then throw (.expecting "':'")
    step
    let c ← takeChoice fuel (skip || a ≠ 0)
    return if a ≠ 0 then b else c

def takeEither : Nat → Bool → Reader Int64
  | 0, _ => return 0
  | fuel + 1, skip => do
    let a ← takeBoth fuel skip
    if (← get).token ≠ .sign "||" then return a
    step
    let b ← takeEither fuel (skip || a ≠ 0)
    return ofBool (a ≠ 0 || b ≠ 0)

def takeBoth : Nat → Bool → Reader Int64
  | 0, _ => return 0
  | fuel + 1, skip => do
    let a ← takeOperand fuel skip
    let a ← takeOperations fuel skip rankCount a
    if (← get).token ≠ .sign "&&" then return a
    step
    let b ← takeBoth fuel (skip || a = 0)
    return ofBool (a ≠ 0 && b ≠ 0)

/-- What is computed from a first operand with signs that bind more tightly than a rank. -/
def takeOperations : Nat → Bool → Nat → Int64 → Reader Int64
  | 0, _, _, a => return a
  | fuel + 1, skip, limit, a => do
    match (← get).token, rank? (← get).token with
    | .sign op, some rank =>
      if limit ≤ rank then return a
      step
      let b ← takeOperand fuel skip
      let b ← takeOperations fuel skip rank b
      takeOperations fuel skip limit (← apply skip op a b)
    | _, _ => return a

def takeOperand : Nat → Bool → Reader Int64
  | 0, _ => return 0
  | fuel + 1, skip => do
    match (← get).token with
    | .number n =>
      step
      return n
    | .name name =>
      step
      if skip then return 0 else lookup name
    | .sign "(" =>
      step
      let n ← takeAssignment fuel skip
      if (← get).token ≠ .sign ")" then throw (.expecting "')'")
      step
      return n
    | .sign "+" =>
      step
      takeOperand fuel skip
    | .sign "-" =>
      step
      return -(← takeOperand fuel skip)
    | .sign "!" =>
      step
      return ofBool ((← takeOperand fuel skip) = 0)
    | .sign "~" =>
      step
      return ~~~(← takeOperand fuel skip)
    | _ => throw (.expecting "primary")

end

/-- The value of an expression if it has one, and the variables that it sets in any case, in order.
Every step down in the expression takes a character or one of few kinds of value. -/
def evaluate (outer : List Char → List Char) (expr : List Char) :
    Except Fault Int64 × List (List Char × Int64) :=
  let whole : Reader Int64 := do
    step
    let n ← takeAssignment (8 * expr.length + 16) false
    if (← get).token ≠ .endOfText then throw (.expecting "EOF")
    return n
  match whole { outer, rest := expr } with
  | .ok n s => (.ok n, s.assigned.reverse)
  | .error f s => (.error f, s.assigned.reverse)

example : (evaluate (fun _ => []) "1 + 2 * (7 % 4)".toList).1.toOption = some 7 := by
  decide +kernel
example : (evaluate (fun _ => ['4']) "x += y == 4 ? x : 0".toList).2 = [(['x'], 8)] := by
  decide +kernel

end FirmwareTasks.Shell.Arithmetic
