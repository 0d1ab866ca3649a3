/-!
What remains of a text for a terminal when it goes elsewhere: the characters that would be drawn,
and white space. Control characters are left out, and so are the sequences of characters that tell
a terminal what to do.
-/
namespace FirmwareTasks.Terminal

/-- Where in a sequence a terminal is. -/
inductive State where
  /-- In no sequence. -/
  | ground
  | escape
  | escapeMore
  /-- In a control sequence: before its parameters, in them, after them, or in one that is void. -/
  | control
  | params
  | controlMore
  | void
  /-- In a string for a device: before its parameters, in them, after them, in its data, or in one
  that is void. -/
  | device
  | deviceParams
  | deviceMore
  | deviceData
  | deviceVoid
  /-- In a command of the operating system. -/
  | command
  /-- In another string, which nothing is done with. -/
  | string
deriving DecidableEq, Repr

def isSpace (c : Char) : Bool := c = ' ' || c = '\t' || c = '\n' || c = '\r' || c = '\x0c'

/-- Whether a character outside of sequences is kept. -/
def isKept (c : Char) : Bool := isSpace c || (' ' ≤ c && c ≠ '\x7f')

/-- Whether a byte of a character ends a string for a device. -/
def endsString (c : Char) : Bool := '\x7f' < c && (String.singleton c).toUTF8.toList.contains 0x9C

/-- What a character that is no control does inside a sequence. -/
def advance : State → Char → State
  | .ground, _ => .ground
  | .escape, c =>
    if c ≤ '/' then .escapeMore
    else if c = '[' then .control
    else if c = ']' then .command
    else if c = 'P' then .device
    else if c = 'X' || c = '^' || c = '_' then .string
    else .ground
  | .escapeMore, c => if c ≤ '/' then .escapeMore else .ground
  | .control, c => if c ≤ '/' then .controlMore else if c ≤ '?' then .params else .ground
  | .params, c =>
    if c ≤ '/' then .controlMore
    else if c ≤ ';' then .params
    else if c ≤ '?' then .void
    else .ground
  | .controlMore, c => if c ≤ '/' then .controlMore else if c ≤ '?' then .void else .ground
  | .void, c => if c ≤ '?' then .void else .ground
  | .device, c => if c ≤ '/' then .deviceMore else if c ≤ '?' then .deviceParams else .deviceData
  | .deviceParams, c =>
    if c ≤ '/' then .deviceMore
    else if c ≤ ';' then .deviceParams
    else if c ≤ '?' then .deviceVoid
    else .deviceData
  | .deviceMore, c =>
    if c ≤ '/' then .deviceMore else if c ≤ '?' then .deviceVoid else .deviceData
  | s, _ => s

/-- Whether the controls in a sequence take effect and do not belong to it. -/
def State.isOpen : State → Bool
  | .ground | .escape | .escapeMore | .control | .params | .controlMore | .void => true
  | _ => false

/-- Where a terminal is after a character, and whether the character is kept. -/
def step (s : State) (c : Char) : State × Bool :=
  if c = '\x18' || c = '\x1a' then (.ground, false)
  else if c = '\x1b' then (.escape, false)
  else if c < ' ' then
    if s.isOpen then (s, isSpace c)
    else (if s = .command && c = '\x07' then .ground else s, false)
  else if s = .ground then (s, isKept c)
  else if c = '\x7f' then (s, false)
  else if '\x7f' < c then
    match s with
    | .deviceData | .deviceVoid | .string => (if endsString c then .ground else s, false)
    | s => (s, false)
  else (advance s c, false)

/-- The characters that are kept from a state on. `shown` tells whether the last one was: then the
next ones are taken as outside of sequences, but for controls. -/
def keep : Bool → State → List Char → List Char
  | _, _, [] => []
  | true, s, c :: cs =>
    if isKept c then c :: keep true (if '\x7f' < c then .ground else s) cs
    else keep false (step s c).1 cs
  | false, s, c :: cs =>
    let (next, kept) := step s c
    if kept then c :: keep true next cs else keep false next cs

def plain (s : String) : String := .ofList (keep false .ground s.toList)

example : plain "a\x1b[1;31mb\x00c\x1b]0;t\x07d\te" = "abcd\te" := by decide +kernel

end FirmwareTasks.Terminal
