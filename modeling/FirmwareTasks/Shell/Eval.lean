import FirmwareTasks.Shell.Arithmetic
import FirmwareTasks.Shell.Builtin
import FirmwareTasks.Shell.Grammar
import FirmwareTasks.Shell.Redirection
/-!
Running a shell script. Programs are started by a given executor; `fuel` bounds how long and how
deep a script runs, and one that goes on is ended as a process that has used up its time is.
-/
namespace FirmwareTasks.Shell

open Step

/-- Runs the program of a path to its end, or refuses to start it. -/
abbrev Executor := Bytes → Job → System → Except IoError (Ending × System)

/-- The stop of a process that has used up its time. -/
def spent : Stop := .struck 24

/-- What is known of the surroundings of a command. -/
structure How where
  /-- Whether it is asked how the command ends, so that a failure is no reason to end the shell. -/
  tested : Bool := false
  /-- Whether nothing comes after it, so that a program can take the shell's place. -/
  final : Bool := false

/-- What becomes of the text of a word. -/
inductive Cutting where
  | none
  /-- Values are cut into fields. -/
  | values
  /-- All that is not quoted is cut into fields. -/
  | all
deriving DecidableEq, Repr

/-- What a turn of a loop comes to. -/
inductive Turn where
  | done
  | next
  | out
deriving DecidableEq, Repr

namespace Session

def separators (s : Session) : Bytes :=
  match s.vars.lookup (Utf8.encode "IFS") with
  | some v => v.value.getD []
  | none => [32, 9, 10]

/-- Whether a parameter stands for every argument. -/
def isEvery (name : List Char) : Bool := name = ['@'] || name = ['*']

/-- The value of a parameter; a zero stands between arguments. -/
def value? (s : Session) (name : List Char) : Option Bytes :=
  let nat (n : Nat) : Option Bytes := some (Utf8.encode (toString n))
  match name with
  | ['@'] | ['*'] => some (Bytes.join 0 s.params)
  | ['#'] => nat s.params.length
  | ['?'] => nat s.status
  | ['$'] => nat pid
  | ['-'] => some (Options.letters s.options)
  | ['!'] => s.jobs.head?.bind fun j => nat j.1
  | cs =>
    if cs.all Char.isDigit then
      match (String.ofList cs).toNat?.getD 0 with
      | 0 => some s.zero
      | n + 1 => s.params[n]?
    else if cs = "PPID".toList then nat 1
    else (s.vars.lookup (bytesOf cs)).bind (·.value)

/-- Values side by side, with the first separator between them. -/
def joined (s : Session) (values : List Bytes) : Bytes :=
  (values.intersperse (s.separators.take 1)).flatten

def pieces (s : Session) (name : List Char) (value : Bytes) (cutting : Cutting) (quoted : Bool) :
    List Piece :=
  if !isEvery name then
    if quoted then Piece.quoted value
    else if cutting = .none then Piece.plain value
    else Piece.loose s.separators value
  else if s.params.isEmpty && value.isEmpty then []
  else
    let values := value.splitOn 0
    if cutting = .none || (quoted && name = ['*']) then
      if quoted then Piece.quoted (s.joined values) else Piece.plain (s.joined values)
    else if quoted then ((values.map Piece.quoted).intersperse [.cut]).flatten
    else ((values.map (Piece.loose s.separators)).intersperse [.gap]).flatten

def isTrapping (s : Session) : Bool := s.traps.any fun t => !t.2.isEmpty

end Session

/-- The home directory that a tilde with these letters behind it stands for. -/
def homeOf (s : Session) (letters : List Char) : Option Bytes :=
  if letters = [] then s.lookup "HOME"
  else if letters = "root".toList then some (Utf8.encode "/root")
  else none

/-- The letters that are neither quoted nor filled in. -/
def bareLetters : Word → List Char
  | .text [c] false :: w => if c = '/' || c = ':' then [] else c :: bareLetters w
  | _ => []

/-- A word with tildes filled in: in front, and in an assignment behind colons. -/
def fillTildes (s : Session) (inAssignment : Bool) : Bool → Word → Word
  | _, [] => []
  | true, .text ['~'] false :: w =>
    let letters := bareLetters w
    let isWhole := match w.drop letters.length with
      | [] => true
      | .text [c] false :: _ => c = '/' || (c = ':' && inAssignment)
      | _ => false
    match homeOf s letters with
    | some home =>
      if isWhole then
        .text (charsOf home) true :: fillTildes s inAssignment false (w.drop letters.length)
      else .text ['~'] false :: fillTildes s inAssignment false w
    | none => .text ['~'] false :: fillTildes s inAssignment false w
  | _, .text [':'] false :: w => .text [':'] false :: fillTildes s inAssignment inAssignment w
  | _, p :: w => p :: fillTildes s inAssignment false w
termination_by _ w => w.length

/-- What is said when a program cannot be run, and the status that follows. -/
def refusal (e : IoError) : String × Nat :=
  match e with
  | .noEntry | .notDirectory => ("not found", 127)
  | .nameTooLong => (IoError.systemText 36, 127)
  | .tooManyLinks => (IoError.systemText 40, 127)
  | .os n => (IoError.systemText n, 126)
  | .other text => (text, 126)

/-- The shell that reads a file which is no program by itself. -/
def shellPath : Bytes := Utf8.encode "/bin/sh"

/-- Runs the first of some paths at which there is a program. -/
def executeAt (execute : Executor) (job : Job) (system : System) :
    IoError → List Bytes → Except IoError (Ending × System)
  | last, [] => .error last
  | last, path :: paths =>
    let result := match execute path job system with
      | .error .notExecutableFormat =>
        execute shellPath { job with args := shellPath :: path :: job.args.tail } system
      | result => result
    match result with
    | .ok r => .ok r
    | .error e =>
      executeAt execute job system (if e = .noEntry ∨ e = .notDirectory then last else e) paths

def complainOfProgram (name : Bytes) (e : IoError) : Step Nat := do
  let (text, status) := refusal e
  complain (name ++ Utf8.encode (": " ++ text))
  return status

/-- Runs a program at one of some paths, as a process of its own or in the shell's place. -/
def launch (execute : Executor) (inPlace : Bool) (paths args : List Bytes) : Step Nat := do
  let s ← get
  match executeAt execute ⟨args, s.vars.handedOn, s.cwd, s.ports⟩ s.system .noEntry paths with
  | .error e =>
    let status ← complainOfProgram (args.headD []) e
    if inPlace then throw (.exit status) else return status
  | .ok (e, system) =>
    set { s with system }
    if inPlace then throw (.replaced e)
    if let some text := e.notice? then
      let s ← get
      set { s with system := s.system.writeTo (Utf8.encode (text ++ "\n")) s.ports 2 }
    return e.status

/-- The paths at which a program can be that is looked up in a search path. -/
def pathsIn (searchPath name : Bytes) : List Bytes :=
  if name.contains 47 then [name]
  else (SearchPath.split searchPath).map fun dir => if dir = [] then name else dir ++ 47 :: name

/-- Runs a program by its name. It is looked up first; where that finds it, it is then started. -/
def runProgram (execute : Executor) (final : Bool) (searchPath : Bytes) (name : Bytes)
    (args : List Bytes) : Step Nat := do
  let s ← get
  let inPlace := final && !s.isTrapping
  if name.contains 47 then launch execute inPlace [name] (name :: args)
  else match Naming.findIn s searchPath name with
    | .ok path =>
      launch execute inPlace ((pathsIn searchPath name).dropWhile (· ≠ path)) (name :: args)
    | .error e =>
      let _ ← complainOfProgram name e
      return 127

/-- Says how a copy of the shell ended that a signal ended, and gives the status. -/
def noteEnding (e : Ending) : Step Nat := do
  if let some text := e.notice? then
    let s ← get
    set { s with system := s.system.writeTo (Utf8.encode (text ++ "\n")) s.ports 2 }
  return e.status

/-- Runs a command of the shell's own under its name. One that is not `special` can fail and leave
the shell as it is. -/
def asBuiltin (special : Bool) (name : Bytes) (a : Step Nat) : Step Nat := do
  let s ← get
  set { s with command := name, jammed := false }
  let caught : Step Nat := fun s =>
    match a s with
    | .error .fault t => if special then .error .fault t else .ok 2 t
    | r => r
  let status ← always caught (modify fun t => { t with command := s.command })
  if (← get).jammed then
    set { ← get with command := name, jammed := false }
    complain (name ++ Utf8.encode ": I/O error")
    modify fun t => { t with command := s.command }
    return status ||| 1
  return status

/-- The command behind `command`, if that is to run one, with the search path that it says to
use. -/
def unwrap : Nat → List Bytes → Option Bytes → List Bytes × Option Bytes × Bool
  | 0, args, path => (args, path, false)
  | fuel + 1, args, path =>
    match args with
    | name :: rest =>
      if name ≠ Utf8.encode "command" then (args, path, false)
      else match takePlain rest path with
        | some (next :: rest, path) =>
          let (args, path, _) := unwrap fuel (next :: rest) path
          (args, path, true)
        | _ => (args, path, false)
    | [] => (args, path, false)
where
  takePlain : List Bytes → Option Bytes → Option (List Bytes × Option Bytes)
    | [], path => some ([], path)
    | (45 :: letters) :: rest, path =>
      if letters = [45] then some (rest, path)
      else if letters = [] then some ([45] :: rest, path)
      else if letters.all (· = 112) then takePlain rest (some Naming.systemPath)
      else none
    | args, path => some (args, path)

def commandName (args : List Bytes) : Bytes := (unwrap args.length args none).1.headD []

def isSpecialName (name : Bytes) : Bool := specialNames.contains (Utf8.lossy name)

/-- Whether the assignments among the arguments of a command are taken for such. -/
def declares (args : List Bytes) : Bool :=
  [Utf8.encode "export", Utf8.encode "readonly", Utf8.encode "local"].contains (commandName args)

def takeTurn (a : Step Unit) : Step Turn := fun s =>
  match a s with
  | .ok () t => .ok .done t
  | .error (.leave next (n + 2)) t => .error (.leave next (n + 1)) t
  | .error (.leave next _) t => .ok (if next then .next else .out) t
  | .error e t => .error e t

def untilBack (a : Step Unit) : Step Unit := fun s =>
  match a s with
  | .error .back t => .ok () t
  | r => r

def setStatus (status : Nat) : Step Unit := modify fun s => { s with status }

mutual

def expandPart (execute : Executor) : Nat → Cutting → Part → Step (List Piece)
  | 0, _, _ => throw spent
  | fuel + 1, cutting, part => do
    match part with
    | .text cs quoted =>
      let s ← get
      return if quoted then Piece.quoted (bytesOf cs)
        else if cutting = .all then Piece.loose s.separators (bytesOf cs)
        else Piece.plain (bytesOf cs)
    | .param name edit arg quoted =>
      let s ← get
      let value := s.value? name
      let inner := if cutting = .none then Cutting.none else .all
      let shown (v : Bytes) : Step (List Piece) := return (← get).pieces name v cutting quoted
      let isThere (emptyToo : Bool) : Bool := value.any fun v => !(emptyToo && v.isEmpty)
      let needed : Step Bytes := do
        match value with
        | some v => return v
        | none =>
          if s.options.contains "nounset" then
            refuse (bytesOf name ++ Utf8.encode ": parameter not set")
          else return []
      match edit with
      | .none => shown (← needed)
      | .length =>
        let v ← needed
        let v := if Session.isEvery name then s.joined (v.splitOn 0) else v
        return s.pieces ['#'] (Utf8.encode (toString v.length)) cutting quoted
      | .dropFront longest =>
        let v ← needed
        let p := Pattern.ofLetters (Piece.letters (← expandWord execute fuel .none true arg))
        shown (Pattern.dropFront longest p v)
      | .dropBack longest =>
        let v ← needed
        let p := Pattern.ofLetters (Piece.letters (← expandWord execute fuel .none true arg))
        shown (Pattern.dropBack longest p v)
      | .fallback emptyToo =>
        if isThere emptyToo then shown (value.getD []) else expandWord execute fuel inner true arg
      | .instead emptyToo =>
        if isThere !emptyToo then expandWord execute fuel inner true arg else return []
      | .assign emptyToo =>
        if isThere emptyToo then shown (value.getD [])
        else
          let v := Piece.text (← expandWord execute fuel .none true arg)
          Setting.assign (bytesOf name) v
          shown v
      | .demand emptyToo =>
        if isThere emptyToo then shown (value.getD [])
        else
          let text ←
            if arg.isEmpty then
              pure (Utf8.encode ("parameter not set" ++ if emptyToo then " or null" else ""))
            else do pure (Piece.text (← expandWord execute fuel .none true arg))
          refuse (bytesOf name ++ Utf8.encode ": " ++ text)
      | .bad => refuse (Utf8.encode "Bad substitution")
    | .output c quoted =>
      match c with
      | .nothing => return if quoted then Piece.quoted [] else []
      | c =>
        let (text, e) ← capture (run execute fuel { final := true } c) (atEnd execute fuel)
        let status ← noteEnding e
        modify fun s => { s with inner := status }
        let text := ((text.filter (· ≠ 0)).reverse.dropWhile (· = 10)).reverse
        return (← get).pieces [] text cutting quoted
    | .sum expr quoted =>
      let text := charsOf (Piece.text (← expandWord execute fuel .none false expr))
      let s ← get
      let outer (name : List Char) : List Char := charsOf ((s.value? name).getD [])
      let (result, assigned) := Arithmetic.evaluate outer text
      for (name, n) in assigned do setVar (bytesOf name) (Utf8.encode (toString n.toInt))
      match result with
      | .ok n => return (← get).pieces [] (Utf8.encode (toString n.toInt)) cutting quoted
      | .error f => refuse (bytesOf (f.message (.ofList text)).toList)

def expandParts (execute : Executor) : Nat → Cutting → Word → Step (List Piece)
  | 0, _, _ => throw spent
  | _, _, [] => return []
  | fuel + 1, cutting, part :: w => do
    let ps ← expandPart execute fuel cutting part
    return ps ++ (← expandParts execute fuel cutting w)

/-- The pieces that a word becomes, in which a tilde can stand for a directory. -/
def expandWord (execute : Executor) : Nat → Cutting → Bool → Word → Step (List Piece)
  | 0, _, _, _ => throw spent
  | fuel + 1, cutting, tildes, w => do
    expandParts execute fuel cutting (fillTildes (← get) false tildes w)

def expandValue (execute : Executor) : Nat → Word → Step Bytes
  | 0, _ => throw spent
  | fuel + 1, w => do
    return Piece.text (← expandParts execute fuel .none (fillTildes (← get) true true w))

/-- The arguments that words become, behind those that there are already. -/
def expandWords (execute : Executor) : Nat → List Word → List Bytes → Step (List Bytes)
  | 0, _, _ => throw spent
  | _, [], args => return args
  | fuel + 1, w :: ws, args => do
    match if declares args then assignment? w else none with
    | some (name, value) =>
      let value ← expandValue execute fuel value
      expandWords execute fuel ws (args ++ [bytesOf name ++ 61 :: value])
    | none =>
      let fields := Piece.fields (← expandWord execute fuel .values true w)
      let s ← get
      let more :=
        if s.options.contains "noglob" then fields.map fun f => f.map (·.byte)
        else fields.flatMap (Letter.arguments s.system.tree s.site)
      expandWords execute fuel ws (args ++ more)

/-- Sets variables, for the shell or for the command at hand only; gives what was set. -/
def assignAll (execute : Executor) :
    Nat → Bool → Bool → List (List Char × Word) → Step (List Bytes)
  | 0, _, _, _ => throw spent
  | _, _, _, [] => return []
  | fuel + 1, passing, exported, (name, w) :: rest => do
    let value ← expandValue execute fuel w
    let name := bytesOf name
    if passing then keep name
    setVar name value
    if exported then alter name fun v => { v with exported := true }
    return (name ++ 61 :: value) :: (← assignAll execute fuel passing exported rest)

def expandRedirects (execute : Executor) : Nat → List Redirect → Step (List (Nat × Opening))
  | 0, _ => throw spent
  | _, [] => return []
  | fuel + 1, r :: rs => do
    let o : Nat × Opening ← match r with
      | .document d n => do
        let w := ((← get).documents.lookup n).getD []
        pure (d, .text (Piece.text (← expandParts execute fuel .none w)))
      | .file d kind target => do
        let target := Piece.text (← expandWord execute fuel .none true target)
        match kind with
        | .same => pure (d, ← Opening.ofDescriptor target)
        | kind => pure (d, .file kind target)
    return o :: (← expandRedirects execute fuel rs)

def trace (execute : Executor) : Nat → Ports → List Bytes → Step Unit
  | 0, _, _ => throw spent
  | fuel + 1, ports, texts => do
    let s ← get
    if s.options.contains "xtrace" then
      let front := charsOf ((s.lookup "PS4").getD [])
      let w := match takeParts (16 * front.length + 64) .document { rest := front } with
        | .ok w _ => w
        | .error .. => [.text front true]
      set { s with options := Options.switch s.options "xtrace" false }
      let front := Piece.text (← expandParts execute fuel .none w)
      modify fun t => { t with
        options := s.options
        system := t.system.writeTo (front ++ Bytes.join 32 texts ++ [10]) ports 2 }

def run (execute : Executor) : Nat → How → Command → Step Unit
  | 0, _, _ => throw spent
  | fuel + 1, how, c => do
    if (← get).options.contains "noexec" then return ()
    match c with
    | .nothing => pure ()
    | .simple line assignments words rs =>
      modify fun s => { s with line, inner := 0 }
      let args ← expandWords execute fuel words []
      let before := (← get).ports
      let openings ← expandRedirects execute fuel rs
      let name := commandName args
      let special := isSpecialName (args.headD [])
      let passing := !args.isEmpty && !special
      let isExec := name = Utf8.encode "exec"
      let work : Step Nat := do
        if !(← openAll true openings) then
          setStatus 2
          if special then throw .fault
          return 2
        let exported := passing || (isExec && 1 < args.length)
        let assigned ← assignAll execute fuel passing exported assignments
        trace execute fuel before (assigned ++ args)
        match args with
        | [] => return (← get).inner
        | args => command execute fuel how special args
      let restored : Step Nat :=
        if isExec then work else always work (turnBack before (openings.map (·.1)))
      setStatus (← if passing then withFrame restored else restored)
      finish execute fuel how
    | .seq a b =>
      run execute fuel { tested := how.tested } a
      run execute fuel how b
    | .both a b =>
      run execute fuel { tested := true } a
      if (← get).status = 0 then run execute fuel how b
    | .either a b =>
      run execute fuel { tested := true } a
      if (← get).status ≠ 0 then run execute fuel how b
    | .not a =>
      run execute fuel { tested := true } a
      modify fun s => { s with status := Builtin.statusOf (s.status ≠ 0) }
    | .pipe a b =>
      let before := (← get).ports
      let (n, system) := (← get).system.addStream (.held [])
      modify fun s => { s with system, ports := s.ports.set 1 (some (.sink (.pipe n))) }
      let stage (c : Command) : Step Nat := do
        noteEnding (← inCopy (run execute fuel { how with final := true } c) (atEnd execute fuel))
      always (do
        let _ ← stage a
        modify fun s => { s with ports := before.set 0 (some (.stream n)) }
        match b with
        | .pipe .. => run execute fuel how b
        | b => setStatus (← stage b)) (turnBack before [0, 1])
      finish execute fuel how
    | .background a =>
      let before := (← get).ports
      let (n, system) := (← get).system.addStream (.held [])
      modify fun s => { s with system, ports := s.ports.set 0 (some (.stream n)) }
      let e ← always (inCopy (run execute fuel { final := true } a) (atEnd execute fuel))
        (turnBack before [0])
      modify fun s =>
        { s with status := 0, jobs := (Session.pid + 1 + s.jobs.length, e.status) :: s.jobs }
    | .cond t yes no =>
      run execute fuel { tested := true } t
      if (← get).status = 0 then run execute fuel how yes
      else match no with
        | .nothing => setStatus 0
        | no => run execute fuel how no
    | .each line name words body =>
      modify fun s => { s with line }
      let args ← expandWords execute fuel words []
      modify fun s => { s with status := 0, loops := s.loops + 1 }
      always (runEach execute fuel { tested := how.tested } (bytesOf name) body args)
        (modify fun s => { s with loops := s.loops - 1 })
    | .loop goal t body =>
      modify fun s => { s with loops := s.loops + 1 }
      always (runLoop execute fuel { tested := how.tested } goal t body 0)
        (modify fun s => { s with loops := s.loops - 1 })
    | .choose line subject cases =>
      modify fun s => { s with line }
      let text := Piece.text (← expandWord execute fuel .none true subject)
      match ← chooseCase execute fuel text cases with
      | none | some .nothing => setStatus 0
      | some c => run execute fuel how c
    | .group line a rs =>
      modify fun s => { s with line }
      let before := (← get).ports
      let openings ← expandRedirects execute fuel rs
      always (do
        if ← openAll true openings then run execute fuel { tested := how.tested } a
        else setStatus 2) (turnBack before (openings.map (·.1)))
      finish execute fuel how
    | .subshell line a rs =>
      modify fun s => { s with line }
      let openings ← expandRedirects execute fuel rs
      let inPlace := how.final && !(← get).isTrapping
      let e ← inCopy (do
        if ← openAll false openings then run execute fuel { how with final := true } a
        else throw (.exit 2)) (atEnd execute fuel)
      if inPlace then throw (.replaced e)
      setStatus (← noteEnding e)
      finish execute fuel how
    | .define name body =>
      let documents := (← get).documents
      let body := if documents.isEmpty then body else .documents documents body
      let name := bytesOf name
      modify fun s => { s with
        functions := (name, body) :: s.functions.filter (·.1 ≠ name), status := 0 }
    | .documents texts a =>
      let before := (← get).documents
      modify fun s => { s with documents := texts }
      always (run execute fuel how a) (modify fun s => { s with documents := before })

def command (execute : Executor) : Nat → How → Bool → List Bytes → Step Nat
  | 0, _, _, _ => throw spent
  | fuel + 1, how, special, args => do
    let (args, searchPath, wrapped) := unwrap args.length args none
    let s ← get
    let name := args.headD []
    let rest := args.tail
    match if wrapped then none else s.functions.lookup name with
    | some body =>
      set { s with params := rest, loops := 0, optIndex := (1, 0) }
      always (untilBack (run execute fuel { tested := how.tested } body)) do
        modify fun t => { t with params := s.params, loops := s.loops, optIndex := s.optIndex }
      return (← get).status
    | none =>
      let own (a : Step Nat) : Step Nat := asBuiltin special name a
      match Utf8.lossy name with
      | "eval" => own (runText execute fuel { tested := how.tested } (charsOf (Bytes.join 32 rest)))
      | "exec" => own do
        let (_, rest) ← options [] [] rest
        match rest with
        | [] => return 0
        | name :: _ => launch execute true (pathsIn (((← get).lookup "PATH").getD []) name) rest
      | "." => own do
        let (_, rest) ← options [] [] rest
        match rest with
        | [] => return 0
        | path :: _ => readIn execute fuel how path
      | "command" => own (Naming.ask rest)
      | _ =>
        match Builtin.ofName? name with
        | some b => own (b rest)
        | none =>
          let path := searchPath.getD ((s.lookup "PATH").getD [])
          runProgram execute how.final path name rest

/-- Runs a script in a file as part of the script at hand. -/
def readIn (execute : Executor) : Nat → How → Bytes → Step Nat
  | 0, _, _ => throw spent
  | fuel + 1, how, name => do
    let s ← get
    let found := (pathsIn ((s.lookup "PATH").getD []) name).find? fun path =>
      name.contains 47 || s.system.tree.isFileAt s.site ⟨path⟩
    match found with
    | none => refuse (name ++ Utf8.encode ": not found")
    | some path =>
      match Tree.read s.site ⟨path⟩ s.system.tree with
      | .error .isDirectory => return 0
      | .error e =>
        let _ ← Opening.complainOf false path e
        setStatus 2
        throw .fault
      | .ok text =>
        set { s with command := path, status := 0 }
        untilBack (runLines execute fuel { tested := how.tested } true { rest := charsOf text })
        return (← get).status

/-- Runs the body of a loop for each value of its variable. -/
def runEach (execute : Executor) : Nat → How → Bytes → Command → List Bytes → Step Unit
  | 0, _, _, _, _ => throw spent
  | _, _, _, _, [] => pure ()
  | fuel + 1, how, name, body, value :: values => do
    setVar name value
    match ← takeTurn (run execute fuel how body) with
    | .out => pure ()
    | _ => runEach execute fuel how name body values

/-- Repeats the body of a loop, which ended with a status the last time. -/
def runLoop (execute : Executor) : Nat → How → Bool → Command → Command → Nat → Step Unit
  | 0, _, _, _, _, _ => throw spent
  | fuel + 1, how, goal, t, body, status => do
    match ← takeTurn (run execute fuel { tested := true } t) with
    | .out => setStatus status
    | .next => runLoop execute fuel how goal t body status
    | .done =>
      if ((← get).status = 0) ≠ goal then setStatus status
      else match ← takeTurn (run execute fuel how body) with
        | .out => pure ()
        | _ => runLoop execute fuel how goal t body (← get).status

/-- The command of the first case with a pattern that a text fits. -/
def chooseCase (execute : Executor) :
    Nat → Bytes → List (List Word × Command) → Step (Option Command)
  | 0, _, _ => throw spent
  | _, _, [] => return none
  | fuel + 1, text, (patterns, c) :: cases => do
    if ← fitsAny execute fuel text patterns then return some c
    else chooseCase execute fuel text cases

def fitsAny (execute : Executor) : Nat → Bytes → List Word → Step Bool
  | 0, _, _ => throw spent
  | _, _, [] => return false
  | fuel + 1, text, w :: ws => do
    let letters := Piece.letters (← expandWord execute fuel .none true w)
    if Pattern.fits (Pattern.ofLetters letters) text then return true
    else fitsAny execute fuel text ws

/-- Runs the traps of signals that have come, and ends the shell after a failure if it is to end
then. -/
def finish (execute : Executor) : Nat → How → Step Unit
  | 0, _ => throw spent
  | fuel + 1, how => do
    runTraps execute fuel
    let s ← get
    if s.status ≠ 0 && !how.tested && s.options.contains "errexit" then throw (.exit s.status)

def runTraps (execute : Executor) : Nat → Step Unit
  | 0 => throw spent
  | fuel + 1 => do
    let s ← get
    match s.caught, s.mainTraps with
    | n :: caught, none =>
      set { s with caught, before := some (s.before.getD s.status) }
      match s.traps.lookup n with
      | some text =>
        let _ ← runText execute fuel {} (charsOf text)
      | none => pure ()
      modify fun t => { t with before := s.before, status := s.status }
      runTraps execute fuel
    | _, _ => pure ()

def atEnd (execute : Executor) : Nat → Step Unit
  | 0 => throw spent
  | fuel + 1 => do
    let s ← get
    match s.traps.lookup 0 with
    | some text =>
      set { s with traps := s.traps.filter (·.1 ≠ 0) }
      let _ ← runText execute fuel {} (charsOf text)
    | none => pure ()

/-- Runs a script line by line; one in a file can be shown while it is read. -/
def runLines (execute : Executor) : Nat → How → Bool → Source → Step Unit
  | 0, _, _, _ => throw spent
  | fuel + 1, how, inFile, source => do
    match source.next with
    | .error (f, line) =>
      modify fun s => { s with line }
      refuse (Utf8.encode ("Syntax error: " ++ f.message))
    | .ok (none, _) => pure ()
    | .ok (some c, source') =>
      let s ← get
      if inFile && s.options.contains "verbose" then
        let shown := source.rest.take (source.rest.length - source'.rest.length)
        set { s with system := s.system.writeTo (bytesOf shown) s.ports 2 }
      run execute fuel { how with final := how.final && !inFile && source'.atEnd } c
      runLines execute fuel how inFile source'

/-- Runs a script that is a text; gives the status of its last command. -/
def runText (execute : Executor) : Nat → How → List Char → Step Nat
  | 0, _, _ => throw spent
  | fuel + 1, how, text => do
    let isEmpty := match ({ rest := text } : Source).next with
      | .ok (none, _) => true
      | _ => false
    if isEmpty then return 0
    runLines execute fuel how false { rest := text }
    return (← get).status

end

def stepLimit : Nat := 100000

end FirmwareTasks.Shell
