import TickScript.Folder
import TickScript.Host.Description
import TickScript.Session
import TickScript.Text.Quoted
import TickScript.Text.Utf8
import TickScript.Tree.Print

/-!
# The command line

Four commands work on a source file: `tokenize` prints its tokens, `parse` its statements,
`check` says whether it compiles, and `run` runs it and then ticks it. What a command does is
a function of its arguments and of the files it names.
-/

namespace TickScript

namespace CommandLine

/-- What is done with the source file. -/
inductive Command where
  | tokenize
  | parse
  | check
  | run
deriving DecidableEq, Repr

def Command.ofWord? : String → Option Command
  | "tokenize" => some .tokenize
  | "parse" => some .parse
  | "check" => some .check
  | "run" => some .run
  | _ => none

/-- The arguments of a command. `host` names a file that describes a host, and `log` asks
for a log file. -/
structure Invocation where
  command : Option Command := none
  source : Option String := none
  json : Bool := false
  host : Option String := none
  ticks : Nat := 1
  log : Bool := false

/-- Takes up a word that is no option: first the command, then the file. -/
def Invocation.word (i : Invocation) (text : String) : Option Invocation :=
  match i.command, i.source with
  | none, _ => (Command.ofWord? text).map fun c => { i with command := some c }
  | some _, none => some { i with source := some text }
  | some _, some _ => none

/-- A count of 32 bits, perhaps with a sign. -/
def readCount (text : String) : Option Nat :=
  let (negative, digits) := Number.takeSign text.toList
  let n := Number.ofDigits digits
  let most := if negative then 0 else 4294967295
  if !digits.isEmpty && digits.all Char.isDigit && n ≤ most then some n else none

/-- Takes up the value of an option. -/
def Invocation.option (i : Invocation) (name value : String) : Option Invocation :=
  match name with
  | "--host" => some { i with host := some value }
  | "--ticks" => (readCount value).map fun n => { i with ticks := n }
  | _ => none

/-- Splits an option from the value that follows an equals sign in it. -/
def splitOption (text : String) : Option (String × String) :=
  let cs := text.toList
  match cs.dropWhile (· ≠ '=') with
  | _ :: value => some (String.ofList (cs.takeWhile (· ≠ '=')), String.ofList value)
  | [] => none

/-- Takes up arguments from left to right. After the command, `--` ends the options. -/
def Invocation.take (i : Invocation) : List String → Option Invocation
  | [] => some i
  | "--" :: rest => if i.command.isSome then rest.foldlM Invocation.word i else none
  | "--log" :: rest => { i with log := true }.take rest
  | "--json" :: rest => { i with json := true }.take rest
  | "--host" :: value :: rest => { i with host := some value }.take rest
  | "--ticks" :: value :: rest => (i.option "--ticks" value).bind (·.take rest)
  | text :: rest =>
    if text.startsWith "--" then
      match splitOption text with
      | some (name, value) => (i.option name value).bind (·.take rest)
      | none => none
    else (i.word text).bind (·.take rest)

/-- Reads the arguments of a command. -/
def Invocation.ofArguments? (arguments : List String) : Option Invocation :=
  ({} : Invocation).take arguments

/-- What a command has printed and how it ended. -/
structure Outcome where
  code : Nat
  out : String := ""
  err : String := ""

/-- Lines of output. -/
def lines (texts : List String) : String :=
  String.join (texts.map (· ++ "\n"))

/-! ## Failures of files -/

/-- Indents the lines of a text after the first. -/
def indentLines (text : String) : String :=
  "\n    ".intercalate (text.splitOn "\n")

/-- A failure while something was done, and its cause. -/
def failure (context cause : String) : String :=
  s!"Error: {context}\n\nCaused by:\n    {indentLines cause}\n"

/-- The text of the source file, or what to print if there is none. A folder can be opened,
but not read. -/
def readSource (files : Files) (path : String) : Except String String :=
  let unopened := failure s!"Failed to open file {Quoted.quote path}"
  let unread := failure s!"Failed to read file {Quoted.quote path}"
  match files path with
  | .error .isFolder => .error (unread FileProblem.isFolder.text)
  | .error problem => .error (unopened problem.text)
  | .ok bytes =>
    match Utf8.decode bytes with
    | .ok text => .ok text
    | .error _ => .error (unread "stream did not contain valid UTF-8")

/-! ## The host of the command line -/

/-- Prints its argument. -/
def logValue : HostFunction Int64 where
  name := "log_value"
  signature := ⟨[.any], .void⟩
  respond values store world :=
    { value := none, store, world, lines := values.map fun v => "log_value: " ++ store.display v }

/-- The number of the tick. -/
def tickCount : HostFunction Int64 where
  name := "tick_count"
  signature := ⟨[], .int⟩
  respond _ store world := { value := some (.int world), store, world }

/-- The described variables, or the cause why there are none. -/
def readDescription (files : Files) (path : String) : Except String (Host Int64 × Store) :=
  match files path with
  | .error problem => .error problem.text
  | .ok bytes =>
    match Utf8.decode bytes with
    | .error f => .error f.message
    | .ok text =>
      match HostDescription.ofText? text with
      | none => .error "malformed host description"
      | some description =>
        match HostDescription.apply description.externals Host.empty Store.empty with
        | (none, host, store) => .ok (host, store)
        | (some p, _, _) => .error p.text

/-- The described variables and the two functions, or what to print instead. -/
def buildHost (files : Files) (path : Option String) : Except String (Host Int64 × Store) := do
  let (host, store) ←
    match path with
    | none => .ok (Host.empty, Store.empty)
    | some path =>
      (readDescription files path).mapError
        (failure s!"Failed to load host configuration {Quoted.quote path}")
  let complain : HostProblem → String := fun p => s!"Error: {p.text}\n"
  let host ← (host.addFunction logValue).mapError complain
  let host ← (host.addFunction tickCount).mapError complain
  return (host, store)

/-! ## The commands -/

/-- The outcome when problems were found in the source file. -/
def rejected (out : String) (diagnostics : List Diagnostic) : Outcome :=
  ⟨65, out, lines (diagnostics.map Diagnostic.text)⟩

/-- The types of names in a program without a host. -/
def builtinTypes : NameTypes :=
  (Host.empty : Host Unit).seedTypes

/-- A literal in a dump. -/
def literalDocument : Literal → Document
  | .int n => .object [("Int", .int n.toInt)]
  | .float x => .object [("Float", .float x)]
  | .bool b => .object [("Bool", .bool b)]

/-- A token in a dump. -/
def tokenDocument (t : Token) : Document :=
  .object [("token_type", .string t.kind.tag), ("lexeme", .string t.lexeme),
    ("line", .int t.line), ("offset", .int t.offset),
    ("literal", (t.literal.map literalDocument).getD .null),
    ("semantic_type", .string t.type.tag)]

def tokenize (source : String) (json : Bool) : Outcome :=
  let scanned := scan source builtinTypes
  let out :=
    if json then lines [(Document.array (scanned.tokens.map tokenDocument)).pretty ""]
    else lines (scanned.tokens.map Token.display)
  if scanned.diagnostics.isEmpty then ⟨0, out, ""⟩ else rejected out scanned.diagnostics

def parseSource (source : String) : Outcome :=
  let scanned := scan source builtinTypes
  let parsed := parse scanned.tokens
  let diagnostics := scanned.diagnostics ++ parsed.diagnostics
  if diagnostics.isEmpty then ⟨0, lines (parsed.statements.map Stmt.print), ""⟩
  else rejected "" diagnostics

def check (source : String) (host : Host Int64) : Outcome :=
  let c := compile source host
  if c.accepted then ⟨0, lines ["ok"], ""⟩ else rejected "" c.diagnostics

/-- A change of a variable on a line. -/
def changeLine (c : Change) : String :=
  s!"{c.name}: {c.previous.display} -> {c.current.display}"

/-- Everything that a session has printed. -/
def printed (s : Session Int64) : List String :=
  s.machine.console.toList

/-- Clears what a session has printed. -/
def flushed (s : Session Int64) : Session Int64 :=
  { s with machine := { s.machine with console := #[] } }

/-- The outcome of a pass that failed. -/
def failed (out : String) : SessionError → Outcome
  | .runtime e => ⟨70, out, lines [e.text]⟩
  | e => ⟨65, out, lines [e.message]⟩

/-- Goes on after a pass, with what it has printed before the changes it has made. -/
def after (out : String) (pass : Except SessionError (List Change) × Session Int64)
    (next : String → Session Int64 → Outcome) : Outcome :=
  let out := out ++ lines (printed pass.2)
  match pass.1 with
  | .ok changes => next (out ++ lines (changes.map changeLine)) (flushed pass.2)
  | .error e => failed out e

/-- Ticks a session. A simulated frame takes no time. -/
def ticks (fuel : Nat) : (count : Nat) → String → Session Int64 → Outcome
  | 0, out, _ => ⟨0, out, ""⟩
  | count + 1, out, s =>
    let s := { s with machine := { s.machine with world := s.machine.world + 1 } }
    after out (s.tick fuel 0) (ticks fuel count)

def run (source : String) (host : Host Int64) (store : Store) (count : Nat) : Outcome :=
  match (Session.start host store 0).compile source with
  | (.error diagnostics, _) => rejected "" diagnostics
  | (.ok _, s) => after "" (s.run Machine.ample) (ticks Machine.ample count)

/-- Carries out a command on the text of its source file. -/
def perform (files : Files) (i : Invocation) (command : Command) (source : String) :
    Except String Outcome := do
  match command with
  | .tokenize => return tokenize source i.json
  | .parse => return parseSource source
  | .check =>
    let (host, _) ← buildHost files i.host
    return check source host
  | .run =>
    let (host, store) ← buildHost files i.host
    return run source host store i.ticks

/-- Carries out a command. -/
def execute (files : Files) (i : Invocation) : Outcome :=
  match i.command, i.source with
  | some command, some path =>
    match (readSource files path).bind (perform files i command) with
    | .ok outcome => outcome
    | .error err => ⟨1, "", err⟩
  | _, _ => ⟨2, "", "error: a command and a file are required\n"⟩

/-- The files that a command names. -/
def Invocation.paths (i : Invocation) : List String :=
  i.source.toList ++ i.host.toList

end CommandLine

end TickScript
