import TickScript.Machine
import TickScript.Program

/-!
# Sessions

A session is a host at work on one program at a time. The host compiles a source text
whenever it changes, runs it once, and then ticks it frame by frame; after each pass it is
told which of its variables the script has changed. The session remembers what the host last
knew of each variable, so a change is told once, also when the pass that made it failed, and
what the host wrote itself is not told.
-/

namespace TickScript

/-- A variable of the host that has a new content. -/
structure Change where
  name : String
  previous : Content
  current : Content

/-- Why a request to a session fails. -/
inductive SessionError where
  | compile (diagnostics : List Diagnostic)
  | runtime (e : RuntimeError)
  | host (p : HostProblem)
  | notCompiled
  | exhausted

def SessionError.message : SessionError → String
  | .compile diagnostics => s!"compilation failed with {diagnostics.length} error(s)"
  | .runtime e => s!"Runtime error: {e.text}"
  | .host p => p.text
  | .notCompiled => "no compiled program"
  | .exhausted => "execution limit reached"

def SessionError.ofInterrupt : Interrupt → SessionError
  | .error e => .runtime e
  | .exhausted => .exhausted

/-- A session. `known` is what the host last knew of each of its variables, in the order of
registration; `reported` are the diagnostics of all failed compilations. -/
structure Session (ω : Type) where
  host : Host ω
  machine : Machine ω
  program : Option (List Stmt)
  known : List (String × Content)
  ticks : Nat
  reported : Array Diagnostic

namespace Session

variable {ω : Type}

/-- The function that is called once after the top-level statements. -/
def setupName : String := "Setup"

/-- The function that is called on every tick. -/
def mainName : String := "Main"

/-- The present content of a variable of the host. -/
def present (m : Machine ω) (name : String) : Content :=
  (m.content? name).getD .nil

/-- The present content of all variables of the host. -/
def observe (host : Host ω) (m : Machine ω) : List (String × Content) :=
  host.externals.map fun v => (v.name, present m v.name)

/-- A session of a host whose initial values are in the store. -/
def start (host : Host ω) (store : Store) (world : ω) : Session ω :=
  let machine := Machine.start host store world
  { host, machine, program := none, known := observe host machine, ticks := 0, reported := #[] }

/-- Replaces the program. The variables of the host go back to their initial values, also if
the compilation fails. -/
def compile (s : Session ω) (source : String) : Except (List Diagnostic) Unit × Session ω :=
  let c := TickScript.compile source s.host
  let machine := s.machine.reset s.host c.distances
  let fresh := { s with machine, known := observe s.host machine, ticks := 0 }
  if c.accepted then (.ok (), { fresh with program := some c.statements })
  else (.error c.diagnostics,
    { fresh with program := none, reported := s.reported ++ c.diagnostics })

def isCompiled (s : Session ω) : Bool :=
  s.program.isSome

/-- Is the global name a function of the script? -/
def declares (s : Session ω) (name : String) : Bool :=
  match s.machine.function? name with
  | some c => c.isScript
  | none => false

/-- Compares what the host knew with what is there now. -/
def compareKnown (m : Machine ω) : List (String × Content) → List Change × List (String × Content)
  | [] => ([], [])
  | (name, previous) :: rest =>
    let (changes, known) := compareKnown m rest
    let current := present m name
    if current.same previous then (changes, (name, previous) :: known)
    else (⟨name, previous, current⟩ :: changes, (name, current) :: known)

/-- Tells the host what has changed. -/
def poll (s : Session ω) : List Change × Session ω :=
  let (changes, known) := compareKnown s.machine s.known
  (changes, { s with known })

/-- Calls a function of the script, if there is one of this name, and then tells the host
what has changed. -/
def enter (s : Session ω) (fuel : Nat) (name : String) :
    Except SessionError (List Change) × Session ω :=
  if s.declares name then
    match s.machine.evaluate s.host fuel (.globalCall name) with
    | (.ok _, machine) =>
      let (changes, s) := { s with machine }.poll
      (.ok changes, s)
    | (.error i, machine) => (.error (.ofInterrupt i), { s with machine })
  else
    let (changes, s) := s.poll
    (.ok changes, s)

/-- Runs the top-level statements and then `Setup`. -/
def run (s : Session ω) (fuel : Nat) : Except SessionError (List Change) × Session ω :=
  match s.program with
  | none => (.error .notCompiled, s)
  | some statements =>
    match s.machine.interpret s.host fuel statements with
    | (.ok _, machine) => { s with machine }.enter fuel setupName
    | (.error i, machine) => (.error (.ofInterrupt i), { s with machine })

/-- Begins a frame `elapsed` seconds after the last one. -/
def beginFrame (s : Session ω) (elapsed : Float) : Session ω :=
  { s with machine := { s.machine with clock := s.machine.clock.beginFrame elapsed } }

/-- Pins the time between frames. -/
def pinDelta (s : Session ω) (seconds : Float) : Session ω :=
  { s with machine := { s.machine with clock := s.machine.clock.pin seconds } }

/-- Begins a frame and calls `Main`. -/
def tick (s : Session ω) (fuel : Nat) (elapsed : Float) :
    Except SessionError (List Change) × Session ω :=
  if s.isCompiled then
    { s.beginFrame elapsed with ticks := s.ticks + 1 }.enter fuel mainName
  else (.error .notCompiled, s)

/-- Notes what the host now knows of one of its variables. -/
def learn (name : String) (content : Content) : List (String × Content) → List (String × Content)
  | [] => []
  | entry :: rest =>
    if entry.1 = name then (entry.1, content) :: rest else entry :: learn name content rest

/-- Writes a variable of the host from outside. -/
def setVariable (s : Session ω) (name : String) (v : Value) :
    Except SessionError Unit × Session ω :=
  match s.host.external? name with
  | none => (.error (.host (.unknownVariable name)), s)
  | some external =>
    match s.machine.assignGlobal (.synthetic name external.type) v with
    | (.ok w, machine) =>
      (.ok (), { s with machine, known := learn name (machine.store.content w) s.known })
    | (.error e, machine) => (.error (.runtime e), { s with machine })

/-- The present content of a global name. -/
def content? (s : Session ω) (name : String) : Option Content :=
  s.machine.content? name

end Session

end TickScript
