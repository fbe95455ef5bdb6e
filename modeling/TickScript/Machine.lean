import TickScript.Machine.Eval

/-!
# Machines

A machine is what lives on between the runs of a program: the store with the outermost
scope, the distances of local names, a clock, what was printed and which runtime errors were
met, and the state of the host.
-/

namespace TickScript

/-- The time between frames, in seconds. A pinned time counts for every frame. -/
structure Clock where
  delta : Float
  pinned : Option Float
  started : Bool

namespace Clock

def start : Clock := ⟨0, none, false⟩

/-- Begins a frame `elapsed` seconds after the last one. The first frame has none before
it. -/
def beginFrame (c : Clock) (elapsed : Float) : Clock :=
  let delta :=
    match c.pinned with
    | some fixed => fixed
    | none => if c.started then elapsed else 0
  { c with delta, started := true }

/-- Pins the time between frames. -/
def pin (c : Clock) (seconds : Float) : Clock :=
  { c with delta := seconds, pinned := some seconds }

end Clock

structure Machine (ω : Type) where
  store : Store
  globals : ScopeId
  distances : Table ExprId Nat
  clock : Clock
  console : Array String
  errors : Array RuntimeError
  world : ω

namespace Machine

variable {ω : Type}

/-- A bound on calls and rounds for runs that are meant to come to their end. -/
def ample : Nat := 1152921504606846976

/-- Binds a global name unless it is bound already. -/
def provide (globals : ScopeId) (s : Store) (name : String) (v : Value) : Store :=
  if s.binds globals name then s else s.bind globals name v

/-- Binds a global name to a function. -/
def provideFunction (globals : ScopeId) (s : Store) (c : Callable) : Store :=
  let (f, s) := s.newFunction c
  provide globals s c.name (.function f)

/-- Binds a variable of the host to a copy of its initial value. -/
def provideVariable (globals : ScopeId) (s : Store) (v : HostVariable) : Store :=
  let (copy, s) := s.copy v.initial
  provide globals s v.name copy

/-- A new outermost scope with everything that a program finds there: the built-in
functions, the functions of the host, and its variables. -/
def newGlobals (host : Host ω) (s : Store) : ScopeId × Store :=
  let (globals, s) := s.newScope none
  let s := Builtin.all.foldl (fun s b => provideFunction globals s (.builtin b)) s
  let s := host.functions.foldl
    (fun s f => provideFunction globals s (.host f.name f.signature)) s
  (globals, host.externals.foldl (provideVariable globals) s)

/-- A machine for a host whose initial values are in the store. -/
def start (host : Host ω) (store : Store) (world : ω) : Machine ω :=
  let (globals, store) := newGlobals host store
  { store, globals, distances := Table.empty, clock := .start, console := #[], errors := #[],
    world }

/-- Forgets what scripts have done and takes over the distances of a new program. -/
def reset (m : Machine ω) (host : Host ω) (distances : Table ExprId Nat) : Machine ω :=
  let (globals, store) := newGlobals host m.store
  { m with store, globals, distances }

/-- The value of a global name. -/
def global? (m : Machine ω) (name : String) : Option Value :=
  m.store.lookup m.globals name

/-- The function of a global name. -/
def function? (m : Machine ω) (name : String) : Option Callable :=
  match m.global? name with
  | some (.function f) => m.store.functions[f]?
  | _ => none

/-- The content of a global name. -/
def content? (m : Machine ω) (name : String) : Option Content :=
  (m.global? name).map m.store.content

def setting (m : Machine ω) (host : Host ω) : Setting ω :=
  ⟨host, m.globals, m.distances, m.clock.delta⟩

/-- Takes up what a run has left behind. A runtime error is kept. -/
def finish {α : Type} (m : Machine ω) :
    EStateM.Result Interrupt (Run ω) α → Except Interrupt α × Machine ω
  | .ok a run =>
    (.ok a, { m with store := run.store, world := run.world, console := run.console })
  | .error i run =>
    let errors :=
      match i with
      | .error e => m.errors.push e
      | .exhausted => m.errors
    (.error i, { m with store := run.store, world := run.world, console := run.console, errors })

/-- Runs a program. -/
def interpret (m : Machine ω) (host : Host ω) (fuel : Nat) (statements : List Stmt) :
    Except Interrupt Unit × Machine ω :=
  m.finish (Eval.program (m.setting host) fuel statements ⟨m.store, m.world, m.console⟩)

/-- Evaluates an expression in the outermost scope. -/
def evaluate (m : Machine ω) (host : Host ω) (fuel : Nat) (e : Expr) :
    Except Interrupt Value × Machine ω :=
  m.finish (Eval.detached (m.setting host) fuel e ⟨m.store, m.world, m.console⟩)

/-- Assigns to a global name from outside. -/
def assignGlobal (m : Machine ω) (name : Token) (v : Value) :
    Except RuntimeError Value × Machine ω :=
  match Store.assign m.globals name v m.store with
  | .ok w store => (.ok w, { m with store })
  | .error e store => (.error e, { m with store })

end Machine

end TickScript
