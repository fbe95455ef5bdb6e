import TickScript.Tree.Listing
import TickScript.Machine

/-!
# The events of a run

A run is more than its end. Its events are the points that statements about whole runs speak
of: every expression when its evaluation begins, and every variable or parameter when it has
been bound. Each event keeps the state of that moment, and they are listed in the order in
which they happen.

The walks below follow the evaluator rule by rule. They compute no result of their own: how a
run goes on after one of its parts is what the evaluator answers for that part.
-/

namespace TickScript

/-- Something that happens in a run. An expression is evaluated with at most `fuel` calls
inside one another; a variable has been bound when its event happens. -/
inductive Event (ω : Type) where
  | evaluates (fuel : Nat) (scope : ScopeId) (e : Expr) (run : Run ω)
  | binds (scope : ScopeId) (name : Token) (type : Ty) (run : Run ω)

namespace Event

variable {ω : Type}

/-- The state in which an event happens. -/
def run : Event ω → Run ω
  | .evaluates _ _ _ run => run
  | .binds _ _ _ run => run

/-- The store in which an event happens. -/
def store (ev : Event ω) : Store :=
  ev.run.store

@[simp]
theorem store_evaluates (fuel : Nat) (scope : ScopeId) (e : Expr) (run : Run ω) :
    (Event.evaluates fuel scope e run).store = run.store := rfl

@[simp]
theorem store_binds (scope : ScopeId) (name : Token) (type : Ty) (run : Run ω) :
    (Event.binds scope name type run).store = run.store := rfl

end Event

/-- The events of a part of a program, by the state in which it starts. -/
abbrev Walk (ω : Type) := Run ω → List (Event ω)

/-- The events of calls: of a function, with its arguments, from a line. -/
abbrev CallWalk (ω : Type) := FunctionId → List Value → Nat → Walk ω

namespace Walk

variable {ω α : Type}

/-- Nothing happens. -/
def quiet : Walk ω := fun _ => []

/-- First the one, then the other, from the same state. -/
def both (first second : Walk ω) : Walk ω := fun run => first run ++ second run

/-- The events from the state that `act` leaves, if it comes to its end. -/
def after (act : Eval ω α) (next : α → Walk ω) : Walk ω := fun run =>
  match act run with
  | .ok a run => next a run
  | .error _ _ => []

/-- The events of `act`, and then those from the state that it leaves. -/
def thenAfter (walk : Walk ω) (act : Eval ω α) (next : α → Walk ω) : Walk ω :=
  both walk (after act next)

/-- The evaluation of an expression begins. -/
def here (fuel : Nat) (scope : ScopeId) (e : Expr) : Walk ω := fun run =>
  [.evaluates fuel scope e run]

/-- A variable has been bound. -/
def bound (scope : ScopeId) (name : Token) (type : Ty) : Walk ω := fun run =>
  [.binds scope name type run]

/-! ## Expressions -/

mutual

/-- The events of an expression. -/
def expr (setting : Setting ω) (fuel : Nat) (calls : CallWalk ω) (scope : ScopeId) :
    Expr → Walk ω
  | .literal id value line => here fuel scope (.literal id value line)
  | .grouping id inner =>
    both (here fuel scope (.grouping id inner)) (expr setting fuel calls scope inner)
  | .unary id operator right =>
    both (here fuel scope (.unary id operator right)) (expr setting fuel calls scope right)
  | .binary id left operator right =>
    both (here fuel scope (.binary id left operator right)) <|
      thenAfter (expr setting fuel calls scope left)
        (Eval.expr setting (Eval.call setting fuel) scope left) fun _ =>
          expr setting fuel calls scope right
  | .logical id left operator right =>
    both (here fuel scope (.logical id left operator right)) <|
      thenAfter (expr setting fuel calls scope left)
        (Eval.expr setting (Eval.call setting fuel) scope left) fun l =>
          if Operator.decides operator l then quiet else expr setting fuel calls scope right
  | .var id name => here fuel scope (.var id name)
  | .index id name position =>
    both (here fuel scope (.index id name position)) <|
      after (Eval.read setting scope id name) fun _ => expr setting fuel calls scope position
  | .assign id name value =>
    both (here fuel scope (.assign id name value)) (expr setting fuel calls scope value)
  | .assignIndex id name position value =>
    both (here fuel scope (.assignIndex id name position value)) <|
      thenAfter (expr setting fuel calls scope position)
        (Eval.expr setting (Eval.call setting fuel) scope position) fun _ =>
          expr setting fuel calls scope value
  | .assignElements id name elements =>
    both (here fuel scope (.assignElements id name elements))
      (exprs setting fuel calls scope elements)
  | .call id callee paren arguments =>
    both (here fuel scope (.call id callee paren arguments)) <|
      thenAfter (expr setting fuel calls scope callee)
        (Eval.expr setting (Eval.call setting fuel) scope callee) fun function =>
          thenAfter (exprs setting fuel calls scope arguments)
            (Eval.exprs setting (Eval.call setting fuel) scope arguments) fun values =>
              match function with
              | .function f => calls f values paren.line
              | _ => quiet

/-- The events of expressions, from left to right. -/
def exprs (setting : Setting ω) (fuel : Nat) (calls : CallWalk ω) (scope : ScopeId) :
    List Expr → Walk ω
  | [] => quiet
  | e :: es =>
    thenAfter (expr setting fuel calls scope e)
      (Eval.expr setting (Eval.call setting fuel) scope e) fun _ =>
        exprs setting fuel calls scope es

end

/-! ## Statements -/

/-- The events of the rounds of a loop. -/
def rounds (test : Eval ω Bool) (testWalk : Walk ω) (body : Eval ω Signal) (bodyWalk : Walk ω) :
    (limit : Nat) → Walk ω
  | 0 => quiet
  | limit + 1 =>
    thenAfter testWalk test fun holds =>
      if holds then
        thenAfter bodyWalk body fun signal =>
          match signal with
          | .normal => rounds test testWalk body bodyWalk limit
          | .continue => rounds test testWalk body bodyWalk limit
          | _ => quiet
      else quiet

/-- The events of the value with which a variable starts. -/
def initial (setting : Setting ω) (fuel : Nat) (calls : CallWalk ω) (scope : ScopeId) :
    Initializer → Walk ω
  | .zero => quiet
  | .value e => expr setting fuel calls scope e
  | .elements es => exprs setting fuel calls scope es

mutual

/-- The events of a statement. -/
def stmt (setting : Setting ω) (fuel : Nat) (calls : CallWalk ω) (scope : ScopeId) :
    Stmt → Walk ω
  | .expression e => expr setting fuel calls scope e
  | .block body =>
    after (Eval.allocate (·.newScope (some scope))) fun inner =>
      stmts setting fuel calls inner body
  | .declare name type start =>
    thenAfter (initial setting fuel calls scope start)
      (Eval.initial setting (Eval.call setting fuel) scope type start) fun v =>
        after (Eval.fitTo type v name.line (.badInitializer name.lexeme)) fun w =>
          after (Eval.define scope name w) fun _ => bound scope name type
  | .ifThen _ test yes =>
    thenAfter (expr setting fuel calls scope test)
      (Eval.holds setting (Eval.call setting fuel) scope test) fun holds =>
        if holds then stmt setting fuel calls scope yes else quiet
  | .ifElse _ test yes no =>
    thenAfter (expr setting fuel calls scope test)
      (Eval.holds setting (Eval.call setting fuel) scope test) fun holds =>
        if holds then stmt setting fuel calls scope yes else stmt setting fuel calls scope no
  | .while _ test body =>
    rounds (Eval.holds setting (Eval.call setting fuel) scope test)
      (expr setting fuel calls scope test)
      (Eval.stmt setting (Eval.call setting fuel) fuel scope body)
      (stmt setting fuel calls scope body) fuel
  | .return _ none => quiet
  | .return _ (some e) => expr setting fuel calls scope e
  | .break _ => quiet
  | .continue _ => quiet
  | .function _ _ => quiet

/-- The events of statements, up to the first that is not left normally. -/
def stmts (setting : Setting ω) (fuel : Nat) (calls : CallWalk ω) (scope : ScopeId) :
    List Stmt → Walk ω
  | [] => quiet
  | s :: ss =>
    thenAfter (stmt setting fuel calls scope s)
      (Eval.stmt setting (Eval.call setting fuel) fuel scope s) fun signal =>
        match signal with
        | .normal => stmts setting fuel calls scope ss
        | _ => quiet

end

/-! ## Calls -/

/-- The events of binding parameters. -/
def parameters (scope : ScopeId) : List Parameter → List Value → Walk ω
  | p :: ps, v :: vs =>
    after (Eval.define scope p.name v) fun _ =>
      both (bound scope p.name p.type) (parameters scope ps vs)
  | _, _ => quiet

/-- The events of a call with at most `fuel` calls inside one another. -/
def call (setting : Setting ω) : (fuel : Nat) → CallWalk ω
  | 0, _, _, _ => quiet
  | fuel + 1, f, values, line =>
    after (Eval.ask fun s => s.functions[f]?) fun found =>
      match found with
      | none => quiet
      | some c =>
        if values.length ≠ c.arity then quiet
        else
          after (Eval.arguments c.name line 1 c.signature.parameters values) fun fitted =>
            match c with
            | .script header body closure =>
              after (Eval.allocate (·.newScope (some closure))) fun scope =>
                thenAfter (parameters scope header.parameters fitted)
                  (Eval.parameters scope header.parameters fitted) fun _ =>
                    stmts setting fuel (call setting fuel) scope body
            | .builtin _ => quiet
            | .host _ _ => quiet

/-- The events of a program. -/
def program (setting : Setting ω) (fuel : Nat) (statements : List Stmt) : Walk ω :=
  stmts setting fuel (call setting fuel) setting.globals statements

/-- The events of an expression in the outermost scope. -/
def detached (setting : Setting ω) (fuel : Nat) (e : Expr) : Walk ω :=
  expr setting fuel (call setting fuel) setting.globals e

end Walk

/-! ## Calls of an event -/

namespace Event

variable {ω : Type}

/-- The function that is going to be called, if the expression that is evaluated is a call whose
callee gives a function. -/
def callee? (setting : Setting ω) : Event ω → Option FunctionId
  | .evaluates fuel scope (.call _ callee _ _) run =>
    match Eval.expr setting (Eval.call setting fuel) scope callee run with
    | .ok (.function f) _ => some f
    | _ => none
  | _ => none

/-- None of the functions `left` is called. -/
def Spares (left : FunctionId → Prop) (setting : Setting ω) (ev : Event ω) : Prop :=
  ∀ f, ev.callee? setting = some f → ¬ left f

theorem spares_nothing {setting : Setting ω} (ev : Event ω) : ev.Spares (fun _ => False) setting :=
  fun _ _ => id

theorem Spares.mono {left left' : FunctionId → Prop} {setting : Setting ω} {ev : Event ω}
    (h : ev.Spares left setting) (hle : ∀ f, left' f → left f) : ev.Spares left' setting :=
  fun f hf hl => h f hf (hle f hl)

end Event

/-! ## Requests -/

/-- An expression is evaluated that the request itself consists of. -/
def Event.Asked {ω : Type} : Event ω → Prop
  | .evaluates _ _ e _ => ∃ name, e ∈ (Expr.globalCall name).nodes
  | .binds .. => False

/-- What happens to a machine with a program. It runs it, or calls one of its functions without
arguments. In between time goes by, and the host writes one of its variables or works on arrays and
on itself. -/
inductive Request (ω : Type) where
  | interpret
  | call (name : String)
  | wait (clock : Clock)
  | write (name : String) (v : Value)
  | work (arrays : Array (Array Value)) (world : ω)

/-- The name that the host writes. -/
def Request.writes? {ω : Type} : Request ω → Option String
  | .write name _ => some name
  | _ => none

namespace Machine

variable {ω : Type}

/-- The end of a request, and the machine after it. The host writes nothing but its variables. -/
def serve (m : Machine ω) (host : Host ω) (statements : List Stmt) (fuel : Nat) :
    Request ω → Except Interrupt Unit × Machine ω
  | .interpret => m.interpret host fuel statements
  | .call name =>
    let (result, m) := m.evaluate host fuel (.globalCall name)
    (result.map fun _ => (), m)
  | .wait clock => (.ok (), { m with clock })
  | .write name v =>
    match host.external? name with
    | some external =>
      let (result, m) := m.assignGlobal (.synthetic name external.type) v
      ((result.map fun _ => ()).mapError Interrupt.error, m)
    | none => (.ok (), m)
  | .work arrays world => (.ok (), { m with store := { m.store with arrays }, world })

/-- The setting of an assignment from outside, for which no distances are recorded. -/
def unrecorded (m : Machine ω) (host : Host ω) : Setting ω :=
  { m.setting host with distances := Table.empty }

/-- The run of a request. -/
def order (m : Machine ω) (host : Host ω) (statements : List Stmt) (fuel : Nat) :
    Request ω → Eval ω Unit
  | .interpret => Eval.program (m.setting host) fuel statements
  | .call name => do
    let _ ← Eval.detached (m.setting host) fuel (.globalCall name)
  | .wait _ => pure ()
  | .write name v =>
    match host.external? name with
    | some external => do
      let _ ← Eval.assign (m.unrecorded host) m.globals .detached
        (.synthetic name external.type) v
    | none => pure ()
  | .work arrays world => fun run =>
    .ok () { run with store := { run.store with arrays }, world }

/-- What a machine begins a run with. -/
def begin (m : Machine ω) : Run ω :=
  ⟨m.store, m.world, m.console⟩

/-- The walk of a request. -/
def walk (m : Machine ω) (host : Host ω) (statements : List Stmt) (fuel : Nat) :
    Request ω → Walk ω
  | .interpret => Walk.program (m.setting host) fuel statements
  | .call name => Walk.detached (m.setting host) fuel (.globalCall name)
  | .wait _ => Walk.quiet
  | .write .. => Walk.quiet
  | .work .. => Walk.quiet

/-- The events of a request. -/
def events (m : Machine ω) (host : Host ω) (statements : List Stmt) (fuel : Nat)
    (request : Request ω) : List (Event ω) :=
  m.walk host statements fuel request m.begin

/-- The machine after requests, each with its own bound. -/
def serveAll (m : Machine ω) (host : Host ω) (statements : List Stmt) :
    List (Nat × Request ω) → Machine ω
  | [] => m
  | (fuel, request) :: rest =>
    (m.serve host statements fuel request).2.serveAll host statements rest

/-- The events of requests, one after the other. -/
def eventsAll (m : Machine ω) (host : Host ω) (statements : List Stmt) :
    List (Nat × Request ω) → List (Event ω)
  | [] => []
  | (fuel, request) :: rest =>
    m.events host statements fuel request ++
      (m.serve host statements fuel request).2.eventsAll host statements rest

/-- None of the functions `left` is called in any of the requests. -/
def Sparing (left : FunctionId → Prop) (host : Host ω) (statements : List Stmt) :
    List (Nat × Request ω) → Machine ω → Prop
  | [], _ => True
  | (fuel, request) :: rest, m =>
    (∀ ev ∈ m.events host statements fuel request, ev.Spares left (m.setting host)) ∧
      Sparing left host statements rest (m.serve host statements fuel request).2

end Machine

end TickScript
