import TickScript.Host
import TickScript.Machine.Operator
import TickScript.Store.Scope

/-!
# Running programs

Expressions have a value and statements end with a signal, which says how they were left.
Both can change the store, print lines, call the host and change its state, and be
interrupted by a runtime error.

Expressions and statements run by recursion on their form. Only calls and loops can go on
for ever: `call` bounds the depth of calls and the number of rounds of each loop, and gives
up when a bound is reached.
-/

namespace TickScript

/-- Why a run ends before its time: a runtime error, or the bound on calls and rounds. -/
inductive Interrupt where
  | error (e : RuntimeError)
  | exhausted
deriving DecidableEq

/-- How a statement is left. -/
inductive Signal where
  | normal
  | return (v : Value)
  | break
  | continue
deriving DecidableEq

/-- What a run changes: the store, the state of the host, and the lines printed so far. -/
structure Run (ω : Type) where
  store : Store
  world : ω
  console : Array String

/-- What stays the same during a run: the host, the outermost scope, the distances of local
names, and the time since the last frame. -/
structure Setting (ω : Type) where
  host : Host ω
  globals : ScopeId
  distances : Table ExprId Nat
  delta : Float

abbrev Eval (ω : Type) := EStateM Interrupt (Run ω)

/-- How a function is called: with its arguments, from a line. -/
abbrev Apply (ω : Type) := FunctionId → List Value → Nat → Eval ω Value

namespace Eval

variable {ω : Type}

/-! ## Steps -/

def fail {α : Type} (line : Nat) (fault : Fault) : Eval ω α :=
  throw (.error ⟨line, fault⟩)

/-- Does something to the store. -/
def onStore {α : Type} (act : EStateM RuntimeError Store α) : Eval ω α :=
  fun ⟨store, world, console⟩ =>
    match act store with
    | .ok a store => .ok a ⟨store, world, console⟩
    | .error e store => .error (.error e) ⟨store, world, console⟩

/-- Asks the store. -/
def ask {α : Type} (question : Store → α) : Eval ω α :=
  fun run => .ok (question run.store) run

/-- Asks the store what may be a fault. -/
def demand {α : Type} (question : Store → Except RuntimeError α) : Eval ω α := do
  match ← ask question with
  | .ok a => return a
  | .error e => throw (.error e)

/-- Makes something new in the store. -/
def allocate {α : Type} (make : Store → α × Store) : Eval ω α :=
  onStore fun s =>
    match make s with
    | (a, s) => .ok a s

/-- Makes a value fit a type, or fails with the fault that this means. -/
def fitTo (type : Ty) (v : Value) (line : Nat) (fault : Mismatch → Fault) : Eval ω Value :=
  onStore fun s =>
    match Store.coerce type v s with
    | .ok w s => .ok w s
    | .error m s => .error ⟨line, fault m⟩ s

/-- Binds a name that the scope does not bind yet. -/
def define (scope : ScopeId) (name : Token) (v : Value) : Eval ω Unit :=
  onStore fun s =>
    match Store.define scope name.lexeme v s with
    | .ok _ s => .ok () s
    | .error fault s => .error ⟨name.line, fault⟩ s

def printLine (text : String) : Eval ω Unit :=
  fun ⟨store, world, console⟩ => .ok () ⟨store, world, console.push text⟩

/-! ## Names -/

/-- Reads the name of the expression `id`. -/
def read (setting : Setting ω) (scope : ScopeId) (id : ExprId) (name : Token) : Eval ω Value :=
  demand fun s =>
    match setting.distances.find? id with
    | some distance => s.getAt distance scope name
    | none => s.get setting.globals name

/-- Assigns to the name of the expression `id`. -/
def assign (setting : Setting ω) (scope : ScopeId) (id : ExprId) (name : Token) (v : Value) :
    Eval ω Value :=
  onStore <|
    match setting.distances.find? id with
    | some distance => Store.assignAt distance scope name v
    | none => Store.assign setting.globals name v

/-- Writes an element of the array under the name of the expression `id`. -/
def assignItem (setting : Setting ω) (scope : ScopeId) (id : ExprId) (name : Token)
    (index v : Value) : Eval ω Value :=
  onStore <|
    match setting.distances.find? id with
    | some distance => Store.assignItemAt distance scope name index v
    | none => Store.assignItem setting.globals name index v

/-- An element of an array. -/
def item (name : Token) (target index : Value) : Eval ω Value :=
  demand fun s =>
    match target with
    | .array a =>
      match Store.slot (s.items a).size index with
      | .ok i => .ok ((s.items a).getD i .nil)
      | .error fault => .error ⟨name.line, fault⟩
    | _ => .error ⟨name.line, .notArray⟩

/-- A new array. -/
def newArray (items : List Value) : Eval ω Value :=
  allocate fun s =>
    let (a, s) := s.newArray items.toArray
    (.array a, s)

/-! ## Expressions -/

mutual

/-- The value of an expression in a scope. -/
def expr (setting : Setting ω) (apply : Apply ω) (scope : ScopeId) : Expr → Eval ω Value
  | .literal _ value _ => return .ofLiteral value
  | .grouping _ inner => expr setting apply scope inner
  | .unary _ operator right => do
    let v ← expr setting apply scope right
    demand fun _ => (Operator.unary operator v).mapError (⟨operator.line, ·⟩)
  | .binary _ left operator right => do
    let l ← expr setting apply scope left
    let r ← expr setting apply scope right
    demand fun s => (Operator.binary s operator l r).mapError (⟨operator.line, ·⟩)
  | .logical _ left operator right => do
    let l ← expr setting apply scope left
    if Operator.decides operator l then return l else expr setting apply scope right
  | .var id name => read setting scope id name
  | .index id name position => do
    let target ← read setting scope id name
    let index ← expr setting apply scope position
    item name target index
  | .assign id name value => do
    let v ← expr setting apply scope value
    assign setting scope id name v
  | .assignIndex id name position value => do
    let index ← expr setting apply scope position
    let v ← expr setting apply scope value
    assignItem setting scope id name index v
  | .assignElements id name elements => do
    let v ← newArray (← exprs setting apply scope elements)
    assign setting scope id name v
  | .call _ callee paren arguments => do
    let function ← expr setting apply scope callee
    let values ← exprs setting apply scope arguments
    match function with
    | .function f => apply f values paren.line
    | _ => fail paren.line .notCallable

/-- The values of expressions, from left to right. -/
def exprs (setting : Setting ω) (apply : Apply ω) (scope : ScopeId) :
    List Expr → Eval ω (List Value)
  | [] => return []
  | e :: es => do
    let v ← expr setting apply scope e
    return v :: (← exprs setting apply scope es)

end

/-! ## Statements -/

/-- Rounds of a loop, at most `limit` of them. -/
def rounds (test : Eval ω Bool) (body : Eval ω Signal) : (limit : Nat) → Eval ω Signal
  | 0 => throw .exhausted
  | limit + 1 => do
    if ← test then
      match ← body with
      | .break => return .normal
      | .return v => return .return v
      | .normal => rounds test body limit
      | .continue => rounds test body limit
    else return .normal

/-- The value with which a variable starts. -/
def initial (setting : Setting ω) (apply : Apply ω) (scope : ScopeId) (type : Ty) :
    Initializer → Eval ω Value
  | .zero => allocate (·.zero type)
  | .value e => expr setting apply scope e
  | .elements es => do newArray (← exprs setting apply scope es)

/-- Does a condition hold? -/
def holds (setting : Setting ω) (apply : Apply ω) (scope : ScopeId) (e : Expr) :
    Eval ω Bool := do
  return (← expr setting apply scope e).isTruthy

mutual

/-- Runs a statement in a scope. -/
def stmt (setting : Setting ω) (apply : Apply ω) (limit : Nat) (scope : ScopeId) :
    Stmt → Eval ω Signal
  | .expression e => do
    let _ ← expr setting apply scope e
    return .normal
  | .block body => do
    let inner ← allocate (·.newScope (some scope))
    stmts setting apply limit inner body
  | .declare name type start => do
    let v ← initial setting apply scope type start
    let w ← fitTo type v name.line (.badInitializer name.lexeme)
    define scope name w
    return .normal
  | .ifThen _ test yes => do
    if ← holds setting apply scope test then stmt setting apply limit scope yes
    else return .normal
  | .ifElse _ test yes no => do
    if ← holds setting apply scope test then stmt setting apply limit scope yes
    else stmt setting apply limit scope no
  | .while _ test body =>
    rounds (holds setting apply scope test) (stmt setting apply limit scope body) limit
  | .return _ none => return .return .nil
  | .return _ (some e) => do
    return .return (← expr setting apply scope e)
  | .break _ => return .break
  | .continue _ => return .continue
  | .function header body => do
    let f ← allocate (·.newFunction (.script header body scope))
    define scope header.name (.function f)
    return .normal

/-- Runs statements in order up to the first that is not left normally. -/
def stmts (setting : Setting ω) (apply : Apply ω) (limit : Nat) (scope : ScopeId) :
    List Stmt → Eval ω Signal
  | [] => return .normal
  | s :: ss => do
    match ← stmt setting apply limit scope s with
    | .normal => stmts setting apply limit scope ss
    | signal => return signal

end

/-! ## Calls -/

/-- Makes arguments, counted from `position`, fit the parameters of a function. -/
def arguments (function : String) (line : Nat) :
    (position : Nat) → List Ty → List Value → Eval ω (List Value)
  | position, type :: types, v :: vs => do
    let w ← fitTo type v line (.badArgument position function)
    return w :: (← arguments function line (position + 1) types vs)
  | _, _, _ => return []

/-- Binds parameters to arguments. -/
def parameters (scope : ScopeId) : List Parameter → List Value → Eval ω Unit
  | p :: ps, v :: vs => do
    define scope p.name v
    parameters scope ps vs
  | _, _ => return ()

/-- Runs a built-in function. -/
def builtin (setting : Setting ω) (values : List Value) : Builtin → Eval ω Value
  | .deltatime => return .float setting.delta
  | .print => do
    printLine (String.join (← ask fun s => values.map s.display))
    return .nil
  | .sizeOf =>
    match values with
    | .array a :: _ => ask fun s => .int (Int64.ofNat (s.items a).size)
    | _ => return .int 0

/-- Runs a function of the host. -/
def hostFunction (setting : Setting ω) (name : String) (values : List Value) : Eval ω Value :=
  match setting.host.function? name with
  | none => return .nil
  | some f => fun ⟨store, world, console⟩ =>
    let reply := f.respond values store world
    .ok (reply.value.getD .nil) ⟨reply.store, reply.world, console ++ reply.lines⟩

/-- Runs the body of a script function: one scope holds the parameters and the body. -/
def scriptFunction (setting : Setting ω) (apply : Apply ω) (limit : Nat) (header : Header)
    (body : List Stmt) (closure : ScopeId) (values : List Value) : Eval ω Value := do
  let scope ← allocate (·.newScope (some closure))
  parameters scope header.parameters values
  match ← stmts setting apply limit scope body with
  | .return v => return v
  | _ => return .nil

/-- Makes the result of a function fit its return type. A function without a result gives
nothing, and nothing fits every return type. -/
def result (c : Callable) (line : Nat) (v : Value) : Eval ω Value :=
  match c.signature.returnType, v with
  | .void, _ => return .nil
  | _, .nil => return .nil
  | type, v => fitTo type v line (.badResult c.name)

/-- Calls a function, with at most `fuel` calls inside one another and as many rounds of
each loop. -/
def call (setting : Setting ω) : (fuel : Nat) → Apply ω
  | 0, _, _, _ => throw .exhausted
  | fuel + 1, f, values, line => do
    match ← ask fun s => s.functions[f]? with
    | none => fail line .notCallable
    | some c =>
      if values.length ≠ c.arity then fail line (.wrongArity c.arity values.length)
      else
        let fitted ← arguments c.name line 1 c.signature.parameters values
        let v ←
          match c with
          | .script header body closure =>
            scriptFunction setting (call setting fuel) fuel header body closure fitted
          | .builtin b => builtin setting fitted b
          | .host name _ => hostFunction setting name fitted
        result c line v

/-- Runs the statements of a program in the outermost scope. -/
def program (setting : Setting ω) (fuel : Nat) (statements : List Stmt) : Eval ω Unit := do
  let _ ← stmts setting (call setting fuel) fuel setting.globals statements

/-- The value of an expression in the outermost scope. -/
def detached (setting : Setting ω) (fuel : Nat) (e : Expr) : Eval ω Value :=
  expr setting (call setting fuel) setting.globals e

end Eval

end TickScript
