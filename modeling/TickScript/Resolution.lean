import TickScript.Signature.Collect
import TickScript.Tree.Returns

/-!
# Resolution

One walk over a program finds out what every name means and whether every value fits the
place where it is used. A name found in a scope of the program gets its distance, the number
of scopes between its use and its binding; a name found in none is global. Every fault is
reported and the walk goes on.

A function sees the scopes around it, but names of its own may repeat theirs. Inside one
function, and among the blocks outside all functions, a name is declared only once along
each chain of scopes.
-/

namespace TickScript

/-- What is known of a name in a scope: it is being declared and its initial value has not
been seen yet, it is a variable, or it is a function. -/
inductive Binding where
  | declared
  | defined
  | function
deriving DecidableEq, Repr

/-- The state of the walk. The innermost scope comes first. -/
structure Resolver where
  scopes : List (Table String Binding)
  globals : Table String Binding
  distances : Table ExprId Nat
  diagnostics : List Diagnostic

/-- Where the walk is: the function around it, by its return type and by the number of
scopes around the function, and whether a loop surrounds it there. -/
structure Context where
  signatures : Signatures
  returnType : Option Ty
  base : Nat
  inLoop : Bool

abbrev Resolve := StateM Resolver

namespace Resolve

/-! ## Names -/

def report (problem : ResolveProblem) (token : Token) : Resolve Unit :=
  modify fun r => { r with
    diagnostics := r.diagnostics ++ [⟨.resolve problem, token.line, token.location⟩] }

/-- Reports a problem if a test fails. -/
def require (test : Bool) (problem : ResolveProblem) (token : Token) : Resolve Unit :=
  if test then pure () else report problem token

/-- Puts a binding into the innermost scope. -/
def insert (name : String) (binding : Binding) : Resolve Unit :=
  modify fun r =>
    match r.scopes with
    | [] => r
    | scope :: outer => { r with scopes := scope.insert name binding :: outer }

/-- Begins the declaration of a name. -/
def declare (ctx : Context) (name : Token) : Resolve Unit := do
  let r ← get
  if r.scopes.isEmpty then
    if r.globals.contains name.lexeme then report (.alreadyDefined name.lexeme) name
    else set { r with globals := r.globals.insert name.lexeme .declared }
  else
    let own := r.scopes.take (r.scopes.length - ctx.base)
    require (!own.any (·.contains name.lexeme)) (.alreadyDeclared name.lexeme) name
    insert name.lexeme .declared

/-- Completes the declaration of a name. A global name keeps the binding it had before a
second declaration. -/
def bind (name : Token) (binding : Binding) : Resolve Unit := do
  let r ← get
  if r.scopes.isEmpty then
    if r.globals.find? name.lexeme = some .declared then
      set { r with globals := r.globals.insert name.lexeme binding }
  else insert name.lexeme binding

/-- The innermost binding of a name. -/
def bindingOf (r : Resolver) (name : String) : Option Binding :=
  (r.scopes.findSome? (·.find? name)).or (r.globals.find? name)

/-- Is the name being declared right here? -/
def isPending (r : Resolver) (name : String) : Bool :=
  match r.scopes with
  | scope :: _ => scope.find? name = some .declared
  | [] => r.globals.find? name = some .declared

/-- Refuses to read a name in its own initial value. -/
def checkReady (name : Token) : Resolve Unit := do
  require (!isPending (← get) name.lexeme) .ownInitializer name

/-- The number of scopes between the innermost one and the one that binds a name. -/
def distance? (r : Resolver) (name : String) : Option Nat :=
  r.scopes.findIdx? (·.contains name)

/-- Records the distance of a name that is not global. -/
def locate (id : ExprId) (name : Token) : Resolve Unit :=
  modify fun r =>
    match distance? r name.lexeme with
    | some d => { r with distances := r.distances.insert id d }
    | none => r

/-- Walks in a scope of its own. -/
def inScope (walk : Resolve Unit) : Resolve Unit := do
  modify fun r => { r with scopes := Table.empty :: r.scopes }
  walk
  modify fun r => { r with scopes := r.scopes.tail }

/-! ## Types -/

/-- Can the type be that of a number? -/
def numeric (t : Ty) : Bool :=
  t.isWild || t.isNumeric

/-- Can the type be that of a truth value? -/
def boolean (t : Ty) : Bool :=
  t.isWild || t = .bool

/-- The type of a variable. A name without a declaration is reported. -/
def variableType (name : Token) : Resolve Ty := do
  require (name.type ≠ .unknown) (.undefinedVariable name.lexeme) name
  return name.type

def unaryType (operator : Token) (operand : Ty) : Resolve Ty := do
  if operator.kind = .bang then
    require (boolean operand) .operandNotBool operator
    return .bool
  else
    require (numeric operand) .operandNotNumber operator
    return operand

/-- The type of an arithmetic result. -/
def arithmeticType (l r : Ty) : Ty :=
  if l = .int ∧ r = .int then .int
  else if l = .float ∨ r = .float then .float
  else .any

def binaryType (operator : Token) (l r : Ty) : Resolve Ty := do
  match operator.kind with
  | .equalEqual | .bangEqual =>
    require ((boolean l && boolean r) || (numeric l && numeric r)) .operandsNotComparable operator
    return .bool
  | .greater | .greaterEqual | .less | .lessEqual =>
    require (numeric l && numeric r) .operandsNotNumbers operator
    return .bool
  | _ =>
    if numeric l && numeric r then return arithmeticType l r
    else
      report .operandsNotNumbers operator
      return .unknown

def logicalType (operator : Token) (l r : Ty) : Resolve Ty := do
  require (boolean l && boolean r) .operandsNotBools operator
  return .bool

/-- The type of an element of the array under a name. -/
def itemType (name : Token) (index : Ty) : Resolve Ty := do
  require (index.isWild || index = .int) .indexNotInt name
  match name.type with
  | .any => return .any
  | .unknown => variableType name
  | .array element => return .scalar element
  | _ =>
    report (.notArray name.lexeme) name
    return .unknown

/-- What the elements given to an array of type `target` have to be. -/
def elementType (name : Token) (target : Ty) : Resolve (Option Ty) := do
  match target with
  | .unknown =>
    let _ ← variableType name
    return none
  | .any => return none
  | .array element => return some (.scalar element)
  | _ =>
    report (.notArray name.lexeme) name
    return none

/-- Checks one element against what it has to be. -/
def checkElement (name : Token) (element : Option Ty) (value : Ty) : Resolve Unit :=
  match element with
  | some element =>
    require (element.compatible value) (.badElement name.lexeme element value) name
  | none => pure ()

/-- Checks arguments, counted from `position`, against parameters. -/
def checkArguments (name : Token) : (position : Nat) → List Ty → List Ty → Resolve Unit
  | position, parameter :: parameters, value :: values => do
    require (parameter.compatible value) (.badArgument position name.lexeme parameter value) name
    checkArguments name (position + 1) parameters values
  | _, _, _ => pure ()

/-- The type of a call of the function `name`. -/
def callType (ctx : Context) (name : Token) (arguments : List Ty) : Resolve Ty := do
  match ctx.signatures.find? name.lexeme with
  | none =>
    report (.undefinedFunction name.lexeme) name
    return .unknown
  | some signature =>
    if signature.parameters.length = arguments.length then
      checkArguments name 1 signature.parameters arguments
    else report (.wrongArity signature.parameters.length arguments.length) name
    return signature.returnType

/-! ## Expressions -/

mutual

/-- Walks an expression and answers its type. -/
def expr (ctx : Context) : Expr → Resolve Ty
  | .literal _ value _ => return value.type
  | .grouping _ inner => expr ctx inner
  | .unary _ operator right => do
    unaryType operator (← expr ctx right)
  | .binary _ left operator right => do
    let l ← expr ctx left
    let r ← expr ctx right
    binaryType operator l r
  | .logical _ left operator right => do
    let l ← expr ctx left
    let r ← expr ctx right
    logicalType operator l r
  | .var id name => do
    checkReady name
    if bindingOf (← get) name.lexeme = some .function then
      report (.functionAsValue name.lexeme) name
      locate id name
      return .unknown
    else
      locate id name
      variableType name
  | .index id name position => do
    checkReady name
    let index ← expr ctx position
    locate id name
    itemType name index
  | .assign id name value => do
    let valueType ← expr ctx value
    locate id name
    let target ← variableType name
    require (target.compatible valueType) (.badAssignment valueType name.lexeme target) name
    return target
  | .assignIndex id name position value => do
    let index ← expr ctx position
    let valueType ← expr ctx value
    locate id name
    let target ← itemType name index
    require (target.compatible valueType) (.badAssignment valueType name.lexeme target) name
    return target
  | .assignElements id name elements => do
    locate id name
    let target ← variableType name
    let element ← elementType name target
    elementsOf ctx name element elements
    return target
  | .call _ callee paren arguments => do
    let types ← exprs ctx arguments
    match callee with
    | .var id name =>
      locate id name
      callType ctx name types
    | _ =>
      let _ ← expr ctx callee
      report .notCallable paren
      return .unknown

/-- Walks expressions from left to right. -/
def exprs (ctx : Context) : List Expr → Resolve (List Ty)
  | [] => return []
  | e :: es => do
    let type ← expr ctx e
    return type :: (← exprs ctx es)

/-- Walks the elements given to an array and checks each. -/
def elementsOf (ctx : Context) (name : Token) (element : Option Ty) : List Expr → Resolve Unit
  | [] => pure ()
  | e :: es => do
    checkElement name element (← expr ctx e)
    elementsOf ctx name element es

end

/-! ## Statements -/

/-- Walks the initial value of a variable. -/
def initializer (ctx : Context) (name : Token) (type : Ty) : Initializer → Resolve Unit
  | .zero => pure ()
  | .value e => do
    let value ← expr ctx e
    require (type.compatible value) (.badInitializer name.lexeme type value) name
  | .elements es => do
    let element ← elementType name type
    elementsOf ctx name element es

/-- Walks the condition behind a keyword. -/
def condition (ctx : Context) (keyword : Token) (e : Expr) : Resolve Unit := do
  require (boolean (← expr ctx e)) .conditionNotBool keyword

/-- Does a returned value of type `actual` agree with the return type? -/
def matchesReturn (expected actual : Ty) : Bool :=
  expected.isWild || actual.isWild || expected = actual

/-- Checks what a `return` gives back. -/
def checkReturn (ctx : Context) (keyword : Token) (value : Ty) : Resolve Unit :=
  match ctx.returnType with
  | none => report .returnAtTopLevel keyword
  | some expected => require (matchesReturn expected value) (.wrongReturn expected value) keyword

/-- Declares the parameters of a function. -/
def parameters (ctx : Context) : List Parameter → Resolve Unit
  | [] => pure ()
  | p :: ps => do
    declare ctx p.name
    bind p.name .defined
    parameters ctx ps

/-- Must a function of this return type return on every path? -/
def mustReturn (type : Ty) : Bool :=
  !type.isWild && type ≠ .void

mutual

/-- Walks a statement. -/
def stmt (ctx : Context) : Stmt → Resolve Unit
  | .expression e => do
    let _ ← expr ctx e
  | .block body => inScope (stmts ctx body)
  | .declare name type start => do
    declare ctx name
    initializer ctx name type start
    bind name .defined
  | .ifThen keyword test yes => do
    condition ctx keyword test
    stmt ctx yes
  | .ifElse keyword test yes no => do
    condition ctx keyword test
    stmt ctx yes
    stmt ctx no
  | .while keyword test body => do
    condition ctx keyword test
    stmt { ctx with inLoop := true } body
  | .return keyword none => checkReturn ctx keyword .void
  | .return keyword (some e) => do
    checkReturn ctx keyword (← expr ctx e)
  | .break keyword => require ctx.inLoop (.outsideLoop keyword.lexeme) keyword
  | .continue keyword => require ctx.inLoop (.outsideLoop keyword.lexeme) keyword
  | .function header body => do
    require ctx.returnType.isNone .nestedFunction header.name
    declare ctx header.name
    bind header.name .function
    let inner : Context :=
      { ctx with
        returnType := some header.returnType
        base := (← get).scopes.length
        inLoop := false }
    inScope do
      parameters inner header.parameters
      stmts inner body
    require (!mustReturn header.returnType || alwaysReturnsIn body)
      (.missingReturn header.name.lexeme header.returnType) header.name

/-- Walks statements in order. -/
def stmts (ctx : Context) : List Stmt → Resolve Unit
  | [] => pure ()
  | s :: ss => do
    stmt ctx s
    stmts ctx ss

end

end Resolve

/-- What resolution finds out about a program. -/
structure Resolved where
  distances : Table ExprId Nat
  diagnostics : List Diagnostic

/-- Resolves a program. The reserved names are global and cannot be declared again; those
with a signature are functions. -/
def resolve (signatures : Signatures) (reserved : List String) (statements : List Stmt) :
    Resolved :=
  let globals := Table.ofList (reserved.map fun name =>
    (name, if signatures.contains name then Binding.function else Binding.defined))
  let start : Resolver := ⟨[], globals, Table.empty, []⟩
  let ctx : Context := ⟨signatures, none, 0, false⟩
  let r := (Resolve.stmts ctx statements start).2
  ⟨r.distances, r.diagnostics⟩

end TickScript
