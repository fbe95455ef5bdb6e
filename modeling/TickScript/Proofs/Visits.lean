import Mathlib.Data.List.Perm.Basic
import TickScript.Program
import TickScript.Tree.Listing

/-!
# The visits of resolution

Resolution passes every expression of a program once. Its visits list the expressions in the
order in which it comes to them, each with the state of that moment and with the static type
that it is given. The name of a called function is only looked up and gets no type.

Like the walks of runs these lists follow the resolver rule by rule, and the states in them are
those that the resolver itself computes.
-/

namespace TickScript

/-- Resolution comes to an expression. -/
structure Visit where
  state : Resolver
  expr : Expr
  type : Option Ty

namespace Resolve

/-- The visit of an expression that is given a type. -/
def visit (ctx : Context) (e : Expr) (r : Resolver) : Visit :=
  ⟨r, e, some (expr ctx e r).1⟩

mutual

/-- The visits of an expression. -/
def exprVisits (ctx : Context) : Expr → Resolver → List Visit
  | .literal id value line, r => [visit ctx (.literal id value line) r]
  | .grouping id inner, r => visit ctx (.grouping id inner) r :: exprVisits ctx inner r
  | .unary id operator right, r =>
    visit ctx (.unary id operator right) r :: exprVisits ctx right r
  | .binary id left operator right, r =>
    visit ctx (.binary id left operator right) r ::
      (exprVisits ctx left r ++ exprVisits ctx right (expr ctx left r).2)
  | .logical id left operator right, r =>
    visit ctx (.logical id left operator right) r ::
      (exprVisits ctx left r ++ exprVisits ctx right (expr ctx left r).2)
  | .var id name, r => [visit ctx (.var id name) r]
  | .index id name position, r =>
    visit ctx (.index id name position) r :: exprVisits ctx position (checkReady name r).2
  | .assign id name value, r => visit ctx (.assign id name value) r :: exprVisits ctx value r
  | .assignIndex id name position value, r =>
    visit ctx (.assignIndex id name position value) r ::
      (exprVisits ctx position r ++ exprVisits ctx value (expr ctx position r).2)
  | .assignElements id name elements, r =>
    let located := (locate id name r).2
    let target := variableType name located
    let element := elementType name target.1 target.2
    visit ctx (.assignElements id name elements) r ::
      elementsVisits ctx name element.1 elements element.2
  | .call id callee paren arguments, r =>
    visit ctx (.call id callee paren arguments) r ::
      (exprsVisits ctx arguments r ++
        match callee with
        | .var id name => [⟨(exprs ctx arguments r).2, .var id name, none⟩]
        | _ => exprVisits ctx callee (exprs ctx arguments r).2)

/-- The visits of expressions, from left to right. -/
def exprsVisits (ctx : Context) : List Expr → Resolver → List Visit
  | [], _ => []
  | e :: es, r => exprVisits ctx e r ++ exprsVisits ctx es (expr ctx e r).2

/-- The visits of the elements given to an array. -/
def elementsVisits (ctx : Context) (name : Token) (element : Option Ty) :
    List Expr → Resolver → List Visit
  | [], _ => []
  | e :: es, r =>
    let value := expr ctx e r
    exprVisits ctx e r ++
      elementsVisits ctx name element es (checkElement name element value.1 value.2).2

end

/-- The visits of an initial value. -/
def initializerVisits (ctx : Context) (name : Token) (type : Ty) :
    Initializer → Resolver → List Visit
  | .zero, _ => []
  | .value e, r => exprVisits ctx e r
  | .elements es, r =>
    let element := elementType name type r
    elementsVisits ctx name element.1 es element.2

/-- The state in a new scope. -/
def entered (r : Resolver) : Resolver :=
  { r with scopes := Table.empty :: r.scopes }

/-- The context of the body of a function. -/
def bodyContext (ctx : Context) (header : Header) (r : Resolver) : Context :=
  { ctx with returnType := some header.returnType, base := r.scopes.length, inLoop := false }

/-- The state in which the name of a function has been declared. -/
def functionDeclared (ctx : Context) (header : Header) (r : Resolver) : Resolver :=
  (bind header.name .function
    (declare ctx header.name (require ctx.returnType.isNone .nestedFunction header.name r).2).2).2

mutual

/-- The visits of a statement. -/
def stmtVisits (ctx : Context) : Stmt → Resolver → List Visit
  | .expression e, r => exprVisits ctx e r
  | .block body, r => stmtsVisits ctx body (entered r)
  | .declare name type start, r => initializerVisits ctx name type start (declare ctx name r).2
  | .ifThen keyword test yes, r =>
    exprVisits ctx test r ++ stmtVisits ctx yes (condition ctx keyword test r).2
  | .ifElse keyword test yes no, r =>
    let tested := (condition ctx keyword test r).2
    exprVisits ctx test r ++ stmtVisits ctx yes tested ++
      stmtVisits ctx no (stmt ctx yes tested).2
  | .while keyword test body, r =>
    exprVisits ctx test r ++
      stmtVisits { ctx with inLoop := true } body (condition ctx keyword test r).2
  | .return _ none, _ => []
  | .return _ (some e), r => exprVisits ctx e r
  | .break _, _ => []
  | .continue _, _ => []
  | .function header body, r =>
    let declared := functionDeclared ctx header r
    let inner := bodyContext ctx header declared
    stmtsVisits inner body (parameters inner header.parameters (entered declared)).2

/-- The visits of statements in order. -/
def stmtsVisits (ctx : Context) : List Stmt → Resolver → List Visit
  | [], _ => []
  | s :: ss, r => stmtVisits ctx s r ++ stmtsVisits ctx ss (stmt ctx s r).2

end

/-- The global names before the first statement. -/
def startGlobals (signatures : Signatures) (reserved : List String) : Table String Binding :=
  Table.ofList (reserved.map fun name =>
    (name, if signatures.contains name then Binding.function else Binding.defined))

/-- The state before the first statement. -/
def start (signatures : Signatures) (reserved : List String) : Resolver :=
  ⟨[], startGlobals signatures reserved, Table.empty, []⟩

/-- Where the walk over a program begins. -/
def outermost (signatures : Signatures) : Context :=
  ⟨signatures, none, 0, false⟩

theorem resolve_eq (signatures : Signatures) (reserved : List String) (statements : List Stmt) :
    resolve signatures reserved statements =
      ⟨(stmts (outermost signatures) statements (start signatures reserved)).2.distances,
        (stmts (outermost signatures) statements (start signatures reserved)).2.diagnostics⟩ := rfl

/-! ## Every expression once -/

mutual

/-- The visits of an expression are those of its nodes. A called name comes behind the
arguments. -/
theorem exprVisits_perm (ctx : Context) : (e : Expr) → (r : Resolver) →
    ((exprVisits ctx e r).map Visit.expr).Perm e.nodes
  | .literal id value line, r => by
    rw [exprVisits, Expr.nodes]
    exact .refl _
  | .grouping id inner, r => by
    rw [exprVisits, Expr.nodes]
    exact (exprVisits_perm ctx inner r).cons _
  | .unary id operator right, r => by
    rw [exprVisits, Expr.nodes]
    exact (exprVisits_perm ctx right r).cons _
  | .binary id left operator right, r => by
    rw [exprVisits, Expr.nodes, List.map_cons, List.map_append]
    exact ((exprVisits_perm ctx left r).append (exprVisits_perm ctx right _)).cons _
  | .logical id left operator right, r => by
    rw [exprVisits, Expr.nodes, List.map_cons, List.map_append]
    exact ((exprVisits_perm ctx left r).append (exprVisits_perm ctx right _)).cons _
  | .var id name, r => by
    rw [exprVisits, Expr.nodes]
    exact .refl _
  | .index id name position, r => by
    rw [exprVisits, Expr.nodes]
    exact (exprVisits_perm ctx position _).cons _
  | .assign id name value, r => by
    rw [exprVisits, Expr.nodes]
    exact (exprVisits_perm ctx value r).cons _
  | .assignIndex id name position value, r => by
    rw [exprVisits, Expr.nodes, List.map_cons, List.map_append]
    exact ((exprVisits_perm ctx position r).append (exprVisits_perm ctx value _)).cons _
  | .assignElements id name elements, r => by
    rw [exprVisits, Expr.nodes]
    exact (elementsVisits_perm ctx name _ elements _).cons _
  | .call id callee paren arguments, r => by
    unfold exprVisits
    rw [Expr.nodes, List.map_cons, List.map_append]
    refine .cons _ (List.perm_append_comm.trans (.append ?_ (exprsVisits_perm ctx arguments r)))
    split
    · exact .refl _
    · exact exprVisits_perm ctx callee _

theorem exprsVisits_perm (ctx : Context) : (es : List Expr) → (r : Resolver) →
    ((exprsVisits ctx es r).map Visit.expr).Perm (exprsNodes es)
  | [], _ => by
    rw [exprsVisits, exprsNodes]
    exact .refl _
  | e :: es, r => by
    rw [exprsVisits, exprsNodes, List.map_append]
    exact (exprVisits_perm ctx e r).append (exprsVisits_perm ctx es _)

theorem elementsVisits_perm (ctx : Context) (name : Token) (element : Option Ty) :
    (es : List Expr) → (r : Resolver) →
    ((elementsVisits ctx name element es r).map Visit.expr).Perm (exprsNodes es)
  | [], _ => by
    rw [elementsVisits, exprsNodes]
    exact .refl _
  | e :: es, r => by
    rw [elementsVisits, exprsNodes, List.map_append]
    exact (exprVisits_perm ctx e r).append (elementsVisits_perm ctx name element es _)

end

theorem initializerVisits_perm (ctx : Context) (name : Token) (type : Ty) (start : Initializer)
    (r : Resolver) :
    ((initializerVisits ctx name type start r).map Visit.expr).Perm start.nodes := by
  cases start with
  | zero => exact .refl _
  | value e => exact exprVisits_perm ctx e r
  | elements es => exact elementsVisits_perm ctx name _ es _

mutual

theorem stmtVisits_perm (ctx : Context) : (s : Stmt) → (r : Resolver) →
    ((stmtVisits ctx s r).map Visit.expr).Perm s.nodes
  | .expression e, r => by
    rw [stmtVisits, Stmt.nodes]
    exact exprVisits_perm ctx e r
  | .block body, r => by
    rw [stmtVisits, Stmt.nodes]
    exact stmtsVisits_perm ctx body _
  | .declare name type start, r => by
    rw [stmtVisits, Stmt.nodes]
    exact initializerVisits_perm ctx name type start _
  | .ifThen keyword test yes, r => by
    rw [stmtVisits, Stmt.nodes, List.map_append]
    exact (exprVisits_perm ctx test r).append (stmtVisits_perm ctx yes _)
  | .ifElse keyword test yes no, r => by
    rw [stmtVisits, Stmt.nodes, List.map_append, List.map_append]
    exact ((exprVisits_perm ctx test r).append (stmtVisits_perm ctx yes _)).append
      (stmtVisits_perm ctx no _)
  | .while keyword test body, r => by
    rw [stmtVisits, Stmt.nodes, List.map_append]
    exact (exprVisits_perm ctx test r).append (stmtVisits_perm _ body _)
  | .return _ none, _ => by
    rw [stmtVisits, Stmt.nodes]
    exact .refl _
  | .return _ (some e), r => by
    rw [stmtVisits, Stmt.nodes]
    exact exprVisits_perm ctx e r
  | .break _, _ => by
    rw [stmtVisits, Stmt.nodes]
    exact .refl _
  | .continue _, _ => by
    rw [stmtVisits, Stmt.nodes]
    exact .refl _
  | .function header body, r => by
    rw [stmtVisits, Stmt.nodes]
    exact stmtsVisits_perm _ body _

/-- The visits of a program are those of its expressions. -/
theorem stmtsVisits_perm (ctx : Context) : (ss : List Stmt) → (r : Resolver) →
    ((stmtsVisits ctx ss r).map Visit.expr).Perm (stmtsNodes ss)
  | [], _ => by
    rw [stmtsVisits, stmtsNodes]
    exact .refl _
  | s :: ss, r => by
    rw [stmtsVisits, stmtsNodes, List.map_append]
    exact (stmtVisits_perm ctx s r).append (stmtsVisits_perm ctx ss _)

end

end Resolve

/-- The visits of the resolution of a program. -/
def Compilation.visits {ω : Type} (c : Compilation) (host : Host ω) : List Visit :=
  let signatures := Signatures.collect c.statements host
  Resolve.stmtsVisits (Resolve.outermost signatures) c.statements
    (Resolve.start signatures host.reservedNames)

end TickScript
