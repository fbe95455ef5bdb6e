import Mathlib.Data.List.Basic
import TickScript.Tree.Listing

/-!
# The parts of a program

What holds of every expression and every statement of a program holds of each part of it. The
equations below take such a fact apart along the tree.
-/

namespace TickScript

attribute [simp] Expr.nodes exprsNodes Initializer.nodes Stmt.nodes stmtsNodes

/-- The name that an expression reads or writes itself. -/
def Expr.name? : Expr → Option Token
  | .var _ name => some name
  | .index _ name _ => some name
  | .assign _ name _ => some name
  | .assignIndex _ name _ _ => some name
  | .assignElements _ name _ => some name
  | _ => none

/-- The name that an expression assigns a new value to. -/
def Expr.target? : Expr → Option Token
  | .assign _ name _ => some name
  | .assignElements _ name _ => some name
  | _ => none

theorem Expr.name?_of_target? {e : Expr} {name : Token} (h : e.target? = some name) :
    e.name? = some name := by
  cases e with
  | assign => exact h
  | assignElements => exact h
  | _ => cases h

/-- Is the expression itself an assignment? -/
def Expr.assigns : Expr → Bool
  | .assign .. => true
  | .assignIndex .. => true
  | .assignElements .. => true
  | _ => false

/-- The variables and parameters that a statement itself declares. -/
def Stmt.locals : Stmt → List Token
  | .declare name _ _ => [name]
  | .function header _ => header.parameters.map Parameter.name
  | _ => []

/-- The function that a statement itself declares. -/
def Stmt.header? : Stmt → Option Header
  | .function header _ => some header
  | _ => none

mutual

/-- A statement and the statements in it. -/
@[simp]
def Stmt.parts : Stmt → List Stmt
  | .expression e => [.expression e]
  | .block body => .block body :: stmtsParts body
  | .declare name type start => [.declare name type start]
  | .ifThen keyword test yes => .ifThen keyword test yes :: yes.parts
  | .ifElse keyword test yes no => .ifElse keyword test yes no :: yes.parts ++ no.parts
  | .while keyword test body => .while keyword test body :: body.parts
  | .return keyword value => [.return keyword value]
  | .break keyword => [.break keyword]
  | .continue keyword => [.continue keyword]
  | .function header body => .function header body :: stmtsParts body

@[simp]
def stmtsParts : List Stmt → List Stmt
  | [] => []
  | s :: ss => s.parts ++ stmtsParts ss

end

/-! ## Names of variables -/

mutual

/-- The names that an expression reads or writes. A name that is called is not among them. -/
def Expr.uses : Expr → List Token
  | .literal .. => []
  | .grouping _ inner => inner.uses
  | .unary _ _ right => right.uses
  | .binary _ left _ right => left.uses ++ right.uses
  | .logical _ left _ right => left.uses ++ right.uses
  | .var _ name => [name]
  | .index _ name position => name :: position.uses
  | .assign _ name value => name :: value.uses
  | .assignIndex _ name position value => name :: (position.uses ++ value.uses)
  | .assignElements _ name elements => name :: exprsUses elements
  | .call _ (.var _ _) _ arguments => exprsUses arguments
  | .call _ callee _ arguments => callee.uses ++ exprsUses arguments

def exprsUses : List Expr → List Token
  | [] => []
  | e :: es => e.uses ++ exprsUses es

end

def Initializer.uses : Initializer → List Token
  | .zero => []
  | .value e => e.uses
  | .elements es => exprsUses es

mutual

/-- The names of variables and parameters that a statement declares, reads or writes. -/
def Stmt.uses : Stmt → List Token
  | .expression e => e.uses
  | .block body => stmtsUses body
  | .declare name _ start => name :: start.uses
  | .ifThen _ test yes => test.uses ++ yes.uses
  | .ifElse _ test yes no => test.uses ++ (yes.uses ++ no.uses)
  | .while _ test body => test.uses ++ body.uses
  | .return _ none => []
  | .return _ (some e) => e.uses
  | .break _ => []
  | .continue _ => []
  | .function header body => header.parameters.map Parameter.name ++ stmtsUses body

def stmtsUses : List Stmt → List Token
  | [] => []
  | s :: ss => s.uses ++ stmtsUses ss

end

/-! ## Expressions -/

/-- Every expression in `e`, itself included, satisfies `Q`. -/
def Expr.Each (Q : Expr → Prop) (e : Expr) : Prop :=
  ∀ node ∈ e.nodes, Q node

/-- Every expression in the list satisfies `Q`. -/
def EachExpr (Q : Expr → Prop) (es : List Expr) : Prop :=
  ∀ node ∈ exprsNodes es, Q node

namespace Expr

variable {Q : Expr → Prop}

theorem mem_nodes_self (e : Expr) : e ∈ e.nodes := by
  cases e <;> simp [nodes]

theorem Each.self {e : Expr} (h : e.Each Q) : Q e :=
  h e e.mem_nodes_self

theorem each_literal {id : ExprId} {value : Literal} {line : Nat} :
    (Expr.literal id value line).Each Q ↔ Q (.literal id value line) := by
  simp [Each, nodes]

theorem each_grouping {id : ExprId} {inner : Expr} :
    (Expr.grouping id inner).Each Q ↔ Q (.grouping id inner) ∧ inner.Each Q := by
  simp [Each, nodes]

theorem each_unary {id : ExprId} {operator : Token} {right : Expr} :
    (Expr.unary id operator right).Each Q ↔ Q (.unary id operator right) ∧ right.Each Q := by
  simp [Each, nodes]

theorem each_binary {id : ExprId} {left : Expr} {operator : Token} {right : Expr} :
    (Expr.binary id left operator right).Each Q ↔
      Q (.binary id left operator right) ∧ left.Each Q ∧ right.Each Q := by
  simp [Each, nodes, or_imp, forall_and]

theorem each_logical {id : ExprId} {left : Expr} {operator : Token} {right : Expr} :
    (Expr.logical id left operator right).Each Q ↔
      Q (.logical id left operator right) ∧ left.Each Q ∧ right.Each Q := by
  simp [Each, nodes, or_imp, forall_and]

theorem each_var {id : ExprId} {name : Token} :
    (Expr.var id name).Each Q ↔ Q (.var id name) := by
  simp [Each, nodes]

theorem each_index {id : ExprId} {name : Token} {position : Expr} :
    (Expr.index id name position).Each Q ↔ Q (.index id name position) ∧ position.Each Q := by
  simp [Each, nodes]

theorem each_assign {id : ExprId} {name : Token} {value : Expr} :
    (Expr.assign id name value).Each Q ↔ Q (.assign id name value) ∧ value.Each Q := by
  simp [Each, nodes]

theorem each_assignIndex {id : ExprId} {name : Token} {position value : Expr} :
    (Expr.assignIndex id name position value).Each Q ↔
      Q (.assignIndex id name position value) ∧ position.Each Q ∧ value.Each Q := by
  simp [Each, nodes, or_imp, forall_and]

theorem each_assignElements {id : ExprId} {name : Token} {elements : List Expr} :
    (Expr.assignElements id name elements).Each Q ↔
      Q (.assignElements id name elements) ∧ EachExpr Q elements := by
  simp [Each, nodes, EachExpr]

theorem each_call {id : ExprId} {callee : Expr} {paren : Token} {arguments : List Expr} :
    (Expr.call id callee paren arguments).Each Q ↔
      Q (.call id callee paren arguments) ∧ callee.Each Q ∧ EachExpr Q arguments := by
  simp [Each, nodes, EachExpr, or_imp, forall_and]

end Expr

theorem eachExpr_nil {Q : Expr → Prop} : EachExpr Q [] := by
  simp [EachExpr, exprsNodes]

theorem eachExpr_cons {Q : Expr → Prop} {e : Expr} {es : List Expr} :
    EachExpr Q (e :: es) ↔ e.Each Q ∧ EachExpr Q es := by
  simp [EachExpr, Expr.Each, exprsNodes, or_imp, forall_and]

/-- Every expression of an initial value satisfies `Q`. -/
def Initializer.Each (Q : Expr → Prop) : Initializer → Prop
  | .zero => True
  | .value e => e.Each Q
  | .elements es => EachExpr Q es

theorem Initializer.each_iff {Q : Expr → Prop} {start : Initializer} :
    start.Each Q ↔ ∀ node ∈ start.nodes, Q node := by
  cases start with
  | zero => simp [Initializer.Each, Initializer.nodes]
  | value e => rfl
  | elements es => rfl

/-! ## Statements -/

/-- Every expression of a statement satisfies `Q`, and every statement in it, itself included,
satisfies `P`. -/
def Stmt.Each (Q : Expr → Prop) (P : Stmt → Prop) (s : Stmt) : Prop :=
  (∀ node ∈ s.nodes, Q node) ∧ ∀ part ∈ s.parts, P part

def EachStmt (Q : Expr → Prop) (P : Stmt → Prop) (ss : List Stmt) : Prop :=
  (∀ node ∈ stmtsNodes ss, Q node) ∧ ∀ part ∈ stmtsParts ss, P part

namespace Stmt

variable {Q : Expr → Prop} {P : Stmt → Prop}

theorem mem_parts_self (s : Stmt) : s ∈ s.parts := by
  cases s <;> simp [parts]

theorem Each.self {s : Stmt} (h : s.Each Q P) : P s :=
  h.2 s s.mem_parts_self

theorem each_expression {e : Expr} :
    (Stmt.expression e).Each Q P ↔ P (.expression e) ∧ e.Each Q := by
  simp [Each, nodes, parts, Expr.Each, and_comm]

theorem each_block {body : List Stmt} :
    (Stmt.block body).Each Q P ↔ P (.block body) ∧ EachStmt Q P body := by
  simp [Each, nodes, parts, EachStmt, and_left_comm]

theorem each_declare {name : Token} {type : Ty} {start : Initializer} :
    (Stmt.declare name type start).Each Q P ↔ P (.declare name type start) ∧ start.Each Q := by
  cases start <;> simp [Each, nodes, parts, Initializer.Each, Initializer.nodes, Expr.Each,
    EachExpr, and_comm]

theorem each_ifThen {keyword : Token} {test : Expr} {yes : Stmt} :
    (Stmt.ifThen keyword test yes).Each Q P ↔
      P (.ifThen keyword test yes) ∧ test.Each Q ∧ yes.Each Q P := by
  simp only [Each, nodes, parts, Expr.Each, List.mem_append, List.mem_cons, or_imp, forall_and,
    forall_eq]
  tauto

theorem each_ifElse {keyword : Token} {test : Expr} {yes no : Stmt} :
    (Stmt.ifElse keyword test yes no).Each Q P ↔
      P (.ifElse keyword test yes no) ∧ test.Each Q ∧ yes.Each Q P ∧ no.Each Q P := by
  simp only [Each, nodes, parts, Expr.Each, List.mem_append, List.mem_cons, or_imp, forall_and,
    forall_eq]
  tauto

theorem each_while {keyword : Token} {test : Expr} {body : Stmt} :
    (Stmt.while keyword test body).Each Q P ↔
      P (.while keyword test body) ∧ test.Each Q ∧ body.Each Q P := by
  simp only [Each, nodes, parts, Expr.Each, List.mem_append, List.mem_cons, or_imp, forall_and,
    forall_eq]
  tauto

theorem each_return {keyword : Token} {value : Option Expr} :
    (Stmt.return keyword value).Each Q P ↔
      P (.return keyword value) ∧ ∀ e, value = some e → e.Each Q := by
  cases value <;> simp [Each, nodes, parts, Expr.Each, and_comm]

theorem each_function {header : Header} {body : List Stmt} :
    (Stmt.function header body).Each Q P ↔ P (.function header body) ∧ EachStmt Q P body := by
  simp [Each, nodes, parts, EachStmt, and_left_comm]

end Stmt

theorem eachStmt_nil {Q : Expr → Prop} {P : Stmt → Prop} : EachStmt Q P [] := by
  simp [EachStmt, stmtsNodes, stmtsParts]

theorem eachStmt_cons {Q : Expr → Prop} {P : Stmt → Prop} {s : Stmt} {ss : List Stmt} :
    EachStmt Q P (s :: ss) ↔ s.Each Q P ∧ EachStmt Q P ss := by
  simp only [EachStmt, Stmt.Each, stmtsNodes, stmtsParts, List.mem_append, or_imp, forall_and]
  tauto

end TickScript
