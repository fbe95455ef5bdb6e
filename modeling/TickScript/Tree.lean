import TickScript.Token

/-!
# Programs as trees

Expressions carry a number that is theirs alone within one program; the distance of a
local name is recorded under it. A function declaration is kept in two parts, the header
that callers need and the body.
-/

namespace TickScript

/-- The number of an expression. -/
abbrev ExprId := Nat

/-- The number of expressions that no source text holds. -/
def ExprId.detached : ExprId := 4294967295

/-- An expression. -/
inductive Expr where
  | literal (id : ExprId) (value : Literal) (line : Nat)
  | grouping (id : ExprId) (inner : Expr)
  | unary (id : ExprId) (operator : Token) (right : Expr)
  | binary (id : ExprId) (left : Expr) (operator : Token) (right : Expr)
  | logical (id : ExprId) (left : Expr) (operator : Token) (right : Expr)
  | var (id : ExprId) (name : Token)
  | index (id : ExprId) (name : Token) (position : Expr)
  | assign (id : ExprId) (name : Token) (value : Expr)
  | assignIndex (id : ExprId) (name : Token) (position value : Expr)
  | assignElements (id : ExprId) (name : Token) (elements : List Expr)
  | call (id : ExprId) (callee : Expr) (paren : Token) (arguments : List Expr)

namespace Expr

def id : Expr → ExprId
  | .literal id _ _ => id
  | .grouping id _ => id
  | .unary id _ _ => id
  | .binary id _ _ _ => id
  | .logical id _ _ _ => id
  | .var id _ => id
  | .index id _ _ => id
  | .assign id _ _ => id
  | .assignIndex id _ _ _ => id
  | .assignElements id _ _ => id
  | .call id _ _ _ => id

/-- The line to which faults of an expression are ascribed. -/
def line : Expr → Nat
  | .literal _ _ line => line
  | .grouping _ inner => inner.line
  | .unary _ operator _ => operator.line
  | .binary _ _ operator _ => operator.line
  | .logical _ _ operator _ => operator.line
  | .var _ name => name.line
  | .index _ name _ => name.line
  | .assign _ name _ => name.line
  | .assignIndex _ name _ _ => name.line
  | .assignElements _ name _ => name.line
  | .call _ _ paren _ => paren.line

/-- A call without arguments of the global function `name`. -/
def globalCall (name : String) : Expr :=
  .call .detached (.var .detached (.synthetic name .unknown))
    { kind := .rightParen, lexeme := ")", line := 0, offset := 0 } []

end Expr

/-- A parameter of a function. -/
structure Parameter where
  name : Token
  type : Ty
deriving DecidableEq

/-- What callers of a function have to know. -/
structure Header where
  name : Token
  parameters : List Parameter
  returnType : Ty
deriving DecidableEq

/-- What a declared variable starts with. -/
inductive Initializer where
  | zero
  | value (e : Expr)
  | elements (es : List Expr)

/-- A statement. -/
inductive Stmt where
  | expression (e : Expr)
  | block (body : List Stmt)
  | declare (name : Token) (type : Ty) (initializer : Initializer)
  | ifThen (keyword : Token) (condition : Expr) (yes : Stmt)
  | ifElse (keyword : Token) (condition : Expr) (yes no : Stmt)
  | while (keyword : Token) (condition : Expr) (body : Stmt)
  | return (keyword : Token) (value : Option Expr)
  | break (keyword : Token)
  | continue (keyword : Token)
  | function (header : Header) (body : List Stmt)

instance : Inhabited Expr := ⟨.literal .detached (.bool false) 0⟩

instance : Inhabited Stmt := ⟨.block []⟩

/-- Is the statement a function declaration? -/
def Stmt.isFunction : Stmt → Bool
  | .function _ _ => true
  | _ => false

end TickScript
