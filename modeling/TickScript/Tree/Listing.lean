import TickScript.Tree

/-!
# The expressions of a program

A listing names every expression of a program, each before its parts and in the order in
which they stand in the tree.
-/

namespace TickScript

mutual

/-- An expression and its parts. -/
def Expr.nodes : Expr → List Expr
  | .literal id value line => [.literal id value line]
  | .grouping id inner => .grouping id inner :: inner.nodes
  | .unary id operator right => .unary id operator right :: right.nodes
  | .binary id left operator right => .binary id left operator right :: left.nodes ++ right.nodes
  | .logical id left operator right => .logical id left operator right :: left.nodes ++ right.nodes
  | .var id name => [.var id name]
  | .index id name position => .index id name position :: position.nodes
  | .assign id name value => .assign id name value :: value.nodes
  | .assignIndex id name position value =>
    .assignIndex id name position value :: position.nodes ++ value.nodes
  | .assignElements id name elements => .assignElements id name elements :: exprsNodes elements
  | .call id callee paren arguments =>
    .call id callee paren arguments :: callee.nodes ++ exprsNodes arguments

def exprsNodes : List Expr → List Expr
  | [] => []
  | e :: es => e.nodes ++ exprsNodes es

end

/-- The word for the form of an expression. -/
def Expr.form : Expr → String
  | .literal .. => "literal"
  | .grouping .. => "grouping"
  | .unary .. => "unary"
  | .binary .. => "binary"
  | .logical .. => "logical"
  | .var .. => "variable"
  | .index .. => "index"
  | .assign .. => "assign"
  | .assignIndex .. => "assign"
  | .assignElements .. => "array_assign"
  | .call .. => "call"

def Initializer.nodes : Initializer → List Expr
  | .zero => []
  | .value e => e.nodes
  | .elements es => exprsNodes es

mutual

/-- The expressions of a statement. -/
def Stmt.nodes : Stmt → List Expr
  | .expression e => e.nodes
  | .block body => stmtsNodes body
  | .declare _ _ initializer => initializer.nodes
  | .ifThen _ condition yes => condition.nodes ++ yes.nodes
  | .ifElse _ condition yes no => condition.nodes ++ yes.nodes ++ no.nodes
  | .while _ condition body => condition.nodes ++ body.nodes
  | .return _ none => []
  | .return _ (some e) => e.nodes
  | .break _ => []
  | .continue _ => []
  | .function _ body => stmtsNodes body

def stmtsNodes : List Stmt → List Expr
  | [] => []
  | s :: ss => s.nodes ++ stmtsNodes ss

end

end TickScript
