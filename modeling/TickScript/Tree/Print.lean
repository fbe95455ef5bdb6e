import TickScript.Tree

/-!
# Printed programs

A program is printed with every operator before its operands and every node in
parentheses, so `1 + 2 * 3` becomes `(+ 1 (* 2 3))`.
-/

namespace TickScript

/-- Some texts, each after a space. -/
def spaced (items : List String) : String :=
  String.join (items.map (" " ++ ·))

/-- A list of printed elements in braces. -/
def braced (items : List String) : String :=
  "\x7b" ++ " ".intercalate items ++ "\x7d"

mutual

def Expr.print : Expr → String
  | .literal _ value _ => value.display
  | .grouping _ inner => s!"(group {inner.print})"
  | .unary _ operator right => s!"({operator.lexeme} {right.print})"
  | .binary _ left operator right => s!"({operator.lexeme} {left.print} {right.print})"
  | .logical _ left operator right => s!"({operator.lexeme} {left.print} {right.print})"
  | .var _ name => name.lexeme
  | .index _ name position => s!"(index {name.lexeme} {position.print})"
  | .assign _ name value => s!"(= {name.lexeme} {value.print})"
  | .assignIndex _ name position value =>
    s!"(= (index {name.lexeme} {position.print}) {value.print})"
  | .assignElements _ name elements => s!"(= {name.lexeme} {braced (printExprs elements)})"
  | .call _ callee _ arguments => s!"(call {callee.print}{spaced (printExprs arguments)})"

def printExprs : List Expr → List String
  | [] => []
  | e :: es => e.print :: printExprs es

end

/-- What a printed declaration says of the initial value. -/
def Initializer.print : Initializer → String
  | .zero => ""
  | .value e => " " ++ e.print
  | .elements es => " " ++ braced (printExprs es)

def Parameter.print (p : Parameter) : String :=
  s!"{p.type.display} {p.name.lexeme}"

def Header.print (h : Header) : String :=
  let parameters := ", ".intercalate (h.parameters.map Parameter.print)
  s!"fun {h.returnType.display} {h.name.lexeme} ({parameters})"

mutual

def Stmt.print : Stmt → String
  | .expression e => s!"(; {e.print})"
  | .block body => s!"(block{spaced (printStmts body)})"
  | .declare name type initializer =>
    s!"(var {type.display} {name.lexeme}{initializer.print})"
  | .ifThen _ condition yes => s!"(if {condition.print} {yes.print})"
  | .ifElse _ condition yes no => s!"(if {condition.print} {yes.print} {no.print})"
  | .while _ condition body => s!"(while {condition.print} {body.print})"
  | .return _ none => "(return)"
  | .return _ (some e) => s!"(return {e.print})"
  | .break _ => "(break)"
  | .continue _ => "(continue)"
  | .function header body => s!"({header.print}{spaced (printStmts body)})"

def printStmts : List Stmt → List String
  | [] => []
  | s :: ss => s.print :: printStmts ss

end

end TickScript
