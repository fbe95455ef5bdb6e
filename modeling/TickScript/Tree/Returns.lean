import TickScript.Tree

/-!
# Ways out of a statement

Whether a list of statements always ends with a `return` is judged by its form alone: a
condition counts as open either way, except that `while (true)` is left only by `break` or
`return`.
-/

namespace TickScript

mutual

/-- Does the statement contain a `break` of the loop whose body it is? -/
def Stmt.breaksOut : Stmt → Bool
  | .break _ => true
  | .block body => anyBreaksOut body
  | .ifThen _ _ yes => yes.breaksOut
  | .ifElse _ _ yes no => yes.breaksOut || no.breaksOut
  | _ => false

def anyBreaksOut : List Stmt → Bool
  | [] => false
  | s :: ss => s.breaksOut || anyBreaksOut ss

end

/-- Is the expression the literal `true`? -/
def Expr.isTrue : Expr → Bool
  | .literal _ (.bool b) _ => b
  | _ => false

mutual

/-- Can the statement never be left at its end? -/
def Stmt.alwaysReturns : Stmt → Bool
  | .return _ _ => true
  | .block body => alwaysReturnsIn body
  | .ifElse _ _ yes no => yes.alwaysReturns && no.alwaysReturns
  | .while _ condition body => condition.isTrue && !body.breaksOut
  | _ => false

/-- Can the statements never be left at their end? -/
def alwaysReturnsIn : List Stmt → Bool
  | [] => false
  | s :: ss => s.alwaysReturns || alwaysReturnsIn ss

end

end TickScript
