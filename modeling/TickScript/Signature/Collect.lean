import TickScript.Host

/-!
# The callable names of a program

Static checking knows functions by their names alone, whatever scope declares them. A
function of the script hides one of the host, and that a built-in one, of the same name.
-/

namespace TickScript

/-- The signatures of all callable names. -/
abbrev Signatures := Table String Signature

mutual

/-- The signatures of the functions declared in a statement, outermost first. -/
def Stmt.declared : Stmt → List (String × Signature)
  | .function header body => (header.name.lexeme, header.signature) :: declaredIn body
  | .block body => declaredIn body
  | .ifThen _ _ yes => yes.declared
  | .ifElse _ _ yes no => yes.declared ++ no.declared
  | .while _ _ body => body.declared
  | _ => []

def declaredIn : List Stmt → List (String × Signature)
  | [] => []
  | s :: ss => s.declared ++ declaredIn ss

end

/-- The signatures of built-in functions, host functions, and the functions declared
anywhere in a program. Of one name, the last in this order counts. -/
def Signatures.collect {ω : Type} (statements : List Stmt) (h : Host ω) : Signatures :=
  Table.ofList (Builtin.all.map (fun b => (b.name, b.signature)) ++
    h.functions.map (fun f => (f.name, f.signature)) ++ declaredIn statements)

end TickScript
