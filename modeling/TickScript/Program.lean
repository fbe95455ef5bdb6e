import TickScript.Resolution
import TickScript.Tree.Parse

/-!
# Compilation

A source text is scanned, parsed and resolved against a host. All three stages always run;
the program may be run if none of them found a problem.
-/

namespace TickScript

/-- What compilation finds out about a source text. -/
structure Compilation where
  statements : List Stmt
  distances : Table ExprId Nat
  diagnostics : List Diagnostic

/-- Compiles a source text against a host. -/
def compile {ω : Type} (source : String) (host : Host ω) : Compilation :=
  let scanned := scan source host.seedTypes
  let parsed := parse scanned.tokens
  let signatures := Signatures.collect parsed.statements host
  let resolved := resolve signatures host.reservedNames parsed.statements
  { statements := parsed.statements
    distances := resolved.distances
    diagnostics := scanned.diagnostics ++ parsed.diagnostics ++ resolved.diagnostics }

/-- Was no problem found? -/
def Compilation.accepted (c : Compilation) : Bool :=
  c.diagnostics.isEmpty

end TickScript
