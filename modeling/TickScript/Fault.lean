import TickScript.Value

/-!
# Faults at run time

A fault ends the pass that met it. It has a line of the source text, zero if the host asked
for something that no source text holds.
-/

namespace TickScript

inductive Fault where
  | undefinedVariable (name : String)
  | alreadyDefined (name : String)
  | badInitializer (name : String) (why : Mismatch)
  | badAssignment (name : String) (why : Mismatch)
  | badElement (why : Mismatch)
  | notArray
  | indexNotInteger
  | indexOutOfBounds
  | notCallable
  | wrongArity (expected actual : Nat)
  | badArgument (position : Nat) (function : String) (why : Mismatch)
  | badResult (function : String) (why : Mismatch)
  | integerOverflow
  | divisionByZero
  | operandNotNumber
  | operandsNotNumbers
  | invalidUnary (operator : String)
  | invalidBinary (operator : String)
deriving DecidableEq

def Fault.message : Fault → String
  | .undefinedVariable name => s!"Undefined variable '{name}'."
  | .alreadyDefined name => s!"'{name}' is already defined in this scope."
  | .badInitializer name why => s!"Can't initialize '{name}': {why.message}"
  | .badAssignment name why => s!"Can't assign to '{name}': {why.message}"
  | .badElement why => why.message
  | .notArray => "Variable is not an array."
  | .indexNotInteger => "Array index must be an integer."
  | .indexOutOfBounds => "Index out of bounds."
  | .notCallable => "Can only call functions."
  | .wrongArity expected actual => s!"Expected {expected} arguments but got {actual}."
  | .badArgument position function why =>
    s!"Argument {position} of '{function}': {why.message}"
  | .badResult function why => s!"'{function}' returned a bad value: {why.message}"
  | .integerOverflow => "Integer overflow."
  | .divisionByZero => "Division by zero."
  | .operandNotNumber => "Operand must be a number."
  | .operandsNotNumbers => "Operands must be numbers."
  | .invalidUnary operator => s!"Invalid unary operator '{operator}'."
  | .invalidBinary operator => s!"Invalid binary operator '{operator}'."

/-- A fault and the line on which it was met. -/
structure RuntimeError where
  line : Nat
  fault : Fault
deriving DecidableEq

def RuntimeError.message (e : RuntimeError) : String :=
  e.fault.message

def RuntimeError.text (e : RuntimeError) : String :=
  s!"[line {e.line}] {e.message}"

end TickScript
