import TickScript.Signature

/-!
# Values

A value is a number, a truth value, nothing, or a handle. Arrays and functions are known by
handles into a store, so two values can be the same array.
-/

namespace TickScript

/-- The handle of an array. -/
abbrev ArrayId := Nat

/-- The handle of a function. -/
abbrev FunctionId := Nat

/-- The handle of a scope. -/
abbrev ScopeId := Nat

inductive Value where
  | int (n : Int64)
  | float (x : Float)
  | bool (b : Bool)
  | array (a : ArrayId)
  | function (f : FunctionId)
  | nil
deriving DecidableEq

/-- The kinds of values. -/
inductive Shape where
  | int
  | float
  | bool
  | array
  | function
  | nil
deriving DecidableEq, Repr

def Shape.word : Shape → String
  | .int => "int"
  | .float => "float"
  | .bool => "bool"
  | .array => "array"
  | .function => "function"
  | .nil => "nil"

/-- Why a value does not fit a type. -/
inductive Mismatch where
  | notIntegral (x : Float)
  | shape (expected : Ty) (actual : Shape)
deriving DecidableEq

def Mismatch.message : Mismatch → String
  | .notIntegral x => s!"Expected int but got float {Number.display x}."
  | .shape expected actual => s!"Expected {expected.display} but got {actual.word}."

namespace Value

instance : Inhabited Value := ⟨.nil⟩

def ofLiteral : Literal → Value
  | .int n => .int n
  | .float x => .float x
  | .bool b => .bool b

def shape : Value → Shape
  | .int _ => .int
  | .float _ => .float
  | .bool _ => .bool
  | .array _ => .array
  | .function _ => .function
  | .nil => .nil

/-- The integer that a number denotes exactly. -/
def integral? : Value → Option Int64
  | .int n => some n
  | .float x => Number.integral? x
  | _ => none

/-- A number as a double. -/
def float? : Value → Option Float
  | .int n => some (Number.ofInt n)
  | .float x => some x
  | _ => none

/-- Does a condition with this value hold? Only `false` and nothing do not. -/
def isTruthy : Value → Bool
  | .nil => false
  | .bool b => b
  | _ => true

/-- A value as one of a type, for everything but the elements of an array: an integer
becomes a double, a double that denotes an integer becomes it, and `any` and `unknown` take
everything. -/
def convert (type : Ty) (v : Value) : Except Mismatch Value :=
  match type, v with
  | .any, v => .ok v
  | .unknown, v => .ok v
  | .int, .int n => .ok (.int n)
  | .int, .float x =>
    match Number.integral? x with
    | some n => .ok (.int n)
    | none => .error (.notIntegral x)
  | .float, .int n => .ok (.float (Number.ofInt n))
  | .float, .float x => .ok (.float x)
  | .bool, .bool b => .ok (.bool b)
  | .void, .nil => .ok .nil
  | .array _, .array a => .ok (.array a)
  | type, v => .error (.shape type v.shape)

/-- The only conversion that depends on the value and not on its kind alone. -/
theorem convert_float_int (x : Float) : (float x).convert .int =
    match Number.integral? x with
    | some n => .ok (.int n)
    | none => .error (.notIntegral x) :=
  rfl

end Value

end TickScript
