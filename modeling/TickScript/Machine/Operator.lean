import TickScript.Fault
import TickScript.Number.Checked
import TickScript.Store.Content

/-!
# Operators at work

Two integers are combined exactly or not at all; as soon as one operand is a double, both
are. Equality compares numbers by value and everything else by content.
-/

namespace TickScript

def ArithmeticError.fault : ArithmeticError → Fault
  | .overflow => .integerOverflow
  | .divisionByZero => .divisionByZero

namespace Operator

/-- The result of checked integer arithmetic. -/
def ofChecked : Except ArithmeticError Int64 → Except Fault Value
  | .ok n => .ok (.int n)
  | .error e => .error e.fault

/-- Applies a sign. -/
def unary (operator : Token) (v : Value) : Except Fault Value :=
  match operator.kind with
  | .minus =>
    match v with
    | .int n => ofChecked (Number.neg n)
    | .float x => .ok (.float (-x))
    | _ => .error .operandNotNumber
  | .bang => .ok (.bool !v.isTruthy)
  | _ => .error (.invalidUnary operator.lexeme)

/-- Are two operands equal? -/
def areEqual (s : Store) (l r : Value) : Bool :=
  match l, r with
  | .int a, .int b => a == b
  | .int a, .float b => Number.ofInt a == b
  | .float a, .int b => a == Number.ofInt b
  | l, r => s.equal l r

/-- Combines two integers. -/
def integers (operator : Token) (a b : Int64) : Except Fault Value :=
  match operator.kind with
  | .plus => ofChecked (Number.add a b)
  | .minus => ofChecked (Number.sub a b)
  | .star => ofChecked (Number.mul a b)
  | .slash => ofChecked (Number.div a b)
  | .percent => ofChecked (Number.rem a b)
  | .greater => .ok (.bool (b.toInt < a.toInt))
  | .greaterEqual => .ok (.bool (b.toInt ≤ a.toInt))
  | .less => .ok (.bool (a.toInt < b.toInt))
  | .lessEqual => .ok (.bool (a.toInt ≤ b.toInt))
  | _ => .error (.invalidBinary operator.lexeme)

/-- Combines two doubles. -/
def floats (operator : Token) (a b : Float) : Except Fault Value :=
  match operator.kind with
  | .plus => .ok (.float (a + b))
  | .minus => .ok (.float (a - b))
  | .star => .ok (.float (a * b))
  | .slash => if b == 0 then .error .divisionByZero else .ok (.float (a / b))
  | .percent =>
    if b == 0 then .error .divisionByZero else .ok (.float (Number.remainder a b))
  | .greater => .ok (.bool (b < a))
  | .greaterEqual => .ok (.bool (b ≤ a))
  | .less => .ok (.bool (a < b))
  | .lessEqual => .ok (.bool (a ≤ b))
  | _ => .error (.invalidBinary operator.lexeme)

/-- Combines two numbers. -/
def numbers (operator : Token) (l r : Value) : Except Fault Value :=
  match l, r with
  | .int a, .int b => integers operator a b
  | l, r =>
    match l.float?, r.float? with
    | some a, some b => floats operator a b
    | _, _ => .error .operandsNotNumbers

/-- Combines two values. -/
def binary (s : Store) (operator : Token) (l r : Value) : Except Fault Value :=
  match operator.kind with
  | .equalEqual => .ok (.bool (areEqual s l r))
  | .bangEqual => .ok (.bool !areEqual s l r)
  | _ => numbers operator l r

/-- Does the left operand decide a logical operator by itself? -/
def decides (operator : Token) (left : Value) : Bool :=
  if operator.kind = .or then left.isTruthy else !left.isTruthy

end Operator

end TickScript
