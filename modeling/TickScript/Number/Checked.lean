/-!
# Integer arithmetic that never wraps

Integers have 64 bits. An operation computes the exact result and then asks whether it
fits; what does not fit is an overflow, never a different number.
-/

namespace TickScript

/-- Why an integer operation has no result. -/
inductive ArithmeticError where
  | overflow
  | divisionByZero
deriving DecidableEq, Repr

namespace Number

/-- Is `n` an integer of 64 bits with a sign? -/
def fits (n : Int) : Bool :=
  -9223372036854775808 ≤ n && n ≤ 9223372036854775807

/-- The 64-bit integer equal to `n`. -/
def fit (n : Int) : Except ArithmeticError Int64 :=
  if fits n then .ok (Int64.ofInt n) else .error .overflow

def neg (a : Int64) : Except ArithmeticError Int64 :=
  fit (-a.toInt)

def add (a b : Int64) : Except ArithmeticError Int64 :=
  fit (a.toInt + b.toInt)

def sub (a b : Int64) : Except ArithmeticError Int64 :=
  fit (a.toInt - b.toInt)

def mul (a b : Int64) : Except ArithmeticError Int64 :=
  fit (a.toInt * b.toInt)

/-- The quotient, rounded toward zero. -/
def div (a b : Int64) : Except ArithmeticError Int64 :=
  if b = 0 then .error .divisionByZero else fit (a.toInt.tdiv b.toInt)

/-- The remainder that goes with `div`: it has the dividend's sign, and exists only where
the quotient does. -/
def rem (a b : Int64) : Except ArithmeticError Int64 :=
  match div a b with
  | .ok _ => fit (a.toInt.tmod b.toInt)
  | .error e => .error e

end Number

end TickScript
