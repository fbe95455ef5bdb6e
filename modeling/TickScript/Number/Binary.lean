/-!
# Doubles as exact numbers

A finite double is `± significand · 2 ^ exponent`. Taking it apart into natural numbers
lets the questions that a script asks of it (is it an integer, what is its remainder,
what is its text) be answered by exact arithmetic.
-/

namespace TickScript

/-- The number `± significand · 2 ^ exponent`. -/
structure Binary where
  negative : Bool
  significand : Nat
  exponent : Int
deriving DecidableEq, Repr

/-- Two to the power of `k`. -/
abbrev twoTo (k : Nat) : Nat :=
  Nat.pow 2 k

/-- The weight of the sign bit of a 64-bit word, two to the power of 63. -/
abbrev signWeight : Nat := 9223372036854775808

namespace Binary

/-- The weight of the lowest exponent bit of a double, two to the power of 52. It is also
the least significand that uses all 53 binary digits. -/
abbrev exponentWeight : Nat := 4503599627370496

/-- The exact value of a double, `none` for the infinities and for a NaN. -/
def ofFloat? (x : Float) : Option Binary :=
  let bits := x.toBits.toNat
  let negative := bits / signWeight == 1
  let field : Nat := bits / exponentWeight % 2048
  let fraction := bits % exponentWeight
  if field = 2047 then none
  else if field = 0 then some ⟨negative, fraction, -1074⟩
  else some ⟨negative, exponentWeight + fraction, Int.ofNat field - 1075⟩

/-- The magnitude as an integer, `none` if it has a fractional part. -/
def magnitude? (b : Binary) : Option Nat :=
  match b.exponent with
  | .ofNat k => some (b.significand * twoTo k)
  | .negSucc k =>
    if b.significand % twoTo (k + 1) = 0 then some (b.significand / twoTo (k + 1)) else none

/-- The integer that the number is, if it is one. -/
def integer? (b : Binary) : Option Int :=
  b.magnitude?.map fun n => if b.negative then -(n : Int) else n

/-- Moves the binary point so that the significand has 53 digits, or as many as the least
exponent of a double allows. -/
def normalize : Nat → Nat → Int → Nat × Int
  | 0, significand, exponent => (significand, exponent)
  | steps + 1, significand, exponent =>
    if significand < exponentWeight ∧ -1074 < exponent then
      normalize steps (2 * significand) (exponent - 1)
    else (significand, exponent)

/-- The double with this value, for a number that is one: a significand below `2 ^ 53`
and an exponent between `-1074` and `971`. -/
def toFloat (b : Binary) : Float :=
  let (significand, exponent) := normalize 52 b.significand b.exponent
  let magnitude :=
    if significand < exponentWeight then significand
    else (exponent + 1075).toNat * exponentWeight + (significand - exponentWeight)
  Float.ofBits (UInt64.ofNat (magnitude + if b.negative then signWeight else 0))

/-- The remainder of a division that rounds the quotient toward zero. It is exact and has
the sign of the dividend. -/
def remainder (a b : Binary) : Binary :=
  let exponent := min a.exponent b.exponent
  let dividend := a.significand * twoTo (a.exponent - exponent).toNat
  let divisor := b.significand * twoTo (b.exponent - exponent).toNat
  ⟨a.negative, dividend % divisor, exponent⟩

end Binary

namespace Number

/-- The remainder of two doubles, for a divisor other than zero: exact between finite
numbers, the dividend itself under an infinite divisor, and otherwise no number. -/
def remainder (a b : Float) : Float :=
  match Binary.ofFloat? a, Binary.ofFloat? b with
  | some x, some y => (x.remainder y).toFloat
  | some _, none => if b.isNaN then b else a
  | none, _ => a - a

/-- The integer that a double denotes, if it denotes one of a magnitude below `2 ^ 63`. -/
def integral? (x : Float) : Option Int64 :=
  match (Binary.ofFloat? x).bind Binary.integer? with
  | some n => if n.natAbs < signWeight then some (Int64.ofInt n) else none
  | none => none

/-- The double nearest to an integer, the even one of two at the same distance. -/
def ofInt (n : Int64) : Float :=
  Float.ofInt n.toInt

end Number

end TickScript
