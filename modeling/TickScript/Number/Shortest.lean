import TickScript.Number.Binary

/-!
# Shortest decimal digits

Every double has a decimal of at most 17 digits that reads back as that double. This
module finds one with the fewest digits: for each count of digits in turn it tries the two
decimals next to the value on that grid, and takes the first that lies in the interval of
reals which round to the double.
-/

namespace TickScript

/-- Ten to the power of `k`. -/
abbrev tenTo (k : Nat) : Nat :=
  Nat.pow 10 k

/-- The decimal `digits · 10 ^ exponent`. -/
structure Decimal where
  digits : Nat
  exponent : Int
deriving DecidableEq, Repr

namespace Decimal

/-- Drops zeros at the end of the digits. -/
def trim : Nat → Decimal → Decimal
  | 0, d => d
  | steps + 1, d =>
    if d.digits ≠ 0 ∧ d.digits % 10 = 0 then trim steps ⟨d.digits / 10, d.exponent + 1⟩ else d

end Decimal

/-- Which of two decimals at the same distance from a value is taken. -/
inductive Tie where
  | up
  | even
deriving DecidableEq, Repr

/-- The choice between `n` and `n + 1`, where `rest / whole` is the distance from `n`. -/
def Tie.nearest (tie : Tie) (n rest whole : Nat) : Nat :=
  if 2 * rest < whole then n
  else if whole < 2 * rest then n + 1
  else match tie with
    | .up => n + 1
    | .even => if n % 2 = 0 then n else n + 1

namespace Shortest

/-- A positive double and its neighbourhood on a common scale: the value is
`value / scale`, and the reals that round to it lie between `low / scale` and
`high / scale`, the ends among them if `closed`. -/
structure Interval where
  low : Nat
  value : Nat
  high : Nat
  scale : Nat
  closed : Bool

/-- The interval of a double with a positive significand. The gap below a power of two is
half the gap above it, except at the least exponent. -/
def interval (b : Binary) : Interval :=
  let half := if b.significand = Binary.exponentWeight ∧ -1074 < b.exponent then 1 else 2
  let up := twoTo b.exponent.toNat
  let scale := 4 * twoTo (-b.exponent).toNat
  { low := (4 * b.significand - half) * up
    value := 4 * b.significand * up
    high := (4 * b.significand + 2) * up
    scale
    closed := b.significand % 2 = 0 }

/-- Does the decimal `n · 10 ^ e` lie in the interval? -/
def Interval.holds (i : Interval) (n : Nat) (e : Int) : Bool :=
  let left := n * tenTo e.toNat * i.scale
  let right := tenTo (-e).toNat
  if i.closed then i.low * right ≤ left ∧ left ≤ i.high * right
  else i.low * right < left ∧ left < i.high * right

/-- On the grid of multiples of `10 ^ e`, the decimal next to the value that lies in the
interval. Of two, the nearer; at the same distance, `tie` decides. -/
def Interval.onGrid (i : Interval) (tie : Tie) (e : Int) : Option Nat :=
  let numerator := i.value * tenTo (-e).toNat
  let denominator := i.scale * tenTo e.toNat
  let below := numerator / denominator
  let rest := numerator % denominator
  match i.holds below e, i.holds (below + 1) e with
  | true, true => some (tie.nearest below rest denominator)
  | true, false => some below
  | false, true => some (below + 1)
  | false, false => none

/-- The first grid, from the multiples of `10 ^ e` downwards, that has a decimal in the
interval. -/
def Interval.search (i : Interval) (tie : Tie) : Nat → Int → Decimal
  | 0, e => ⟨i.value * tenTo (-e).toNat / (i.scale * tenTo e.toNat), e⟩
  | steps + 1, e =>
    match i.onGrid tie e with
    | some n => ⟨n, e⟩
    | none => i.search tie steps (e - 1)

/-- The number of decimal digits of `n`, found among the first `steps` counts. -/
def digitCount : Nat → Nat → Nat
  | 0, _ => 0
  | steps + 1, n => if n < 10 then 1 else 1 + digitCount steps (n / 10)

/-- The power of ten at or next above the leading digit of the value. -/
def Interval.magnitude (i : Interval) : Int :=
  let whole := i.value / i.scale
  if whole ≠ 0 then (digitCount (Nat.log2 whole + 1) whole : Int)
  else 1 - (digitCount (Nat.log2 (i.scale / i.value) + 1) (i.scale / i.value) : Int)

/-- The shortest decimal that reads back as the magnitude of `b`, and of those with so many
digits the nearest. -/
def digits (tie : Tie) (b : Binary) : Decimal :=
  if b.significand = 0 then ⟨0, 0⟩
  else
    let i := interval b
    (i.search tie 20 i.magnitude).trim 20

end Shortest

end TickScript
