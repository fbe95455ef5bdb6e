import TickScript.Document.Raw

/-!
# Reading the meaning of a document

A number without point and exponent is an integer as long as it fits 64 bits; every other
number is a double. Doubles are found from at most 64 bits of leading digits and a power of
ten, with one rounding for each of the two steps; one beyond the range of doubles is
refused. A text has to be made of characters, so a code unit that is only half of one is
refused. Arrays and objects nest less than 128 deep.
-/

namespace TickScript

namespace Raw

/-- The first number beyond 64 bits, which leading digits do not reach. -/
def wordLimit : Nat := 18446744073709551616

/-- Takes up digits as long as the number stays below the limit, and gives the digits that
were left over. -/
def accumulate : Nat → List Char → Nat × List Char
  | n, [] => (n, [])
  | n, c :: rest =>
    let next := 10 * n + (c.toNat - '0'.toNat)
    if next < wordLimit then accumulate next rest else (n, c :: rest)

/-- The double next to `10 ^ k`. -/
def powerOfTen (k : Nat) : Float :=
  Float.ofScientific 1 false k

/-- Divides by powers of ten until the exponent is used up or nothing is left. -/
def shrink : (steps : Nat) → Float → Nat → Float
  | 0, x, _ => x
  | steps + 1, x, k =>
    if k ≤ 308 then x / powerOfTen k
    else if x == 0 then x
    else shrink steps (x / powerOfTen 308) (k - 308)

/-- The double next to `digits · 10 ^ exponent`, up to the two roundings. -/
def scale (digits : Nat) (exponent : Int) : Option Float :=
  let x := Float.ofNat digits
  match exponent with
  | .ofNat k =>
    if k ≤ 308 then
      let y := x * powerOfTen k
      if y.isInf then none else some y
    else if x == 0 then some x
    else none
  | .negSucc k => some (shrink 8 x (k + 1))

/-- The greatest exponent that is looked at. -/
def maxExponent : Nat := 2147483647

/-- The double of some leading digits, an exponent for them, and the exponent as written. -/
def magnitude (digits : Nat) (exponent : Int) : Option (Bool × List Char) → Option Float
  | none => scale digits exponent
  | some (negative, written) =>
    let n := Number.ofDigits written
    if maxExponent < n then
      if digits ≠ 0 ∧ !negative then none else some 0
    else scale digits (if negative then exponent - n else exponent + n)

def withSign (negative : Bool) (x : Float) : Float :=
  if negative then -x else x

/-- The meaning of a number. -/
def numberValue (n : RawNumber) : Option Document :=
  let (digits, excess) := accumulate 0 n.whole
  if excess.isEmpty ∧ n.fraction.isEmpty ∧ n.exponent.isNone then
    if n.negative then
      if digits = 0 ∨ signWeight < digits then some (.float (-(Float.ofNat digits)))
      else some (.int (-digits))
    else some (.int digits)
  else
    let (digits, unused) := accumulate digits n.fraction
    let exponent : Int := excess.length - (n.fraction.length - unused.length : Nat)
    (magnitude digits exponent n.exponent).map fun x => .float (withSign n.negative x)

/-- The characters of a text. -/
def characters : List RawChar → Option (List Char)
  | [] => some []
  | .char c :: rest => (characters rest).map (c :: ·)
  | .unit high :: .unit low :: rest =>
    if 0xD800 ≤ high ∧ high < 0xDC00 then
      if 0xDC00 ≤ low ∧ low < 0xE000 then
        let c := Char.ofNat (0x10000 + 0x400 * (high - 0xD800) + (low - 0xDC00))
        (characters rest).map (c :: ·)
      else none
    else if 0xDC00 ≤ high ∧ high < 0xE000 then none
    else (characters (.unit low :: rest)).map (Char.ofNat high :: ·)
  | .unit code :: rest =>
    if 0xD800 ≤ code ∧ code < 0xE000 then none
    else (characters rest).map (Char.ofNat code :: ·)

/-- The meaning of a text. -/
def textValue (text : List RawChar) : Option String :=
  (characters text).map String.ofList

/-- How deep a document may nest. -/
def maxDepth : Nat := 127

mutual

/-- The meaning of a document in which arrays and objects nest at most `depth` deep. -/
def meaning (depth : Nat) : Raw → Option Document
  | .null => some .null
  | .bool b => some (.bool b)
  | .number n => numberValue n
  | .string text => (textValue text).map .string
  | .array items =>
    if depth = 0 then none else (meanings (depth - 1) items).map .array
  | .object entries =>
    if depth = 0 then none else (entryMeanings (depth - 1) entries).map .object

def meanings (depth : Nat) : List Raw → Option (List Document)
  | [] => some []
  | r :: rs => do
    let d ← meaning depth r
    return d :: (← meanings depth rs)

def entryMeanings (depth : Nat) : List (List RawChar × Raw) → Option (List (String × Document))
  | [] => some []
  | (key, r) :: rest => do
    let name ← textValue key
    let d ← meaning depth r
    return (name, d) :: (← entryMeanings depth rest)

end

end Raw

end TickScript
