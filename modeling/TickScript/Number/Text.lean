import TickScript.Number.Shortest

/-!
# The text of numbers

Scripts see a double in full: never with an exponent, and with `.0` when it is an integer.
Documents exchanged with a host write very large and very small doubles with an exponent.
Both take their digits from `Shortest`. Reading is correctly rounded.
-/

namespace TickScript

namespace Decimal

/-- The double nearest to a decimal. -/
def toFloat (d : Decimal) : Float :=
  match d.exponent with
  | .ofNat k => Float.ofScientific d.digits false k
  | .negSucc k => Float.ofScientific d.digits true (k + 1)

/-- The digits with a decimal point, or with zeros in place of one, and no exponent. -/
def positional (d : Decimal) : String :=
  let digits := toString d.digits
  match d.exponent with
  | .ofNat k => digits ++ String.ofList (List.replicate k '0')
  | .negSucc k =>
    let places := k + 1
    if places < digits.length then
      String.ofList (digits.toList.take (digits.length - places)) ++ "." ++
        String.ofList (digits.toList.drop (digits.length - places))
    else "0." ++ String.ofList (List.replicate (places - digits.length) '0') ++ digits

/-- An exponent with its sign. -/
def exponentText : Int → String
  | .ofNat k => "e+" ++ toString k
  | .negSucc k => "e-" ++ toString (k + 1)

/-- One digit, the others after a point, and an exponent. -/
def scientific (d : Decimal) : String :=
  let digits := (toString d.digits).toList
  let fraction := digits.drop 1
  let point := if fraction.isEmpty then "" else "."
  String.ofList (digits.take 1) ++ point ++ String.ofList fraction ++
    exponentText (d.exponent + fraction.length)

end Decimal

namespace Number

/-- The value of a run of decimal digits. -/
def ofDigits (digits : List Char) : Nat :=
  digits.foldl (fun n c => 10 * n + (c.toNat - '0'.toNat)) 0

/-- How a script prints a double. -/
def display (x : Float) : String :=
  match Binary.ofFloat? x with
  | none => if x.isNaN then "NaN" else if x < 0 then "-inf" else "inf"
  | some b =>
    let sign := if b.negative then "-" else ""
    match b.magnitude? with
    | some n => sign ++ toString n ++ ".0"
    | none => sign ++ (Shortest.digits .up b).positional

/-- How a document writes a finite double: positional while the point stands within
sixteen digits or four zeros of the first digit, with an exponent beyond. -/
def documentText (x : Float) : String :=
  match Binary.ofFloat? x with
  | none => "null"
  | some b =>
    let sign := if b.negative then "-" else ""
    let d := Shortest.digits .even b
    let point := (toString d.digits).length + d.exponent
    let text :=
      if d.digits = 0 then "0.0"
      else if point ≤ -5 ∨ 16 < point then d.scientific
      else if 0 ≤ d.exponent then d.positional ++ ".0"
      else d.positional
    sign ++ text

/-- Splits off a sign. -/
def takeSign : List Char → Bool × List Char
  | '-' :: rest => (true, rest)
  | '+' :: rest => (false, rest)
  | text => (false, text)

/-- The exponent part of a decimal text, zero if it is missing. -/
def readExponent : List Char → Option Int
  | [] => some 0
  | c :: rest =>
    let (negative, digits) := takeSign rest
    if (c == 'e' || c == 'E') && !digits.isEmpty && digits.all Char.isDigit then
      some (if negative then -(ofDigits digits : Int) else ofDigits digits)
    else none

/-- Reads an unsigned decimal: digits, perhaps a point and more digits, perhaps an
exponent. -/
def readDecimal (text : List Char) : Option Decimal :=
  let whole := text.takeWhile Char.isDigit
  let rest := text.dropWhile Char.isDigit
  let (fraction, rest) :=
    match rest with
    | '.' :: after => (after.takeWhile Char.isDigit, after.dropWhile Char.isDigit)
    | rest => ([], rest)
  if whole.isEmpty && fraction.isEmpty then none
  else (readExponent rest).map fun e =>
    ⟨ofDigits (whole ++ fraction), e - fraction.length⟩

/-- Reads a double: what `display` writes, and decimals with an exponent. -/
def read? (text : String) : Option Float :=
  let (negative, digits) := takeSign text.toList
  let magnitude :=
    if digits = "inf".toList then some (1 / 0)
    else if digits = "NaN".toList then some (0 / 0)
    else (readDecimal digits).map Decimal.toFloat
  magnitude.map fun x => if negative then -x else x

end Number

end TickScript
