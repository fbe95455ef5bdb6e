/-!
# Decoding UTF-8

Bytes are decoded as far as they are well-formed. A failure tells where the first sequence
starts that is not, and how many of its bytes can be told to be wrong; a sequence that
merely breaks off at the end of the bytes is incomplete.
-/

namespace TickScript

namespace Utf8

/-- Why bytes are no text. -/
inductive Failure where
  | invalid (length index : Nat)
  | incomplete (index : Nat)
deriving DecidableEq, Repr

def Failure.message : Failure → String
  | .invalid length index => s!"invalid utf-8 sequence of {length} bytes from index {index}"
  | .incomplete index => s!"incomplete utf-8 byte sequence from index {index}"

/-- How many bytes follow a first byte, and between which bounds the next one lies. -/
def following (first : Nat) : Option (Nat × Nat × Nat) :=
  if first < 0x80 then some (0, 0x80, 0xBF)
  else if first < 0xC2 then none
  else if first < 0xE0 then some (1, 0x80, 0xBF)
  else if first = 0xE0 then some (2, 0xA0, 0xBF)
  else if first = 0xED then some (2, 0x80, 0x9F)
  else if first < 0xF0 then some (2, 0x80, 0xBF)
  else if first = 0xF0 then some (3, 0x90, 0xBF)
  else if first < 0xF4 then some (3, 0x80, 0xBF)
  else if first = 0xF4 then some (3, 0x80, 0x8F)
  else none

/-- The bits that a first byte contributes. -/
def leadingBits (first count : Nat) : Nat :=
  match count with
  | 0 => first
  | 1 => first % 0x20
  | 2 => first % 0x10
  | _ => first % 0x08

/-- Takes up `count` more bytes, of which the first lies between `low` and `high`. Answers
the code point, or how many bytes were right, or nothing if the bytes break off. -/
def continuation : (count taken low high code : Nat) → List UInt8 → Option (Except Nat Nat)
  | 0, _, _, _, code, _ => some (.ok code)
  | _ + 1, _, _, _, _, [] => none
  | count + 1, taken, low, high, code, b :: rest =>
    let n := b.toNat
    if low ≤ n ∧ n ≤ high then
      continuation count (taken + 1) 0x80 0xBF (64 * code + n % 64) rest
    else some (.error taken)

/-- Decodes bytes that start at `index`, of which the next `skip` belong to a character that
has been decoded already. -/
def decodeFrom : (index skip : Nat) → List UInt8 → Except Failure (List Char)
  | _, _, [] => .ok []
  | index, skip + 1, _ :: rest => decodeFrom (index + 1) skip rest
  | index, 0, b :: rest =>
    match following b.toNat with
    | none => .error (.invalid 1 index)
    | some (count, low, high) =>
      match continuation count 1 low high (leadingBits b.toNat count) rest with
      | none => .error (.incomplete index)
      | some (.error taken) => .error (.invalid taken index)
      | some (.ok code) => (decodeFrom (index + 1) count rest).map (Char.ofNat code :: ·)

/-- The text of some bytes. -/
def decode (bytes : List UInt8) : Except Failure String :=
  (decodeFrom 0 0 bytes).map String.ofList

end Utf8

end TickScript
