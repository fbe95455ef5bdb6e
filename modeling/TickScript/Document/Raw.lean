import TickScript.Document

/-!
# Reading the form of a document

A document is first read for its form alone. Texts keep the code units that were written as
such, and numbers keep their digits; whether they mean something is asked only of the parts
of a document that are used.
-/

namespace TickScript

/-- A character of a text, or a code unit written by its number. -/
inductive RawChar where
  | char (c : Char)
  | unit (code : Nat)
deriving DecidableEq, Repr

/-- The digits of a number: before the point, after it, and of the exponent. -/
structure RawNumber where
  negative : Bool
  whole : List Char
  fraction : List Char
  exponent : Option (Bool × List Char)
deriving DecidableEq, Repr

/-- A document by its form. -/
inductive Raw where
  | null
  | bool (b : Bool)
  | number (n : RawNumber)
  | string (text : List RawChar)
  | array (items : List Raw)
  | object (entries : List (List RawChar × Raw))

namespace Raw

/-- What a reader gives: something read and the characters behind it. -/
abbrev Reader (α : Type) := List Char → Option (α × List Char)

def isBlank (c : Char) : Bool :=
  c == ' ' || c == '\n' || c == '\t' || c == '\r'

def skipBlanks (text : List Char) : List Char :=
  text.dropWhile isBlank

def hexValue? (c : Char) : Option Nat :=
  if c.isDigit then some (c.toNat - '0'.toNat)
  else if 'a' ≤ c ∧ c ≤ 'f' then some (c.toNat - 'a'.toNat + 10)
  else if 'A' ≤ c ∧ c ≤ 'F' then some (c.toNat - 'A'.toNat + 10)
  else none

/-- Four hexadecimal digits. -/
def codeUnit : Reader Nat
  | a :: b :: c :: d :: rest => do
    let n := 4096 * (← hexValue? a) + 256 * (← hexValue? b) + 16 * (← hexValue? c) + (← hexValue? d)
    return (n, rest)
  | _ => none

/-- The character that a letter behind a backslash stands for. -/
def escaped? : Char → Option Char
  | '"' => some '"'
  | '\\' => some '\\'
  | '/' => some '/'
  | 'b' => some '\x08'
  | 'f' => some '\x0c'
  | 'n' => some '\n'
  | 'r' => some '\r'
  | 't' => some '\t'
  | _ => none

/-- A text behind its opening quote and through the closing one, of at most `limit`
characters. -/
def text : (limit : Nat) → Reader (List RawChar)
  | 0, _ => none
  | _ + 1, [] => none
  | limit + 1, c :: rest =>
    if c = '"' then some ([], rest)
    else if c = '\\' then
      match rest with
      | 'u' :: after => do
        let (code, after) ← codeUnit after
        let (more, after) ← text limit after
        return (.unit code :: more, after)
      | e :: after => do
        let c ← escaped? e
        let (more, after) ← text limit after
        return (.char c :: more, after)
      | [] => none
    else if c.toNat < 0x20 then none
    else do
      let (more, after) ← text limit rest
      return (.char c :: more, after)

/-- At least one digit. -/
def digits : Reader (List Char) := fun cs =>
  let found := cs.takeWhile Char.isDigit
  if found.isEmpty then none else some (found, cs.dropWhile Char.isDigit)

/-- The digits before the point. Only zero itself begins with a zero. -/
def wholeDigits : Reader (List Char) := fun cs => do
  let (found, rest) ← digits cs
  if found.head? = some '0' ∧ 1 < found.length then none else return (found, rest)

/-- The digits behind a point, if there is one. -/
def fractionDigits : Reader (List Char)
  | '.' :: rest => digits rest
  | rest => some ([], rest)

/-- The sign and the digits of an exponent, if there is one. -/
def exponentDigits : Reader (Option (Bool × List Char))
  | [] => some (none, [])
  | c :: rest =>
    if c = 'e' ∨ c = 'E' then do
      let (negative, rest) := Number.takeSign rest
      let (found, rest) ← digits rest
      return (some (negative, found), rest)
    else some (none, c :: rest)

/-- A number behind its sign. -/
def numeral (negative : Bool) : Reader RawNumber := fun cs => do
  let (whole, rest) ← wholeDigits cs
  let (fraction, rest) ← fractionDigits rest
  let (exponent, rest) ← exponentDigits rest
  return (⟨negative, whole, fraction, exponent⟩, rest)

/-- The rest of a word behind its first letter. -/
def word (letters : String) (result : Raw) : Reader Raw := fun cs =>
  if letters.toList.isPrefixOf cs then some (result, cs.drop letters.length) else none

/-- Elements up to the closing bracket, at most `limit` of them. -/
def items (value : Reader Raw) : (limit : Nat) → Reader (List Raw)
  | 0, _ => none
  | limit + 1, cs => do
    let (first, rest) ← value cs
    match skipBlanks rest with
    | ']' :: rest => return ([first], rest)
    | ',' :: rest =>
      let (more, rest) ← items value limit rest
      return (first :: more, rest)
    | _ => none

/-- A key and a value with a colon between them. -/
def entry (value : Reader Raw) : Reader (List RawChar × Raw) := fun cs =>
  match skipBlanks cs with
  | '"' :: rest => do
    let (key, rest) ← text (rest.length + 1) rest
    match skipBlanks rest with
    | ':' :: rest =>
      let (v, rest) ← value rest
      return ((key, v), rest)
    | _ => none
  | _ => none

/-- Entries up to the closing brace, at most `limit` of them. -/
def entries (value : Reader Raw) : (limit : Nat) → Reader (List (List RawChar × Raw))
  | 0, _ => none
  | limit + 1, cs => do
    let (first, rest) ← entry value cs
    match skipBlanks rest with
    | '\x7d' :: rest => return ([first], rest)
    | ',' :: rest =>
      let (more, rest) ← entries value limit rest
      return (first :: more, rest)
    | _ => none

/-- An array behind its opening bracket. -/
def arrayOf (value : Reader Raw) : Reader Raw := fun cs =>
  match skipBlanks cs with
  | ']' :: rest => some (.array [], rest)
  | _ => do
    let (found, rest) ← items value (cs.length + 1) cs
    return (.array found, rest)

/-- An object behind its opening brace. -/
def objectOf (value : Reader Raw) : Reader Raw := fun cs =>
  match skipBlanks cs with
  | '\x7d' :: rest => some (.object [], rest)
  | _ => do
    let (found, rest) ← entries value (cs.length + 1) cs
    return (.object found, rest)

/-- A document in which arrays and objects nest at most `depth` deep. -/
def value : (depth : Nat) → Reader Raw
  | 0, _ => none
  | depth + 1, cs =>
    match skipBlanks cs with
    | 'n' :: rest => word "ull" .null rest
    | 't' :: rest => word "rue" (.bool true) rest
    | 'f' :: rest => word "alse" (.bool false) rest
    | '"' :: rest => do
      let (found, rest) ← text (rest.length + 1) rest
      return (.string found, rest)
    | '[' :: rest => arrayOf (value depth) rest
    | '\x7b' :: rest => objectOf (value depth) rest
    | '-' :: rest => do
      let (n, rest) ← numeral true rest
      return (.number n, rest)
    | c :: rest => do
      let (n, rest) ← numeral false (c :: rest)
      return (.number n, rest)
    | [] => none

/-- Reads the form of a whole document. It nests no deeper than it is long. -/
def ofText? (source : String) : Option Raw := do
  let cs := source.toList
  let (found, rest) ← value (cs.length + 1) cs
  if (skipBlanks rest).isEmpty then return found else none

end Raw

end TickScript
