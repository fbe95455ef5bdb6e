import TickScript.Table
import TickScript.Token.Piece

/-!
# Scanning

The pieces of a source text become tokens in one pass from left to right, which also
gives every identifier the declared type of its name. A table of names, which the host may
have filled beforehand, holds the types known so far:

* a name that is not in the table gets the type written right before it (`int x`,
  `float[] xs`), or `unknown` if no type stands there;
* a name with a known type keeps it, and a different type written before it is a problem;
* a name whose type is still `unknown` gets the type written before it, and so do all its
  earlier tokens.

Characters that belong to nothing are reported and passed over, so scanning reaches the end
of every text.
-/

namespace TickScript

/-- The declared types of names. -/
abbrev NameTypes := Table String Ty

/-- The state of a scan. Tokens are kept with the latest first. -/
structure Scan where
  line : Nat
  offset : Nat
  latest : List Token
  types : NameTypes
  diagnostics : List Diagnostic

namespace Scan

/-- The state before the first piece. -/
def start (types : NameTypes) : Scan :=
  { line := 1, offset := 0, latest := [], types, diagnostics := [] }

/-- The number of bytes of a text in UTF-8. -/
def byteSize (text : List Char) : Nat :=
  text.foldl (fun size c => size + c.utf8Size) 0

/-- The type written by the tokens right before the next one: a type keyword, or one
followed by `[` and `]`. -/
def writtenType? : List Token → Option Ty
  | [] => none
  | last :: before =>
    if last.kind = .rightBracket then
      match before with
      | bracket :: keyword :: _ =>
        if bracket.kind = .leftBracket then keyword.kind.type?.map Ty.arrayOf else none
      | _ => none
    else last.kind.type?

/-- Gives the earlier tokens of a name its type. -/
def retype (name : String) (type : Ty) (tokens : List Token) : List Token :=
  tokens.map fun t => if t.kind = .identifier ∧ t.lexeme = name then { t with type } else t

def report (s : Scan) (problem : LexProblem) (location : Location) : Scan :=
  { s with diagnostics := s.diagnostics ++ [⟨.lex problem, s.line, location⟩] }

def emit (s : Scan) (token : Token) : Scan :=
  { s with latest := token :: s.latest }

/-- The type of the next token of a name, after the table, the earlier tokens and the
diagnostics have been brought up to date. -/
def typeName (s : Scan) (name : String) : Ty × Scan :=
  match s.types.find? name, writtenType? s.latest with
  | none, written =>
    let type := written.getD .unknown
    (type, { s with types := s.types.insert name type })
  | some known, none => (known, s)
  | some .unknown, some written =>
    (written, { s with
      latest := retype name written s.latest
      types := s.types.insert name written })
  | some known, some written =>
    if known = written then (known, s)
    else (known, s.report (.retyped name known written) (.near name))

/-- The value of an integer literal; one beyond 64 bits is reported and counts as zero. -/
def integerValue (s : Scan) (digits : List Char) : Int64 × Scan :=
  let n := Number.ofDigits digits
  if n < signWeight then (Int64.ofNat n, s)
  else (0, s.report .integerTooLarge (.near (String.ofList digits)))

/-- The value of a literal with a decimal point. -/
def floatValue (text : List Char) : Float :=
  ((Number.readDecimal text).map Decimal.toFloat).getD 0

/-- Adds the token of a piece. -/
def addToken (s : Scan) (kind : TokenKind) (text : List Char) : Scan :=
  let token : Token := { kind, lexeme := String.ofList text, line := s.line, offset := s.offset }
  match kind with
  | .identifier =>
    let (type, s) := s.typeName token.lexeme
    s.emit { token with type }
  | .intNumber =>
    let (n, s) := s.integerValue text
    s.emit { token with literal := some (.int n) }
  | .floatNumber => s.emit { token with literal := some (.float (floatValue text)) }
  | .true => s.emit { token with literal := some (.bool true) }
  | .false => s.emit { token with literal := some (.bool false) }
  | _ => s.emit token

/-- Takes in a piece, without moving past it. -/
def take (s : Scan) : Piece → Scan
  | .token kind text => s.addToken kind text
  | .gap _ => s
  | .stray c => s.report (.unexpectedCharacter c) .unplaced

/-- Moves past a piece. Only gaps hold line breaks. -/
def pass (s : Scan) (text : List Char) : Scan :=
  { s with line := s.line + text.count '\n', offset := s.offset + byteSize text }

def step (s : Scan) (piece : Piece) : Scan :=
  (s.take piece).pass piece.text

end Scan

/-- What a scan of a source text gives. -/
structure Scanned where
  tokens : List Token
  types : NameTypes
  diagnostics : List Diagnostic

/-- Scans a source text with the types of the names known beforehand. The tokens end with
one end mark. -/
def scan (source : String) (types : NameTypes) : Scanned :=
  let s := (Piece.pieces source.toList).foldl Scan.step (Scan.start types)
  { tokens := s.latest.reverse ++ [Token.endMark s.line s.offset]
    types := s.types
    diagnostics := s.diagnostics }

end TickScript
