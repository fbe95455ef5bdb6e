import TickScript.Number.Text
import TickScript.Diagnostic

/-!
# Tokens

A token is a classified piece of a source text: its kind, its exact text, where it
starts, the value of a literal, and for an identifier the declared type of the name.
-/

namespace TickScript

/-- The classes of tokens. -/
inductive TokenKind where
  | leftParen
  | rightParen
  | leftBrace
  | rightBrace
  | leftBracket
  | rightBracket
  | comma
  | dot
  | minus
  | plus
  | semicolon
  | slash
  | star
  | percent
  | bang
  | bangEqual
  | equal
  | equalEqual
  | greater
  | greaterEqual
  | less
  | lessEqual
  | and
  | or
  | identifier
  | intNumber
  | floatNumber
  | else
  | false
  | if
  | break
  | continue
  | return
  | true
  | int
  | float
  | bool
  | void
  | while
  | eof
deriving DecidableEq, Repr

namespace TokenKind

instance : Inhabited TokenKind := ⟨.eof⟩

/-- The tag of a kind in dumps. -/
def tag : TokenKind → String
  | .leftParen => "LEFT_PAREN"
  | .rightParen => "RIGHT_PAREN"
  | .leftBrace => "LEFT_BRACE"
  | .rightBrace => "RIGHT_BRACE"
  | .leftBracket => "LEFT_BRACKET"
  | .rightBracket => "RIGHT_BRACKET"
  | .comma => "COMMA"
  | .dot => "DOT"
  | .minus => "MINUS"
  | .plus => "PLUS"
  | .semicolon => "SEMICOLON"
  | .slash => "SLASH"
  | .star => "STAR"
  | .percent => "PERCENT"
  | .bang => "BANG"
  | .bangEqual => "BANG_EQUAL"
  | .equal => "EQUAL"
  | .equalEqual => "EQUAL_EQUAL"
  | .greater => "GREATER"
  | .greaterEqual => "GREATER_EQUAL"
  | .less => "LESS"
  | .lessEqual => "LESS_EQUAL"
  | .and => "AND"
  | .or => "OR"
  | .identifier => "IDENTIFIER"
  | .intNumber => "INT_NUMBER"
  | .floatNumber => "FLOAT_NUMBER"
  | .else => "ELSE"
  | .false => "FALSE"
  | .if => "IF"
  | .break => "BREAK"
  | .continue => "CONTINUE"
  | .return => "RETURN"
  | .true => "TRUE"
  | .int => "INT"
  | .float => "FLOAT"
  | .bool => "BOOL"
  | .void => "VOID"
  | .while => "WHILE"
  | .eof => "EOF"

def all : List TokenKind :=
  [.leftParen, .rightParen, .leftBrace, .rightBrace, .leftBracket, .rightBracket, .comma, .dot,
   .minus, .plus, .semicolon, .slash, .star, .percent, .bang, .bangEqual, .equal, .equalEqual,
   .greater, .greaterEqual, .less, .lessEqual, .and, .or, .identifier, .intNumber, .floatNumber,
   .else, .false, .if, .break, .continue, .return, .true, .int, .float, .bool, .void, .while, .eof]

/-- The kind with a given tag. -/
def ofTag? (text : String) : Option TokenKind :=
  all.find? (·.tag == text)

/-- The type that a type keyword names. -/
def type? : TokenKind → Option Ty
  | .int => some .int
  | .float => some .float
  | .bool => some .bool
  | .void => some .void
  | _ => none

/-- Keywords and their kinds. -/
def keywords : List (String × TokenKind) :=
  [("bool", .bool), ("break", .break), ("continue", .continue), ("else", .else),
   ("false", .false), ("float", .float), ("if", .if), ("int", .int), ("return", .return),
   ("true", .true), ("void", .void), ("while", .while)]

/-- The kind of a word: its keyword, or else an identifier. -/
def ofWord (word : String) : TokenKind :=
  (keywords.lookup word).getD .identifier

end TokenKind

/-- The value of a literal. -/
inductive Literal where
  | int (n : Int64)
  | float (x : Float)
  | bool (b : Bool)
deriving DecidableEq

/-- How a literal is printed. -/
def Literal.display : Literal → String
  | .int n => toString n.toInt
  | .float x => Number.display x
  | .bool b => if b then "true" else "false"

/-- The static type of a literal. -/
def Literal.type : Literal → Ty
  | .int _ => .int
  | .float _ => .float
  | .bool _ => .bool

/-- A token. `offset` counts the bytes before it; line zero marks a token that no source
text holds. -/
structure Token where
  kind : TokenKind
  lexeme : String
  line : Nat
  offset : Nat
  literal : Option Literal := none
  type : Ty := .unknown
deriving DecidableEq

namespace Token

/-- An identifier that stands in no source text. -/
def synthetic (name : String) (type : Ty) : Token :=
  { kind := .identifier, lexeme := name, line := 0, offset := 0, type }

/-- The mark at the end of a token list. -/
def endMark (line offset : Nat) : Token :=
  { kind := .eof, lexeme := "", line, offset }

/-- Where a diagnostic about this token is placed. -/
def location (t : Token) : Location :=
  if t.kind = .eof then .atEnd else .near t.lexeme

/-- One line of a token dump. -/
def display (t : Token) : String :=
  let detail : String :=
    match t.literal with
    | some value => value.display
    | none => if t.kind = .identifier then t.type.tag else "null"
  s!"{t.kind.tag} {t.lexeme} {detail}"

end Token

end TickScript
