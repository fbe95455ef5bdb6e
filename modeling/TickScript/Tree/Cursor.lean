import TickScript.Tree

/-!
# Reading a token list

A parser moves a cursor over a token list and either answers or rejects a token. A
rejection leaves the cursor where it is, and the numbers that were given out stay given
out; only a declaration recovers from it.
-/

namespace TickScript

/-- A position in a token list: the tokens ahead, the mark behind the last of them, the
next free expression number, and the problems met so far. -/
structure Cursor where
  rest : List Token
  endMark : Token
  nextId : ExprId
  log : List Diagnostic

/-- A token that does not fit, and why. -/
structure Rejection where
  problem : ParseProblem
  token : Token

/-- The diagnostic of a rejection. -/
def Rejection.diagnostic (r : Rejection) : Diagnostic :=
  ⟨.parse r.problem, r.token.line, r.token.location⟩

abbrev Parser := EStateM Rejection Cursor

namespace Cursor

/-- The cursor before the first token. The list is read up to its first end mark; where it
has none, one is supposed on the line of the last token. -/
def start (tokens : List Token) : Cursor :=
  let endMark :=
    match tokens.dropWhile (·.kind ≠ .eof) with
    | mark :: _ => mark
    | [] => Token.endMark ((tokens.getLast?.map Token.line).getD 1) 0
  { rest := tokens.takeWhile (·.kind ≠ .eof), endMark, nextId := 0, log := [] }

/-- Does a statement often begin with a token of this kind? -/
def startsStatement : TokenKind → Bool
  | .if | .while | .break | .continue | .return => true
  | .int | .float | .bool | .void => true
  | _ => false

/-- The tokens from the next statement on, where `last` was passed over most recently. A
statement is taken to begin behind a semicolon and at each of its keywords. -/
def resume (last : Token) : List Token → List Token
  | [] => []
  | t :: rest =>
    if last.kind = .semicolon ∨ startsStatement t.kind then t :: rest else resume t rest

/-- Passes over the token that was rejected and on to the next statement. -/
def synchronize (c : Cursor) : Cursor :=
  match c.rest with
  | [] => c
  | t :: rest => { c with rest := resume t rest }

end Cursor

namespace Parser

/-- The token ahead. -/
def peek : Parser Token := fun c =>
  .ok (c.rest.headD c.endMark) c

/-- Passes over the token ahead. -/
def skip : Parser Unit := fun c =>
  .ok () { c with rest := c.rest.tail }

/-- The number of tokens ahead. -/
def remaining : Parser Nat := fun c =>
  .ok c.rest.length c

/-- Takes the token ahead if it is of one of these kinds. -/
def acceptAny (kinds : List TokenKind) : Parser (Option Token) := fun c =>
  match c.rest with
  | t :: rest => if t.kind ∈ kinds then .ok (some t) { c with rest } else .ok none c
  | [] => .ok none c

/-- Takes the token ahead if it is of this kind. -/
def accept (kind : TokenKind) : Parser (Option Token) :=
  acceptAny [kind]

/-- Is the token ahead of this kind? -/
def check (kind : TokenKind) : Parser Bool := fun c =>
  match c.rest with
  | t :: _ => .ok (t.kind = kind) c
  | [] => .ok false c

/-- Rejects a token. -/
def reject {α : Type} (problem : ParseProblem) (token : Token) : Parser α := fun c =>
  .error ⟨problem, token⟩ c

/-- Takes a token of this kind or rejects the one that stands there. -/
def expect (kind : TokenKind) (what : Expectation) : Parser Token := do
  match ← accept kind with
  | some t => return t
  | none => reject (.expected what) (← peek)

/-- The next free expression number. -/
def freshId : Parser ExprId := fun c =>
  .ok c.nextId { c with nextId := c.nextId + 1 }

/-- Answers nothing in place of a rejection, which is recorded, and goes on at the next
statement. -/
def recover (parser : Parser Stmt) : Parser (Option Stmt) := fun c =>
  match parser c with
  | .ok s c => .ok (some s) c
  | .error r c => .ok none { c with log := c.log ++ [r.diagnostic] }.synchronize

/-- Items with commas between them, at most `limit` of them. An item is told how many came
before it. -/
def separated {α : Type} (item : Nat → Parser α) : (limit count : Nat) → Parser (List α)
  | 0, _ => return []
  | limit + 1, count => do
    let first ← item count
    match ← accept .comma with
    | some _ => return first :: (← separated item limit (count + 1))
    | none => return [first]

/-- Items with commas between them up to a token of kind `close`, which is left ahead. -/
def listUntil {α : Type} (close : TokenKind) (item : Nat → Parser α) : Parser (List α) := do
  if ← check close then return []
  separated item ((← remaining) + 1) 0

end Parser

end TickScript
