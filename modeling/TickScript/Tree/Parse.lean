import TickScript.Tree.Cursor

/-!
# Parsing

The grammar, from a whole program down to a single name:

    program        → declaration* END
    declaration    → typedDecl | statement
    typedDecl      → TYPE ( "[" "]" )? IDENT
                     ( "(" parameters? ")" block | ( "=" initializer )? ";" )
    parameters     → TYPE ( "[" "]" )? IDENT ( "," TYPE ( "[" "]" )? IDENT )*
    statement      → exprStmt | ifStmt | whileStmt | returnStmt
                   | "break" ";" | "continue" ";" | block
    block          → "{" declaration* "}"
    expression     → assignment
    assignment     → IDENT ( "[" expression "]" )? "=" assignment
                   | IDENT "=" "{" ( assignment ( "," assignment )* )? "}"
                   | logicOr
    logicOr        → logicAnd ( "||" logicAnd )*
    logicAnd       → equality ( "&&" equality )*
    equality       → comparison ( ( "!=" | "==" ) comparison )*
    comparison     → term ( ( ">" | ">=" | "<" | "<=" ) term )*
    term           → factor ( ( "-" | "+" ) factor )*
    factor         → unary ( ( "/" | "*" | "%" ) unary )*
    unary          → ( "!" | "-" ) unary | call
    call           → primary ( "(" arguments? ")" )*
    primary        → INT | FLOAT | "true" | "false"
                   | IDENT ( "[" expression "]" )? | "(" expression ")"

Each rule is a function of the parser for the rule that it contains again further in, and
the knot is tied with a bound on the depth. A list of tokens nests no deeper than it is
long, because every inner expression or declaration comes behind a token of the outer one,
so the bound that `program` chooses is never reached.

Function declarations come first in their list of statements, the last one foremost.
-/

namespace TickScript

namespace Parser

/-- The most arguments or parameters of one function. -/
def maxArguments : Nat := 255

/-! ## Expressions -/

/-- More operators of one precedence and their right operands, at most `limit` of them. -/
def operators (kinds : List TokenKind) (node : ExprId → Expr → Token → Expr → Expr)
    (operand : Parser Expr) : (limit : Nat) → Expr → Parser Expr
  | 0, left => return left
  | limit + 1, left => do
    match ← acceptAny kinds with
    | none => return left
    | some operator =>
      let right ← operand
      operators kinds node operand limit (node (← freshId) left operator right)

/-- Operands with operators of one precedence between them, grouped from the left. -/
def level (kinds : List TokenKind) (node : ExprId → Expr → Token → Expr → Expr)
    (operand : Parser Expr) : Parser Expr := do
  let left ← operand
  operators kinds node operand (← remaining) left

/-- The elements of an array, behind the opening brace and through the closing one. -/
def elements (expression : Parser Expr) : Parser (List Expr) := do
  let items ← listUntil .rightBrace fun _ => expression
  let _ ← expect .rightBrace .elementsEnd
  return items

/-- One argument of a call that already has `count`. -/
def argument (expression : Parser Expr) (count : Nat) : Parser Expr := do
  if maxArguments ≤ count then reject .tooManyArguments (← peek)
  expression

def primary (expression : Parser Expr) : Parser Expr := do
  let token ← peek
  match token.kind with
  | .true | .false | .intNumber | .floatNumber =>
    match token.literal with
    | none => reject .malformedLiteral token
    | some value =>
      skip
      return .literal (← freshId) value token.line
  | .identifier =>
    skip
    match ← accept .leftBracket with
    | some _ =>
      let position ← expression
      let _ ← expect .rightBracket .indexEnd
      return .index (← freshId) token position
    | none => return .var (← freshId) token
  | .leftParen =>
    skip
    let inner ← expression
    let _ ← expect .rightParen .groupEnd
    return .grouping (← freshId) inner
  | _ => reject (.expected .expression) token

/-- More argument lists behind a callee, at most `limit` of them. -/
def calls (expression : Parser Expr) : (limit : Nat) → Expr → Parser Expr
  | 0, callee => return callee
  | limit + 1, callee => do
    match ← accept .leftParen with
    | none => return callee
    | some _ =>
      let arguments ← listUntil .rightParen (argument expression)
      let paren ← expect .rightParen .argumentsEnd
      calls expression limit (.call (← freshId) callee paren arguments)

def call (expression : Parser Expr) : Parser Expr := do
  let callee ← primary expression
  calls expression (← remaining) callee

/-- An operand behind at most `limit` signs. -/
def signs (operand : Parser Expr) : (limit : Nat) → Parser Expr
  | 0 => operand
  | limit + 1 => do
    match ← acceptAny [.bang, .minus] with
    | none => operand
    | some operator =>
      let right ← signs operand limit
      return .unary (← freshId) operator right

def unary (expression : Parser Expr) : Parser Expr := do
  signs (call expression) (← remaining)

def factor (expression : Parser Expr) : Parser Expr :=
  level [.slash, .star, .percent] .binary (unary expression)

def term (expression : Parser Expr) : Parser Expr :=
  level [.minus, .plus] .binary (factor expression)

def comparison (expression : Parser Expr) : Parser Expr :=
  level [.greater, .greaterEqual, .less, .lessEqual] .binary (term expression)

def equality (expression : Parser Expr) : Parser Expr :=
  level [.bangEqual, .equalEqual] .binary (comparison expression)

def logicAnd (expression : Parser Expr) : Parser Expr :=
  level [.and] .logical (equality expression)

def logicOr (expression : Parser Expr) : Parser Expr :=
  level [.or] .logical (logicAnd expression)

/-- An assignment is first read as its target. What then stands before the equals sign must
have been a name, perhaps with an index. -/
def assignment (expression : Parser Expr) : Parser Expr := do
  let target ← logicOr expression
  match ← accept .equal with
  | none => return target
  | some equals =>
    match ← accept .leftBrace with
    | some _ =>
      match target with
      | .var _ name =>
        let items ← elements expression
        return .assignElements (← freshId) name items
      | _ => reject .invalidTarget equals
    | none =>
      let value ← expression
      match target with
      | .var _ name => return .assign (← freshId) name value
      | .index _ name position => return .assignIndex (← freshId) name position value
      | _ => reject .invalidTarget equals

/-- An expression that nests at most `depth` deep. -/
def nested : (depth : Nat) → Parser Expr
  | 0 => do reject (.expected .expression) (← peek)
  | depth + 1 => assignment (nested depth)

/-- An expression. -/
def expression : Parser Expr := do
  nested ((← remaining) + 1)

/-! ## Statements -/

def expressionStatement : Parser Stmt := do
  let e ← expression
  let _ ← expect .semicolon .expressionEnd
  return .expression e

/-- Everything of a `return` statement but its keyword. -/
def returnStatement (keyword : Token) : Parser Stmt := do
  let value ← if ← check .semicolon then pure none else some <$> expression
  let _ ← expect .semicolon .returnEnd
  return .return keyword value

/-- An expression in parentheses. -/
def condition (start finish : Expectation) : Parser Expr := do
  let _ ← expect .leftParen start
  let e ← expression
  let _ ← expect .rightParen finish
  return e

/-- A statement in which conditions and loops nest at most `depth` deep. `block` reads a
block behind its opening brace. -/
def statementWithin (block : Parser (List Stmt)) : (depth : Nat) → Parser Stmt
  | 0 => expressionStatement
  | depth + 1 => do
    let keyword ← peek
    match keyword.kind with
    | .if =>
      skip
      let test ← condition .ifStart .ifEnd
      let yes ← statementWithin block depth
      match ← accept .else with
      | some _ => return .ifElse keyword test yes (← statementWithin block depth)
      | none => return .ifThen keyword test yes
    | .return =>
      skip
      returnStatement keyword
    | .break =>
      skip
      let _ ← expect .semicolon .breakEnd
      return .break keyword
    | .continue =>
      skip
      let _ ← expect .semicolon .continueEnd
      return .continue keyword
    | .while =>
      skip
      let test ← condition .whileStart .whileEnd
      return .while keyword test (← statementWithin block depth)
    | .leftBrace =>
      skip
      return .block (← block)
    | _ => expressionStatement

def statement (block : Parser (List Stmt)) : Parser Stmt := do
  statementWithin block ((← remaining) + 1)

/-- What follows the name in a declaration of a scalar. -/
def scalarInitializer : Parser Initializer := do
  match ← accept .equal with
  | some _ => return .value (← expression)
  | none => return .zero

/-- What follows the name in a declaration of an array. -/
def arrayInitializer : Parser Initializer := do
  match ← accept .equal with
  | none => return .zero
  | some _ =>
    match ← accept .leftBrace with
    | some _ => return .elements (← elements expression)
    | none => return .value (← expression)

/-- The type of a parameter, or an array of it if brackets follow. -/
def bracketed (type : Ty) : Parser Ty := do
  match ← accept .leftBracket with
  | some _ =>
    let _ ← expect .rightBracket .bracketOfType
    return type.arrayOf
  | none => return type

/-- One parameter of a function that already has `count`. -/
def parameter (count : Nat) : Parser Parameter := do
  let token ← peek
  if maxArguments ≤ count then reject .tooManyParameters token
  match token.kind.type? with
  | none | some .void => reject (.expected .parameterType) token
  | some type =>
    skip
    let type ← bracketed type
    return ⟨← expect .identifier .parameterName, type⟩

/-- A function declaration behind the opening parenthesis. -/
def function (block : Parser (List Stmt)) (name : Token) (returnType : Ty) : Parser Stmt := do
  let parameters ← listUntil .rightParen parameter
  let _ ← expect .rightParen .parametersEnd
  let _ ← expect .leftBrace .bodyStart
  return .function ⟨name, parameters, returnType⟩ (← block)

/-- A declaration behind its type: a function if a parenthesis follows the name, and
otherwise a variable. -/
def named (block : Parser (List Stmt)) (type : Ty) (initializer : Parser Initializer) :
    Parser Stmt := do
  let name ← expect .identifier .variableName
  match ← accept .leftParen with
  | some _ => function block name type
  | none =>
    if type = .void then reject .voidVariable name
    let start ← initializer
    let _ ← expect .semicolon .declarationEnd
    return .declare name type start

/-- A declaration that begins with the type keyword `keyword`. -/
def typedDeclaration (block : Parser (List Stmt)) (keyword : Token) (type : Ty) :
    Parser Stmt := do
  match ← accept .leftBracket with
  | some _ =>
    let _ ← expect .rightBracket .bracketOfType
    if type = .void then reject .voidArray keyword
    named block type.arrayOf arrayInitializer
  | none => named block type scalarInitializer

/-- A declaration or a statement, not yet recovered from rejections. -/
def declarationBody (block : Parser (List Stmt)) : Parser Stmt := do
  let token ← peek
  match token.kind.type? with
  | some type =>
    skip
    typedDeclaration block token type
  | none => statement block

/-- Adds a statement to its list: a function in front, anything else at the end. -/
def hoist (statements : List Stmt) (s : Stmt) : List Stmt :=
  if s.isFunction then s :: statements else statements ++ [s]

/-- Declarations up to the end, or in a block up to the closing brace, at most `limit` of
them. What is rejected is left out. -/
def declarations (inBlock : Bool) (declaration : Parser (Option Stmt)) :
    (limit : Nat) → List Stmt → Parser (List Stmt)
  | 0, statements => return statements
  | limit + 1, statements => do
    if inBlock && (← check .rightBrace) then return statements
    if (← remaining) = 0 then return statements
    match ← declaration with
    | some s => declarations inBlock declaration limit (hoist statements s)
    | none => declarations inBlock declaration limit statements

/-- A block behind its opening brace and through the closing one. -/
def blockOf (declaration : Parser (Option Stmt)) : Parser (List Stmt) := do
  let body ← declarations true declaration (← remaining) []
  let _ ← expect .rightBrace .blockEnd
  return body

/-- A declaration in which blocks nest at most `depth` deep. -/
def declaration : (depth : Nat) → Parser (Option Stmt)
  | 0 => return none
  | depth + 1 => recover (declarationBody (blockOf (declaration depth)))

/-- The declarations of a whole program. -/
def program : Parser (List Stmt) := do
  let size ← remaining
  declarations false (declaration (size + 1)) size []

end Parser

/-- What parsing a token list gives. -/
structure Parsed where
  statements : List Stmt
  diagnostics : List Diagnostic

/-- Parses a token list. Statements that do not fit the grammar are left out and reported. -/
def parse (tokens : List Token) : Parsed :=
  match Parser.program (Cursor.start tokens) with
  | .ok statements c => ⟨statements, c.log⟩
  | .error r c => ⟨[], c.log ++ [r.diagnostic]⟩

end TickScript
