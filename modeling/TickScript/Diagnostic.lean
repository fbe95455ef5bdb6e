import TickScript.Ty

/-!
# What can be wrong with a source text

Reading a source text never stops at the first fault. Each fault becomes a diagnostic: a
`Problem`, the line, and the place on it. The stage that found it follows from the problem.
-/

namespace TickScript

/-- The part of the compilation that finds a problem. -/
inductive Stage where
  | lex
  | parse
  | resolve
deriving DecidableEq, Repr

def Stage.name : Stage → String
  | .lex => "Lex"
  | .parse => "Parse"
  | .resolve => "Resolve"

/-- What the grammar asks for at a place where something else stands. -/
inductive Expectation where
  | bracketOfType
  | variableName
  | declarationEnd
  | elementsEnd
  | parameterType
  | parameterName
  | parametersEnd
  | bodyStart
  | breakEnd
  | continueEnd
  | expressionEnd
  | ifStart
  | ifEnd
  | whileStart
  | whileEnd
  | returnEnd
  | blockEnd
  | argumentsEnd
  | indexEnd
  | groupEnd
  | expression
deriving DecidableEq, Repr

def Expectation.message : Expectation → String
  | .bracketOfType => "Expect ']' after '['."
  | .variableName => "Expect variable name."
  | .declarationEnd => "Expect ';' after variable declaration."
  | .elementsEnd => "Expect '\x7d' after array initializer."
  | .parameterType => "Expect parameter type."
  | .parameterName => "Expect parameter name."
  | .parametersEnd => "Expect ')' after parameters."
  | .bodyStart => "Expect '\x7b' before function body."
  | .breakEnd => "Expect ';' after break."
  | .continueEnd => "Expect ';' after continue."
  | .expressionEnd => "Expect ';' after expression."
  | .ifStart => "Expect '(' after 'if'."
  | .ifEnd => "Expect ')' after if condition."
  | .whileStart => "Expect '(' after 'while'."
  | .whileEnd => "Expect ')' after condition."
  | .returnEnd => "Expect ';' after return value."
  | .blockEnd => "Expect '\x7d' after block."
  | .argumentsEnd => "Expect ')' after arguments."
  | .indexEnd => "Expect ']' after index."
  | .groupEnd => "Expect ')' after expression."
  | .expression => "Expect expression."

/-- Faults of the characters of a source text. -/
inductive LexProblem where
  | unexpectedCharacter (c : Char)
  | integerTooLarge
  | retyped (name : String) (known spelled : Ty)
deriving DecidableEq, Repr

def LexProblem.message : LexProblem → String
  | .unexpectedCharacter c => s!"Unexpected character '{c}'."
  | .integerTooLarge => "Integer literal is too large."
  | .retyped name known spelled =>
    s!"'{name}' is already declared as {known.display} and can't be redeclared as {spelled.display}."

/-- Faults of the grammar. -/
inductive ParseProblem where
  | expected (what : Expectation)
  | voidArray
  | voidVariable
  | tooManyParameters
  | tooManyArguments
  | invalidTarget
  | malformedLiteral
deriving DecidableEq, Repr

def ParseProblem.message : ParseProblem → String
  | .expected what => what.message
  | .voidArray => "Can't declare an array of void."
  | .voidVariable => "Can't declare a void variable."
  | .tooManyParameters => "Can't have more than 255 parameters."
  | .tooManyArguments => "Can't have more than 255 arguments."
  | .invalidTarget => "Invalid assignment target."
  | .malformedLiteral => "Malformed literal."

/-- Faults of names and types. -/
inductive ResolveProblem where
  | badInitializer (name : String) (slot value : Ty)
  | returnAtTopLevel
  | wrongReturn (expected actual : Ty)
  | outsideLoop (keyword : String)
  | nestedFunction
  | operandNotBool
  | operandNotNumber
  | operandsNotBools
  | operandsNotNumbers
  | operandsNotComparable
  | functionAsValue (name : String)
  | badAssignment (value : Ty) (name : String) (slot : Ty)
  | notCallable
  | undefinedVariable (name : String)
  | undefinedFunction (name : String)
  | indexNotInt
  | notArray (name : String)
  | badElement (name : String) (element value : Ty)
  | conditionNotBool
  | wrongArity (expected actual : Nat)
  | badArgument (position : Nat) (name : String) (parameter value : Ty)
  | missingReturn (name : String) (expected : Ty)
  | alreadyDefined (name : String)
  | alreadyDeclared (name : String)
  | ownInitializer
deriving DecidableEq, Repr

def ResolveProblem.message : ResolveProblem → String
  | .badInitializer name slot value =>
    s!"Can't initialize '{name}' of type {slot.display} with a value of type {value.display}."
  | .returnAtTopLevel => "Can't return from top-level code."
  | .wrongReturn expected actual =>
    s!"Function must return {expected.display} but this returns {actual.display}."
  | .outsideLoop keyword => s!"Can't use '{keyword}' outside of a loop."
  | .nestedFunction => "Can't declare a function inside another function."
  | .operandNotBool => "Operand must be a boolean."
  | .operandNotNumber => "Operand must be a number."
  | .operandsNotBools => "Operands must be booleans."
  | .operandsNotNumbers => "Operands must be numbers."
  | .operandsNotComparable => "Operands must be two numbers or two booleans."
  | .functionAsValue name => s!"Can't use function '{name}' as a value."
  | .badAssignment value name slot =>
    s!"Can't assign a value of type {value.display} to '{name}' of type {slot.display}."
  | .notCallable => "Can only call functions."
  | .undefinedVariable name => s!"Undefined variable '{name}'."
  | .undefinedFunction name => s!"Undefined function '{name}'."
  | .indexNotInt => "Array index must be an int."
  | .notArray name => s!"'{name}' is not an array."
  | .badElement name element value =>
    s!"Elements of '{name}' must be {element.display} but got {value.display}."
  | .conditionNotBool => "Condition must be a boolean."
  | .wrongArity expected actual => s!"Expected {expected} arguments but got {actual}."
  | .badArgument position name parameter value =>
    s!"Argument {position} of '{name}' must be {parameter.display} but got {value.display}."
  | .missingReturn name expected =>
    s!"Function '{name}' must return {expected.display} on every path."
  | .alreadyDefined name => s!"'{name}' is already defined."
  | .alreadyDeclared name => s!"'{name}' is already declared in this scope."
  | .ownInitializer => "Can't read local variable in its own initializer."

/-- Everything that can be wrong with a source text. -/
inductive Problem where
  | lex (p : LexProblem)
  | parse (p : ParseProblem)
  | resolve (p : ResolveProblem)
deriving DecidableEq, Repr

def Problem.stage : Problem → Stage
  | .lex _ => .lex
  | .parse _ => .parse
  | .resolve _ => .resolve

def Problem.message : Problem → String
  | .lex p => p.message
  | .parse p => p.message
  | .resolve p => p.message

/-- The place of a problem on its line. -/
inductive Location where
  | unplaced
  | atEnd
  | near (lexeme : String)
deriving DecidableEq, Repr

def Location.text : Location → String
  | .unplaced => ""
  | .atEnd => " at end"
  | .near lexeme => s!" at '{lexeme}'"

/-- A problem and where it was found. Lines count from one. -/
structure Diagnostic where
  problem : Problem
  line : Nat
  location : Location
deriving DecidableEq, Repr

namespace Diagnostic

def stage (d : Diagnostic) : Stage :=
  d.problem.stage

def message (d : Diagnostic) : String :=
  d.problem.message

def text (d : Diagnostic) : String :=
  s!"[line {d.line}] Error{d.location.text}: {d.message}"

/-- The text of several diagnostics, one on a line. -/
def report (ds : List Diagnostic) : String :=
  "\n".intercalate (ds.map text)

/-- Does `needle` stand somewhere in `text`? -/
def occursIn (needle : List Char) : List Char → Bool
  | [] => needle.isEmpty
  | c :: rest => needle.isPrefixOf (c :: rest) || occursIn needle rest

/-- Does the message of one of the diagnostics contain `needle`? -/
def mentions (ds : List Diagnostic) (needle : String) : Bool :=
  ds.any fun d => occursIn needle.toList d.message.toList

end Diagnostic

end TickScript
