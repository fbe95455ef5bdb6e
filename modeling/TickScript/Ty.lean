/-!
# Static types

A script knows three scalar types, arrays of them, and `void`. Two more tags are
never written in a script: `any` stands in the signatures of functions that take
every value, and `unknown` is the type of a name of which no declaration has been
seen.
-/

namespace TickScript

/-- The types whose values are not shared between names. -/
inductive Scalar where
  | int
  | float
  | bool
deriving DecidableEq, Repr

/-- The static type of a name or of an expression. -/
inductive Ty where
  | scalar (s : Scalar)
  | array (element : Scalar)
  | void
  | any
  | unknown
deriving DecidableEq, Repr

/-- The word of a scalar type in a script. -/
def Scalar.word : Scalar → String
  | .int => "int"
  | .float => "float"
  | .bool => "bool"

/-- The tag of a scalar type in tables and dumps. -/
def Scalar.tag : Scalar → String
  | .int => "INT"
  | .float => "FLOAT"
  | .bool => "BOOL"

namespace Ty

@[match_pattern] abbrev int : Ty := .scalar .int

@[match_pattern] abbrev float : Ty := .scalar .float

@[match_pattern] abbrev bool : Ty := .scalar .bool

instance : Inhabited Ty := ⟨.unknown⟩

/-- All types, scalars first, in the order in which listings give them. -/
def all : List Ty :=
  [.int, .float, .bool, .void, .array .int, .array .float, .array .bool, .any, .unknown]

/-- How messages and printed programs spell a type. -/
def display : Ty → String
  | .scalar s => s.word
  | .array s => s.word ++ "[]"
  | .void => "void"
  | .any => "any"
  | .unknown => "unknown"

/-- The tag by which host descriptions and dumps name a type. -/
def tag : Ty → String
  | .scalar s => s.tag
  | .array s => s.tag ++ "_ARRAY"
  | .void => "VOID"
  | .any => "ANY"
  | .unknown => "NONE"

/-- The type with a given tag. -/
def ofTag? (text : String) : Option Ty :=
  all.find? (·.tag == text)

/-- The array type whose elements have this type. What is not a scalar stays as it is. -/
def arrayOf : Ty → Ty
  | .scalar s => .array s
  | t => t

/-- The element type of an array type. -/
def element? : Ty → Option Ty
  | .array s => some (.scalar s)
  | _ => none

def isArray (t : Ty) : Bool :=
  t.element?.isSome

def isNumeric : Ty → Bool
  | .int => true
  | .float => true
  | _ => false

/-- May a value of static type `value` be kept under a name of type `slot`? A float
slot takes every number, any other slot its own type; `any` fits on either side. -/
def accepts (slot value : Ty) : Bool :=
  if slot = .any ∨ value = .any then true
  else if slot = .float then value.isNumeric
  else slot = value

/-- A type about which nothing is required: `any` fits everything, and an expression of
type `unknown` has been complained about already. -/
def isWild : Ty → Bool
  | .any => true
  | .unknown => true
  | _ => false

/-- The static test of a value of type `value` for a target of type `target`. -/
def compatible (target value : Ty) : Bool :=
  target.isWild || value.isWild || target.accepts value

@[simp]
theorem arrayOf_scalar (s : Scalar) : (Ty.scalar s).arrayOf = .array s := rfl

@[simp]
theorem element?_array (s : Scalar) : (Ty.array s).element? = some (.scalar s) := rfl

end Ty

end TickScript
