import TickScript.Store

/-!
# The content of values

The content of a value is what can be seen of it without regard to which array it is: an
array by the content of its elements. Copies, texts and comparisons are about content;
`Store.equal` finds it out directly, and answers at once when it is given the same array
twice.

An array can contain itself, and then there is no end to it. Every descent is therefore bounded,
by more than any other array can nest.
-/

namespace TickScript

/-- What is seen of a value. -/
inductive Content where
  | int (n : Int64)
  | float (x : Float)
  | bool (b : Bool)
  | array (items : List Content)
  | function (f : FunctionId) (name : String)
  | nil

namespace Content

mutual

/-- The text of a value. -/
def display : Content → String
  | .int n => toString n.toInt
  | .float x => Number.display x
  | .bool b => if b then "true" else "false"
  | .array items => "[" ++ ", ".intercalate (displayAll items) ++ "]"
  | .function _ name => s!"<fn {name}>"
  | .nil => "nil"

def displayAll : List Content → List String
  | [] => []
  | c :: cs => c.display :: displayAll cs

end

mutual

/-- Are two contents equal? Numbers of different kinds never are, a NaN is not equal to
itself, and zero has two equal signs. -/
def same : Content → Content → Bool
  | .int a, .int b => a == b
  | .float a, .float b => a == b
  | .bool a, .bool b => a == b
  | .array as, .array bs => sameAll as bs
  | .function f _, .function g _ => f == g
  | .nil, .nil => true
  | _, _ => false

def sameAll : List Content → List Content → Bool
  | [], [] => true
  | a :: as, b :: bs => same a b && sameAll as bs
  | _, _ => false

end

end Content

namespace Store

/-- A bound on how deep arrays nest. -/
def nesting : Nat := 1152921504606846976

theorem nesting_succ : ∃ depth, nesting = depth + 1 := ⟨1152921504606846975, rfl⟩

/-- The content of a function. -/
def functionContent (s : Store) (f : FunctionId) : Content :=
  match s.functions[f]? with
  | some c => .function f c.name
  | none => .nil

/-- The content of a value whose arrays nest at most `depth` deep. -/
def contentWithin (s : Store) : (depth : Nat) → Value → Content
  | _, .int n => .int n
  | _, .float x => .float x
  | _, .bool b => .bool b
  | _, .function f => s.functionContent f
  | _, .nil => .nil
  | 0, .array _ => .array []
  | depth + 1, .array a => .array ((s.items a).toList.map (s.contentWithin depth))

/-- The content of a value. -/
def content (s : Store) (v : Value) : Content :=
  s.contentWithin nesting v

/-- The text of a value. -/
def display (s : Store) (v : Value) : String :=
  (s.content v).display

mutual

/-- A value of the given content, with new arrays. -/
def build (s : Store) : Content → Value × Store
  | .int n => (.int n, s)
  | .float x => (.float x, s)
  | .bool b => (.bool b, s)
  | .function f _ => (.function f, s)
  | .nil => (.nil, s)
  | .array items =>
    let (values, s) := s.buildAll items
    let (a, s) := s.newArray values.toArray
    (.array a, s)

def buildAll (s : Store) : List Content → List Value × Store
  | [] => ([], s)
  | c :: cs =>
    let (v, s) := s.build c
    let (vs, s) := s.buildAll cs
    (v :: vs, s)

end

/-- A copy of a value that shares no array with it. -/
def copy (s : Store) (v : Value) : Value × Store :=
  s.build (s.content v)

/-- Do two lists agree in length and, place by place, under `test`? -/
def agree {α : Type} (test : α → α → Bool) : List α → List α → Bool
  | [], [] => true
  | a :: as, b :: bs => test a b && agree test as bs
  | _, _ => false

/-- Are two values equal, where arrays nest at most `depth` deep? -/
def equalWithin (s : Store) : (depth : Nat) → Value → Value → Bool
  | _, .int a, .int b => a == b
  | _, .float a, .float b => a == b
  | _, .bool a, .bool b => a == b
  | _, .function f, .function g => f == g
  | _, .nil, .nil => true
  | 0, .array a, .array b => a == b
  | depth + 1, .array a, .array b =>
    a == b || agree (s.equalWithin depth) (s.items a).toList (s.items b).toList
  | _, _, _ => false

theorem equalWithin_array (s : Store) (depth : Nat) (a b : ArrayId) :
    s.equalWithin (depth + 1) (.array a) (.array b) =
      (a == b || agree (s.equalWithin depth) (s.items a).toList (s.items b).toList) :=
  rfl

/-- Are two values equal? The same array is, whatever it holds. -/
def equal (s : Store) (v w : Value) : Bool :=
  s.equalWithin nesting v w

end Store

end TickScript
