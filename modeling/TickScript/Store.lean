import TickScript.Table
import TickScript.Value

/-!
# The store

The store holds what values point to: arrays, functions, and the scopes in which names are
bound. Handles are positions, given out in order and never taken back.
-/

namespace TickScript

/-- The names bound in one block or function body, and the scope around it. -/
structure Scope where
  bindings : Table String Value
  parent : Option ScopeId
deriving DecidableEq

instance : Inhabited Scope := ⟨⟨Table.empty, none⟩⟩

/-- A function: declared in a script, where it closes over the scope of its declaration;
part of the language; or provided by a host. -/
inductive Callable where
  | script (header : Header) (body : List Stmt) (closure : ScopeId)
  | builtin (b : Builtin)
  | host (name : String) (signature : Signature)

namespace Callable

def name : Callable → String
  | .script header _ _ => header.name.lexeme
  | .builtin b => b.name
  | .host name _ => name

def signature : Callable → Signature
  | .script header _ _ => header.signature
  | .builtin b => b.signature
  | .host _ signature => signature

def arity (c : Callable) : Nat :=
  c.signature.parameters.length

def isScript : Callable → Bool
  | .script .. => true
  | _ => false

/-- How a listing of functions shows where a function comes from. -/
def describe : Callable → String
  | .script header _ _ => s!"<fn {header.name.lexeme}>"
  | .builtin b => s!"<native fn {b.name}>"
  | .host name _ => s!"<host fn {name}>"

end Callable

structure Store where
  arrays : Array (Array Value)
  functions : Array Callable
  scopes : Array Scope

namespace Store

def empty : Store := ⟨#[], #[], #[]⟩

instance : Inhabited Store := ⟨empty⟩

/-- The elements of an array. -/
def items (s : Store) (a : ArrayId) : Array Value :=
  s.arrays.getD a #[]

/-- Replaces the elements of an array. -/
def setItems (s : Store) (a : ArrayId) (items : Array Value) : Store :=
  { s with arrays := s.arrays.setIfInBounds a items }

/-- Replaces one element of an array. -/
def setItem (s : Store) (a : ArrayId) (slot : Nat) (v : Value) : Store :=
  { s with arrays := s.arrays.modify a (·.setIfInBounds slot v) }

/-- A new array. -/
def newArray (s : Store) (items : Array Value) : ArrayId × Store :=
  (s.arrays.size, { s with arrays := s.arrays.push items })

/-- A new function. -/
def newFunction (s : Store) (c : Callable) : FunctionId × Store :=
  (s.functions.size, { s with functions := s.functions.push c })

/-- A new scope without names. -/
def newScope (s : Store) (parent : Option ScopeId) : ScopeId × Store :=
  (s.scopes.size, { s with scopes := s.scopes.push ⟨Table.empty, parent⟩ })

/-- The value with which a declared variable of a type starts. An array type starts with a
new array. -/
def zero (s : Store) : Ty → Value × Store
  | .int => (.int 0, s)
  | .float => (.float 0, s)
  | .bool => (.bool false, s)
  | .array _ =>
    let (a, s) := s.newArray #[]
    (.array a, s)
  | _ => (.nil, s)

@[simp]
theorem items_newArray (s : Store) (items : Array Value) :
    (s.newArray items).2.items (s.newArray items).1 = items := by
  simp [newArray, Store.items]

/-- A new array leaves the others as they are. -/
theorem items_newArray_of_ne (s : Store) (items : Array Value) {a : ArrayId}
    (h : a ≠ s.arrays.size) : (s.newArray items).2.items a = s.items a := by
  simp only [newArray, Store.items, Array.getD_eq_getD_getElem?, Array.getElem?_push, if_neg h]

theorem items_setItems (s : Store) (a b : ArrayId) (items : Array Value) (h : a < s.arrays.size) :
    (s.setItems a items).items b = if b = a then items else s.items b := by
  by_cases hb : b = a
  · subst hb
    simp [setItems, Store.items, h]
  · have hab : ¬ a = b := fun e => hb e.symm
    simp [setItems, Store.items, hb, hab]

end Store

end TickScript
