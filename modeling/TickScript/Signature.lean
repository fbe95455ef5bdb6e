import TickScript.Tree

/-!
# Signatures

A signature is what static checking knows of a function. Three functions are part of the
language; `any` lets two of them take every value.
-/

namespace TickScript

/-- Parameter types and return type. -/
structure Signature where
  parameters : List Ty
  returnType : Ty
deriving DecidableEq, Repr

/-- The signature of a declared function. -/
def Header.signature (h : Header) : Signature :=
  ⟨h.parameters.map Parameter.type, h.returnType⟩

/-- The functions that every program can call. -/
inductive Builtin where
  | deltatime
  | print
  | sizeOf
deriving DecidableEq, Repr

namespace Builtin

def all : List Builtin := [.deltatime, .print, .sizeOf]

theorem mem_all (b : Builtin) : b ∈ all := by
  cases b <;> decide

def name : Builtin → String
  | .deltatime => "deltatime"
  | .print => "print"
  | .sizeOf => "size_of"

def signature : Builtin → Signature
  | .deltatime => ⟨[], .float⟩
  | .print => ⟨[.any], .void⟩
  | .sizeOf => ⟨[.any], .int⟩

/-- The built-in function of a given name. -/
def ofName? (name : String) : Option Builtin :=
  all.find? (·.name == name)

end Builtin

end TickScript
