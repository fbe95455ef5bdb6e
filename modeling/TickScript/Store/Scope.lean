import TickScript.Fault
import TickScript.Store.Coerce

/-!
# Names in scopes

A name is found in two ways: by searching outward from a scope to the nearest one that
binds it, or in the scope a known number of steps further out. Both lead to a scope, and
what is then done there is the same.
-/

namespace TickScript

namespace Store

/-- The value bound to a name in exactly this scope. -/
def lookup (s : Store) (scope : ScopeId) (name : String) : Option Value :=
  s.scopes[scope]?.bind (·.bindings.find? name)

/-- Is the name bound in exactly this scope? -/
def binds (s : Store) (scope : ScopeId) (name : String) : Bool :=
  (s.lookup scope name).isSome

/-- The scope around a scope. -/
def parent? (s : Store) (scope : ScopeId) : Option ScopeId :=
  s.scopes[scope]?.bind (·.parent)

/-- The scope `distance` steps further out. -/
def ancestor? (s : Store) : (distance : Nat) → ScopeId → Option ScopeId
  | 0, scope => some scope
  | distance + 1, scope => (s.parent? scope).bind (s.ancestor? distance)

/-- The nearest scope that binds the name, at most `limit` steps out. -/
def nearestWithin? (s : Store) (name : String) : (limit : Nat) → ScopeId → Option ScopeId
  | 0, scope => if s.binds scope name then some scope else none
  | limit + 1, scope =>
    if s.binds scope name then some scope
    else (s.parent? scope).bind (s.nearestWithin? name limit)

/-- The nearest scope that binds the name. A chain of scopes is no longer than there are
scopes. -/
def nearest? (s : Store) (name : String) (scope : ScopeId) : Option ScopeId :=
  s.nearestWithin? name s.scopes.size scope

/-- The scope `distance` steps further out, if it binds the name. -/
def bindingAt? (s : Store) (name : String) (distance : Nat) (scope : ScopeId) : Option ScopeId :=
  (s.ancestor? distance scope).filter (s.binds · name)

/-- Binds a name in a scope, whatever it was bound to. -/
def bind (s : Store) (scope : ScopeId) (name : String) (v : Value) : Store :=
  { s with scopes := s.scopes.modify scope fun sc =>
      { sc with bindings := sc.bindings.insert name v } }

/-- Binds a name that the scope does not bind yet. -/
def define (scope : ScopeId) (name : String) (v : Value) : EStateM Fault Store Unit := fun s =>
  if s.binds scope name then .error (.alreadyDefined name) s
  else .ok () (s.bind scope name v)

/-- The slot of an array of `size` elements that an index means. -/
def slot (size : Nat) (index : Value) : Except Fault Nat :=
  match index.integral? with
  | none => .error .indexNotInteger
  | some n =>
    if 0 ≤ n.toInt ∧ n.toInt < size then .ok n.toInt.toNat else .error .indexOutOfBounds

/-- Reads a name in the scope found for it. -/
def readIn (found : Option ScopeId) (name : Token) (s : Store) : Except RuntimeError Value :=
  match found.bind (s.lookup · name.lexeme) with
  | some v => .ok v
  | none => .error ⟨name.line, .undefinedVariable name.lexeme⟩

/-- Assigns to a name in the scope found for it and answers the value as it is kept. -/
def assignIn (found : Option ScopeId) (name : Token) (v : Value) :
    EStateM RuntimeError Store Value := fun s =>
  match found with
  | none => .error ⟨name.line, .undefinedVariable name.lexeme⟩ s
  | some scope =>
    match coerce name.type v s with
    | .ok w s => .ok w (s.bind scope name.lexeme w)
    | .error m s => .error ⟨name.line, .badAssignment name.lexeme m⟩ s

/-- Writes an element of the array under a name in the scope found for it and answers the
value as it is kept. The index is checked before the value. -/
def assignItemIn (found : Option ScopeId) (name : Token) (index v : Value) :
    EStateM RuntimeError Store Value := fun s =>
  match found with
  | none => .error ⟨name.line, .undefinedVariable name.lexeme⟩ s
  | some scope =>
    match s.lookup scope name.lexeme with
    | some (.array a) =>
      match slot (s.items a).size index with
      | .error fault => .error ⟨name.line, fault⟩ s
      | .ok i =>
        match coerce (name.type.element?.getD .any) v s with
        | .ok w s => .ok w (s.setItem a i w)
        | .error m s => .error ⟨name.line, .badElement m⟩ s
    | _ => .error ⟨name.line, .notArray⟩ s

/-- Reads the nearest binding of a name. -/
def get (s : Store) (scope : ScopeId) (name : Token) : Except RuntimeError Value :=
  readIn (s.nearest? name.lexeme scope) name s

/-- Assigns to the nearest binding of a name. -/
def assign (scope : ScopeId) (name : Token) (v : Value) : EStateM RuntimeError Store Value :=
  fun s => assignIn (s.nearest? name.lexeme scope) name v s

/-- Writes an element of the array at the nearest binding of a name. -/
def assignItem (scope : ScopeId) (name : Token) (index v : Value) :
    EStateM RuntimeError Store Value :=
  fun s => assignItemIn (s.nearest? name.lexeme scope) name index v s

/-- Reads a name in the scope `distance` steps further out. -/
def getAt (s : Store) (distance : Nat) (scope : ScopeId) (name : Token) :
    Except RuntimeError Value :=
  readIn (s.bindingAt? name.lexeme distance scope) name s

/-- Assigns to a name in the scope `distance` steps further out. -/
def assignAt (distance : Nat) (scope : ScopeId) (name : Token) (v : Value) :
    EStateM RuntimeError Store Value :=
  fun s => assignIn (s.bindingAt? name.lexeme distance scope) name v s

/-- Writes an element of the array under a name in the scope `distance` steps further
out. -/
def assignItemAt (distance : Nat) (scope : ScopeId) (name : Token) (index v : Value) :
    EStateM RuntimeError Store Value :=
  fun s => assignItemIn (s.bindingAt? name.lexeme distance scope) name index v s

@[simp]
theorem ancestor?_zero (s : Store) (scope : ScopeId) : s.ancestor? 0 scope = some scope := rfl

/-- Binding a name in a scope changes what this scope binds to this name, and nothing
else. -/
theorem lookup_bind (s : Store) (scope probe : ScopeId) (name other : String) (v : Value)
    (h : scope < s.scopes.size) :
    (s.bind scope name v).lookup probe other =
      if probe = scope ∧ other = name then some v else s.lookup probe other := by
  by_cases hp : probe = scope
  · subst hp
    simp only [bind, lookup, Array.getElem?_modify, Array.getElem?_eq_getElem h, if_true,
      Option.map_some, Option.bind_some, Table.find?_insert, true_and]
  · have hps : ¬ scope = probe := fun e => hp e.symm
    simp only [bind, lookup, Array.getElem?_modify, if_neg hps, hp, false_and, if_false]

/-- Binding a name moves no scope. -/
theorem parent?_bind (s : Store) (scope probe : ScopeId) (name : String) (v : Value) :
    (s.bind scope name v).parent? probe = s.parent? probe := by
  by_cases hp : scope = probe
  · subst hp
    simp only [bind, parent?, Array.getElem?_modify, if_true]
    cases s.scopes[scope]? <;> rfl
  · simp only [bind, parent?, Array.getElem?_modify, if_neg hp]

end Store

end TickScript
