import Mathlib.Combinatorics.Pigeonhole
import TickScript.Proofs.Steady

/-!
# Names through chains of scopes

A name is found by searching outward, or at a distance that is known beforehand. The first part
says that the two ways agree: whatever is done with a name at the distance of its nearest binding
is what is done with it after a search (`distances_agree`). The second part says what a write
that fails leaves behind. It never touches a scope, and the only array that it can touch is one
that was to be assigned as a whole (`failed_writes`): arrays are fitted to a type where they
stand.
-/

namespace TickScript

namespace Store

/-! ## Distances -/

variable {s t : Store} {name : String} {scope c : ScopeId} {distance : Nat}

/-- The nearest scope that binds the name is `c`, at this distance from `scope`. -/
structure NearestAt (s : Store) (name : String) (scope : ScopeId) (distance : Nat) (c : ScopeId) :
    Prop where
  reached : s.ancestor? distance scope = some c
  binds : s.binds c name = true
  first : ∀ d < distance, ∀ b, s.ancestor? d scope = some b → s.binds b name = false

/-- To go outward is to go a part of the way and then the rest. -/
theorem ancestor?_add (s : Store) (i j : Nat) (scope : ScopeId) :
    s.ancestor? (i + j) scope = (s.ancestor? i scope).bind (s.ancestor? j) := by
  induction i generalizing scope with
  | zero => rw [Nat.zero_add, ancestor?_zero, Option.bind_some]
  | succ i ih =>
    rw [Nat.succ_add, ancestor?, ancestor?, Option.bind_assoc]
    congr 1
    funext p
    exact ih p

/-- There is a scope at each distance up to the nearest binding. -/
theorem NearestAt.passes (h : s.NearestAt name scope distance c) {i : Nat} (hi : i ≤ distance) :
    ∃ b < s.scopes.size, s.ancestor? i scope = some b := by
  obtain ⟨j, rfl⟩ := Nat.exists_eq_add_of_le hi
  have whole := h.reached
  rw [ancestor?_add] at whole
  obtain ⟨b, hb, hj⟩ := Option.bind_eq_some_iff.1 whole
  refine ⟨b, ?_, hb⟩
  cases j with
  | zero =>
    cases hj
    exact lt_of_binds h.binds
  | succ j =>
    obtain ⟨p, hp, -⟩ := Option.bind_eq_some_iff.1 hj
    exact lt_of_parent? hp

/-- The nearest binding is no further away than there are scopes: a way that comes to the same
scope twice has a shorter one to the same end. -/
theorem NearestAt.distance_le (h : s.NearestAt name scope distance c) :
    distance ≤ s.scopes.size := by
  by_contra far
  have fewer : (Finset.range s.scopes.size).card < (Finset.range (distance + 1)).card := by
    rw [Finset.card_range, Finset.card_range]
    omega
  have inside : ∀ i ∈ Finset.range (distance + 1),
      (s.ancestor? i scope).getD 0 ∈ Finset.range s.scopes.size := by
    intro i hi
    obtain ⟨b, hlt, hb⟩ := h.passes (Nat.le_of_lt_succ (Finset.mem_range.1 hi))
    rw [hb, Option.getD_some]
    exact Finset.mem_range.2 hlt
  obtain ⟨i, hi, j, hj, hne, same⟩ :=
    Finset.exists_ne_map_eq_of_card_lt_of_maps_to fewer inside
  have hi' := Nat.le_of_lt_succ (Finset.mem_range.1 hi)
  have hj' := Nat.le_of_lt_succ (Finset.mem_range.1 hj)
  -- Going on from the earlier of the two visits leads to the binding too soon.
  have shortcut : ∀ {i j : Nat}, i < j → j ≤ distance →
      (s.ancestor? i scope).getD 0 = (s.ancestor? j scope).getD 0 → False := by
    intro i j hij hj same
    obtain ⟨b, -, hb⟩ := h.passes (Nat.le_trans (Nat.le_of_lt hij) hj)
    obtain ⟨b', -, hb'⟩ := h.passes hj
    rw [hb, hb', Option.getD_some, Option.getD_some] at same
    subst same
    have whole := h.reached
    rw [← Nat.add_sub_cancel' hj, ancestor?_add, hb', ← hb, ← ancestor?_add] at whole
    have free := h.first (i + (distance - j)) (by omega) c whole
    rw [h.binds] at free
    cases free
  rcases Nat.lt_or_gt_of_ne hne with hij | hji
  · exact shortcut hij hj' same
  · exact shortcut hji hi' same.symm

/-- From the next scope outward, the nearest binding is one step closer. -/
theorem NearestAt.step (h : s.NearestAt name scope (distance + 1) c) :
    s.binds scope name = false ∧
      ∃ p, s.parent? scope = some p ∧ s.NearestAt name p distance c := by
  refine ⟨h.first 0 (Nat.succ_pos _) scope rfl, ?_⟩
  obtain ⟨p, hp, hc⟩ := Option.bind_eq_some_iff.1 h.reached
  refine ⟨p, hp, hc, h.binds, ?_⟩
  intro d hd b hb
  apply h.first (d + 1) (Nat.succ_lt_succ hd) b
  rw [ancestor?, hp, Option.bind_some, hb]

theorem NearestAt.nearestWithin? {limit : Nat} (h : s.NearestAt name scope distance c)
    (hle : distance ≤ limit) : s.nearestWithin? name limit scope = some c := by
  induction distance generalizing scope limit with
  | zero =>
    obtain rfl : scope = c := Option.some.inj h.reached
    cases limit <;> exact if_pos h.binds
  | succ distance ih =>
    obtain ⟨limit, rfl⟩ := Nat.exists_eq_succ_of_ne_zero (Nat.ne_zero_of_lt hle)
    obtain ⟨unbound, p, hp, hnear⟩ := h.step
    rw [Store.nearestWithin?, if_neg (by simp [unbound]), hp, Option.bind_some]
    exact ih hnear (Nat.le_of_succ_le_succ hle)

/-- Searching for a name ends at its nearest binding. -/
theorem NearestAt.nearest? (h : s.NearestAt name scope distance c) :
    s.nearest? name scope = some c :=
  h.nearestWithin? h.distance_le

/-- The distance of the nearest binding leads to it. -/
theorem NearestAt.bindingAt? (h : s.NearestAt name scope distance c) :
    s.bindingAt? name distance scope = some c := by
  rw [Store.bindingAt?, h.reached, Option.filter_some, if_pos h.binds]

/-- There is no scope at this distance, or it does not bind the name. -/
def MissingAt (s : Store) (name : String) (scope : ScopeId) (distance : Nat) : Prop :=
  s.ancestor? distance scope = none ∨
    ∃ c, s.ancestor? distance scope = some c ∧ s.binds c name = false

theorem MissingAt.bindingAt? (h : s.MissingAt name scope distance) :
    s.bindingAt? name distance scope = none := by
  rcases h with h | ⟨c, hc, unbound⟩
  · rw [Store.bindingAt?, h, Option.filter_none]
  · rw [Store.bindingAt?, hc, Option.filter_some, if_neg (by simp [unbound])]

end Store

open Store

/-- What is done with a name at the distance of its nearest binding is what is done with it after
a search: the same value is read, and a write gives the same answer and leaves the same store,
whether it succeeds or fails. At a distance without a binding of the name, it is undefined, and
nothing changes. -/
theorem distances_agree (s : Store) (scope : ScopeId) (name : Token) (distance : Nat) :
    (∀ c, s.NearestAt name.lexeme scope distance c →
      (∃ v, s.lookup c name.lexeme = some v ∧ s.get scope name = .ok v) ∧
      s.get scope name = s.getAt distance scope name ∧
      (∀ v, assign scope name v s = assignAt distance scope name v s) ∧
      ∀ index v, assignItem scope name index v s = assignItemAt distance scope name index v s) ∧
    (s.MissingAt name.lexeme scope distance →
      s.getAt distance scope name = .error ⟨name.line, .undefinedVariable name.lexeme⟩ ∧
      (∀ v, assignAt distance scope name v s =
        .error ⟨name.line, .undefinedVariable name.lexeme⟩ s) ∧
      ∀ index v, assignItemAt distance scope name index v s =
        .error ⟨name.line, .undefinedVariable name.lexeme⟩ s) := by
  constructor
  · intro c near
    obtain ⟨v, hv⟩ := binds_iff.1 near.binds
    have read : s.get scope name = .ok v := by
      rw [Store.get, near.nearest?, readIn, Option.bind_some, hv]
    refine ⟨⟨v, hv, read⟩, ?_, ?_, ?_⟩
    · rw [Store.get, getAt, near.nearest?, near.bindingAt?]
    · intro v
      rw [assign, assignAt, near.nearest?, near.bindingAt?]
    · intro index v
      rw [assignItem, assignItemAt, near.nearest?, near.bindingAt?]
  · intro missing
    refine ⟨?_, ?_, ?_⟩
    · rw [getAt, missing.bindingAt?]
      rfl
    · intro v
      rw [assignAt, missing.bindingAt?]
      rfl
    · intro index v
      rw [assignItemAt, missing.bindingAt?]
      rfl

/-- A block inside a function body inside the outermost scope. The block and the outermost scope
both have an `x`, and the function has an array `xs`. -/
def nestedScopes : Store where
  arrays := #[#[.int 1, .int 2]]
  functions := #[]
  scopes := #[⟨⟨[("x", .int 7)]⟩, none⟩, ⟨⟨[("xs", .array 0)]⟩, some 0⟩, ⟨⟨[("x", .nil)]⟩, some 1⟩]

/-- In these scopes, an element that does not fit is refused in both ways, and so are a name at a
distance that passes its binding by and a distance that passes all scopes by. -/
theorem distances_agree_nested :
    assignItem 2 (.synthetic "xs" (.array .int)) (.int 1) .nil nestedScopes =
      assignItemAt 1 2 (.synthetic "xs" (.array .int)) (.int 1) .nil nestedScopes ∧
    nestedScopes.getAt 1 2 (.synthetic "x" .int) = .error ⟨0, .undefinedVariable "x"⟩ ∧
    nestedScopes.getAt 3 2 (.synthetic "x" .int) = .error ⟨0, .undefinedVariable "x"⟩ := by
  have near : nestedScopes.NearestAt "xs" 2 1 1 := by
    refine ⟨by decide, by decide, ?_⟩
    intro d hd b hb
    obtain rfl : d = 0 := by omega
    cases hb
    decide
  refine ⟨?_, ?_, ?_⟩
  · exact ((distances_agree nestedScopes 2 (.synthetic "xs" (.array .int)) 1).1 1 near).2.2.2 _ _
  · exact ((distances_agree nestedScopes 2 (.synthetic "x" .int) 1).2
      (.inr ⟨1, by decide, by decide⟩)).1
  · exact ((distances_agree nestedScopes 2 (.synthetic "x" .int) 3).2 (.inl (by decide))).1

/-! ## Writes that fail -/

/-- A write to a name: of a value or of an element of its array, with a search for the name or at
a known distance. -/
inductive Write where
  | value (v : Value)
  | valueAt (distance : Nat) (v : Value)
  | item (index v : Value)
  | itemAt (distance : Nat) (index v : Value)

namespace Write

/-- Performs a write, for a name seen from `scope`. -/
def perform (scope : ScopeId) (name : Token) : Write → EStateM RuntimeError Store Value
  | .value v => assign scope name v
  | .valueAt distance v => assignAt distance scope name v
  | .item index v => assignItem scope name index v
  | .itemAt distance index v => assignItemAt distance scope name index v

/-- The value that is to be kept under the name itself. -/
def whole? : Write → Option Value
  | .value v => some v
  | .valueAt _ v => some v
  | _ => none

/-- The scope in which the write finds its name, seen from `scope`. -/
def found? (scope : ScopeId) (name : Token) (s : Store) : Write → Option ScopeId
  | .value _ => s.nearest? name.lexeme scope
  | .valueAt distance _ => s.bindingAt? name.lexeme distance scope
  | .item _ _ => s.nearest? name.lexeme scope
  | .itemAt distance _ _ => s.bindingAt? name.lexeme distance scope

/-- The array `a` is assigned to a name that is bound and has an array type, so it is fitted to
this type where it stands. -/
structure Refits (w : Write) (scope : ScopeId) (name : Token) (s : Store) (element : Scalar)
    (a : ArrayId) : Prop where
  typed : name.type = .array element
  whole : w.whole? = some (.array a)
  bound : (w.found? scope name s).isSome = true

end Write

/-- The elements up to the first that does not fit, for the reason `m`, have been converted to the
element type; that one and all after it are as they were. -/
def Halfway (element : Scalar) (m : Mismatch) (old new : List Value) : Prop :=
  ∃ front converted odd rest,
    old = front ++ odd :: rest ∧ new = converted ++ odd :: rest ∧
    List.Forall₂ (fun v w => v.convert (.scalar element) = .ok w) front converted ∧
    odd.convert (.scalar element) = .error m

theorem halfway_convertItems {element : Scalar} {m : Mismatch} : ∀ {old new : List Value},
    convertItems element old = (new, some m) → Halfway element m old new
  | [], new, h => by cases h
  | v :: vs, new, h => by
    rw [convertItems] at h
    split at h
    · next m' hv =>
      cases h
      exact ⟨[], [], v, vs, rfl, rfl, .nil, hv⟩
    · next w hw =>
      cases hrest : convertItems element vs with
      | mk ws failure =>
        rw [hrest] at h
        cases h
        obtain ⟨front, converted, odd, rest, rfl, rfl, hfront, hodd⟩ := halfway_convertItems hrest
        exact ⟨v :: front, w :: converted, odd, rest, rfl, rfl, .cons hw hfront, hodd⟩

/-- Nothing but the elements of the array `a` differs, and these are converted halfway. -/
structure LeftHalfway (s t : Store) (element : Scalar) (m : Mismatch) (a : ArrayId) : Prop where
  scopes : t.scopes = s.scopes
  functions : t.functions = s.functions
  others : ∀ b ≠ a, t.items b = s.items b
  halfway : Halfway element m (s.items a).toList (t.items a).toList

namespace Store

variable {s t : Store}

/-- An array that does not fit an array type is left halfway. -/
theorem coerce_array_fails {element : Scalar} {a : ArrayId} {m : Mismatch}
    (h : coerce (.array element) (.array a) s = .error m t) : LeftHalfway s t element m a := by
  rw [coerce_array] at h
  split at h
  · cases h
  · next items m' hitems =>
    cases h
    -- An array without elements fits every type, so this one is in the store.
    have inside : a < s.arrays.size := by
      by_contra outside
      have empty : s.items a = #[] := by
        simp [Store.items, outside]
      rw [empty] at hitems
      cases hitems
    refine ⟨rfl, rfl, ?_, ?_⟩
    · intro b hb
      rw [items_setItems s a b _ inside, if_neg hb]
    · rw [items_setItems s a a _ inside, if_pos rfl]
      exact halfway_convertItems hitems

theorem coerce_plain_fails {type : Ty} {v : Value} {m : Mismatch}
    (plain : ∀ element a, type = .array element → v ≠ .array a)
    (h : coerce type v s = .error m t) : t = s := by
  rw [coerce_plain s plain] at h
  split at h
  · cases h
  · cases h
    rfl

/-- An array that is assigned to a name of an array type is left halfway if the name is bound. -/
theorem assignIn_array_fails {found : Option ScopeId} {name : Token} {element : Scalar}
    {a : ArrayId} {e : RuntimeError} (typed : name.type = .array element) (bound : found.isSome)
    (h : assignIn found name (.array a) s = .error e t) :
    ∃ m, e = ⟨name.line, .badAssignment name.lexeme m⟩ ∧ LeftHalfway s t element m a := by
  obtain ⟨scope, rfl⟩ := Option.isSome_iff_exists.1 bound
  simp only [assignIn, typed] at h
  split at h
  · cases h
  · next m u hcoerce =>
    cases h
    exact ⟨m, rfl, coerce_array_fails hcoerce⟩

theorem assignIn_plain_fails {found : Option ScopeId} {name : Token} {v : Value}
    {e : RuntimeError}
    (plain : ∀ element a, name.type = .array element → v = .array a → found.isSome = false)
    (h : assignIn found name v s = .error e t) : t = s := by
  cases found with
  | none =>
    cases h
    rfl
  | some scope =>
    simp only [assignIn] at h
    split at h
    · cases h
    · next m u hcoerce =>
      cases h
      exact coerce_plain_fails (fun element a ht hv => by cases plain element a ht hv) hcoerce

/-- The element type of an array is never itself an array type, so an element is never fitted
where it stands. -/
theorem assignItemIn_fails {found : Option ScopeId} {name : Token} {index v : Value}
    {e : RuntimeError} (h : assignItemIn found name index v s = .error e t) : t = s := by
  cases found with
  | none =>
    cases h
    rfl
  | some scope =>
    simp only [assignItemIn] at h
    split at h
    · split at h
      · cases h
        rfl
      · split at h
        · cases h
        · next m u hcoerce =>
          cases h
          refine coerce_plain_fails (fun element a htype _ => ?_) hcoerce
          cases hname : name.type <;> simp [hname, Ty.element?] at htype
    · cases h
      rfl

end Store

/-- A write that fails leaves everything as it was, whichever way the name was found and whatever
was wrong, with one exception. If an array was to be assigned to a name that is bound and has an
array type then one of its elements did not fit, and the elements before it have been
converted. -/
theorem failed_writes (w : Write) (scope : ScopeId) (name : Token) (s : Store) {e : RuntimeError}
    {t : Store} (failed : w.perform scope name s = .error e t) :
    (∀ element a, w.Refits scope name s element a →
      ∃ m, e = ⟨name.line, .badAssignment name.lexeme m⟩ ∧ LeftHalfway s t element m a) ∧
    ((∀ element a, ¬ w.Refits scope name s element a) → t = s) := by
  have unbound : ∀ {found : Option ScopeId}, ¬ found.isSome = true → found.isSome = false :=
    fun h => Bool.not_eq_true _ ▸ h
  constructor
  · rintro element a ⟨typed, whole, bound⟩
    cases w with
    | value v =>
      cases whole
      exact assignIn_array_fails typed bound failed
    | valueAt distance v =>
      cases whole
      exact assignIn_array_fails typed bound failed
    | item index v => cases whole
    | itemAt distance index v => cases whole
  · intro plain
    cases w with
    | value v =>
      refine assignIn_plain_fails (fun element a typed hv => unbound fun bound => ?_) failed
      exact plain element a ⟨typed, congrArg some hv, bound⟩
    | valueAt distance v =>
      refine assignIn_plain_fails (fun element a typed hv => unbound fun bound => ?_) failed
      exact plain element a ⟨typed, congrArg some hv, bound⟩
    | item index v => exact assignItemIn_fails failed
    | itemAt distance index v => exact assignItemIn_fails failed

/-- An array with an element that is no number, under two names. -/
def mixedArray : Store where
  arrays := #[#[.int 1, .bool true]]
  functions := #[]
  scopes := #[⟨⟨[("xs", .array 0), ("ys", .array 0)]⟩, none⟩]

/-- Writing an element out of bounds changes nothing here, and an assignment of the array that
fails converts its first element. -/
theorem failed_writes_mixed :
    (∃ e t, (Write.item (.int 2) (.int 5)).perform 0 (.synthetic "xs" (.array .int)) mixedArray =
      .error e t ∧ t = mixedArray) ∧
    ∃ e t, (Write.value (.array 0)).perform 0 (.synthetic "xs" (.array .float)) mixedArray =
      .error e t ∧ ∃ m, LeftHalfway mixedArray t .float m 0 := by
  constructor
  · refine ⟨_, _, rfl, ?_⟩
    refine (failed_writes (.item (.int 2) (.int 5)) 0 (.synthetic "xs" (.array .int)) mixedArray
      rfl).2 fun element a refits => ?_
    cases refits.whole
  · refine ⟨_, _, rfl, ?_⟩
    obtain ⟨m, -, half⟩ := (failed_writes (.value (.array 0)) 0 (.synthetic "xs" (.array .float))
      mixedArray rfl).1 .float 0 ⟨rfl, rfl, rfl⟩
    exact ⟨m, half⟩

/-- An assignment can fail and leave the array under another name with an element that it did not
have. -/
theorem failed_assignment_converts : ∃ e t,
    (Write.value (.array 0)).perform 0 (.synthetic "xs" (.array .float)) mixedArray = .error e t ∧
      mixedArray.lookup 0 "ys" = some (.array 0) ∧ t.items 0 ≠ mixedArray.items 0 := by
  refine ⟨_, _, rfl, rfl, ?_⟩
  intro same
  have first : (some (Value.float (Number.ofInt 1))) = some (.int 1) :=
    congrArg (·[0]?) same
  cases first

end TickScript
