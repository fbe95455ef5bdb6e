import Mathlib.Logic.Function.Basic
import TickScript.Proofs.Closed.Run
import TickScript.Proofs.Copies

/-!
# Stores inside of stores

A store can lie inside of another one, under other handles: `Store.Embeds ρ base s t` says that
`t` has all that `s` has, where `ρ` says which handle stands for which, and that all else in `t`
is as in `base`. What is made next in `s` is what is made next in `t`. Each operation on `s` is
then the same operation on `t`, with handles embedded. It touches nothing that is not of `s`, and
what is seen of values is the same up to the handles of functions.
-/

namespace TickScript

variable {ω : Type}

/-! ## Handles -/

/-- The handles of one store as handles of another. Different ones stay different. -/
structure Embedding where
  array : ArrayId → ArrayId
  function : FunctionId → FunctionId
  scope : ScopeId → ScopeId
  array_injective : array.Injective
  function_injective : function.Injective
  scope_injective : scope.Injective

def Value.embed (ρ : Embedding) : Value → Value
  | .array a => .array (ρ.array a)
  | .function f => .function (ρ.function f)
  | v => v

def Callable.embed (ρ : Embedding) : Callable → Callable
  | .script header body closure => .script header body (ρ.scope closure)
  | k => k

def Scope.embed (ρ : Embedding) (sc : Scope) : Scope where
  bindings := ⟨sc.bindings.entries.map fun entry => (entry.1, entry.2.embed ρ)⟩
  parent := sc.parent.map ρ.scope

namespace Content

mutual

/-- The content with the handles of functions embedded. -/
def embed (ρ : Embedding) : Content → Content
  | .function f name => .function (ρ.function f) name
  | .array items => .array (embedAll ρ items)
  | c => c

def embedAll (ρ : Embedding) : List Content → List Content
  | [] => []
  | c :: cs => c.embed ρ :: embedAll ρ cs

end

end Content

section Values

variable (ρ : Embedding)

theorem Value.Plain.embed {v : Value} (h : v.Plain) : v.embed ρ = v := by
  cases v <;> first | rfl | exact h.elim

theorem embed_array (a : ArrayId) : (Value.array a).embed ρ = .array (ρ.array a) := rfl

@[simp]
theorem isTruthy_embed (v : Value) : (v.embed ρ).isTruthy = v.isTruthy := by
  cases v <;> rfl

@[simp]
theorem integral?_embed (v : Value) : (v.embed ρ).integral? = v.integral? := by
  cases v <;> rfl

@[simp]
theorem name_embed (c : Callable) : (c.embed ρ).name = c.name := by
  cases c <;> rfl

@[simp]
theorem signature_embed (c : Callable) : (c.embed ρ).signature = c.signature := by
  cases c <;> rfl

@[simp]
theorem arity_embed (c : Callable) : (c.embed ρ).arity = c.arity := by
  rw [Callable.arity, signature_embed, ← Callable.arity]

theorem convert_embed (type : Ty) (v : Value) :
    (v.embed ρ).convert type = (v.convert type).map (Value.embed ρ) := by
  cases type with
  | scalar k =>
    cases k <;> cases v <;> try rfl
    case int.float x =>
      change (Value.float x).convert .int = ((Value.float x).convert .int).map (Value.embed ρ)
      rw [Value.convert_float_int]
      cases Number.integral? x <;> rfl
  | array element => cases v <;> rfl
  | void => cases v <;> rfl
  | any => rfl
  | unknown => rfl

theorem convertItems_embed (element : Scalar) : ∀ vs : List Value,
    convertItems element (vs.map (Value.embed ρ)) =
      ((convertItems element vs).1.map (Value.embed ρ), (convertItems element vs).2)
  | [] => rfl
  | v :: vs => by
    rw [List.map_cons, convertItems, convertItems, convert_embed]
    cases v.convert (.scalar element) with
    | error m => rfl
    | ok w =>
      rw [convertItems_embed element vs]
      rfl

mutual

theorem display_embed : (c : Content) → (c.embed ρ).display = c.display
  | .int _ => rfl
  | .float _ => rfl
  | .bool _ => rfl
  | .function _ _ => rfl
  | .nil => rfl
  | .array items => by
    rw [Content.embed, Content.display, Content.display, displayAll_embed items]

theorem displayAll_embed : (cs : List Content) →
    Content.displayAll (Content.embedAll ρ cs) = Content.displayAll cs
  | [] => rfl
  | c :: cs => by
    rw [Content.embedAll, Content.displayAll, Content.displayAll, display_embed c,
      displayAll_embed cs]

end

/-- Handles are the same if they stand for the same. -/
theorem beq_embed {r : Nat → Nat} (h : r.Injective) (a b : Nat) : (r a == r b) = (a == b) := by
  rw [Bool.eq_iff_iff, beq_iff_eq, beq_iff_eq]
  exact h.eq_iff

mutual

theorem same_embed : (c d : Content) → (c.embed ρ).same (d.embed ρ) = c.same d
  | .array cs, .array ds => sameAll_embed cs ds
  | .function f n, .function g m => beq_embed ρ.function_injective f g
  | .int _, d => by cases d <;> rfl
  | .float _, d => by cases d <;> rfl
  | .bool _, d => by cases d <;> rfl
  | .nil, d => by cases d <;> rfl
  | .array _, .int _ | .array _, .float _ | .array _, .bool _ | .array _, .function _ _
  | .array _, .nil => rfl
  | .function _ _, .int _ | .function _ _, .float _ | .function _ _, .bool _
  | .function _ _, .array _ | .function _ _, .nil => rfl

theorem sameAll_embed : (cs ds : List Content) →
    Content.sameAll (Content.embedAll ρ cs) (Content.embedAll ρ ds) = Content.sameAll cs ds
  | [], [] => rfl
  | [], _ :: _ => rfl
  | _ :: _, [] => rfl
  | c :: cs, d :: ds => by
    rw [Content.embedAll, Content.embedAll, Content.sameAll, Content.sameAll, same_embed c d,
      sameAll_embed cs ds]

end

end Values

/-! ## Parts of a store -/

/-- The elements of `xs` are elements of `ys`, at the positions that `r` gives. What comes next in
`xs` comes next in `ys`. -/
structure Spread {α β : Type} (r : Nat → Nat) (g : α → β) (xs : Array α) (ys : Array β) :
    Prop where
  get : ∀ i, ys[r i]? = xs[i]?.map g
  next : ∀ n, r (xs.size + n) = ys.size + n

namespace Spread

variable {α β : Type} {r : Nat → Nat} {g : α → β} {xs : Array α} {ys : Array β}

theorem size (h : Spread r g xs ys) : r xs.size = ys.size :=
  h.next 0

theorem push (h : Spread r g xs ys) (inj : r.Injective) (x : α) :
    Spread r g (xs.push x) (ys.push (g x)) where
  get i := by
    rw [Array.getElem?_push, Array.getElem?_push, ← h.size]
    by_cases hi : i = xs.size
    · rw [if_pos hi, if_pos (congrArg r hi), Option.map_some]
    · rw [if_neg hi, if_neg fun e => hi (inj e), h.get]
  next n := by
    rw [Array.size_push, Array.size_push, Nat.add_assoc, h.next, Nat.add_assoc]

theorem modify (h : Spread r g xs ys) (inj : r.Injective) {f : α → α} {k : β → β}
    (commutes : ∀ x, g (f x) = k (g x)) (i : Nat) :
    Spread r g (xs.modify i f) (ys.modify (r i) k) where
  get j := by
    rw [Array.getElem?_modify, Array.getElem?_modify, h.get]
    by_cases hj : i = j
    · rw [if_pos hj, if_pos (congrArg r hj)]
      cases xs[j]? with
      | none => rfl
      | some x => exact congrArg some (commutes x).symm
    · rw [if_neg hj, if_neg fun e => hj (inj e)]
  next n := by
    rw [Array.size_modify, Array.size_modify, h.next]

end Spread

namespace Store

/-- The store `s` lies inside of `t`. All else in `t` is as in `base`: the arrays that are not of
`s`, and the functions that were in `base`. -/
structure Embeds (ρ : Embedding) (base s t : Store) : Prop where
  arrays : Spread ρ.array (·.map (Value.embed ρ)) s.arrays t.arrays
  functions : Spread ρ.function (Callable.embed ρ) s.functions t.functions
  scopes : Spread ρ.scope (Scope.embed ρ) s.scopes t.scopes
  otherArrays : ∀ a, (∀ b, ρ.array b ≠ a) → t.arrays[a]? = base.arrays[a]?
  oldFunctions : ∀ f, f < base.functions.size → t.functions[f]? = base.functions[f]?

variable {ρ : Embedding} {base s t : Store}

/-! ## Looking into the store -/

theorem Embeds.items (h : Embeds ρ base s t) (a : ArrayId) :
    t.items (ρ.array a) = (s.items a).map (Value.embed ρ) := by
  simp only [Store.items, Array.getD_eq_getD_getElem?, h.arrays.get]
  cases s.arrays[a]? <;> simp

theorem Embeds.lookup (h : Embeds ρ base s t) (c : ScopeId) (n : String) :
    t.lookup (ρ.scope c) n = (s.lookup c n).map (Value.embed ρ) := by
  rw [Store.lookup, Store.lookup, h.scopes.get]
  cases s.scopes[c]? with
  | none => rfl
  | some sc =>
    show Table.find? _ n = (sc.bindings.find? n).map (Value.embed ρ)
    simp only [Scope.embed, Table.find?, List.find?_map, Option.map_map]
    rfl

theorem Embeds.binds (h : Embeds ρ base s t) (c : ScopeId) (n : String) :
    t.binds (ρ.scope c) n = s.binds c n := by
  rw [Store.binds, Store.binds, h.lookup, Option.isSome_map]

theorem Embeds.parent? (h : Embeds ρ base s t) (c : ScopeId) :
    t.parent? (ρ.scope c) = (s.parent? c).map ρ.scope := by
  rw [Store.parent?, Store.parent?, h.scopes.get]
  cases s.scopes[c]? <;> rfl

theorem Embeds.ancestor? (h : Embeds ρ base s t) : ∀ (distance : Nat) (c : ScopeId),
    t.ancestor? distance (ρ.scope c) = (s.ancestor? distance c).map ρ.scope
  | 0, _ => rfl
  | distance + 1, c => by
    rw [Store.ancestor?, Store.ancestor?, h.parent?]
    cases s.parent? c with
    | none => rfl
    | some p => exact h.ancestor? distance p

theorem Embeds.bindingAt? (h : Embeds ρ base s t) (n : String) (distance : Nat) (c : ScopeId) :
    t.bindingAt? n distance (ρ.scope c) = (s.bindingAt? n distance c).map ρ.scope := by
  rw [Store.bindingAt?, Store.bindingAt?, h.ancestor?]
  cases s.ancestor? distance c with
  | none => rfl
  | some p =>
    simp only [Option.map_some, Option.filter_some, h.binds]
    split <;> rfl

theorem Embeds.nearest? (h : Embeds ρ base s t) {g : ScopeId} (alone : s.parent? g = none)
    (n : String) : t.nearest? n (ρ.scope g) = (s.nearest? n g).map ρ.scope := by
  rw [nearest?_root alone, nearest?_root (by rw [h.parent?, alone]; rfl), h.binds]
  split <;> rfl

theorem Embeds.functionContent (h : Embeds ρ base s t) (f : FunctionId) :
    t.functionContent (ρ.function f) = (s.functionContent f).embed ρ := by
  rw [Store.functionContent, Store.functionContent, h.functions.get]
  cases s.functions[f]? with
  | none => rfl
  | some k => cases k <;> rfl

theorem embedAll_map {α : Type} (f : α → Content) : ∀ xs : List α,
    Content.embedAll ρ (xs.map f) = xs.map fun x => (f x).embed ρ
  | [] => rfl
  | x :: xs => by rw [List.map_cons, Content.embedAll, embedAll_map f xs, List.map_cons]

theorem Embeds.contentWithin (h : Embeds ρ base s t) (depth : Nat) : ∀ v : Value,
    t.contentWithin depth (v.embed ρ) = (s.contentWithin depth v).embed ρ := by
  induction depth with
  | zero =>
    intro v
    cases v with
    | function f => exact h.functionContent f
    | _ => rfl
  | succ depth ih =>
    intro v
    cases v with
    | function f => exact h.functionContent f
    | array a =>
      rw [Value.embed, Store.contentWithin, Store.contentWithin, h.items, Content.embed,
        embedAll_map, Array.toList_map, List.map_map]
      congr 1
      exact List.map_congr_left fun v _ => ih v
    | _ => rfl

theorem Embeds.content (h : Embeds ρ base s t) (v : Value) :
    t.content (v.embed ρ) = (s.content v).embed ρ :=
  h.contentWithin nesting v

theorem Embeds.display (h : Embeds ρ base s t) (v : Value) :
    t.display (v.embed ρ) = s.display v := by
  rw [Store.display, Store.display, h.content, display_embed]

theorem agree_map {α β : Type} {test : α → α → Bool} {test' : β → β → Bool} {f : α → β}
    (h : ∀ a b, test' (f a) (f b) = test a b) : ∀ as bs : List α,
    agree test' (as.map f) (bs.map f) = agree test as bs
  | [], [] => rfl
  | [], _ :: _ => rfl
  | _ :: _, [] => rfl
  | a :: as, b :: bs => by
    rw [List.map_cons, List.map_cons, agree, agree, h, agree_map h as bs]

theorem Embeds.equalWithin (h : Embeds ρ base s t) (depth : Nat) : ∀ v w : Value,
    t.equalWithin depth (v.embed ρ) (w.embed ρ) = s.equalWithin depth v w := by
  have arrays := beq_embed ρ.array_injective
  have functions := beq_embed ρ.function_injective
  induction depth with
  | zero =>
    intro v w
    cases v <;> cases w <;> first | rfl | exact arrays _ _ | exact functions _ _
  | succ depth ih =>
    intro v w
    cases v <;> cases w <;> try first | rfl | exact functions _ _
    case array.array a b =>
      rw [Value.embed, Value.embed, equalWithin_array, equalWithin_array, h.items, h.items,
        Array.toList_map, Array.toList_map, agree_map ih, arrays]

theorem Embeds.equal (h : Embeds ρ base s t) (v w : Value) :
    t.equal (v.embed ρ) (w.embed ρ) = s.equal v w :=
  h.equalWithin nesting v w

/-! ## Changing the store -/

/-- The arrays of `s` are changed, in the same way inside of `t`. -/
theorem Embeds.of_arrays (h : Embeds ρ base s t) {xs ys : Array (Array Value)}
    (spread : Spread ρ.array (·.map (Value.embed ρ)) xs ys)
    (others : ∀ a, (∀ b, ρ.array b ≠ a) → ys[a]? = t.arrays[a]?) :
    Embeds ρ base { s with arrays := xs } { t with arrays := ys } :=
  { h with arrays := spread
           otherArrays := fun a ha => (others a ha).trans (h.otherArrays a ha) }

theorem Embeds.newArray (h : Embeds ρ base s t) (items : Array Value) :
    (t.newArray (items.map (Value.embed ρ))).1 = ρ.array (s.newArray items).1 ∧
      Embeds ρ base (s.newArray items).2 (t.newArray (items.map (Value.embed ρ))).2 := by
  refine ⟨h.arrays.size.symm, h.of_arrays (h.arrays.push ρ.array_injective items) fun a ha => ?_⟩
  rw [Array.getElem?_push, if_neg fun e => ha _ (h.arrays.size.trans e.symm)]

/-- Arrays of `s` are modified one at a time. -/
theorem Embeds.modify (h : Embeds ρ base s t) {f k : Array Value → Array Value}
    (commutes : ∀ items, (f items).map (Value.embed ρ) = k (items.map (Value.embed ρ)))
    (a : ArrayId) :
    Embeds ρ base { s with arrays := s.arrays.modify a f }
      { t with arrays := t.arrays.modify (ρ.array a) k } := by
  refine h.of_arrays (h.arrays.modify ρ.array_injective commutes a) fun b hb => ?_
  rw [Array.getElem?_modify, if_neg (hb a)]

theorem setItems_eq_modify (s : Store) (a : ArrayId) (items : Array Value) :
    s.setItems a items = { s with arrays := s.arrays.modify a fun _ => items } := by
  rw [setItems]
  congr 1

theorem Embeds.setItems (h : Embeds ρ base s t) (a : ArrayId) (items : Array Value) :
    Embeds ρ base (s.setItems a items)
      (t.setItems (ρ.array a) (items.map (Value.embed ρ))) := by
  rw [setItems_eq_modify, setItems_eq_modify]
  exact @Embeds.modify _ _ _ _ h (fun _ => items) (fun _ => items.map (Value.embed ρ))
    (fun _ => rfl) a

theorem Embeds.setItem (h : Embeds ρ base s t) (a : ArrayId) (i : Nat) (v : Value) :
    Embeds ρ base (s.setItem a i v) (t.setItem (ρ.array a) i (v.embed ρ)) :=
  h.modify (fun _ => Array.map_setIfInBounds) a

theorem Embeds.newFunction (h : Embeds ρ base s t) (k : Callable) :
    (t.newFunction (k.embed ρ)).1 = ρ.function (s.newFunction k).1 ∧
      Embeds ρ base (s.newFunction k).2 (t.newFunction (k.embed ρ)).2 := by
  refine ⟨h.functions.size.symm, { h with
    functions := h.functions.push ρ.function_injective k
    oldFunctions := fun f hf => ?_ }⟩
  have old := h.oldFunctions f hf
  -- What is there was not made just now.
  have there : f < t.functions.size := by
    rw [Array.getElem?_eq_getElem hf] at old
    exact (Array.getElem?_eq_some_iff.1 old).1
  rw [Store.newFunction, Array.getElem?_push, if_neg (Nat.ne_of_lt there), old]

theorem Embeds.newScope (h : Embeds ρ base s t) (p : Option ScopeId) :
    (t.newScope (p.map ρ.scope)).1 = ρ.scope (s.newScope p).1 ∧
      Embeds ρ base (s.newScope p).2 (t.newScope (p.map ρ.scope)).2 :=
  ⟨h.scopes.size.symm,
    { h with scopes := h.scopes.push ρ.scope_injective ⟨Table.empty, p⟩ }⟩

theorem insert_embed (ρ : Embedding) (sc : Scope) (n : String) (v : Value) :
    Scope.embed ρ { sc with bindings := sc.bindings.insert n v } =
      { sc.embed ρ with bindings := (sc.embed ρ).bindings.insert n (v.embed ρ) } := by
  obtain ⟨⟨entries⟩, parent⟩ := sc
  simp only [Scope.embed, Table.insert]
  congr 2
  induction entries with
  | nil => rfl
  | cons entry rest ih =>
    simp only [Table.insertEntry, List.map_cons]
    split
    · rfl
    · rw [List.map_cons, ih]

theorem Embeds.bind (h : Embeds ρ base s t) (c : ScopeId) (n : String) (v : Value) :
    Embeds ρ base (s.bind c n v) (t.bind (ρ.scope c) n (v.embed ρ)) := by
  have scopes := @Spread.modify _ _ _ _ _ _ h.scopes ρ.scope_injective
    (fun sc => { sc with bindings := sc.bindings.insert n v })
    (fun sc => { sc with bindings := sc.bindings.insert n (v.embed ρ) })
    (fun sc => insert_embed ρ sc n v) c
  exact { h with scopes }

/-! ## Fitting and building -/

/-- The step inside of the larger store ends as the step does by itself, with its result embedded
by `f`, and one store still lies inside of the other. -/
def Agrees {ε α β : Type} (ρ : Embedding) (base : Store) (f : α → β) :
    EStateM.Result ε Store α → EStateM.Result ε Store β → Prop
  | .ok a s, .ok b t => b = f a ∧ Embeds ρ base s t
  | .error e s, .error e' t => e' = e ∧ Embeds ρ base s t
  | _, _ => False

theorem Embeds.coerce (h : Embeds ρ base s t) (type : Ty) (v : Value) :
    Agrees ρ base (Value.embed ρ) (Store.coerce type v s) (Store.coerce type (v.embed ρ) t) := by
  rcases array_or_plain type v with ⟨element, a, rfl, rfl⟩ | hplain
  · rw [Value.embed, coerce_array, coerce_array, h.items, Array.toList_map, convertItems_embed]
    cases convertItems element (s.items a).toList with
    | mk ws failure =>
      have set := h.setItems a ws.toArray
      rw [List.map_toArray] at set
      cases failure with
      | none => exact ⟨rfl, set⟩
      | some m => exact ⟨rfl, set⟩
  · have hplain' : ∀ element a, type = .array element → v.embed ρ ≠ .array a := by
      intro element a ht hv
      cases v with
      | array b => exact hplain element b ht rfl
      | _ => cases hv
    rw [coerce_plain _ hplain, coerce_plain _ hplain', convert_embed]
    cases v.convert type with
    | ok w => exact ⟨rfl, h⟩
    | error m => exact ⟨rfl, h⟩

theorem Embeds.zero (h : Embeds ρ base s t) (type : Ty) :
    (t.zero type).1 = (s.zero type).1.embed ρ ∧ Embeds ρ base (s.zero type).2 (t.zero type).2 := by
  cases type with
  | array element =>
    obtain ⟨made, inside⟩ := h.newArray #[]
    rw [Array.map_empty] at made inside
    exact ⟨congrArg Value.array made, inside⟩
  | scalar k => cases k <;> exact ⟨rfl, h⟩
  | _ => exact ⟨rfl, h⟩

mutual

theorem Embeds.build : (c : Content) → ∀ {s t : Store}, Embeds ρ base s t →
    (t.build (c.embed ρ)).1 = (s.build c).1.embed ρ ∧
      Embeds ρ base (s.build c).2 (t.build (c.embed ρ)).2
  | .int _, _, _, h => ⟨rfl, h⟩
  | .float _, _, _, h => ⟨rfl, h⟩
  | .bool _, _, _, h => ⟨rfl, h⟩
  | .function _ _, _, _, h => ⟨rfl, h⟩
  | .nil, _, _, h => ⟨rfl, h⟩
  | .array cs, s, t, h => by
    obtain ⟨made, inside⟩ := Embeds.buildAll cs h
    obtain ⟨made', inside'⟩ := inside.newArray (s.buildAll cs).1.toArray
    rw [List.map_toArray, ← made] at made' inside'
    rw [Content.embed, Store.build, Store.build]
    exact ⟨congrArg Value.array made', inside'⟩

theorem Embeds.buildAll : (cs : List Content) → ∀ {s t : Store}, Embeds ρ base s t →
    (t.buildAll (Content.embedAll ρ cs)).1 = (s.buildAll cs).1.map (Value.embed ρ) ∧
      Embeds ρ base (s.buildAll cs).2 (t.buildAll (Content.embedAll ρ cs)).2
  | [], _, _, h => ⟨rfl, h⟩
  | c :: cs, s, t, h => by
    obtain ⟨made, inside⟩ := Embeds.build c h
    obtain ⟨made', inside'⟩ := Embeds.buildAll cs inside
    rw [Content.embedAll, Store.buildAll, Store.buildAll, List.map_cons, ← made, ← made']
    exact ⟨rfl, inside'⟩

end

end Store

end TickScript
