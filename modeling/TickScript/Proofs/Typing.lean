import TickScript.Proofs.Checked
import TickScript.Proofs.Grammar
import TickScript.Proofs.Shapes

/-!
# Typed programs and typed stores

Every name of a program has one type, and every function one signature, whatever scope they
belong to. A program is typed if its parts have types that fit, and a store is if each name is
bound to a value of its type or to a function of its signature, and if its functions are typed.

Two kinds of theorems share these definitions. If types are `exact` then no name of a function is used for
anything but calls, and an expression can only have a value of its type. Otherwise the name of a
function can also be that of a variable, and all that is known of a value is that an array is of
its type.
-/

namespace TickScript

/-- Can a variable be declared with this type? -/
def Ty.isData : Ty → Bool
  | .scalar _ => true
  | .array _ => true
  | _ => false

theorem Ty.not_wild_of_isData {t : Ty} (h : t.isData = true) : t.isWild = false := by
  cases t <;> first | rfl | cases h

/-- The types of all names, the signatures of all functions, which names are functions, and which
functions the host provides. -/
structure Types where
  name : String → Ty
  signatures : Signatures
  functions : String → Prop
  provides : String → Signature → Prop
  exact : Prop

namespace Types

/-- A name that is read or written. -/
structure Variable (T : Types) (name : Token) : Prop where
  named : name.type = T.name name.lexeme
  known : name.type.isWild = false
  exact : T.exact → ¬ T.functions name.lexeme

/-- A variable or parameter that is declared. -/
structure Declares (T : Types) (name : Token) (type : Ty) : Prop where
  named : T.name name.lexeme = type
  data : type.isData = true
  exact : T.exact → ¬ T.functions name.lexeme

/-- A function that is declared. -/
structure Defines (T : Types) (header : Header) : Prop where
  signature : T.signatures.find? header.name.lexeme = some header.signature
  exact : T.exact → T.functions header.name.lexeme
  result : header.returnType.isWild = false
  parameters : ∀ p ∈ header.parameters, T.Declares p.name p.type

end Types

/-! ## Programs -/

mutual

/-- All parts of an expression have types that fit. -/
def Expr.Typed (T : Types) : Expr → Prop
  | .literal .. => True
  | .grouping _ inner => inner.Typed T
  | .unary _ operator right =>
    right.Typed T ∧ (operator.kind = .bang ∨
      operator.kind = .minus ∧ (right.type T.signatures).isNumeric = true)
  | .binary _ left operator right =>
    left.Typed T ∧ right.Typed T ∧ operator.kind ∈ binaryKinds ∧
      (operator.kind = .equalEqual ∨ operator.kind = .bangEqual ∨
        (left.type T.signatures).isNumeric = true ∧ (right.type T.signatures).isNumeric = true)
  | .logical _ left _ right =>
    left.Typed T ∧ right.Typed T ∧ left.type T.signatures = .bool ∧
      right.type T.signatures = .bool
  | .var _ name => T.Variable name
  | .index _ name position =>
    position.Typed T ∧ position.type T.signatures = .int ∧ T.Variable name ∧
      ∃ element, name.type = .array element
  | .assign _ name value =>
    value.Typed T ∧ T.Variable name ∧ (value.type T.signatures).isWild = false ∧
      name.type.compatible (value.type T.signatures) = true
  | .assignIndex _ name position value =>
    position.Typed T ∧ value.Typed T ∧ position.type T.signatures = .int ∧ T.Variable name ∧
      (value.type T.signatures).isWild = false ∧
      ∃ element, name.type = .array element ∧
        (Ty.scalar element).compatible (value.type T.signatures) = true
  | .assignElements _ name elements =>
    T.Variable name ∧ ∃ element, name.type = .array element ∧ ElementsTyped T element elements
  | .call _ callee _ arguments =>
    ExprsTyped T arguments ∧ ∃ id name signature, callee = .var id name ∧
      T.signatures.find? name.lexeme = some signature ∧ (T.exact → T.functions name.lexeme) ∧
      List.Forall₂ (fun parameter argument => parameter.compatible argument = true)
        signature.parameters (arguments.map (Expr.type T.signatures))

def ExprsTyped (T : Types) : List Expr → Prop
  | [] => True
  | e :: es => (e.Typed T ∧ (e.type T.signatures).isWild = false) ∧ ExprsTyped T es

/-- The expressions fit elements of the kind `element`. -/
def ElementsTyped (T : Types) (element : Scalar) : List Expr → Prop
  | [] => True
  | e :: es =>
    (e.Typed T ∧ (e.type T.signatures).isWild = false ∧
      (Ty.scalar element).compatible (e.type T.signatures) = true) ∧ ElementsTyped T element es

end

/-- The initial value fits a variable of type `type`. -/
def Initializer.Typed (T : Types) (type : Ty) : Initializer → Prop
  | .zero => True
  | .value e =>
    e.Typed T ∧ (e.type T.signatures).isWild = false ∧
      type.compatible (e.type T.signatures) = true
  | .elements es => ∃ element, type = .array element ∧ ElementsTyped T element es

mutual

/-- All parts of a statement have types that fit. `returnType` is that of the function around
it, and `inLoop` says whether a loop surrounds it there. -/
def Stmt.Typed (T : Types) (returnType : Option Ty) (inLoop : Bool) : Stmt → Prop
  | .expression e => e.Typed T
  | .block body => StmtsTyped T returnType inLoop body
  | .declare name type start => T.Declares name type ∧ start.Typed T type
  | .ifThen _ test yes => test.Typed T ∧ yes.Typed T returnType inLoop
  | .ifElse _ test yes no =>
    test.Typed T ∧ yes.Typed T returnType inLoop ∧ no.Typed T returnType inLoop
  | .while _ test body => test.Typed T ∧ body.Typed T returnType true
  | .return _ none => returnType = some .void
  | .return _ (some e) => e.Typed T ∧ returnType = some (e.type T.signatures)
  | .break _ => inLoop = true
  | .continue _ => inLoop = true
  | .function header body =>
    T.Defines header ∧ StmtsTyped T (some header.returnType) false body ∧
      (Resolve.mustReturn header.returnType = true → alwaysReturnsIn body = true)

def StmtsTyped (T : Types) (returnType : Option Ty) (inLoop : Bool) : List Stmt → Prop
  | [] => True
  | s :: ss => s.Typed T returnType inLoop ∧ StmtsTyped T returnType inLoop ss

end

/-! ## Stores -/

/-- The function belongs to the program, or is provided by its host. -/
def Types.Provided (T : Types) (k : Callable) : Prop :=
  ∀ name signature, k = .host name signature → T.provides name signature

/-- What a name can be bound to: a function of its signature, or a value of its type. -/
def Types.Bound (T : Types) (s : Store) (n : String) (v : Value) : Prop :=
  (∃ f k, v = .function f ∧ s.functions[f]? = some k ∧ T.Provided k ∧
      T.signatures.find? n = some k.signature ∧ (T.exact → T.functions n)) ∨
    s.HasShape v (T.name n) ∧ (T.exact → ¬ T.functions n)

namespace Store

/-- From the outermost scope of a program on, names are bound to what they can be bound to, and
the script functions are typed and belong there. -/
structure Sound (T : Types) (globals : ScopeId) (s : Store) : Prop where
  bindings : ∀ c n v, globals ≤ c → s.lookup c n = some v → T.Bound s n v
  functions : ∀ (f : FunctionId) (header : Header) (body : List Stmt) (closure : ScopeId),
    s.functions[f]? = some (.script header body closure) →
    globals ≤ closure ∧ (Stmt.function header body).Typed T none false
  parents : ∀ c p, globals ≤ c → s.parent? c = some p → globals ≤ p

variable {T : Types} {globals : ScopeId} {s t : Store} {n : String} {v w : Value} {c : ScopeId}

theorem bound_later (globals : ScopeId) (h : T.Bound s n v) (hl : Later T.name globals s t) :
    T.Bound t n v := by
  rcases h with ⟨f, k, rfl, hk, hrest⟩ | ⟨hs, he⟩
  · exact .inl ⟨f, k, rfl, hl.functions f k hk, hrest⟩
  · exact .inr ⟨hs.later hl, he⟩

/-- From a scope of the program outward there are only such scopes. -/
theorem Sound.within (h : s.Sound T globals) {start : ScopeId} (hs : globals ≤ start)
    (hw : s.Within c start) : globals ≤ c := by
  obtain ⟨d, hd⟩ := hw
  induction d generalizing start with
  | zero =>
    cases hd
    exact hs
  | succ d ih =>
    obtain ⟨p, hp, hrest⟩ := Option.bind_eq_some_iff.1 hd
    exact ih (h.parents start p hs hp) hrest

/-! ## Steps -/

theorem Sound.extends (h : s.Sound T globals) (he : Extends s t) : t.Sound T globals where
  bindings c n v hc hv := by
    refine bound_later globals (h.bindings c n v hc ?_) he.later
    rw [lookup, ← he.scopes]
    exact hv
  functions f header body closure hf := by
    obtain ⟨added, hadd, hno⟩ := he.functions
    rw [hadd, Array.getElem?_append] at hf
    split at hf
    · exact h.functions f header body closure hf
    · have := hno _ (Array.mem_of_getElem? hf)
      simp [Callable.isScript] at this
  parents c p hc hp := h.parents c p hc (by
    rw [parent?, ← he.scopes]
    exact hp)

theorem later_newScope (p : Option ScopeId) : Later T.name globals s (s.newScope p).2 where
  scopes := by simp
  arrays _ _ h := h
  functions _ _ h := h
  bindings c n _ h := by
    obtain ⟨v, hv, hs⟩ := h
    exact ⟨v, by rw [lookup_newScope]; exact hv, hs⟩

theorem Sound.newScope (h : s.Sound T globals) {p : ScopeId} (hp : globals ≤ p) :
    (s.newScope (some p)).2.Sound T globals where
  bindings c n v hc hv := by
    rw [lookup_newScope] at hv
    exact bound_later globals (h.bindings c n v hc hv) (later_newScope _)
  functions := h.functions
  parents c q hc hq := by
    by_cases e : c = s.scopes.size
    · subst e
      rw [parent?_newScope_self] at hq
      cases hq
      exact hp
    · rw [parent?_newScope e] at hq
      exact h.parents c q hc hq

/-- A name gets a value of its type, or a first one. -/
theorem later_bind (h : s.binds c n = false ∨ s.HasShape w (T.name n)) :
    Later T.name globals s (s.bind c n w) where
  scopes := by simp
  arrays _ _ h := h
  functions _ _ h := h
  bindings c' n' _ h' := by
    obtain ⟨v, hv, hs⟩ := h'
    by_cases e : c' = c ∧ n' = n
    · obtain ⟨rfl, rfl⟩ := e
      refine ⟨w, ?_, ?_⟩
      · rw [lookup_bind _ _ _ _ _ _ (lt_of_lookup hv), if_pos ⟨rfl, rfl⟩]
      · rcases h with h | h
        · rw [binds_false_iff] at h
          rw [h] at hv
          cases hv
        · exact h
    · refine ⟨v, ?_, hs⟩
      rw [lookup_bind_of_ne (by tauto)]
      exact hv

theorem Sound.bind (h : s.Sound T globals) (hw : T.Bound s n w) :
    (s.bind c n w).Sound T globals where
  bindings c' n' v hc' hv := by
    by_cases e : c' = c ∧ n' = n
    · obtain ⟨rfl, rfl⟩ := e
      have hlt : c' < s.scopes.size := by
        have := lt_of_lookup hv
        rwa [size_bind] at this
      rw [lookup_bind _ _ _ _ _ _ hlt, if_pos ⟨rfl, rfl⟩] at hv
      cases hv
      exact hw
    · rw [lookup_bind_of_ne (by tauto)] at hv
      exact h.bindings c' n' v hc' hv
  functions := h.functions
  parents c' p hc' hp := h.parents c' p hc' (by
    rw [parent?_bind] at hp
    exact hp)

theorem later_newFunction (k : Callable) : Later T.name globals s (s.newFunction k).2 where
  scopes := Nat.le_refl _
  arrays _ _ h := h
  functions f k' h := by
    rw [newFunction, Array.getElem?_push, if_neg (Nat.ne_of_lt (Array.getElem?_eq_some_iff.1 h).1)]
    exact h
  bindings _ _ _ h := h

theorem Sound.newFunction (h : s.Sound T globals) {k : Callable}
    (hk : ∀ header body closure, k = .script header body closure →
      globals ≤ closure ∧ (Stmt.function header body).Typed T none false) :
    (s.newFunction k).2.Sound T globals where
  bindings c n v hc hv :=
    bound_later globals (h.bindings c n v hc hv) (later_newFunction k)
  functions f header body closure hf := by
    simp only [Store.newFunction, Array.getElem?_push] at hf
    split at hf
    · exact hk header body closure (Option.some.inj hf)
    · exact h.functions f header body closure hf
  parents := h.parents

/-- No value is of two kinds. -/
theorem kind_unique {kind element : Scalar} (hk : kind.holds v = true)
    (he : element.holds v = true) : kind = element := by
  cases v <;> cases kind <;> cases element <;> first | rfl | (cases hk; done) | cases he

/-- An element is replaced by one of its kind. -/
theorem filled_setItem {a b : ArrayId} {i : Nat} {element kind : Scalar} (hf : s.Filled a element)
    (hi : i < (s.items a).size) (hw : element.holds w = true) (h : s.Filled b kind) :
    (s.setItem a i w).Filled b kind := by
  have same : kind = element ∨ b ≠ a := by
    by_contra hne
    obtain ⟨hkind, hb⟩ := not_or.1 hne
    obtain rfl : b = a := not_not.1 hb
    -- An array that has an element has only one kind of elements.
    have hmem : (s.items b)[i] ∈ s.items b := Array.getElem_mem hi
    have hk := h.2 _ hmem
    have he := hf.2 _ hmem
    generalize (s.items b)[i] = v at hk he
    exact hkind (kind_unique hk he)
  have hsize : (s.setItem a i w).arrays.size = s.arrays.size := by simp [setItem]
  by_cases hb : b = a
  · obtain rfl := hb
    obtain rfl : kind = element := same.resolve_right fun hne => hne rfl
    refine ⟨by rw [hsize]; exact h.1, fun v hv => ?_⟩
    have hitems : (s.setItem b i w).items b = (s.items b).setIfInBounds i w := by
      refine items_of_getElem? ?_
      rw [setItem, Array.getElem?_modify, if_pos rfl, mem_items h.1, Option.map_some]
    rw [hitems] at hv
    rcases Array.mem_or_eq_of_mem_setIfInBounds hv with hv | rfl
    · exact h.2 v hv
    · exact hw
  · refine filled_congr h ?_
    rw [setItem, Array.getElem?_modify, if_neg fun e => hb e.symm]

theorem later_setItem {a : ArrayId} {i : Nat} {element : Scalar} (hf : s.Filled a element)
    (hi : i < (s.items a).size) (hw : element.holds w = true) :
    Later T.name globals s (s.setItem a i w) where
  scopes := Nat.le_refl _
  arrays b kind h := filled_setItem hf hi hw h
  functions _ _ h := h
  bindings c n _ h := by
    obtain ⟨v, hv, hs⟩ := h
    exact ⟨v, hv, hs.filled fun _ _ hb => filled_setItem hf hi hw hb⟩

theorem Sound.setItem (h : s.Sound T globals) {a : ArrayId} {i : Nat} {element : Scalar}
    (hf : s.Filled a element) (hi : i < (s.items a).size) (hw : element.holds w = true) :
    (s.setItem a i w).Sound T globals where
  bindings c n v hc hv :=
    bound_later globals (h.bindings c n v hc hv) (later_setItem hf hi hw)
  functions := h.functions
  parents := h.parents

end Store

end TickScript
