import TickScript.Proofs.Parts
import TickScript.Program

/-!
# What resolution has checked

The static type of an expression is a function of its form and of the signatures alone. A
program is checked if the types of all its parts fit the places where they are used. This is
what is left of resolution when it has nothing to report.
-/

namespace TickScript

/-! ## Types -/

/-- The static type of an expression. -/
def Expr.type (signatures : Signatures) : Expr → Ty
  | .literal _ value _ => value.type
  | .grouping _ inner => inner.type signatures
  | .unary _ operator right => if operator.kind = .bang then .bool else right.type signatures
  | .binary _ left operator right =>
    match operator.kind with
    | .equalEqual | .bangEqual | .greater | .greaterEqual | .less | .lessEqual => .bool
    | _ => Resolve.arithmeticType (left.type signatures) (right.type signatures)
  | .logical .. => .bool
  | .var _ name => name.type
  | .index _ name _ => name.type.element?.getD .any
  | .assign _ name _ => name.type
  | .assignIndex _ name _ _ => name.type.element?.getD .any
  | .assignElements _ name _ => name.type
  | .call _ (.var _ name) _ _ =>
    ((signatures.find? name.lexeme).map Signature.returnType).getD .unknown
  | .call .. => .unknown

/-- The type of a name under which elements are written or read. -/
def Ty.Indexable (t : Ty) : Prop :=
  t = .any ∨ ∃ element, t = .array element

/-- The type of an index. -/
def Ty.indexes (t : Ty) : Bool :=
  t.isWild || t = .int

/-- Do the operands of a binary operator have the types it needs? -/
def Resolve.operands (operator : Token) (l r : Ty) : Bool :=
  match operator.kind with
  | .equalEqual | .bangEqual => (boolean l && boolean r) || (numeric l && numeric r)
  | _ => numeric l && numeric r

/-! ## Expressions -/

mutual

/-- All parts of an expression have types that fit. -/
def Expr.Checked (signatures : Signatures) : Expr → Prop
  | .literal .. => True
  | .grouping _ inner => inner.Checked signatures
  | .unary _ operator right =>
    right.Checked signatures ∧
      (if operator.kind = .bang then Resolve.boolean (right.type signatures)
        else Resolve.numeric (right.type signatures)) = true
  | .binary _ left operator right =>
    left.Checked signatures ∧ right.Checked signatures ∧
      Resolve.operands operator (left.type signatures) (right.type signatures) = true
  | .logical _ left _ right =>
    left.Checked signatures ∧ right.Checked signatures ∧
      Resolve.boolean (left.type signatures) = true ∧
      Resolve.boolean (right.type signatures) = true
  | .var _ name => name.type ≠ .unknown
  | .index _ name position =>
    position.Checked signatures ∧ (position.type signatures).indexes = true ∧ name.type.Indexable
  | .assign _ name value =>
    value.Checked signatures ∧ name.type ≠ .unknown ∧
      name.type.compatible (value.type signatures) = true
  | .assignIndex _ name position value =>
    position.Checked signatures ∧ value.Checked signatures ∧
      (position.type signatures).indexes = true ∧ name.type.Indexable ∧
      (name.type.element?.getD .any).compatible (value.type signatures) = true
  | .assignElements _ name elements =>
    name.type.Indexable ∧ ElementsChecked signatures (name.type.element?.getD .any) elements
  | .call _ callee _ arguments =>
    ExprsChecked signatures arguments ∧
      ∃ id name signature, callee = .var id name ∧
        signatures.find? name.lexeme = some signature ∧
        List.Forall₂ (fun parameter argument => parameter.compatible argument = true)
          signature.parameters (arguments.map (Expr.type signatures))

def ExprsChecked (signatures : Signatures) : List Expr → Prop
  | [] => True
  | e :: es => e.Checked signatures ∧ ExprsChecked signatures es

/-- The expressions fit elements of type `element`. -/
def ElementsChecked (signatures : Signatures) (element : Ty) : List Expr → Prop
  | [] => True
  | e :: es =>
    e.Checked signatures ∧ element.compatible (e.type signatures) = true ∧
      ElementsChecked signatures element es

end

/-- The initial value fits a variable of type `type`. -/
def Initializer.Checked (signatures : Signatures) (type : Ty) : Initializer → Prop
  | .zero => True
  | .value e => e.Checked signatures ∧ type.compatible (e.type signatures) = true
  | .elements es => type.Indexable ∧ ElementsChecked signatures (type.element?.getD .any) es

/-! ## Statements -/

mutual

/-- All parts of a statement have types that fit. `returnType` is that of the function around
it, and `inLoop` says whether a loop surrounds it there. -/
def Stmt.Checked (signatures : Signatures) (returnType : Option Ty) (inLoop : Bool) : Stmt → Prop
  | .expression e => e.Checked signatures
  | .block body => StmtsChecked signatures returnType inLoop body
  | .declare _ type start => start.Checked signatures type
  | .ifThen _ test yes =>
    test.Checked signatures ∧ Resolve.boolean (test.type signatures) = true ∧
      yes.Checked signatures returnType inLoop
  | .ifElse _ test yes no =>
    test.Checked signatures ∧ Resolve.boolean (test.type signatures) = true ∧
      yes.Checked signatures returnType inLoop ∧ no.Checked signatures returnType inLoop
  | .while _ test body =>
    test.Checked signatures ∧ Resolve.boolean (test.type signatures) = true ∧
      body.Checked signatures returnType true
  | .return _ none => ∃ t, returnType = some t ∧ Resolve.matchesReturn t .void = true
  | .return _ (some e) =>
    e.Checked signatures ∧
      ∃ t, returnType = some t ∧ Resolve.matchesReturn t (e.type signatures) = true
  | .break _ => inLoop = true
  | .continue _ => inLoop = true
  | .function header body =>
    returnType = none ∧ StmtsChecked signatures (some header.returnType) false body ∧
      (Resolve.mustReturn header.returnType = true → alwaysReturnsIn body = true)

def StmtsChecked (signatures : Signatures) (returnType : Option Ty) (inLoop : Bool) :
    List Stmt → Prop
  | [] => True
  | s :: ss =>
    s.Checked signatures returnType inLoop ∧ StmtsChecked signatures returnType inLoop ss

end

/-! ## Calls -/

mutual

/-- A checked expression is checked in all its parts, but for the names that it calls. -/
theorem Expr.Checked.call {signatures : Signatures} {id : ExprId} {callee : Expr} {paren : Token}
    {arguments : List Expr} : (e : Expr) → e.Checked signatures →
    .call id callee paren arguments ∈ e.nodes →
    (Expr.call id callee paren arguments).Checked signatures
  | .literal .., _, h => by simp at h
  | .grouping _ inner, hc, h => by
    rw [Expr.Checked] at hc
    simp only [Expr.nodes, List.mem_cons, reduceCtorEq, false_or] at h
    exact Expr.Checked.call inner hc h
  | .unary _ _ right, hc, h => by
    rw [Expr.Checked] at hc
    simp only [Expr.nodes, List.mem_cons, reduceCtorEq, false_or] at h
    exact Expr.Checked.call right hc.1 h
  | .binary _ left _ right, hc, h => by
    rw [Expr.Checked] at hc
    simp only [Expr.nodes, List.mem_cons, reduceCtorEq, false_or, List.cons_append,
      List.mem_append] at h
    rcases h with h | h
    · exact Expr.Checked.call left hc.1 h
    · exact Expr.Checked.call right hc.2.1 h
  | .logical _ left _ right, hc, h => by
    rw [Expr.Checked] at hc
    simp only [Expr.nodes, List.mem_cons, reduceCtorEq, false_or, List.cons_append,
      List.mem_append] at h
    rcases h with h | h
    · exact Expr.Checked.call left hc.1 h
    · exact Expr.Checked.call right hc.2.1 h
  | .var .., _, h => by simp at h
  | .index _ _ position, hc, h => by
    rw [Expr.Checked] at hc
    simp only [Expr.nodes, List.mem_cons, reduceCtorEq, false_or] at h
    exact Expr.Checked.call position hc.1 h
  | .assign _ _ value, hc, h => by
    rw [Expr.Checked] at hc
    simp only [Expr.nodes, List.mem_cons, reduceCtorEq, false_or] at h
    exact Expr.Checked.call value hc.1 h
  | .assignIndex _ _ position value, hc, h => by
    rw [Expr.Checked] at hc
    simp only [Expr.nodes, List.mem_cons, reduceCtorEq, false_or, List.cons_append,
      List.mem_append] at h
    rcases h with h | h
    · exact Expr.Checked.call position hc.1 h
    · exact Expr.Checked.call value hc.2.1 h
  | .assignElements _ _ elements, hc, h => by
    rw [Expr.Checked] at hc
    simp only [Expr.nodes, List.mem_cons, reduceCtorEq, false_or] at h
    exact ElementsChecked.call elements hc.2 h
  | .call _ callee' _ arguments', hc, h => by
    have hc' := hc
    rw [Expr.Checked] at hc'
    obtain ⟨hargs, i, name, signature, rfl, -⟩ := hc'
    simp only [Expr.nodes, List.mem_cons, reduceCtorEq, false_or, List.cons_append,
      List.nil_append] at h
    rcases h with h | h
    · rw [h]
      exact hc
    · exact ExprsChecked.call arguments' hargs h

theorem ExprsChecked.call {signatures : Signatures} {id : ExprId} {callee : Expr} {paren : Token}
    {arguments : List Expr} : (es : List Expr) → ExprsChecked signatures es →
    .call id callee paren arguments ∈ exprsNodes es →
    (Expr.call id callee paren arguments).Checked signatures
  | [], _, h => by simp at h
  | e :: es, hc, h => by
    rw [ExprsChecked] at hc
    rcases List.mem_append.1 h with h | h
    · exact Expr.Checked.call e hc.1 h
    · exact ExprsChecked.call es hc.2 h

theorem ElementsChecked.call {signatures : Signatures} {element : Ty} {id : ExprId}
    {callee : Expr} {paren : Token} {arguments : List Expr} : (es : List Expr) →
    ElementsChecked signatures element es → .call id callee paren arguments ∈ exprsNodes es →
    (Expr.call id callee paren arguments).Checked signatures
  | [], _, h => by simp at h
  | e :: es, hc, h => by
    rw [ElementsChecked] at hc
    rcases List.mem_append.1 h with h | h
    · exact Expr.Checked.call e hc.1 h
    · exact ElementsChecked.call es hc.2.2 h

end

theorem Initializer.Checked.call {signatures : Signatures} {type : Ty} {id : ExprId} {callee : Expr}
    {paren : Token} {arguments : List Expr} (start : Initializer)
    (hc : start.Checked signatures type) (h : .call id callee paren arguments ∈ start.nodes) :
    (Expr.call id callee paren arguments).Checked signatures := by
  cases start with
  | zero => simp at h
  | value e => exact Expr.Checked.call e hc.1 h
  | elements es => exact ElementsChecked.call es hc.2 h

mutual

theorem Stmt.Checked.call {signatures : Signatures} {id : ExprId} {callee : Expr} {paren : Token}
    {arguments : List Expr} : (s : Stmt) → ∀ {returnType : Option Ty} {inLoop : Bool},
    s.Checked signatures returnType inLoop → .call id callee paren arguments ∈ s.nodes →
    (Expr.call id callee paren arguments).Checked signatures
  | .expression e, _, _, hc, h => by
    rw [Stmt.Checked] at hc
    exact Expr.Checked.call e hc h
  | .block body, _, _, hc, h => by
    rw [Stmt.Checked] at hc
    exact StmtsChecked.call body hc h
  | .declare _ _ start, _, _, hc, h => by
    rw [Stmt.Checked] at hc
    exact Initializer.Checked.call start hc h
  | .ifThen _ test yes, _, _, hc, h => by
    rw [Stmt.Checked] at hc
    rcases List.mem_append.1 h with h | h
    · exact Expr.Checked.call test hc.1 h
    · exact Stmt.Checked.call yes hc.2.2 h
  | .ifElse _ test yes no, _, _, hc, h => by
    rw [Stmt.Checked] at hc
    rcases List.mem_append.1 h with h | h
    · rcases List.mem_append.1 h with h | h
      · exact Expr.Checked.call test hc.1 h
      · exact Stmt.Checked.call yes hc.2.2.1 h
    · exact Stmt.Checked.call no hc.2.2.2 h
  | .while _ test body, _, _, hc, h => by
    rw [Stmt.Checked] at hc
    rcases List.mem_append.1 h with h | h
    · exact Expr.Checked.call test hc.1 h
    · exact Stmt.Checked.call body hc.2.2 h
  | .return _ none, _, _, _, h => by simp at h
  | .return _ (some e), _, _, hc, h => by
    rw [Stmt.Checked] at hc
    exact Expr.Checked.call e hc.1 h
  | .break _, _, _, _, h => by simp at h
  | .continue _, _, _, _, h => by simp at h
  | .function _ body, _, _, hc, h => by
    rw [Stmt.Checked] at hc
    exact StmtsChecked.call body hc.2.1 h

/-- Every call in a checked program is checked. -/
theorem StmtsChecked.call {signatures : Signatures} {id : ExprId} {callee : Expr} {paren : Token}
    {arguments : List Expr} : (ss : List Stmt) → ∀ {returnType : Option Ty} {inLoop : Bool},
    StmtsChecked signatures returnType inLoop ss → .call id callee paren arguments ∈ stmtsNodes ss →
    (Expr.call id callee paren arguments).Checked signatures
  | [], _, _, _, h => by simp at h
  | s :: ss, _, _, hc, h => by
    rw [StmtsChecked] at hc
    rcases List.mem_append.1 h with h | h
    · exact Stmt.Checked.call s hc.1 h
    · exact StmtsChecked.call ss hc.2 h

end

/-- A checked call goes to a name. -/
theorem Expr.Checked.callee {σ : Signatures} {id : ExprId} {callee : Expr} {paren : Token}
    {arguments : List Expr} (h : (Expr.call id callee paren arguments).Checked σ) :
    ∃ i name, callee = .var i name := by
  rw [Expr.Checked] at h
  obtain ⟨-, i, name, -, rfl, -⟩ := h
  exact ⟨i, name, rfl⟩

end TickScript
