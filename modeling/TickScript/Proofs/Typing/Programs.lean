import TickScript.Proofs.Compiled
import TickScript.Proofs.Stamps
import TickScript.Proofs.Typing.Functions

/-!
# Accepted programs are typed

Resolution lets an operand pass whose type says nothing. In an accepted program there is none:
every name has a declaration, and every function a return type. What resolution has checked
therefore makes a program typed, with the types of names that scanning found.
-/

namespace TickScript

variable {ω : Type}

/-- If types are exact then none of the names is that of a function. -/
def Types.Apart (T : Types) (names : List Token) : Prop :=
  T.exact → ∀ t ∈ names, ¬ T.functions t.lexeme

section Typed

variable {T : Types} {ts : List Token}

theorem apart_cons {t : Token} {names : List Token} :
    T.Apart (t :: names) ↔ (T.exact → ¬ T.functions t.lexeme) ∧ T.Apart names := by
  simp [Types.Apart, forall_and]

theorem apart_append {names others : List Token} :
    T.Apart (names ++ others) ↔ T.Apart names ∧ T.Apart others := by
  simp [Types.Apart, or_imp, forall_and]

/-- The types are those of the names and functions of a program written in `ts`. -/
structure Types.Describes (T : Types) (ts : List Token) : Prop where
  token : ∀ t ∈ ts, t.kind = .identifier → t.type = T.name t.lexeme
  declared : ∀ type t, Declared ts type t → T.name t.lexeme = type
  plain : ∀ n, T.name n ≠ .any
  result : ∀ n signature, T.signatures.find? n = some signature →
    signature.returnType.isWild = false
  called : ∀ n signature, T.signatures.find? n = some signature → T.functions n

/-! ## Expressions -/

theorem Types.Describes.variable (d : T.Describes ts) {name : Token}
    (hw : name ∈ ts ∧ name.kind = .identifier) (hu : name.type ≠ .unknown)
    (hf : T.exact → ¬ T.functions name.lexeme) : T.Variable name where
  named := d.token name hw.1 hw.2
  known := by
    have hany := d.plain name.lexeme
    rw [← d.token name hw.1 hw.2] at hany
    cases ht : name.type <;> first | rfl | exact absurd ht hany | exact absurd ht hu
  exact := hf

/-- Elements stand under the name of an array. -/
theorem Types.Describes.array (d : T.Describes ts) {name : Token}
    (hw : name ∈ ts ∧ name.kind = .identifier) (hi : name.type.Indexable) :
    ∃ element, name.type = .array element := by
  rcases hi with h | h
  · exact absurd ((d.token name hw.1 hw.2).symm.trans h) (d.plain _)
  · exact h

theorem numeric_of_plain {t : Ty} (ht : t.isWild = false) (h : Resolve.numeric t = true) :
    t.isNumeric = true := by
  rwa [Resolve.numeric, ht, Bool.false_or] at h

theorem boolean_of_plain {t : Ty} (ht : t.isWild = false) (h : Resolve.boolean t = true) :
    t = .bool := by
  rw [Resolve.boolean, ht, Bool.false_or] at h
  exact of_decide_eq_true h

theorem indexes_of_plain {t : Ty} (ht : t.isWild = false) (h : t.indexes = true) : t = .int := by
  rw [Ty.indexes, ht, Bool.false_or] at h
  exact of_decide_eq_true h

/-- What an operator needs, if both operands say something. -/
theorem operands_of_plain {operator : Token} {l r : Ty} (hl : l.isWild = false)
    (hr : r.isWild = false) (h : Resolve.operands operator l r = true) :
    (operator.kind = .equalEqual ∨ operator.kind = .bangEqual ∨
      l.isNumeric = true ∧ r.isNumeric = true) ∧
    (Resolve.resultType operator.kind l r).isWild = false := by
  unfold Resolve.operands at h
  split at h
  · next hk => exact ⟨.inl hk, by rw [hk]; rfl⟩
  · next hk => exact ⟨.inr (.inl hk), by rw [hk]; rfl⟩
  · rw [Bool.and_eq_true] at h
    have hnl := numeric_of_plain hl h.1
    have hnr := numeric_of_plain hr h.2
    refine ⟨.inr (.inr ⟨hnl, hnr⟩), ?_⟩
    unfold Resolve.resultType
    split
    case h_7 =>
      rcases Ty.numeric_cases hnl with rfl | rfl <;> rcases Ty.numeric_cases hnr with rfl | rfl <;> rfl
    all_goals rfl

mutual

/-- A checked expression is typed, and its type says something. -/
theorem Expr.Checked.typed (d : T.Describes ts) :
    (e : Expr) → e.Checked T.signatures → e.Each (Expr.Written ts) → T.Apart e.uses →
      e.Typed T ∧ (e.type T.signatures).isWild = false
  | .literal _ value _, _, _, _ => by
    refine ⟨trivial, ?_⟩
    cases value <;> rfl
  | .grouping _ inner, hc, hw, hu => by
    rw [Expr.Checked] at hc
    rw [Expr.uses] at hu
    rw [Expr.Typed, Expr.type]
    exact Expr.Checked.typed d inner hc (Expr.each_grouping.1 hw).2 hu
  | .unary _ operator right, hc, hw, hu => by
    rw [Expr.Checked] at hc
    rw [Expr.uses] at hu
    obtain ⟨hown, hright⟩ := Expr.each_unary.1 hw
    obtain ⟨typed, plain⟩ := Expr.Checked.typed d right hc.1 hright hu
    rw [Expr.Typed, Expr.type]
    have hop := hc.2
    rcases (show operator.kind = .bang ∨ operator.kind = .minus from hown) with hk | hk
    · rw [hk, if_pos rfl]
      exact ⟨⟨typed, .inl rfl⟩, rfl⟩
    · rw [hk, if_neg (by simp)] at hop ⊢
      exact ⟨⟨typed, .inr ⟨rfl, numeric_of_plain plain hop⟩⟩, plain⟩
  | .binary _ left operator right, hc, hw, hu => by
    rw [Expr.Checked] at hc
    rw [Expr.uses, apart_append] at hu
    obtain ⟨hown, hleft, hright⟩ := Expr.each_binary.1 hw
    obtain ⟨typedl, plainl⟩ := Expr.Checked.typed d left hc.1 hleft hu.1
    obtain ⟨typedr, plainr⟩ := Expr.Checked.typed d right hc.2.1 hright hu.2
    obtain ⟨hop, plain⟩ := operands_of_plain plainl plainr hc.2.2
    rw [Expr.Typed, Expr.type_binary]
    exact ⟨⟨typedl, typedr, hown, hop⟩, plain⟩
  | .logical _ left operator right, hc, hw, hu => by
    rw [Expr.Checked] at hc
    rw [Expr.uses, apart_append] at hu
    obtain ⟨-, hleft, hright⟩ := Expr.each_logical.1 hw
    obtain ⟨typedl, plainl⟩ := Expr.Checked.typed d left hc.1 hleft hu.1
    obtain ⟨typedr, plainr⟩ := Expr.Checked.typed d right hc.2.1 hright hu.2
    rw [Expr.Typed, Expr.type]
    exact ⟨⟨typedl, typedr, boolean_of_plain plainl hc.2.2.1, boolean_of_plain plainr hc.2.2.2⟩, rfl⟩
  | .var _ name, hc, hw, hu => by
    rw [Expr.Checked] at hc
    rw [Expr.uses, apart_cons] at hu
    have hn := d.variable (Expr.each_var.1 hw) hc hu.1
    rw [Expr.Typed, Expr.type]
    exact ⟨hn, hn.known⟩
  | .index _ name position, hc, hw, hu => by
    rw [Expr.Checked] at hc
    rw [Expr.uses, apart_cons] at hu
    obtain ⟨hown, hposition⟩ := Expr.each_index.1 hw
    obtain ⟨typed, plain⟩ := Expr.Checked.typed d position hc.1 hposition hu.2
    obtain ⟨element, ht⟩ := d.array hown hc.2.2
    have hn := d.variable hown (by simp [ht]) hu.1
    rw [Expr.Typed, Expr.type, ht]
    exact ⟨⟨typed, indexes_of_plain plain hc.2.1, hn, element, rfl⟩, rfl⟩
  | .assign _ name value, hc, hw, hu => by
    rw [Expr.Checked] at hc
    rw [Expr.uses, apart_cons] at hu
    obtain ⟨hown, hvalue⟩ := Expr.each_assign.1 hw
    obtain ⟨typed, plain⟩ := Expr.Checked.typed d value hc.1 hvalue hu.2
    have hn := d.variable hown hc.2.1 hu.1
    rw [Expr.Typed, Expr.type]
    exact ⟨⟨typed, hn, plain, hc.2.2⟩, hn.known⟩
  | .assignIndex _ name position value, hc, hw, hu => by
    rw [Expr.Checked] at hc
    rw [Expr.uses, apart_cons, apart_append] at hu
    obtain ⟨hown, hposition, hvalue⟩ := Expr.each_assignIndex.1 hw
    obtain ⟨typedp, plainp⟩ := Expr.Checked.typed d position hc.1 hposition hu.2.1
    obtain ⟨typedv, plainv⟩ := Expr.Checked.typed d value hc.2.1 hvalue hu.2.2
    obtain ⟨element, ht⟩ := d.array hown hc.2.2.2.1
    have hn := d.variable hown (by simp [ht]) hu.1
    have hfit := hc.2.2.2.2
    rw [ht, Ty.element?_array, Option.getD_some] at hfit
    rw [Expr.Typed, Expr.type, ht]
    exact ⟨⟨typedp, typedv, indexes_of_plain plainp hc.2.2.1, hn, plainv, element, rfl, hfit⟩, rfl⟩
  | .assignElements _ name elements, hc, hw, hu => by
    rw [Expr.Checked] at hc
    rw [Expr.uses, apart_cons] at hu
    obtain ⟨hown, helements⟩ := Expr.each_assignElements.1 hw
    obtain ⟨element, ht⟩ := d.array hown hc.1
    have hn := d.variable hown (by simp [ht]) hu.1
    have hfit := hc.2
    rw [ht, Ty.element?_array, Option.getD_some] at hfit
    rw [Expr.Typed, Expr.type, ht]
    exact ⟨⟨hn, element, rfl, ElementsChecked.typed d element elements hfit helements hu.2⟩, rfl⟩
  | .call _ callee _ arguments, hc, hw, hu => by
    rw [Expr.Checked] at hc
    obtain ⟨hargs, id, name, signature, rfl, hfind, hfit⟩ := hc
    rw [Expr.uses] at hu
    obtain ⟨-, -, harguments⟩ := Expr.each_call.1 hw
    rw [Expr.Typed, Expr.type, hfind]
    exact ⟨⟨ExprsChecked.typed d arguments hargs harguments hu, id, name, signature, rfl, hfind,
      fun _ => d.called _ _ hfind, hfit⟩, d.result _ _ hfind⟩

theorem ExprsChecked.typed (d : T.Describes ts) :
    (es : List Expr) → ExprsChecked T.signatures es → EachExpr (Expr.Written ts) es →
      T.Apart (exprsUses es) → ExprsTyped T es
  | [], _, _, _ => trivial
  | e :: es, hc, hw, hu => by
    rw [ExprsChecked] at hc
    rw [exprsUses, apart_append] at hu
    obtain ⟨he, hes⟩ := eachExpr_cons.1 hw
    exact ⟨Expr.Checked.typed d e hc.1 he hu.1, ExprsChecked.typed d es hc.2 hes hu.2⟩

theorem ElementsChecked.typed (d : T.Describes ts) (element : Scalar) :
    (es : List Expr) → ElementsChecked T.signatures (.scalar element) es →
      EachExpr (Expr.Written ts) es → T.Apart (exprsUses es) → ElementsTyped T element es
  | [], _, _, _ => trivial
  | e :: es, hc, hw, hu => by
    rw [ElementsChecked] at hc
    rw [exprsUses, apart_append] at hu
    obtain ⟨he, hes⟩ := eachExpr_cons.1 hw
    obtain ⟨typed, plain⟩ := Expr.Checked.typed d e hc.1 he hu.1
    exact ⟨⟨typed, plain, hc.2.1⟩, ElementsChecked.typed d element es hc.2.2 hes hu.2⟩

end

/-! ## Statements -/

/-- A declared type that is not `void` is that of a variable. -/
theorem Declared.isData {type : Ty} {name : Token} (h : Declared ts type name)
    (hv : type ≠ .void) : type.isData = true := by
  rcases h.cases with rfl | ⟨k, rfl⟩ | ⟨k, rfl⟩
  · exact absurd rfl hv
  · rfl
  · rfl

theorem Types.Describes.declares (d : T.Describes ts) {type : Ty} {name : Token}
    (h : Declared ts type name) (hv : type ≠ .void) (hf : T.exact → ¬ T.functions name.lexeme) :
    T.Declares name type :=
  ⟨d.declared type name h, h.isData hv, hf⟩

theorem Initializer.Checked.typed (d : T.Describes ts) {type : Ty} (ht : type.isData = true)
    (start : Initializer) (hc : start.Checked T.signatures type) (hw : start.Each (Expr.Written ts))
    (hu : T.Apart start.uses) : start.Typed T type := by
  cases start with
  | zero => trivial
  | value e =>
    obtain ⟨typed, plain⟩ := Expr.Checked.typed d e hc.1 hw hu
    exact ⟨typed, plain, hc.2⟩
  | elements es =>
    obtain ⟨element, rfl⟩ : ∃ element, type = .array element := by
      rcases hc.1 with rfl | h
      · cases ht
      · exact h
    exact ⟨element, rfl, ElementsChecked.typed d element es hc.2 hw hu⟩

/-- What is returned has the return type, if both say something. -/
theorem matches_of_plain {expected actual : Ty} (he : expected.isWild = false)
    (ha : actual.isWild = false) (h : Resolve.matchesReturn expected actual = true) :
    expected = actual := by
  rw [Resolve.matchesReturn, he, ha, Bool.false_or, Bool.false_or] at h
  exact of_decide_eq_true h

/-- The statement is written in the tokens, and the function that it declares is the one of its
name. -/
def Types.Part (T : Types) (ts : List Token) (part : Stmt) : Prop :=
  part.Written ts ∧ ∀ header ∈ part.header?,
    T.signatures.find? header.name.lexeme = some header.signature

mutual

/-- A checked statement is typed. -/
theorem Stmt.Checked.typed (d : T.Describes ts) :
    (s : Stmt) → ∀ {returnType : Option Ty} {inLoop : Bool},
      s.Checked T.signatures returnType inLoop → s.Each (Expr.Written ts) (T.Part ts) →
      T.Apart s.uses → (∀ type ∈ returnType, type.isWild = false) → s.Typed T returnType inLoop
  | .expression e, _, _, hc, hw, hu, _ => by
    rw [Stmt.Checked] at hc
    rw [Stmt.uses] at hu
    rw [Stmt.Typed]
    exact (Expr.Checked.typed d e hc (Stmt.each_expression.1 hw).2 hu).1
  | .block body, _, _, hc, hw, hu, hr => by
    rw [Stmt.Checked] at hc
    rw [Stmt.uses] at hu
    rw [Stmt.Typed]
    exact StmtsChecked.typed d body hc (Stmt.each_block.1 hw).2 hu hr
  | .declare name type start, _, _, hc, hw, hu, _ => by
    rw [Stmt.Checked] at hc
    rw [Stmt.uses, apart_cons] at hu
    obtain ⟨⟨⟨hdecl, hvoid⟩, -⟩, hstart⟩ := Stmt.each_declare.1 hw
    rw [Stmt.Typed]
    exact ⟨d.declares hdecl hvoid hu.1,
      Initializer.Checked.typed d (hdecl.isData hvoid) start hc hstart hu.2⟩
  | .ifThen _ test yes, _, _, hc, hw, hu, hr => by
    rw [Stmt.Checked] at hc
    rw [Stmt.uses, apart_append] at hu
    obtain ⟨-, htest, hyes⟩ := Stmt.each_ifThen.1 hw
    rw [Stmt.Typed]
    exact ⟨(Expr.Checked.typed d test hc.1 htest hu.1).1,
      Stmt.Checked.typed d yes hc.2.2 hyes hu.2 hr⟩
  | .ifElse _ test yes no, _, _, hc, hw, hu, hr => by
    rw [Stmt.Checked] at hc
    rw [Stmt.uses, apart_append, apart_append] at hu
    obtain ⟨-, htest, hyes, hno⟩ := Stmt.each_ifElse.1 hw
    rw [Stmt.Typed]
    exact ⟨(Expr.Checked.typed d test hc.1 htest hu.1).1,
      Stmt.Checked.typed d yes hc.2.2.1 hyes hu.2.1 hr,
      Stmt.Checked.typed d no hc.2.2.2 hno hu.2.2 hr⟩
  | .while _ test body, _, _, hc, hw, hu, hr => by
    rw [Stmt.Checked] at hc
    rw [Stmt.uses, apart_append] at hu
    obtain ⟨-, htest, hbody⟩ := Stmt.each_while.1 hw
    rw [Stmt.Typed]
    exact ⟨(Expr.Checked.typed d test hc.1 htest hu.1).1,
      Stmt.Checked.typed d body hc.2.2 hbody hu.2 hr⟩
  | .return _ none, _, _, hc, _, _, hr => by
    rw [Stmt.Checked] at hc
    obtain ⟨type, rfl, hmatch⟩ := hc
    rw [Stmt.Typed, matches_of_plain (hr type rfl) rfl hmatch]
  | .return _ (some e), _, _, hc, hw, hu, hr => by
    rw [Stmt.Checked] at hc
    obtain ⟨he, type, rfl, hmatch⟩ := hc
    rw [Stmt.uses] at hu
    obtain ⟨typed, plain⟩ := Expr.Checked.typed d e he ((Stmt.each_return.1 hw).2 e rfl) hu
    rw [Stmt.Typed, matches_of_plain (hr type rfl) plain hmatch]
    exact ⟨typed, rfl⟩
  | .break _, _, _, hc, _, _, _ => by
    rw [Stmt.Checked] at hc
    rw [Stmt.Typed]
    exact hc
  | .continue _, _, _, hc, _, _, _ => by
    rw [Stmt.Checked] at hc
    rw [Stmt.Typed]
    exact hc
  | .function header body, _, _, hc, hw, hu, _ => by
    rw [Stmt.Checked] at hc
    rw [Stmt.uses, apart_append] at hu
    obtain ⟨⟨⟨hresult, hparams⟩, hfind⟩, hbody⟩ := Stmt.each_function.1 hw
    have signature := hfind header rfl
    have plain : header.returnType.isWild = false := d.result _ _ signature
    rw [Stmt.Typed]
    refine ⟨⟨signature, fun _ => d.called _ _ signature, plain, fun p hp => ?_⟩, ?_, hc.2.2⟩
    · exact d.declares (hparams p hp).1 (hparams p hp).2 fun he =>
        hu.1 he p.name (List.mem_map_of_mem hp)
    · exact StmtsChecked.typed d body hc.2.1 hbody hu.2 fun type h => by
        cases h
        exact plain

theorem StmtsChecked.typed (d : T.Describes ts) :
    (ss : List Stmt) → ∀ {returnType : Option Ty} {inLoop : Bool},
      StmtsChecked T.signatures returnType inLoop ss → EachStmt (Expr.Written ts) (T.Part ts) ss →
      T.Apart (stmtsUses ss) → (∀ type ∈ returnType, type.isWild = false) →
      StmtsTyped T returnType inLoop ss
  | [], _, _, _, _, _, _ => trivial
  | s :: ss, _, _, hc, hw, hu, hr => by
    rw [StmtsChecked] at hc
    rw [stmtsUses, apart_append] at hu
    obtain ⟨hs, hss⟩ := eachStmt_cons.1 hw
    exact ⟨Stmt.Checked.typed d s hc.1 hs hu.1 hr, StmtsChecked.typed d ss hc.2 hss hu.2 hr⟩

end

end Typed

end TickScript
