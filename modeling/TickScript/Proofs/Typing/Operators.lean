import TickScript.Machine.Operator
import TickScript.Proofs.Typing

/-!
# Typed operators

Operators on operands of their types give a value of the result's type or one of the faults that
types do not rule out. On operands of other kinds they may fail otherwise, but never give an
array.
-/

namespace TickScript

/-- The faults that types do not rule out. -/
def Fault.Ordinary : Fault → Prop
  | .undefinedVariable _ => True
  | .alreadyDefined _ => True
  | .indexOutOfBounds => True
  | .integerOverflow => True
  | .divisionByZero => True
  | _ => False

/-- The interrupts that types do not rule out. -/
def Interrupt.Ordinary : Interrupt → Prop
  | .error e => e.fault.Ordinary
  | .exhausted => True

/-- The static type of the result of a binary operator. -/
def Resolve.resultType (kind : TokenKind) (l r : Ty) : Ty :=
  match kind with
  | .equalEqual | .bangEqual | .greater | .greaterEqual | .less | .lessEqual => .bool
  | _ => arithmeticType l r

theorem Expr.type_binary (signatures : Signatures) (id : ExprId) (left : Expr) (operator : Token)
    (right : Expr) :
    (Expr.binary id left operator right).type signatures =
      Resolve.resultType operator.kind (left.type signatures) (right.type signatures) := rfl

theorem Scalar.ne_array {k : Scalar} {v : Value} (h : k.holds v = true) (a : ArrayId) :
    v ≠ .array a := by
  rintro rfl
  cases k <;> cases h

theorem Ty.numeric_cases {t : Ty} (h : t.isNumeric = true) : t = .int ∨ t = .float := by
  cases t with
  | scalar k => cases k <;> first | exact .inl rfl | exact .inr rfl | cases h
  | _ => cases h

namespace Operator

/-- The result is of one kind, or its fault is ordinary. -/
def Yields (k : Scalar) : Except Fault Value → Prop
  | .ok v => k.holds v = true
  | .error fault => fault.Ordinary

theorem yields_ofChecked (r : Except ArithmeticError Int64) : Yields .int (ofChecked r) := by
  cases r with
  | ok n => rfl
  | error e => cases e <;> trivial

variable {operator : Token}

/-- The kind of what two numbers are combined to. -/
def Combines (operator : Token) (k : Scalar) (r : Except Fault Value) : Prop :=
  operator.kind ∈ binaryKinds → operator.kind ≠ .equalEqual → operator.kind ≠ .bangEqual →
    ∀ t : Scalar, Resolve.resultType operator.kind (.scalar k) (.scalar k) = .scalar t → Yields t r

theorem combines_integers (a b : Int64) : Combines operator .int (integers operator a b) := by
  intro hk he hb t ht
  unfold integers
  generalize operator.kind = kind at *
  simp only [binaryKinds, List.mem_cons, List.not_mem_nil, or_false] at hk
  rcases hk with rfl | rfl | rfl | rfl | rfl | rfl | rfl | rfl | rfl | rfl | rfl
  case inl | inr.inl | inr.inr.inl | inr.inr.inr.inl | inr.inr.inr.inr.inl =>
    cases ht
    exact yields_ofChecked _
  case inr.inr.inr.inr.inr.inr.inr.inr.inr.inl => exact absurd rfl hb
  case inr.inr.inr.inr.inr.inr.inr.inr.inr.inr => exact absurd rfl he
  all_goals
    cases ht
    rfl

theorem combines_floats (a b : Float) : Combines operator .float (floats operator a b) := by
  intro hk he hb t ht
  unfold floats
  generalize operator.kind = kind at *
  simp only [binaryKinds, List.mem_cons, List.not_mem_nil, or_false] at hk
  rcases hk with rfl | rfl | rfl | rfl | rfl | rfl | rfl | rfl | rfl | rfl | rfl
  case inl | inr.inr.inl =>
    cases ht
    dsimp only
    split
    · trivial
    · rfl
  case inr.inr.inr.inr.inr.inr.inr.inr.inr.inl => exact absurd rfl hb
  case inr.inr.inr.inr.inr.inr.inr.inr.inr.inr => exact absurd rfl he
  all_goals
    cases ht
    rfl

/-- Two numbers are combined as integers if both are, and as doubles otherwise. -/
theorem yields_numbers {l r : Value} {kl kr t : Scalar} (hl : kl.holds l = true)
    (hr : kr.holds r = true) (nl : (Ty.scalar kl).isNumeric = true)
    (nr : (Ty.scalar kr).isNumeric = true) (hk : operator.kind ∈ binaryKinds)
    (he : operator.kind ≠ .equalEqual) (hb : operator.kind ≠ .bangEqual)
    (ht : Resolve.resultType operator.kind (.scalar kl) (.scalar kr) = .scalar t) :
    Yields t (numbers operator l r) := by
  -- With one double among the operands, the result is that of two.
  have mixed : ∀ {k k' : Scalar}, (k = .float ∨ k' = .float) →
      Resolve.resultType operator.kind (.scalar k) (.scalar k') =
        Resolve.resultType operator.kind .float .float := by
    intro k k' h
    unfold Resolve.resultType
    split
    case h_7 => rcases h with rfl | rfl <;> simp [Resolve.arithmeticType]
    all_goals rfl
  cases kl <;> cases kr <;> cases l <;> cases r <;>
    first
    | (cases hl; done) | (cases hr; done) | (cases nl; done) | (cases nr; done)
    | exact combines_integers _ _ hk he hb t ht
    | exact combines_floats _ _ hk he hb t ((mixed (by simp)).symm.trans ht)

/-- An operator has no array as its result. -/
theorem holds_unary {v w : Value} (h : unary operator v = .ok w) :
    ∃ k : Scalar, k.holds w = true := by
  unfold unary at h
  split at h
  · split at h
    · next n =>
      have := yields_ofChecked (Number.neg n)
      rw [h] at this
      exact ⟨.int, this⟩
    · cases h
      exact ⟨.float, rfl⟩
    · cases h
  · cases h
    exact ⟨.bool, rfl⟩
  · cases h

theorem holds_integers {a b : Int64} {w : Value} (h : integers operator a b = .ok w) :
    ∃ k : Scalar, k.holds w = true := by
  have checked : ∀ r, ofChecked r = .ok w → ∃ k : Scalar, k.holds w = true := by
    intro r hr
    have := yields_ofChecked r
    rw [hr] at this
    exact ⟨.int, this⟩
  unfold integers at h
  split at h
  case h_6 | h_7 | h_8 | h_9 =>
    cases h
    exact ⟨.bool, rfl⟩
  case h_10 => cases h
  all_goals exact checked _ h

theorem holds_floats {a b : Float} {w : Value} (h : floats operator a b = .ok w) :
    ∃ k : Scalar, k.holds w = true := by
  unfold floats at h
  split at h
  case h_4 | h_5 =>
    split at h
    · cases h
    · cases h
      exact ⟨.float, rfl⟩
  case h_10 => cases h
  all_goals
    cases h
    first | exact ⟨.float, rfl⟩ | exact ⟨.bool, rfl⟩

theorem holds_binary {s : Store} {l r w : Value} (h : binary s operator l r = .ok w) :
    ∃ k : Scalar, k.holds w = true := by
  unfold binary at h
  split at h
  · cases h
    exact ⟨.bool, rfl⟩
  · cases h
    exact ⟨.bool, rfl⟩
  · unfold numbers at h
    split at h
    · exact holds_integers h
    · split at h
      · exact holds_floats h
      · cases h

variable {exact : Prop} {s : Store}

/-- The result is what an expression of this type may have as its value, or its fault is ordinary
if types are exact. -/
def Results (exact : Prop) (s : Store) (type : Ty) : Except Fault Value → Prop
  | .ok w => s.Fits exact w type
  | .error fault => exact → fault.Ordinary

/-- A result that is scalar in any case, and of its type if types are exact. -/
theorem results_of_yields {r : Except Fault Value} {type : Ty}
    (scalar : ∀ w, r = .ok w → ∃ k : Scalar, k.holds w = true)
    (yields : exact → ∃ k : Scalar, type = .scalar k ∧ Yields k r) : Results exact s type r := by
  cases r with
  | ok w =>
    obtain ⟨k, hk⟩ := scalar w rfl
    refine .of_not_array (Scalar.ne_array hk) fun he => ?_
    obtain ⟨t, rfl, hy⟩ := yields he
    exact hy
  | error fault =>
    intro he
    obtain ⟨t, -, hy⟩ := yields he
    exact hy

theorem results_unary {v : Value} {type : Ty} (hv : s.Fits exact v type)
    (h : operator.kind = .bang ∨ operator.kind = .minus ∧ type.isNumeric = true) :
    Results exact s (if operator.kind = .bang then .bool else type) (unary operator v) := by
  have yields : exact → ∃ k : Scalar,
      (if operator.kind = .bang then .bool else type) = .scalar k ∧ Yields k (unary operator v) := by
    intro he
    have hs := hv.shape he
    unfold unary
    rcases h with hk | ⟨hk, hn⟩
    · rw [hk]
      exact ⟨.bool, rfl, rfl⟩
    · rw [hk]
      rcases Ty.numeric_cases hn with rfl | rfl
      · refine ⟨.int, rfl, ?_⟩
        cases v <;> first | exact yields_ofChecked _ | cases hs
      · refine ⟨.float, rfl, ?_⟩
        cases v <;> first | rfl | cases hs
  exact results_of_yields (fun _ hu => holds_unary hu) yields

theorem results_binary {l r : Value} {lt rt : Ty} (hl : s.Fits exact l lt) (hr : s.Fits exact r rt)
    (hk : operator.kind ∈ binaryKinds)
    (h : operator.kind = .equalEqual ∨ operator.kind = .bangEqual ∨
      lt.isNumeric = true ∧ rt.isNumeric = true) :
    Results exact s (Resolve.resultType operator.kind lt rt) (binary s operator l r) := by
  have yields : exact → ∃ k : Scalar, Resolve.resultType operator.kind lt rt = .scalar k ∧
      Yields k (binary s operator l r) := by
    intro he
    have hsl := hl.shape he
    have hsr := hr.shape he
    by_cases heq : operator.kind = .equalEqual
    · unfold binary
      rw [heq]
      exact ⟨.bool, rfl, rfl⟩
    by_cases hne : operator.kind = .bangEqual
    · unfold binary
      rw [hne]
      exact ⟨.bool, rfl, rfl⟩
    obtain ⟨hnl, hnr⟩ := (h.resolve_left heq).resolve_left hne
    have hb : binary s operator l r = numbers operator l r := by
      unfold binary
      split
      · next e => exact absurd e heq
      · next e => exact absurd e hne
      · rfl
    have result : ∃ t : Scalar, Resolve.resultType operator.kind lt rt = .scalar t := by
      unfold Resolve.resultType
      split
      case h_7 =>
        rcases Ty.numeric_cases hnl with rfl | rfl <;> rcases Ty.numeric_cases hnr with rfl | rfl
        · exact ⟨.int, rfl⟩
        all_goals exact ⟨.float, rfl⟩
      all_goals exact ⟨.bool, rfl⟩
    obtain ⟨t, ht⟩ := result
    refine ⟨t, ht, ?_⟩
    rw [hb]
    rcases Ty.numeric_cases hnl with rfl | rfl <;> rcases Ty.numeric_cases hnr with rfl | rfl
    all_goals exact yields_numbers hsl hsr rfl rfl hk heq hne ht
  exact results_of_yields (fun _ hu => holds_binary hu) yields

end Operator

end TickScript
