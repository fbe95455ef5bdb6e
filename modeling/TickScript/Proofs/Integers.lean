import Mathlib.Data.Int.Order.Basic
import TickScript.Proofs.Calculus

/-!
# Exact integers

An expression of integers is worked out as with integers of any size, or it fails. The operators
of such an expression are listed here in the order in which they work, each with the exact values
of its operands, and it is said of each by itself when it fails. The main statement is that
evaluation gives the exact value if none of them fails, and otherwise the error of the first that
does.
-/

namespace TickScript

/-! ## Exact arithmetic -/

/-- The operators that make an integer of two. -/
def integerOperators : List TokenKind :=
  [.plus, .minus, .star, .slash, .percent]

/-- An operator of an expression of integers, with the exact values of its operands. -/
inductive Calculation where
  | sign (operator : Token) (a : Int)
  | between (operator : Token) (a b : Int)

namespace Calculation

def line : Calculation → Nat
  | .sign operator _ => operator.line
  | .between operator _ _ => operator.line

/-- The exact result. A quotient is rounded toward zero, and a remainder has the sign of the
dividend. -/
def result : Calculation → Int
  | .sign _ a => -a
  | .between operator a b =>
    match operator.kind with
    | .plus => a + b
    | .minus => a - b
    | .star => a * b
    | .slash => a.tdiv b
    | .percent => a.tmod b
    | _ => 0

/-- Is it a quotient or a remainder by zero? -/
def dividesByZero : Calculation → Bool
  | .sign _ _ => false
  | .between operator _ b => (operator.kind = .slash || operator.kind = .percent) && b = 0

/-- Does the exact result lie outside of 64 bits? -/
def leavesRange (o : Calculation) : Bool :=
  !o.dividesByZero && !Number.fits o.result

/-- Is it the remainder of the least integer by -1? The quotient that goes with this remainder
does not fit. -/
def lacksQuotient : Calculation → Bool
  | .sign _ _ => false
  | .between operator a b =>
    operator.kind = .percent && a = -9223372036854775808 && b = -1

def overflows (o : Calculation) : Bool :=
  o.leavesRange || o.lacksQuotient

/-- Does the operator have no result? -/
def fails (o : Calculation) : Bool :=
  o.dividesByZero || o.overflows

/-- Why the operator fails, if it does. -/
def fault? (o : Calculation) : Option Fault :=
  if o.dividesByZero then some .divisionByZero
  else if o.overflows then some .integerOverflow
  else none

/-- The error of the operator, if it fails. -/
def error? (o : Calculation) : Option RuntimeError :=
  o.fault?.map (⟨o.line, ·⟩)

end Calculation

namespace Expr

/-- The expression is made up of integer literals, parentheses, minus signs and the operators on
integers. -/
inductive OfIntegers : Expr → Prop where
  | literal (id : ExprId) (n : Int64) (line : Nat) : OfIntegers (.literal id (.int n) line)
  | grouping {id : ExprId} {inner : Expr} (h : OfIntegers inner) : OfIntegers (.grouping id inner)
  | sign {id : ExprId} {operator : Token} {right : Expr} (kind : operator.kind = .minus)
      (h : OfIntegers right) : OfIntegers (.unary id operator right)
  | between {id : ExprId} {left : Expr} {operator : Token} {right : Expr}
      (kind : operator.kind ∈ integerOperators) (hl : OfIntegers left) (hr : OfIntegers right) :
      OfIntegers (.binary id left operator right)

/-- The exact value of an expression of integers. -/
def exact : Expr → Int
  | .literal _ (.int n) _ => n.toInt
  | .grouping _ inner => inner.exact
  | .unary _ operator right => (Calculation.sign operator right.exact).result
  | .binary _ left operator right =>
    (Calculation.between operator left.exact right.exact).result
  | _ => 0

/-- The operators of an expression of integers: those of the left operand, those of the right
operand, and then the one between them. -/
def calculations : Expr → List Calculation
  | .grouping _ inner => inner.calculations
  | .unary _ operator right => right.calculations ++ [.sign operator right.exact]
  | .binary _ left operator right =>
    left.calculations ++ right.calculations ++ [.between operator left.exact right.exact]
  | _ => []

end Expr

/-! ## One operator -/

namespace Number

theorem fits_iff {n : Int} :
    fits n = true ↔ -9223372036854775808 ≤ n ∧ n ≤ 9223372036854775807 := by
  simp [fits]

theorem fits_toInt (a : Int64) : fits a.toInt = true :=
  fits_iff.2 ⟨a.le_toInt, a.toInt_le⟩

theorem toInt_ofInt {n : Int} (h : fits n = true) : (Int64.ofInt n).toInt = n := by
  obtain ⟨lower, upper⟩ := fits_iff.1 h
  exact Int64.toInt_ofInt_of_le lower (by omega)

theorem fit_of_fits {n : Int} (h : fits n = true) : fit n = .ok (Int64.ofInt n) :=
  if_pos h

theorem fit_of_not_fits {n : Int} (h : fits n = false) : fit n = .error .overflow :=
  if_neg (by simp [h])

/-- Only one quotient of integers that fit does not. -/
theorem fits_tdiv {a b : Int} (ha : fits a = true) (hb : b ≠ 0) :
    fits (a.tdiv b) = false ↔ a = -9223372036854775808 ∧ b = -1 := by
  rw [Bool.eq_false_iff, ne_eq, fits_iff]
  rw [fits_iff] at ha
  by_cases down : b = -1
  · subst down
    rw [Int.tdiv_neg, Int.tdiv_one]
    omega
  · by_cases same : b = 1
    · subst same
      rw [Int.tdiv_one]
      omega
    · -- Any other divisor makes the quotient at most half as large.
      have half : (a.tdiv b).natAbs ≤ a.natAbs / 2 := by
        rw [Int.natAbs_tdiv]
        exact Nat.div_le_div_left (by omega) (by decide)
      omega

/-- A remainder lies between zero and the dividend. -/
theorem fits_tmod {a : Int} (ha : fits a = true) (b : Int) : fits (a.tmod b) = true := by
  rw [fits_iff] at ha ⊢
  have smaller : (a.tmod b).natAbs ≤ a.natAbs := by
    rw [Int.natAbs_tmod]
    exact Nat.mod_le _ _
  rcases Int.le_total 0 a with h | h
  · have := Int.tmod_nonneg b h
    omega
  · have := Int.tmod_nonneg b (Int.neg_nonneg_of_nonpos h)
    rw [Int.neg_tmod] at this
    omega

end Number

namespace Calculation

/-- An operator that does not fail has a result that fits. -/
theorem fits_result {o : Calculation} (h : o.fault? = none) : Number.fits o.result = true := by
  unfold fault? overflows leavesRange at h
  grind

theorem error?_eq_none {o : Calculation} : o.error? = none ↔ o.fails = false := by
  unfold error? fault? fails
  grind

/-- A quotient by zero does not count as one that is too large. -/
theorem overflows_of_dividesByZero {o : Calculation} (h : o.dividesByZero = true) :
    o.overflows = false := by
  have quotient : o.lacksQuotient = false := by
    cases o with
    | sign operator a => rfl
    | between operator a b =>
      obtain ⟨-, rfl⟩ : _ ∧ b = 0 := by simpa [dividesByZero] using h
      simp [lacksQuotient]
  simp [overflows, leavesRange, h, quotient]

theorem message_divisionByZero (line : Nat) :
    RuntimeError.message ⟨line, .divisionByZero⟩ = "Division by zero." := rfl

theorem message_integerOverflow (line : Nat) :
    RuntimeError.message ⟨line, .integerOverflow⟩ = "Integer overflow." := rfl

/-- The text of an error tells which of the two reasons there is. -/
theorem error?_of_fails {o : Calculation} (h : o.fails = true) :
    ∃ error, o.error? = some error ∧ error.line = o.line ∧
      (error.message = "Division by zero." ↔ o.dividesByZero = true) ∧
      (error.message = "Integer overflow." ↔ o.overflows = true) := by
  have apart : ("Division by zero." : String) ≠ "Integer overflow." := by decide
  cases divides : o.dividesByZero with
  | true =>
    have here : o.error? = some ⟨o.line, .divisionByZero⟩ := by simp [error?, fault?, divides]
    rw [overflows_of_dividesByZero divides]
    refine ⟨_, here, rfl, ?_⟩
    rw [message_divisionByZero]
    simp [apart]
  | false =>
    have overflow : o.overflows = true := by simpa [fails, divides] using h
    have here : o.error? = some ⟨o.line, .integerOverflow⟩ := by
      simp [error?, fault?, divides, overflow]
    rw [overflow]
    refine ⟨_, here, rfl, ?_⟩
    rw [message_integerOverflow]
    simp [apart.symm]

/-- The integer that an operator gives, or why it gives none. -/
def outcome (o : Calculation) : Except Fault Value :=
  match o.fault? with
  | some fault => .error fault
  | none => .ok (.int (Int64.ofInt o.result))

/-- An operator whose result is only checked for its size. -/
theorem outcome_fit {o : Calculation} (divides : o.dividesByZero = false)
    (quotient : o.lacksQuotient = false) :
    Operator.ofChecked (Number.fit o.result) = o.outcome := by
  unfold outcome fault? overflows leavesRange
  rw [divides, quotient]
  cases h : Number.fits o.result with
  | true => rw [Number.fit_of_fits h]; rfl
  | false => rw [Number.fit_of_not_fits h]; rfl

theorem unary_eq {operator : Token} (hk : operator.kind = .minus) (n : Int64) :
    Operator.unary operator (.int n) = (sign operator n.toInt).outcome := by
  have checked : Operator.unary operator (.int n) = Operator.ofChecked (Number.neg n) := by
    unfold Operator.unary
    rw [hk]
  rw [checked]
  exact outcome_fit (o := sign operator n.toInt) rfl rfl

theorem toInt_eq_zero {b : Int64} : b.toInt = 0 ↔ b = 0 := by
  rw [← Int64.toInt_inj, Int64.toInt_zero]

theorem quotient_eq {operator : Token} (hk : operator.kind = .slash) (a b : Int64) :
    Operator.ofChecked (Number.div a b) = (between operator a.toInt b.toInt).outcome := by
  by_cases hb : b = 0
  · subst hb
    simp [Number.div, outcome, fault?, dividesByZero, hk, Operator.ofChecked,
      ArithmeticError.fault]
  · have nonzero : ¬ b.toInt = 0 := fun e => hb (toInt_eq_zero.1 e)
    rw [← outcome_fit (by simp [dividesByZero, nonzero]) (by simp [lacksQuotient, hk])]
    simp [Number.div, hb, result, hk]

/-- A remainder is refused where its quotient is, and otherwise it fits. -/
theorem remainder_eq {operator : Token} (hk : operator.kind = .percent) (a b : Int64) :
    Operator.ofChecked (Number.rem a b) = (between operator a.toInt b.toInt).outcome := by
  by_cases hb : b = 0
  · subst hb
    simp [Number.rem, Number.div, outcome, fault?, dividesByZero, hk, Operator.ofChecked,
      ArithmeticError.fault]
  · have nonzero : ¬ b.toInt = 0 := fun e => hb (toInt_eq_zero.1 e)
    have size := Number.fits_tmod (Number.fits_toInt a) b.toInt
    have quotient := Number.fits_tdiv (Number.fits_toInt a) nonzero
    unfold Number.rem Number.div
    rw [if_neg hb]
    cases h : Number.fits (a.toInt.tdiv b.toInt) with
    | true =>
      rw [Number.fit_of_fits h]
      rw [← outcome_fit (by simp [dividesByZero, nonzero]) ?_]
      · simp [result, hk]
      · rw [h] at quotient
        simpa [lacksQuotient, hk] using quotient
    | false =>
      obtain ⟨least, down⟩ := quotient.1 h
      rw [Number.fit_of_not_fits h]
      simp [outcome, fault?, dividesByZero, overflows, leavesRange, lacksQuotient, hk, least, down,
        Operator.ofChecked, ArithmeticError.fault]

theorem integers_eq {operator : Token} (hk : operator.kind ∈ integerOperators) (a b : Int64) :
    Operator.integers operator a b = (between operator a.toInt b.toInt).outcome := by
  simp only [integerOperators, List.mem_cons, List.not_mem_nil, or_false] at hk
  unfold Operator.integers
  rcases hk with hk | hk | hk | hk | hk
  · rw [hk, ← outcome_fit (by simp [dividesByZero, hk]) (by simp [lacksQuotient, hk])]
    simp [Number.add, result, hk]
  · rw [hk, ← outcome_fit (by simp [dividesByZero, hk]) (by simp [lacksQuotient, hk])]
    simp [Number.sub, result, hk]
  · rw [hk, ← outcome_fit (by simp [dividesByZero, hk]) (by simp [lacksQuotient, hk])]
    simp [Number.mul, result, hk]
  · rw [hk]
    exact quotient_eq hk a b
  · rw [hk]
    exact remainder_eq hk a b

theorem binary_eq {operator : Token} (hk : operator.kind ∈ integerOperators) (s : Store)
    (a b : Int64) :
    Operator.binary s operator (.int a) (.int b) =
      (between operator a.toInt b.toInt).outcome := by
  rw [← integers_eq hk]
  unfold Operator.binary
  split
  · next h => exact absurd (h ▸ hk) (by decide)
  · next h => exact absurd (h ▸ hk) (by decide)
  · rfl

end Calculation

/-! ## Expressions -/

section Evaluation

variable {ω : Type} {act : Eval ω Value} {run : Run ω}

/-- The error of the first operator that fails. -/
def Expr.firstError? (e : Expr) : Option RuntimeError :=
  e.calculations.findSome? Calculation.error?

/-- The run leaves everything as it is and ends with the exact value of the expression if none of
its operators fails, and otherwise with the error of the first that does. -/
def Expr.Exactly (e : Expr) (run : Run ω) (act : Eval ω Value) : Prop :=
  act.Ends run
    (fun v r => r = run ∧ e.firstError? = none ∧ ∃ n : Int64, v = .int n ∧ n.toInt = e.exact)
    (fun i r => r = run ∧ ∃ error, e.firstError? = some error ∧ i = .error error)

/-- The last operator works once no operator before it has failed. -/
theorem Expr.exactly_last {e : Expr} {before : List Calculation} {o : Calculation}
    {work : Store → Except Fault Value} (all : e.calculations = before ++ [o])
    (value : e.exact = o.result) (clean : before.findSome? Calculation.error? = none)
    (works : ∀ s, work s = o.outcome) :
    e.Exactly run (Eval.demand fun s => (work s).mapError (⟨o.line, ·⟩)) := by
  have first : e.firstError? = o.error? := by
    rw [firstError?, all, List.findSome?_append, clean]
    simp
  refine (Eval.ends_demand _).2 ?_
  rw [works, first, Calculation.outcome, Calculation.error?]
  cases h : o.fault? with
  | none =>
    refine ⟨rfl, rfl, _, rfl, ?_⟩
    rw [value]
    exact Number.toInt_ofInt (Calculation.fits_result h)
  | some fault => exact ⟨rfl, _, rfl, rfl⟩

/-- An operator does not work if one before it has failed. -/
theorem Expr.firstError?_append {e : Expr} {before after : List Calculation} {error : RuntimeError}
    (all : e.calculations = before ++ after)
    (failed : before.findSome? Calculation.error? = some error) : e.firstError? = some error := by
  rw [firstError?, all, List.findSome?_append, failed]
  rfl

/-- Expressions of integers are worked out exactly. Operands come first, so the errors of their
operators win. -/
theorem Expr.OfIntegers.exactly {e : Expr} (h : e.OfIntegers) (setting : Setting ω)
    (apply : Apply ω) (scope : ScopeId) (run : Run ω) :
    e.Exactly run (Eval.expr setting apply scope e) := by
  induction h with
  | literal id n line =>
    rw [Eval.expr]
    exact (Eval.ends_pure _).2 ⟨rfl, rfl, n, rfl, rfl⟩
  | grouping _ ih =>
    rw [Eval.expr]
    exact ih
  | @sign id operator right kind _ ih =>
    rw [Eval.expr]
    refine Eval.ends_bind.2 (ih.mono ?_ ?_)
    · rintro v r ⟨rfl, clean, n, rfl, hn⟩
      refine exactly_last (o := .sign operator right.exact) rfl rfl clean fun s => ?_
      rw [Calculation.unary_eq kind, hn]
    · rintro i r ⟨rfl, error, failed, rfl⟩
      exact ⟨rfl, error, firstError?_append rfl failed, rfl⟩
  | @between id left operator right kind _ _ ihl ihr =>
    rw [Eval.expr]
    refine Eval.ends_bind.2 (ihl.mono ?_ ?_)
    · rintro v r ⟨rfl, clean, n, rfl, hn⟩
      have skipped : (left.calculations ++ right.calculations).findSome? Calculation.error? =
          right.firstError? := by
        rw [List.findSome?_append, show left.calculations.findSome? _ = none from clean]
        rfl
      refine Eval.ends_bind.2 (ihr.mono ?_ ?_)
      · rintro v r ⟨rfl, clean', m, rfl, hm⟩
        refine exactly_last (o := .between operator left.exact right.exact) rfl rfl
          (skipped.trans clean') fun s => ?_
        rw [Calculation.binary_eq kind, hn, hm]
      · rintro i r ⟨rfl, error, failed, rfl⟩
        exact ⟨rfl, error, firstError?_append rfl (skipped.trans failed), rfl⟩
    · rintro i r ⟨rfl, error, failed, rfl⟩
      exact ⟨rfl, error, firstError?_append (List.append_assoc _ _ _) failed, rfl⟩

end Evaluation

/-- Integer expressions compute exactly or fail. If none of the operators of an expression of
integers fails then its value is the exact one. Otherwise the error is that of the first operator
that fails, where the operators of both operands come before the one between them: a division by
zero exactly if this is what the operator is to do, and an overflow exactly if its exact result
needs more than 64 bits or it is the remainder whose quotient does. -/
theorem integers_exact {ω : Type} {e : Expr} (h : e.OfIntegers) (setting : Setting ω)
    (apply : Apply ω) (scope : ScopeId) (run : Run ω) :
    ((∀ o ∈ e.calculations, o.fails = false) →
      ∃ n : Int64, Eval.expr setting apply scope e run = .ok (.int n) run ∧ n.toInt = e.exact) ∧
    ∀ before o after, e.calculations = before ++ o :: after →
      (∀ p ∈ before, p.fails = false) → o.fails = true →
      ∃ error, Eval.expr setting apply scope e run = .error (.error error) run ∧
        error.line = o.line ∧
        (error.message = "Division by zero." ↔ o.dividesByZero = true) ∧
        (error.message = "Integer overflow." ↔ o.overflows = true) := by
  have exactly := h.exactly setting apply scope run
  have clean : ∀ {os : List Calculation}, (∀ o ∈ os, o.fails = false) →
      os.findSome? Calculation.error? = none := fun hos =>
    List.findSome?_eq_none_iff.2 fun o ho => Calculation.error?_eq_none.2 (hos o ho)
  constructor
  · intro fine
    cases ends : Eval.expr setting apply scope e run with
    | ok v r =>
      obtain ⟨rfl, -, n, rfl, hn⟩ := exactly.of_ok ends
      exact ⟨n, rfl, hn⟩
    | error i r =>
      obtain ⟨-, error, failed, -⟩ := exactly.of_error ends
      rw [Expr.firstError?, clean fine] at failed
      cases failed
  · intro before o after all fine fails
    obtain ⟨error, herror, tells⟩ := Calculation.error?_of_fails fails
    have first : e.firstError? = some error := by
      rw [Expr.firstError?, all, List.findSome?_append, clean fine, List.findSome?_cons, herror]
      rfl
    cases ends : Eval.expr setting apply scope e run with
    | ok v r =>
      obtain ⟨-, none, -⟩ := exactly.of_ok ends
      rw [first] at none
      cases none
    | error i r =>
      obtain ⟨rfl, error', failed, rfl⟩ := exactly.of_error ends
      rw [first] at failed
      cases failed
      exact ⟨error, rfl, tells⟩

/-- `1 / 0 + (9223372036854775807 + 1)`, with the division on the second line. -/
def twoFailures : Expr :=
  .binary 6
    (.binary 2 (.literal 0 (.int 1) 1) { kind := .slash, lexeme := "/", line := 2, offset := 2 }
      (.literal 1 (.int 0) 2))
    { kind := .plus, lexeme := "+", line := 3, offset := 6 }
    (.grouping 5
      (.binary 4 (.literal 2 (.int 9223372036854775807) 4)
        { kind := .plus, lexeme := "+", line := 4, offset := 29 } (.literal 3 (.int 1) 4)))

/-- The machine in which the expressions below are evaluated. -/
def bareMachine : Machine Unit :=
  .start Host.empty .empty ()

/-- Both operands fail, and the left one decides. -/
theorem integers_exact_two_failures :
    twoFailures.OfIntegers ∧
    (∃ o after, twoFailures.calculations = [] ++ o :: after ∧ o.fails = true ∧
      ∃ p ∈ after, p.fails = true) ∧
    ∃ error, Eval.expr (bareMachine.setting Host.empty)
        (Eval.call (bareMachine.setting Host.empty) 1) bareMachine.globals twoFailures
        bareMachine.begin = .error (.error error) bareMachine.begin ∧
      error.line = 2 ∧ error.message = "Division by zero." := by
  have integers : twoFailures.OfIntegers :=
    .between (by decide) (.between (by decide) (.literal ..) (.literal ..))
      (.grouping (.between (by decide) (.literal ..) (.literal ..)))
  have first : ∃ o after, twoFailures.calculations = [] ++ o :: after ∧
      (o.fails = true ∧ o.line = 2 ∧ o.dividesByZero = true) ∧ ∃ p ∈ after, p.fails = true :=
    ⟨_, _, rfl, by decide, _, List.mem_cons_self, by decide⟩
  obtain ⟨o, after, all, ⟨fails, line, divides⟩, second⟩ := first
  obtain ⟨error, ends, hline, hzero, -⟩ := (integers_exact integers _ _ _ _).2 [] o after all
    (fun p hp => absurd hp List.not_mem_nil) fails
  exact ⟨integers, ⟨o, after, all, fails, second⟩, error, ends, hline.trans line, hzero.2 divides⟩

/-- The remainder of the least integer by -1. -/
def leastByMinusOne : Expr :=
  .binary 2 (.literal 0 (.int (-9223372036854775808)) 1)
    { kind := .percent, lexeme := "%", line := 1, offset := 21 } (.literal 1 (.int (-1)) 1)

/-- An overflow is raised where the exact result of the only operator is zero. -/
theorem remainder_in_range_overflows :
    leastByMinusOne.OfIntegers ∧
    (∀ o ∈ leastByMinusOne.calculations, o.dividesByZero = false ∧ Number.fits o.result = true) ∧
    leastByMinusOne.exact = 0 ∧
    (bareMachine.evaluate Host.empty 1 leastByMinusOne).1 =
      .error (.error ⟨1, .integerOverflow⟩) :=
  ⟨.between (by decide) (.literal ..) (.literal ..), by decide, by decide, rfl⟩

end TickScript
