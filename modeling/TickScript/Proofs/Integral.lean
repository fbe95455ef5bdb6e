import Mathlib
import TickScript.Store.Scope
import TickScript.Proofs.Fractions

/-!
# Doubles that are integers

A double stands for an integer, in a variable or as an index, if it is an integer of 64 bits. In
doubles this is decided by a comparison of its size with the greatest integer, which as a double is
two to the power of 63 (`Number.isSome_integral?`). The main statement is that the conversion is
exact for all doubles but one: the least integer has just the size of the bound, and it is refused.
-/

namespace TickScript

namespace Binary

variable {b : Binary}

/-- The number is an integer if its value is one. -/
theorem integer?_eq_some {n : Int} : b.integer? = some n ↔ b.value = n := by
  have whole (k : Int) : (∃ m : Nat, b.magnitude? = some m ∧ (m : Int) = k) ↔ b.size = k := by
    constructor
    · rintro ⟨m, magnitude, rfl⟩
      exact magnitude?_eq_some.1 magnitude
    · intro h
      obtain ⟨m, rfl⟩ := Int.eq_ofNat_of_zero_le (Int.cast_nonneg_iff.1 (h ▸ b.size_nonneg))
      exact ⟨m, magnitude?_eq_some.2 h, rfl⟩
  -- The magnitude is an integer already when it is given its sign.
  have signed : b.integer? =
      b.magnitude?.map fun m : Nat => if b.negative then -(m : Int) else m := by
    unfold integer?
    cases b.magnitude? <;> rfl
  rw [signed, Option.map_eq_some_iff, value]
  cases b.negative with
  | false => exact whole n
  | true =>
    have opposite := whole (-n)
    rw [Int.cast_neg] at opposite
    simp only [if_true, neg_eq_iff_eq_neg]
    exact opposite

end Binary

namespace Number

variable {x : Float}

theorem integer?_eq_some {k : Int} :
    (Binary.ofFloat? x).bind Binary.integer? = some k ↔ rational? x = some (k : ℚ) := by
  rw [Option.bind_eq_some_iff, rational?_eq_some]
  simp only [Binary.integer?_eq_some]

theorem toInt_ofInt_of_natAbs {k : Int} (h : k.natAbs < signWeight) :
    (Int64.ofInt k).toInt = k := by
  simp only [signWeight] at h
  exact Int64.toInt_ofInt_of_le (by omega) (by omega)

/-- A double is converted to the integer that it is, if the magnitude is below the bound. -/
theorem integral?_eq_some {n : Int64} :
    integral? x = some n ↔ rational? x = some (n.toInt : ℚ) ∧ n.toInt.natAbs < signWeight := by
  unfold integral?
  constructor
  · intro h
    split at h
    · next k whole =>
      split at h
      · next small =>
        cases h
        rw [toInt_ofInt_of_natAbs small]
        exact ⟨integer?_eq_some.1 whole, small⟩
      · cases h
    · cases h
  · rintro ⟨whole, small⟩
    rw [integer?_eq_some.2 whole]
    dsimp only
    rw [if_pos small, Int64.ofInt_toInt]

/-- The least integer as a double. -/
theorem rational?_least : rational? (ofInt Int64.minValue) = some (Int64.minValue.toInt : ℚ) :=
  integer?_eq_some.1 (by decide)

theorem natAbs_lt_of_ne {n : Int64} (h : n ≠ Int64.minValue) : n.toInt.natAbs < signWeight := by
  have lower := n.le_toInt
  have upper := n.toInt_lt
  rw [Ne, ← Int64.toInt_inj, Int64.toInt_minValue] at h
  simp only [signWeight]
  omega

/-- All other doubles that are integers of 64 bits are converted. -/
theorem integral?_eq_some_of_ne (other : x ≠ ofInt Int64.minValue) {n : Int64} :
    integral? x = some n ↔ rational? x = some (n.toInt : ℚ) := by
  rw [integral?_eq_some, and_iff_left_iff_imp]
  intro whole
  refine natAbs_lt_of_ne ?_
  rintro rfl
  -- No other double is the least integer, since only the zeros are two doubles of one number.
  rcases (same_of_rational? whole rational?_least).eq_or_zeros with same | ⟨-, zero⟩
  · exact other same
  · exact absurd zero (by decide)

/-- The fractions that are integers of 64 bits. -/
theorem exists_int64_iff {q : ℚ} : (∃ n : Int64, q = n.toInt) ↔
    (∃ k : Int, q = k) ∧ -signWeight ≤ q ∧ q < signWeight := by
  constructor
  · rintro ⟨n, rfl⟩
    have lower := n.le_toInt
    have upper := n.toInt_lt
    exact ⟨⟨_, rfl⟩, by exact_mod_cast lower, by exact_mod_cast upper⟩
  · rintro ⟨⟨k, rfl⟩, lower, upper⟩
    have lower' : -(signWeight : Int) ≤ k := by exact_mod_cast lower
    have upper' : k < (signWeight : Int) := by exact_mod_cast upper
    exact ⟨Int64.ofInt k, by rw [Int64.toInt_ofInt_of_le lower' upper']⟩

/-- The other doubles that are not converted are infinite, no number, no integer or out of range. -/
theorem integral?_eq_none_of_ne (other : x ≠ ofInt Int64.minValue) : integral? x = none ↔
    x.isNaN = true ∨ x.isInf = true ∨ ∃ q, rational? x = some q ∧
      ((∀ k : Int, q ≠ k) ∨ q < -signWeight ∨ signWeight ≤ q) := by
  rw [Option.eq_none_iff_forall_ne_some]
  simp only [ne_eq, integral?_eq_some_of_ne other]
  cases h : rational? x with
  | none =>
    rcases rational?_eq_none.1 h with nan | infinite
    · exact iff_of_true nofun (.inl nan)
    · exact iff_of_true nofun (.inr (.inl infinite))
  | some q =>
    have finite : ¬ (x.isNaN = true ∨ x.isInf = true) := by
      rw [← rational?_eq_none, h]
      nofun
    obtain ⟨number, bounded⟩ := not_or.1 finite
    have outside := not_congr (@exists_int64_iff q)
    rw [not_exists, not_and_or, not_and_or, not_exists, not_le, not_lt] at outside
    rw [or_iff_right number, or_iff_right bounded]
    simp only [Option.some_inj, exists_eq_left']
    exact outside

/-- The greatest integer as a double is two to the power of 63. -/
theorem rational?_greatest : rational? (ofInt Int64.maxValue) = some (signWeight : ℚ) :=
  integer?_eq_some.1 (by decide)

/-- The test in doubles: an integer is converted if, without its sign, it is less than the greatest
integer as a double. -/
theorem isSome_integral? : (integral? x).isSome = true ↔
    (∃ k : Int, rational? x = some (k : ℚ)) ∧ x.abs < ofInt Int64.maxValue := by
  -- The bound is compared without its sign as well, which it does not have.
  have unsigned : (ofInt Int64.maxValue).abs = ofInt Int64.maxValue := by decide
  have below (k : Int) : |(k : ℚ)| < |(signWeight : ℚ)| ↔ k.natAbs < signWeight := by
    rw [Nat.abs_cast, ← Int.cast_abs, Int.abs_eq_natAbs, Int.cast_natCast, Nat.cast_lt]
  rw [← unsigned, abs_lt_abs_iff rational?_greatest, Option.isSome_iff_exists]
  simp only [integral?_eq_some]
  constructor
  · rintro ⟨n, whole, small⟩
    exact ⟨⟨_, whole⟩, _, whole, (below _).2 small⟩
  · rintro ⟨⟨k, whole⟩, q, same, small⟩
    rw [whole, Option.some_inj] at same
    rw [← same, below] at small
    refine ⟨Int64.ofInt k, ?_⟩
    rw [toInt_ofInt_of_natAbs small]
    exact ⟨whole, small⟩

/-- Natural numbers below the bound are converted. -/
theorem exists_integral?_iff {i : Nat} (h : i < signWeight) :
    (∃ n : Int64, n.toInt = i ∧ integral? x = some n) ↔ rational? x = some (i : ℚ) := by
  constructor
  · rintro ⟨n, same, converted⟩
    have whole := (integral?_eq_some.1 converted).1
    rwa [same, Int.cast_natCast] at whole
  · intro whole
    have same : (Int64.ofInt i).toInt = i := toInt_ofInt_of_natAbs h
    refine ⟨Int64.ofInt i, same, integral?_eq_some.2 ?_⟩
    rw [same]
    exact ⟨whole, h⟩

end Number

namespace Store

variable {x : Float}

/-- A double fits an integer variable if it is converted, and the store stays as it is. -/
theorem coerce_int_float {s t : Store} {w : Value} : coerce .int (.float x) s = .ok w t ↔
    t = s ∧ ∃ n, w = .int n ∧ Number.integral? x = some n := by
  unfold coerce
  dsimp only
  rw [Value.convert_float_int]
  cases Number.integral? x with
  | none => simp
  | some n =>
    dsimp only
    constructor
    · intro h
      cases h
      exact ⟨rfl, n, rfl, rfl⟩
    · rintro ⟨rfl, m, rfl, same⟩
      cases same
      rfl

/-- The slot is the integer that an index is, if the array has it. -/
theorem slot_float {size i : Nat} : slot size (.float x) = .ok i ↔
    i < size ∧ ∃ n : Int64, n.toInt = i ∧ Number.integral? x = some n := by
  have number : (Value.float x).integral? = Number.integral? x := rfl
  rw [slot, number]
  cases Number.integral? x with
  | none => simp
  | some n =>
    dsimp only
    constructor
    · intro h
      split at h
      · next inside =>
        cases h
        exact ⟨by omega, n, by omega, rfl⟩
      · cases h
    · rintro ⟨small, m, same, known⟩
      cases known
      rw [if_pos (by omega), same, Int.toNat_natCast]

end Store

/-- Doubles become integers exactly. A double is converted if it is an integer and, without its
sign, less than the greatest integer as a double. The least integer apart, the result is the integer
that the double is, there is none for a NaN, an infinity, a proper fraction and a number out of
range, and an integer variable takes the doubles that have a result. As an index a double means the
slot that it is, if the array has this slot; no array has more slots than two to the power of 63. -/
theorem doubles_as_integers (x : Float) :
    ((Value.float x).integral?.isSome = true ↔
      (∃ k : Int, Number.rational? x = some (k : ℚ)) ∧ x.abs < Number.ofInt Int64.maxValue) ∧
    (x ≠ Number.ofInt Int64.minValue →
      (∀ n : Int64, (Value.float x).integral? = some n ↔
        Number.rational? x = some (n.toInt : ℚ)) ∧
      ((Value.float x).integral? = none ↔ x.isNaN = true ∨ x.isInf = true ∨
        ∃ q, Number.rational? x = some q ∧
          ((∀ k : Int, q ≠ k) ∨ q < -signWeight ∨ signWeight ≤ q)) ∧
      ∀ (s t : Store) (w : Value), Store.coerce .int (.float x) s = .ok w t ↔
        t = s ∧ ∃ n : Int64, w = .int n ∧ Number.rational? x = some (n.toInt : ℚ)) ∧
    ∀ size ≤ signWeight, ∀ i : Nat, Store.slot size (.float x) = .ok i ↔
      i < size ∧ Number.rational? x = some (i : ℚ) := by
  refine ⟨Number.isSome_integral?, fun other => ?_, fun size bounded i => ?_⟩
  · refine ⟨fun n => Number.integral?_eq_some_of_ne other, Number.integral?_eq_none_of_ne other,
      fun s t w => ?_⟩
    rw [Store.coerce_int_float]
    simp only [Number.integral?_eq_some_of_ne other]
  · rw [Store.slot_float]
    exact and_congr_right fun inside => Number.exists_integral?_iff (inside.trans_le bounded)

/-- The next double to the least integer, two to the power of 63, and zero with a minus sign. -/
theorem doubles_as_integers_boundary :
    ((-9223372036854774784.0 : Float) ≠ Number.ofInt Int64.minValue ∧
      (Value.float (-9223372036854774784.0)).integral? = some (-9223372036854774784) ∧
      Store.coerce .int (.float (-9223372036854774784.0)) .empty =
        .ok (.int (-9223372036854774784)) .empty) ∧
    ((9223372036854775808.0 : Float) ≠ Number.ofInt Int64.minValue ∧
      (Value.float 9223372036854775808.0).integral? = none) ∧
    1 ≤ signWeight ∧ Store.slot 1 (.float (-0.0)) = .ok 0 := by
  have next : Number.rational? (-9223372036854774784.0) =
      some (((-9223372036854774784 : Int64).toInt : Int) : ℚ) :=
    Number.integer?_eq_some.1 (by decide)
  have beyond : Number.rational? 9223372036854775808.0 = some ((9223372036854775808 : Int) : ℚ) :=
    Number.integer?_eq_some.1 (by decide)
  have zero : Number.rational? (-0.0) = some ((0 : Int) : ℚ) :=
    Number.integer?_eq_some.1 (by decide +kernel)
  obtain ⟨-, converted, -⟩ := doubles_as_integers (-9223372036854774784.0)
  obtain ⟨result, -, taken⟩ := converted (by decide)
  obtain ⟨-, refused, -⟩ := doubles_as_integers 9223372036854775808.0
  obtain ⟨-, none, -⟩ := refused (by decide)
  refine ⟨⟨by decide, (result _).2 next, (taken _ _ _).2 ⟨rfl, _, rfl, next⟩⟩,
    ⟨by decide, none.2 (.inr (.inr ⟨_, beyond, .inr (.inr ?_)⟩))⟩, by decide,
    ((doubles_as_integers (-0.0)).2.2 1 (by decide) 0).2 ⟨by decide, ?_⟩⟩
  · norm_num
  · simpa using zero

/-- The least integer is a double and is not converted. Without its sign it is no less than the
greatest integer as a double. -/
theorem least_integer_refused :
    Number.ofInt Int64.minValue = -9223372036854775808.0 ∧
    Number.rational? (Number.ofInt Int64.minValue) = some (Int64.minValue.toInt : ℚ) ∧
    (Value.float (Number.ofInt Int64.minValue)).integral? = none ∧
    Store.coerce .int (.float (Number.ofInt Int64.minValue)) .empty =
      .error (.notIntegral (Number.ofInt Int64.minValue)) .empty ∧
    (Number.ofInt Int64.minValue).abs = Number.ofInt Int64.maxValue :=
  ⟨by decide, Number.rational?_least, by decide, rfl, by decide⟩

end TickScript
