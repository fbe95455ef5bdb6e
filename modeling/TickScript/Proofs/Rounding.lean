import Mathlib
import TickScript.Number.Shortest
import TickScript.Proofs.Doubles

/-!
# Decimals that round to a double

The digits of a double are those of a decimal in its interval, the numbers that round to it. Two
facts make a double known from them. The search for digits comes to grids that are fine enough
(`Shortest.digits_mem`), and the intervals of two doubles have no number in common, since of two
neighbours only one has an even significand and so the end between them
(`Shortest.interval_unique`).
-/

namespace TickScript

/-- The value of a decimal. -/
def Decimal.value (d : Decimal) : ℚ :=
  d.digits * 10 ^ d.exponent

theorem Decimal.value_trim (steps : Nat) : ∀ d : Decimal, (trim steps d).value = d.value := by
  induction steps with
  | zero => exact fun d => rfl
  | succ steps ih =>
    intro d
    rw [trim]
    split
    · next h =>
      have whole : 10 * (d.digits / 10) = d.digits :=
        Nat.mul_div_cancel' (Nat.dvd_of_mod_eq_zero h.2)
      rw [ih, value, value, zpow_add₀ (by norm_num)]
      rw [← whole]
      push_cast
      rw [Nat.mul_div_cancel_left _ (by norm_num)]
      ring
    · rfl

namespace Shortest

/-! ## Powers -/

theorem zpow_parts {a : ℚ} (e : ℤ) : a ^ e = a ^ e.toNat / a ^ (-e).toNat := by
  cases e with
  | ofNat k => simp
  | negSucc k => simp [zpow_negSucc]

theorem cast_tenTo (k : Nat) : ((tenTo k : Nat) : ℚ) = 10 ^ k := by
  have : tenTo k = 10 ^ k := rfl
  rw [this]
  push_cast
  rfl

theorem cast_twoTo (k : Nat) : ((twoTo k : Nat) : ℚ) = 2 ^ k := by
  have : twoTo k = 2 ^ k := rfl
  rw [this]
  push_cast
  rfl

/-! ## The search -/

namespace Interval

variable {i : Interval}

def left (i : Interval) : ℚ := i.low / i.scale

def middle (i : Interval) : ℚ := i.value / i.scale

def right (i : Interval) : ℚ := i.high / i.scale

/-- The number lies in the interval. -/
def Mem (i : Interval) (x : ℚ) : Prop :=
  if i.closed then i.left ≤ x ∧ x ≤ i.right else i.left < x ∧ x < i.right

theorem Mem.bounds {x : ℚ} (h : i.Mem x) : i.left ≤ x ∧ x ≤ i.right := by
  unfold Mem at h
  split at h
  · exact h
  · exact ⟨h.1.le, h.2.le⟩

theorem mem_of_lt {x : ℚ} (left : i.left < x) (right : x < i.right) : i.Mem x := by
  unfold Mem
  split
  · exact ⟨left.le, right.le⟩
  · exact ⟨left, right⟩

/-- A decimal is compared with an end of the interval without fractions. -/
theorem holds_iff (scale : 0 < i.scale) (n : Nat) (e : ℤ) :
    i.holds n e = true ↔ i.Mem (n * 10 ^ e) := by
  have positive : (0 : ℚ) < i.scale := by exact_mod_cast scale
  have power : (0 : ℚ) < 10 ^ (-e).toNat := by positivity
  have decimal : (n : ℚ) * 10 ^ e = n * 10 ^ e.toNat / 10 ^ (-e).toNat := by
    rw [zpow_parts, mul_div_assoc]
  have low_le : i.low * tenTo (-e).toNat ≤ n * tenTo e.toNat * i.scale ↔
      i.left ≤ n * 10 ^ e := by
    rw [decimal, left, div_le_div_iff₀ positive power, ← cast_tenTo, ← cast_tenTo]
    exact_mod_cast Iff.rfl
  have le_high : n * tenTo e.toNat * i.scale ≤ i.high * tenTo (-e).toNat ↔
      n * 10 ^ e ≤ i.right := by
    rw [decimal, right, div_le_div_iff₀ power positive, ← cast_tenTo, ← cast_tenTo]
    exact_mod_cast Iff.rfl
  have low_lt : i.low * tenTo (-e).toNat < n * tenTo e.toNat * i.scale ↔
      i.left < n * 10 ^ e := by
    rw [decimal, left, div_lt_div_iff₀ positive power, ← cast_tenTo, ← cast_tenTo]
    exact_mod_cast Iff.rfl
  have lt_high : n * tenTo e.toNat * i.scale < i.high * tenTo (-e).toNat ↔
      n * 10 ^ e < i.right := by
    rw [decimal, right, div_lt_div_iff₀ power positive, ← cast_tenTo, ← cast_tenTo]
    exact_mod_cast Iff.rfl
  unfold holds Mem
  dsimp only
  split
  · rw [decide_eq_true_eq, low_le, le_high]
  · rw [decide_eq_true_eq, low_lt, lt_high]

theorem nearest_or (tie : Tie) (n rest whole : Nat) :
    tie.nearest n rest whole = n ∨ tie.nearest n rest whole = n + 1 := by
  unfold Tie.nearest
  split
  · exact .inl rfl
  · split
    · exact .inr rfl
    · split
      · exact .inr rfl
      · split
        · exact .inl rfl
        · exact .inr rfl

theorem onGrid_mem (scale : 0 < i.scale) {tie : Tie} {e : ℤ} {n : Nat}
    (h : i.onGrid tie e = some n) : i.Mem (n * 10 ^ e) := by
  rw [← holds_iff scale]
  unfold onGrid at h
  dsimp only at h
  split at h
  · next below above =>
    cases h
    rcases nearest_or tie _ _ _ with e | e <;> rw [e] <;> assumption
  · next below _ =>
    cases h
    exact below
  · next _ above =>
    cases h
    exact above
  · cases h

/-- A grid has a decimal in the interval if it is as fine as the lower half of the interval. -/
theorem onGrid_ne_none (scale : 0 < i.scale) (right : i.middle < i.right) {e : ℤ}
    (fine : 10 ^ e ≤ i.middle - i.left) (tie : Tie) : i.onGrid tie e ≠ none := by
  have positive : (0 : ℚ) < i.scale := by exact_mod_cast scale
  have power : (0 : ℚ) < 10 ^ (-e).toNat := by positivity
  set below := i.value * tenTo (-e).toNat / (i.scale * tenTo e.toNat) with hbelow
  have denominator : 0 < i.scale * tenTo e.toNat := Nat.mul_pos scale (Nat.pow_pos (by decide))
  have le : (below : ℚ) * 10 ^ e ≤ i.middle := by
    have := Nat.div_mul_le_self (i.value * tenTo (-e).toNat) (i.scale * tenTo e.toNat)
    rw [zpow_parts, ← mul_div_assoc, middle, div_le_div_iff₀ power positive, ← cast_tenTo,
      ← cast_tenTo]
    rw [← hbelow] at this
    calc (below : ℚ) * (tenTo e.toNat : Nat) * i.scale
        = ((below * (i.scale * tenTo e.toNat) : Nat) : ℚ) := by push_cast; ring
      _ ≤ ((i.value * tenTo (-e).toNat : Nat) : ℚ) := by exact_mod_cast this
      _ = i.value * (tenTo (-e).toNat : Nat) := by push_cast; rfl
  have lt : i.middle < (below + 1) * 10 ^ e := by
    have := Nat.lt_mul_div_succ (i.value * tenTo (-e).toNat) denominator
    rw [zpow_parts, ← mul_div_assoc, middle, div_lt_div_iff₀ positive power, ← cast_tenTo,
      ← cast_tenTo]
    rw [← hbelow] at this
    calc (i.value : ℚ) * (tenTo (-e).toNat : Nat)
        = ((i.value * tenTo (-e).toNat : Nat) : ℚ) := by push_cast; rfl
      _ < ((i.scale * tenTo e.toNat * (below + 1) : Nat) : ℚ) := by exact_mod_cast this
      _ = (below + 1) * (tenTo e.toNat : Nat) * i.scale := by push_cast; ring
  have held : i.holds below e = true := by
    rw [holds_iff scale]
    exact mem_of_lt (by linarith) (by linarith)
  unfold onGrid
  dsimp only
  rw [← hbelow, held]
  split <;> simp_all

/-- The search comes to a decimal in the interval if one of its grids is fine enough. -/
theorem search_mem (scale : 0 < i.scale) (right : i.middle < i.right) (tie : Tie) (steps : Nat) :
    ∀ e : ℤ, (∃ k : Nat, k < steps ∧ 10 ^ (e - k) ≤ i.middle - i.left) →
      i.Mem (i.search tie steps e).value := by
  induction steps with
  | zero =>
    rintro e ⟨k, hk, -⟩
    cases hk
  | succ steps ih =>
    rintro e ⟨k, hk, fine⟩
    rw [search]
    split
    · next n found => exact onGrid_mem scale found
    · next missed =>
      refine ih (e - 1) ?_
      cases k with
      | zero => exact absurd missed (onGrid_ne_none scale right (by simpa using fine) tie)
      | succ k =>
        refine ⟨k, Nat.lt_of_succ_lt_succ hk, ?_⟩
        have : e - 1 - (k : ℤ) = e - ((k + 1 : Nat) : ℤ) := by push_cast; ring
        rw [this]
        exact fine

/-! ## The leading digit -/

theorem digitCount_bounds (steps : Nat) : ∀ n : Nat, n ≠ 0 → n < 10 ^ steps →
    ∃ k, digitCount steps n = k + 1 ∧ 10 ^ k ≤ n ∧ n < 10 ^ (k + 1) := by
  induction steps with
  | zero =>
    intro n positive small
    exact absurd (Nat.lt_one_iff.1 small) positive
  | succ steps ih =>
    intro n positive small
    rw [digitCount]
    split
    · next digit => exact ⟨0, rfl, Nat.one_le_iff_ne_zero.2 positive, digit⟩
    · next more =>
      rw [Nat.pow_succ] at small
      obtain ⟨k, count, low, high⟩ := ih (n / 10) (by omega) (by omega)
      refine ⟨k + 1, by rw [count, Nat.add_comm], ?_, ?_⟩
      · rw [Nat.pow_succ]
        omega
      · rw [Nat.pow_succ]
        omega

theorem lt_ten_pow_log (n : Nat) : n < 10 ^ (Nat.log2 n + 1) :=
  Nat.lt_of_lt_of_le Nat.lt_log2_self (Nat.pow_le_pow_left (by decide) _)

/-- The value has its leading digit right below the magnitude. -/
theorem magnitude_le (scale : 0 < i.scale) (value : 0 < i.value) :
    (10 : ℚ) ^ (i.magnitude - 1) ≤ i.middle := by
  have positive : (0 : ℚ) < i.scale := by exact_mod_cast scale
  have positive' : (0 : ℚ) < i.value := by exact_mod_cast value
  unfold magnitude
  dsimp only
  split
  · next whole =>
    obtain ⟨k, count, low, -⟩ := digitCount_bounds _ _ whole (lt_ten_pow_log _)
    have exponent : ((k + 1 : Nat) : ℤ) - 1 = (k : ℤ) := by push_cast; ring
    rw [count, exponent, zpow_natCast, middle, le_div_iff₀ positive]
    have := (Nat.le_div_iff_mul_le scale).1 low
    exact_mod_cast this
  · next whole =>
    have small : i.value < i.scale := by
      rcases (Nat.div_eq_zero_iff).1 (not_not.1 whole) with h | h
      · omega
      · exact h
    have inverse : i.scale / i.value ≠ 0 := (Nat.div_pos small.le value).ne'
    obtain ⟨k, count, -, high⟩ := digitCount_bounds _ _ inverse (lt_ten_pow_log _)
    have exponent : 1 - ((k + 1 : Nat) : ℤ) - 1 = -((k + 1 : Nat) : ℤ) := by ring
    rw [count, exponent, zpow_neg, zpow_natCast, middle,
      inv_le_comm₀ (by positivity) (by positivity), inv_div, div_le_iff₀ positive']
    have := (Nat.div_lt_iff_lt_mul value).1 high
    exact_mod_cast this.le

end Interval

/-! ## The interval of a double -/

variable {a b : Binary}

/-- A quarter of the distance to the next double above. -/
def quarter (b : Binary) : ℚ := 2 ^ b.exponent / 4

/-- How many quarters the interval reaches below the value. -/
def lowerHalf (b : Binary) : Nat :=
  if b.significand = Binary.exponentWeight ∧ -1074 < b.exponent then 1 else 2

theorem quarter_pos (b : Binary) : 0 < quarter b := by
  unfold quarter
  positivity

theorem lowerHalf_bounds (b : Binary) : 1 ≤ lowerHalf b ∧ lowerHalf b ≤ 2 := by
  unfold lowerHalf
  split <;> decide

theorem scale_interval (b : Binary) : 0 < (interval b).scale :=
  Nat.mul_pos (by decide) (Nat.pow_pos (by decide))

/-- A number of quarters as a fraction. -/
theorem quarters (b : Binary) (m : Nat) :
    ((m * twoTo b.exponent.toNat : Nat) : ℚ) / ((interval b).scale : Nat) = m * quarter b := by
  have scale : (((interval b).scale : Nat) : ℚ) = 4 * 2 ^ (-b.exponent).toNat := by
    rw [← cast_twoTo]
    exact Nat.cast_mul _ _
  rw [scale, Nat.cast_mul, cast_twoTo, quarter, zpow_parts]
  field_simp

theorem left_interval (positive : b.significand ≠ 0) :
    (interval b).left = (4 * b.significand - lowerHalf b) * quarter b := by
  have := (lowerHalf_bounds b).2
  have low : (interval b).low = (4 * b.significand - lowerHalf b) * twoTo b.exponent.toNat := rfl
  rw [Interval.left, low, quarters, Nat.cast_sub (by omega)]
  push_cast
  rfl

theorem middle_interval (b : Binary) :
    (interval b).middle = 4 * b.significand * quarter b := by
  have value : (interval b).value = 4 * b.significand * twoTo b.exponent.toNat := rfl
  rw [Interval.middle, value, quarters]
  push_cast
  rfl

theorem right_interval (b : Binary) :
    (interval b).right = (4 * b.significand + 2) * quarter b := by
  have high : (interval b).high = (4 * b.significand + 2) * twoTo b.exponent.toNat := rfl
  rw [Interval.right, high, quarters]
  push_cast
  rfl

theorem middle_lt_right (b : Binary) : (interval b).middle < (interval b).right := by
  rw [middle_interval, right_interval]
  linarith [quarter_pos b]

/-- The double itself is in its interval. -/
theorem middle_mem (positive : b.significand ≠ 0) : (interval b).Mem (interval b).middle := by
  refine Interval.mem_of_lt ?_ (middle_lt_right b)
  have half : (1 : ℚ) ≤ lowerHalf b := by exact_mod_cast (lowerHalf_bounds b).1
  rw [middle_interval, left_interval positive]
  nlinarith [quarter_pos b]

/-- The digits of a double are those of a decimal in its interval. -/
theorem digits_mem (h : b.Canonical) (positive : b.significand ≠ 0) (tie : Tie) :
    (interval b).Mem (digits tie b).value := by
  have scale := scale_interval b
  have unit := quarter_pos b
  have half := lowerHalf_bounds b
  have value : 0 < (interval b).value :=
    Nat.mul_pos (Nat.mul_pos (by decide) (Nat.pos_of_ne_zero positive)) (Nat.pow_pos (by decide))
  rw [digits, if_neg positive]
  dsimp only
  rw [Decimal.value_trim]
  refine Interval.search_mem scale (middle_lt_right b) tie 20 _ ⟨18, by decide, ?_⟩
  have bounded : (b.significand : ℚ) < 2 ^ 53 := by exact_mod_cast h.bounded
  have leading := Interval.magnitude_le scale value
  rw [middle_interval] at leading ⊢
  rw [left_interval positive]
  have shift : (10 : ℚ) ^ ((interval b).magnitude - (18 : Nat)) * 10 ^ 17 =
      10 ^ ((interval b).magnitude - 1) := by
    rw [← zpow_natCast, ← zpow_add₀ (by norm_num)]
    congr 1
    push_cast
    ring
  have half' : (1 : ℚ) ≤ lowerHalf b := by exact_mod_cast half.1
  have reach : (10 : ℚ) ^ ((interval b).magnitude - (18 : Nat)) * 10 ^ 17 ≤
      10 ^ 17 * quarter b := by
    rw [shift]
    nlinarith
  nlinarith

/-! ## Different doubles -/

/-- A number in the interval is within its ends, and no end itself if the significand is odd. -/
theorem mem_interval (positive : b.significand ≠ 0) {x : ℚ} (h : (interval b).Mem x) :
    (4 * b.significand - lowerHalf b) * quarter b ≤ x ∧ x ≤ (4 * b.significand + 2) * quarter b ∧
      (b.significand % 2 = 1 → (4 * b.significand - lowerHalf b) * quarter b < x ∧
        x < (4 * b.significand + 2) * quarter b) := by
  have bounds := h.bounds
  rw [left_interval positive, right_interval] at bounds
  refine ⟨bounds.1, bounds.2, fun odd => ?_⟩
  have opened : (interval b).closed = false := by
    have : (interval b).closed = decide (b.significand % 2 = 0) := rfl
    rw [this, odd]
    rfl
  rw [Interval.Mem, opened] at h
  rw [left_interval positive, right_interval] at h
  exact h

theorem quarter_double (smaller : a.exponent < b.exponent) : 2 * quarter a ≤ quarter b := by
  have := zpow_le_zpow_right₀ (by norm_num : (1 : ℚ) ≤ 2) (Int.add_one_le_of_lt smaller)
  rw [zpow_add_one₀ (by norm_num)] at this
  unfold quarter
  linarith

/-- An interval begins far from zero if its significand has all its bits. -/
theorem lower_reach (full : Binary.exponentWeight ≤ b.significand)
    (least : -1074 < b.exponent) : (2 ^ 54 - 1 : ℚ) ≤ 4 * b.significand - lowerHalf b := by
  have reach : 2 ^ 54 + lowerHalf b ≤ 4 * b.significand + 1 := by
    unfold lowerHalf
    simp only [Binary.exponentWeight] at full ⊢
    split <;> omega
  have : (2 ^ 54 + lowerHalf b : ℚ) ≤ 4 * b.significand + 1 := by exact_mod_cast reach
  linarith

/-- The interval of a double is below those of doubles with a greater exponent. -/
theorem interval_lt_of_exponent (ha : a.Canonical) (hb : b.Canonical) (pa : a.significand ≠ 0)
    (pb : b.significand ≠ 0) (smaller : a.exponent < b.exponent) {x : ℚ}
    (inside : (interval a).Mem x) : ¬ (interval b).Mem x := by
  intro inside'
  obtain ⟨-, high, highOpen⟩ := mem_interval pa inside
  obtain ⟨low, -, -⟩ := mem_interval pb inside'
  have unit := quarter_pos a
  have bounded := ha.bounded
  have above : -1074 < b.exponent := lt_of_le_of_lt ha.least smaller
  have reach := lower_reach (hb.full.resolve_right above.ne') above
  -- The quarters of the greater number are at least twice as long.
  have start : (2 ^ 54 - 1) * (2 * quarter a) ≤ x :=
    (mul_le_mul reach (quarter_double smaller) (by linarith) (by linarith)).trans low
  by_cases last : a.significand = 2 ^ 53 - 1
  · have before := (highOpen (by rw [last]; rfl)).2
    rw [last] at before
    push_cast at before
    linarith
  · have : (4 * a.significand + 2 : ℚ) ≤ 2 ^ 55 - 6 := by
      have : 4 * a.significand + 8 ≤ 2 ^ 55 := by
        simp only [Binary.exponentWeight] at bounded
        omega
      have : (4 * a.significand + 8 : ℚ) ≤ 2 ^ 55 := by exact_mod_cast this
      linarith
    have := mul_le_mul_of_nonneg_right this unit.le
    linarith

/-- The interval of a double is below those of doubles with its exponent and a greater
significand. -/
theorem interval_lt_of_significand (pa : a.significand ≠ 0) (pb : b.significand ≠ 0)
    (same : a.exponent = b.exponent) (less : a.significand < b.significand) {x : ℚ}
    (inside : (interval a).Mem x) : ¬ (interval b).Mem x := by
  intro inside'
  obtain ⟨-, high, highOpen⟩ := mem_interval pa inside
  obtain ⟨low, -, lowOpen⟩ := mem_interval pb inside'
  have unit := quarter_pos a
  have equal : quarter b = quarter a := by rw [quarter, quarter, same]
  have half : (lowerHalf b : ℚ) ≤ 2 := by exact_mod_cast (lowerHalf_bounds b).2
  rw [equal] at low lowOpen
  have start :=
    mul_le_mul_of_nonneg_right (sub_le_sub_left half (4 * (b.significand : ℚ))) unit.le
  by_cases next : b.significand = a.significand + 1
  · -- One of two neighbours is odd, and its interval does not have the end between them.
    rw [next] at start low lowOpen
    push_cast at start low lowOpen
    rcases Nat.mod_two_eq_zero_or_one a.significand with even | odd
    · have := (lowOpen (by omega)).1
      linarith
    · have := (highOpen odd).2
      linarith
  · have : (a.significand + 2 : ℚ) ≤ b.significand := by
      have : a.significand + 2 ≤ b.significand := by omega
      exact_mod_cast this
    have := mul_le_mul_of_nonneg_right this unit.le
    linarith

/-- The intervals of different doubles have no number in common. -/
theorem interval_unique (ha : a.Canonical) (hb : b.Canonical) (pa : a.significand ≠ 0)
    (pb : b.significand ≠ 0) {x : ℚ} (inside : (interval a).Mem x) (inside' : (interval b).Mem x) :
    a.significand = b.significand ∧ a.exponent = b.exponent := by
  rcases lt_trichotomy a.exponent b.exponent with less | same | greater
  · exact absurd inside' (interval_lt_of_exponent ha hb pa pb less inside)
  · rcases lt_trichotomy a.significand b.significand with less | same' | greater
    · exact absurd inside' (interval_lt_of_significand pa pb same less inside)
    · exact ⟨same', same⟩
    · exact absurd inside (interval_lt_of_significand pb pa same.symm greater inside')
  · exact absurd inside (interval_lt_of_exponent hb ha pb pa greater inside')

theorem not_mem_zero (positive : b.significand ≠ 0) : ¬ (interval b).Mem 0 := by
  intro inside
  have low := (mem_interval positive inside).1
  have half : (lowerHalf b : ℚ) ≤ 2 := by exact_mod_cast (lowerHalf_bounds b).2
  have one : (1 : ℚ) ≤ b.significand := by exact_mod_cast Nat.one_le_iff_ne_zero.2 positive
  nlinarith [quarter_pos b]

/-- No integer is in the interval of a double that is none. -/
theorem not_mem_integer (positive : b.significand ≠ 0) (fraction : b.magnitude? = none) (n : Nat) :
    ¬ (interval b).Mem n := by
  intro inside
  obtain ⟨low, high, -⟩ := mem_interval positive inside
  have half : (lowerHalf b : ℚ) ≤ 2 := by exact_mod_cast (lowerHalf_bounds b).2
  unfold Binary.magnitude? at fraction
  split at fraction
  · cases fraction
  · next k exponent =>
    split at fraction
    · cases fraction
    · next rest =>
      have unit : quarter b * (4 * 2 ^ (k + 1)) = 1 := by
        rw [quarter, exponent, zpow_negSucc]
        field_simp
      have power : (0 : ℚ) ≤ 4 * 2 ^ (k + 1) := by positivity
      have above := mul_le_mul_of_nonneg_right low power
      have below := mul_le_mul_of_nonneg_right high power
      rw [mul_assoc, unit, mul_one] at above below
      -- An integer is a multiple of four quarters of the unit, and so it is the value itself.
      have above' : 4 * b.significand ≤ 4 * (n * 2 ^ (k + 1)) + 2 := by
        have : (4 * b.significand : ℚ) ≤ 4 * (n * 2 ^ (k + 1)) + 2 := by linarith
        exact_mod_cast this
      have below' : 4 * (n * 2 ^ (k + 1)) ≤ 4 * b.significand + 2 := by
        have : (4 * (n * 2 ^ (k + 1)) : ℚ) ≤ 4 * b.significand + 2 := by linarith
        exact_mod_cast this
      have whole : b.significand = n * 2 ^ (k + 1) := by omega
      exact rest (whole ▸ Nat.mul_mod_left n _)

end Shortest

end TickScript
