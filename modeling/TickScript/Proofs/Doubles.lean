import Mathlib
import TickScript.Number.Binary

/-!
# Which number a double is

Every finite double is a multiple of the least positive one, which is two to the power of -1074. Two
doubles are the same number if they are the same multiple of it, or the same infinity, and this is
how doubles are compared (`Number.beq_iff_same`). A double is taken apart in one way only
(`Binary.ofFloat?_inj`), and a number other than zero is one double only (`Binary.multiple_inj`).
-/

namespace TickScript

namespace Binary

/-- How many times the least positive double the number is, for an exponent of at least -1074. -/
def multiple (b : Binary) : Int :=
  let magnitude : Nat := b.significand * twoTo (b.exponent + 1074).toNat
  if b.negative then -(magnitude : Int) else magnitude

/-- How doubles are taken apart: the significand has 53 binary digits, or the exponent is the least
one. -/
structure Canonical (b : Binary) : Prop where
  bounded : b.significand < 2 * exponentWeight
  least : -1074 ≤ b.exponent
  full : exponentWeight ≤ b.significand ∨ b.exponent = -1074

variable {x y : Float} {a b : Binary}

/-- A zero has the least exponent. -/
theorem Canonical.least_of_zero (h : b.Canonical) (zero : b.significand = 0) :
    b.exponent = -1074 :=
  h.full.resolve_left (by rw [zero]; decide)

theorem canonical_ofFloat? (h : ofFloat? x = some b) : b.Canonical := by
  unfold ofFloat? at h
  dsimp only at h
  have fraction : x.toBits.toNat % exponentWeight < exponentWeight := Nat.mod_lt _ (by decide)
  split at h
  · cases h
  · split at h
    · cases h
      exact ⟨by dsimp only; omega, Int.le_refl _, .inr rfl⟩
    · cases h
      refine ⟨by dsimp only; omega, ?_, .inl (Nat.le_add_right _ _)⟩
      dsimp only [Int.ofNat_eq_natCast]
      omega

/-- The sign, the exponent and the fraction of a double are all there is to it. -/
theorem ofFloat?_inj (hx : ofFloat? x = some b) (hy : ofFloat? y = some b) : x = y := by
  rw [← Float.toBits_inj, ← UInt64.toNat_inj]
  have hx64 := x.toBits.toNat_lt
  have hy64 := y.toBits.toNat_lt
  unfold ofFloat? at hx hy
  dsimp only at hx hy
  generalize x.toBits.toNat = m at *
  generalize y.toBits.toNat = n at *
  simp only [signWeight, exponentWeight] at hx hy
  split at hx
  · cases hx
  split at hy
  · cases hy
  split at hx <;> split at hy <;> (cases hx; injection hy with hy)
  all_goals
    rw [Binary.mk.injEq] at hy
    obtain ⟨hs, hm, he⟩ := hy
    rw [Bool.eq_iff_iff, beq_iff_eq, beq_iff_eq] at hs
    simp only [Int.ofNat_eq_natCast] at he
    omega

theorem twoTo_add (i j : Nat) : twoTo (i + j) = twoTo i * twoTo j := Nat.pow_add 2 i j

theorem twoTo_pos (i : Nat) : 0 < twoTo i := Nat.pow_pos Nat.two_pos

/-- A significand that is shifted further has more digits than there can be. -/
theorem shift_le {m n i j : Nat} (hm : m < 2 * exponentWeight) (hn : exponentWeight ≤ n ∨ j = 0)
    (same : m * twoTo i = n * twoTo j) : j ≤ i := by
  by_contra hlt
  obtain ⟨k, rfl⟩ := Nat.exists_eq_add_of_lt (Nat.lt_of_not_le hlt)
  have full : exponentWeight ≤ n := hn.resolve_right (by omega)
  have shifted : m = n * twoTo (k + 1) := by
    refine Nat.eq_of_mul_eq_mul_right (twoTo_pos i) ?_
    rw [same, Nat.mul_assoc, ← twoTo_add, Nat.add_comm (k + 1) i]
    rfl
  have twice : 2 ≤ twoTo (k + 1) := by
    have := twoTo_pos k
    rw [twoTo_add]
    exact Nat.le_mul_of_pos_left _ this
  have := Nat.mul_le_mul full twice
  omega

/-- Of a number other than zero there is one double. -/
theorem multiple_inj (ha : a.Canonical) (hb : b.Canonical) (same : a.multiple = b.multiple) :
    a = b ∨ a.significand = 0 ∧ b.significand = 0 := by
  have magnitude : a.significand * twoTo (a.exponent + 1074).toNat =
      b.significand * twoTo (b.exponent + 1074).toNat := by
    have := congrArg Int.natAbs same
    unfold multiple at this
    dsimp only at this
    split at this <;> split at this <;> omega
  have exponent : (a.exponent + 1074).toNat = (b.exponent + 1074).toNat := by
    refine Nat.le_antisymm (shift_le hb.bounded ?_ magnitude.symm)
      (shift_le ha.bounded ?_ magnitude)
    · exact ha.full.imp_right fun e => by rw [e]; rfl
    · exact hb.full.imp_right fun e => by rw [e]; rfl
  have significand : a.significand = b.significand := by
    rw [exponent] at magnitude
    exact Nat.eq_of_mul_eq_mul_right (twoTo_pos _) magnitude
  by_cases zero : a.significand = 0
  · exact .inr ⟨zero, significand ▸ zero⟩
  left
  have sign : a.negative = b.negative := by
    have positive := Nat.mul_pos (Nat.pos_of_ne_zero zero) (twoTo_pos (a.exponent + 1074).toNat)
    unfold multiple at same
    dsimp only at same
    rw [← magnitude] at same
    generalize a.significand * twoTo (a.exponent + 1074).toNat = size at positive same
    cases na : a.negative <;> cases nb : b.negative <;> rw [na, nb] at same
    · have : (size : Int) = -size := same
      omega
    · have : -(size : Int) = size := same
      omega
  have hle := ha.least
  have hle' := hb.least
  obtain ⟨s, m, e⟩ := a
  obtain ⟨s', m', e'⟩ := b
  rw [Binary.mk.injEq]
  exact ⟨sign, significand, by dsimp only at *; omega⟩

theorem ofFloat?_zero : ofFloat? 0 = some ⟨false, 0, -1074⟩ := by decide

theorem ofFloat?_neg_zero : ofFloat? (-0) = some ⟨true, 0, -1074⟩ := by decide

/-- A double whose significand is zero is one of the two zeros. -/
theorem eq_zero_of_significand (h : ofFloat? x = some b) (zero : b.significand = 0) :
    x = 0 ∨ x = -0 := by
  have least := (canonical_ofFloat? h).least_of_zero zero
  obtain ⟨s, m, e⟩ := b
  dsimp only at zero least
  subst zero least
  cases s with
  | false => exact .inl (ofFloat?_inj h ofFloat?_zero)
  | true => exact .inr (ofFloat?_inj h ofFloat?_neg_zero)

end Binary

namespace Number

/-- The doubles are the same number: the same multiple of the least positive double, or the same
infinity. -/
def Same (x y : Float) : Prop :=
  match Binary.ofFloat? x, Binary.ofFloat? y with
  | some a, some b => a.multiple = b.multiple
  | none, none => x = y
  | _, _ => False

variable {x y z : Float}

theorem Same.refl (x : Float) : Same x x := by
  unfold Same
  cases Binary.ofFloat? x <;> rfl

theorem Same.symm (h : Same x y) : Same y x := by
  unfold Same at h ⊢
  cases hx : Binary.ofFloat? x <;> cases hy : Binary.ofFloat? y <;> rw [hx, hy] at h
  · exact h.symm
  · exact h
  · exact h
  · exact h.symm

theorem Same.trans (h : Same x y) (h' : Same y z) : Same x z := by
  unfold Same at h h' ⊢
  cases hx : Binary.ofFloat? x <;> cases hy : Binary.ofFloat? y <;>
    cases hz : Binary.ofFloat? z <;> rw [hx, hy] at h <;> rw [hy, hz] at h' <;>
    first | exact h.elim | exact h'.elim | exact Eq.trans h h'

theorem same_zeros : Same 0 (-0) := by
  rw [Same, Binary.ofFloat?_zero, Binary.ofFloat?_neg_zero]
  rfl

/-- A number is one double, unless it is zero. -/
theorem Same.eq_or_zeros (h : Same x y) : x = y ∨ (x = 0 ∨ x = -0) ∧ (y = 0 ∨ y = -0) := by
  unfold Same at h
  cases ha : Binary.ofFloat? x <;> cases hb : Binary.ofFloat? y <;> rw [ha, hb] at h
  · exact .inl h
  · exact h.elim
  · exact h.elim
  · rcases Binary.multiple_inj (Binary.canonical_ofFloat? ha) (Binary.canonical_ofFloat? hb) h
      with rfl | ⟨zero, zero'⟩
    · exact .inl (Binary.ofFloat?_inj ha hb)
    · exact .inr ⟨Binary.eq_zero_of_significand ha zero, Binary.eq_zero_of_significand hb zero'⟩

/-- Doubles are compared as numbers, except that a NaN differs from everything. -/
theorem beq_iff_same (hx : x.isNaN = false) : (x == y) = true ↔ Same x y := by
  rw [Float.isNaN_eq_decide_eq_nan, decide_eq_false_iff_not] at hx
  rw [Float.beq_iff_ne_nan_and_eq]
  constructor
  · rintro ⟨-, -, rfl | ⟨rfl, rfl⟩ | ⟨rfl, rfl⟩⟩
    · exact .refl x
    · exact same_zeros
    · exact same_zeros.symm
  · intro h
    have numbers : (0 : Float) ≠ Float.nan ∧ (-0 : Float) ≠ Float.nan := by decide
    rcases h.eq_or_zeros with rfl | ⟨rfl | rfl, rfl | rfl⟩
    · exact ⟨hx, hx, .inl rfl⟩
    all_goals simp [numbers]

theorem Same.not_nan (h : Same x y) (hx : x.isNaN = false) : y.isNaN = false := by
  have := (Float.beq_iff_ne_nan_and_eq.1 ((beq_iff_same hx).2 h)).2.1
  rw [Float.isNaN_eq_decide_eq_nan, decide_eq_false_iff_not]
  exact this

end Number

end TickScript
