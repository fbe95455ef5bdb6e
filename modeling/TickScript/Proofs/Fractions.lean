import Mathlib
import TickScript.Proofs.Rounding

/-!
# The fraction that a double is

A finite double is a fraction that its sign, its mantissa and its exponent make up
(`Number.rational?`). Arithmetic on the bits takes it apart into the same fraction
(`Number.rational?_eq`), so this is the number that scripts compute with. Doubles without their
signs are ordered as the sizes of their fractions (`Number.abs_lt_abs_iff`).
-/

namespace TickScript

open Float.Model (Format UnpackedFloat)
open Float.Model.UnpackedFloat (Sign packComponents unpack unpackMantissa unpackExponent unpackSign
  unpackMantissa_packComponents unpackExponent_packComponents unpackSign_packComponents)

/-! ## The parts of a double -/

namespace Binary

def sign (b : Binary) : Sign :=
  if b.negative then .negative else .positive

/-- The number as the parts of a double, in which zero has no exponent. -/
def unpacked (b : Binary) : UnpackedFloat :=
  if zero : b.significand = 0 then .zero b.sign
  else .finite b.sign b.significand b.exponent (Nat.pos_of_ne_zero zero)

/-- How far from zero the number is. -/
def size (b : Binary) : ℚ :=
  b.significand * 2 ^ b.exponent

/-- The number as a fraction. -/
def value (b : Binary) : ℚ :=
  if b.negative then -b.size else b.size

theorem size_nonneg (b : Binary) : 0 ≤ b.size := by
  unfold size
  positivity

theorem size_eq_zero {b : Binary} (h : b.significand = 0) : b.size = 0 := by
  rw [size, h, Nat.cast_zero, zero_mul]

theorem size_pos {b : Binary} (h : b.significand ≠ 0) : 0 < b.size := by
  have : (0 : ℚ) < b.significand := Nat.cast_pos.2 (Nat.pos_of_ne_zero h)
  unfold size
  positivity

/-- The magnitude of a number is its size, if this is an integer. -/
theorem magnitude?_eq_some {b : Binary} {m : Nat} : b.magnitude? = some m ↔ b.size = m := by
  unfold magnitude? size
  split
  · next k exponent =>
    rw [exponent, Int.ofNat_eq_natCast, zpow_natCast, Option.some_inj, ← Shortest.cast_twoTo]
    norm_cast
  · next k exponent =>
    have positive : (twoTo (k + 1) : ℚ) ≠ 0 := Nat.cast_ne_zero.2 (twoTo_pos _).ne'
    rw [exponent, zpow_negSucc, ← div_eq_mul_inv, ← Shortest.cast_twoTo, div_eq_iff positive]
    norm_cast
    constructor
    · intro h
      split at h
      · next whole =>
        cases h
        exact (Nat.div_mul_cancel (Nat.dvd_of_mod_eq_zero whole)).symm
      · cases h
    · intro h
      rw [h, if_pos (Nat.mul_mod_left ..), Nat.mul_div_cancel _ (twoTo_pos _)]

theorem abs_value (b : Binary) : |b.value| = b.size := by
  unfold value
  split
  · rw [abs_neg, abs_of_nonneg b.size_nonneg]
  · exact abs_of_nonneg b.size_nonneg

theorem value_eq (b : Binary) : b.value = b.sign.apply b.significand * 2 ^ b.exponent := by
  unfold value sign size
  split
  · simp [Sign.apply]
  · simp [Sign.apply]

/-- The value counted in least positive doubles. -/
theorem multiple_eq {b : Binary} (least : -1074 ≤ b.exponent) :
    (b.multiple : ℚ) = b.value * 2 ^ (1074 : ℤ) := by
  have size : ((b.significand * twoTo (b.exponent + 1074).toNat : Nat) : ℚ) =
      b.size * 2 ^ (1074 : ℤ) := by
    rw [Nat.cast_mul, Shortest.cast_twoTo, Binary.size, mul_assoc, ← zpow_add₀ two_ne_zero,
      ← zpow_natCast, Int.toNat_of_nonneg (by omega)]
  unfold multiple value
  dsimp only
  split
  · rw [Int.cast_neg, Int.cast_natCast, size, neg_mul]
  · rw [Int.cast_natCast, size]

/-- Exponents decide which number is smaller, and significands where the exponents are the same. -/
theorem size_lt_iff {a b : Binary} (ha : a.Canonical) (hb : b.Canonical) : a.size < b.size ↔
    a.exponent < b.exponent ∨ a.exponent = b.exponent ∧ a.significand < b.significand := by
  -- A significand has 53 digits where a number with a smaller exponent exists.
  have below {a b : Binary} (ha : a.Canonical) (hb : b.Canonical)
      (less : a.exponent < b.exponent) : a.size < b.size := by
    have full : Binary.exponentWeight ≤ b.significand :=
      hb.full.resolve_right (lt_of_le_of_lt ha.least less).ne'
    calc a.size < (2 * Binary.exponentWeight : Nat) * 2 ^ a.exponent := by
          unfold size
          have := ha.bounded
          gcongr
      _ = Binary.exponentWeight * 2 ^ (a.exponent + 1) := by
          rw [zpow_add_one₀ two_ne_zero]
          push_cast
          ring
      _ ≤ b.size := by
          unfold size
          gcongr
          · norm_num
          · exact less
  rcases lt_trichotomy a.exponent b.exponent with less | same | greater
  · exact iff_of_true (below ha hb less) (.inl less)
  · have unit : (0 : ℚ) < 2 ^ b.exponent := by positivity
    unfold size
    rw [same, mul_lt_mul_iff_of_pos_right unit, Nat.cast_lt]
    simp
  · have := below hb ha greater
    refine iff_of_false this.not_gt ?_
    omega

end Binary

/-! ## The bits of a double -/

section Fields

variable (bits : BitVec 64)

theorem toNat_unpackMantissa :
    (@unpackMantissa .binary64 bits).toNat = bits.toNat % Binary.exponentWeight := by
  rw [UnpackedFloat.unpackMantissa_def, BitVec.extractLsb'_toNat]
  rfl

theorem toNat_unpackExponent :
    (@unpackExponent .binary64 bits).toNat = bits.toNat / Binary.exponentWeight % 2048 := by
  rw [UnpackedFloat.unpackExponent_def, BitVec.extractLsb'_toNat,
    Nat.shiftRight_eq_div_pow]
  rfl

theorem ofBitVec_unpackSign : Sign.ofBitVec (@unpackSign .binary64 bits) =
    if bits.toNat / signWeight == 1 then .negative else .positive := by
  have quotient : (@unpackSign .binary64 bits).toNat = bits.toNat / signWeight := by
    rw [UnpackedFloat.unpackSign_def, BitVec.extractLsb'_toNat,
      Nat.shiftRight_eq_div_pow]
    exact Nat.mod_eq_of_lt (Nat.div_lt_of_lt_mul bits.isLt)
  rw [← quotient]
  generalize @unpackSign .binary64 bits = sign
  obtain rfl | rfl : sign = 0#1 ∨ sign = 1#1 := by
    revert sign
    decide
  · rfl
  · rfl

theorem unpackExponent_eq_iff (field : BitVec 11) : @unpackExponent .binary64 bits = field ↔
    bits.toNat / Binary.exponentWeight % 2048 = field.toNat := by
  rw [← toNat_unpackExponent, BitVec.toNat_inj]

theorem unpackMantissa_eq_zero_iff : @unpackMantissa .binary64 bits = 0#52 ↔
    bits.toNat % Binary.exponentWeight = 0 := by
  rw [← toNat_unpackMantissa]
  exact BitVec.toNat_inj.symm

end Fields

namespace Number

variable {x : Float} {b : Binary}

/-- The quotients and remainders of the bits are the sign, the mantissa and the exponent. -/
theorem unpack_of_ofFloat? (h : Binary.ofFloat? x = some b) : x.toModel.unpack = b.unpacked := by
  have word : x.toBits.toNat = x.toModel.toBits.toBitVec.toNat := rfl
  unfold Binary.ofFloat? at h
  unfold Float.Model.unpack unpack
  rw [word] at h
  generalize x.toModel.toBits.toBitVec = bits at h ⊢
  dsimp only at h ⊢
  -- The branches of both are on the exponent field: all ones, zero, and the rest.
  rw [ofBitVec_unpackSign]
  split at h
  · cases h
  next finite =>
  rw [if_neg (mt (unpackExponent_eq_iff bits (-1#11)).1 finite)]
  split at h
  · next field =>
    cases h
    rw [if_pos ((unpackExponent_eq_iff bits 0#11).2 field), Binary.unpacked]
    by_cases zero : bits.toNat % Binary.exponentWeight = 0
    · rw [dif_pos ((unpackMantissa_eq_zero_iff bits).2 zero), dif_pos zero]
      rfl
    · rw [dif_neg (mt (unpackMantissa_eq_zero_iff bits).1 zero), dif_neg zero]
      simp only [toNat_unpackMantissa, toNat_unpackExponent, field]
      rfl
  · next field =>
    cases h
    -- The mantissa of these has a leading digit that is not among the bits.
    have mantissa : (1#1 ++ @unpackMantissa .binary64 bits).toNat =
        Binary.exponentWeight + bits.toNat % Binary.exponentWeight := by
      rw [BitVec.toNat_append, ← Nat.shiftLeft_add_eq_or_of_lt (BitVec.isLt _),
        toNat_unpackMantissa]
      rfl
    have positive : Binary.exponentWeight + bits.toNat % Binary.exponentWeight ≠ 0 :=
      (Nat.add_pos_left (by decide) _).ne'
    rw [if_neg (mt (unpackExponent_eq_iff bits 0#11).1 field), Binary.unpacked, dif_neg positive]
    simp only [mantissa, toNat_unpackExponent]
    rfl

/-- The infinities and a NaN have the greatest exponent field. -/
theorem unpack_of_special (h : Binary.ofFloat? x = none) :
    x.toModel.unpack = .notANumber ∨ ∃ sign, x.toModel.unpack = .infinity sign := by
  have word : x.toBits.toNat = x.toModel.toBits.toBitVec.toNat := rfl
  unfold Binary.ofFloat? at h
  unfold Float.Model.unpack unpack
  rw [word] at h
  generalize x.toModel.toBits.toBitVec = bits at h ⊢
  dsimp only at h ⊢
  split at h
  · next special =>
    rw [if_pos ((unpackExponent_eq_iff bits (-1#11)).2 special)]
    split
    · exact .inr ⟨_, rfl⟩
    · exact .inl rfl
  · split at h <;> cases h

/-! ## The fraction -/

/-- The fraction that a double is. The infinities and a NaN are none. -/
def rational? (x : Float) : Option ℚ :=
  match x.toModel.unpack with
  | .zero _ => some 0
  | .finite sign mantissa exponent _ => some (sign.apply mantissa * 2 ^ exponent)
  | .infinity _ => none
  | .notANumber => none

theorem rational?_eq_none : rational? x = none ↔ x.isNaN = true ∨ x.isInf = true := by
  have nan : x.isNaN = x.toModel.unpack.isNaN := rfl
  have infinite : x.isInf = x.toModel.unpack.isInf := rfl
  rw [nan, infinite, rational?]
  cases x.toModel.unpack with
  | zero | finite =>
    exact iff_of_false (by simp) (by simp [UnpackedFloat.isNaN, UnpackedFloat.isInf])
  | infinity => exact iff_of_true rfl (.inr rfl)
  | notANumber => exact iff_of_true rfl (.inl rfl)

/-- The fraction can be found by arithmetic on the bits. -/
theorem rational?_eq (x : Float) : rational? x = (Binary.ofFloat? x).map Binary.value := by
  cases h : Binary.ofFloat? x with
  | none =>
    rcases unpack_of_special h with special | ⟨sign, special⟩ <;> rw [rational?, special] <;> rfl
  | some b =>
    rw [rational?, unpack_of_ofFloat? h, Binary.unpacked, Option.map_some]
    by_cases zero : b.significand = 0
    · rw [dif_pos zero, Binary.value_eq, zero]
      cases b.sign <;> simp [Sign.apply]
    · rw [dif_neg zero, Binary.value_eq]

theorem rational?_eq_some {q : ℚ} :
    rational? x = some q ↔ ∃ b, Binary.ofFloat? x = some b ∧ b.value = q := by
  rw [rational?_eq, Option.map_eq_some_iff]

/-- Doubles that are the same fraction are the same number. -/
theorem same_of_rational? {y : Float} {q : ℚ} (hx : rational? x = some q)
    (hy : rational? y = some q) : Same x y := by
  obtain ⟨a, ha, value⟩ := rational?_eq_some.1 hx
  obtain ⟨b, hb, rfl⟩ := rational?_eq_some.1 hy
  rw [Same, ha, hb]
  have multiples : (a.multiple : ℚ) = b.multiple := by
    rw [Binary.multiple_eq (Binary.canonical_ofFloat? ha).least, value,
      Binary.multiple_eq (Binary.canonical_ofFloat? hb).least]
  exact_mod_cast multiples

/-! ## The size -/

section WithoutSign

variable {format : Format} (bits : BitVec format.numBits)

/-- The bits without the sign. -/
def withoutSign : BitVec format.numBits :=
  packComponents format .positive (unpackExponent bits) (unpackMantissa bits)

theorem unpack_withoutSign : unpack format (withoutSign bits) = (unpack format bits).abs := by
  unfold unpack withoutSign
  simp only [unpackExponent_packComponents, unpackMantissa_packComponents,
    unpackSign_packComponents]
  split_ifs <;> rfl

theorem valid_withoutSign (h : format.Valid bits) : format.Valid (withoutSign bits) := by
  refine ⟨fun exponent mantissa => ?_⟩
  simp only [withoutSign, unpackExponent_packComponents, unpackMantissa_packComponents]
    at exponent mantissa
  rw [withoutSign, h.eq_packedNaN exponent mantissa, UnpackedFloat.packedNaN,
    unpackExponent_packComponents, unpackMantissa_packComponents]

end WithoutSign

theorem unpack_abs (x : Float) : x.abs.toModel.unpack = x.toModel.unpack.abs :=
  calc x.abs.toModel.unpack
    _ = unpack .binary64 (UnpackedFloat.pack .binary64
          (unpack .binary64 x.toModel.toBits.toBitVec).abs) := rfl
    _ = (unpack .binary64 x.toModel.toBits.toBitVec).abs := by
      rw [← unpack_withoutSign,
        UnpackedFloat.pack_unpack_of_valid (valid_withoutSign _ x.toModel.valid)]

theorem lt_iff {y : Float} :
    x < y ↔ x.toModel.unpack.compare y.toModel.unpack = some .lt := by
  have : x < y ↔ decide (x.toModel < y.toModel) = true := Iff.rfl
  rw [this, decide_eq_true_iff]
  exact beq_iff_eq

/-- Finite doubles without their signs are ordered as their sizes. -/
theorem compare_abs {a b : Binary} (ha : a.Canonical) (hb : b.Canonical) :
    a.unpacked.abs.compare b.unpacked.abs = some .lt ↔ a.size < b.size := by
  unfold Binary.unpacked
  by_cases za : a.significand = 0 <;> by_cases zb : b.significand = 0
  · rw [dif_pos za, dif_pos zb, Binary.size_eq_zero za, Binary.size_eq_zero zb]
    exact iff_of_false (by simp [UnpackedFloat.abs, UnpackedFloat.compare]) (lt_irrefl 0)
  · rw [dif_pos za, dif_neg zb, Binary.size_eq_zero za]
    exact iff_of_true rfl (Binary.size_pos zb)
  · rw [dif_neg za, dif_pos zb, Binary.size_eq_zero zb]
    exact iff_of_false (by simp [UnpackedFloat.abs, UnpackedFloat.compare])
      (Binary.size_nonneg a).not_gt
  · rw [dif_neg za, dif_neg zb, Binary.size_lt_iff ha hb]
    simp only [UnpackedFloat.abs, UnpackedFloat.compare, Option.some_inj, Ordering.then_eq_lt,
      Int.compare_eq_lt, Int.compare_eq_eq, Nat.compare_eq_lt]

/-- A double without its sign is less than a finite one if it is a fraction of a smaller size. -/
theorem abs_lt_abs_iff {y : Float} {r : ℚ} (hy : rational? y = some r) :
    x.abs < y.abs ↔ ∃ q, rational? x = some q ∧ |q| < |r| := by
  obtain ⟨b, hb, rfl⟩ := rational?_eq_some.1 hy
  rw [lt_iff, unpack_abs, unpack_abs, unpack_of_ofFloat? hb, rational?_eq]
  cases ha : Binary.ofFloat? x with
  | none =>
    refine iff_of_false ?_ (by simp)
    rcases unpack_of_special ha with special | ⟨sign, special⟩
    · rw [special]
      simp [UnpackedFloat.abs, UnpackedFloat.compare]
    · rw [special]
      unfold Binary.unpacked
      split <;> simp [UnpackedFloat.abs, UnpackedFloat.compare]
  | some a =>
    rw [unpack_of_ofFloat? ha,
      compare_abs (Binary.canonical_ofFloat? ha) (Binary.canonical_ofFloat? hb)]
    simp [Binary.abs_value]

end Number

end TickScript
