import Mathlib
import TickScript.Number.Text
import TickScript.Proofs.Fractions

/-!
# The texts of doubles

A finite double is displayed with a point, and no two of them alike (`Number.point_display`,
`Number.display_inj`). Its text, without a sign, is a decimal (`Number.Reads`) in the interval of
the double: the double itself if it is an integer, and else the decimal that the search for digits
comes to.
-/

namespace TickScript

namespace Number

/-! ## Digits -/

theorem digits_nat (n : Nat) :
    (toString n).toList ≠ [] ∧ ∀ c ∈ (toString n).toList, c.isDigit = true := by
  rw [Nat.toString_eq_repr, Nat.repr_eq_ofList_toDigits, String.toList_ofList]
  exact ⟨Nat.toDigits_ne_nil, fun c hc =>
    Nat.isDigit_of_mem_toDigits (by decide : 0 < 10) (by decide) hc⟩

theorem ofDigits_toString (n : Nat) : ofDigits (toString n).toList = n := by
  rw [Nat.toString_eq_repr, Nat.repr_eq_ofList_toDigits, String.toList_ofList]
  exact Nat.ofDigitChars_toDigits (by decide) (by decide)

theorem ofDigits_zeros (k : Nat) (digits : List Char) :
    ofDigits (List.replicate k '0' ++ digits) = ofDigits digits := by
  induction k with
  | zero => rfl
  | succ k ih => exact ih

/-- The text is one of digits with a point between them, and this is its value. -/
def Reads (text : List Char) (x : ℚ) : Prop :=
  ∃ whole fraction : List Char, text = whole ++ '.' :: fraction ∧ whole ≠ [] ∧
    (∀ c ∈ whole ++ fraction, c.isDigit = true) ∧
      x = ofDigits (whole ++ fraction) / 10 ^ fraction.length

theorem Reads.unique {text : List Char} {x y : ℚ} (h : Reads text x) (h' : Reads text y) :
    x = y := by
  obtain ⟨whole, fraction, rfl, -, digits, rfl⟩ := h
  obtain ⟨whole', fraction', same, -, digits', rfl⟩ := h'
  have point : ∀ {cs : List Char}, (∀ c ∈ cs, c.isDigit = true) → '.' ∉ cs := fun h hc => by
    cases h _ hc
  obtain ⟨rfl, -, rfl⟩ := (List.append_cons_inj_of_notMem
    (fun hc => point digits (List.mem_append_left _ hc))
    (fun hc => point digits (List.mem_append_right _ hc))).1 same
  rfl

/-- An integer with a zero behind the point. -/
theorem reads_integer (n : Nat) : Reads (toString n ++ ".0").toList n := by
  obtain ⟨nonempty, digits⟩ := digits_nat n
  refine ⟨(toString n).toList, ['0'], String.toList_append, nonempty, fun c hc => ?_, ?_⟩
  · rcases List.mem_append.1 hc with hc | hc
    · exact digits c hc
    · rw [List.mem_singleton.1 hc]
      rfl
  · have ten : ofDigits ((toString n).toList ++ ['0']) = 10 * n := by
      rw [ofDigits, List.foldl_append, ← ofDigits, ofDigits_toString]
      rfl
    rw [ten]
    push_cast
    simp

/-- A decimal with a point. -/
theorem reads_positional {d : Decimal} {k : Nat} (h : d.exponent = .negSucc k) :
    Reads d.positional.toList d.value := by
  obtain ⟨nonempty, digits⟩ := digits_nat d.digits
  have value : d.value = d.digits / 10 ^ (k + 1) := by
    rw [Decimal.value, h, zpow_negSucc, div_eq_mul_inv]
  have read := ofDigits_toString d.digits
  unfold Decimal.positional
  rw [h]
  dsimp only
  rw [← String.length_toList]
  generalize htext : (toString d.digits).toList = text at *
  split
  · next inside =>
    refine ⟨text.take (text.length - (k + 1)), text.drop (text.length - (k + 1)), by simp, ?_, ?_,
      ?_⟩
    · exact List.ne_nil_of_length_pos (by rw [List.length_take]; omega)
    · rwa [List.take_append_drop]
    · have places : text.length - (text.length - (k + 1)) = k + 1 := by omega
      rw [List.take_append_drop, read, List.length_drop, places, value]
  · next outside =>
    have zero : ∀ cs, ofDigits (['0'] ++ cs) = ofDigits cs := fun cs => rfl
    refine ⟨['0'], List.replicate (k + 1 - text.length) '0' ++ text, ?_,
      List.cons_ne_nil _ _, ?_, ?_⟩
    · simp only [String.toList_append, String.toList_ofList, htext, List.append_assoc]
      rfl
    · intro c hc
      rcases List.mem_append.1 hc with hc | hc
      · rw [List.mem_singleton.1 hc]
        rfl
      · rcases List.mem_append.1 hc with hc | hc
        · rw [List.eq_of_mem_replicate hc]
          rfl
        · exact digits c hc
    · have places : k + 1 - text.length + text.length = k + 1 := by omega
      rw [zero, ofDigits_zeros, read, List.length_append, List.length_replicate, places,
        value]

/-! ## Texts of doubles -/

variable {x y : Float} {a b : Binary}

/-- The text of a double without its sign. -/
def unsigned (b : Binary) : String :=
  match b.magnitude? with
  | some n => toString n ++ ".0"
  | none => (Shortest.digits .up b).positional

theorem display_finite (h : Binary.ofFloat? x = some b) :
    display x = (if b.negative then "-" else "") ++ unsigned b := by
  unfold display unsigned
  rw [h]
  dsimp only
  cases b.magnitude? with
  | none => rfl
  | some n => exact String.append_assoc

end Number

/-- An integer is its own value. -/
theorem Binary.middle_magnitude {b : Binary} {n : Nat} (h : b.magnitude? = some n) :
    (n : ℚ) = (Shortest.interval b).middle := by
  rw [← magnitude?_eq_some.1 h, Shortest.middle_interval, Shortest.quarter, size]
  ring

namespace Number

/-- The number is in the interval of a double, or both are zero. -/
def Near (b : Binary) (v : ℚ) : Prop :=
  (b.significand = 0 → v = 0) ∧ (b.significand ≠ 0 → (Shortest.interval b).Mem v)

/-- The text of a double without its sign is a decimal near to it. -/
theorem reads_unsigned {b : Binary} (h : b.Canonical) :
    ∃ v, Reads (unsigned b).toList v ∧ Near b v := by
  unfold unsigned
  split
  · next n whole =>
    have middle := Binary.middle_magnitude whole
    refine ⟨n, reads_integer n, fun zero => ?_, fun positive => ?_⟩
    · rw [middle, Shortest.middle_interval, zero]
      simp
    · rw [middle]
      exact Shortest.middle_mem positive
  · next fraction =>
    have positive : b.significand ≠ 0 := by
      intro zero
      have whole : b.magnitude? = some 0 :=
        Binary.magnitude?_eq_some.2 ((Binary.size_eq_zero zero).trans Nat.cast_zero.symm)
      rw [whole] at fraction
      cases fraction
    have inside := Shortest.digits_mem h positive .up
    cases exponent : (Shortest.digits .up b).exponent with
    | ofNat k =>
      have whole : (Shortest.digits .up b).value =
          (((Shortest.digits .up b).digits * 10 ^ k : Nat) : ℚ) := by
        rw [Decimal.value, exponent]
        push_cast
        rfl
      rw [whole] at inside
      exact absurd inside (Shortest.not_mem_integer positive fraction _)
    | negSucc k =>
      exact ⟨_, reads_positional exponent, fun zero => absurd zero positive, fun _ => inside⟩

/-- A finite double is displayed with a point. -/
theorem point_display (h : Binary.ofFloat? x = some b) : '.' ∈ (display x).toList := by
  obtain ⟨v, ⟨whole, fraction, text, -⟩, -⟩ := reads_unsigned (Binary.canonical_ofFloat? h)
  rw [display_finite h, String.toList_append, text]
  simp

/-- A double is known from its sign and a number near to it. -/
theorem binary_eq (ha : a.Canonical) (hb : b.Canonical) (sign : a.negative = b.negative) {v : ℚ}
    (inside : Near a v) (inside' : Near b v) : a = b := by
  have parts : a.significand = b.significand ∧ a.exponent = b.exponent := by
    by_cases za : a.significand = 0 <;> by_cases zb : b.significand = 0
    · exact ⟨za.trans zb.symm, (ha.least_of_zero za).trans (hb.least_of_zero zb).symm⟩
    · exact absurd (inside.1 za ▸ inside'.2 zb) (Shortest.not_mem_zero zb)
    · exact absurd (inside'.1 zb ▸ inside.2 za) (Shortest.not_mem_zero za)
    · exact Shortest.interval_unique ha hb za zb (inside.2 za) (inside'.2 zb)
  obtain ⟨s, m, e⟩ := a
  obtain ⟨s', m', e'⟩ := b
  rw [Binary.mk.injEq]
  exact ⟨sign, parts⟩

/-- No sign is the beginning of a text without one. -/
theorem unsigned_ne_minus (h : b.Canonical) (rest : List Char) :
    (unsigned b).toList ≠ '-' :: rest := by
  obtain ⟨v, ⟨whole, fraction, text, nonempty, digits, -⟩, -⟩ := reads_unsigned h
  obtain ⟨c, cs, rfl⟩ := List.exists_cons_of_ne_nil nonempty
  rw [text]
  intro same
  have := digits c List.mem_cons_self
  rw [(List.cons.inj same).1] at this
  cases this

/-- No two finite doubles are displayed alike. -/
theorem display_inj (hx : Binary.ofFloat? x = some a) (hy : Binary.ofFloat? y = some b)
    (same : display x = display y) : x = y := by
  have ha := Binary.canonical_ofFloat? hx
  have hb := Binary.canonical_ofFloat? hy
  have texts := congrArg String.toList same
  rw [display_finite hx, display_finite hy, String.toList_append, String.toList_append] at texts
  have parts : a.negative = b.negative ∧ (unsigned a).toList = (unsigned b).toList := by
    cases na : a.negative <;> cases nb : b.negative <;> rw [na, nb] at texts
    · exact ⟨rfl, texts⟩
    · exact absurd texts (unsigned_ne_minus ha _)
    · exact absurd texts.symm (unsigned_ne_minus hb _)
    · exact ⟨rfl, (List.cons.inj texts).2⟩
  obtain ⟨v, reads, inside⟩ := reads_unsigned ha
  obtain ⟨v', reads', inside'⟩ := reads_unsigned hb
  rw [← parts.2] at reads'
  obtain rfl := reads.unique reads'
  have := binary_eq ha hb parts.1 inside inside'
  exact Binary.ofFloat?_inj hx (this ▸ hy)

end Number

end TickScript
