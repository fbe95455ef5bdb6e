import Mathlib
import TickScript.Proofs.Displayed
import TickScript.Proofs.Grammar
import TickScript.Proofs.Printing.Forms
import TickScript.Proofs.Printing.Lexemes

/-!
# Printed words

Literals and names are printed as words, and so are operators and types. No two literals look alike
(`Literal.display_inj`), no name looks like a literal, and no operator looks like the word for a
node that has none.
-/

namespace TickScript

open Form

/-! ## Numbers -/

namespace Number

/-- The characters of a number. -/
def IsPart (c : Char) : Prop :=
  c.isDigit = true ∨ c = '-' ∨ c = '.'

theorem isWord_parts {text : String} (nonempty : text.toList ≠ [])
    (parts : ∀ c ∈ text.toList, IsPart c) : IsWord text := by
  refine ⟨nonempty, fun c hc mark => ?_⟩
  have none : ∀ c ∈ marks, ¬ (c.isDigit = true ∨ c = '-' ∨ c = '.') := by simp [marks]
  exact none c mark (parts c hc)

theorem digits_int (n : Int) :
    (toString n).toList ≠ [] ∧ ∀ c ∈ (toString n).toList, c.isDigit = true ∨ c = '-' := by
  have natural : ∀ n : Nat, n.repr.toList ≠ [] ∧ ∀ c ∈ n.repr.toList, c.isDigit = true := digits_nat
  rw [Int.toString_eq_repr]
  cases n with
  | ofNat m => exact ⟨(natural m).1, fun c hc => .inl ((natural m).2 c hc)⟩
  | negSucc m =>
    have text : (Int.repr (.negSucc m)).toList = '-' :: m.succ.repr.toList := by
      rw [Int.repr, String.toList_append]
      rfl
    rw [text]
    refine ⟨List.cons_ne_nil _ _, fun c hc => ?_⟩
    rcases List.mem_cons.1 hc with rfl | hc
    · exact .inr rfl
    · exact .inl ((natural _).2 c hc)

theorem isWord_display (x : Float) : IsWord (display x) := by
  cases h : Binary.ofFloat? x with
  | none =>
    unfold display
    rw [h]
    dsimp only
    split
    · decide
    · split <;> decide
  | some b =>
    obtain ⟨v, ⟨whole, fraction, text, -, digits, -⟩, -⟩ :=
      reads_unsigned (Binary.canonical_ofFloat? h)
    rw [display_finite h]
    refine isWord_parts (by simp [text]) fun c hc => ?_
    rw [String.toList_append, text] at hc
    rcases List.mem_append.1 hc with hc | hc
    · cases sign : b.negative with
      | false => simp [sign] at hc
      | true => exact .inr (.inl (by simpa [sign] using hc))
    · rcases List.mem_append.1 hc with hc | hc
      · exact .inl (digits c (List.mem_append_left _ hc))
      · rcases List.mem_cons.1 hc with rfl | hc
        · exact .inr (.inr rfl)
        · exact .inl (digits c (List.mem_append_right _ hc))

end Number

/-! ## Literals -/

namespace Literal

variable {v w : Literal}

theorem isWord_display (v : Literal) : IsWord v.display := by
  cases v with
  | int n =>
    obtain ⟨nonempty, parts⟩ := Number.digits_int n.toInt
    exact Number.isWord_parts nonempty fun c hc => (parts c hc).imp_right .inl
  | float x => exact Number.isWord_display x
  | bool b => cases b <;> decide

/-- The literal is no infinite double. -/
def Finite (v : Literal) : Prop :=
  ∀ x, v = .float x → (Binary.ofFloat? x).isSome = true

theorem Finite.point {x : Float} (h : (float x).Finite) : '.' ∈ (display (.float x)).toList := by
  obtain ⟨b, hb⟩ := Option.isSome_iff_exists.1 (h x rfl)
  exact Number.point_display hb

theorem not_point_int (n : Int64) : '.' ∉ (display (.int n)).toList := by
  intro hc
  rcases (Number.digits_int n.toInt).2 _ hc with digit | minus
  · cases digit
  · cases minus

theorem display_int_ne_bool (n : Int64) (b : Bool) : display (.int n) ≠ display (.bool b) := by
  intro same
  obtain ⟨-, parts⟩ := Number.digits_int n.toInt
  change ∀ c ∈ (display (.int n)).toList, _ at parts
  rw [same] at parts
  cases b <;> simp [display] at parts

/-- Different literals are printed differently. -/
theorem display_inj (hv : v.Finite) (hw : w.Finite) (same : v.display = w.display) : v = w := by
  have not_point_bool : ∀ b, '.' ∉ (display (.bool b)).toList := by
    intro b
    cases b <;> simp [display]
  cases v with
  | int n =>
    cases w with
    | int m =>
      rw [display, display, Int.toString_eq_repr, Int.toString_eq_repr, Int.repr_inj] at same
      rw [Int64.toInt_inj.1 same]
    | float y => exact absurd (same ▸ hw.point) (not_point_int n)
    | bool b => exact absurd same (display_int_ne_bool n b)
  | float x =>
    cases w with
    | int m => exact absurd (same ▸ hv.point) (not_point_int m)
    | float y =>
      obtain ⟨a, ha⟩ := Option.isSome_iff_exists.1 (hv x rfl)
      obtain ⟨b, hb⟩ := Option.isSome_iff_exists.1 (hw y rfl)
      rw [Number.display_inj ha hb same]
    | bool b => exact absurd (same ▸ hv.point) (not_point_bool b)
  | bool b =>
    cases w with
    | int m => exact absurd same.symm (display_int_ne_bool m b)
    | float y => exact absurd (same ▸ hw.point) (not_point_bool b)
    | bool c => cases b <;> cases c <;> first | rfl | simp [display] at same

end Literal

/-! ## Names and operators -/

theorem Piece.continuesWord_of_startsWord {c : Char} (h : startsWord c = true) :
    continuesWord c = true := by
  simp only [startsWord, continuesWord, Char.isAlphanum, Bool.or_eq_true] at h ⊢
  exact h.imp_left .inl

theorem Piece.not_digit_of_startsWord {c : Char} (h : startsWord c = true) : c.isDigit = false := by
  rw [startsWord, Bool.or_eq_true, beq_iff_eq] at h
  rcases h with h | rfl
  · simp only [Char.isAlpha, Char.isUpper, Char.isLower, Bool.or_eq_true, Bool.and_eq_true,
      decide_eq_true_eq, UInt32.le_iff_toNat_le, Char.reduceVal, UInt32.reduceToNat] at h
    simp only [Char.isDigit, Bool.and_eq_false_iff, decide_eq_false_iff_not,
      UInt32.le_iff_toNat_le, Char.reduceVal, UInt32.reduceToNat]
    omega
  · rfl

namespace Token

variable {t : Token}

/-- The characters of names. -/
theorem name_chars (h : t.Legible) (hk : t.kind = .identifier) :
    ∀ c ∈ t.lexeme.toList, Piece.continuesWord c = true := by
  obtain ⟨c, cs, text, first, others⟩ := (h.shaped.name hk).2
  rw [text]
  exact List.forall_mem_cons.2 ⟨Piece.continuesWord_of_startsWord first, others⟩

theorem isWord_name (h : t.Legible) (hk : t.kind = .identifier) : IsWord t.lexeme := by
  obtain ⟨c, cs, text, -, -⟩ := (h.shaped.name hk).2
  refine ⟨text ▸ List.cons_ne_nil c cs, fun d hd mark => ?_⟩
  have none : ∀ c ∈ marks, Piece.continuesWord c = false := by simp [marks, Piece.continuesWord]
  exact absurd (name_chars h hk d hd) (by simp [none d mark])

/-- No name looks like a literal. -/
theorem name_ne_display (h : t.Legible) (hk : t.kind = .identifier) {v : Literal}
    (hv : v.Finite) : t.lexeme ≠ v.display := by
  obtain ⟨word, c, cs, text, first, -⟩ := h.shaped.name hk
  intro same
  cases v with
  | int n =>
    have digits : ∀ d ∈ t.lexeme.toList, d.isDigit = true ∨ d = '-' := by
      rw [same]
      exact (Number.digits_int n.toInt).2
    rcases digits c (by rw [text]; exact List.mem_cons_self) with digit | rfl
    · rw [Piece.not_digit_of_startsWord first] at digit
      cases digit
    · cases first
  | float x =>
    have point := name_chars h hk '.' (same ▸ hv.point)
    cases point
  | bool b =>
    rw [String.ofList_toList, same] at word
    cases b <;> cases word

/-- The operators of expressions. -/
def operatorKinds : List TokenKind :=
  .bang :: .and :: .or :: binaryKinds

/-- The words for nodes that have no operator. -/
def reserved : List String := ["group", "index", "=", "call"]

/-- No operator looks like the word for another kind of node. -/
theorem operator_word (h : t.Legible) (hk : t.kind ∈ operatorKinds) :
    IsWord t.lexeme ∧ t.lexeme ∉ reserved := by
  have all : ∀ k ∈ operatorKinds, ∃ text, k.text? = some text ∧ IsWord text ∧ text ∉ reserved := by
    have known : ∀ k ∈ operatorKinds, k.text?.isSome = true ∧
        IsWord (k.text?.getD "") ∧ k.text?.getD "" ∉ reserved := by decide
    intro k hk
    obtain ⟨some, word⟩ := known k hk
    obtain ⟨text, e⟩ := Option.isSome_iff_exists.1 some
    rw [e] at word
    exact ⟨text, e, word⟩
  obtain ⟨text, e, word⟩ := all t.kind hk
  rw [h.lexeme e]
  exact word

end Token

theorem Ty.isWord_display (t : Ty) : IsWord t.display := by
  cases t with
  | scalar s => cases s <;> decide
  | array s => cases s <;> decide
  | void => decide
  | any => decide
  | unknown => decide

end TickScript
