import TickScript.Machine.Eval

/-!
# Errors that are not about a second definition

Only a declaration can complain that its name is defined already. No operator, no index and no
conversion of a value does.
-/

namespace TickScript

/-- The interrupt is not about a name that is defined twice. Only declarations can raise
such an error. -/
def Interrupt.Mild (i : Interrupt) : Prop :=
  ∀ line name, i ≠ .error ⟨line, .alreadyDefined name⟩

theorem Interrupt.mild_exhausted : Interrupt.exhausted.Mild := by
  intro line name h
  cases h

theorem Interrupt.mild_error {line : Nat} {fault : Fault}
    (h : ∀ name, fault ≠ .alreadyDefined name) : (Interrupt.error ⟨line, fault⟩).Mild := by
  intro line' name e
  cases e
  exact h name rfl

theorem ArithmeticError.fault_ne (e : ArithmeticError) (name : String) :
    e.fault ≠ .alreadyDefined name := by
  cases e <;> simp [ArithmeticError.fault]

namespace Operator

theorem ofChecked_ne {r : Except ArithmeticError Int64} {fault : Fault}
    (h : ofChecked r = .error fault) (name : String) : fault ≠ .alreadyDefined name := by
  cases r with
  | ok n => cases h
  | error e =>
    cases h
    exact e.fault_ne name

theorem unary_ne {operator : Token} {v : Value} {fault : Fault}
    (h : unary operator v = .error fault) (name : String) : fault ≠ .alreadyDefined name := by
  unfold unary at h
  split at h
  · split at h
    · exact ofChecked_ne h name
    · cases h
    · cases h
      simp
  · cases h
  · cases h
    simp

theorem integers_ne {operator : Token} {a b : Int64} {fault : Fault}
    (h : integers operator a b = .error fault) (name : String) :
    fault ≠ .alreadyDefined name := by
  unfold integers at h
  split at h
  case h_10 =>
    cases h
    simp
  all_goals first | exact ofChecked_ne h name | cases h

theorem floats_ne {operator : Token} {a b : Float} {fault : Fault}
    (h : floats operator a b = .error fault) (name : String) : fault ≠ .alreadyDefined name := by
  unfold floats at h
  split at h
  case h_4 | h_5 =>
    split at h
    · cases h
      simp
    · cases h
  case h_10 =>
    cases h
    simp
  all_goals cases h

theorem numbers_ne {operator : Token} {l r : Value} {fault : Fault}
    (h : numbers operator l r = .error fault) (name : String) : fault ≠ .alreadyDefined name := by
  unfold numbers at h
  split at h
  · exact integers_ne h name
  · split at h
    · exact floats_ne h name
    · cases h
      simp

theorem binary_ne {s : Store} {operator : Token} {l r : Value} {fault : Fault}
    (h : binary s operator l r = .error fault) (name : String) :
    fault ≠ .alreadyDefined name := by
  unfold binary at h
  split at h
  · cases h
  · cases h
  · exact numbers_ne h name

end Operator

theorem Store.slot_ne {size : Nat} {index : Value} {fault : Fault}
    (h : Store.slot size index = .error fault) (name : String) :
    fault ≠ .alreadyDefined name := by
  unfold Store.slot at h
  split at h
  · cases h
    simp
  · split at h
    · cases h
    · cases h
      simp

end TickScript
