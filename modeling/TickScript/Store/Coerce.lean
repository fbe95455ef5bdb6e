import TickScript.Store

/-!
# Fitting values to types

A value that is kept under a name of some type is first made to fit it. An array stays the
same array: its elements are converted where they stand, one after the other, and an
element that does not fit leaves those before it converted.
-/

namespace TickScript

/-- Converts elements from the left up to the first that does not fit. -/
def convertItems (element : Scalar) : List Value → List Value × Option Mismatch
  | [] => ([], none)
  | v :: vs =>
    match v.convert (.scalar element) with
    | .error m => (v :: vs, some m)
    | .ok w =>
      let (ws, failure) := convertItems element vs
      (w :: ws, failure)

namespace Store

/-- Makes a value fit a type. -/
def coerce (type : Ty) (v : Value) : EStateM Mismatch Store Value := fun s =>
  match type, v with
  | .array element, .array a =>
    match convertItems element (s.items a).toList with
    | (items, none) => .ok (.array a) (s.setItems a items.toArray)
    | (items, some m) => .error m (s.setItems a items.toArray)
  | type, v =>
    match v.convert type with
    | .ok w => .ok w s
    | .error m => .error m s

end Store

end TickScript
