import TickScript.Proofs.Frames

/-!
# Shapes of values

A value has the shape of a type if it is of its kind; an array, if all its elements are. Fitting
a value that has the shape of a type to this type changes nothing, not even an array in place.
What may change an array in place is a literal that has just been made, which nobody else holds.

Stores are compared by what they grant later: an array keeps the kind of its elements, and what
is bound to a name in the shape of its type can be replaced by such a value only.
-/

namespace TickScript

/-- Is the value of this kind? -/
def Scalar.holds : Scalar → Value → Bool
  | .int, .int _ => true
  | .float, .float _ => true
  | .bool, .bool _ => true
  | _, _ => false

namespace Store

/-- All elements of an array are of one kind. -/
def Filled (s : Store) (a : ArrayId) (element : Scalar) : Prop :=
  a < s.arrays.size ∧ ∀ v ∈ s.items a, element.holds v = true

/-- The value has the shape of the type. -/
def HasShape (s : Store) (v : Value) : Ty → Prop
  | .scalar k => k.holds v = true
  | .array element => ∃ a, v = .array a ∧ s.Filled a element
  | .void => v = .nil
  | .any => False
  | .unknown => False

/-- A function has the shape of no type. -/
theorem not_shape_function {s : Store} (f : FunctionId) (type : Ty) :
    ¬ s.HasShape (.function f) type := by
  intro h
  cases type with
  | scalar k => cases k <;> cases h
  | array element =>
    obtain ⟨a, ha, -⟩ := h
    cases ha
  | void => cases h
  | any => exact h
  | unknown => exact h

/-! ## Conversion -/

theorem holds_convert {k : Scalar} {v w : Value} (h : v.convert (.scalar k) = .ok w) :
    k.holds w = true := by
  cases k <;> cases v
  case int.float =>
    rw [Value.convert_float_int] at h
    split at h <;> cases h
    rfl
  all_goals cases h <;> rfl

theorem convert_holds {k : Scalar} {v : Value} (h : k.holds v = true) :
    v.convert (.scalar k) = .ok v := by
  cases k <;> cases v <;> first | rfl | cases h

theorem convertItems_holds {element : Scalar} {vs : List Value}
    (h : ∀ v ∈ vs, element.holds v = true) : convertItems element vs = (vs, none) := by
  induction vs with
  | nil => rfl
  | cons v vs ih =>
    rw [convertItems, convert_holds (h v List.mem_cons_self),
      ih fun w hw => h w (List.mem_cons_of_mem v hw)]

theorem holds_convertItems {element : Scalar} : ∀ {vs ws : List Value},
    convertItems element vs = (ws, none) → ∀ w ∈ ws, element.holds w = true
  | [], _, h => by
    cases h
    simp
  | v :: vs, ws, h => by
    rw [convertItems] at h
    split at h
    · cases h
    · next w hw =>
      cases hrest : convertItems element vs with
      | mk rest failure =>
        rw [hrest] at h
        cases h
        intro u hu
        rcases List.mem_cons.1 hu with rfl | hu
        · exact holds_convert hw
        · exact holds_convertItems hrest u hu

/-- Elements that can all be converted are. -/
theorem convertItems_ok {element : Scalar} {vs : List Value}
    (h : ∀ v ∈ vs, ∃ w, v.convert (.scalar element) = .ok w) :
    (convertItems element vs).2 = none := by
  induction vs with
  | nil => rfl
  | cons v vs ih =>
    obtain ⟨w, hw⟩ := h v List.mem_cons_self
    rw [convertItems, hw]
    exact ih fun u hu => h u (List.mem_cons_of_mem v hu)

/-! ## Arrays after a step -/

theorem mem_items {s : Store} {a : ArrayId} (h : a < s.arrays.size) :
    s.arrays[a]? = some (s.items a) := by
  rw [items, Array.getD_eq_getD_getElem?, Array.getElem?_eq_getElem h, Option.getD_some]

theorem items_of_getElem? {s : Store} {a : ArrayId} {items : Array Value}
    (h : s.arrays[a]? = some items) : s.items a = items := by
  rw [Store.items, Array.getD_eq_getD_getElem?, h, Option.getD_some]

theorem filled_congr {s t : Store} {a : ArrayId} {element : Scalar} (h : s.Filled a element)
    (he : t.arrays[a]? = s.arrays[a]?) : t.Filled a element := by
  have hs := mem_items h.1
  rw [← he] at hs
  refine ⟨(Array.getElem?_eq_some_iff.1 hs).1, ?_⟩
  rw [items_of_getElem? hs]
  exact h.2

/-- Replacing the elements of an array by themselves changes nothing. -/
theorem setItems_items (s : Store) (a : ArrayId) : s.setItems a (s.items a) = s := by
  have harrays : s.arrays.setIfInBounds a (s.items a) = s.arrays := by
    refine Array.ext_getElem? fun i => ?_
    rw [Array.getElem?_setIfInBounds]
    split
    · next hi =>
      subst hi
      split
      · next hlt => exact (mem_items hlt).symm
      · next hlt => exact (Array.getElem?_eq_none (Nat.le_of_not_lt hlt)).symm
    · rfl
  rw [setItems, harrays]

/-! ## Fitting -/

/-- Fitting a value to the type of its own shape changes nothing. -/
theorem coerce_shape {s : Store} {v : Value} {type : Ty} (h : s.HasShape v type) :
    coerce type v s = .ok v s := by
  cases type with
  | scalar k =>
    rw [coerce_plain s (by simp), convert_holds h]
  | array element =>
    obtain ⟨a, rfl, hfill⟩ := h
    have hitems : convertItems element (s.items a).toList = ((s.items a).toList, none) :=
      convertItems_holds fun v hv => hfill.2 v (Array.mem_toList_iff.1 hv)
    rw [coerce_array, hitems]
    dsimp only
    rw [Array.toArray_toList, setItems_items]
  | void =>
    obtain rfl : v = .nil := h
    rfl
  | any => exact h.elim
  | unknown => exact h.elim

/-- What converts to a type that is not wild has its shape then, unless both are of arrays. -/
theorem shape_convert {s : Store} {v w : Value} {type : Ty} (hwild : type.isWild = false)
    (hplain : ∀ element a, type = .array element → v ≠ .array a) (h : v.convert type = .ok w) :
    s.HasShape w type := by
  cases type with
  | scalar k => exact holds_convert h
  | array element => cases v <;> first | exact absurd rfl (hplain _ _ rfl) | cases h
  | void =>
    cases v <;> first | (cases h; rfl) | cases h
  | any => cases hwild
  | unknown => cases hwild

/-- What fits a type that is not wild has its shape then, unless it is an array. -/
theorem shape_coerce {s t : Store} {v w : Value} {type : Ty} (hwild : type.isWild = false)
    (hv : ∀ a, v ≠ .array a) (h : coerce type v s = .ok w t) : t = s ∧ s.HasShape w type := by
  rw [coerce_plain s fun _ a _ => hv a] at h
  cases hc : v.convert type with
  | error m =>
    rw [hc] at h
    cases h
  | ok w' =>
    rw [hc] at h
    cases h
    exact ⟨rfl, shape_convert hwild (fun _ a _ => hv a) hc⟩

/-- Fitting anything but an array leaves the store as it is. -/
theorem coerce_same {s : Store} {v : Value} (type : Ty) (hv : ∀ a, v ≠ .array a) :
    (∀ w t, coerce type v s = .ok w t → t = s) ∧ ∀ m t, coerce type v s = .error m t → t = s := by
  rw [coerce_plain s fun _ a _ => hv a]
  cases v.convert type with
  | ok w =>
    refine ⟨fun w t h => ?_, fun m t h => ?_⟩
    · cases h
      rfl
    · cases h
  | error m =>
    refine ⟨fun w t h => ?_, fun m t h => ?_⟩
    · cases h
    · cases h
      rfl

/-! ## Values of expressions -/

/-- What is known of the value of an expression of static type `type`: if it is an array then it
has the shape of the type, and if types are `exact` then it has this shape in any case. -/
structure Fits (exact : Prop) (s : Store) (v : Value) (type : Ty) : Prop where
  array : ∀ a, v = .array a → s.HasShape v type
  shape : exact → s.HasShape v type

variable {exact : Prop} {s t : Store} {v w : Value} {slot type : Ty}

theorem HasShape.fits (h : s.HasShape v type) : s.Fits exact v type :=
  ⟨fun _ _ => h, fun _ => h⟩

/-- What is no array fits, as long as types need not be exact. -/
theorem Fits.of_not_array (hv : ∀ a, v ≠ .array a) (h : exact → s.HasShape v type) :
    s.Fits exact v type :=
  ⟨fun a e => absurd e (hv a), h⟩

theorem Fits.not_array (h : s.Fits exact v type) (ht : ∀ element, type ≠ .array element) (a : ArrayId) :
    v ≠ .array a := by
  intro e
  have hs := h.array a e
  subst e
  cases type with
  | scalar k => cases k <;> cases hs
  | array element => exact ht element rfl
  | void => cases hs
  | any => exact hs
  | unknown => exact hs

/-- The type of a slot and that of a value that it takes. -/
theorem accepts_cases (hs : slot.isWild = false) (hv : type.isWild = false)
    (h : slot.compatible type = true) : slot = type ∨ slot = .float ∧ type = .int := by
  simp only [Ty.compatible, hs, hv, Bool.false_or, Ty.accepts] at h
  split at h
  · next ha =>
    rcases ha with rfl | rfl
    · cases hs
    · cases hv
  · split at h
    · next hf =>
      subst hf
      cases type with
      | scalar k => cases k <;> first | exact .inl rfl | exact .inr ⟨rfl, rfl⟩ | cases h
      | _ => cases h
    · exact .inl (of_decide_eq_true h)

/-- Fitting the value of an expression to a slot that takes its type leaves the store as it is.
It gives a value of the slot's shape, and it fails only if types are not exact. -/
theorem Fits.coerce (h : s.Fits exact v type) (hs : slot.isWild = false)
    (hv : type.isWild = false) (hc : slot.compatible type = true) :
    match Store.coerce slot v s with
    | .ok w t => t = s ∧ s.HasShape w slot
    | .error _ t => t = s ∧ ¬ exact := by
  rcases accepts_cases hs hv hc with rfl | ⟨rfl, rfl⟩
  · by_cases hshape : s.HasShape v slot
    · rw [coerce_shape hshape]
      exact ⟨rfl, hshape⟩
    · have hna : ∀ a, v ≠ .array a := fun a e => hshape (h.array a e)
      cases hr : Store.coerce slot v s with
      | ok w t => exact shape_coerce hs hna hr
      | error m t => exact ⟨(coerce_same slot hna).2 m t hr, fun he => hshape (h.shape he)⟩
  · have hna := h.not_array (by simp)
    cases hr : Store.coerce .float v s with
    | ok w t => exact shape_coerce hs hna hr
    | error m t =>
      refine ⟨(coerce_same _ hna).2 m t hr, fun he => ?_⟩
      have hint := h.shape he
      cases v with
      | int n => cases hr
      | _ => cases hint

/-! ## New arrays -/

/-- The store `t` has the scopes of `s` and its arrays and functions, and perhaps other arrays and
functions, but none of a script. -/
structure Extends (s t : Store) : Prop where
  scopes : t.scopes = s.scopes
  functions : ∃ added, t.functions = s.functions ++ added ∧ ∀ k ∈ added, k.isScript = false
  arrays : ∀ a, a < s.arrays.size → t.arrays[a]? = s.arrays[a]?

theorem Extends.of_functions (hs : t.scopes = s.scopes) (hf : t.functions = s.functions)
    (ha : ∀ a, a < s.arrays.size → t.arrays[a]? = s.arrays[a]?) : Extends s t :=
  ⟨hs, ⟨#[], by rw [hf, Array.append_empty], by simp⟩, ha⟩

theorem Extends.refl (s : Store) : Extends s s :=
  .of_functions rfl rfl fun _ _ => rfl

theorem extends_newArray (s : Store) (items : Array Value) : Extends s (s.newArray items).2 := by
  refine .of_functions rfl rfl fun a ha => ?_
  rw [newArray, Array.getElem?_push, if_neg (Nat.ne_of_lt ha)]

theorem Extends.size (h : Extends s t) : s.arrays.size ≤ t.arrays.size := by
  by_contra hlt
  have hlt' : t.arrays.size < s.arrays.size := Nat.lt_of_not_le hlt
  have := h.arrays _ hlt'
  rw [Array.getElem?_eq_none (Nat.le_refl _), Array.getElem?_eq_getElem hlt'] at this
  cases this

theorem Extends.trans {u : Store} (h : Extends s t) (h' : Extends t u) : Extends s u where
  scopes := h'.scopes.trans h.scopes
  functions := by
    obtain ⟨added, hadd, hno⟩ := h.functions
    obtain ⟨added', hadd', hno'⟩ := h'.functions
    refine ⟨added ++ added', by rw [hadd', hadd, Array.append_assoc], fun k hk => ?_⟩
    rcases Array.mem_append.1 hk with hk | hk
    · exact hno k hk
    · exact hno' k hk
  arrays a ha := (h'.arrays a (Nat.lt_of_lt_of_le ha h.size)).trans (h.arrays a ha)

theorem Extends.setItems {a : ArrayId} (h : Extends s t) (ha : s.arrays.size ≤ a)
    (items : Array Value) : Extends s (t.setItems a items) where
  scopes := h.scopes
  functions := h.functions
  arrays b hb := by
    rw [Store.setItems, Array.getElem?_setIfInBounds, if_neg fun e => ?_]
    · exact h.arrays b hb
    · exact absurd (Nat.lt_of_lt_of_le (e ▸ hb) ha) (Nat.lt_irrefl _)

/-- An array that `s` does not have is fitted where it stands, and no array of `s` is touched. -/
theorem Extends.coerce {a : ArrayId} (h : Extends s t) (ha : s.arrays.size ≤ a)
    (hlt : a < t.arrays.size) (element : Scalar) :
    match Store.coerce (.array element) (.array a) t with
    | .ok w u => Extends s u ∧ u.HasShape w (.array element)
    | .error _ u => Extends s u ∧ ∃ v ∈ t.items a, ∀ w, v.convert (.scalar element) ≠ .ok w := by
  rw [coerce_array]
  cases hc : convertItems element (t.items a).toList with
  | mk ws failure =>
    cases failure with
    | none =>
      refine ⟨h.setItems ha _, a, rfl, ?_, fun v hv => ?_⟩
      · simpa [Store.setItems] using hlt
      · rw [items_setItems _ _ _ _ hlt, if_pos rfl] at hv
        exact holds_convertItems hc v (by simpa using hv)
    | some m =>
      refine ⟨h.setItems ha _, ?_⟩
      by_contra hall
      have hok : (convertItems element (t.items a).toList).2 = none := by
        refine convertItems_ok fun v hv => ?_
        by_contra hno
        exact hall ⟨v, Array.mem_toList_iff.1 hv, fun w hw => hno ⟨w, hw⟩⟩
      rw [hc] at hok
      cases hok

/-- A new array is fitted where it stands, and no other array is touched. -/
theorem coerce_newArray (s : Store) (element : Scalar) (items : Array Value) :
    match coerce (.array element) (.array s.arrays.size) (s.newArray items).2 with
    | .ok w t => Extends s t ∧ t.HasShape w (.array element)
    | .error _ t => Extends s t ∧ ∃ v ∈ items, ∀ w, v.convert (.scalar element) ≠ .ok w := by
  have hitems : (s.newArray items).2.items s.arrays.size = items := s.items_newArray items
  have h := (extends_newArray s items).coerce (Nat.le_refl _) (by simp [newArray]) element
  rw [hitems] at h
  exact h

/-! ## Later stores -/

/-- The name is bound in the scope, to a value of the shape of the type. -/
def Holds (s : Store) (scope : ScopeId) (name : String) (type : Ty) : Prop :=
  ∃ v, s.lookup scope name = some v ∧ s.HasShape v type

/-- What the store `s` grants is still there in `t`: its scopes, arrays of one kind, functions,
and in the scopes from `globals` on the names that are bound in the shape of their type. -/
structure Later (types : String → Ty) (globals : ScopeId) (s t : Store) : Prop where
  scopes : s.scopes.size ≤ t.scopes.size
  arrays : ∀ a element, s.Filled a element → t.Filled a element
  functions : ∀ (f : FunctionId) (k : Callable), s.functions[f]? = some k → t.functions[f]? = some k
  bindings : ∀ c n, globals ≤ c → s.Holds c n (types n) → t.Holds c n (types n)

variable {types : String → Ty} {globals : ScopeId}

theorem HasShape.filled (h : s.HasShape v type)
    (hf : ∀ a element, s.Filled a element → t.Filled a element) : t.HasShape v type := by
  cases type with
  | array element =>
    obtain ⟨a, rfl, hfill⟩ := h
    exact ⟨a, rfl, hf a element hfill⟩
  | _ => exact h

theorem HasShape.later (h : s.HasShape v type) (hl : Later types globals s t) :
    t.HasShape v type :=
  h.filled hl.arrays

theorem Fits.later (h : s.Fits exact v type) (hl : Later types globals s t) :
    t.Fits exact v type :=
  ⟨fun a e => (h.array a e).later hl, fun he => (h.shape he).later hl⟩

instance : StoreOrder (Later types globals) where
  refl _ := ⟨Nat.le_refl _, fun _ _ h => h, fun _ _ h => h, fun _ _ _ h => h⟩
  trans h h' := ⟨Nat.le_trans h.scopes h'.scopes,
    fun a element hf => h'.arrays a element (h.arrays a element hf),
    fun f k hk => h'.functions f k (h.functions f k hk),
    fun c n hle hn => h'.bindings c n hle (h.bindings c n hle hn)⟩

/-- What makes new arrays only comes later. -/
theorem Extends.later (h : Extends s t) : Later types globals s t := by
  have arrays : ∀ a element, s.Filled a element → t.Filled a element :=
    fun a element hf => filled_congr hf (h.arrays a hf.1)
  refine ⟨Nat.le_of_eq (by rw [h.scopes]), arrays, fun f k hk => ?_, ?_⟩
  · obtain ⟨added, hadd, -⟩ := h.functions
    rw [hadd, Array.getElem?_append_left (Array.getElem?_eq_some_iff.1 hk).1]
    exact hk
  · rintro c n - ⟨v, hv, hs⟩
    exact ⟨v, by rw [lookup, h.scopes]; exact hv, hs.filled arrays⟩

end Store

end TickScript
