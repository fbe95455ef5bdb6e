import TickScript.Proofs.Copies
import TickScript.Proofs.Doubles

/-!
# Equality of values

Two values are equal if they look alike: numbers by their value, functions by what they are, and
arrays place by place, whichever arrays they are. This holds of all values that nest to some depth
and have no NaN in them. A comparison answers at once when it is given the same array twice, and
this never matters, because such a value looks like itself.

A store of a machine has room for far fewer arrays than a comparison descends, and no array of such
a value is part of itself. A comparison therefore sees all of the two values.
-/

namespace TickScript

namespace Store

variable {s t : Store} {v w x : Value} {depth : Nat}

/-! ## Values that end -/

/-- The value `w` is `v`, or an element of an array that is part of it. -/
inductive Part (s : Store) (v : Value) : Value → Prop where
  | self : Part s v v
  | item {a : ArrayId} {w : Value} (part : Part s v (.array a)) (mem : w ∈ s.items a) : Part s v w

/-- The value nests at most `depth` deep, and no NaN is in it. -/
def Regular (s : Store) : (depth : Nat) → Value → Prop
  | _, .float x => x.isNaN = false
  | 0, .array _ => False
  | depth + 1, .array a => ∀ v ∈ s.items a, s.Regular depth v
  | _, _ => True

instance Regular.decidable (s : Store) : (depth : Nat) → (v : Value) →
    Decidable (s.Regular depth v)
  | 0, .array _ => isFalse id
  | depth + 1, .array a =>
    have (v : Value) := Regular.decidable s depth v
    inferInstanceAs (Decidable (∀ v ∈ s.items a, s.Regular depth v))
  | 0, .float x | _ + 1, .float x => inferInstanceAs (Decidable (x.isNaN = false))
  | 0, .int _ | _ + 1, .int _ => isTrue trivial
  | 0, .bool _ | _ + 1, .bool _ => isTrue trivial
  | 0, .function _ | _ + 1, .function _ => isTrue trivial
  | 0, .nil | _ + 1, .nil => isTrue trivial

/-- A value of the store that nests to some depth, without NaN. -/
structure Ends (s : Store) (v : Value) : Prop where
  has : s.Has v
  nests : ∃ depth, s.Regular depth v

/-- The values have the same shape and the same numbers, truth values and functions in it. -/
inductive Alike (s : Store) : Value → Value → Prop where
  | int (n : Int64) : Alike s (.int n) (.int n)
  | float {x y : Float} (same : Number.Same x y) : Alike s (.float x) (.float y)
  | bool (b : Bool) : Alike s (.bool b) (.bool b)
  | array {a b : ArrayId} (size : (s.items a).size = (s.items b).size)
      (items : ∀ (i : Nat) (v w : Value), (s.items a)[i]? = some v → (s.items b)[i]? = some w →
        Alike s v w) : Alike s (.array a) (.array b)
  | function (f : FunctionId) : Alike s (.function f) (.function f)
  | nil : Alike s .nil .nil

theorem Part.within {a : ArrayId} (mem : v ∈ s.items a) (h : s.Part v w) :
    s.Part (.array a) w := by
  induction h with
  | self => exact .item .self mem
  | item _ m ih => exact .item ih m

theorem Closed.part (closed : s.Closed) (has : s.Has v) (h : s.Part v w) : s.Has w := by
  cases h with
  | self => exact has
  | item _ m => exact closed.items _ _ m

theorem regular_float {x : Float} : s.Regular depth (.float x) ↔ x.isNaN = false := by
  cases depth <;> rfl

/-- How deep a value may nest only matters if it is an array. -/
theorem Regular.of_plain (h : s.Regular depth v) (plain : ∀ a, v ≠ .array a) (other : Nat) :
    s.Regular other v := by
  cases v with
  | array a => exact absurd rfl (plain a)
  | float x => cases depth <;> cases other <;> exact h
  | _ => cases other <;> trivial

theorem Regular.mono : ∀ {depth deeper : Nat} {v : Value}, s.Regular depth v → depth ≤ deeper →
    s.Regular deeper v
  | 0, _, .array _, h, _ => h.elim
  | _ + 1, 0, .array _, _, hle => absurd hle (Nat.not_succ_le_zero _)
  | _ + 1, _ + 1, .array _, h, hle => fun v hv => (h v hv).mono (Nat.le_of_succ_le_succ hle)
  | _, _, .float _, h, _ => h.of_plain (by simp) _
  | _, _, .int _, h, _ => h.of_plain (by simp) _
  | _, _, .bool _, h, _ => h.of_plain (by simp) _
  | _, _, .function _, h, _ => h.of_plain (by simp) _
  | _, _, .nil, h, _ => h.of_plain (by simp) _

theorem Regular.part (h : s.Regular depth v) (part : s.Part v w) : s.Regular depth w := by
  induction part with
  | self => exact h
  | item _ m ih =>
    cases depth with
    | zero => exact ih.elim
    | succ depth => exact (ih _ m).mono (Nat.le_succ depth)

/-- An array that nests to some depth is not part of its own elements. -/
theorem Regular.not_part_item {a : ArrayId} : ∀ {depth : Nat}, s.Regular depth (.array a) →
    ∀ v ∈ s.items a, ¬ s.Part v (.array a)
  | 0, h => h.elim
  | _ + 1, h => fun v hv part => not_part_item ((h v hv).part part) v hv part

/-- A value nests no deeper than there are arrays that can be part of it. -/
theorem Regular.card : ∀ {depth : Nat} {v : Value} (arrays : Finset ArrayId),
    s.Regular depth v → (∀ a, s.Part v (.array a) → a ∈ arrays) → s.Regular arrays.card v := by
  intro depth
  induction depth with
  | zero => exact fun _ h _ => h.mono (Nat.zero_le _)
  | succ depth ih =>
    intro v arrays h covered
    cases v with
    | array a =>
      -- What is left for the elements is one array less.
      rw [← Finset.card_erase_add_one (covered a .self)]
      intro v hv
      refine ih (arrays.erase a) (h v hv) fun b part => Finset.mem_erase.2 ⟨?_, ?_⟩
      · rintro rfl
        exact h.not_part_item v hv part
      · exact covered b (part.within hv)
    | _ => exact h.of_plain (by simp) _

theorem Ends.regular (h : s.Ends v) (closed : s.Closed) (room : s.arrays.size ≤ nesting) :
    s.Regular nesting v := by
  obtain ⟨depth, regular⟩ := h.nests
  have covered : ∀ a, s.Part v (.array a) → a ∈ Finset.range s.arrays.size := fun a part =>
    Finset.mem_range.2 (closed.part h.has part)
  have := regular.card (Finset.range s.arrays.size) covered
  rw [Finset.card_range] at this
  exact this.mono room

/-! ## Looking alike -/

theorem Alike.refl : ∀ {depth : Nat} {v : Value}, s.Regular depth v → s.Alike v v
  | _ + 1, .array a, h => by
    refine .array rfl fun i v w hv hw => ?_
    obtain rfl : v = w := Option.some.inj (hv.symm.trans hw)
    exact .refl (h v (Array.mem_of_getElem? hv))
  | _, .int n, _ => .int n
  | _, .float x, _ => .float (.refl x)
  | _, .bool b, _ => .bool b
  | _, .function f, _ => .function f
  | _, .nil, _ => .nil

theorem Alike.symm (h : s.Alike v w) : s.Alike w v := by
  induction h with
  | int n => exact .int n
  | float same => exact .float same.symm
  | bool b => exact .bool b
  | array size _ ih => exact .array size.symm fun i v w hv hw => ih i w v hw hv
  | function f => exact .function f
  | nil => exact .nil

theorem Alike.trans (h : s.Alike v w) : ∀ {x : Value}, s.Alike w x → s.Alike v x := by
  induction h with
  | float same =>
    rintro _ (_ | same')
    exact .float (same.trans same')
  | @array a b size _ ih =>
    rintro _ (_ | _ | _ | @⟨_, c, size', items'⟩)
    refine .array (size.trans size') fun i v x hv hx => ?_
    have bound : i < (s.items b).size := size ▸ (Array.getElem?_eq_some_iff.1 hv).1
    have hw := Array.getElem?_eq_getElem bound
    exact ih i v _ hv hw (items' i _ x hw hx)
  | _ => exact id

/-- What looks like a value that ends is one. -/
theorem Alike.regular (h : s.Alike v w) : ∀ {depth : Nat}, s.Regular depth v →
    s.Regular depth w := by
  induction h with
  | float same => exact fun h => regular_float.2 (same.not_nan (regular_float.1 h))
  | array size _ ih =>
    intro depth h
    cases depth with
    | zero => exact h.elim
    | succ depth =>
      intro w hw
      obtain ⟨i, bound, rfl⟩ := Array.mem_iff_getElem.1 hw
      have hv := Array.getElem?_eq_getElem (size.symm ▸ bound)
      exact ih i _ _ hv (Array.getElem?_eq_getElem bound) (h _ (Array.mem_of_getElem? hv))
  | _ => exact id

/-! ## Comparing -/

theorem agree_iff {α : Type} {test : α → α → Bool} : ∀ {xs ys : List α},
    agree test xs ys = true ↔ xs.length = ys.length ∧
      ∀ (i : Nat) (x y : α), xs[i]? = some x → ys[i]? = some y → test x y = true
  | [], [] => by simp [agree]
  | [], _ :: _ => by simp [agree]
  | _ :: _, [] => by simp [agree]
  | x :: xs, y :: ys => by
    rw [agree, Bool.and_eq_true, agree_iff, List.length_cons, List.length_cons]
    constructor
    · rintro ⟨head, length, rest⟩
      refine ⟨by rw [length], fun i x' y' hx hy => ?_⟩
      cases i with
      | zero =>
        cases hx
        cases hy
        exact head
      | succ i => exact rest i x' y' hx hy
    · rintro ⟨length, each⟩
      exact ⟨each 0 x y rfl rfl, Nat.succ.inj length, fun i x' y' hx hy => each (i + 1) x' y' hx hy⟩

/-- A comparison of elements that tells which look alike does so for the arrays. -/
theorem agree_items {test : Value → Value → Bool} {a b : ArrayId}
    (tells : ∀ v ∈ s.items a, ∀ w ∈ s.items b, test v w = true ↔ s.Alike v w) :
    agree test (s.items a).toList (s.items b).toList = true ↔ s.Alike (.array a) (.array b) := by
  rw [agree_iff, Array.length_toList, Array.length_toList]
  simp only [Array.getElem?_toList]
  constructor
  · rintro ⟨size, each⟩
    exact .array size fun i v w hv hw =>
      (tells v (Array.mem_of_getElem? hv) w (Array.mem_of_getElem? hw)).1 (each i v w hv hw)
  · rintro (_ | _ | _ | ⟨size, each⟩)
    exact ⟨size, fun i v w hv hw =>
      (tells v (Array.mem_of_getElem? hv) w (Array.mem_of_getElem? hw)).2 (each i v w hv hw)⟩

theorem Alike.shape (h : s.Alike v w) : v.shape = w.shape := by
  cases h <;> rfl

theorem shape_of_equalWithin (h : s.equalWithin depth v w = true) : v.shape = w.shape := by
  cases v <;> cases w <;> cases depth <;> first | rfl | cases h

/-- Values that are not both arrays are compared without a descent. -/
theorem equalWithin_plain (plain : ∀ a b, v = .array a → w ≠ .array b) (h : s.Regular depth v) :
    s.equalWithin depth v w = true ↔ s.Alike v w := by
  by_cases shape : v.shape = w.shape
  swap
  · exact ⟨fun equal => absurd (shape_of_equalWithin equal) shape, fun alike =>
      absurd alike.shape shape⟩
  cases v <;> cases w <;> first | cases shape; done | skip
  case array.array a b => exact absurd rfl (plain a b rfl)
  case int.int m n =>
    rw [show s.equalWithin depth (.int m) (.int n) = (m == n) by cases depth <;> rfl, beq_iff_eq]
    exact ⟨fun e => e ▸ .int m, fun | .int _ => rfl⟩
  case float.float x y =>
    rw [show s.equalWithin depth (.float x) (.float y) = (x == y) by cases depth <;> rfl,
      Number.beq_iff_same (regular_float.1 h)]
    exact ⟨.float, fun | .float same => same⟩
  case bool.bool b c =>
    rw [show s.equalWithin depth (.bool b) (.bool c) = (b == c) by cases depth <;> rfl, beq_iff_eq]
    exact ⟨fun e => e ▸ .bool b, fun | .bool _ => rfl⟩
  case function.function f g =>
    rw [show s.equalWithin depth (.function f) (.function g) = (f == g) by cases depth <;> rfl,
      beq_iff_eq]
    exact ⟨fun e => e ▸ .function f, fun | .function _ => rfl⟩
  case nil.nil =>
    exact ⟨fun _ => .nil, fun _ => by cases depth <;> rfl⟩

/-- A comparison tells which values look alike. -/
theorem equalWithin_iff (depth : Nat) : ∀ {v w : Value}, s.Regular depth v →
    (s.equalWithin depth v w = true ↔ s.Alike v w) := by
  induction depth with
  | zero => exact fun hv => equalWithin_plain (by rintro a b rfl; exact hv.elim) hv
  | succ depth ih =>
    intro v w hv
    by_cases both : ∃ a b, v = .array a ∧ w = .array b
    · obtain ⟨a, b, rfl, rfl⟩ := both
      have elements := agree_items fun v mem w (_ : w ∈ s.items b) => ih (w := w) (hv v mem)
      rw [equalWithin_array, Bool.or_eq_true, elements]
      refine ⟨?_, .inr⟩
      rintro (same | alike)
      · exact eq_of_beq same ▸ .refl hv
      · exact alike
    · exact equalWithin_plain (fun a b ha hb => both ⟨a, b, ha, hb⟩) hv

/-! ## Comparing contents -/

theorem contentWithin_function {f : FunctionId} (h : s.Has (.function f)) (depth : Nat) :
    ∃ name, s.contentWithin depth (.function f) = .function f name := by
  have content : s.contentWithin depth (.function f) = s.functionContent f := by cases depth <;> rfl
  rw [content, functionContent, Array.getElem?_eq_getElem h]
  exact ⟨_, rfl⟩

/-- The contents of values that are not both arrays are equal as the values are. -/
theorem same_plain (plain : ∀ a b, v = .array a → w ≠ .array b) (hv : s.Has v) (hw : s.Has w) :
    (s.contentWithin depth v).same (s.contentWithin depth w) = s.equalWithin depth v w := by
  cases v with
  | function f =>
    obtain ⟨name, hf⟩ := contentWithin_function hv depth
    cases w with
    | function g =>
      obtain ⟨name', hg⟩ := contentWithin_function hw depth
      rw [hf, hg]
      cases depth <;> rfl
    | _ =>
      rw [hf]
      cases depth <;> rfl
  | _ =>
    cases w with
    | function g =>
      obtain ⟨name, hg⟩ := contentWithin_function hw depth
      rw [hg]
      cases depth <;> rfl
    | _ => first | exact absurd rfl (plain _ _ rfl) | (cases depth <;> rfl)

theorem sameAll_map (f : Value → Content) : ∀ vs ws : List Value,
    Content.sameAll (vs.map f) (ws.map f) = agree (fun v w => (f v).same (f w)) vs ws
  | [], [] => rfl
  | [], _ :: _ => rfl
  | _ :: _, [] => rfl
  | v :: vs, w :: ws => by
    rw [List.map_cons, List.map_cons, Content.sameAll, agree, sameAll_map f vs ws]

/-- So does a comparison of what is seen of the values, which knows nothing of which array is
which. -/
theorem same_iff (closed : s.Closed) (depth : Nat) : ∀ {v w : Value}, s.Regular depth v →
    s.Has v → s.Has w →
    ((s.contentWithin depth v).same (s.contentWithin depth w) = true ↔ s.Alike v w) := by
  induction depth with
  | zero =>
    intro v w regular hv hw
    have plain : ∀ a b, v = .array a → w ≠ .array b := by
      rintro a b rfl
      exact regular.elim
    rw [same_plain plain hv hw]
    exact equalWithin_plain plain regular
  | succ depth ih =>
    intro v w regular hv hw
    by_cases both : ∃ a b, v = .array a ∧ w = .array b
    · obtain ⟨a, b, rfl, rfl⟩ := both
      rw [contentWithin, contentWithin, Content.same, sameAll_map]
      exact agree_items fun v mem w mem' =>
        ih (regular v mem) (closed.items a v mem) (closed.items b w mem')
    · have plain : ∀ a b, v = .array a → w ≠ .array b := fun a b ha hb => both ⟨a, b, ha, hb⟩
      rw [same_plain plain hv hw]
      exact equalWithin_plain plain regular

/-! ## Copies -/

theorem Adds.regular (h : Adds s t) (closed : s.Closed) : ∀ {depth : Nat} {v : Value}, s.Has v →
    s.Regular depth v → t.Regular depth v
  | 0, .array _, _, regular => regular.elim
  | _ + 1, .array a, hv, regular => fun w mem => by
    rw [h.items hv] at mem
    exact h.regular closed (closed.items a w mem) (regular w mem)
  | _, .float _, _, regular => regular_float.2 (regular_float.1 regular)
  | depth, .int _, _, _ => by cases depth <;> trivial
  | depth, .bool _, _, _ => by cases depth <;> trivial
  | depth, .function _, _, _ => by cases depth <;> trivial
  | depth, .nil, _, _ => by cases depth <;> trivial

/-- What is part of a value stays what it was. -/
theorem Adds.part (h : Adds s t) (closed : s.Closed) (hv : s.Has v) (part : t.Part v w) :
    s.Part v w := by
  induction part with
  | self => exact .self
  | item _ mem ih =>
    have has := closed.part hv ih
    rw [h.items has] at mem
    exact .item ih mem

/-- The arrays from `n` on hold no array from before. -/
def Apart (n : Nat) (s : Store) : Prop :=
  ∀ a, n ≤ a → ∀ b, Value.array b ∈ s.items a → n ≤ b

theorem apart_size (s : Store) : Apart s.arrays.size s := by
  intro a ha b mem
  rw [Store.items, Array.getD_eq_getD_getElem?, Array.getElem?_eq_none ha] at mem
  simp at mem

theorem Apart.newArray {n : Nat} {items : Array Value} (h : Apart n s)
    (new : ∀ b, Value.array b ∈ items → n ≤ b) : Apart n (s.newArray items).2 := by
  intro a ha b mem
  by_cases last : a = s.arrays.size
  · subst last
    rw [show (s.newArray items).2.items s.arrays.size = items from s.items_newArray items] at mem
    exact new b mem
  · rw [items_newArray_of_ne s items last] at mem
    exact h a ha b mem

mutual

/-- What is built does not hold what was there. -/
theorem Apart.build {n : Nat} : (content : Content) → ∀ {s : Store}, n ≤ s.arrays.size →
    Apart n s → Apart n (s.build content).2
  | .int _, _, _, h => h
  | .float _, _, _, h => h
  | .bool _, _, _, h => h
  | .function _ _, _, _, h => h
  | .nil, _, _, h => h
  | .array items, _, hn, h => by
    obtain ⟨apart, new⟩ := Apart.buildAll items hn h
    rw [Store.build]
    exact apart.newArray fun b mem => new b (List.mem_toArray.1 mem)

theorem Apart.buildAll {n : Nat} : (contents : List Content) → ∀ {s : Store}, n ≤ s.arrays.size →
    Apart n s → Apart n (s.buildAll contents).2 ∧
      ∀ b, Value.array b ∈ (s.buildAll contents).1 → n ≤ b
  | [], _, _, h => ⟨h, by simp [Store.buildAll]⟩
  | c :: cs, s, hn, h => by
    obtain ⟨more, own⟩ := build_extends c s
    obtain ⟨apart, new⟩ := Apart.buildAll cs (Nat.le_trans hn more.size) (Apart.build c hn h)
    rw [Store.buildAll]
    refine ⟨apart, fun b mem => ?_⟩
    rcases List.mem_cons.1 mem with e | mem
    · exact Nat.le_trans hn (own b e.symm).1
    · exact new b mem

end

theorem Apart.part {n : Nat} (h : Apart n s) (new : ∀ a, v = .array a → n ≤ a)
    (part : s.Part v w) : ∀ a, w = .array a → n ≤ a := by
  induction part with
  | self => exact new
  | item _ mem ih =>
    rintro b rfl
    exact h _ (ih _ rfl) b mem

/-- A copy looks like its original, and no array is part of both. -/
theorem alike_copy (closed : s.Closed) (hv : s.Has v) (regular : s.Regular nesting v) :
    (s.copy v).2.Alike v (s.copy v).1 := by
  have adds : Adds s (s.copy v).2 := (build_extends (s.content v) s).1.adds
  obtain ⟨closed', grows, has⟩ := closed.copy v
  have content : (s.copy v).2.content (s.copy v).1 = (s.copy v).2.content v :=
    (content_copy closed (.refl _)).trans (adds.content closed hv).symm
  have regular' := adds.regular closed hv regular
  have self :=
    (same_iff closed' nesting regular' (hv.grows grows) (hv.grows grows)).2 (.refl regular')
  refine (same_iff closed' nesting regular' (hv.grows grows) has).1 ?_
  rw [show contentWithin _ nesting (s.copy v).1 = _ from content]
  exact self

theorem copy_apart (closed : s.Closed) (hv : s.Has v) {a : ArrayId}
    (part : (s.copy v).2.Part v (.array a)) : ¬ (s.copy v).2.Part (s.copy v).1 (.array a) := by
  intro part'
  obtain ⟨more, own⟩ := build_extends (s.content v) s
  have old : a < s.arrays.size := closed.part hv (more.adds.part closed hv part)
  have apart : Apart s.arrays.size (s.copy v).2 :=
    Apart.build (s.content v) (Nat.le_refl _) s.apart_size
  exact absurd (apart.part (fun b e => (own b e).1) part' a rfl) (Nat.not_le_of_lt old)

/-- Values without NaN that nest to some depth are equal exactly if they look alike, whichever
arrays they are: as their contents are, which mention no array. Equality of them is therefore an
equivalence, and a copy is equal to its original and shares no array with it. -/
theorem equal_iff_alike (closed : s.Closed) (room : s.arrays.size ≤ nesting) :
    (∀ v w, s.Ends v → s.Ends w →
      (s.equal v w = true ↔ s.Alike v w) ∧ s.equal v w = (s.content v).same (s.content w)) ∧
    Equivalence (fun v w : { v // s.Ends v } => s.equal v w = true) ∧
    ∀ v, s.Ends v → (s.copy v).2.equal v (s.copy v).1 = true ∧ (s.copy v).2.Ends (s.copy v).1 ∧
      ∀ a, (s.copy v).2.Part v (.array a) → ¬ (s.copy v).2.Part (s.copy v).1 (.array a) := by
  have alike : ∀ {v w}, s.Ends v → (s.equal v w = true ↔ s.Alike v w) := fun hv =>
    equalWithin_iff nesting (hv.regular closed room)
  refine ⟨fun v w hv hw => ⟨alike hv, ?_⟩, ⟨?_, ?_, ?_⟩, fun v hv => ?_⟩
  · rw [Bool.eq_iff_iff, alike hv]
    exact (same_iff closed nesting (hv.regular closed room) hv.has hw.has).symm
  · exact fun v => (alike v.2).2 (.refl (v.2.regular closed room))
  · exact fun {v w} h => (alike w.2).2 ((alike v.2).1 h).symm
  · exact fun {v w x} h h' => (alike v.2).2 (((alike v.2).1 h).trans ((alike w.2).1 h'))
  · have regular := hv.regular closed room
    have copied := alike_copy closed hv.has regular
    have adds : Adds s (s.copy v).2 := (build_extends (s.content v) s).1.adds
    have regular' := adds.regular closed hv.has regular
    exact ⟨(equalWithin_iff nesting regular').2 copied,
      ⟨(closed.copy v).2.2, nesting, copied.regular regular'⟩,
      fun a => copy_apart closed hv.has⟩

/-- Two arrays with the two zeros, one that has the first of them twice, and one that has both. -/
def zeros : Store where
  arrays := #[#[.float 0, .int 1], #[.float (-0), .int 1], #[.array 0, .array 0],
    #[.array 0, .array 1]]
  functions := #[]
  scopes := #[]

theorem equal_iff_alike_zeros :
    zeros.Closed ∧ zeros.arrays.size ≤ nesting ∧ zeros.Ends (.array 2) ∧ zeros.Ends (.array 3) ∧
      zeros.equal (.array 2) (.array 3) = true ∧ zeros.Alike (.array 2) (.array 3) := by
  have closed : zeros.Closed := by
    refine ⟨fun a v mem => ?_, fun c n v found => absurd (lt_of_lookup found) (Nat.not_lt_zero c)⟩
    match a with
    | 0 | 1 | 2 | 3 =>
      simp [zeros, Store.items] at mem
      rcases mem with rfl | rfl <;> simp [zeros, Has]
    | a + 4 => simp [zeros, Store.items] at mem
  have room : zeros.arrays.size ≤ nesting := by decide
  have twice : zeros.Ends (.array 2) := ⟨by simp [zeros, Has], 2, by decide⟩
  have both : zeros.Ends (.array 3) := ⟨by simp [zeros, Has], 2, by decide⟩
  have equal : zeros.equal (.array 2) (.array 3) = true := by decide +kernel
  exact ⟨closed, room, twice, both, equal,
    ((equal_iff_alike closed room).1 _ _ twice both).1.1 equal⟩

end Store

end TickScript
