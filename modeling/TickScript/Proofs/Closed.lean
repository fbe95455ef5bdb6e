import TickScript.Proofs.Access
import TickScript.Proofs.Registration

/-!
# Stores without loose ends

A store is closed if every array and every function that its arrays and scopes mention is
there. Each operation on stores keeps them closed, and what it answers is in the store: an
array that is made or fitted, a value that is built or copied, the start of a program.
-/

namespace TickScript

variable {ω : Type}

namespace Store

/-! ## Closed stores -/

/-- The array or function that the value is, if it is one, is in the store. -/
def Has (s : Store) : Value → Prop
  | .array a => a < s.arrays.size
  | .function f => f < s.functions.size
  | _ => True

/-- The store `t` has room for all handles of `s`. -/
structure Grows (s t : Store) : Prop where
  arrays : s.arrays.size ≤ t.arrays.size
  functions : s.functions.size ≤ t.functions.size

/-- Arrays and scopes mention only what the store has. -/
structure Closed (s : Store) : Prop where
  items : ∀ a, ∀ v ∈ s.items a, s.Has v
  bindings : ∀ c n v, s.lookup c n = some v → s.Has v

variable {s t u : Store} {v : Value}

theorem Grows.refl (s : Store) : Grows s s := ⟨Nat.le_refl _, Nat.le_refl _⟩

theorem Grows.trans (h : Grows s t) (h' : Grows t u) : Grows s u :=
  ⟨Nat.le_trans h.arrays h'.arrays, Nat.le_trans h.functions h'.functions⟩

theorem closed_empty : Closed .empty where
  items a v hv := by simp [Store.empty, Store.items] at hv
  bindings c n v hv := by simp [Store.empty, lookup] at hv

theorem Has.grows (h : s.Has v) (g : Grows s t) : t.Has v := by
  cases v with
  | array a => exact Nat.lt_of_lt_of_le h g.arrays
  | function f => exact Nat.lt_of_lt_of_le h g.functions
  | _ => trivial

theorem has_scalar {k : Scalar} (h : k.holds v = true) : s.Has v := by
  cases k <;> cases v <;> trivial

/-- What is said of a store only depends on its arrays, its scopes and the number of its
functions. -/
theorem Closed.of_frame (h : s.Closed) (ha : t.arrays = s.arrays) (hs : t.scopes = s.scopes)
    (hf : s.functions.size ≤ t.functions.size) : t.Closed ∧ Grows s t := by
  have g : Grows s t := ⟨Nat.le_of_eq (by rw [ha]), hf⟩
  refine ⟨⟨fun a v hv => ?_, fun c n v hv => ?_⟩, g⟩
  · rw [Store.items, ha] at hv
    exact (h.items a v hv).grows g
  · rw [lookup, hs] at hv
    exact (h.bindings c n v hv).grows g

theorem Closed.newFunction (h : s.Closed) (k : Callable) :
    (s.newFunction k).2.Closed ∧ Grows s (s.newFunction k).2 :=
  h.of_frame rfl rfl (by simp [Store.newFunction])

theorem Closed.newScope (h : s.Closed) (p : Option ScopeId) :
    (s.newScope p).2.Closed ∧ Grows s (s.newScope p).2 := by
  refine ⟨⟨h.items, fun c n v hv => ?_⟩, Nat.le_refl _, Nat.le_refl _⟩
  rw [lookup_newScope] at hv
  exact h.bindings c n v hv

theorem Closed.newArray (h : s.Closed) {items : Array Value} (hi : ∀ v ∈ items, s.Has v) :
    (s.newArray items).2.Closed ∧ Grows s (s.newArray items).2 := by
  have g : Grows s (s.newArray items).2 := ⟨by simp [Store.newArray], Nat.le_refl _⟩
  refine ⟨⟨fun a v hv => ?_, fun c n v hv => (h.bindings c n v hv).grows g⟩, g⟩
  by_cases ha : a = s.arrays.size
  · subst ha
    rw [show (s.newArray items).2.items s.arrays.size = items from s.items_newArray items] at hv
    exact (hi v hv).grows g
  · rw [items_newArray_of_ne s items ha] at hv
    exact (h.items a v hv).grows g

theorem Closed.setItems (h : s.Closed) (a : ArrayId) {items : Array Value}
    (hi : ∀ v ∈ items, s.Has v) : (s.setItems a items).Closed ∧ Grows s (s.setItems a items) := by
  have g : Grows s (s.setItems a items) := ⟨by simp [Store.setItems], Nat.le_refl _⟩
  refine ⟨⟨fun b v hv => ?_, fun c n v hv => (h.bindings c n v hv).grows g⟩, g⟩
  by_cases ha : a < s.arrays.size
  · rw [items_setItems s a b items ha] at hv
    split at hv
    · exact (hi v hv).grows g
    · exact (h.items b v hv).grows g
  · have same : s.setItems a items = s := by
      rw [Store.setItems, Array.setIfInBounds_eq_of_size_le (Nat.le_of_not_lt ha)]
    rw [same] at hv ⊢
    exact h.items b v hv

theorem Closed.setItem (h : s.Closed) (a : ArrayId) (i : Nat) (hv : s.Has v) :
    (s.setItem a i v).Closed ∧ Grows s (s.setItem a i v) := by
  have same : s.setItem a i v = s.setItems a ((s.items a).setIfInBounds i v) := by
    rw [Store.setItem, Store.setItems, Store.items]
    congr 1
    refine Array.ext_getElem? fun b => ?_
    rw [Array.getElem?_modify, Array.getElem?_setIfInBounds]
    by_cases hb : a = b
    · subst hb
      by_cases ha : a < s.arrays.size
      · simp [ha]
      · simp [ha]
    · rw [if_neg hb, if_neg hb]
  rw [same]
  refine h.setItems a fun w hw => ?_
  rcases Array.mem_or_eq_of_mem_setIfInBounds hw with hw | rfl
  · exact h.items a w hw
  · exact hv

theorem Closed.bind (h : s.Closed) (c : ScopeId) (name : String) (hv : s.Has v) :
    (s.bind c name v).Closed ∧ Grows s (s.bind c name v) := by
  refine ⟨⟨h.items, fun c' n w hw => ?_⟩, Nat.le_refl _, Nat.le_refl _⟩
  by_cases hc : c < s.scopes.size
  · rw [lookup_bind s c c' name n v hc] at hw
    split at hw
    · cases hw
      exact hv
    · exact h.bindings c' n w hw
  · have hne : c' ≠ c := by
      rintro rfl
      have := lt_of_lookup hw
      rw [size_bind] at this
      exact hc this
    rw [lookup_bind_of_ne (.inl hne)] at hw
    exact h.bindings c' n w hw

/-! ## Values that are made -/

theorem Has.convert {w : Value} {type : Ty} (h : s.Has v) (hc : v.convert type = .ok w) :
    s.Has w := by
  cases type with
  | scalar k => exact has_scalar (holds_convert hc)
  | any =>
    cases hc
    exact h
  | unknown =>
    cases hc
    exact h
  | void =>
    cases v <;> cases hc
    trivial
  | array element =>
    cases v <;> cases hc
    exact h

theorem has_convertItems {element : Scalar} : ∀ {vs : List Value}, (∀ v ∈ vs, s.Has v) →
    ∀ w ∈ (convertItems element vs).1, s.Has w
  | [], _ => by simp [convertItems]
  | v :: vs, h => by
    rw [convertItems]
    cases hc : v.convert (.scalar element) with
    | error m => exact h
    | ok w =>
      intro u hu
      rcases List.mem_cons.1 hu with rfl | hu
      · exact (h v List.mem_cons_self).convert hc
      · exact has_convertItems (fun v' hv' => h v' (List.mem_cons_of_mem v hv')) u hu

/-- Fitting a value keeps the store closed. -/
theorem Closed.coerce (h : s.Closed) (hv : s.Has v) (type : Ty) :
    match Store.coerce type v s with
    | .ok w t => t.Closed ∧ Grows s t ∧ t.Has w
    | .error _ t => t.Closed ∧ Grows s t := by
  rcases array_or_plain type v with ⟨element, a, rfl, rfl⟩ | hplain
  · rw [coerce_array]
    have items := @has_convertItems s element (s.items a).toList fun w hw =>
      h.items a w (Array.mem_toList_iff.1 hw)
    cases hc : convertItems element (s.items a).toList with
    | mk ws failure =>
      rw [hc] at items
      obtain ⟨closed, grows⟩ := h.setItems a fun w hw => items w (List.mem_toArray.1 hw)
      cases failure with
      | none => exact ⟨closed, grows, hv.grows grows⟩
      | some m => exact ⟨closed, grows⟩
  · rw [coerce_plain s hplain]
    cases hc : v.convert type with
    | ok w => exact ⟨h, .refl s, hv.convert hc⟩
    | error m => exact ⟨h, .refl s⟩

theorem Closed.zero (h : s.Closed) (type : Ty) :
    (s.zero type).2.Closed ∧ Grows s (s.zero type).2 ∧ (s.zero type).2.Has (s.zero type).1 := by
  cases type with
  | array element =>
    obtain ⟨closed, grows⟩ : (s.newArray #[]).2.Closed ∧ Grows s (s.newArray #[]).2 :=
      h.newArray (by simp)
    exact ⟨closed, grows, by simp [Store.zero, Store.newArray, Has]⟩
  | scalar k => cases k <;> exact ⟨h, .refl s, trivial⟩
  | _ => exact ⟨h, .refl s, trivial⟩

mutual

/-- Is every function that the content mentions in the store? -/
def Mentions (s : Store) : Content → Prop
  | .function f _ => f < s.functions.size
  | .array items => s.MentionsAll items
  | _ => True

def MentionsAll (s : Store) : List Content → Prop
  | [] => True
  | c :: cs => s.Mentions c ∧ s.MentionsAll cs

end

mutual

theorem Mentions.grows : (c : Content) → ∀ {s t : Store}, s.Mentions c → Grows s t → t.Mentions c
  | .function _ _, _, _, h, g => Nat.lt_of_lt_of_le h g.functions
  | .array items, _, _, h, g => MentionsAll.grows items h g
  | .int _, _, _, _, _ => trivial
  | .float _, _, _, _, _ => trivial
  | .bool _, _, _, _, _ => trivial
  | .nil, _, _, _, _ => trivial

theorem MentionsAll.grows : (cs : List Content) → ∀ {s t : Store}, s.MentionsAll cs → Grows s t →
    t.MentionsAll cs
  | [], _, _, _, _ => trivial
  | c :: cs, _, _, h, g => ⟨Mentions.grows c h.1 g, MentionsAll.grows cs h.2 g⟩

end

mutual

theorem Closed.build : (c : Content) → ∀ {s : Store}, s.Closed → s.Mentions c →
    (s.build c).2.Closed ∧ Grows s (s.build c).2 ∧ (s.build c).2.Has (s.build c).1
  | .int _, _, h, _ => ⟨h, .refl _, trivial⟩
  | .float _, _, h, _ => ⟨h, .refl _, trivial⟩
  | .bool _, _, h, _ => ⟨h, .refl _, trivial⟩
  | .function _ _, _, h, hf => ⟨h, .refl _, hf⟩
  | .nil, _, h, _ => ⟨h, .refl _, trivial⟩
  | .array cs, s, h, hc => by
    obtain ⟨closed, grows, items⟩ := Closed.buildAll cs h hc
    obtain ⟨closed', grows'⟩ := closed.newArray fun v hv => items v (List.mem_toArray.1 hv)
    rw [Store.build]
    exact ⟨closed', grows.trans grows', by simp [Store.newArray, Has]⟩

theorem Closed.buildAll : (cs : List Content) → ∀ {s : Store}, s.Closed → s.MentionsAll cs →
    (s.buildAll cs).2.Closed ∧ Grows s (s.buildAll cs).2 ∧
      ∀ v ∈ (s.buildAll cs).1, (s.buildAll cs).2.Has v
  | [], _, h, _ => ⟨h, .refl _, by simp [Store.buildAll]⟩
  | c :: cs, s, h, hc => by
    obtain ⟨closed, grows, hv⟩ := Closed.build c h hc.1
    obtain ⟨closed', grows', hvs⟩ := Closed.buildAll cs closed (MentionsAll.grows cs hc.2 grows)
    rw [Store.buildAll]
    refine ⟨closed', grows.trans grows', fun v hm => ?_⟩
    rcases List.mem_cons.1 hm with rfl | hm
    · exact hv.grows grows'
    · exact hvs v hm

end

/-- What is seen of a value mentions only what there is. -/
theorem mentions_content (s : Store) : ∀ (depth : Nat) (v : Value),
    s.Mentions (s.contentWithin depth v) := by
  have all : ∀ {depth : Nat}, (∀ v : Value, s.Mentions (s.contentWithin depth v)) →
      ∀ vs : List Value, s.MentionsAll (vs.map (s.contentWithin depth)) := by
    intro depth hd vs
    induction vs with
    | nil => trivial
    | cons v vs ih => exact ⟨hd v, ih⟩
  have function : ∀ f, s.Mentions (s.functionContent f) := by
    intro f
    unfold functionContent
    cases hf : s.functions[f]? with
    | none => trivial
    | some c => exact (Array.getElem?_eq_some_iff.1 hf).1
  intro depth
  induction depth with
  | zero =>
    intro v
    cases v with
    | function f => exact function f
    | _ => trivial
  | succ depth ih =>
    intro v
    cases v with
    | function f => exact function f
    | array a => exact all ih (s.items a).toList
    | _ => trivial

/-- A copy of a value keeps the store closed. -/
theorem Closed.copy (h : s.Closed) (v : Value) :
    (s.copy v).2.Closed ∧ Grows s (s.copy v).2 ∧ (s.copy v).2.Has (s.copy v).1 :=
  Closed.build _ h (s.mentions_content nesting v)

end Store

namespace Machine

theorem closed_provide {g : ScopeId} {t : Store} {v : Value} (name : String) (h : t.Closed)
    (hv : t.Has v) : (provide g t name v).Closed := by
  unfold Machine.provide
  split
  · exact h
  · exact (h.bind g name hv).1

/-- A program starts in a closed store. -/
theorem closed_newGlobals {host : Host ω} {s : Store} (h : s.Closed) :
    (newGlobals host s).2.Closed := by
  have function : ∀ {t : Store} (k : Callable), t.Closed →
      (provideFunction s.scopes.size t k).Closed := fun k ht =>
    closed_provide k.name (ht.newFunction k).1 (by simp [Store.Has])
  refine newGlobals_induct Store.Closed (h.newScope none).1 ?_ ?_ ?_
  · exact fun t b ht => function (.builtin b) ht
  · exact fun t f _ ht => function (.host f.name f.signature) ht
  · intro t v _ ht
    obtain ⟨closed, -, hv⟩ := ht.copy v.initial
    exact closed_provide v.name closed hv

end Machine

/-! ## Hosts that are built -/

namespace Host

/-- A host that was put together by registering variables, with any values that there are, and
functions. In between the store may be worked on. -/
inductive Built : Host ω → Store → Prop where
  | empty {s : Store} (closed : s.Closed) : Built .empty s
  | «variable» {host host' : Host ω} {s t : Store} {name : String} {type : Ty} {initial : Value}
      (h : Built host s) (has : s.Has initial)
      (ok : host.addVariable name type initial s = .ok host' t) : Built host' t
  | function {host host' : Host ω} {s : Store} {f : HostFunction ω} (h : Built host s)
      (ok : host.addFunction f = .ok host') : Built host' s
  | worked {host : Host ω} {s t : Store} (h : Built host s) (closed : t.Closed)
      (grows : s.Grows t) : Built host t

variable {host : Host ω} {s : Store}

theorem addVariable_ok {host' : Host ω} {t : Store} {name : String} {type : Ty} {initial : Value}
    (ok : host.addVariable name type initial s = .ok host' t) :
    host.registers name = false ∧ ∃ v, Store.coerce type initial s = .ok v t ∧
      host' = { host with externals := host.externals ++ [⟨name, type, v⟩] } := by
  unfold addVariable at ok
  split at ok
  · cases ok
  split at ok
  · cases ok
  next fresh =>
    split at ok
    · next v t' hc =>
      cases ok
      exact ⟨Bool.not_eq_true _ ▸ fresh, v, hc, rfl⟩
    · cases ok

theorem addVariable_type {host' : Host ω} {t : Store} {name : String} {type : Ty} {initial : Value}
    (ok : host.addVariable name type initial s = .ok host' t) :
    type.isWild = false ∧ type ≠ .void := by
  unfold addVariable at ok
  split at ok
  · cases ok
  next proper =>
    refine ⟨?_, fun e => proper (.inl e)⟩
    cases type <;> first | rfl | simp at proper

theorem addFunction_ok {host' : Host ω} {f : HostFunction ω} (ok : host.addFunction f = .ok host') :
    host.registers f.name = false ∧ host' = { host with functions := host.functions ++ [f] } := by
  unfold addFunction at ok
  split at ok
  · cases ok
  · next fresh =>
    cases ok
    exact ⟨Bool.not_eq_true _ ▸ fresh, rfl⟩

theorem Built.closed (h : host.Built s) : s.Closed := by
  induction h with
  | empty closed => exact closed
  | @«variable» _ _ s _ _ type _ _ has ok ih =>
    obtain ⟨-, v, hc, -⟩ := addVariable_ok ok
    have fitted := ih.coerce has type
    rw [hc] at fitted
    exact fitted.1
  | function _ _ ih => exact ih
  | worked _ closed _ _ => exact closed

theorem Built.distinct (h : host.Built s) : host.names.Nodup := by
  induction h with
  | empty _ => exact List.nodup_nil
  | «variable» _ _ ok ih =>
    obtain ⟨fresh, v, -, rfl⟩ := addVariable_ok ok
    exact nodup_names_variable ih (not_mem_names fresh)
  | function _ ok ih =>
    obtain ⟨fresh, rfl⟩ := addFunction_ok ok
    exact nodup_names_function ih (not_mem_names fresh)
  | worked _ _ _ ih => exact ih

theorem Built.initial (h : host.Built s) : ∀ v ∈ host.externals, s.Has v.initial := by
  induction h with
  | empty _ => exact fun _ hv => nomatch hv
  | @«variable» _ _ s _ _ type _ built has ok ih =>
    obtain ⟨-, w, hc, rfl⟩ := addVariable_ok ok
    have fitted := built.closed.coerce has type
    rw [hc] at fitted
    intro v hv
    rcases List.mem_append.1 hv with hv | hv
    · exact (ih v hv).grows fitted.2.1
    · rw [List.mem_singleton.1 hv]
      exact fitted.2.2
  | function _ ok ih =>
    obtain ⟨-, rfl⟩ := addFunction_ok ok
    exact ih
  | worked _ _ grows ih => exact fun v hv => (ih v hv).grows grows

/-- The variables of a host have types of values. -/
theorem Built.data (h : host.Built s) :
    ∀ v ∈ host.externals, v.type.isWild = false ∧ v.type ≠ .void := by
  induction h with
  | empty _ => exact fun _ hv => nomatch hv
  | @«variable» _ _ s _ _ type _ _ _ ok ih =>
    have typed := addVariable_type ok
    obtain ⟨-, w, -, rfl⟩ := addVariable_ok ok
    intro v hv
    rcases List.mem_append.1 hv with hv | hv
    · exact ih v hv
    · rw [List.mem_singleton.1 hv]
      exact typed
  | function _ ok ih =>
    obtain ⟨-, rfl⟩ := addFunction_ok ok
    exact ih
  | worked _ _ _ ih => exact ih

end Host

end TickScript
