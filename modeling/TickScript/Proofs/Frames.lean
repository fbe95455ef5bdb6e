import TickScript.Proofs.Steady.Run

/-!
# What runs leave alone

A run adds names to the scope it is in and to scopes that it makes, and to no others; it never
takes a name away, never moves a scope, and never changes a function. `Kept` says so, and every
step respects it.
-/

namespace TickScript

variable {ω : Type}

namespace Store

/-! ## Scopes after a step -/

theorem lookup_bind_of_ne {s : Store} {c probe : ScopeId} {name other : String} {v : Value}
    (h : probe ≠ c ∨ other ≠ name) : (s.bind c name v).lookup probe other = s.lookup probe other := by
  by_cases hc : c < s.scopes.size
  · rw [lookup_bind s c probe name other v hc, if_neg]
    rintro ⟨hp, hn⟩
    rcases h with h | h
    · exact h hp
    · exact h hn
  · have out : (s.bind c name v).scopes = s.scopes := by
      simp only [bind]
      ext i h₁ h₂
      · simp
      · rw [Array.getElem_modify, if_neg]
        intro e
        exact hc (e ▸ h₂)
    rw [lookup, out, ← lookup]

@[simp]
theorem size_bind (s : Store) (c : ScopeId) (name : String) (v : Value) :
    (s.bind c name v).scopes.size = s.scopes.size := by
  simp [bind]

theorem binds_bind {s : Store} {c probe : ScopeId} {name other : String} {v : Value}
    (hc : c < s.scopes.size) :
    (s.bind c name v).binds probe other = true ↔
      (probe = c ∧ other = name) ∨ s.binds probe other = true := by
  rw [binds, lookup_bind s c probe name other v hc]
  split
  · next h => simp [h]
  · next h =>
    rw [← binds]
    simp [h]

theorem lookup_newScope {s : Store} {p : Option ScopeId} {c : ScopeId} {name : String} :
    (s.newScope p).2.lookup c name = s.lookup c name := by
  simp only [lookup, newScope, Array.getElem?_push]
  split
  · next h =>
    subst h
    simp
  · rfl

theorem parent?_newScope {s : Store} {p : Option ScopeId} {c : ScopeId}
    (h : c ≠ s.scopes.size) : (s.newScope p).2.parent? c = s.parent? c := by
  simp only [parent?, newScope, Array.getElem?_push, if_neg h]

theorem parent?_newScope_self (s : Store) (p : Option ScopeId) :
    (s.newScope p).2.parent? s.scopes.size = p := by
  simp [parent?, newScope]

@[simp]
theorem size_newScope (s : Store) (p : Option ScopeId) :
    (s.newScope p).2.scopes.size = s.scopes.size + 1 := by
  simp [newScope]

/-! ## The relation -/

/-- The later store `t` has the scopes of `s` where they were. Only the scope `free` has new
names among them, and the functions that were made since are permitted. -/
structure Kept (may : Permits) (free : Option ScopeId) (s t : Store) : Prop where
  size : s.scopes.size ≤ t.scopes.size
  parent : ∀ c, c < s.scopes.size → t.parent? c = s.parent? c
  names : ∀ c, c < s.scopes.size → free ≠ some c → ∀ n, t.binds c n = s.binds c n
  still : ∀ c n, s.binds c n = true → t.binds c n = true
  functions : ∃ added, t.functions = s.functions ++ added ∧
    ∀ header body closure, Callable.script header body closure ∈ added → may.headers header

variable {may : Permits} {free : Option ScopeId} {s t u : Store}

theorem Kept.refl (may : Permits) (free : Option ScopeId) (s : Store) : Kept may free s s where
  size := Nat.le_refl _
  parent _ _ := rfl
  names _ _ _ _ := rfl
  still _ _ h := h
  functions := ⟨#[], by simp, by simp⟩

theorem Kept.trans (h : Kept may free s t) (h' : Kept may free t u) : Kept may free s u where
  size := Nat.le_trans h.size h'.size
  parent c hc := (h'.parent c (Nat.lt_of_lt_of_le hc h.size)).trans (h.parent c hc)
  names c hc hf n := (h'.names c (Nat.lt_of_lt_of_le hc h.size) hf n).trans (h.names c hc hf n)
  still c n hb := h'.still c n (h.still c n hb)
  functions := by
    obtain ⟨added, e, ha⟩ := h.functions
    obtain ⟨added', e', ha'⟩ := h'.functions
    refine ⟨added ++ added', by rw [e', e, Array.append_assoc], ?_⟩
    intro header body closure hm
    rcases Array.mem_append.1 hm with hm | hm
    · exact ha header body closure hm
    · exact ha' header body closure hm

theorem Kept.weaken (h : Kept may none s t) : Kept may free s t :=
  { h with names := fun c hc _ n => h.names c hc (by simp) n }

/-- What only touches arrays keeps everything. -/
theorem Kept.of_arrays (hs : t.scopes = s.scopes) (hf : t.functions = s.functions) :
    Kept may none s t where
  size := by simp [hs]
  parent c _ := by rw [parent?, parent?, hs]
  names c _ _ n := by rw [binds, lookup, hs, ← lookup, ← binds]
  still c n h := by
    rw [binds, lookup, hs]
    exact h
  functions := ⟨#[], by simp [hf], by simp⟩

/-- Behind a block or a call, its own scope is forgotten. -/
theorem Kept.leave {p : Option ScopeId} (h : Kept may (some s.scopes.size) (s.newScope p).2 t) :
    Kept may none s t where
  size := by
    have := h.size
    rw [size_newScope] at this
    omega
  parent c hc := by
    rw [h.parent c (by rw [size_newScope]; omega), parent?_newScope (Nat.ne_of_lt hc)]
  names c hc _ n := by
    have hne : some s.scopes.size ≠ some c := by
      simp only [ne_eq, Option.some.injEq]
      omega
    rw [h.names c (by rw [size_newScope]; omega) hne n, binds, lookup_newScope, ← binds]
  still c n hb := by
    refine h.still c n ?_
    rw [binds, lookup_newScope]
    exact hb
  functions := h.functions

theorem Kept.of_bind {c : ScopeId} {name : String} {v : Value} (h : s.binds c name = true) :
    Kept may none s (s.bind c name v) where
  size := by simp
  parent p _ := parent?_bind s c p name v
  names p _ _ n := by
    rw [Bool.eq_iff_iff, binds_bind (lt_of_binds h)]
    constructor
    · rintro (⟨rfl, rfl⟩ | hb)
      · exact h
      · exact hb
    · exact Or.inr
  still p n hb := (binds_bind (lt_of_binds h)).2 (.inr hb)
  functions := ⟨#[], by simp [bind], by simp⟩

theorem Kept.of_define {c : ScopeId} {name : String} {v : Value} (h : s.binds c name = false) :
    Kept may (some c) s (s.bind c name v) where
  size := by simp
  parent p _ := parent?_bind s c p name v
  names p _ hf n := by
    have hp : p ≠ c := fun e => hf (e ▸ rfl)
    rw [binds, lookup_bind_of_ne (.inl hp), ← binds]
  still p n hb := by
    have hne : p ≠ c ∨ n ≠ name := by
      by_contra hcon
      obtain ⟨rfl, rfl⟩ := not_or.1 hcon |>.imp not_not.1 not_not.1
      rw [h] at hb
      exact Bool.false_ne_true hb
    rw [binds, lookup_bind_of_ne hne]
    exact hb
  functions := ⟨#[], by simp [bind], by simp⟩

theorem Kept.of_newFunction {c : ScopeId} {header : Header} {body : List Stmt}
    (h : may.headers header) : Kept may none s (s.newFunction (.script header body c)).2 where
  size := Nat.le_refl _
  parent _ _ := rfl
  names _ _ _ _ := rfl
  still _ _ hb := hb
  functions := by
    refine ⟨#[.script header body c], by simp [newFunction], ?_⟩
    intro header' body' closure hm
    rw [Array.mem_singleton] at hm
    cases hm
    exact h

theorem Kept.of_outside {f : HostFunction ω} (h : f.Outside) (values : List Value) (w : ω) :
    Kept may none s (f.respond values s w).store where
  size := by simp [h.scopes]
  parent c _ := by rw [parent?, parent?, h.scopes]
  names c _ _ n := by rw [binds, lookup, h.scopes, ← lookup, ← binds]
  still c n hb := by
    rw [binds, lookup, h.scopes]
    exact hb
  functions := by
    obtain ⟨added, e, ha⟩ := h.functions values s w
    refine ⟨added, e, fun header body closure hm => ?_⟩
    have := ha _ hm
    simp [Callable.isScript] at this

end Store

/-- Every step keeps what is there. -/
theorem steady_kept {host : Host ω} (h : ∀ f ∈ host.functions, f.Outside) (may : Permits) :
    Steady host may (Store.Kept may) where
  refl := Store.Kept.refl may
  trans := Store.Kept.trans
  weaken := Store.Kept.weaken
  arrays := Store.Kept.of_arrays
  leave := Store.Kept.leave
  assign _ hb := Store.Kept.of_bind hb
  define _ hb := Store.Kept.of_define hb
  allocate hh := Store.Kept.of_newFunction hh
  function hh hb := (Store.Kept.of_newFunction hh).weaken.trans (Store.Kept.of_define hb)
  outside := h
  respond f hf values _ w := Store.Kept.of_outside (h f hf) values w

end TickScript
