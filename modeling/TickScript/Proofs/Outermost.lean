import TickScript.Proofs.Frames

/-!
# The outermost scope of a program

A program starts in a new outermost scope that has the names of the built-in functions and those
of the host, and no others. No function of a script is made on the way.
-/

namespace TickScript

variable {ω : Type}

namespace Store

mutual

/-- A value that is built is made of new arrays only. -/
theorem build_frame : (content : Content) → (s : Store) →
    (s.build content).2.scopes = s.scopes ∧ (s.build content).2.functions = s.functions
  | .int _, _ => ⟨rfl, rfl⟩
  | .float _, _ => ⟨rfl, rfl⟩
  | .bool _, _ => ⟨rfl, rfl⟩
  | .function _ _, _ => ⟨rfl, rfl⟩
  | .nil, _ => ⟨rfl, rfl⟩
  | .array items, s => by
    rw [build]
    exact buildAll_frame items s

theorem buildAll_frame : (contents : List Content) → (s : Store) →
    (s.buildAll contents).2.scopes = s.scopes ∧ (s.buildAll contents).2.functions = s.functions
  | [], _ => ⟨rfl, rfl⟩
  | c :: cs, s => by
    obtain ⟨hs, hf⟩ := build_frame c s
    obtain ⟨hs', hf'⟩ := buildAll_frame cs (s.build c).2
    rw [buildAll]
    exact ⟨hs'.trans hs, hf'.trans hf⟩

end

theorem copy_frame (s : Store) (v : Value) :
    (s.copy v).2.scopes = s.scopes ∧ (s.copy v).2.functions = s.functions :=
  build_frame _ s

end Store

namespace Machine

/-- What holds of a new scope, and stays true when a function or a variable is provided, holds
of the outermost scope of a program. -/
theorem newGlobals_induct {host : Host ω} {s : Store} (M : Store → Prop)
    (start : M (s.newScope none).2)
    (builtin : ∀ t b, M t → M (provideFunction s.scopes.size t (.builtin b)))
    (function : ∀ t, ∀ f ∈ host.functions, M t →
      M (provideFunction s.scopes.size t (.host f.name f.signature)))
    (external : ∀ t, ∀ v ∈ host.externals, M t → M (provideVariable s.scopes.size t v)) :
    M (newGlobals host s).2 := by
  have builtins : M (Builtin.all.foldl
      (fun s' b => provideFunction s.scopes.size s' (.builtin b)) (s.newScope none).2) :=
    List.foldlRecOn _ _ start fun t h b _ => builtin t b h
  have functions := List.foldlRecOn host.functions
    (fun s' f => provideFunction s.scopes.size s' (.host f.name f.signature)) builtins
    fun t h f hf => function t f hf h
  exact List.foldlRecOn host.externals (provideVariable s.scopes.size) functions
    fun t h v hv => external t v hv h

/-- The store `t` has one more scope than `s`, the outermost one of a program. -/
structure Begun (host : Host ω) (s t : Store) : Prop where
  size : t.scopes.size = s.scopes.size + 1
  parent : t.parent? s.scopes.size = none
  names : ∀ n, t.binds s.scopes.size n = true → n ∈ host.reservedNames
  functions : ∀ (f : FunctionId) (header : Header) (body : List Stmt) (closure : ScopeId),
    t.functions[f]? = some (.script header body closure) →
    s.functions[f]? = some (.script header body closure)

variable {host : Host ω} {s t : Store}

theorem Begun.provide (h : Begun host s t) {name : String} (v : Value)
    (hn : name ∈ host.reservedNames) : Begun host s (provide s.scopes.size t name v) := by
  unfold Machine.provide
  split
  · exact h
  · refine ⟨?_, ?_, ?_, h.functions⟩
    · rw [Store.size_bind]
      exact h.size
    · rw [Store.parent?_bind]
      exact h.parent
    · intro n hb
      rcases (Store.binds_bind (by rw [h.size]; exact Nat.lt_succ_self _)).1 hb with ⟨-, rfl⟩ | hb
      · exact hn
      · exact h.names n hb

theorem Begun.provideFunction (h : Begun host s t) {c : Callable} (hc : c.isScript = false)
    (hn : c.name ∈ host.reservedNames) : Begun host s (provideFunction s.scopes.size t c) := by
  refine Begun.provide (t := (t.newFunction c).2) { h with functions := ?_ } _ hn
  intro f header body closure hf
  simp only [Store.newFunction, Array.getElem?_push] at hf
  split at hf
  · cases hf
    simp [Callable.isScript] at hc
  · exact h.functions f header body closure hf

theorem Begun.of_frame {u : Store} (h : Begun host s t) (hs : u.scopes = t.scopes)
    (hf : u.functions = t.functions) : Begun host s u where
  size := by rw [hs]; exact h.size
  parent := by rw [Store.parent?, hs]; exact h.parent
  names n hb := h.names n (by rw [Store.binds, Store.lookup, ← hs]; exact hb)
  functions f header body closure hc := h.functions f header body closure (by rw [← hf]; exact hc)

theorem begun (host : Host ω) (s : Store) : Begun host s (newGlobals host s).2 := by
  refine newGlobals_induct _ ?_ ?_ ?_ ?_
  · refine ⟨by simp, Store.parent?_newScope_self s none, fun n hb => ?_, fun _ _ _ _ h => h⟩
    have := Store.lt_of_binds (show s.binds s.scopes.size n = true by
      rw [Store.binds, ← Store.lookup_newScope]
      exact hb)
    exact absurd this (Nat.lt_irrefl _)
  · intro t b h
    refine h.provideFunction rfl ?_
    simp only [Host.reservedNames, List.mem_append]
    exact .inl (.inl (List.mem_map_of_mem (Builtin.mem_all b)))
  · intro t f hf h
    refine h.provideFunction rfl ?_
    simp only [Host.reservedNames, List.mem_append]
    exact .inr (List.mem_map_of_mem hf)
  · intro t v hv h
    obtain ⟨hs, hf⟩ := Store.copy_frame t v.initial
    refine (h.of_frame hs hf).provide _ ?_
    simp only [Host.reservedNames, List.mem_append]
    exact .inl (.inr (List.mem_map_of_mem hv))

end Machine

end TickScript
