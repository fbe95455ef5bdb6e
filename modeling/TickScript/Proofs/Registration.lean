import Mathlib.Data.List.Nodup
import TickScript.Proofs.Outermost
import TickScript.Proofs.Shapes

/-!
# Registered hosts

A host is put together by registering variables and functions one after the other. The initial
value of a variable is built for it, so its arrays belong to nobody else, and fitting it to the
type of the variable changes nothing that was there before. Every variable of a host therefore
starts with a value of its type, and so does every copy that a program gets of it.
-/

namespace TickScript

variable {ω : Type}

namespace Store

/-! ## Values that are built -/

mutual

/-- A value that is built is made of new arrays only. -/
theorem build_extends : (content : Content) → (s : Store) →
    Extends s (s.build content).2 ∧ ∀ a, (s.build content).1 = .array a →
      s.arrays.size ≤ a ∧ a < (s.build content).2.arrays.size
  | .int _, s => ⟨.refl s, by simp [build]⟩
  | .float _, s => ⟨.refl s, by simp [build]⟩
  | .bool _, s => ⟨.refl s, by simp [build]⟩
  | .function _ _, s => ⟨.refl s, by simp [build]⟩
  | .nil, s => ⟨.refl s, by simp [build]⟩
  | .array items, s => by
    have hall := buildAll_extends items s
    rw [build]
    refine ⟨hall.trans (extends_newArray _ _), fun a ha => ?_⟩
    cases ha
    exact ⟨hall.size, by simp [newArray]⟩

theorem buildAll_extends : (contents : List Content) → (s : Store) →
    Extends s (s.buildAll contents).2
  | [], s => .refl s
  | c :: cs, s => by
    rw [buildAll]
    exact (build_extends c s).1.trans (buildAll_extends cs (s.build c).2)

end

/-- A value that is built can be fitted to a type without a change to what was there before. -/
theorem coerce_build (s : Store) (content : Content) {type : Ty} (hwild : type.isWild = false) :
    match coerce type (s.build content).1 (s.build content).2 with
    | .ok w t => Extends s t ∧ t.HasShape w type
    | .error _ t => Extends s t := by
  obtain ⟨hext, hnew⟩ := build_extends content s
  generalize (s.build content).1 = v at hnew
  generalize (s.build content).2 = u at hext hnew
  rcases array_or_plain type v with ⟨element, a, rfl, rfl⟩ | hplain
  · obtain ⟨hle, hlt⟩ := hnew a rfl
    have fitted := hext.coerce hle hlt element
    cases hr : coerce (.array element) (.array a) u with
    | ok w t =>
      rw [hr] at fitted
      exact fitted
    | error m t =>
      rw [hr] at fitted
      exact fitted.1
  · rw [coerce_plain u hplain]
    cases hc : v.convert type with
    | ok w => exact ⟨hext, shape_convert hwild hplain hc⟩
    | error m => exact hext

/-! ## Copies -/

theorem build_scalar {k : Scalar} {v : Value} (h : k.holds v = true) (s t : Store) (depth : Nat) :
    t.build (s.contentWithin depth v) = (v, t) := by
  cases k <;> cases v <;> first | (cases h; done) | (cases depth <;> rfl)

theorem buildAll_scalars {k : Scalar} (s t : Store) (depth : Nat) : ∀ {vs : List Value},
    (∀ v ∈ vs, k.holds v = true) → t.buildAll (vs.map (s.contentWithin depth)) = (vs, t)
  | [], _ => rfl
  | v :: vs, h => by
    rw [List.map_cons, buildAll, build_scalar (h v List.mem_cons_self)]
    dsimp only
    rw [buildAll_scalars s t depth fun w hw => h w (List.mem_cons_of_mem v hw)]

/-- A copy of a value has its shape. -/
theorem HasShape.copy {s : Store} {v : Value} {type : Ty} (h : s.HasShape v type) :
    (s.copy v).2.HasShape (s.copy v).1 type := by
  rw [Store.copy, content]
  cases type with
  | scalar k =>
    rw [build_scalar h]
    exact h
  | void =>
    obtain rfl : v = .nil := h
    rfl
  | any => exact h.elim
  | unknown => exact h.elim
  | array k =>
    obtain ⟨a, rfl, hlt, hall⟩ := h
    -- An array of scalars is built from the elements it has.
    obtain ⟨depth, hdepth⟩ := nesting_succ
    rw [hdepth, contentWithin, build,
      buildAll_scalars s s depth fun v hv => hall v (Array.mem_toList_iff.1 hv)]
    refine ⟨_, rfl, by simp [newArray], fun v hv => ?_⟩
    rw [items_newArray, Array.toArray_toList] at hv
    exact hall v hv

end Store

/-! ## Registration -/

namespace Host

/-- A host that was put together by registering variables, whose initial values were built for
them, and functions. A registration can also fail. -/
inductive Registered : Host ω → Store → Prop where
  | empty : Registered .empty .empty
  | «variable» {host host' : Host ω} {s t : Store} {name : String} {type : Ty} {content : Content}
      (h : Registered host s)
      (ok : host.addVariable name type (s.build content).1 (s.build content).2 = .ok host' t) :
      Registered host' t
  | refused {host : Host ω} {s t : Store} {name : String} {type : Ty} {content : Content}
      {problem : HostProblem} (h : Registered host s)
      (error : host.addVariable name type (s.build content).1 (s.build content).2 =
        .error problem t) : Registered host t
  | function {host host' : Host ω} {s : Store} {f : HostFunction ω} (h : Registered host s)
      (ok : host.addFunction f = .ok host') : Registered host' s

/-- The names of a host's variables and functions. -/
def names (host : Host ω) : List String :=
  host.externals.map HostVariable.name ++ host.functions.map HostFunction.name

/-- With different keys, each element is found by its own. -/
theorem find?_key {α : Type} {key : α → String} {xs : List α} (hn : (xs.map key).Nodup) {x : α}
    (hx : x ∈ xs) : xs.find? (fun y => key y == key x) = some x := by
  cases hg : xs.find? (fun y => key y == key x) with
  | none => exact absurd (beq_self_eq_true _) (List.find?_eq_none.1 hg x hx)
  | some y =>
    have hkey := List.find?_some hg
    rw [List.inj_on_of_nodup_map hn (List.mem_of_find?_eq_some hg) hx (eq_of_beq hkey)]

theorem external?_of_mem {host : Host ω} (distinct : host.names.Nodup) {v : HostVariable}
    (hv : v ∈ host.externals) : host.external? v.name = some v :=
  find?_key (List.nodup_append.1 distinct).1 hv

theorem function?_of_mem {host : Host ω} (distinct : host.names.Nodup) {f : HostFunction ω}
    (hf : f ∈ host.functions) : host.function? f.name = some f :=
  find?_key (List.nodup_append.1 distinct).2.1 hf

/-- No two names of a host are the same, its variables start with values of their types, and no
script has left anything in the store. -/
structure Initialized (host : Host ω) (s : Store) : Prop where
  distinct : host.names.Nodup
  data : ∀ v ∈ host.externals, v.type.isWild = false ∧ v.type ≠ .void
  initial : ∀ v ∈ host.externals, s.HasShape v.initial v.type
  blank : ∀ k ∈ s.functions, k.isScript = false

variable {host host' : Host ω} {s t : Store}

/-- No array is changed, and no function of a script is made. -/
theorem Initialized.mono (h : host.Initialized s)
    (ha : ∀ a, a < s.arrays.size → t.arrays[a]? = s.arrays[a]?)
    (hf : ∃ added, t.functions = s.functions ++ added ∧ ∀ k ∈ added, k.isScript = false) :
    host.Initialized t where
  distinct := h.distinct
  data := h.data
  initial v hv := (h.initial v hv).filled fun a _ hf => Store.filled_congr hf (ha a hf.1)
  blank k hk := by
    obtain ⟨added, hadd, hno⟩ := hf
    rw [hadd, Array.mem_append] at hk
    rcases hk with hk | hk
    · exact h.blank k hk
    · exact hno k hk

theorem Initialized.extends (h : host.Initialized s) (he : s.Extends t) : host.Initialized t :=
  h.mono he.arrays he.functions

theorem not_mem_names {name : String} (h : host.registers name = false) : name ∉ host.names := by
  rw [registers, Bool.or_eq_false_iff, List.any_eq_false, List.any_eq_false] at h
  intro hm
  rcases List.mem_append.1 hm with hm | hm
  · obtain ⟨v, hv, rfl⟩ := List.mem_map.1 hm
    exact h.1 v hv (beq_self_eq_true _)
  · obtain ⟨f, hf, rfl⟩ := List.mem_map.1 hm
    exact h.2 f hf (beq_self_eq_true _)

theorem nodup_names_variable (distinct : host.names.Nodup) {v : HostVariable}
    (fresh : v.name ∉ host.names) :
    names { host with externals := host.externals ++ [v] } |>.Nodup := by
  rw [names, List.map_append, List.map_singleton, List.append_assoc, List.singleton_append,
    List.nodup_middle]
  exact List.nodup_cons.2 ⟨fresh, distinct⟩

theorem nodup_names_function (distinct : host.names.Nodup) {f : HostFunction ω}
    (fresh : f.name ∉ host.names) :
    names { host with functions := host.functions ++ [f] } |>.Nodup := by
  rw [names, List.map_append, List.map_singleton, ← List.append_assoc,
    List.nodup_append_comm, List.singleton_append]
  exact List.nodup_cons.2 ⟨fresh, distinct⟩

/-- What registering a variable comes to. -/
theorem Initialized.addVariable (h : host.Initialized s) (name : String) (type : Ty)
    (content : Content) :
    match host.addVariable name type (s.build content).1 (s.build content).2 with
    | .ok host' t => host'.Initialized t
    | .error _ t => host.Initialized t := by
  have built := h.extends (Store.build_extends content s).1
  unfold Host.addVariable
  by_cases ht : type = .void ∨ type = .any ∨ type = .unknown
  · rw [if_pos ht]
    exact built
  · rw [if_neg ht]
    by_cases hr : host.registers name = true
    · rw [if_pos hr]
      exact built
    · rw [if_neg hr]
      have hwild : type.isWild = false := by
        cases type <;> first | rfl | simp at ht
      have fitted := s.coerce_build content hwild
      cases hc : Store.coerce type (s.build content).1 (s.build content).2 with
      | error m t =>
        rw [hc] at fitted
        exact h.extends fitted
      | ok w t =>
        rw [hc] at fitted
        obtain ⟨hext, hshape⟩ := fitted
        have old := h.extends hext
        have fresh := not_mem_names (Bool.not_eq_true _ ▸ hr)
        refine ⟨nodup_names_variable h.distinct fresh, ?_, ?_, old.blank⟩
        · intro v hv
          rcases List.mem_append.1 hv with hv | hv
          · exact h.data v hv
          · rw [List.mem_singleton.1 hv]
            exact ⟨hwild, fun e => ht (.inl e)⟩
        · intro v hv
          rcases List.mem_append.1 hv with hv | hv
          · exact old.initial v hv
          · rw [List.mem_singleton.1 hv]
            exact hshape

theorem Registered.initialized (h : host.Registered s) : host.Initialized s := by
  induction h with
  | empty => exact ⟨List.nodup_nil, by simp [Host.empty], by simp [Host.empty], by simp [Store.empty]⟩
  | @«variable» host _ s _ name type content _ ok ih =>
    have := ih.addVariable name type content
    rw [ok] at this
    exact this
  | @refused host s _ name type content _ _ error ih =>
    have := ih.addVariable name type content
    rw [error] at this
    exact this
  | @function host host' s f _ ok ih =>
    unfold addFunction at ok
    split at ok
    · cases ok
    · next hr =>
      cases ok
      exact ⟨nodup_names_function ih.distinct (not_mem_names (Bool.not_eq_true _ ▸ hr)),
        ih.data, ih.initial, ih.blank⟩

/-- Starting a program leaves the initial values of its host as they are. -/
theorem Initialized.newGlobals (h : host.Initialized s) :
    host.Initialized (Machine.newGlobals host s).2 := by
  have provide : ∀ {t : Store} (name : String) (v : Value), host.Initialized t →
      host.Initialized (Machine.provide s.scopes.size t name v) := by
    intro t name v ht
    unfold Machine.provide
    split
    · exact ht
    · exact ⟨ht.distinct, ht.data, ht.initial, ht.blank⟩
  have function : ∀ {t : Store} {k : Callable}, k.isScript = false → host.Initialized t →
      host.Initialized (Machine.provideFunction s.scopes.size t k) := by
    intro t k hk ht
    refine provide k.name _ (ht.mono (fun _ _ => rfl) ⟨#[k], by simp, ?_⟩)
    intro k' hk'
    rw [List.mem_singleton.1 (Array.mem_def.1 hk')]
    exact hk
  refine Machine.newGlobals_induct (fun t => host.Initialized t) ?_ ?_ ?_ ?_
  · exact ⟨h.distinct, h.data, h.initial, h.blank⟩
  · exact fun t b ht => function rfl ht
  · exact fun t f _ ht => function rfl ht
  · exact fun t v _ ht => provide v.name _ (ht.extends (Store.build_extends _ t).1)

end Host

end TickScript
