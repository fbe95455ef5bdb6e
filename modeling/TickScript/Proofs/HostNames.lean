import TickScript.Proofs.Copies
import TickScript.Proofs.Typing.Start

/-!
# The names of a host

From one host three tables are made: the signatures by which calls are checked, the types with
which scanning starts, and the outermost scope of a program. A name of the host means the same in
all of them, and so does the name of a built-in function. Registration compares the names of a
host only with each other, so a host can take the name of a built-in function; it then stays the
built-in function that scanning starts with and that a program finds.
-/

namespace TickScript

variable {ω : Type}

namespace Store

/-! ## Copies -/

/-- The arrays that a value is made of. -/
inductive Leads (s : Store) : Value → ArrayId → Prop where
  | here (a : ArrayId) : Leads s (.array a) a
  | item {a b : ArrayId} {v : Value} (hv : v ∈ s.items a) (h : Leads s v b) : Leads s (.array a) b

/-- The value `w` of `t` is a copy of the value `v` of `s`: it shows the same, and it is made of
arrays that are not in `s`. -/
structure Copied (s : Store) (v : Value) (t : Store) (w : Value) : Prop where
  content : t.content w = s.content v
  new : ∀ a, t.Leads w a → s.arrays.size ≤ a

mutual

/-- A value that is built is made of new arrays only, also later. -/
theorem leads_build : (content : Content) → ∀ {s t : Store} {a : ArrayId},
    Adds (s.build content).2 t → t.Leads (s.build content).1 a → s.arrays.size ≤ a
  | .int _, _, _, _, _, h => nomatch h
  | .float _, _, _, _, _, h => nomatch h
  | .bool _, _, _, _, _, h => nomatch h
  | .function _ _, _, _, _, _, h => nomatch h
  | .nil, _, _, _, _, h => nomatch h
  | .array items, s, t, a, adds, h => by
    rw [build] at adds h
    have last := extends_newArray (s.buildAll items).2 (s.buildAll items).1.toArray
    have stored : t.items (s.buildAll items).2.arrays.size = (s.buildAll items).1.toArray :=
      (adds.items (by simp [newArray])).trans (items_newArray _ _)
    cases h with
    | here => exact (buildAll_extends items s).size
    | item hv h =>
      rw [stored] at hv
      exact leads_buildAll items (last.adds.trans adds) (List.mem_toArray.1 hv) h

theorem leads_buildAll : (contents : List Content) → ∀ {s t : Store} {v : Value} {a : ArrayId},
    Adds (s.buildAll contents).2 t → v ∈ (s.buildAll contents).1 → t.Leads v a →
    s.arrays.size ≤ a
  | [], _, _, _, _, _, hv, _ => nomatch hv
  | c :: cs, s, t, v, a, adds, hv, h => by
    rw [buildAll] at adds hv
    rcases List.mem_cons.1 hv with rfl | hv
    · exact leads_build c ((buildAll_extends cs (s.build c).2).adds.trans adds) h
    · exact Nat.le_trans (build_extends c s).1.size (leads_buildAll cs adds hv h)

end

theorem copied {s t u : Store} {v : Value} (closed : s.Closed) (hv : s.Has v) (before : Adds s t)
    (closed' : t.Closed) (after : Adds (t.copy v).2 u) : Copied s v u (t.copy v).1 where
  content := (content_copy closed' after).trans (before.content closed hv)
  new _ h := Nat.le_trans before.grows.arrays (leads_build _ after h)

end Store

/-! ## What is known of a name -/

/-- A name stands for functions of one signature: calls of it are checked with this signature,
scanning starts with its return type, and the function that a program finds has it. -/
structure Described (host : Host ω) (statements : List Stmt) (m : Machine ω) (n : String)
    (σ : Signature) : Prop where
  checked : (Signatures.collect statements host).find? n = some σ
  seeded : host.seedTypes.find? n = some σ.returnType
  found : ∃ k, m.function? n = some k ∧ k.signature = σ

/-- Scanning starts with the type of a variable, and a program finds a copy of its initial
value. -/
structure Supplied (host : Host ω) (s : Store) (m : Machine ω) (v : HostVariable) : Prop where
  seeded : host.seedTypes.find? v.name = some v.type
  found : ∃ w, m.global? v.name = some w ∧ s.Copied v.initial m.store w

theorem Builtin.ofName?_name (b : Builtin) : Builtin.ofName? b.name = some b := by
  cases b <;> decide

theorem Builtin.name_injective {b b' : Builtin} (h : b.name = b'.name) : b = b' := by
  have := b.ofName?_name
  rw [h, b'.ofName?_name] at this
  exact (Option.some.inj this).symm

theorem Builtin.ofName?_eq_none {n : String} (h : ∀ b : Builtin, b.name ≠ n) :
    Builtin.ofName? n = none :=
  List.find?_eq_none.2 fun b _ e => h b (eq_of_beq e)

section Names

variable {host : Host ω} {statements : List Stmt} {m : Machine ω} {n : String}

/-! ## Scanning -/

/-- Scanning starts with the return types of the built-in functions, whatever the host has. -/
theorem seedTypes_builtin (host : Host ω) (b : Builtin) :
    host.seedTypes.find? b.name = some b.signature.returnType := by
  rw [seedTypes_find?]
  cases b <;> rfl

theorem nameTypes_function (distinct : host.names.Nodup) {f : HostFunction ω}
    (hf : f ∈ host.functions) : host.nameTypes.find? f.name = some f.signature.returnType :=
  Table.find?_ofList (nameTypes_fst host ▸ distinct)
    (List.mem_append_right _ (List.mem_map_of_mem hf))

/-! ## Calls -/

/-- In a program without functions, a name whose functions have one signature is checked with
it. -/
theorem collect_find? (plain : declaredIn statements = []) {σ : Signature}
    (known : (∃ b : Builtin, b.name = n) ∨ ∃ f ∈ host.functions, f.name = n)
    (builtins : ∀ b : Builtin, b.name = n → b.signature = σ)
    (functions : ∀ f ∈ host.functions, f.name = n → f.signature = σ) :
    (Signatures.collect statements host).find? n = some σ := by
  refine Table.find?_ofList_of_unique ?_ fun τ hτ => ?_
  · rw [plain, List.append_nil, List.mem_append]
    rcases known with ⟨b, rfl⟩ | ⟨f, hf, rfl⟩
    · rw [← builtins b rfl]
      exact .inl (List.mem_map_of_mem b.mem_all)
    · rw [← functions f hf rfl]
      exact .inr (List.mem_map_of_mem hf)
  · rw [plain, List.append_nil, List.mem_append] at hτ
    rcases hτ with hτ | hτ
    · obtain ⟨b, -, e⟩ := List.mem_map.1 hτ
      cases e
      exact builtins b rfl
    · obtain ⟨f, hf, e⟩ := List.mem_map.1 hτ
      cases e
      exact functions f hf rfl

/-! ## The outermost scope -/

/-- A program finds the function that is provided first under a name. -/
theorem reset_function? (closed : m.store.Closed) (distances : Table ExprId Nat) {k : Callable}
    (first : (Machine.provisions host).find? (·.name == n) = some (.function k)) :
    (m.reset host distances).function? n = some k := by
  obtain ⟨u, -, -, made, bound⟩ := Machine.newGlobals_first closed first
  have found : (m.reset host distances).global? n = some (.function u.functions.size) := bound
  rw [Machine.function?, found]
  refine (made.functions u.functions.size ?_).trans ?_
  · simp [Machine.Provision.make, Store.newFunction]
  · simp [Machine.Provision.make, Store.newFunction]

theorem reset_builtin (closed : m.store.Closed) (distances : Table ExprId Nat) (b : Builtin) :
    (m.reset host distances).function? b.name = some (.builtin b) := by
  refine reset_function? closed distances ?_
  rw [Machine.provisions_find?, b.ofName?_name]
  rfl

theorem reset_hostFunction (closed : m.store.Closed) (distinct : host.names.Nodup)
    (distances : Table ExprId Nat) {f : HostFunction ω} (hf : f ∈ host.functions)
    (apart : ∀ b : Builtin, b.name ≠ f.name) :
    (m.reset host distances).function? f.name = some (.host f.name f.signature) := by
  refine reset_function? closed distances ?_
  rw [Machine.provisions_find?, Builtin.ofName?_eq_none apart, Host.function?_of_mem distinct hf]
  rfl

/-! ## One view of a name -/

theorem described_builtin (closed : m.store.Closed) (plain : declaredIn statements = [])
    (distances : Table ExprId Nat) (b : Builtin)
    (agree : ∀ f ∈ host.functions, f.name = b.name → f.signature = b.signature) :
    Described host statements (m.reset host distances) b.name b.signature where
  checked := by
    refine collect_find? plain (.inl ⟨b, rfl⟩) (fun b' hb => ?_) agree
    rw [Builtin.name_injective hb]
  seeded := seedTypes_builtin host b
  found := ⟨_, reset_builtin closed distances b, rfl⟩

theorem described_function (built : host.Built m.store) (plain : declaredIn statements = [])
    (distances : Table ExprId Nat) {f : HostFunction ω} (hf : f ∈ host.functions)
    (agree : ∀ b : Builtin, b.name = f.name → b.signature = f.signature) :
    Described host statements (m.reset host distances) f.name f.signature := by
  have same : ∀ f' ∈ host.functions, f'.name = f.name → f' = f := fun f' hf' e =>
    List.inj_on_of_nodup_map (List.nodup_append.1 built.distinct).2.1 hf' hf e
  by_cases shared : ∃ b : Builtin, b.name = f.name
  · -- The built-in function comes first, and has the same signature.
    obtain ⟨b, hb⟩ := shared
    rw [← hb, ← agree b hb]
    refine described_builtin built.closed plain distances b fun f' hf' e => ?_
    rw [same f' hf' (e.trans hb), agree b hb]
  · have apart : ∀ b : Builtin, b.name ≠ f.name := fun b hb => shared ⟨b, hb⟩
    refine ⟨?_, ?_, _, reset_hostFunction built.closed built.distinct distances hf apart, rfl⟩
    · refine collect_find? plain (.inr ⟨f, hf, rfl⟩) (fun b hb => absurd hb (apart b)) ?_
      exact fun f' hf' e => by rw [same f' hf' e]
    · rw [seedTypes_host apart, nameTypes_function built.distinct hf]

theorem supplied_variable (built : host.Built m.store) (distances : Table ExprId Nat)
    {v : HostVariable} (hv : v ∈ host.externals) (apart : ∀ b : Builtin, b.name ≠ v.name) :
    Supplied host m.store (m.reset host distances) v where
  seeded := by rw [seedTypes_host apart, nameTypes_variable built.distinct hv]
  found := by
    obtain ⟨u, before, closed, after, bound⟩ := Machine.newGlobals_first built.closed
      (Machine.provisions_variable built.distinct hv (Builtin.ofName?_eq_none apart))
    exact ⟨_, bound, Store.copied built.closed (built.initial v hv) before closed after⟩

/-- Whatever a host registers, the name of a built-in function stays with it: scanning starts
with its return type, and a program finds it. Checking, scanning and a program agree about every
built-in function and every function of the host, unless a function of the host has the name of
a built-in one and another signature. Each variable of the host that does not have the name of a
built-in function is found as a copy of its initial value, and scanning starts with its type. -/
theorem host_names_agree (built : host.Built m.store) (plain : declaredIn statements = [])
    (distances : Table ExprId Nat) :
    (∀ b : Builtin, host.seedTypes.find? b.name = some b.signature.returnType ∧
      (m.reset host distances).function? b.name = some (.builtin b)) ∧
    (∀ b : Builtin,
      (∀ f ∈ host.functions, f.name = b.name → f.signature = b.signature) →
      Described host statements (m.reset host distances) b.name b.signature) ∧
    (∀ f ∈ host.functions,
      (∀ b : Builtin, b.name = f.name → b.signature = f.signature) →
      Described host statements (m.reset host distances) f.name f.signature) ∧
    (∀ f ∈ host.functions, (∀ b : Builtin, b.name ≠ f.name) →
      (m.reset host distances).function? f.name = some (.host f.name f.signature) ∧
      host.function? f.name = some f) ∧
    ∀ v ∈ host.externals, (∀ b : Builtin, b.name ≠ v.name) →
      Supplied host m.store (m.reset host distances) v := by
  refine ⟨fun b => ⟨seedTypes_builtin host b, reset_builtin built.closed distances b⟩, ?_, ?_, ?_,
    ?_⟩
  · exact fun b agree => described_builtin built.closed plain distances b agree
  · exact fun f hf agree => described_function built plain distances hf agree
  · exact fun f hf apart => ⟨reset_hostFunction built.closed built.distinct distances hf apart,
      Host.function?_of_mem built.distinct hf⟩
  · exact fun v hv apart => supplied_variable built distances hv apart

end Names

/-! ## A host that takes names of built-in functions -/

/-- A function that answers one value. -/
def HostFunction.answering (name : String) (signature : Signature) (v : Value) :
    HostFunction Unit :=
  ⟨name, signature, fun _ s w => ⟨some v, s, w, []⟩⟩

/-- A host with a variable `deltatime` and a function `print`. -/
def Host.clashing : Host Unit where
  externals := [⟨"deltatime", .int, .int 7⟩, ⟨"levels", .array .int, .array 0⟩]
  functions := [.answering "print" ⟨[], .int⟩ (.int 1),
    .answering "probe" ⟨[.int], .bool⟩ (.bool true)]

def clashingMachine : Machine Unit :=
  .start Host.clashing ⟨#[#[.int 3]], #[], #[]⟩ ()

theorem Host.clashing_built : Host.clashing.Built clashingMachine.store := by
  have made : Store.Closed ⟨#[#[.int 3]], #[], #[]⟩ ∧
      Store.Grows .empty ⟨#[#[.int 3]], #[], #[]⟩ :=
    @Store.Closed.newArray .empty Store.closed_empty #[.int 3] (by simp [Store.Has])
  have first : @Built Unit ⟨[⟨"deltatime", .int, .int 7⟩], []⟩ .empty :=
    @Built.variable _ _ _ _ _ "deltatime" .int (.int 7) (.empty Store.closed_empty) trivial rfl
  have second : @Built Unit ⟨clashing.externals, []⟩ ⟨#[#[.int 3]], #[], #[]⟩ :=
    @Built.variable _ _ _ _ _ "levels" (.array .int) (.array 0) (first.worked made.1 made.2)
      Nat.zero_lt_one rfl
  have third : Built ⟨clashing.externals, [.answering "print" ⟨[], .int⟩ (.int 1)]⟩
      ⟨#[#[.int 3]], #[], #[]⟩ :=
    second.function (f := .answering "print" ⟨[], .int⟩ (.int 1)) rfl
  have whole : clashing.Built ⟨#[#[.int 3]], #[], #[]⟩ :=
    third.function (f := .answering "probe" ⟨[.int], .bool⟩ (.bool true)) rfl
  exact whole.worked (Machine.closed_newGlobals made.1) (Machine.adds_newGlobals made.1).grows

theorem clashing_names_agree :
    Host.clashing.Built clashingMachine.store ∧
      Described Host.clashing [] (clashingMachine.reset Host.clashing .empty) "size_of"
        ⟨[.any], .int⟩ ∧
      Described Host.clashing [] (clashingMachine.reset Host.clashing .empty) "probe"
        ⟨[.int], .bool⟩ ∧
      Supplied Host.clashing clashingMachine.store (clashingMachine.reset Host.clashing .empty)
        ⟨"levels", .array .int, .array 0⟩ := by
  have plain : declaredIn [] = [] := rfl
  obtain ⟨-, builtins, functions, -, externals⟩ :=
    host_names_agree Host.clashing_built plain .empty
  refine ⟨Host.clashing_built, ?_, ?_, ?_⟩
  · exact builtins .sizeOf (by decide)
  · exact functions (.answering "probe" ⟨[.int], .bool⟩ (.bool true)) (.tail _ (.head _))
      fun b hb => by cases b <;> exact absurd hb (by decide)
  · exact externals _ (.tail _ (.head _)) fun b => by cases b <;> decide

/-- Calls of `print` are checked as calls of the function of the host, while scanning starts with
the type of the built-in one; and no program finds the variable. -/
theorem clashing_names_differ :
    Host.clashing.Built clashingMachine.store ∧
      (¬ ∃ σ, Described Host.clashing [] (clashingMachine.reset Host.clashing .empty) "print" σ) ∧
      ⟨"deltatime", .int, .int 7⟩ ∈ Host.clashing.externals ∧
      (clashingMachine.reset Host.clashing .empty).content? "deltatime" =
        some (.function 5 "deltatime") ∧
      ¬ Supplied Host.clashing clashingMachine.store (clashingMachine.reset Host.clashing .empty)
        ⟨"deltatime", .int, .int 7⟩ := by
  refine ⟨Host.clashing_built, ?_, List.mem_cons_self, rfl, ?_⟩
  · rintro ⟨σ, checked, seeded, -⟩
    have called : (Signatures.collect [] Host.clashing).find? "print" = some ⟨[], .int⟩ := by
      decide
    obtain rfl := Option.some.inj (called.symm.trans checked)
    exact absurd seeded (by decide)
  · rintro ⟨seeded, -⟩
    exact absurd seeded (by decide)

end TickScript
