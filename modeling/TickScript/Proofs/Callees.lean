import TickScript.Proofs.Correspondence

/-!
# What is called

Static checking knows functions by their names alone, while a run finds a called function in
the scopes around the call. The two agree about every name that is used for functions of one
signature and for nothing else. They need not agree about other names: two functions of one
name can stand in different blocks, and a variable can hide a function.
-/

namespace TickScript

variable {ω : Type}

/-! ## Names of one signature -/

/-- In a program and its host the name `n` is used for functions of the signature `σ` only:
all functions of this name have it, and no variable has the name, which is not assigned to
either. -/
structure OneSignature (host : Host ω) (statements : List Stmt) (n : String) (σ : Signature) :
    Prop where
  builtins : ∀ b ∈ Builtin.all, b.name = n → b.signature = σ
  functions : ∀ f ∈ host.functions, f.name = n → f.signature = σ
  headers : ∀ part ∈ stmtsParts statements, ∀ header ∈ part.header?, header.name.lexeme = n →
    header.signature = σ
  externals : ∀ v ∈ host.externals, v.name ≠ n
  declared : ∀ part ∈ stmtsParts statements, ∀ t ∈ part.locals, t.lexeme ≠ n
  assigned : ∀ node ∈ stmtsNodes statements, ∀ t ∈ node.target?, t.lexeme ≠ n

/-- What a program may do to a name that it calls. -/
def Permits.calls (n : String) (σ : Signature) (left : FunctionId → Prop) : Permits :=
  ⟨fun t => t.lexeme ≠ n, fun t => t.lexeme ≠ n, fun h => h.name.lexeme = n → h.signature = σ, left⟩

section OneSignature

variable {host : Host ω} {statements : List Stmt} {n : String} {σ : Signature}
  {left : FunctionId → Prop}

theorem OneSignature.permits (h : OneSignature host statements n σ) :
    EachStmt (Permits.calls n σ left).Node (Permits.calls n σ left).Part statements := by
  refine ⟨fun node hn => ?_, fun stmt hs => ?_⟩
  · cases node with
    | assign id name value => exact h.assigned _ hn name rfl
    | assignElements id name elements => exact h.assigned _ hn name rfl
    | _ => trivial
  · cases stmt with
    | declare name type start => exact h.declared _ hs name (List.mem_singleton_self _)
    | function header body =>
      exact ⟨h.headers _ hs header rfl, fun p hp => h.declared _ hs _ (List.mem_map_of_mem hp)⟩
    | _ => trivial

/-- The host does not write the name, either. -/
theorem OneSignature.admits (h : OneSignature host statements n σ) :
    (Permits.calls n σ left).Admits host :=
  h.externals

end OneSignature

namespace Store

/-- From the outermost scope on, the name `n` stands for functions of the signature `σ`. -/
def Calls (s : Store) (globals : ScopeId) (n : String) (σ : Signature) : Prop :=
  ∀ c v, globals ≤ c → s.lookup c n = some v →
    ∃ f k, v = .function f ∧ s.functions[f]? = some k ∧ k.signature = σ

/-- The functions of `s` are still there, and names still stand for functions of their
signature. -/
structure Calling (globals : ScopeId) (n : String) (σ : Signature) (s t : Store) : Prop where
  functions : ∀ (f : FunctionId) (k : Callable), s.functions[f]? = some k → t.functions[f]? = some k
  calls : s.Calls globals n σ → t.Calls globals n σ

variable {globals : ScopeId} {n : String} {σ : Signature} {s t u : Store}

theorem Calling.refl (s : Store) : Calling globals n σ s s :=
  ⟨fun _ _ h => h, fun h => h⟩

theorem Calling.trans (h : Calling globals n σ s t) (h' : Calling globals n σ t u) :
    Calling globals n σ s u :=
  ⟨fun f k hk => h'.functions f k (h.functions f k hk), fun hc => h'.calls (h.calls hc)⟩

/-- A store with the same bindings of `n` and the same functions, or more of them. -/
theorem Calling.of_lookup (added : Array Callable) (hl : ∀ c, t.lookup c n = s.lookup c n)
    (hf : t.functions = s.functions ++ added) : Calling globals n σ s t := by
  have still : ∀ (f : FunctionId) (k : Callable), s.functions[f]? = some k →
      t.functions[f]? = some k := by
    intro f k hk
    rw [hf, Array.getElem?_append, if_pos (Array.getElem?_eq_some_iff.1 hk).1]
    exact hk
  refine ⟨still, fun hc c v hle hv => ?_⟩
  rw [hl c] at hv
  obtain ⟨f, k, rfl, hk, hs⟩ := hc c v hle hv
  exact ⟨f, k, rfl, still f k hk, hs⟩

/-- A new function is bound to its name. -/
theorem Calling.of_function {c : ScopeId} {k : Callable} {name : String}
    (h : name = n → k.signature = σ) :
    Calling globals n σ s ((s.newFunction k).2.bind c name (.function s.functions.size)) := by
  by_cases e : name = n
  · have still : ∀ (f : FunctionId) (k' : Callable), s.functions[f]? = some k' →
        (s.newFunction k).2.functions[f]? = some k' := by
      intro f k' hk
      have hlt := (Array.getElem?_eq_some_iff.1 hk).1
      rw [newFunction, Array.getElem?_push, if_neg (Nat.ne_of_lt hlt)]
      exact hk
    refine ⟨still, fun hc c' v hle hv => ?_⟩
    by_cases e' : c' = c
    · subst e'
      subst e
      have hlt : c' < (s.newFunction k).2.scopes.size := by
        have := lt_of_lookup hv
        rwa [size_bind] at this
      rw [lookup_bind _ _ _ _ _ _ hlt, if_pos ⟨rfl, rfl⟩] at hv
      cases hv
      refine ⟨_, k, rfl, ?_, h rfl⟩
      show (s.functions.push k)[s.functions.size]? = some k
      rw [Array.getElem?_push_size]
    · rw [lookup_bind_of_ne (.inl e')] at hv
      obtain ⟨f, k', rfl, hk, hs⟩ := hc c' v hle hv
      exact ⟨f, k', rfl, still f k' hk, hs⟩
  · refine .of_lookup #[k] (fun c' => ?_) (by simp [bind, newFunction])
    rw [lookup_bind_of_ne (.inr fun e' => e e'.symm)]
    rfl

end Store

/-- Every step leaves a name to functions of its signature. -/
theorem steady_calling {host : Host ω} (outside : ∀ f ∈ host.functions, f.Outside)
    (globals : ScopeId) (n : String) (σ : Signature) (left : FunctionId → Prop) :
    Steady host (.calls n σ left) (fun _ => Store.Calling globals n σ) where
  refl _ s := Store.Calling.refl s
  trans h h' := h.trans h'
  weaken h := h
  arrays {s t} hs hf := by
    refine .of_lookup #[] (fun c => ?_) (by simp [hf])
    rw [Store.lookup, Store.lookup, hs]
  leave {s t p} h := by
    refine Store.Calling.trans (.of_lookup #[] (fun c => ?_) ?_) h
    · exact Store.lookup_newScope
    · simp [Store.newScope]
  assign hw _ := by
    refine .of_lookup #[] (fun c => ?_) (by simp [Store.bind])
    exact Store.lookup_bind_of_ne (.inr hw.symm)
  define hd _ := by
    refine .of_lookup #[] (fun c => ?_) (by simp [Store.bind])
    exact Store.lookup_bind_of_ne (.inr hd.symm)
  allocate {s c header body} _ :=
    .of_lookup #[.script header body c] (fun _ => rfl) (by simp [Store.newFunction])
  function hh _ := Store.Calling.of_function hh
  outside := outside
  respond f hf values s w := by
    obtain ⟨added, e, -⟩ := (outside f hf).functions values s w
    refine .of_lookup added (fun c => ?_) e
    rw [Store.lookup, Store.lookup, (outside f hf).scopes]

/-! ## The outermost scope -/

namespace Machine

variable {host : Host ω} {statements : List Stmt} {n : String} {σ : Signature}

theorem calling_provideFunction {g : ScopeId} {t : Store} {c : Callable}
    (h : c.name = n → c.signature = σ) :
    Store.Calling g n σ t (provideFunction g t c) := by
  show Store.Calling g n σ t (provide g (t.newFunction c).2 c.name (.function t.functions.size))
  unfold provide
  split
  · exact .of_lookup #[c] (fun _ => rfl) (by simp [Store.newFunction])
  · exact .of_function h

theorem calling_provideVariable {g : ScopeId} {t : Store} {v : HostVariable} (h : v.name ≠ n) :
    Store.Calling g n σ t (provideVariable g t v) := by
  obtain ⟨hs, hf⟩ := Store.copy_frame t v.initial
  have copied : ∀ c, (t.copy v.initial).2.lookup c n = t.lookup c n := by
    intro c
    rw [Store.lookup, Store.lookup, hs]
  show Store.Calling g n σ t (provide g (t.copy v.initial).2 v.name (t.copy v.initial).1)
  unfold provide
  split
  · exact .of_lookup #[] copied (by simp [hf])
  · refine .of_lookup #[] (fun c => ?_) (by simp [Store.bind, hf])
    rw [Store.lookup_bind_of_ne (.inr h.symm), copied]

/-- At the start of a program a name of one signature stands for a function of it. -/
theorem calls_newGlobals (h : OneSignature host statements n σ) (s : Store) :
    (newGlobals host s).2.Calls s.scopes.size n σ := by
  refine newGlobals_induct (fun t => t.Calls s.scopes.size n σ) ?_ ?_ ?_ ?_
  · intro c v hle hv
    rw [Store.lookup_newScope] at hv
    exact absurd (Store.lt_of_lookup hv) (Nat.not_lt.2 hle)
  · intro t b ht
    exact (calling_provideFunction (c := .builtin b) (h.builtins b b.mem_all)).calls ht
  · intro t f hf ht
    exact (calling_provideFunction (c := .host f.name f.signature) (h.functions f hf)).calls ht
  · intro t v hv ht
    exact (calling_provideVariable (h.externals v hv)).calls ht

end Machine

/-! ## Calls -/

/-- A name that stands for functions of one signature is called as a function of it. -/
theorem Store.Calls.callee {setting : Setting ω} {s : Store} {n : String} {σ : Signature}
    (calls : s.Calls setting.globals n σ) (root : s.parent? setting.globals = none)
    {scope : ScopeId} {cs : List ScopeId} (chain : s.Chain setting.globals scope cs)
    {apply : Apply ω} {id : ExprId} {name : Token} (hn : name.lexeme = n) {run r : Run ω}
    (hs : run.store = s) {v : Value} (h : Eval.expr setting apply scope (.var id name) run = .ok v r) :
    r = run ∧ ∃ f k, v = .function f ∧ s.functions[f]? = some k ∧ k.signature = σ := by
  subst hs
  subst hn
  rw [Eval.expr] at h
  have ends : (Eval.read setting scope id name).Ends run
      (fun v r => r = run ∧ ∃ f k, v = .function f ∧ run.store.functions[f]? = some k ∧
        k.signature = σ) (fun _ _ => True) := by
    refine Eval.ends_read trivial fun c v found hv => ⟨rfl, calls c v ?_ hv⟩
    rcases found.within with hw | hw
    · exact Store.chain_within root chain hw
    · exact Store.chain_within root
        (show run.store.Chain setting.globals setting.globals [] from rfl) hw
  exact ends.of_ok h

/-- Evaluating expressions keeps functions, and gives one value for each. -/
theorem Eval.exprs_ok {setting : Setting ω} (outside : ∀ f ∈ setting.host.functions, f.Outside)
    {fuel : Nat} {scope : ScopeId} : ∀ {es : List Expr} {values : List Value} {run r : Run ω},
    Eval.exprs setting (Eval.call setting fuel) scope es run = .ok values r →
    values.length = es.length ∧
      ∀ (f : FunctionId) (k : Callable), run.store.functions[f]? = some k →
        r.store.functions[f]? = some k := by
  intro es values run r h
  have steady := steady_kept outside .everything
  refine ⟨?_, fun f k hk => ?_⟩
  · induction es generalizing values run r with
    | nil =>
      cases h
      rfl
    | cons e es ih =>
      rw [Eval.exprs] at h
      have ends : (Eval.exprs setting (Eval.call setting fuel) scope (e :: es)).Ends run
          (fun vs _ => vs.length = (e :: es).length) (fun _ _ => True) := by
        rw [Eval.exprs]
        refine Eval.ends_bind.2 (.intro (fun v r' _ => ?_) fun _ _ _ => trivial)
        refine Eval.ends_bind.2 (.intro (fun vs r'' hvs => ?_) fun _ _ _ => trivial)
        exact (Eval.ends_pure _).2 (congrArg Nat.succ (ih hvs))
      exact ends.of_ok (by rw [Eval.exprs]; exact h)
  · have keeps := keeps_exprs steady (keeps_call setting steady fuel none run.store) scope es
      (fun node _ => Permits.node_everything node) run (Store.bodies_everything _)
      (steady.refl none _)
    exact ((keeps.all Event.spares_nothing).result.of_ok h).2.function hk

/-- A called name agrees with its signature. A machine takes up an accepted program, which cannot
get at what earlier ones have left there. It runs the program and calls its functions in any order,
and in between the host writes its variables and time goes by. Every call that it executes goes to
a name that has a signature, with as many arguments as this has parameters. If the name is used for
functions of this signature only, then what it stands for in the run is a function of the same
signature, and so neither the test whether it is a function nor the test of the number of arguments
can fail. -/
theorem called_signature {source : String} {host : Host ω}
    (outside : ∀ f ∈ host.functions, f.Outside) (accepted : (compile source host).accepted = true)
    (m : Machine ω) (forgets : m.Forgets host (compile source host))
    (requests : List (Nat × Request ω)) {fuel : Nat} {scope : ScopeId} {id : ExprId}
    {callee : Expr} {paren : Token} {arguments : List Expr} {run : Run ω}
    (h : Event.evaluates fuel scope (.call id callee paren arguments) run ∈
      (m.reset host (compile source host).distances).eventsAll host
        (compile source host).statements requests)
    (written : .call id callee paren arguments ∈ stmtsNodes (compile source host).statements) :
    ∃ i name σ, callee = .var i name ∧
      (Signatures.collect (compile source host).statements host).find? name.lexeme = some σ ∧
      arguments.length = σ.parameters.length ∧
      (OneSignature host (compile source host).statements name.lexeme σ →
        ∀ setting : Setting ω, setting.host = host →
        setting.globals = (m.reset host (compile source host).distances).globals → ∀ v r,
        Eval.expr setting (Eval.call setting fuel) scope callee run = .ok v r →
        ∃ f k, v = .function f ∧ r.store.functions[f]? = some k ∧ k.signature = σ ∧
          ∀ values r',
            Eval.exprs setting (Eval.call setting fuel) scope arguments r = .ok values r' →
            r'.store.functions[f]? = some k ∧ values.length = k.arity) := by
  have hc := compiled accepted
  have sparing := forgets.sparing outside accepted requests
  generalize compile source host = c at *
  have checked := StmtsChecked.call c.statements hc.checked written
  rw [Expr.Checked] at checked
  obtain ⟨-, i, name, σ, rfl, hfind, hargs⟩ := checked
  have hlen : arguments.length = σ.parameters.length := by
    rw [hargs.length_eq, List.length_map]
  refine ⟨i, name, σ, rfl, hfind, hlen, ?_⟩
  intro one setting hhost hglobals v r hv
  obtain ⟨hev, root⟩ := Machine.Ready.eventsAll outside hc.placed requests
    (Machine.ready_reset host m c.distances) sparing _ h
  rcases hev with ⟨cs, fs, gs, chain, -, -, -⟩ | ⟨asked, hasked⟩
  · have bodies : (m.reset host c.distances).store.Bodies
        (.calls name.lexeme σ m.store.Left) :=
      fun f header body closure hf hl =>
        absurd ⟨_, (Machine.begun host m.store).functions f header body closure hf, rfl⟩ hl
    have calling := Machine.keeps_eventsAll
      (steady_calling outside (m.reset host c.distances).globals name.lexeme σ _) one.permits
      one.admits requests bodies sparing _ h
    have calls := calling.calls (Machine.calls_newGlobals one m.store)
    rw [← hglobals] at root chain calls
    obtain ⟨rfl, f, k, rfl, hk, hσ⟩ := Store.Calls.callee calls root chain rfl rfl hv
    refine ⟨f, k, rfl, hk, hσ, fun values r' hvs => ?_⟩
    obtain ⟨hcount, hkeep⟩ := Eval.exprs_ok (by rw [hhost]; exact outside) hvs
    refine ⟨hkeep f k hk, ?_⟩
    rw [hcount, hlen, Callable.arity, hσ]
  · exact absurd written (hc.not_asked hasked)

/-- The name `twice` of `nestedSource` is called. -/
def Event.callsTwice : Event Nat → Bool
  | .evaluates _ _ (.call _ (.var _ name) paren _) _ => name.lexeme == "twice" && paren.line == 1
  | _ => false

theorem called_signature_nested :
    ∃ fuel scope id i name paren arguments run,
      Event.evaluates fuel scope (.call id (.var i name) paren arguments) run ∈
        (agedMachine.reset Host.counting nested.distances).eventsAll Host.counting
          nested.statements [(0, .work #[] 7), (5, .interpret)] ∧
      name.lexeme = "twice" ∧ arguments.length = 1 ∧
      ∀ setting : Setting Nat, setting.host = Host.counting →
        setting.globals = (agedMachine.reset Host.counting nested.distances).globals → ∀ v r,
        Eval.expr setting (Eval.call setting fuel) scope (.var i name) run = .ok v r →
        ∃ f k, v = .function f ∧ r.store.functions[f]? = some k ∧
          k.signature = ⟨[.int], .int⟩ := by
  have accepted : nested.accepted = true := by decide +kernel
  have one : OneSignature Host.counting nested.statements "twice" ⟨[.int], .int⟩ :=
    ⟨by decide +kernel, by decide +kernel, by decide +kernel, by decide +kernel,
      by decide +kernel, by decide +kernel⟩
  have signature : (Signatures.collect nested.statements Host.counting).find? "twice" =
      some ⟨[.int], .int⟩ := by decide +kernel
  have happens : ((agedMachine.reset Host.counting nested.distances).eventsAll Host.counting
      nested.statements [(0, .work #[] 7), (5, .interpret)]).any
      Event.callsTwice = true := by decide +kernel
  obtain ⟨ev, hev, ht⟩ := List.any_eq_true.1 happens
  cases ev with
  | binds => cases ht
  | evaluates fuel scope e run =>
    cases e with
    | call id callee paren arguments =>
      cases callee with
      | var i name =>
        simp only [Event.callsTwice, Bool.and_eq_true, beq_iff_eq] at ht
        have written : .call id (.var i name) paren arguments ∈ stmtsNodes nested.statements :=
          evaluates_written Host.counting_outside accepted (agedMachine_forgets nested) hev
            (by simp [Expr.line, ht.2])
        obtain ⟨i', name', σ, hcallee, hfind, hlen, hrest⟩ := called_signature
          Host.counting_outside accepted agedMachine (agedMachine_forgets nested) _ hev written
        obtain ⟨rfl, rfl⟩ := Expr.var.inj hcallee
        rw [ht.1] at hfind hrest
        rw [signature] at hfind
        cases hfind
        refine ⟨fuel, scope, id, i, name, paren, arguments, run, hev, ht.1, hlen, ?_⟩
        intro setting hhost hglobals v r hv
        obtain ⟨f, k, hf, hk, hσ, -⟩ := hrest one setting hhost hglobals v r hv
        exact ⟨f, k, hf, hk, hσ⟩
      | _ => cases ht
    | _ => cases ht

/-- Two functions of one name stand in two blocks. -/
def rivalSource : String :=
  "{ int f() { return 1; } f(5); } { int f(int a) { return a; } }"

/-- A variable hides a function. -/
def hiddenSource : String :=
  "int f() { return 1; } { int f = 2; f(); }"

/-- A function is assigned to. -/
def assignedSource : String :=
  "int f() { return 1; } f = 2; f();"

/-- For other names static checking and runs need not agree. -/
theorem called_signature_rival :
    ((compile rivalSource (Host.empty : Host Unit)).accepted = true ∧
      (Signatures.collect (compile rivalSource (Host.empty : Host Unit)).statements
        (Host.empty : Host Unit)).find? "f" = some ⟨[.int], .int⟩ ∧
      firstRun rivalSource = .error (.error ⟨1, .wrongArity 0 1⟩)) ∧
    ((compile hiddenSource (Host.empty : Host Unit)).accepted = true ∧
      firstRun hiddenSource = .error (.error ⟨1, .notCallable⟩)) ∧
    (compile assignedSource (Host.empty : Host Unit)).accepted = true ∧
      firstRun assignedSource = .error (.error ⟨1, .notCallable⟩) := by
  decide +kernel

end TickScript
