import TickScript.Proofs.Access
import TickScript.Proofs.Mild
import TickScript.Proofs.Parts

/-!
# Relations that every step respects

Much of what a run keeps is a relation between an earlier and a later store that each single
step respects: an assignment, a new scope, a call of the host. `Steady` lists these steps once.
`Moves` says that a part of a program stays within such a relation, and what follows gives one
rule for each way in which a part is made up of others and one for each step.

A program may add names to the scope it runs in, and to no older one. The relation therefore
comes with the scope that is free to grow, if there is one.
-/

namespace TickScript

variable {ω : Type}

/-- Which names a program may assign to, which it may declare as variables or parameters, and
which functions it may declare. The functions `left` are those of earlier programs, which it does
not call. -/
structure Permits where
  writes : Token → Prop
  declares : Token → Prop
  headers : Header → Prop
  left : FunctionId → Prop

namespace Permits

/-- Is what an expression does itself permitted? -/
def Node (may : Permits) : Expr → Prop
  | .assign _ name _ => may.writes name
  | .assignElements _ name _ => may.writes name
  | _ => True

/-- Is what a statement does itself permitted? -/
def Part (may : Permits) : Stmt → Prop
  | .declare name _ _ => may.declares name
  | .function header _ => may.headers header ∧ ∀ p ∈ header.parameters, may.declares p.name
  | _ => True

/-- Everything is permitted. -/
def everything : Permits := ⟨fun _ => True, fun _ => True, fun _ => True, fun _ => False⟩

theorem node_everything (e : Expr) : everything.Node e := by
  cases e <;> trivial

theorem part_everything (s : Stmt) : everything.Part s := by
  cases s <;> simp [Part, everything]

theorem each_everything (ss : List Stmt) : EachStmt everything.Node everything.Part ss :=
  ⟨fun node _ => node_everything node, fun part _ => part_everything part⟩

end Permits

/-- The script functions of a store that may be called do only what is permitted. -/
def Store.Bodies (may : Permits) (s : Store) : Prop :=
  ∀ ⦃f : FunctionId⦄ ⦃header : Header⦄ ⦃body : List Stmt⦄ ⦃closure : ScopeId⦄,
    s.functions[f]? = some (.script header body closure) → ¬ may.left f →
    (∀ p ∈ header.parameters, may.declares p.name) ∧ EachStmt may.Node may.Part body

theorem Store.bodies_everything (s : Store) : s.Bodies .everything :=
  fun _ _ body _ _ _ => ⟨fun _ _ => trivial, Permits.each_everything body⟩

/-- A host function works on values. It leaves the scopes as they are, and if it makes functions
then none of the script. -/
structure HostFunction.Outside (f : HostFunction ω) : Prop where
  scopes : ∀ values s w, (f.respond values s w).store.scopes = s.scopes
  functions : ∀ values s w, ∃ added, (f.respond values s w).store.functions = s.functions ++ added ∧
    ∀ c ∈ added, c.isScript = false

/-- Every step respects the relation `K`. Its first argument is the scope that may get new
names. -/
structure Steady (host : Host ω) (may : Permits) (K : Option ScopeId → Store → Store → Prop) :
    Prop where
  refl : ∀ c s, K c s s
  trans : ∀ {c s t u}, K c s t → K c t u → K c s u
  weaken : ∀ {c s t}, K none s t → K c s t
  arrays : ∀ {s t : Store}, t.scopes = s.scopes → t.functions = s.functions → K none s t
  leave : ∀ {s t : Store} {p}, K (some s.scopes.size) (s.newScope p).2 t → K none s t
  assign : ∀ {s : Store} {c name v}, may.writes name → s.binds c name.lexeme = true →
    K none s (s.bind c name.lexeme v)
  define : ∀ {s : Store} {c name v}, may.declares name → s.binds c name.lexeme = false →
    K (some c) s (s.bind c name.lexeme v)
  allocate : ∀ {s : Store} {c header body}, may.headers header →
    K none s (s.newFunction (.script header body c)).2
  function : ∀ {s : Store} {c header body}, may.headers header →
    s.binds c header.name.lexeme = false →
    K (some c) s ((s.newFunction (.script header body c)).2.bind c header.name.lexeme
      (.function s.functions.size))
  outside : ∀ f ∈ host.functions, f.Outside
  respond : ∀ f ∈ host.functions, ∀ values s w, K none s (f.respond values s w).store

/-! ## Steps that only touch arrays -/

namespace Store

theorem coerce_array (element : Scalar) (a : ArrayId) (s : Store) :
    coerce (.array element) (.array a) s =
      match convertItems element (s.items a).toList with
      | (items, none) => .ok (.array a) (s.setItems a items.toArray)
      | (items, some m) => .error m (s.setItems a items.toArray) := rfl

theorem coerce_plain {type : Ty} {v : Value} (s : Store)
    (h : ∀ element a, type = .array element → v ≠ .array a) :
    coerce type v s =
      match v.convert type with
      | .ok w => .ok w s
      | .error m => .error m s := by
  unfold coerce
  split
  · next element a => exact absurd rfl (h element a rfl)
  · rfl

/-- Either an array is fitted to an array type, or the store plays no part. -/
theorem array_or_plain (type : Ty) (v : Value) :
    (∃ element a, type = .array element ∧ v = .array a) ∨
      ∀ element a, type = .array element → v ≠ .array a := by
  cases type <;> cases v <;> simp

/-- Fitting a value changes nothing but the elements of arrays. -/
theorem coerce_frame (type : Ty) (v : Value) (s : Store) :
    (∀ w t, coerce type v s = .ok w t → t.scopes = s.scopes ∧ t.functions = s.functions) ∧
      ∀ m t, coerce type v s = .error m t → t.scopes = s.scopes ∧ t.functions = s.functions := by
  rcases array_or_plain type v with ⟨element, a, rfl, rfl⟩ | h
  · rw [coerce_array]
    cases convertItems element (s.items a).toList with
    | mk items failure =>
      cases failure with
      | none =>
        refine ⟨fun w t e => ?_, fun m t e => by cases e⟩
        cases e
        exact ⟨rfl, rfl⟩
      | some m =>
        refine ⟨fun w t e => (by cases e), fun m t e => ?_⟩
        cases e
        exact ⟨rfl, rfl⟩
  · rw [coerce_plain s h]
    cases v.convert type with
    | ok w =>
      refine ⟨fun w t e => ?_, fun m t e => by cases e⟩
      cases e
      exact ⟨rfl, rfl⟩
    | error m =>
      refine ⟨fun w t e => (by cases e), fun m t e => ?_⟩
      cases e
      exact ⟨rfl, rfl⟩

theorem Bodies.of_functions {may : Permits} {s t : Store} (h : s.Bodies may)
    (hf : t.functions = s.functions) : t.Bodies may := by
  intro f header body closure hc
  rw [hf] at hc
  exact h hc

theorem Bodies.newFunction {may : Permits} {s : Store} {header : Header} {body : List Stmt}
    {c : ScopeId} (h : s.Bodies may) (hp : ∀ p ∈ header.parameters, may.declares p.name)
    (hb : EachStmt may.Node may.Part body) :
    (s.newFunction (.script header body c)).2.Bodies may := by
  intro f header' body' closure hc
  simp only [Store.newFunction, Array.getElem?_push] at hc
  split at hc
  · cases hc
    exact fun _ => ⟨hp, hb⟩
  · exact h hc

theorem Bodies.respond {may : Permits} {s : Store} (h : s.Bodies may) {f : HostFunction ω}
    (hf : f.Outside) (values : List Value) (w : ω) : (f.respond values s w).store.Bodies may := by
  intro i header body closure hc
  obtain ⟨added, hadd, hno⟩ := hf.functions values s w
  rw [hadd, Array.getElem?_append] at hc
  split at hc
  · exact h hc
  · have := hno _ (Array.mem_of_getElem? hc)
    simp [Callable.isScript] at this

end Store

namespace Eval

variable {α β : Type} {act : Eval ω α}

/-- The run of `act` touches nothing but arrays, and only mild faults interrupt it. -/
def Aside (act : Eval ω α) : Prop :=
  ∀ run : Run ω, act.Ends run
    (fun _ r => r.store.scopes = run.store.scopes ∧ r.store.functions = run.store.functions)
    (fun i r => (r.store.scopes = run.store.scopes ∧ r.store.functions = run.store.functions) ∧
      i.Mild)

theorem aside_same (h : ∀ run : Run ω, act.Ends run (fun _ r => r.store = run.store)
    (fun i r => r.store = run.store ∧ i.Mild)) : act.Aside := by
  refine fun run => (h run).mono ?_ ?_
  · intro a r hr
    rw [hr]
    exact ⟨rfl, rfl⟩
  · intro i r hr
    rw [hr.1]
    exact ⟨⟨rfl, rfl⟩, hr.2⟩

theorem aside_pure (a : α) : (pure a : Eval ω α).Aside :=
  aside_same fun _ => (ends_pure a).2 rfl

theorem aside_bind {x : Eval ω β} {f : β → Eval ω α} (hx : x.Aside) (hf : ∀ b, (f b).Aside) :
    (x >>= f).Aside := by
  refine fun run => ends_bind.2 ((hx run).mono ?_ fun _ _ h => h)
  intro b r hr
  refine (hf b r).mono ?_ ?_
  · exact fun _ r' hr' => ⟨hr'.1.trans hr.1, hr'.2.trans hr.2⟩
  · exact fun _ r' hr' => ⟨⟨hr'.1.1.trans hr.1, hr'.1.2.trans hr.2⟩, hr'.2⟩

theorem aside_demand {question : Store → Except RuntimeError α}
    (h : ∀ s e, question s = .error e → ∀ name, e.fault ≠ .alreadyDefined name) :
    (demand question : Eval ω α).Aside := by
  refine aside_same fun run => (ends_demand question).2 ?_
  cases hq : question run.store with
  | ok a => rfl
  | error e => exact ⟨rfl, Interrupt.mild_error (h _ e hq)⟩

/-- An operator at work on one operand. -/
theorem aside_unary (operator : Token) (v : Value) :
    (demand fun _ => (Operator.unary operator v).mapError (⟨operator.line, ·⟩) :
      Eval ω Value).Aside := by
  refine aside_demand fun s e h name => ?_
  cases hu : Operator.unary operator v with
  | ok w =>
    rw [hu] at h
    cases h
  | error fault =>
    rw [hu] at h
    cases h
    exact Operator.unary_ne hu name

/-- An operator at work on two operands. -/
theorem aside_binary (operator : Token) (l r : Value) :
    (demand fun s => (Operator.binary s operator l r).mapError (⟨operator.line, ·⟩) :
      Eval ω Value).Aside := by
  refine aside_demand fun s e h name => ?_
  cases hu : Operator.binary s operator l r with
  | ok w =>
    rw [hu] at h
    cases h
  | error fault =>
    rw [hu] at h
    cases h
    exact Operator.binary_ne hu name

theorem aside_newArray (items : List Value) : (newArray items : Eval ω Value).Aside :=
  fun _ => (ends_newArray items).2 ⟨rfl, rfl⟩

theorem aside_zero (type : Ty) : (allocate (·.zero type) : Eval ω Value).Aside := by
  refine fun run => (ends_allocate _).2 ?_
  cases type with
  | scalar s => cases s <;> exact ⟨rfl, rfl⟩
  | _ => exact ⟨rfl, rfl⟩

theorem aside_fitTo (type : Ty) (v : Value) (line : Nat) {fault : Mismatch → Fault}
    (h : ∀ m name, fault m ≠ .alreadyDefined name) :
    (fitTo type v line fault : Eval ω Value).Aside := by
  refine fun run => (ends_fitTo type v line fault).2 ?_
  have frame := Store.coerce_frame type v run.store
  cases hc : Store.coerce type v run.store with
  | ok w s => exact frame.1 w s hc
  | error m s => exact ⟨frame.2 m s hc, Interrupt.mild_error (h m)⟩

theorem aside_read (setting : Setting ω) (scope : ScopeId) (id : ExprId) (name : Token) :
    (read setting scope id name).Aside :=
  aside_same fun _ => ends_read ⟨rfl, Interrupt.mild_error (by simp)⟩ fun _ _ _ _ => rfl

theorem aside_assignItem (setting : Setting ω) (scope : ScopeId) (id : ExprId) (name : Token)
    (index v : Value) : (assignItem setting scope id name index v).Aside := by
  refine fun run => ends_assignItem ⟨⟨rfl, rfl⟩, Interrupt.mild_error (by simp)⟩ fun c hc => ?_
  split
  · next a _ =>
    cases hslot : Store.slot (run.store.items a).size index with
    | error fault => exact ⟨⟨rfl, rfl⟩, Interrupt.mild_error (Store.slot_ne hslot)⟩
    | ok i =>
      have frame := Store.coerce_frame (name.type.element?.getD .any) v run.store
      dsimp only
      cases h : Store.coerce (name.type.element?.getD .any) v run.store with
      | ok w s => exact frame.1 w s h
      | error m s => exact ⟨frame.2 m s h, Interrupt.mild_error (by simp)⟩
  · exact ⟨⟨rfl, rfl⟩, Interrupt.mild_error (by simp)⟩

theorem aside_item (name : Token) (target index : Value) :
    (item name target index : Eval ω Value).Aside := by
  refine aside_same fun run => ends_item
    (fun _ => ⟨rfl, Interrupt.mild_error (by simp)⟩) fun a _ => ?_
  cases hslot : Store.slot (run.store.items a).size index with
  | ok i => rfl
  | error fault => exact ⟨rfl, Interrupt.mild_error (Store.slot_ne hslot)⟩

theorem aside_arguments (function : String) (line : Nat) : ∀ (position : Nat) (types : List Ty)
    (values : List Value), (arguments function line position types values : Eval ω _).Aside
  | position, type :: types, v :: vs => by
    rw [arguments]
    exact aside_bind (aside_fitTo type v line (by simp)) fun _ =>
      aside_bind (aside_arguments function line (position + 1) types vs) fun _ => aside_pure _
  | _, [], _ => aside_pure _
  | _, _ :: _, [] => aside_pure _

/-- Nothing interrupts a built-in function. -/
theorem ends_builtin (setting : Setting ω) (values : List Value) (b : Builtin) (run : Run ω) :
    (builtin setting values b).Ends run (fun _ r => r.store = run.store) (fun _ _ => False) := by
  unfold builtin
  split
  · exact (ends_pure _).2 rfl
  · refine ends_bind.2 ((ends_ask _).2 (ends_bind.2 ?_))
    exact (ends_printLine _).2 ((ends_pure _).2 rfl)
  · split
    · refine (ends_ask _).2 ?_
      rfl
    · refine (ends_pure _).2 ?_
      rfl

theorem aside_builtin (setting : Setting ω) (values : List Value) (b : Builtin) :
    (builtin setting values b).Aside :=
  aside_same fun run =>
    (ends_builtin setting values b run).mono (fun _ _ h => h) fun _ _ h => h.elim

theorem aside_result (c : Callable) (line : Nat) (v : Value) :
    (result c line v : Eval ω Value).Aside := by
  unfold result
  split
  · exact aside_pure _
  · exact aside_pure _
  · exact aside_fitTo _ _ line (by simp)

end Eval

/-! ## Runs -/

/-- From every store that `K` allows after `s₀`, all of the run of `act` stays in such stores, if
it calls none of the functions that are left. On the way `each` holds of the events, and `bad` of
an interrupt. -/
def Moves (setting : Setting ω) (may : Permits) (K : Option ScopeId → Store → Store → Prop)
    (each : Event ω → Prop) (bad : Interrupt → Prop) (free : Option ScopeId) (s₀ : Store)
    {α : Type} (act : Eval ω α) (walk : Walk ω) : Prop :=
  ∀ run : Run ω, run.store.Bodies may → K free s₀ run.store →
    FollowsIf (Event.Spares may.left setting) AnyOrder (fun ev => K free s₀ ev.store ∧ each ev)
      act walk run (fun _ r => r.store.Bodies may ∧ K free s₀ r.store)
      (fun i r => (r.store.Bodies may ∧ K free s₀ r.store) ∧ bad i)

/-- All of the run of `act` stays in stores that `K` allows after `s₀`. -/
abbrev Keeps (setting : Setting ω) (may : Permits) (K : Option ScopeId → Store → Store → Prop)
    (free : Option ScopeId) (s₀ : Store) {α : Type} (act : Eval ω α) (walk : Walk ω) : Prop :=
  Moves setting may K (fun _ => True) (fun _ => True) free s₀ act walk

section Rules

variable {host : Host ω} {setting : Setting ω} {may : Permits}
  {K : Option ScopeId → Store → Store → Prop} {each : Event ω → Prop} {bad : Interrupt → Prop}
  {free : Option ScopeId} {s₀ : Store} {α β : Type}

/-- A step without events. -/
theorem moves_step (steady : Steady host may K) {act : Eval ω α}
    (h : ∀ run : Run ω, run.store.Bodies may →
      act.Ends run (fun _ r => r.store.Bodies may ∧ K free run.store r.store)
        (fun i r => (r.store.Bodies may ∧ K free run.store r.store) ∧ bad i)) :
    Moves setting may K each bad free s₀ act Walk.quiet := by
  intro run hb hk
  refine (follows_quiet ((h run hb).mono ?_ ?_)).always
  · intro a r hr
    exact ⟨trivial, hr.1, steady.trans hk hr.2⟩
  · intro i r hr
    exact ⟨trivial, ⟨hr.1.1, steady.trans hk hr.1.2⟩, hr.2⟩

/-- A step that touches nothing but arrays. -/
theorem moves_arrays (steady : Steady host may K) {act : Eval ω α}
    (h : ∀ run : Run ω, act.Ends run
      (fun _ r => r.store.scopes = run.store.scopes ∧ r.store.functions = run.store.functions)
      (fun i r => (r.store.scopes = run.store.scopes ∧ r.store.functions = run.store.functions) ∧
        bad i)) :
    Moves setting may K each bad free s₀ act Walk.quiet := by
  refine moves_step steady fun run hb => (h run).mono ?_ ?_
  · intro a r hr
    exact ⟨hb.of_functions hr.2, steady.weaken (steady.arrays hr.1 hr.2)⟩
  · intro i r hr
    exact ⟨⟨hb.of_functions hr.1.2, steady.weaken (steady.arrays hr.1.1 hr.1.2)⟩, hr.2⟩

/-- A step that leaves the store as it is. -/
theorem moves_same (steady : Steady host may K) {act : Eval ω α}
    (h : ∀ run : Run ω, act.Ends run (fun _ r => r.store = run.store)
      (fun i r => r.store = run.store ∧ bad i)) :
    Moves setting may K each bad free s₀ act Walk.quiet := by
  refine moves_arrays steady fun run => (h run).mono ?_ ?_
  · intro a r hr
    rw [hr]
    exact ⟨rfl, rfl⟩
  · intro i r hr
    rw [hr.1]
    exact ⟨⟨rfl, rfl⟩, hr.2⟩

theorem moves_pure (steady : Steady host may K) (a : α) :
    Moves setting may K each bad free s₀ (pure a : Eval ω α) Walk.quiet :=
  moves_same steady fun _ => (Eval.ends_pure a).2 rfl

theorem moves_throw (steady : Steady host may K) {i : Interrupt} (hi : bad i) :
    Moves setting may K each bad free s₀ (throw i : Eval ω α) Walk.quiet :=
  moves_same steady fun _ => (Eval.ends_throw i).2 ⟨rfl, hi⟩

theorem moves_bind {x : Eval ω β} {f : β → Eval ω α} {walk : Walk ω} {next : β → Walk ω}
    (hx : Moves setting may K each bad free s₀ x walk)
    (hf : ∀ b, Moves setting may K each bad free s₀ (f b) (next b)) :
    Moves setting may K each bad free s₀ (x >>= f) (Walk.thenAfter walk x next) := by
  intro run hb hk
  exact followsIf_bind ((hx run hb hk).mono (fun b r _ hr => hf b r hr.1 hr.2) fun _ _ _ hr => hr)

theorem moves_after {x : Eval ω β} {f : β → Eval ω α} {next : β → Walk ω}
    (hx : Moves setting may K each bad free s₀ x Walk.quiet)
    (hf : ∀ b, Moves setting may K each bad free s₀ (f b) (next b)) :
    Moves setting may K each bad free s₀ (x >>= f) (Walk.after x next) := by
  have hw : Walk.after x next = Walk.thenAfter Walk.quiet x next := by
    funext r
    simp [Walk.thenAfter, Walk.both, Walk.quiet]
  rw [hw]
  exact moves_bind hx hf

theorem moves_last {x : Eval ω β} {f : β → Eval ω α} {walk : Walk ω}
    (hx : Moves setting may K each bad free s₀ x walk)
    (hf : ∀ b, Moves setting may K each bad free s₀ (f b) Walk.quiet) :
    Moves setting may K each bad free s₀ (x >>= f) walk := by
  intro run hb hk
  refine followsIf_last ((hx run hb hk).mono ?_ fun _ _ _ hr => hr)
  intro b r _ hr
  exact ((hf b r hr.1 hr.2).result).mono (fun _ _ h => ⟨trivial, h⟩) (fun _ _ h => ⟨trivial, h⟩)

/-- The evaluation of `node` in `scope` is an event that may happen in every store that `K`
allows after `s₀`. -/
def Seen (K : Option ScopeId → Store → Store → Prop) (each : Event ω → Prop)
    (free : Option ScopeId) (s₀ : Store) (fuel : Nat) (scope : ScopeId) (node : Expr) : Prop :=
  ∀ run : Run ω, K free s₀ run.store → each (.evaluates fuel scope node run)

theorem moves_here {act : Eval ω α} {walk : Walk ω} {fuel : Nat} {scope : ScopeId} {e : Expr}
    (he : Seen K each free s₀ fuel scope e) (h : Moves setting may K each bad free s₀ act walk) :
    Moves setting may K each bad free s₀ act (Walk.both (Walk.here fuel scope e) walk) :=
  fun run hb hk => followsIf_here (fun _ => ⟨hk, he run hk⟩) fun _ => h run hb hk

theorem moves_leaf {act : Eval ω α} {fuel : Nat} {scope : ScopeId} {e : Expr}
    (he : Seen K each free s₀ fuel scope e)
    (h : Moves setting may K each bad free s₀ act Walk.quiet) :
    Moves setting may K each bad free s₀ act (Walk.here fuel scope e) :=
  fun run hb hk => (follows_leaf ⟨hk, he run hk⟩ (h run hb hk).free).always

/-- A variable has just been bound. -/
theorem moves_bound (scope : ScopeId) (name : Token) (type : Ty)
    (he : ∀ run, each (.binds scope name type run)) (a : α) :
    Moves setting may K each bad free s₀ (pure a : Eval ω α) (Walk.bound scope name type) :=
  fun run hb hk => (follows_bound ⟨hk, he run⟩ ⟨hb, hk⟩).always

theorem moves_bound_both {act : Eval ω α} {walk : Walk ω} (scope : ScopeId) (name : Token)
    (type : Ty) (he : ∀ run, each (.binds scope name type run))
    (h : Moves setting may K each bad free s₀ act walk) :
    Moves setting may K each bad free s₀ act (Walk.both (Walk.bound scope name type) walk) :=
  fun run hb hk => followsIf_bound_both ⟨hk, he run⟩ (h run hb hk)

/-- In a new scope a program may add names, and for everything outside nothing is free. -/
theorem moves_enter (steady : Steady host may K) {p : Option ScopeId} {f : ScopeId → Eval ω α}
    {next : ScopeId → Walk ω}
    (h : ∀ c s₁, Moves setting may K each bad (some c) s₁ (f c) (next c)) :
    Moves setting may K each bad free s₀ (Eval.allocate (·.newScope p) >>= f)
      (Walk.after (Eval.allocate (·.newScope p)) next) := by
  intro run hb hk
  refine followsIf_after ((Eval.ends_allocate _).2 ⟨trivial, ?_⟩)
  have out : ∀ {t}, K (some run.store.scopes.size) (run.store.newScope p).2 t → K free s₀ t :=
    fun ht => steady.trans hk (steady.weaken (steady.leave ht))
  have inner := h run.store.scopes.size (run.store.newScope p).2
    { run with store := (run.store.newScope p).2 } (hb.of_functions rfl) (steady.refl _ _)
  refine (inner.imp fun ev hev => ⟨out hev.1, hev.2⟩).mono ?_ ?_
  · intro a r _ hr
    exact ⟨hr.1, out hr.2⟩
  · intro i r _ hr
    exact ⟨⟨hr.1.1, out hr.1.2⟩, hr.2⟩

end Rules

/-! ## Steps -/

section Steps

variable {host : Host ω} {setting : Setting ω} {may : Permits}
  {K : Option ScopeId → Store → Store → Prop} {each : Event ω → Prop} {bad : Interrupt → Prop}
  {free : Option ScopeId} {s₀ : Store}

/-- A step that stands aside. -/
theorem moves_aside {α : Type} (steady : Steady host may K) (hbad : ∀ i : Interrupt, i.Mild → bad i)
    {act : Eval ω α} (h : act.Aside) : Moves setting may K each bad free s₀ act Walk.quiet :=
  moves_arrays steady fun run => (h run).mono (fun _ _ hr => hr) fun i _ hr => ⟨hr.1, hbad i hr.2⟩

theorem moves_assign (steady : Steady host may K) (hbad : ∀ i : Interrupt, i.Mild → bad i)
    (at' : Setting ω) (scope : ScopeId) (id : ExprId) (name : Token) (v : Value)
    (hw : may.writes name) :
    Moves setting may K each bad free s₀ (Eval.assign at' scope id name v) Walk.quiet := by
  refine moves_step steady fun run hb => Eval.ends_assign
    ⟨⟨hb, steady.refl _ _⟩, hbad _ (Interrupt.mild_error (by simp))⟩ fun c hc => ?_
  have frame := Store.coerce_frame name.type v run.store
  cases h : Store.coerce name.type v run.store with
  | ok w s =>
    obtain ⟨hs, hf⟩ := frame.1 w s h
    have bound : s.binds c name.lexeme = true := by
      rw [Store.binds, Store.lookup, hs]
      exact hc.binds
    exact ⟨hb.of_functions hf,
      steady.weaken (steady.trans (steady.arrays hs hf) (steady.assign hw bound))⟩
  | error m s =>
    obtain ⟨hs, hf⟩ := frame.2 m s h
    exact ⟨⟨hb.of_functions hf, steady.weaken (steady.arrays hs hf)⟩,
      hbad _ (Interrupt.mild_error (by simp))⟩

/-- A name is bound that was not bound, or else it is an error to bind it. -/
theorem moves_define (steady : Steady host may K) (scope : ScopeId) (name : Token) (v : Value)
    (hd : may.declares name) (hbad : bad (.error ⟨name.line, .alreadyDefined name.lexeme⟩)) :
    Moves setting may K each bad (some scope) s₀ (Eval.define scope name v : Eval ω Unit)
      Walk.quiet := by
  refine moves_step steady fun run hb => (Eval.ends_define scope name v).2 ?_
  split
  · exact ⟨⟨hb, steady.refl _ _⟩, hbad⟩
  · next h => exact ⟨hb.of_functions rfl, steady.define hd (Bool.eq_false_iff.2 h)⟩

theorem moves_builtin (steady : Steady host may K) (values : List Value) (b : Builtin) :
    Moves setting may K each bad free s₀ (Eval.builtin setting values b) Walk.quiet :=
  moves_same steady fun run =>
    (Eval.ends_builtin setting values b run).mono (fun _ _ h => h) fun _ _ h => h.elim

theorem moves_hostFunction (steady : Steady setting.host may K) (name : String)
    (values : List Value) :
    Moves setting may K each bad free s₀ (Eval.hostFunction setting name values) Walk.quiet := by
  unfold Eval.hostFunction
  cases h : setting.host.function? name with
  | none => exact moves_pure steady _
  | some f =>
    have hf : f ∈ setting.host.functions := List.mem_of_find?_eq_some h
    refine moves_step steady fun run hb => ?_
    exact ⟨hb.respond (steady.outside f hf) values run.world,
      steady.weaken (steady.respond f hf values run.store run.world)⟩

end Steps

end TickScript
