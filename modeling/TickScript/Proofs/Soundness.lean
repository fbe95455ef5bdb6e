import TickScript.Proofs.Correspondence
import TickScript.Proofs.Typing.Run
import TickScript.Proofs.Typing.Start

/-!
# Compiled programs are sound

An accepted program is run once, and then functions of it are called from outside. Whenever an
expression is evaluated to the end, its value has the shape of the static type that resolution
gave to the expression. What can still go wrong is what types do not speak of: a division by
zero, an integer that is too large, an index outside of its array, and a name that is used before
its declaration has been run.

Each name of a function has to be declared once and to be used for calls only. A name of two
meanings has one type and one signature for both.
-/

namespace TickScript

variable {ω : Type}

/-- A function that is called from outside has no parameters, and the host only lets time go by. -/
def Request.Typed (T : Types) : Request ω → Prop
  | .interpret => True
  | .call name =>
    ∃ signature, T.signatures.find? name = some signature ∧ T.functions name ∧
      signature.parameters = []
  | .wait _ => True
  | .write .. => False
  | .work .. => False

/-- A fault of which types do not speak, in a program whose declarations are not repeated. -/
theorem Interrupt.Ordinary.cases {e : RuntimeError} (ordinary : (Interrupt.error e).Ordinary)
    (mild : (Interrupt.error e).Mild) :
    e.fault = .divisionByZero ∨ e.fault = .integerOverflow ∨ e.fault = .indexOutOfBounds ∨
      ∃ name, e.fault = .undefinedVariable name := by
  obtain ⟨line, fault⟩ := e
  cases fault with
  | undefinedVariable name => exact .inr (.inr (.inr ⟨name, rfl⟩))
  | alreadyDefined name => exact absurd rfl (mild line name)
  | indexOutOfBounds => exact .inr (.inr (.inl rfl))
  | integerOverflow => exact .inr (.inl rfl)
  | divisionByZero => exact .inl rfl
  | _ => exact ordinary.elim

namespace Machine

variable {T : Types} {P : List Frame → List Frame → Expr → Prop} {host : Host ω} {m : Machine ω}
  {statements : List Stmt} {top : Frame}

/-- A machine between two requests: its store is typed, and all its functions are where they were
declared. -/
structure Tracks (T : Types) (P : List Frame → List Frame → Expr → Prop) (m : Machine ω) :
    Prop where
  sound : m.store.Sound T m.globals
  ready : m.Ready P fun _ => False

/-- If nothing is left of earlier programs then all functions are where they were declared. -/
theorem ready_blank (blank : ∀ k ∈ m.store.functions, k.isScript = false)
    (distances : Table ExprId Nat) : (m.reset host distances).Ready P fun _ => False := by
  have ready : (m.reset host distances).Ready P m.store.Left := ready_reset host m distances
  exact ⟨ready.there, ready.root, fun f _ _ _ hf _ => ready.goods hf (Store.not_left blank f)⟩

/-- A request to such a machine is typed. -/
theorem Tracks.runs (h : m.Tracks T P) (served : T.Served host)
    (typed : StmtsTyped T none false statements) (fuel : Nat) {request : Request ω}
    (hr : request.Typed T) :
    T.Runs (m.setting host) (m.order host statements fuel request)
      (m.walk host statements fuel request) m.begin (fun _ _ => True) := by
  have place : T.At (m.setting host) (m.setting host).globals m.begin.store :=
    ⟨h.sound, Nat.le_refl _, h.ready.there⟩
  cases request with
  | interpret => exact runs_program served typed place
  | call name =>
    obtain ⟨signature, hσ, hf, hp⟩ := hr
    refine runs_last (runs_detached served hσ (fun _ => hf) (fun _ => hp) place) ?_
    exact fun _ _ _ hs _ => runs_pure hs trivial
  | wait clock => exact runs_pure place.sound trivial
  | write name v => exact hr.elim
  | work arrays world => exact hr.elim

/-- It stays such a machine. -/
theorem Tracks.serve (outside : ∀ f ∈ host.functions, f.Outside)
    (h : m.Tracks T P) (served : T.Served host)
    (typed : StmtsTyped T none false statements)
    (placed : StmtsScoped P (.outermost top) statements) (fuel : Nat) {request : Request ω}
    (hr : request.Typed T) : (m.serve host statements fuel request).2.Tracks T P := by
  obtain ⟨ready, -⟩ := h.ready.serve outside placed fun ev _ => ev.spares_nothing
  refine ⟨?_, ready⟩
  exact serve_of_ends (P := fun _ m' => m'.store.Sound T m'.globals)
    ((h.runs served typed fuel hr).result.mono (fun _ _ hs _ => hs.1) fun _ _ hs _ => hs.1)

theorem Tracks.serveAll (outside : ∀ f ∈ host.functions, f.Outside)
    (served : T.Served host) (typed : StmtsTyped T none false statements)
    (placed : StmtsScoped P (.outermost top) statements) (requests : List (Nat × Request ω)) :
    ∀ {m : Machine ω}, m.Tracks T P → (∀ r ∈ requests, r.2.Typed T) →
      (m.serveAll host statements requests).Tracks T P := by
  induction requests with
  | nil => exact fun h _ => h
  | cons entry rest ih =>
    obtain ⟨fuel, request⟩ := entry
    intro m h hr
    obtain ⟨first, others⟩ := List.forall_mem_cons.1 hr
    exact ih (h.serve outside served typed placed fuel first) others

/-- The errors of a request. If the program is run, then for the first time. -/
theorem Tracks.fault (outside : ∀ f ∈ host.functions, f.Outside)
    (h : m.Tracks T P) (hexact : T.exact) (served : T.Served host)
    (typed : StmtsTyped T none false statements)
    (placed : StmtsScoped P (.outermost top) statements)
    (htop : ∀ n, m.store.binds m.globals n = true → top n = true) (fuel : Nat)
    {request : Request ω} (hr : request.Typed T) {e : RuntimeError}
    (he : (m.serve host statements fuel request).1 = .error (.error e)) :
    e.fault = .divisionByZero ∨ e.fault = .integerOverflow ∨ e.fault = .indexOutOfBounds ∨
      ∃ name, e.fault = .undefinedVariable name := by
  have runs := h.runs served typed fuel hr
  have arrives := h.ready.arrives outside placed (fun _ : True => htop) fuel request
    fun ev _ => ev.spares_nothing
  have ends := runs.result.and arrives.result
  refine serve_of_ends (P := fun result _ => result = .error (.error e) → _)
    (ends.mono ?_ ?_) he
  · exact fun _ _ _ _ h => by cases h
  · rintro i r ⟨⟨-, ordinary⟩, -, mild⟩ errors h
    cases h
    exact (ordinary hexact).cases (mild trivial)

end Machine

/-- The errors of a call do not depend on the program. -/
theorem Machine.serve_call (m : Machine ω) (host : Host ω) (statements others : List Stmt)
    (fuel : Nat) (name : String) :
    m.serve host statements fuel (.call name) = m.serve host others fuel (.call name) := rfl

/-- A machine does what it is asked as the types of a program say. Each expression that is given a
static type and evaluated to the end has a value of this type, and each error is one of four. -/
structure TypedRequest (c : Compilation) (host : Host ω) (m : Machine ω) (fuel : Nat)
    (request : Request ω) : Prop where
  values : ∀ fuel' scope e run,
    Event.evaluates fuel' scope e run ∈ m.events host c.statements fuel request →
    ∀ v ∈ c.visits host, v.expr = e → ∀ type, v.type = some type →
    ∀ value r, Eval.expr (m.setting host) (Eval.call (m.setting host) fuel') scope e run =
      .ok value r → r.store.HasShape value type
  faults : ∀ error, (m.serve host c.statements fuel request).1 = .error (.error error) →
    error.fault = .divisionByZero ∨ error.fault = .integerOverflow ∨
      error.fault = .indexOutOfBounds ∨ ∃ name, error.fault = .undefinedVariable name

section Accepted

variable {source : String} {host : Host ω} {store : Store} {world : ω}

/-- Calls of functions without parameters are typed. -/
theorem Request.typed {statements : List Stmt} (once : (functionNames host statements).Nodup)
    {request : Request ω}
    (plain : (∃ clock, request = .wait clock) ∨ ∃ name signature, request = .call name ∧
      (name, signature) ∈ declaredIn statements ∧ signature.parameters = []) :
    request.Typed (typesOf source host statements True) := by
  rcases plain with ⟨clock, rfl⟩ | ⟨name, signature, rfl, hσ, hp⟩
  · trivial
  · refine ⟨signature, find?_collect once ?_, ?_, hp⟩
    · exact List.mem_append_right _ hσ
    · exact List.mem_append_right _ (List.mem_map_of_mem hσ)

namespace Machine

variable {c : Compilation} {m : Machine ω}

/-- The start of a program, with the functions of no other program left. -/
theorem tracks_reset {P : List Frame → List Frame → Expr → Prop} (init : host.Initialized m.store)
    (apart : ∀ n ∈ host.names, n ∉ Builtin.all.map Builtin.name)
    (once : (functionNames host c.statements).Nodup)
    (others : ∀ v ∈ host.externals, v.name ∉ functionNames host c.statements) :
    (m.reset host c.distances).Tracks (typesOf source host c.statements True) P :=
  ⟨(sound_newGlobals init apart once fun _ => others).1, ready_blank init.blank _⟩

/-- What resolution says of the type of an expression is true of its values. -/
theorem Tracks.values {P : List Frame → List Frame → Expr → Prop} (hc : Compiled source host c)
    (tracks : m.Tracks (typesOf source host c.statements True) P)
    (served : (typesOf source host c.statements True).Served host)
    (typed : StmtsTyped (typesOf source host c.statements True) none false c.statements)
    (called : ∀ t ∈ stmtsUses c.statements, t.lexeme ∉ functionNames host c.statements)
    {fuel : Nat} {request : Request ω} (hr : request.Typed (typesOf source host c.statements True))
    {fuel' : Nat} {scope : ScopeId} {v : Visit} {run : Run ω}
    (hev : Event.evaluates fuel' scope v.expr run ∈ m.events host c.statements fuel request)
    (hv : v ∈ c.visits host) {type : Ty} (ht : v.type = some type) {value : Value} {r : Run ω}
    (hvalue : Eval.expr (m.setting host) (Eval.call (m.setting host) fuel') scope v.expr run =
      .ok value r) : r.store.HasShape value type := by
  have good := (tracks.runs served typed fuel hr).events _ hev
  obtain ⟨htype, huses⟩ := hc.surveyed.types v hv type ht
  rw [htype]
  exact good.2 trivial (fun name hn => called name (huses name hn)) value r hvalue

end Machine

/-- Soundness of compilation. The host was put together by registration, none of its names is
built in, and its functions leave arrays alone, return numbers, truth values or nothing, and
always return what they should. The source is accepted, and in it each name of a function is
declared once and used for calls only; it is no name of a variable of the host either. The program
is run for the first time, and then functions without parameters are called, while time goes by.

Then each expression that is given a static type and evaluated to the end has a value of this
type, and each error is one of four. -/
theorem evaluates_typed (registered : host.Registered store)
    (apart : ∀ n ∈ host.names, n ∉ Builtin.all.map Builtin.name)
    (quiet : ∀ f ∈ host.functions, f.Quiet) (replies : ∀ f ∈ host.functions, f.Replies)
    (accepted : (compile source host).accepted = true)
    (once : (functionNames host (compile source host).statements).Nodup)
    (called : ∀ t ∈ stmtsUses (compile source host).statements,
      t.lexeme ∉ functionNames host (compile source host).statements)
    (others : ∀ v ∈ host.externals, v.name ∉ functionNames host (compile source host).statements)
    (clock : Clock) (fuel : Nat) (later : List (Nat × Request ω))
    (plain : ∀ request ∈ later, (∃ clock, request.2 = .wait clock) ∨
      ∃ name signature, request.2 = .call name ∧
        (name, signature) ∈ declaredIn (compile source host).statements ∧
        signature.parameters = []) :
    ∀ before fuel' request after,
      (fuel, .interpret) :: later = before ++ (fuel', request) :: after →
      TypedRequest (compile source host) host
        (({ Machine.start host store world with clock }.reset host
          (compile source host).distances).serveAll host (compile source host).statements before)
        fuel' request := by
  have hc := compiled accepted
  have init := registered.initialized
  have outside : ∀ f ∈ host.functions, f.Outside := fun f hf => (quiet f hf).toOutside
  generalize compile source host = c at *
  let T := typesOf source host c.statements True
  have typed : StmtsTyped T none false c.statements :=
    hc.typed quiet init once fun _ => called
  have served : T.Served host := served quiet (fun _ => replies) c.statements
  have started : ({ Machine.start host store world with clock }.reset host c.distances).Tracks T
      (fun fs _ => Located c.distances (c.visits host) fs) :=
    Machine.tracks_reset init.newGlobals apart once others
  have htop : ∀ n, ({ Machine.start host store world with clock }.reset host c.distances).store.binds
      ({ Machine.start host store world with clock }.reset host c.distances).globals n = true →
      host.top n = true := fun n hn =>
    Frame.ofNames_iff.2 ((Machine.begun host (Machine.start host store world).store).names n hn)
  generalize { Machine.start host store world with clock }.reset host c.distances = m at *
  intro before fuel' request after hsplit
  have requests : ∀ r ∈ before ++ (fuel', request) :: after, r.2.Typed T := by
    rw [← hsplit]
    exact List.forall_mem_cons.2 ⟨trivial, fun r hr => Request.typed once (plain r hr)⟩
  obtain ⟨first, here⟩ := List.forall_mem_append.1 requests
  have hr : request.Typed T := here _ List.mem_cons_self
  have tracks := started.serveAll outside served typed hc.placed before first
  refine ⟨?_, ?_⟩
  · intro fuel'' scope e run hev v hv he type ht value r hvalue
    subst he
    exact tracks.values hc served typed called hr hev hv ht hvalue
  · intro error herror
    cases before with
    | nil => exact tracks.fault outside trivial served typed hc.placed htop fuel' hr herror
    | cons entry before =>
      have hmem : (fuel', request) ∈ later := by
        rw [(List.cons.inj hsplit).2]
        exact List.mem_append_right _ List.mem_cons_self
      rcases plain _ hmem with ⟨clock, rfl⟩ | ⟨name, -, rfl, -⟩
      · cases herror
      · -- Behind the run of the program there are calls only, which declare no global names.
        rw [Machine.serve_call _ _ _ []] at herror
        have typed : StmtsTyped T none false [] := trivial
        have placed : StmtsScoped (fun fs _ => Located c.distances (c.visits host) fs)
            (.outermost fun _ => true) [] := trivial
        exact tracks.fault outside trivial served typed placed (fun _ _ => rfl) fuel' hr herror

end Accepted

/-- A program with an array and a function without parameters, which calls the host. -/
def stepSource : String :=
  "int[] xs = {1, 2}; int step() { xs[1] = xs[0] + count(); return xs[1]; } int n = step();"

/-- An element of the array of `stepSource` is read. -/
def Event.readsItem : Event Nat → Bool
  | .evaluates _ _ e _ =>
    ((compile stepSource Host.counting).visits Host.counting).any fun v =>
      v.expr.id == e.id && v.expr.form == "index" && v.type == some .int
  | _ => false

/-- The machine that has run it, and waits. -/
abbrev stepMachine : Machine Nat :=
  ({ Machine.start Host.counting .empty 3 with clock := .start }.reset Host.counting
    (compile stepSource Host.counting).distances).serveAll Host.counting
      (compile stepSource Host.counting).statements
      [(5, .interpret), (0, .wait (Clock.start.beginFrame 1))]

theorem evaluates_typed_step :
    ∃ fuel scope e run, Event.evaluates fuel scope e run ∈ stepMachine.events Host.counting
        (compile stepSource Host.counting).statements 5 (.call "step") ∧
      ((compile stepSource Host.counting).visits Host.counting).any
        (fun v => v.expr.id == e.id && v.type == some .int) = true ∧
      ∀ v ∈ (compile stepSource Host.counting).visits Host.counting, v.expr = e →
        ∀ type, v.type = some type → ∀ value r,
        Eval.expr (stepMachine.setting Host.counting)
            (Eval.call (stepMachine.setting Host.counting) fuel) scope e run = .ok value r →
          r.store.HasShape value type := by
  have registered : Host.counting.Registered .empty := .function .empty rfl
  have apart : ∀ n ∈ Host.counting.names, n ∉ Builtin.all.map Builtin.name := by decide
  have quiet : ∀ f ∈ Host.counting.functions, f.Quiet := by
    intro f hf
    rw [List.mem_singleton.1 hf]
    exact ⟨⟨fun _ _ _ => rfl, fun _ _ _ => ⟨#[], by simp, by simp⟩⟩, fun _ _ _ _ _ => rfl,
      .inr ⟨.int, rfl⟩⟩
  have replies : ∀ f ∈ Host.counting.functions, f.Replies := by
    intro f hf
    rw [List.mem_singleton.1 hf]
    exact fun _ _ _ w => ⟨.int (Int64.ofNat w), .int (Int64.ofNat w), rfl, rfl⟩
  have accepted : (compile stepSource Host.counting).accepted = true := by decide +kernel
  have once : (functionNames Host.counting (compile stepSource Host.counting).statements).Nodup := by
    decide +kernel
  have called : ∀ t ∈ stmtsUses (compile stepSource Host.counting).statements,
      t.lexeme ∉ functionNames Host.counting (compile stepSource Host.counting).statements := by
    decide +kernel
  have declared : ("step", (⟨[], .int⟩ : Signature)) ∈
      declaredIn (compile stepSource Host.counting).statements := by decide +kernel
  have happens : (stepMachine.events Host.counting (compile stepSource Host.counting).statements 5
      (.call "step")).any Event.readsItem = true := by decide +kernel
  have sound := @evaluates_typed _ _ _ _ 3 registered apart quiet replies accepted once called
    (by simp [Host.counting]) .start 5 [(0, .wait (Clock.start.beginFrame 1)), (5, .call "step")]
    (by simpa using ⟨_, declared, rfl⟩)
    [(5, .interpret), (0, .wait (Clock.start.beginFrame 1))] 5 (.call "step") [] rfl
  obtain ⟨ev, hev, ht⟩ := List.any_eq_true.1 happens
  cases ev with
  | binds => cases ht
  | evaluates fuel scope e run =>
    refine ⟨fuel, scope, e, run, hev, ?_, sound.values fuel scope e run hev⟩
    obtain ⟨v, hv, hread⟩ := List.any_eq_true.1 ht
    simp only [Bool.and_eq_true] at hread
    exact List.any_eq_true.2 ⟨v, hv, by rw [hread.1.1, hread.2]; rfl⟩

end TickScript
