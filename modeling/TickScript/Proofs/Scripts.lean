import TickScript.Proofs.Simulation.Run

/-!
# The functions that scripts leave behind

A store keeps the functions of every script that has run in it, and any of them may be called
later. What is to be known about a call is therefore known of all script functions of the store,
and a run has to keep it up: the functions it makes are those that its statements declare.

Beside this goes the reason why no declaration meets a name that its scope binds already. The
scope that a run is in binds only names that could not be declared again at this place of the
program. A block or a call brings a new scope, which binds nothing, and what happens in it adds
no name to the scopes around it. Only a program that runs a second time finds its own names
in the outermost scope.
-/

namespace TickScript

variable {ω : Type} {Q : Header → List Stmt → Prop} {first : Prop}

/-- Bodies of functions declare no functions, and every function may be called. -/
abbrev Permits.plain : Permits := .bodies fun _ => False

/-- All script functions of a store are such as `Q` says. -/
def Store.Scripts (Q : Header → List Stmt → Prop) (s : Store) : Prop :=
  ∀ ⦃f : FunctionId⦄ ⦃header : Header⦄ ⦃body : List Stmt⦄ ⦃closure : ScopeId⦄,
    s.functions[f]? = some (.script header body closure) → Q header body

/-- Every declaration of the function brings a new name, those of its parameters included. -/
def Orderly (header : Header) (body : List Stmt) : Prop :=
  header.names.Nodup ∧ ∃ P L, StmtsScoped P (Layout.body header.names L) body

/-- If the statement declares a function then it is such as `Q` says. -/
def Stmt.Makes (Q : Header → List Stmt → Prop) : Stmt → Prop
  | .function header body => Q header body
  | _ => True

/-- The scope is there, and it binds only names that cannot be declared at the place `L`. -/
structure Store.Only (s : Store) (L : Layout) (scope : ScopeId) : Prop where
  there : scope < s.scopes.size
  names : ∀ n, s.binds scope n = true → L.declares n = true

/-- A run is in `scope` at the place `L`. `first` says that no program has run before. -/
structure Store.Stage (Q : Header → List Stmt → Prop) (first : Prop) (L : Layout) (scope : ScopeId)
    (s : Store) : Prop where
  scripts : s.Scripts Q
  only : first → s.Only L scope

/-! ## Stores -/

namespace Store

variable {s t : Store} {L : Layout} {scope : ScopeId}

theorem Scripts.kept {free : Option ScopeId} (h : s.Scripts Q) (k : Kept .plain free s t) :
    t.Scripts Q :=
  fun _ _ _ _ hf => h (k.script hf)

theorem Scripts.of_functions (h : s.Scripts Q) (hf : t.functions = s.functions) : t.Scripts Q := by
  intro f header body closure hc
  rw [hf] at hc
  exact h hc

theorem Scripts.newFunction (h : s.Scripts Q) {header : Header} {body : List Stmt} (c : ScopeId)
    (hq : Q header body) : (s.newFunction (.script header body c)).2.Scripts Q := by
  intro f header' body' closure hf
  simp only [Store.newFunction, Array.getElem?_push] at hf
  split at hf
  · cases hf
    exact hq
  · exact h hf

theorem Scripts.bodies (orderly : ∀ header body, Q header body → Orderly header body)
    (h : s.Scripts Q) : s.Bodies .plain := by
  intro f header body closure hf _
  obtain ⟨-, P, L, placed⟩ := orderly header body (h hf)
  exact ⟨fun _ _ => trivial, StmtsScoped.plain rfl body placed⟩

/-- What happens elsewhere adds no name to the scope. -/
theorem Only.kept {may : Permits} (h : s.Only L scope) (k : Kept may none s t) :
    t.Only L scope where
  there := Nat.lt_of_lt_of_le h.there k.size
  names n hb := by
    rw [k.names scope h.there (by simp) n] at hb
    exact h.names n hb

theorem Only.unbound (h : s.Only L scope) {name : String} (fresh : L.declares name = false) :
    s.binds scope name = false := by
  rw [Bool.eq_false_iff]
  intro hb
  rw [h.names name hb] at fresh
  cases fresh

theorem Only.bind (h : s.Only L scope) (name : String) (v : Value) :
    (s.bind scope name v).Only (L.add name) scope where
  there := by
    rw [size_bind]
    exact h.there
  names n hb := by
    rcases (binds_bind h.there).1 hb with ⟨-, rfl⟩ | hb
    · exact L.declares_add_self n
    · exact Layout.declares_add (h.names n hb) name

/-- A new scope binds nothing. -/
theorem only_newScope (s : Store) (p : Option ScopeId) (L : Layout) :
    (s.newScope p).2.Only L s.scopes.size where
  there := by simp
  names n hb := by
    rw [Site.binds_newScope_self] at hb
    cases hb

/-- Expressions leave a place as it is. -/
theorem Stage.quiet (h : s.Stage Q first L scope) (k : Kept .plain none s t) :
    t.Stage Q first L scope :=
  ⟨h.scripts.kept k, fun hfirst => (h.only hfirst).kept k⟩

end Store

/-! ## Expressions -/

/-- A part of a program comes to `ok`. On the way all script functions are such as `Q` says, and
if no program has run before then no error is about a name that is defined already. -/
def Settles (Q : Header → List Stmt → Prop) (first : Prop) {α : Type} (act : Eval ω α)
    (walk : Walk ω) (run : Run ω) (ok : Store → Prop) : Prop :=
  Follows AnyOrder (fun ev => ev.store.Scripts Q) act walk run (fun _ r => ok r.store)
    (fun i r => r.store.Scripts Q ∧ (first → i.Mild))

/-- No call complains about a name that is defined already. -/
def CallsMild (Q : Header → List Stmt → Prop) (setting : Setting ω) (fuel : Nat) : Prop :=
  ∀ s₀ : Store, s₀.Scripts Q →
    CallsMove setting .plain (Store.Kept .plain) (fun _ => True) Interrupt.Mild none s₀ fuel

section Runs

variable {setting : Setting ω} {fuel : Nat} {run : Run ω} {L : Layout} {scope : ScopeId}

variable (setting) in
/-- What stays within the bodies of functions makes no script function. -/
theorem Store.Scripts.moves {α : Type} {act : Eval ω α} {walk : Walk ω}
    (orderly : ∀ header body, Q header body → Orderly header body) (scripts : run.store.Scripts Q)
    (h : Moves setting .plain (Store.Kept .plain) (fun _ => True) Interrupt.Mild none run.store act
      walk) :
    Settles Q first act walk run fun s => Store.Kept .plain none run.store s := by
  have moves := (h run (scripts.bodies orderly) (Store.Kept.refl _ _ _)).all Event.spares_nothing
  refine (moves.imp fun ev hev => scripts.kept hev.1).mono ?_ ?_
  · exact fun _ r _ hr => hr.2
  · exact fun i r _ hr => ⟨scripts.kept hr.1.2, fun _ => hr.2⟩

/-- What makes no script function leaves a place as it is. -/
theorem Store.Stage.settles {α : Type} {act : Eval ω α} {walk : Walk ω}
    (stage : run.store.Stage Q first L scope)
    (h : Settles Q first act walk run fun s => Store.Kept .plain none run.store s) :
    Settles Q first act walk run fun s => s.Stage Q first L scope :=
  h.mono (fun _ _ _ k => stage.quiet k) fun _ _ _ h => h

variable (outside : ∀ f ∈ setting.host.functions, f.Outside)
  (orderly : ∀ header body, Q header body → Orderly header body)
  (hcall : CallsMild Q setting fuel)

include outside orderly hcall

theorem Store.Scripts.expr (scripts : run.store.Scripts Q) (scope : ScopeId) (e : Expr) :
    Settles Q first (Eval.expr setting (Eval.call setting fuel) scope e)
      (Walk.expr setting fuel (Walk.call setting fuel) scope e) run
      fun s => Store.Kept .plain none run.store s :=
  scripts.moves setting orderly (moves_expr (steady_kept outside .plain) (fun _ h => h)
    (hcall run.store scripts) scope e
    fun node _ => ⟨Permits.node_bodies node, fun _ _ => trivial⟩)

theorem Store.Scripts.exprs (scripts : run.store.Scripts Q) (scope : ScopeId) (es : List Expr) :
    Settles Q first (Eval.exprs setting (Eval.call setting fuel) scope es)
      (Walk.exprs setting fuel (Walk.call setting fuel) scope es) run
      fun s => Store.Kept .plain none run.store s :=
  scripts.moves setting orderly (moves_exprs (steady_kept outside .plain) (fun _ h => h)
    (hcall run.store scripts) scope es
    fun node _ => ⟨Permits.node_bodies node, fun _ _ => trivial⟩)

theorem Store.Stage.expr (stage : run.store.Stage Q first L scope) (e : Expr) :
    Settles Q first (Eval.expr setting (Eval.call setting fuel) scope e)
      (Walk.expr setting fuel (Walk.call setting fuel) scope e) run
      fun s => s.Stage Q first L scope :=
  stage.settles (stage.scripts.expr outside orderly hcall scope e)

theorem Store.Stage.holds (stage : run.store.Stage Q first L scope) (e : Expr) :
    Settles Q first (Eval.holds setting (Eval.call setting fuel) scope e)
      (Walk.expr setting fuel (Walk.call setting fuel) scope e) run
      fun s => s.Stage Q first L scope :=
  follows_last ((stage.expr outside orderly hcall e).mono
    (fun _ _ _ h => ⟨trivial, h⟩) fun _ _ _ h => h)

theorem Store.Stage.initial (stage : run.store.Stage Q first L scope) (type : Ty)
    (start : Initializer) :
    Settles Q first (Eval.initial setting (Eval.call setting fuel) scope type start)
      (Walk.initial setting fuel (Walk.call setting fuel) scope start) run
      fun s => s.Stage Q first L scope := by
  have steady := steady_kept outside .plain
  cases start with
  | zero =>
    exact stage.settles (stage.scripts.moves setting orderly
      (moves_aside steady (fun _ h => h) (Eval.aside_zero type)))
  | value e => exact stage.expr outside orderly hcall e
  | elements es =>
    refine follows_last ((stage.settles (stage.scripts.exprs outside orderly hcall scope es)).mono
      ?_ fun _ _ _ h => h)
    intro values r _ stage
    exact (Eval.ends_newArray values).2 ⟨trivial, stage.quiet (.of_arrays rfl rfl)⟩

omit outside orderly hcall

/-! ## Statements -/

/-- A new name is bound, unless a program has run before. -/
theorem Store.Stage.define (stage : run.store.Stage Q first L scope) (name : Token) (v : Value)
    (fresh : L.declares name.lexeme = false) :
    (Eval.define scope name v : Eval ω Unit).Ends run
      (fun _ r => r.store.Stage Q first (L.add name.lexeme) scope)
      (fun i r => r.store.Scripts Q ∧ (first → i.Mild)) := by
  refine (Eval.ends_define scope name v).2 ?_
  split
  · next hb =>
    refine ⟨stage.scripts, fun hfirst => ?_⟩
    rw [(stage.only hfirst).unbound fresh] at hb
    cases hb
  · exact ⟨stage.scripts.of_functions rfl, fun hfirst => (stage.only hfirst).bind name.lexeme v⟩

/-- If the test and the body of a loop come back to where they started then so do its rounds. -/
theorem settles_rounds {test : Eval ω Bool} {testWalk : Walk ω} {body : Eval ω Signal}
    {bodyWalk : Walk ω}
    (ht : ∀ run : Run ω, run.store.Stage Q first L scope →
      Settles Q first test testWalk run fun s => s.Stage Q first L scope)
    (hb : ∀ run : Run ω, run.store.Stage Q first L scope →
      Settles Q first body bodyWalk run fun s => s.Stage Q first L scope) (limit : Nat) :
    ∀ run : Run ω, run.store.Stage Q first L scope →
      Settles Q first (Eval.rounds test body limit)
        (Walk.rounds test testWalk body bodyWalk limit) run fun s => s.Stage Q first L scope := by
  induction limit with
  | zero =>
    intro run stage
    exact follows_quiet ((Eval.ends_throw _).2 ⟨trivial, stage.scripts, fun _ =>
      Interrupt.mild_exhausted⟩)
  | succ limit ih =>
    intro run stage
    rw [Eval.rounds, Walk.rounds]
    refine follows_bind ((ht run stage).mono ?_ fun _ _ _ h => h)
    intro holds r _ stage
    split
    · refine follows_bind ((hb r stage).mono ?_ fun _ _ _ h => h)
      intro signal r _ stage
      cases signal with
      | normal => exact ih r stage
      | «continue» => exact ih r stage
      | «break» => exact follows_pure stage
      | «return» v => exact follows_pure stage
    · exact follows_pure stage

/-- Behind a block the scope around it has the names that it had before. -/
theorem Store.Stage.block (outside : ∀ f ∈ setting.host.functions, f.Outside)
    (stage : run.store.Stage Q first L scope) {body : List Stmt}
    (inner : Settles Q first
      (Eval.stmt setting (Eval.call setting fuel) fuel scope (.block body))
      (Walk.stmt setting fuel (Walk.call setting fuel) scope (.block body)) run
      fun s => s.Scripts Q) :
    Settles Q first (Eval.stmt setting (Eval.call setting fuel) fuel scope (.block body))
      (Walk.stmt setting fuel (Walk.call setting fuel) scope (.block body)) run
      fun s => s.Stage Q first L scope := by
  have steady := steady_kept outside .everything
  have keeps : Keeps setting .everything (Store.Kept .everything) none run.store
      (Eval.stmt setting (Eval.call setting fuel) fuel scope (.block body))
      (Walk.stmt setting fuel (Walk.call setting fuel) scope (.block body)) := by
    rw [Eval.stmt, Walk.stmt]
    exact moves_enter steady fun c s₁ =>
      keeps_stmts steady (keeps_call setting steady fuel) c s₁ body (Permits.each_everything body)
  have kept := (keeps run (Store.bodies_everything _) (steady.refl none _)).all Event.spares_nothing
  refine ((inner.both kept).imp fun _ h => h.1).mono ?_ fun _ _ _ h => h.1
  intro _ r _ h
  exact ⟨h.1, fun hfirst => (stage.only hfirst).kept h.2.2⟩

/-- A declared function is such as `Q` says, and its name is new. -/
theorem Store.Stage.function (stage : run.store.Stage Q first L scope) {header : Header}
    {body : List Stmt} (hq : Q header body) (fresh : L.declares header.name.lexeme = false) :
    (Eval.stmt setting (Eval.call setting fuel) fuel scope (.function header body)).Ends run
      (fun _ r => r.store.Stage Q first (L.add header.name.lexeme) scope)
      (fun i r => r.store.Scripts Q ∧ (first → i.Mild)) := by
  let made : Run ω := { run with store := (run.store.newFunction (.script header body scope)).2 }
  have kept : Store.Kept .everything none run.store made.store := Store.Kept.of_newFunction trivial
  have stage' : made.store.Stage Q first L scope :=
    ⟨stage.scripts.newFunction scope hq, fun hfirst => (stage.only hfirst).kept kept⟩
  rw [Eval.stmt]
  refine Eval.ends_bind.2 ((Eval.ends_allocate _).2 (Eval.ends_bind.2 ?_))
  exact (stage'.define header.name _ fresh).mono (fun _ r stage => (Eval.ends_pure _).2 stage)
    fun _ _ h => h

mutual

/-- A statement takes a run from its place to the place behind it. -/
theorem settles_stmt (outside : ∀ f ∈ setting.host.functions, f.Outside)
    (orderly : ∀ header body, Q header body → Orderly header body)
    (hcall : CallsMild Q setting fuel) {P : List Frame → List Frame → Expr → Prop} : (s : Stmt) →
    ∀ {L : Layout} {scope : ScopeId} {run : Run ω}, s.Scoped P L →
      s.Each (fun _ => True) (Stmt.Makes Q) → run.store.Stage Q first L scope →
      Settles Q first (Eval.stmt setting (Eval.call setting fuel) fuel scope s)
        (Walk.stmt setting fuel (Walk.call setting fuel) scope s) run
        fun t => t.Stage Q first (L.after s) scope
  | .expression e, L, scope, _, _, _, stage => by
    rw [Eval.stmt, Walk.stmt]
    refine follows_last ((stage.expr outside orderly hcall e).mono ?_ fun _ _ _ h => h)
    exact fun _ r _ stage => (Eval.ends_pure _).2 ⟨trivial, stage⟩
  | .block body, L, scope, run, h, makes, stage => by
    refine stage.block outside ?_
    rw [Eval.stmt, Walk.stmt]
    refine follows_after ((Eval.ends_allocate _).2 ⟨trivial, ?_⟩)
    exact settles_stmts outside orderly hcall body h (Stmt.each_block.1 makes).2
      ⟨stage.scripts.of_functions rfl, fun _ => Store.only_newScope run.store _ L.block⟩
  | .declare name type start, L, scope, _, h, _, stage => by
    rw [Eval.stmt, Walk.stmt]
    refine follows_bind ((stage.initial outside orderly hcall type start).mono ?_ fun _ _ _ h => h)
    intro v r _ stage
    have fits : Settles Q first (Eval.fitTo type v name.line (.badInitializer name.lexeme))
        Walk.quiet r fun s => s.Stage Q first L scope :=
      stage.settles (stage.scripts.moves setting orderly (moves_aside (steady_kept outside .plain)
        (fun _ h => h) (Eval.aside_fitTo type v name.line (by simp))))
    refine follows_after (fits.result.mono ?_ fun _ _ h => ⟨trivial, h⟩)
    intro w r stage
    refine ⟨trivial, follows_after ?_⟩
    refine (stage.define name w h.1).mono ?_ fun _ _ h => ⟨trivial, h⟩
    exact fun _ r stage => ⟨trivial, follows_bound stage.scripts stage⟩
  | .ifThen keyword test yes, L, scope, _, h, makes, stage => by
    obtain ⟨-, hnone, hyes⟩ := h
    have same : L.after yes = L := by rw [Layout.after, hnone]
    rw [Eval.stmt, Walk.stmt]
    refine follows_bind ((stage.holds outside orderly hcall test).mono ?_ fun _ _ _ h => h)
    intro holds r _ stage
    split
    · exact same ▸ settles_stmt outside orderly hcall yes hyes (Stmt.each_ifThen.1 makes).2.2 stage
    · exact follows_pure stage
  | .ifElse keyword test yes no, L, scope, _, h, makes, stage => by
    obtain ⟨-, ⟨hnone, hyes⟩, hnone', hno⟩ := h
    obtain ⟨-, -, makes, makes'⟩ := Stmt.each_ifElse.1 makes
    have same : L.after yes = L := by rw [Layout.after, hnone]
    have same' : L.after no = L := by rw [Layout.after, hnone']
    rw [Eval.stmt, Walk.stmt]
    refine follows_bind ((stage.holds outside orderly hcall test).mono ?_ fun _ _ _ h => h)
    intro holds r _ stage
    split
    · exact same ▸ settles_stmt outside orderly hcall yes hyes makes stage
    · exact same' ▸ settles_stmt outside orderly hcall no hno makes' stage
  | .while keyword test body, L, scope, _, h, makes, stage => by
    obtain ⟨-, hnone, hbody⟩ := h
    have same : L.after body = L := by rw [Layout.after, hnone]
    rw [Eval.stmt, Walk.stmt]
    refine settles_rounds (fun _ stage => stage.holds outside orderly hcall test) ?_ fuel _ stage
    intro r stage
    exact same ▸
      settles_stmt outside orderly hcall body hbody (Stmt.each_while.1 makes).2.2 stage
  | .return keyword none, L, _, _, _, _, stage => by
    rw [Eval.stmt, Walk.stmt]
    exact follows_pure stage
  | .return keyword (some e), L, scope, _, _, _, stage => by
    rw [Eval.stmt, Walk.stmt]
    refine follows_last ((stage.expr outside orderly hcall e).mono ?_ fun _ _ _ h => h)
    exact fun _ r _ stage => (Eval.ends_pure _).2 ⟨trivial, stage⟩
  | .break keyword, L, _, _, _, _, stage => by
    rw [Eval.stmt, Walk.stmt]
    exact follows_pure stage
  | .continue keyword, L, _, _, _, _, stage => by
    rw [Eval.stmt, Walk.stmt]
    exact follows_pure stage
  | .function header body, L, _, _, h, makes, stage => by
    rw [Walk.stmt]
    refine follows_quiet ((stage.function makes.self h.2.1).mono ?_ ?_)
    · exact fun _ _ stage => ⟨trivial, stage⟩
    · exact fun _ _ h => ⟨trivial, h⟩

theorem settles_stmts (outside : ∀ f ∈ setting.host.functions, f.Outside)
    (orderly : ∀ header body, Q header body → Orderly header body)
    (hcall : CallsMild Q setting fuel) {P : List Frame → List Frame → Expr → Prop} :
    (ss : List Stmt) → ∀ {L : Layout} {scope : ScopeId} {run : Run ω}, StmtsScoped P L ss →
      EachStmt (fun _ => True) (Stmt.Makes Q) ss → run.store.Stage Q first L scope →
      Settles Q first (Eval.stmts setting (Eval.call setting fuel) fuel scope ss)
        (Walk.stmts setting fuel (Walk.call setting fuel) scope ss) run fun t => t.Scripts Q
  | [], _, _, _, _, _, stage => by
    rw [Eval.stmts, Walk.stmts]
    exact follows_pure stage.scripts
  | s :: ss, _, _, _, h, makes, stage => by
    obtain ⟨makes, rest⟩ := eachStmt_cons.1 makes
    rw [Eval.stmts, Walk.stmts]
    refine follows_bind ((settles_stmt outside orderly hcall s h.1 makes stage).mono ?_
      fun _ _ _ h => h)
    intro signal r _ stage
    cases signal with
    | normal => exact settles_stmts outside orderly hcall ss h.2 rest stage
    | _ => exact follows_pure stage.scripts

end

/-! ## Calls -/

/-- Parameters with different names lead into the body of their function. -/
theorem Store.Stage.parameters : ∀ {run : Run ω} {names : List String},
    run.store.Stage Q first (L.body names) scope → ∀ (ps : List Parameter) (values : List Value),
    (names ++ ps.map (·.name.lexeme)).Nodup →
    Settles Q first (Eval.parameters scope ps values) (Walk.parameters scope ps values) run
      fun s => s.Stage Q first (L.body (names ++ ps.map (·.name.lexeme))) scope
  | _, names, stage, p :: ps, v :: vs, hnodup => by
    have hsplit : names ++ (p :: ps).map (·.name.lexeme) =
        (names ++ [p.name.lexeme]) ++ ps.map (·.name.lexeme) := by simp
    rw [hsplit] at hnodup ⊢
    have fresh : p.name.lexeme ∉ names := by
      intro hm
      exact (List.nodup_append.1 (List.nodup_append.1 hnodup).1).2.2 _ hm _
        (List.mem_singleton_self _) rfl
    rw [Eval.parameters, Walk.parameters]
    refine follows_after ((stage.define p.name v (Layout.declares_body.2 fresh)).mono ?_
      fun _ _ h => ⟨trivial, h⟩)
    intro _ r stage
    rw [L.body_add] at stage
    exact ⟨trivial, follows_bound_both stage.scripts
      (Store.Stage.parameters stage ps vs hnodup)⟩
  | _, _, stage, [], _, _ => by
    rw [List.map_nil, List.append_nil]
    exact follows_pure stage
  | _, _, stage, p :: ps, [], _ => by
    refine follows_pure ⟨stage.scripts, fun hfirst => ⟨(stage.only hfirst).there, fun n hb => ?_⟩⟩
    by_contra hn
    have absent := Layout.declares_body.1 (Bool.eq_false_iff.2 hn)
    have bound := (stage.only hfirst).names n hb
    rw [Layout.declares_body.2 fun hm => absent (List.mem_append_left _ hm)] at bound
    cases bound

/-- The body of a function declares only new names in its scope. -/
theorem settles_scriptFunction (outside : ∀ f ∈ setting.host.functions, f.Outside)
    (orderly : ∀ header body, Q header body → Orderly header body)
    (hcall : CallsMild Q setting fuel) {header : Header} {body : List Stmt} (closure : ScopeId)
    (values : List Value) (scripts : run.store.Scripts Q) (hq : Q header body) :
    Settles Q True
      (Eval.scriptFunction setting (Eval.call setting fuel) fuel header body closure values)
      (Walk.after (Eval.allocate (·.newScope (some closure))) fun scope =>
        Walk.thenAfter (Walk.parameters scope header.parameters values)
          (Eval.parameters scope header.parameters values) fun _ =>
            Walk.stmts setting fuel (Walk.call setting fuel) scope body) run
      fun s => s.Scripts Q := by
  obtain ⟨hnodup, P, L, placed⟩ := orderly header body hq
  have plain : EachStmt Permits.plain.Node Permits.plain.Part body :=
    StmtsScoped.plain rfl body placed
  have makes : EachStmt (fun _ => True) (Stmt.Makes Q) body := by
    refine ⟨fun _ _ => trivial, fun part hp => ?_⟩
    cases part with
    | function header body => exact (plain.2 _ hp).1.elim
    | _ => trivial
  refine follows_after ((Eval.ends_allocate _).2 ⟨trivial, ?_⟩)
  let entered : Run ω := { run with store := (run.store.newScope (some closure)).2 }
  have stage : entered.store.Stage Q True (L.body []) run.store.scopes.size :=
    ⟨scripts.of_functions rfl, fun _ => Store.only_newScope run.store _ _⟩
  refine follows_bind ((stage.parameters header.parameters values hnodup).mono ?_
    fun _ _ _ h => h)
  intro _ r _ stage
  refine follows_last ((settles_stmts outside orderly hcall body placed makes stage).mono ?_
    fun _ _ _ h => h)
  intro signal r _ h
  cases signal <;> exact (Eval.ends_pure _).2 ⟨trivial, h⟩

/-- A call keeps to the functions of the store, if the calls inside of it do. -/
theorem settles_call (outside : ∀ f ∈ setting.host.functions, f.Outside)
    (orderly : ∀ header body, Q header body → Orderly header body)
    (hcall : CallsMild Q setting fuel) (scripts : run.store.Scripts Q) (f : FunctionId)
    (values : List Value) (line : Nat) :
    Settles Q True (Eval.call setting (fuel + 1) f values line)
      (Walk.call setting (fuel + 1) f values line) run fun _ => True := by
  have steady := steady_kept outside .plain
  have mild : ∀ {i : Interrupt}, i.Mild → run.store.Scripts Q ∧ (True → i.Mild) :=
    fun h => ⟨scripts, fun _ => h⟩
  -- What a function does behind its body is no event.
  have ends : ∀ (c : Callable) (v : Value) (r : Run ω), r.store.Scripts Q →
      (Eval.result c line v).Ends r (fun _ r' => AnyOrder r.store r'.store ∧ True)
        (fun i r' => AnyOrder r.store r'.store ∧ r'.store.Scripts Q ∧ (True → i.Mild)) := by
    intro c v r scripts
    have moves : Settles Q True (Eval.result c line v) Walk.quiet r _ :=
      scripts.moves setting orderly (moves_aside steady (fun _ h => h) (Eval.aside_result c line v))
    exact moves.result.mono (fun _ _ _ => ⟨trivial, trivial⟩) fun _ _ h => ⟨trivial, h⟩
  rw [Eval.call, Walk.call]
  refine follows_after ((Eval.ends_ask _).2 ⟨trivial, ?_⟩)
  cases hc : run.store.functions[f]? with
  | none =>
    exact follows_quiet ((Eval.ends_throw _).2 ⟨trivial, mild (Interrupt.mild_error (by simp))⟩)
  | some c =>
    dsimp only
    split
    · exact follows_quiet ((Eval.ends_throw _).2 ⟨trivial, mild (Interrupt.mild_error (by simp))⟩)
    · have fits : Settles Q True (Eval.arguments c.name line 1 c.signature.parameters values)
          Walk.quiet run _ :=
        scripts.moves setting orderly (moves_aside steady (fun _ h => h)
          (Eval.aside_arguments c.name line 1 c.signature.parameters values))
      refine follows_after (fits.result.mono ?_ fun _ _ h => ⟨trivial, h⟩)
      intro fitted r k
      have scripts' := scripts.kept k
      refine ⟨trivial, ?_⟩
      cases c with
      | builtin b =>
        refine follows_last ((scripts'.moves setting orderly
          (moves_builtin steady fitted b)).mono ?_ fun _ _ _ h => h)
        exact fun v r' _ k => ends _ v r' (scripts'.kept k)
      | host name signature =>
        refine follows_last ((scripts'.moves setting orderly
          (moves_hostFunction steady name fitted)).mono ?_ fun _ _ _ h => h)
        exact fun v r' _ k => ends _ v r' (scripts'.kept k)
      | script header body closure =>
        refine follows_last ((settles_scriptFunction outside orderly hcall closure fitted scripts'
          (scripts hc)).mono ?_ fun _ _ _ h => h)
        exact fun v r' _ scripts => ends _ v r' scripts

/-- No call complains about a name that is defined already, however deep calls go. -/
theorem callsMild (outside : ∀ f ∈ setting.host.functions, f.Outside)
    (orderly : ∀ header body, Q header body → Orderly header body) (fuel : Nat) :
    CallsMild Q setting fuel := by
  have steady := steady_kept outside .plain
  induction fuel with
  | zero => exact fun _ _ _ _ _ _ => moves_throw steady Interrupt.mild_exhausted
  | succ fuel ih =>
    intro s₀ scripts f values line spared run hb k
    have keeps := keeps_call setting steady (fuel + 1) none s₀ f values line spared run hb k
    have settles := settles_call outside orderly ih (scripts.kept k) f values line
    refine ((keeps.both settles.always).imp fun _ h => h.1).mono ?_ ?_
    · exact fun _ r _ h => h.1
    · exact fun _ r _ h => ⟨h.1.1, h.2.2 trivial⟩

end Runs

end TickScript
