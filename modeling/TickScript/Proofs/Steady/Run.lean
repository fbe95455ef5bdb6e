import TickScript.Proofs.Steady

/-!
# Runs respect steady relations

If every step respects a relation between stores then so does every expression, every
statement, every call and every request, at its end and at each of its events. Expressions and
statements go by induction on their form, calls by induction on the bound on their depth.
-/

namespace TickScript

variable {ω : Type}

section Runs

variable {host : Host ω} {may : Permits} {K : Option ScopeId → Store → Store → Prop}
  {each : Event ω → Prop} {bad : Interrupt → Prop} {free : Option ScopeId} {s₀ : Store}
  {setting : Setting ω} {fuel : Nat}

/-- Calls of the functions that may be called stay within `K`. -/
def CallsMove (setting : Setting ω) (may : Permits) (K : Option ScopeId → Store → Store → Prop)
    (each : Event ω → Prop) (bad : Interrupt → Prop) (free : Option ScopeId) (s₀ : Store)
    (fuel : Nat) : Prop :=
  ∀ f values line, ¬ may.left f →
    Moves setting may K each bad free s₀ (Eval.call setting fuel f values line)
      (Walk.call setting fuel f values line)

/-- Calls of the functions that may be called stay within `K`, whatever happens in them. -/
abbrev CallsKeep (setting : Setting ω) (may : Permits) (K : Option ScopeId → Store → Store → Prop)
    (free : Option ScopeId) (s₀ : Store) (fuel : Nat) : Prop :=
  CallsMove setting may K (fun _ => True) (fun _ => True) free s₀ fuel

/-! ## Expressions -/

/-- What an expression does itself is permitted, and its evaluation may be seen. -/
def Allowed (may : Permits) (K : Option ScopeId → Store → Store → Prop) (each : Event ω → Prop)
    (free : Option ScopeId) (s₀ : Store) (fuel : Nat) (scope : ScopeId) (node : Expr) : Prop :=
  may.Node node ∧ Seen K each free s₀ fuel scope node

mutual

/-- If calls stay within `K` then so does every permitted expression. -/
theorem moves_expr (steady : Steady host may K) (hbad : ∀ i : Interrupt, i.Mild → bad i)
    (hcall : CallsMove setting may K each bad free s₀ fuel) (scope : ScopeId) :
    (e : Expr) → e.Each (Allowed may K each free s₀ fuel scope) →
      Moves setting may K each bad free s₀ (Eval.expr setting (Eval.call setting fuel) scope e)
        (Walk.expr setting fuel (Walk.call setting fuel) scope e)
  | .literal id value line, h => by
    rw [Eval.expr, Walk.expr]
    exact moves_leaf h.self.2 (moves_pure steady _)
  | .grouping id inner, h => by
    rw [Eval.expr, Walk.expr]
    exact moves_here h.self.2 (moves_expr steady hbad hcall scope inner (Expr.each_grouping.1 h).2)
  | .unary id operator right, h => by
    rw [Eval.expr, Walk.expr]
    obtain ⟨-, hr⟩ := Expr.each_unary.1 h
    exact moves_here h.self.2 (moves_last (moves_expr steady hbad hcall scope right hr) fun v =>
      moves_aside steady hbad (Eval.aside_unary operator v))
  | .binary id left operator right, h => by
    obtain ⟨-, hl, hr⟩ := Expr.each_binary.1 h
    rw [Eval.expr, Walk.expr]
    exact moves_here h.self.2 (moves_bind (moves_expr steady hbad hcall scope left hl) fun l =>
      moves_last (moves_expr steady hbad hcall scope right hr) fun r =>
        moves_aside steady hbad (Eval.aside_binary operator l r))
  | .logical id left operator right, h => by
    obtain ⟨-, hl, hr⟩ := Expr.each_logical.1 h
    rw [Eval.expr, Walk.expr]
    refine moves_here h.self.2 (moves_bind (moves_expr steady hbad hcall scope left hl) fun l => ?_)
    split
    · exact moves_pure steady l
    · exact moves_expr steady hbad hcall scope right hr
  | .var id name, h => by
    rw [Eval.expr, Walk.expr]
    exact moves_leaf h.self.2 (moves_aside steady hbad (Eval.aside_read setting scope id name))
  | .index id name position, h => by
    rw [Eval.expr, Walk.expr]
    have hread : Moves setting may K each bad free s₀ (Eval.read setting scope id name)
        Walk.quiet := moves_aside steady hbad (Eval.aside_read setting scope id name)
    exact moves_here h.self.2 (moves_after hread fun _ =>
      moves_last (moves_expr steady hbad hcall scope position (Expr.each_index.1 h).2) fun _ =>
        moves_aside steady hbad (Eval.aside_item name _ _))
  | .assign id name value, h => by
    obtain ⟨hw, hv⟩ := Expr.each_assign.1 h
    rw [Eval.expr, Walk.expr]
    exact moves_here h.self.2 (moves_last (moves_expr steady hbad hcall scope value hv) fun v =>
      moves_assign steady hbad setting scope id name v hw.1)
  | .assignIndex id name position value, h => by
    obtain ⟨-, hp, hv⟩ := Expr.each_assignIndex.1 h
    rw [Eval.expr, Walk.expr]
    exact moves_here h.self.2 (moves_bind (moves_expr steady hbad hcall scope position hp) fun index =>
      moves_last (moves_expr steady hbad hcall scope value hv) fun v =>
        moves_aside steady hbad (Eval.aside_assignItem setting scope id name index v))
  | .assignElements id name elements, h => by
    obtain ⟨hw, he⟩ := Expr.each_assignElements.1 h
    rw [Eval.expr, Walk.expr]
    exact moves_here h.self.2 (moves_last (moves_exprs steady hbad hcall scope elements he) fun vs =>
      moves_last (moves_aside steady hbad (Eval.aside_newArray vs)) fun v =>
        moves_assign steady hbad setting scope id name v hw.1)
  | .call id callee paren arguments, h => by
    obtain ⟨-, hc, ha⟩ := Expr.each_call.1 h
    rw [Eval.expr, Walk.expr]
    -- The event of the call itself says that its callee gives no function that is left.
    intro run hb hk
    refine followsIf_here (fun _ => ⟨hk, h.self.2 run hk⟩) fun spares => ?_
    refine followsIf_bind ((moves_expr steady hbad hcall scope callee hc run hb hk).noting.mono ?_
      fun _ _ _ hr => hr)
    rintro function r - ⟨hfunction, hb', hk'⟩
    refine moves_bind (moves_exprs steady hbad hcall scope arguments ha) (fun values => ?_) r
      hb' hk'
    cases function with
    | function f => exact hcall f values paren.line (spares f (by rw [Event.callee?, hfunction]))
    | _ => exact moves_throw steady (hbad _ (Interrupt.mild_error (by simp)))

theorem moves_exprs (steady : Steady host may K) (hbad : ∀ i : Interrupt, i.Mild → bad i)
    (hcall : CallsMove setting may K each bad free s₀ fuel) (scope : ScopeId) :
    (es : List Expr) → EachExpr (Allowed may K each free s₀ fuel scope) es →
      Moves setting may K each bad free s₀ (Eval.exprs setting (Eval.call setting fuel) scope es)
        (Walk.exprs setting fuel (Walk.call setting fuel) scope es)
  | [], _ => by
    rw [Eval.exprs, Walk.exprs]
    exact moves_pure steady _
  | e :: es, h => by
    obtain ⟨he, hes⟩ := eachExpr_cons.1 h
    rw [Eval.exprs, Walk.exprs]
    exact moves_bind (moves_expr steady hbad hcall scope e he) fun _ =>
      moves_last (moves_exprs steady hbad hcall scope es hes) fun _ => moves_pure steady _

end

/-! ## Statements -/

theorem keeps_expr (steady : Steady host may K)
    (hcall : CallsKeep setting may K free s₀ fuel) (scope : ScopeId) (e : Expr)
    (h : e.Each may.Node) :
    Keeps setting may K free s₀ (Eval.expr setting (Eval.call setting fuel) scope e)
      (Walk.expr setting fuel (Walk.call setting fuel) scope e) :=
  moves_expr steady (fun _ _ => trivial) hcall scope e fun node hn => ⟨h node hn, fun _ _ => trivial⟩

theorem keeps_exprs (steady : Steady host may K)
    (hcall : CallsKeep setting may K free s₀ fuel) (scope : ScopeId) (es : List Expr)
    (h : EachExpr may.Node es) :
    Keeps setting may K free s₀ (Eval.exprs setting (Eval.call setting fuel) scope es)
      (Walk.exprs setting fuel (Walk.call setting fuel) scope es) :=
  moves_exprs steady (fun _ _ => trivial) hcall scope es
    fun node hn => ⟨h node hn, fun _ _ => trivial⟩

theorem keeps_holds (steady : Steady host may K)
    (hcall : CallsKeep setting may K free s₀ fuel) (scope : ScopeId) (e : Expr)
    (h : e.Each may.Node) :
    Keeps setting may K free s₀ (Eval.holds setting (Eval.call setting fuel) scope e)
      (Walk.expr setting fuel (Walk.call setting fuel) scope e) :=
  moves_last (keeps_expr steady hcall scope e h) fun _ => moves_pure steady _

theorem keeps_rounds (steady : Steady host may K) {test : Eval ω Bool} {testWalk : Walk ω}
    {body : Eval ω Signal} {bodyWalk : Walk ω} (ht : Keeps setting may K free s₀ test testWalk)
    (hb : Keeps setting may K free s₀ body bodyWalk) (limit : Nat) :
    Keeps setting may K free s₀ (Eval.rounds test body limit)
      (Walk.rounds test testWalk body bodyWalk limit) := by
  induction limit with
  | zero => exact moves_throw steady trivial
  | succ limit ih =>
    rw [Eval.rounds, Walk.rounds]
    refine moves_bind ht fun holds => ?_
    split
    · refine moves_bind hb fun signal => ?_
      cases signal with
      | normal => exact ih
      | «continue» => exact ih
      | «break» => exact moves_pure steady _
      | «return» v => exact moves_pure steady _
    · exact moves_pure steady _

theorem keeps_initial (steady : Steady host may K)
    (hcall : CallsKeep setting may K free s₀ fuel) (scope : ScopeId) (type : Ty)
    (start : Initializer) (h : start.Each may.Node) :
    Keeps setting may K free s₀ (Eval.initial setting (Eval.call setting fuel) scope type start)
      (Walk.initial setting fuel (Walk.call setting fuel) scope start) := by
  cases start with
  | zero =>
    exact moves_aside steady (fun _ _ => trivial) (Eval.aside_zero type)
  | value e => exact keeps_expr steady hcall scope e h
  | elements es =>
    exact moves_last (keeps_exprs steady hcall scope es h) fun vs =>
      moves_aside steady (fun _ _ => trivial) (Eval.aside_newArray vs)

/-- A script function is made and bound. -/
theorem keeps_function (steady : Steady host may K) (scope : ScopeId) (header : Header)
    (body : List Stmt) (hh : may.headers header)
    (hp : ∀ p ∈ header.parameters, may.declares p.name) (hbody : EachStmt may.Node may.Part body) :
    Keeps setting may K (some scope) s₀
      (Eval.stmt setting (Eval.call setting fuel) fuel scope (.function header body))
      Walk.quiet := by
  refine moves_step steady fun run hb => ?_
  rw [Eval.stmt]
  refine Eval.ends_bind.2 ((Eval.ends_allocate _).2 (Eval.ends_bind.2
    ((Eval.ends_define _ _ _).2 ?_)))
  have made := hb.newFunction (c := scope) hp hbody
  split
  · exact ⟨⟨made, steady.weaken (steady.allocate hh)⟩, trivial⟩
  · next h =>
    exact (Eval.ends_pure _).2 ⟨made.of_functions rfl,
      steady.function hh (Bool.eq_false_iff.2 h)⟩

mutual

/-- If calls stay within `K` then so does every permitted statement, where the scope it runs
in is free to grow. -/
theorem keeps_stmt (steady : Steady host may K)
    (hcall : ∀ free s₀, CallsKeep setting may K free s₀ fuel) (scope : ScopeId) (s₀ : Store) :
    (s : Stmt) → s.Each may.Node may.Part →
      Keeps setting may K (some scope) s₀ (Eval.stmt setting (Eval.call setting fuel) fuel scope s)
        (Walk.stmt setting fuel (Walk.call setting fuel) scope s)
  | .expression e, h => by
    rw [Eval.stmt, Walk.stmt]
    exact moves_last (keeps_expr steady (hcall _ _) scope e (Stmt.each_expression.1 h).2)
      fun _ => moves_pure steady _
  | .block body, h => by
    rw [Eval.stmt, Walk.stmt]
    exact moves_enter steady fun c s₁ =>
      keeps_stmts steady hcall c s₁ body (Stmt.each_block.1 h).2
  | .declare name type start, h => by
    obtain ⟨hd, hs⟩ := Stmt.each_declare.1 h
    rw [Eval.stmt, Walk.stmt]
    exact moves_bind (keeps_initial steady (hcall _ _) scope type start hs) fun v =>
      moves_after (moves_aside steady (fun _ _ => trivial)
        (Eval.aside_fitTo type v name.line (by simp))) fun w =>
        moves_after (moves_define steady scope name w hd trivial) fun _ =>
          moves_bound scope name type (fun _ => trivial) _
  | .ifThen keyword test yes, h => by
    obtain ⟨-, ht, hy⟩ := Stmt.each_ifThen.1 h
    rw [Eval.stmt, Walk.stmt]
    refine moves_bind (keeps_holds steady (hcall _ _) scope test ht) fun holds => ?_
    split
    · exact keeps_stmt steady hcall scope s₀ yes hy
    · exact moves_pure steady _
  | .ifElse keyword test yes no, h => by
    obtain ⟨-, ht, hy, hn⟩ := Stmt.each_ifElse.1 h
    rw [Eval.stmt, Walk.stmt]
    refine moves_bind (keeps_holds steady (hcall _ _) scope test ht) fun holds => ?_
    split
    · exact keeps_stmt steady hcall scope s₀ yes hy
    · exact keeps_stmt steady hcall scope s₀ no hn
  | .while keyword test body, h => by
    obtain ⟨-, ht, hb⟩ := Stmt.each_while.1 h
    rw [Eval.stmt, Walk.stmt]
    exact keeps_rounds steady (keeps_holds steady (hcall _ _) scope test ht)
      (keeps_stmt steady hcall scope s₀ body hb) fuel
  | .return keyword none, _ => by
    rw [Eval.stmt, Walk.stmt]
    exact moves_pure steady _
  | .return keyword (some e), h => by
    rw [Eval.stmt, Walk.stmt]
    exact moves_last (keeps_expr steady (hcall _ _) scope e ((Stmt.each_return.1 h).2 e rfl))
      fun _ => moves_pure steady _
  | .break keyword, _ => by
    rw [Eval.stmt, Walk.stmt]
    exact moves_pure steady _
  | .continue keyword, _ => by
    rw [Eval.stmt, Walk.stmt]
    exact moves_pure steady _
  | .function header body, h => by
    obtain ⟨⟨hh, hp⟩, hb⟩ := Stmt.each_function.1 h
    rw [Walk.stmt]
    exact keeps_function steady scope header body hh hp hb

theorem keeps_stmts (steady : Steady host may K)
    (hcall : ∀ free s₀, CallsKeep setting may K free s₀ fuel) (scope : ScopeId) (s₀ : Store) :
    (ss : List Stmt) → EachStmt may.Node may.Part ss →
      Keeps setting may K (some scope) s₀
        (Eval.stmts setting (Eval.call setting fuel) fuel scope ss)
        (Walk.stmts setting fuel (Walk.call setting fuel) scope ss)
  | [], _ => by
    rw [Eval.stmts, Walk.stmts]
    exact moves_pure steady _
  | s :: ss, h => by
    obtain ⟨hs, hss⟩ := eachStmt_cons.1 h
    rw [Eval.stmts, Walk.stmts]
    refine moves_bind (keeps_stmt steady hcall scope s₀ s hs) fun signal => ?_
    cases signal with
    | normal => exact keeps_stmts steady hcall scope s₀ ss hss
    | _ => exact moves_pure steady _

end

/-! ## Calls -/

theorem keeps_parameters (steady : Steady host may K) (scope : ScopeId) :
    ∀ (ps : List Parameter) (values : List Value), (∀ p ∈ ps, may.declares p.name) →
      Keeps setting may K (some scope) s₀ (Eval.parameters scope ps values : Eval ω Unit)
        (Walk.parameters scope ps values)
  | p :: ps, v :: vs, h => by
    rw [Eval.parameters, Walk.parameters]
    have rest := keeps_parameters steady scope ps vs fun q hq => h q (List.mem_cons_of_mem p hq)
    exact moves_after (moves_define steady scope p.name v (h p List.mem_cons_self) trivial) fun _ =>
      moves_bound_both scope p.name p.type (fun _ => trivial) rest
  | [], _, _ => moves_pure steady _
  | _ :: _, [], _ => moves_pure steady _

/-- Calls stay within `K`. -/
theorem keeps_call (setting : Setting ω) (steady : Steady setting.host may K) (fuel : Nat) :
    ∀ free s₀, CallsKeep setting may K free s₀ fuel := by
  induction fuel with
  | zero => exact fun _ _ _ _ _ _ => moves_throw steady trivial
  | succ fuel ih =>
    intro free s₀ f values line spared run hb hk
    rw [Eval.call, Walk.call]
    refine followsIf_after ((Eval.ends_ask _).2 ⟨trivial, ?_⟩)
    cases hc : run.store.functions[f]? with
    | none => exact moves_throw steady trivial run hb hk
    | some c =>
      dsimp only
      split
      · exact moves_throw steady trivial run hb hk
      · refine moves_after (moves_aside steady (fun _ _ => trivial)
          (Eval.aside_arguments c.name line 1 _ values)) (fun fitted => ?_) run hb hk
        cases c with
        | builtin b =>
          exact moves_last (moves_builtin steady fitted b) fun v =>
            moves_aside steady (fun _ _ => trivial) (Eval.aside_result _ line v)
        | host name signature =>
          exact moves_last (moves_hostFunction steady name fitted) fun v =>
            moves_aside steady (fun _ _ => trivial) (Eval.aside_result _ line v)
        | script header body closure =>
          obtain ⟨hp, hbody⟩ := hb hc spared
          refine moves_last ?_ fun v =>
            moves_aside steady (fun _ _ => trivial) (Eval.aside_result _ line v)
          refine moves_enter steady fun c s₁ =>
            moves_bind (keeps_parameters steady c header.parameters fitted hp) fun _ =>
              moves_last (keeps_stmts steady ih c s₁ body hbody) fun signal => ?_
          cases signal <;> exact moves_pure steady _

end Runs

/-! ## Requests -/

section Requests

variable {host : Host ω} {may : Permits} {K : Option ScopeId → Store → Store → Prop}
  {m : Machine ω} {statements : List Stmt}

theorem Expr.node_globalCall (may : Permits) (name : String) :
    (Expr.globalCall name).Each may.Node := by
  simp [Expr.Each, Expr.globalCall, Permits.Node]

/-- The host may write its variables. -/
def Permits.Admits (may : Permits) (host : Host ω) : Prop :=
  ∀ v ∈ host.externals, may.writes (.synthetic v.name v.type)

theorem Host.external?_name {name : String} {v : HostVariable} (h : host.external? name = some v) :
    v ∈ host.externals ∧ v.name = name :=
  ⟨List.mem_of_find?_eq_some h, by simpa using List.find?_some h⟩

/-- What the host writes stays within `K`. -/
theorem Machine.moves_write (steady : Steady host may K) {each : Event ω → Prop}
    {bad : Interrupt → Prop} (hbad : ∀ i : Interrupt, i.Mild → bad i) (hw : may.Admits host)
    {setting : Setting ω} {free : Option ScopeId} {s₀ : Store} (m : Machine ω) (fuel : Nat)
    (name : String) (v : Value) :
    Moves setting may K each bad free s₀ (m.order host statements fuel (.write name v))
      Walk.quiet := by
  rw [order]
  cases hx : host.external? name with
  | none => exact moves_pure steady _
  | some external =>
    obtain ⟨hmem, rfl⟩ := Host.external?_name hx
    exact moves_last (moves_assign steady hbad _ m.globals _ _ v (hw external hmem))
      fun _ => moves_pure steady _

/-- A request stays within `K`, where the outermost scope is free to grow. -/
theorem Machine.keeps_order (steady : Steady host may K) (m : Machine ω)
    (hs : EachStmt may.Node may.Part statements) (hw : may.Admits host) (fuel : Nat) (s₀ : Store)
    (request : Request ω) :
    Keeps (m.setting host) may K (some m.globals) s₀ (m.order host statements fuel request)
      (m.walk host statements fuel request) := by
  have calls := keeps_call (m.setting host) steady fuel
  cases request with
  | interpret =>
    exact moves_last (keeps_stmts steady calls m.globals s₀ statements hs)
      fun _ => moves_pure steady _
  | call name =>
    exact moves_last (keeps_expr steady (calls _ _) m.globals _ (Expr.node_globalCall may name))
      fun _ => moves_pure steady _
  | wait clock => exact moves_pure steady _
  | write name v => exact m.moves_write steady (fun _ _ => trivial) hw fuel name v
  | work arrays world => exact moves_arrays steady fun _ => ⟨rfl, rfl⟩

/-- A request leaves a machine within `K`. -/
theorem Machine.keeps_serve (steady : Steady host may K)
    (hs : EachStmt may.Node may.Part statements) (hw : may.Admits host) (hb : m.store.Bodies may)
    {fuel : Nat} {request : Request ω}
    (spares : ∀ ev ∈ m.events host statements fuel request, ev.Spares may.left (m.setting host)) :
    (m.serve host statements fuel request).2.store.Bodies may ∧
      K (some m.globals) m.store (m.serve host statements fuel request).2.store ∧
      (m.serve host statements fuel request).2.globals = m.globals := by
  refine serve_of_ends (P := fun _ m' => m'.store.Bodies may ∧
    K (some m.globals) m.store m'.store ∧ m'.globals = m.globals)
    ((keeps_order steady m hs hw fuel m.store request m.begin hb
      (steady.refl _ _) spares).result.mono ?_ ?_)
  · intro _ r hr clock
    exact ⟨hr.1, hr.2, rfl⟩
  · intro _ r hr errors
    exact ⟨hr.1.1, hr.1.2, rfl⟩

/-- Along any requests a machine stays within `K`. -/
theorem Machine.keeps_eventsAll (steady : Steady host may K)
    (hs : EachStmt may.Node may.Part statements) (hw : may.Admits host)
    (requests : List (Nat × Request ω)) :
    ∀ {m : Machine ω}, m.store.Bodies may → m.Sparing may.left host statements requests →
      ∀ ev ∈ m.eventsAll host statements requests, K (some m.globals) m.store ev.store := by
  induction requests with
  | nil => exact fun _ _ ev hev => absurd hev List.not_mem_nil
  | cons entry rest ih =>
    obtain ⟨fuel, request⟩ := entry
    rintro m hb ⟨spares, sparing⟩ ev hev
    rcases List.mem_append.1 hev with hev | hev
    · exact ((keeps_order steady m hs hw fuel m.store request m.begin hb
        (steady.refl _ _) spares).events ev hev).1
    · obtain ⟨hb', hk, hg⟩ := keeps_serve steady hs hw hb spares
      have := ih hb' sparing ev hev
      rw [hg] at this
      exact steady.trans hk this

end Requests

end TickScript
