import TickScript.Proofs.Simulation

/-!
# Runs keep to their places

Each statement takes a run from its place to the place behind it, and every expression is
evaluated at the place where it stands in the program. No declaration meets a name that is
defined already, except that of a second run in the outermost scope.
-/

namespace TickScript

variable {ω : Type} {P : List Frame → List Frame → Expr → Prop} {left : FunctionId → Prop}
  {first : Prop}

/-! ## Bodies -/

theorem Layout.inFunction_after (L : Layout) (s : Stmt) : (L.after s).inFunction = L.inFunction := by
  unfold Layout.after Layout.add
  split
  · split <;> rfl
  · rfl

mutual

/-- Inside of functions no function is declared. -/
theorem Stmt.Scoped.plain {L : Layout} (hin : L.inFunction = true) : (s : Stmt) → s.Scoped P L →
    s.Each (Permits.bodies left).Node (Permits.bodies left).Part
  | .expression e, _ =>
    Stmt.each_expression.2 ⟨trivial, fun node _ => Permits.node_bodies node⟩
  | .block body, h => Stmt.each_block.2 ⟨trivial, StmtsScoped.plain (L := L.block) hin body h⟩
  | .declare name type start, _ => by
    refine Stmt.each_declare.2 ⟨trivial, ?_⟩
    cases start with
    | zero => trivial
    | value e => exact fun node _ => Permits.node_bodies node
    | elements es => exact fun node _ => Permits.node_bodies node
  | .ifThen keyword test yes, h =>
    Stmt.each_ifThen.2 ⟨trivial, fun node _ => Permits.node_bodies node,
      Stmt.Scoped.plain hin yes h.2.2⟩
  | .ifElse keyword test yes no, h =>
    Stmt.each_ifElse.2 ⟨trivial, fun node _ => Permits.node_bodies node,
      Stmt.Scoped.plain hin yes h.2.1.2, Stmt.Scoped.plain hin no h.2.2.2⟩
  | .while keyword test body, h =>
    Stmt.each_while.2 ⟨trivial, fun node _ => Permits.node_bodies node,
      Stmt.Scoped.plain hin body h.2.2⟩
  | .return keyword value, _ =>
    Stmt.each_return.2 ⟨trivial, fun _ _ node _ => Permits.node_bodies node⟩
  | .break keyword, _ => ⟨by simp, by simp [Permits.Part]⟩
  | .continue keyword, _ => ⟨by simp, by simp [Permits.Part]⟩
  | .function header body, h => by
    rw [h.1] at hin
    exact Bool.noConfusion hin

theorem StmtsScoped.plain {L : Layout} (hin : L.inFunction = true) : (ss : List Stmt) →
    StmtsScoped P L ss → EachStmt (Permits.bodies left).Node (Permits.bodies left).Part ss
  | [], _ => eachStmt_nil
  | s :: ss, h =>
    eachStmt_cons.2 ⟨Stmt.Scoped.plain hin s h.1,
      StmtsScoped.plain (by rw [Layout.inFunction_after]; exact hin) ss h.2⟩

end

theorem Store.Goods.bodies {s : Store} {globals : ScopeId} (h : s.Goods P left globals) :
    s.Bodies (.bodies left) := by
  intro f header body closure hf hl
  obtain ⟨cs, L, good⟩ := h hf hl
  exact ⟨fun _ _ => trivial, StmtsScoped.plain rfl body good.inside⟩

/-! ## Expressions -/

/-- The event happens at a place that satisfies `P`: no scope hides a name that is declared
further out, and each scope has the names that are bound there. -/
def Placed (P : List Frame → List Frame → Expr → Prop) (globals : ScopeId) : Event ω → Prop
  | .evaluates _ scope e run =>
    ∃ cs fs gs, run.store.Chain globals scope cs ∧ run.store.Clear cs fs ∧
      run.store.Lower cs gs ∧ P fs gs e
  | .binds .. => True

section Places

variable {setting : Setting ω} {fuel : Nat} {run : Run ω} {L : Layout} {scope : ScopeId}
  {own closed : List ScopeId}

/-- Calls of the functions that may be called evaluate every expression at its place. -/
def CallsPlaced (P : List Frame → List Frame → Expr → Prop) (left : FunctionId → Prop)
    (setting : Setting ω) (fuel : Nat) : Prop :=
  ∀ s₀ : Store, s₀.Goods P left setting.globals → setting.globals < s₀.scopes.size →
    CallsMove setting (.bodies left) (Store.Kept (.bodies left)) (Placed P setting.globals)
      Interrupt.Mild none s₀ fuel

/-- A part of a program that calls no function that is left evaluates every expression at its place
and comes to `ok`. If it is interrupted then its functions are in order, and if no program has run
before then the error is not about a name that is defined already. -/
def Arrives (P : List Frame → List Frame → Expr → Prop) (left : FunctionId → Prop) (first : Prop)
    (setting : Setting ω) {α : Type} (act : Eval ω α) (walk : Walk ω) (run : Run ω)
    (ok : Store → Prop) : Prop :=
  FollowsIf (Event.Spares left setting) AnyOrder (Placed P setting.globals) act walk run
    (fun _ r => ok r.store) (fun i r => r.store.Goods P left setting.globals ∧ (first → i.Mild))

/-- At a place an expression can be seen. -/
theorem Site.seen (site : Site P left first setting.globals run.store L scope own closed)
    {fs : List Frame} {node : Expr}
    (clear : ∀ t, Site P left first setting.globals t L scope own closed →
      t.Clear (own ++ closed) fs)
    (h : P fs L.frames node) :
    Allowed (.bodies left) (Store.Kept (.bodies left)) (Placed (ω := ω) P setting.globals) none
      run.store fuel scope node := by
  refine ⟨Permits.node_bodies node, fun r k => ?_⟩
  have here := site.quiet k
  exact ⟨own ++ closed, fs, L.frames, here.chain, clear _ here, here.lower, h⟩

theorem Site.expr (outside : ∀ f ∈ setting.host.functions, f.Outside)
    (hcall : CallsPlaced P left setting fuel)
    (site : Site P left first setting.globals run.store L scope own closed) {fs : List Frame}
    (clear : ∀ t, Site P left first setting.globals t L scope own closed →
      t.Clear (own ++ closed) fs)
    {e : Expr} (he : e.Each (P fs L.frames)) :
    Arrives P left first setting (Eval.expr setting (Eval.call setting fuel) scope e)
      (Walk.expr setting fuel (Walk.call setting fuel) scope e) run
      fun s => Site P left first setting.globals s L scope own closed := by
  have steady := steady_kept outside (.bodies left)
  have moves := moves_expr steady (fun _ h => h) (hcall run.store site.goods site.there) scope e
    (fun node hn => site.seen clear (he node hn)) run site.goods.bodies (steady.refl none _)
  refine (moves.imp fun ev h => h.2).mono ?_ ?_
  · intro a r _ h
    exact site.quiet h.2
  · intro i r _ h
    exact ⟨site.goods.kept h.1.2, fun _ => h.2⟩

theorem Site.exprs (outside : ∀ f ∈ setting.host.functions, f.Outside)
    (hcall : CallsPlaced P left setting fuel)
    (site : Site P left first setting.globals run.store L scope own closed) {fs : List Frame}
    (clear : ∀ t, Site P left first setting.globals t L scope own closed →
      t.Clear (own ++ closed) fs)
    {es : List Expr} (he : EachExpr (P fs L.frames) es) :
    Arrives P left first setting (Eval.exprs setting (Eval.call setting fuel) scope es)
      (Walk.exprs setting fuel (Walk.call setting fuel) scope es) run
      fun s => Site P left first setting.globals s L scope own closed := by
  have steady := steady_kept outside (.bodies left)
  have moves := moves_exprs steady (fun _ h => h) (hcall run.store site.goods site.there) scope es
    (fun node hn => site.seen clear (he node hn)) run site.goods.bodies (steady.refl none _)
  refine (moves.imp fun ev h => h.2).mono ?_ ?_
  · intro a r _ h
    exact site.quiet h.2
  · intro i r _ h
    exact ⟨site.goods.kept h.1.2, fun _ => h.2⟩

theorem Site.holds (outside : ∀ f ∈ setting.host.functions, f.Outside)
    (hcall : CallsPlaced P left setting fuel)
    (site : Site P left first setting.globals run.store L scope own closed) {e : Expr}
    (he : e.Each (P L.frames L.frames)) :
    Arrives P left first setting (Eval.holds setting (Eval.call setting fuel) scope e)
      (Walk.expr setting fuel (Walk.call setting fuel) scope e) run
      fun s => Site P left first setting.globals s L scope own closed :=
  followsIf_last ((site.expr outside hcall (fun _ site => site.clear_frames) he).mono
    (fun _ _ _ h => ⟨trivial, h⟩) (fun _ _ _ h => h))

/-! ## Statements -/

/-- If the test and the body of a loop come back to where they started then so do its rounds. -/
theorem arrives_rounds {test : Eval ω Bool} {testWalk : Walk ω} {body : Eval ω Signal}
    {bodyWalk : Walk ω}
    (ht : ∀ run : Run ω, Site P left first setting.globals run.store L scope own closed →
      Arrives P left first setting test testWalk run
        fun s => Site P left first setting.globals s L scope own closed)
    (hb : ∀ run : Run ω, Site P left first setting.globals run.store L scope own closed →
      Arrives P left first setting body bodyWalk run
        fun s => Site P left first setting.globals s L scope own closed) (limit : Nat) :
    ∀ run : Run ω, Site P left first setting.globals run.store L scope own closed →
      Arrives P left first setting (Eval.rounds test body limit)
        (Walk.rounds test testWalk body bodyWalk limit) run
        fun s => Site P left first setting.globals s L scope own closed := by
  induction limit with
  | zero =>
    intro run site
    exact (follows_quiet ((Eval.ends_throw _).2 ⟨trivial, site.goods, fun _ =>
      Interrupt.mild_exhausted⟩)).always
  | succ limit ih =>
    intro run site
    rw [Eval.rounds, Walk.rounds]
    refine followsIf_bind ((ht run site).mono ?_ fun _ _ _ h => h)
    intro holds r _ site
    split
    · refine followsIf_bind ((hb r site).mono ?_ fun _ _ _ h => h)
      intro signal r _ site
      cases signal with
      | normal => exact ih r site
      | «continue» => exact ih r site
      | «break» => exact (follows_pure site).always
      | «return» v => exact (follows_pure site).always
    · exact (follows_pure site).always

/-- The value with which a variable starts. Its own name counts as declared. -/
theorem Site.initial (outside : ∀ f ∈ setting.host.functions, f.Outside)
    (hcall : CallsPlaced P left setting fuel)
    (site : Site P left first setting.globals run.store L scope own closed) (name : String)
    (type : Ty) {start : Initializer} (h : start.Each (P (L.add name).frames L.frames)) :
    Arrives P left first setting
      (Eval.initial setting (Eval.call setting fuel) scope type start)
      (Walk.initial setting fuel (Walk.call setting fuel) scope start) run
      fun s => Site P left first setting.globals s L scope own closed := by
  cases start with
  | zero =>
    refine (follows_quiet ((Eval.ends_allocate _).2 ⟨trivial, site.quiet ?_⟩)).always
    cases type with
    | scalar s => cases s <;> exact Store.Kept.of_arrays rfl rfl
    | _ => exact Store.Kept.of_arrays rfl rfl
  | value e => exact site.expr outside hcall (fun _ site => site.clear_added name) h
  | elements es =>
    refine followsIf_last ((site.exprs outside hcall (fun _ site => site.clear_added name) h).mono ?_
      fun _ _ _ h => h)
    intro values r _ site
    exact (Eval.ends_newArray values).2 ⟨trivial, site.quiet (Store.Kept.of_arrays rfl rfl)⟩

/-- A new name is bound, unless a program has run before. -/
theorem Site.define (site : Site P left first setting.globals run.store L scope own closed)
    (name : Token) (v : Value) (hfresh : L.declares name.lexeme = false) :
    (Eval.define scope name v : Eval ω Unit).Ends run
      (fun _ r => Site P left first setting.globals r.store (L.add name.lexeme) scope own closed)
      (fun i r => r.store.Goods P left setting.globals ∧ (first → i.Mild)) := by
  refine (Eval.ends_define scope name v).2 ?_
  split
  · next h =>
    refine ⟨site.goods, fun hfirst => ?_⟩
    rw [site.unbound hfresh fun _ => hfirst] at h
    exact Bool.noConfusion h
  · exact site.bind hfresh

/-- A declared function belongs to the place behind its declaration. -/
theorem Site.declareFunction (site : Site P left first setting.globals run.store L scope own closed)
    {header : Header} {body : List Stmt} (h : (Stmt.function header body).Scoped P L) :
    (Eval.stmt setting (Eval.call setting fuel) fuel scope (.function header body)).Ends run
      (fun _ r =>
        Site P left first setting.globals r.store (L.add header.name.lexeme) scope own closed)
      (fun i r => r.store.Goods P left setting.globals ∧ (first → i.Mild)) := by
  obtain ⟨hout, hfresh, hnodup, hbody⟩ := h
  have hout' : (L.add header.name.lexeme).inFunction = false := by
    unfold Layout.add
    split <;> exact hout
  rw [Eval.stmt]
  refine Eval.ends_bind.2 ((Eval.ends_allocate _).2 (Eval.ends_bind.2
    ((Eval.ends_define _ _ _).2 ?_)))
  split
  · next hb =>
    have hbound : run.store.binds scope header.name.lexeme = true := hb
    cases own with
    | nil =>
      refine ⟨(site.add_outermost.newFunction hout' hnodup hbody).goods, fun hfirst => ?_⟩
      rw [site.unbound hfresh fun _ => hfirst] at hbound
      exact Bool.noConfusion hbound
    | cons c cs =>
      obtain ⟨f, fs, -, -, hown⟩ := List.forall₂_cons_left_iff.1 site.upper
      rw [site.unbound hfresh fun h => by simp [hown] at h] at hbound
      exact Bool.noConfusion hbound
  · have made := (site.bind (v := .function run.store.functions.size) hfresh).newFunction hout'
      hnodup hbody
    exact (Eval.ends_pure _).2 made

/-- Behind a block the run is where it was before it. -/
theorem Site.block (outside : ∀ f ∈ setting.host.functions, f.Outside)
    (site : Site P left first setting.globals run.store L scope own closed) {body : List Stmt}
    (hbody : StmtsScoped P L.block body)
    (inner : Arrives P left first setting
      (Eval.stmt setting (Eval.call setting fuel) fuel scope (.block body))
      (Walk.stmt setting fuel (Walk.call setting fuel) scope (.block body)) run
      fun s => s.Goods P left setting.globals) :
    Arrives P left first setting
      (Eval.stmt setting (Eval.call setting fuel) fuel scope (.block body))
      (Walk.stmt setting fuel (Walk.call setting fuel) scope (.block body)) run
      fun s => Site P left first setting.globals s L scope own closed := by
  -- A block inside of a function makes no functions, and one outside may make some.
  have around : ∀ may : Permits, (∀ f, may.left f → left f) → EachStmt may.Node may.Part body →
      run.store.Bodies may →
      (∀ t, Store.Kept may none run.store t → L.inFunction = true →
        ∀ ⦃f : FunctionId⦄ ⦃header : Header⦄ ⦃body : List Stmt⦄ ⦃closure : ScopeId⦄,
          t.functions[f]? = some (.script header body closure) →
          run.store.functions[f]? = some (.script header body closure)) →
      Arrives P left first setting
        (Eval.stmt setting (Eval.call setting fuel) fuel scope (.block body))
        (Walk.stmt setting fuel (Walk.call setting fuel) scope (.block body)) run
        fun s => Site P left first setting.globals s L scope own closed := by
    intro may hleft hpermit hbodies same
    have steady := steady_kept outside may
    have keeps : Keeps setting may (Store.Kept may) none run.store
        (Eval.stmt setting (Eval.call setting fuel) fuel scope (.block body))
        (Walk.stmt setting fuel (Walk.call setting fuel) scope (.block body)) := by
      rw [Eval.stmt, Walk.stmt]
      exact moves_enter steady fun c s₁ =>
        keeps_stmts steady (keeps_call setting steady fuel) c s₁ body hpermit
    have kept := (keeps run hbodies (steady.refl none _)).weaken
      fun ev (spares : ev.Spares left setting) => spares.mono hleft
    refine ((inner.both kept).imp fun _ h => h.1).mono ?_ ?_
    · intro _ r _ h
      exact site.kept h.2.2 h.1 (same r.store h.2.2)
    · intro _ r _ h
      exact h.1
  cases hin : L.inFunction with
  | true =>
    exact around (.bodies left) (fun _ h => h) (StmtsScoped.plain (L := L.block) hin body hbody)
      site.goods.bodies fun t k _ _ _ _ _ hf => k.script hf
  | false =>
    refine around .everything (fun _ h => h.elim) ?_ (Store.bodies_everything _) fun _ _ h => ?_
    · exact Permits.each_everything _
    · rw [hin] at h
      exact Bool.noConfusion h

mutual

/-- A statement takes a run from its place to the place behind it. -/
theorem arrives_stmt (outside : ∀ f ∈ setting.host.functions, f.Outside)
    (hcall : CallsPlaced P left setting fuel) : (s : Stmt) →
    ∀ {L : Layout} {scope : ScopeId} {own closed : List ScopeId} {run : Run ω}, s.Scoped P L →
      Site P left first setting.globals run.store L scope own closed →
      Arrives P left first setting (Eval.stmt setting (Eval.call setting fuel) fuel scope s)
        (Walk.stmt setting fuel (Walk.call setting fuel) scope s) run
        fun t => Site P left first setting.globals t (L.after s) scope own closed
  | .expression e, L, _, _, _, _, h, site => by
    rw [Eval.stmt, Walk.stmt]
    refine followsIf_last ((site.expr outside hcall (fun _ site => site.clear_frames) h).mono ?_
      fun _ _ _ h => h)
    intro _ r _ site
    exact (Eval.ends_pure _).2 ⟨trivial, site⟩
  | .block body, L, _, _, _, _, h, site => by
    refine site.block outside h ?_
    rw [Eval.stmt, Walk.stmt]
    refine followsIf_after ((Eval.ends_allocate _).2 ⟨trivial, ?_⟩)
    exact arrives_stmts outside hcall body h site.enter
  | .declare name type start, L, _, _, _, _, h, site => by
    obtain ⟨hfresh, hstart⟩ := h
    rw [Eval.stmt, Walk.stmt]
    refine followsIf_bind ((site.initial outside hcall name.lexeme type hstart).mono ?_
      fun _ _ _ h => h)
    intro v r _ site
    refine followsIf_after ((Eval.ends_fitTo type v name.line _).2 ?_)
    have frame := Store.coerce_frame type v r.store
    cases hc : Store.coerce type v r.store with
    | error m t =>
      obtain ⟨hs, hf⟩ := frame.2 m t hc
      have there := site.quiet (t := t) (Store.Kept.of_arrays hs hf)
      exact ⟨trivial, there.goods, fun _ => Interrupt.mild_error (by simp)⟩
    | ok w t =>
      obtain ⟨hs, hf⟩ := frame.1 w t hc
      have there := site.quiet (t := t) (Store.Kept.of_arrays hs hf)
      refine ⟨trivial, followsIf_after ?_⟩
      refine (there.define name w hfresh).mono ?_ fun _ _ h => ⟨trivial, h⟩
      intro _ r site
      exact ⟨trivial, (follows_bound trivial site).always⟩
  | .ifThen keyword test yes, L, _, _, _, _, h, site => by
    obtain ⟨htest, hnone, hyes⟩ := h
    have same : L.after yes = L := by rw [Layout.after, hnone]
    rw [Eval.stmt, Walk.stmt]
    refine followsIf_bind ((site.holds outside hcall htest).mono ?_ fun _ _ _ h => h)
    intro holds r _ site
    split
    · exact same ▸ arrives_stmt outside hcall yes hyes site
    · exact (follows_pure site).always
  | .ifElse keyword test yes no, L, _, _, _, _, h, site => by
    obtain ⟨htest, ⟨hnone, hyes⟩, hnone', hno⟩ := h
    have same : L.after yes = L := by rw [Layout.after, hnone]
    have same' : L.after no = L := by rw [Layout.after, hnone']
    rw [Eval.stmt, Walk.stmt]
    refine followsIf_bind ((site.holds outside hcall htest).mono ?_ fun _ _ _ h => h)
    intro holds r _ site
    split
    · exact same ▸ arrives_stmt outside hcall yes hyes site
    · exact same' ▸ arrives_stmt outside hcall no hno site
  | .while keyword test body, L, _, _, _, _, h, site => by
    obtain ⟨htest, hnone, hbody⟩ := h
    have same : L.after body = L := by rw [Layout.after, hnone]
    rw [Eval.stmt, Walk.stmt]
    refine arrives_rounds (fun _ site => site.holds outside hcall htest) ?_ fuel _ site
    intro r site
    exact same ▸ arrives_stmt outside hcall body hbody site
  | .return keyword none, L, _, _, _, _, h, site => by
    rw [Eval.stmt, Walk.stmt]
    exact (follows_pure site).always
  | .return keyword (some e), L, _, _, _, _, h, site => by
    rw [Eval.stmt, Walk.stmt]
    refine followsIf_last ((site.expr outside hcall (fun _ site => site.clear_frames)
      (h e rfl)).mono ?_ fun _ _ _ h => h)
    intro _ r _ site
    exact (Eval.ends_pure _).2 ⟨trivial, site⟩
  | .break keyword, L, _, _, _, _, h, site => by
    rw [Eval.stmt, Walk.stmt]
    exact (follows_pure site).always
  | .continue keyword, L, _, _, _, _, h, site => by
    rw [Eval.stmt, Walk.stmt]
    exact (follows_pure site).always
  | .function header body, L, _, _, _, _, h, site => by
    rw [Walk.stmt]
    refine (follows_quiet ((site.declareFunction h).mono ?_ ?_)).always
    · exact fun _ _ site => ⟨trivial, site⟩
    · exact fun _ _ h => ⟨trivial, h⟩

theorem arrives_stmts (outside : ∀ f ∈ setting.host.functions, f.Outside)
    (hcall : CallsPlaced P left setting fuel) : (ss : List Stmt) →
    ∀ {L : Layout} {scope : ScopeId} {own closed : List ScopeId} {run : Run ω},
      StmtsScoped P L ss → Site P left first setting.globals run.store L scope own closed →
      Arrives P left first setting (Eval.stmts setting (Eval.call setting fuel) fuel scope ss)
        (Walk.stmts setting fuel (Walk.call setting fuel) scope ss) run
        fun t => t.Goods P left setting.globals
  | [], _, _, _, _, _, _, site => by
    rw [Eval.stmts, Walk.stmts]
    exact (follows_pure site.goods).always
  | s :: ss, _, _, _, _, _, h, site => by
    rw [Eval.stmts, Walk.stmts]
    refine followsIf_bind ((arrives_stmt outside hcall s h.1 site).mono ?_ fun _ _ _ h => h)
    intro signal r _ site
    cases signal with
    | normal => exact arrives_stmts outside hcall ss h.2 site
    | _ => exact (follows_pure site.goods).always

end

/-! ## Calls -/

/-- Parameters lead into the body of their function. -/
theorem Site.parameters {c : ScopeId} : ∀ (ps : List Parameter) (values : List Value)
    (names : List String) {run : Run ω}, values.length = ps.length →
    (names ++ ps.map (·.name.lexeme)).Nodup →
    Site P left first setting.globals run.store (L.body names) c [c] closed →
    Arrives P left first setting (Eval.parameters c ps values)
      (Walk.parameters c ps values) run fun s =>
        Site P left first setting.globals s (L.body (names ++ ps.map (·.name.lexeme))) c [c] closed
  | [], _, names, _, _, _, site => by
    rw [List.map_nil, List.append_nil]
    exact (follows_pure site).always
  | p :: ps, v :: vs, names, _, hlen, hnodup, site => by
    have hsplit : names ++ (p :: ps).map (·.name.lexeme) =
        (names ++ [p.name.lexeme]) ++ ps.map (·.name.lexeme) := by simp
    rw [hsplit] at hnodup ⊢
    have fresh : p.name.lexeme ∉ names := by
      have h := (List.nodup_append.1 hnodup).1
      intro hm
      exact (List.nodup_append.1 h).2.2 _ hm _ (List.mem_singleton_self _) rfl
    rw [Eval.parameters, Walk.parameters]
    refine followsIf_after ((site.define p.name v (Layout.declares_body.2 fresh)).mono ?_
      fun _ _ h => ⟨trivial, h⟩)
    intro _ r there
    rw [L.body_add] at there
    exact ⟨trivial, followsIf_bound_both trivial
      (Site.parameters ps vs _ (Nat.succ.inj hlen) hnodup there)⟩

theorem Store.Kept.function {may : Permits} {free : Option ScopeId} {s t : Store}
    (k : Store.Kept may free s t) {f : FunctionId} {c : Callable}
    (h : s.functions[f]? = some c) : t.functions[f]? = some c := by
  obtain ⟨added, e, -⟩ := k.functions
  rw [e, Array.getElem?_append]
  rw [if_pos (Array.getElem?_eq_some_iff.1 h).1]
  exact h

/-- There are as many fitted arguments as arguments. -/
theorem Eval.ends_arguments_length (function : String) (line : Nat) : ∀ (position : Nat)
    (types : List Ty) (values : List Value) (run : Run ω), values.length = types.length →
    (Eval.arguments function line position types values).Ends run
      (fun fitted _ => fitted.length = types.length) (fun _ _ => True)
  | _, [], [], _, _ => rfl
  | position, type :: types, v :: vs, run, h => by
    rw [Eval.arguments]
    refine Eval.ends_bind.2 ((Eval.ends_fitTo type v line _).2 ?_)
    cases Store.coerce type v run.store with
    | error m t => trivial
    | ok w t =>
      refine Eval.ends_bind.2 ((Eval.ends_arguments_length function line (position + 1) types vs _
        (Nat.succ.inj h)).mono (fun fitted r hf => ?_) fun _ _ h => h)
      exact congrArg Nat.succ hf

/-- The body of a function is evaluated at its place. -/
theorem placed_scriptFunction (outside : ∀ f ∈ setting.host.functions, f.Outside)
    (hcall : CallsPlaced P left setting fuel) {header : Header} {body : List Stmt}
    {closure : ScopeId} {cs : List ScopeId} (goods : run.store.Goods P left setting.globals)
    (there : setting.globals < run.store.scopes.size)
    (good : run.store.Good P setting.globals header body closure cs L) {values : List Value}
    (hlen : values.length = header.parameters.length) :
    FollowsIf (Event.Spares left setting) AnyOrder (Placed P setting.globals)
      (Eval.scriptFunction setting (Eval.call setting fuel) fuel header body closure values)
      (Walk.after (Eval.allocate (·.newScope (some closure))) fun scope =>
        Walk.thenAfter (Walk.parameters scope header.parameters values)
          (Eval.parameters scope header.parameters values) fun _ =>
            Walk.stmts setting fuel (Walk.call setting fuel) scope body) run
      (fun _ r => r.store.Goods P left setting.globals) (fun i _ => i.Mild) := by
  refine followsIf_after ((Eval.ends_allocate _).2 ⟨trivial, ?_⟩)
  have entered : Site P left True setting.globals _ (L.body []) _ _ cs :=
    Site.enterBody goods there good
  have bound : Arrives P left True setting _ _
      { run with store := (run.store.newScope (some closure)).2 } _ :=
    entered.parameters header.parameters values [] hlen good.nodup
  refine followsIf_bind (bound.mono ?_ fun _ _ _ h => h.2 trivial)
  intro _ r _ site
  refine followsIf_last ((arrives_stmts outside hcall body good.inside site).mono ?_
    fun _ _ _ h => h.2 trivial)
  intro signal r _ h
  cases signal <;> exact (Eval.ends_pure _).2 ⟨trivial, h⟩

/-- A call evaluates every expression at its place. -/
theorem placed_call (outside : ∀ f ∈ setting.host.functions, f.Outside)
    (hcall : CallsPlaced P left setting fuel) (goods : run.store.Goods P left setting.globals)
    (there : setting.globals < run.store.scopes.size) {f : FunctionId} (spared : ¬ left f)
    (values : List Value) (line : Nat) :
    FollowsIf (Event.Spares left setting) AnyOrder (Placed P setting.globals)
      (Eval.call setting (fuel + 1) f values line) (Walk.call setting (fuel + 1) f values line) run
      (fun _ _ => True) (fun i _ => i.Mild) := by
  have steady := steady_kept outside (.bodies left)
  have bodies : ∀ {r : Run ω}, Store.Kept (.bodies left) none run.store r.store →
      r.store.Bodies (.bodies left) := fun k => (goods.kept k).bodies
  -- What a function does behind its body is no event.
  have ends : ∀ (c : Callable) (v : Value) (r : Run ω), r.store.Bodies (.bodies left) →
      (Eval.result c line v).Ends r (fun _ r' => AnyOrder r.store r'.store ∧ True)
        (fun i r' => AnyOrder r.store r'.store ∧ i.Mild) := by
    intro c v r hb
    have moves : Moves setting (.bodies left) (Store.Kept (.bodies left)) (fun _ => True)
        Interrupt.Mild none r.store (Eval.result c line v) Walk.quiet :=
      moves_aside steady (fun _ h => h) (Eval.aside_result c line v)
    exact (moves r hb (steady.refl none _)).result.mono (fun _ _ _ => ⟨trivial, trivial⟩)
      (fun _ _ h => ⟨trivial, h.2⟩)
  rw [Eval.call, Walk.call]
  refine followsIf_after ((Eval.ends_ask _).2 ⟨trivial, ?_⟩)
  cases hc : run.store.functions[f]? with
  | none =>
    exact (follows_quiet ((Eval.ends_throw _).2 ⟨trivial, Interrupt.mild_error (by simp)⟩)).always
  | some c =>
    dsimp only
    split
    · exact (follows_quiet
        ((Eval.ends_throw _).2 ⟨trivial, Interrupt.mild_error (by simp)⟩)).always
    · next hlen =>
      have fits : Moves setting (.bodies left) (Store.Kept (.bodies left)) (fun _ => True)
          Interrupt.Mild none run.store
          (Eval.arguments c.name line 1 c.signature.parameters values) Walk.quiet :=
        moves_aside steady (fun _ h => h)
          (Eval.aside_arguments c.name line 1 c.signature.parameters values)
      have counted := Eval.ends_arguments_length c.name line 1 c.signature.parameters values run
        (Decidable.not_not.1 hlen)
      refine followsIf_after (((fits run goods.bodies (steady.refl none _)).result.and
        counted).mono ?_ fun _ _ h => ⟨trivial, h.1.2⟩)
      rintro fitted r ⟨⟨hb, k⟩, hfitted⟩
      refine ⟨trivial, ?_⟩
      cases c with
      | builtin b =>
        refine followsIf_last (((moves_builtin steady fitted b r hb k).imp
          fun _ h => h.2).mono ?_ fun _ _ _ h => h.2)
        exact fun v r' _ h => ends _ v r' h.1
      | host name signature =>
        refine followsIf_last (((moves_hostFunction steady name fitted r hb k).imp
          fun _ h => h.2).mono ?_ fun _ _ _ h => h.2)
        exact fun v r' _ h => ends _ v r' h.1
      | script header body closure =>
        have goods' := goods.kept k
        obtain ⟨cs, L, good⟩ := goods' (k.function hc) spared
        have complete : fitted.length = header.parameters.length :=
          hfitted.trans (List.length_map _)
        refine followsIf_last ((placed_scriptFunction outside hcall goods'
          (Nat.lt_of_lt_of_le there k.size) good complete).mono ?_ fun _ _ _ h => h)
        exact fun v r' _ h => ends _ v r' h.bodies

/-- All calls evaluate every expression at its place. -/
theorem callsPlaced (outside : ∀ f ∈ setting.host.functions, f.Outside) (fuel : Nat) :
    CallsPlaced P left setting fuel := by
  have steady := steady_kept outside (.bodies left)
  induction fuel with
  | zero => exact fun _ _ _ _ _ _ _ => moves_throw steady Interrupt.mild_exhausted
  | succ fuel ih =>
    intro s₀ goods there f values line spared run hb k
    have keeps := keeps_call setting steady (fuel + 1) none s₀ f values line spared run hb k
    have placed := placed_call outside ih (goods.kept k) (Nat.lt_of_lt_of_le there k.size) spared
      values line
    refine ((keeps.both placed).imp fun _ h => ⟨h.1.1, h.2⟩).mono ?_ ?_
    · intro _ r _ h
      exact h.1
    · intro _ r _ h
      exact ⟨h.1.1, h.2⟩

end Places

end TickScript
