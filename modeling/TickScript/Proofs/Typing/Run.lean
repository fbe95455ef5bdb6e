import TickScript.Proofs.Typing.Functions

/-!
# Typed runs

The run of a typed program is typed. Expressions and statements go by induction on their form,
rounds of loops and calls by induction on their bound. For statements the way in which they are
left is part of the induction: what is returned has the return type, and a statement that always
returns is never left at its end.
-/

namespace TickScript

open Walk

variable {ω : Type}

section Runs

variable {T : Types} {setting : Setting ω} {scope : ScopeId} {fuel : Nat}

theorem Types.At.root {s : Store} (h : T.At setting scope s) : T.At setting setting.globals s :=
  ⟨h.sound, Nat.le_refl _, Nat.lt_of_le_of_lt h.inside h.there⟩

/-- Calls of functions with arguments that their parameters accept are typed. -/
def CallsTyped (T : Types) (setting : Setting ω) (fuel : Nat) : Prop :=
  ∀ (run : Run ω) (f : FunctionId) (k : Callable) (values : List Value) (line : Nat),
    T.At setting setting.globals run.store → run.store.functions[f]? = some k → T.Provided k →
    (values.length = k.arity → List.Forall₂ (T.Accepts run.store) k.signature.parameters values) →
    (T.exact → values.length = k.arity) →
    T.Runs setting (Eval.call setting fuel f values line) (Walk.call setting fuel f values line) run
      (fun v s => s.Fits T.exact v k.signature.returnType)

/-! ## Expressions -/

/-- What fits an element can be converted to its kind, if types are exact. -/
theorem Store.Fits.converts {exact : Prop} {s : Store} {v : Value} {type : Ty} {element : Scalar}
    (h : s.Fits exact v type) (hwild : type.isWild = false)
    (hc : (Ty.scalar element).compatible type = true) (he : exact) :
    ∃ w, v.convert (.scalar element) = .ok w := by
  have fitted := h.coerce (show (Ty.scalar element).isWild = false from rfl) hwild hc
  rw [Store.coerce_plain s (by simp)] at fitted
  cases hr : v.convert (.scalar element) with
  | ok w => exact ⟨w, rfl⟩
  | error m =>
    rw [hr] at fitted
    exact absurd he fitted.2

/-- Values of arguments are accepted by the parameters that take their types. -/
theorem accepts_arguments {s : Store} : ∀ {arguments : List Expr} {parameters : List Ty}
    {values : List Value}, ExprsTyped T arguments →
    List.Forall₂ (fun parameter argument => parameter.compatible argument = true) parameters
      (arguments.map (Expr.type T.signatures)) →
    List.Forall₂ (fun e v => T.Gives e v s) arguments values →
    List.Forall₂ (T.Accepts s) parameters values
  | [], _, _, _, .nil, .nil => .nil
  | e :: es, _ :: _, _ :: _, typed, .cons hc hcs, .cons hv hvs => by
    rw [ExprsTyped] at typed
    exact .cons ⟨_, typed.1.2, hc, hv⟩ (accepts_arguments typed.2 hcs hvs)

/-- The callee of a call is an expression of its own. -/
theorem runs_callee_expr {run : Run ω} {signature : Signature} {id : ExprId} {name : Token}
    (place : T.At setting scope run.store)
    (hn : T.signatures.find? name.lexeme = some signature)
    (hf : T.exact → T.functions name.lexeme) :
    T.Runs setting (Eval.expr setting (Eval.call setting fuel) scope (.var id name))
      (Walk.expr setting fuel (Walk.call setting fuel) scope (.var id name)) run
      (fun v s => T.Callee signature s v ∨ ¬ T.exact ∧ ∀ f, v ≠ .function f) := by
  rw [Walk.expr]
  refine follows_leaf ⟨place.sound, fun he hno => absurd (hf he) (hno name rfl)⟩ ?_
  rw [Eval.expr]
  exact runs_callee place hn hf

mutual

/-- If calls are typed then so is the run of every typed expression. -/
theorem runs_expr (calls : CallsTyped T setting fuel) (scope : ScopeId) :
    (e : Expr) → e.Typed T → ∀ {run : Run ω}, T.At setting scope run.store →
      T.Runs setting (Eval.expr setting (Eval.call setting fuel) scope e)
        (Walk.expr setting fuel (Walk.call setting fuel) scope e) run (T.Gives e)
  | .literal id value line, _, run, place => by
    rw [Walk.expr]
    refine runs_leaf place.sound ?_
    rw [Eval.expr]
    refine runs_pure place.sound (Store.HasShape.fits ?_)
    cases value <;> rfl
  | .grouping id inner, typed, run, place => by
    rw [Expr.Typed] at typed
    rw [Walk.expr]
    refine runs_here place.sound ?_
    rw [Eval.expr]
    exact runs_expr calls scope inner typed place
  | .unary id operator right, typed, run, place => by
    rw [Expr.Typed] at typed
    rw [Walk.expr]
    refine runs_here place.sound ?_
    rw [Eval.expr]
    refine runs_last (runs_expr calls scope right typed.1 place) fun v r _ hs hv => ?_
    refine runs_same hs ((Eval.ends_demand _).2 ?_)
    have results := Operator.results_unary hv typed.2
    cases hu : Operator.unary operator v with
    | ok w =>
      rw [hu] at results
      exact ⟨rfl, results⟩
    | error fault =>
      rw [hu] at results
      exact ⟨rfl, results⟩
  | .binary id left operator right, typed, run, place => by
    rw [Expr.Typed] at typed
    obtain ⟨hl, hr, hk, ho⟩ := typed
    rw [Walk.expr]
    refine runs_here place.sound ?_
    rw [Eval.expr]
    refine runs_bind (runs_expr calls scope left hl place) fun l r₁ hl₁ hs₁ hlv => ?_
    refine runs_last (runs_expr calls scope right hr (place.later hs₁ hl₁)) fun v r₂ hl₂ hs₂ hrv => ?_
    refine runs_same hs₂ ((Eval.ends_demand _).2 ?_)
    have results := Operator.results_binary (hlv.later hl₂) hrv hk ho
    cases hu : Operator.binary r₂.store operator l v with
    | ok w =>
      rw [hu] at results
      exact ⟨rfl, results⟩
    | error fault =>
      rw [hu] at results
      exact ⟨rfl, results⟩
  | .logical id left operator right, typed, run, place => by
    rw [Expr.Typed] at typed
    obtain ⟨hl, hr, htl, htr⟩ := typed
    rw [Walk.expr]
    refine runs_here place.sound ?_
    rw [Eval.expr]
    refine runs_bind (runs_expr calls scope left hl place) fun l r₁ hl₁ hs₁ hlv => ?_
    split
    · rw [Types.Gives, htl] at hlv
      exact runs_pure hs₁ hlv
    · refine (runs_expr calls scope right hr (place.later hs₁ hl₁)).mono fun v s hv => ?_
      rw [Types.Gives, htr] at hv
      exact hv
  | .var id name, typed, run, place => by
    rw [Expr.Typed] at typed
    rw [Walk.expr]
    refine runs_leaf place.sound ?_
    rw [Eval.expr]
    exact runs_read place typed
  | .index id name position, typed, run, place => by
    rw [Expr.Typed] at typed
    obtain ⟨hp, htp, hn, element, ht⟩ := typed
    rw [Walk.expr]
    refine runs_here place.sound ?_
    rw [Eval.expr]
    refine runs_after (runs_read place hn) fun target r₁ hl₁ hs₁ htarget => ?_
    refine runs_last (runs_expr calls scope position hp (place.later hs₁ hl₁))
      fun index r₂ hl₂ hs₂ hindex => ?_
    rw [Types.Gives, htp] at hindex
    rw [ht] at htarget
    refine (runs_item hs₂ (htarget.later hl₂) hindex).mono fun w s hw => ?_
    rw [Types.Gives, Expr.type, ht]
    exact hw
  | .assign id name value, typed, run, place => by
    rw [Expr.Typed] at typed
    obtain ⟨hv, hn, hwild, hc⟩ := typed
    rw [Walk.expr]
    refine runs_here place.sound ?_
    rw [Eval.expr]
    refine runs_last (runs_expr calls scope value hv place) fun v r hl hs hval => ?_
    exact (runs_assign (place.later hs hl) hn hval hwild hc).mono fun w s hw => hw.fits
  | .assignIndex id name position value, typed, run, place => by
    rw [Expr.Typed] at typed
    obtain ⟨hp, hv, htp, hn, hwild, element, ht, hc⟩ := typed
    rw [Walk.expr]
    refine runs_here place.sound ?_
    rw [Eval.expr]
    refine runs_bind (runs_expr calls scope position hp place) fun index r₁ hl₁ hs₁ hindex => ?_
    have place₁ := place.later hs₁ hl₁
    refine runs_last (runs_expr calls scope value hv place₁) fun v r₂ hl₂ hs₂ hval => ?_
    rw [Types.Gives, htp] at hindex
    refine (runs_assignItem (place₁.later hs₂ hl₂) hn ht (hindex.later hl₂) hval hwild hc).mono
      fun w s hw => ?_
    rw [Types.Gives, Expr.type, ht]
    exact hw.fits
  | .assignElements id name elements, typed, run, place => by
    rw [Expr.Typed] at typed
    obtain ⟨hn, element, ht, hes⟩ := typed
    rw [Walk.expr]
    refine runs_here place.sound ?_
    rw [Eval.expr]
    refine runs_last (runs_elements calls scope element elements hes place) fun vs r hl hs hvs => ?_
    exact (runs_assign_new (place.later hs hl) hn ht hvs).mono fun w s hw => hw.fits
  | .call id callee paren arguments, typed, run, place => by
    rw [Expr.Typed] at typed
    obtain ⟨hargs, i, name, signature, rfl, hfind, hf, hcs⟩ := typed
    rw [Walk.expr]
    refine runs_here place.sound ?_
    rw [Eval.expr]
    refine runs_bind (runs_callee_expr place hfind hf) fun function r₁ hl₁ hs₁ hcallee => ?_
    have place₁ := place.later hs₁ hl₁
    refine runs_bind (runs_exprs calls scope arguments hargs place₁) fun values r₂ hl₂ hs₂ hvs => ?_
    have accepted := accepts_arguments hargs hcs hvs
    have result : (Expr.call id (.var i name) paren arguments).type T.signatures =
        signature.returnType := by
      rw [Expr.type, hfind]
      rfl
    -- Where types are not exact, a variable may hide the function, and then the call fails.
    rcases hcallee with ⟨f, k, rfl, hk, hp, rfl⟩ | ⟨hweak, hno⟩
    · refine (calls r₂ f k values paren.line (place₁.later hs₂ hl₂).root (hl₂.functions f k hk) hp
        (fun _ => accepted) fun _ => accepted.length_eq.symm).mono fun v s hv => ?_
      rw [Types.Gives, result]
      exact hv
    · cases function with
      | function f => exact absurd rfl (hno f)
      | _ => exact runs_throw hs₂ fun he => absurd he hweak

theorem runs_exprs (calls : CallsTyped T setting fuel) (scope : ScopeId) :
    (es : List Expr) → ExprsTyped T es → ∀ {run : Run ω}, T.At setting scope run.store →
      T.Runs setting (Eval.exprs setting (Eval.call setting fuel) scope es)
        (Walk.exprs setting fuel (Walk.call setting fuel) scope es) run
        (fun vs s => List.Forall₂ (fun e v => T.Gives e v s) es vs)
  | [], _, run, place => by
    rw [Eval.exprs, Walk.exprs]
    exact runs_pure place.sound .nil
  | e :: es, typed, run, place => by
    rw [ExprsTyped] at typed
    rw [Eval.exprs, Walk.exprs]
    refine runs_bind (runs_expr calls scope e typed.1.1 place) fun v r₁ hl₁ hs₁ hv => ?_
    refine runs_last (runs_exprs calls scope es typed.2 (place.later hs₁ hl₁))
      fun vs r₂ hl₂ hs₂ hvs => ?_
    exact runs_pure hs₂ (.cons (hv.later hl₂) hvs)

theorem runs_elements (calls : CallsTyped T setting fuel) (scope : ScopeId) (element : Scalar) :
    (es : List Expr) → ElementsTyped T element es → ∀ {run : Run ω}, T.At setting scope run.store →
      T.Runs setting (Eval.exprs setting (Eval.call setting fuel) scope es)
        (Walk.exprs setting fuel (Walk.call setting fuel) scope es) run
        (fun vs _ => T.Elements element vs)
  | [], _, run, place => by
    rw [Eval.exprs, Walk.exprs]
    exact runs_pure place.sound fun _ _ hv => by cases hv
  | e :: es, typed, run, place => by
    rw [ElementsTyped] at typed
    obtain ⟨⟨he, hwild, hc⟩, hes⟩ := typed
    rw [Eval.exprs, Walk.exprs]
    refine runs_bind (runs_expr calls scope e he place) fun v r₁ hl₁ hs₁ hv => ?_
    refine runs_last (runs_elements calls scope element es hes (place.later hs₁ hl₁))
      fun vs r₂ hl₂ hs₂ hvs => ?_
    refine runs_pure hs₂ fun hexact u hu => ?_
    rcases List.mem_cons.1 hu with rfl | hu
    · exact hv.converts hwild hc hexact
    · exact hvs hexact u hu

end

/-! ## Statements -/

/-- How a typed statement is left: at its end only if it does not always return, by a `break` only
if it has one of the loop around it, and with a value of the return type of the function. -/
def Types.Leaves (T : Types) (returnType : Option Ty) (inLoop returns breaks : Bool) :
    Signal → Store → Prop
  | .normal, _ => returns = false
  | .break, _ => inLoop = true ∧ breaks = true
  | .continue, _ => inLoop = true
  | .return v, s => ∃ type, returnType = some type ∧ s.Fits T.exact v type

theorem runs_holds (calls : CallsTyped T setting fuel) (scope : ScopeId) (e : Expr)
    (typed : e.Typed T) {run : Run ω} (place : T.At setting scope run.store) :
    T.Runs setting (Eval.holds setting (Eval.call setting fuel) scope e)
      (Walk.expr setting fuel (Walk.call setting fuel) scope e) run
      (fun holds _ => holds = false → e.isTrue = false) := by
  have expr := runs_expr calls scope e typed place
  rw [Eval.holds]
  cases hi : e.isTrue with
  | false => exact runs_last expr fun v r _ hs _ => runs_pure hs fun _ => rfl
  | true =>
    -- The literal `true` has no other value.
    have truth : ∃ id line, e = .literal id (.bool true) line := by
      cases e with
      | literal id value line =>
        cases value with
        | bool b => exact ⟨id, line, by rw [show b = true from hi]⟩
        | _ => cases hi
      | _ => cases hi
    obtain ⟨id, line, rfl⟩ := truth
    rw [Walk.expr]
    refine follows_leaf (good_evaluates place.sound expr) ?_
    rw [Eval.expr, pure_bind]
    exact follows_pure ⟨place.sound, fun h => by cases h⟩

theorem runs_rounds {test : Eval ω Bool} {testWalk : Walk ω} {body : Eval ω Signal}
    {bodyWalk : Walk ω} {returnType : Option Ty} {inLoop endless returns breaks : Bool}
    (ht : ∀ {run : Run ω}, T.At setting scope run.store →
      T.Runs setting test testWalk run (fun holds _ => holds = false → endless = false))
    (hb : ∀ {run : Run ω}, T.At setting scope run.store →
      T.Runs setting body bodyWalk run (T.Leaves returnType true returns breaks)) (limit : Nat) :
    ∀ {run : Run ω}, T.At setting scope run.store →
      T.Runs setting (Eval.rounds test body limit) (Walk.rounds test testWalk body bodyWalk limit)
        run (T.Leaves returnType inLoop (endless && !breaks) false) := by
  induction limit with
  | zero => exact fun place => runs_throw place.sound fun _ => trivial
  | succ limit ih =>
    intro run place
    rw [Eval.rounds, Walk.rounds]
    refine runs_bind (ht place) fun holds r₁ hl₁ hs₁ hholds => ?_
    have place₁ := place.later hs₁ hl₁
    cases holds with
    | false =>
      refine runs_pure hs₁ ?_
      rw [Types.Leaves, hholds rfl, Bool.false_and]
    | true =>
      refine runs_bind (hb place₁) fun signal r₂ hl₂ hs₂ hsignal => ?_
      cases signal with
      | normal => exact ih (place₁.later hs₂ hl₂)
      | «continue» => exact ih (place₁.later hs₂ hl₂)
      | «break» =>
        refine runs_pure hs₂ ?_
        rw [Types.Leaves, hsignal.2, Bool.not_true, Bool.and_false]
      | «return» v => exact runs_pure hs₂ hsignal

/-- The initial value of a variable is evaluated and fitted. -/
theorem runs_initial (calls : CallsTyped T setting fuel) (scope : ScopeId) {type : Ty}
    (ht : type.isData = true) (line : Nat) (fault : Mismatch → Fault) (start : Initializer)
    (typed : start.Typed T type) {run : Run ω} (place : T.At setting scope run.store) :
    T.Runs setting
      (Eval.initial setting (Eval.call setting fuel) scope type start >>= fun v =>
        Eval.fitTo type v line fault)
      (Walk.initial setting fuel (Walk.call setting fuel) scope start) run
      (fun w s => s.HasShape w type) := by
  have hwild := Ty.not_wild_of_isData ht
  cases start with
  | zero =>
    refine runs_last (runs_zero place.sound ht) fun v r _ hs hv => ?_
    exact runs_fit hs hv.fits hwild hwild (Ty.compatible_self hwild)
  | value e =>
    obtain ⟨he, hval, hc⟩ := typed
    refine runs_last (runs_expr calls scope e he place) fun v r _ hs hv => ?_
    exact runs_fit hs hv hwild hval hc
  | elements es =>
    obtain ⟨element, rfl, hes⟩ := typed
    rw [Eval.initial, bind_assoc]
    refine runs_last (runs_elements calls scope element es hes place) fun vs r _ hs hvs => ?_
    exact runs_fit_new hs hvs

/-- Events that follow two steps follow the two as one. -/
theorem thenAfter_after {α β : Type} (walk : Walk ω) (x : Eval ω β) (f : β → Eval ω α)
    (next : α → Walk ω) :
    thenAfter walk x (fun b => after (f b) next) = thenAfter walk (x >>= f) next := by
  funext run
  simp only [thenAfter, both, after]
  congr 1
  rw [show (x >>= f) run = EStateM.bind x f run from rfl]
  unfold EStateM.bind
  cases x run <;> rfl

mutual

/-- If calls are typed then so is the run of every typed statement. -/
theorem runs_stmt (calls : CallsTyped T setting fuel) :
    (st : Stmt) → ∀ {returnType : Option Ty} {inLoop : Bool} {scope : ScopeId} {run : Run ω},
      st.Typed T returnType inLoop → T.At setting scope run.store →
      T.Runs setting (Eval.stmt setting (Eval.call setting fuel) fuel scope st)
        (Walk.stmt setting fuel (Walk.call setting fuel) scope st) run
        (T.Leaves returnType inLoop st.alwaysReturns st.breaksOut)
  | .expression e, _, _, scope, run, typed, place => by
    rw [Stmt.Typed] at typed
    rw [Eval.stmt, Walk.stmt]
    exact runs_last (runs_expr calls scope e typed place) fun _ _ _ hs _ => runs_pure hs rfl
  | .block body, _, _, scope, run, typed, place => by
    rw [Stmt.Typed] at typed
    rw [Eval.stmt, Walk.stmt]
    refine runs_after (runs_newScope place.root place.inside) fun inner r _ _ place' => ?_
    exact runs_stmts calls body typed place'
  | .declare name type start, _, _, scope, run, typed, place => by
    rw [Stmt.Typed] at typed
    obtain ⟨hd, hstart⟩ := typed
    rw [Eval.stmt, Walk.stmt, thenAfter_after, ← bind_assoc]
    refine runs_bind (runs_initial calls scope hd.data name.line _ start hstart place)
      fun w r₁ hl₁ hs₁ hw => ?_
    have place₁ := place.later hs₁ hl₁
    refine runs_after (runs_define place₁ hd hw) fun _ r₂ hl₂ hs₂ hbound => ?_
    exact follows_bound (good_binds (place₁.later hs₂ hl₂) hd hbound) ⟨hs₂, rfl⟩
  | .ifThen keyword test yes, _, _, scope, run, typed, place => by
    rw [Stmt.Typed] at typed
    rw [Eval.stmt, Walk.stmt]
    refine runs_bind (runs_holds calls scope test typed.1 place) fun holds r hl hs _ => ?_
    split
    · exact (runs_stmt calls yes typed.2 (place.later hs hl)).mono fun signal s h => by
        cases signal <;> first | rfl | exact h
    · exact runs_pure hs rfl
  | .ifElse keyword test yes no, _, _, scope, run, typed, place => by
    rw [Stmt.Typed] at typed
    obtain ⟨ht, hy, hn⟩ := typed
    rw [Eval.stmt, Walk.stmt]
    refine runs_bind (runs_holds calls scope test ht place) fun holds r hl hs _ => ?_
    have place' := place.later hs hl
    split
    · refine (runs_stmt calls yes hy place').mono fun signal s h => ?_
      cases signal with
      | normal => simp [Types.Leaves, Stmt.alwaysReturns, show yes.alwaysReturns = false from h]
      | «break» => exact ⟨h.1, by rw [Stmt.breaksOut, h.2, Bool.true_or]⟩
      | _ => exact h
    · refine (runs_stmt calls no hn place').mono fun signal s h => ?_
      cases signal with
      | normal => simp [Types.Leaves, Stmt.alwaysReturns, show no.alwaysReturns = false from h]
      | «break» => exact ⟨h.1, by rw [Stmt.breaksOut, h.2, Bool.or_true]⟩
      | _ => exact h
  | .while keyword test body, _, _, scope, run, typed, place => by
    rw [Stmt.Typed] at typed
    rw [Eval.stmt, Walk.stmt]
    exact runs_rounds (fun place => runs_holds calls scope test typed.1 place)
      (fun place => runs_stmt calls body typed.2 place) fuel place
  | .return keyword none, _, _, scope, run, typed, place => by
    rw [Stmt.Typed] at typed
    rw [Eval.stmt, Walk.stmt]
    exact runs_pure place.sound ⟨.void, typed, Store.HasShape.fits rfl⟩
  | .return keyword (some e), _, _, scope, run, typed, place => by
    rw [Stmt.Typed] at typed
    rw [Eval.stmt, Walk.stmt]
    exact runs_last (runs_expr calls scope e typed.1 place) fun v r _ hs hv =>
      runs_pure hs ⟨_, typed.2, hv⟩
  | .break keyword, _, _, scope, run, typed, place => by
    rw [Stmt.Typed] at typed
    rw [Eval.stmt, Walk.stmt]
    exact runs_pure place.sound ⟨typed, rfl⟩
  | .continue keyword, _, _, scope, run, typed, place => by
    rw [Stmt.Typed] at typed
    rw [Eval.stmt, Walk.stmt]
    exact runs_pure place.sound typed
  | .function header body, _, _, scope, run, typed, place => by
    rw [Stmt.Typed] at typed
    rw [Eval.stmt, Walk.stmt, ← bind_assoc]
    exact runs_last (runs_function place (by rw [Stmt.Typed]; exact typed)) fun _ _ _ hs _ =>
      runs_pure hs rfl

theorem runs_stmts (calls : CallsTyped T setting fuel) :
    (ss : List Stmt) → ∀ {returnType : Option Ty} {inLoop : Bool} {scope : ScopeId} {run : Run ω},
      StmtsTyped T returnType inLoop ss → T.At setting scope run.store →
      T.Runs setting (Eval.stmts setting (Eval.call setting fuel) fuel scope ss)
        (Walk.stmts setting fuel (Walk.call setting fuel) scope ss) run
        (T.Leaves returnType inLoop (alwaysReturnsIn ss) (anyBreaksOut ss))
  | [], _, _, scope, run, _, place => by
    rw [Eval.stmts, Walk.stmts]
    exact runs_pure place.sound rfl
  | st :: ss, _, _, scope, run, typed, place => by
    rw [StmtsTyped] at typed
    rw [Eval.stmts, Walk.stmts]
    refine runs_bind (runs_stmt calls st typed.1 place) fun signal r hl hs h => ?_
    cases signal with
    | normal =>
      refine (runs_stmts calls ss typed.2 (place.later hs hl)).mono fun signal s h' => ?_
      cases signal with
      | normal =>
        rw [Types.Leaves, alwaysReturnsIn, show st.alwaysReturns = false from h, Bool.false_or]
        exact h'
      | «break» => exact ⟨h'.1, by rw [anyBreaksOut, h'.2, Bool.or_true]⟩
      | _ => exact h'
    | «break» => exact runs_pure hs ⟨h.1, by rw [anyBreaksOut, h.2, Bool.true_or]⟩
    | «continue» => exact runs_pure hs h
    | «return» v => exact runs_pure hs h

end

/-! ## Calls -/

/-- A script function binds its parameters in a new scope and runs its body there. -/
theorem runs_scriptFunction (calls : CallsTyped T setting fuel) {run : Run ω}
    (place : T.At setting setting.globals run.store) {header : Header} {body : List Stmt}
    {closure : ScopeId} (hc : setting.globals ≤ closure)
    (typed : (Stmt.function header body).Typed T none false) {values : List Value}
    (hvs : List.Forall₂ run.store.Suits (header.parameters.map Parameter.type) values) :
    T.Runs setting
      (Eval.scriptFunction setting (Eval.call setting fuel) fuel header body closure values)
      (after (Eval.allocate (·.newScope (some closure))) fun scope =>
        thenAfter (Walk.parameters scope header.parameters values)
          (Eval.parameters scope header.parameters values) fun _ =>
            Walk.stmts setting fuel (Walk.call setting fuel) scope body) run
      (fun v s => T.Returns s header.returnType v) := by
  rw [Stmt.Typed] at typed
  obtain ⟨hd, hbody, hmust⟩ := typed
  rw [Eval.scriptFunction]
  refine runs_after (runs_newScope place hc) fun scope r₁ hl₁ _ place₁ => ?_
  have hvs₁ : List.Forall₂ r₁.store.Suits (header.parameters.map Parameter.type) values :=
    hvs.imp fun _ _ hv hwild => (hv hwild).later hl₁
  refine runs_bind (runs_parameters place₁ hd.parameters hvs₁) fun _ r₂ hl₂ hs₂ _ => ?_
  refine runs_last (runs_stmts calls body hbody (place₁.later hs₂ hl₂)) fun signal r₃ _ hs₃ h => ?_
  cases signal with
  | «return» v =>
    obtain ⟨type, htype, hv⟩ := h
    cases htype
    exact runs_pure hs₃ hv.returns
  | «break» => cases h.1
  | «continue» => cases h
  | normal =>
    refine runs_pure hs₃ ⟨by simp, fun _ hvoid => ?_⟩
    have must : Resolve.mustReturn header.returnType = true := by
      simp [Resolve.mustReturn, hd.result, hvoid]
    rw [show alwaysReturnsIn body = false from h] at hmust
    cases hmust must

/-- All calls are typed. -/
theorem callsTyped (served : T.Served setting.host) (fuel : Nat) : CallsTyped T setting fuel := by
  induction fuel with
  | zero => exact fun _ _ _ _ _ place _ _ _ _ => runs_throw place.sound fun _ => trivial
  | succ fuel ih =>
    intro run f k values line place hk hp haccept harity
    rw [Eval.call, Walk.call]
    refine follows_after ((Eval.ends_ask _).2 ⟨StoreOrder.refl _, ?_⟩)
    rw [hk]
    dsimp only
    show T.Runs setting _ _ run fun v s => s.Fits T.exact v k.signature.returnType
    by_cases hlen : values.length = k.arity
    · rw [if_neg (not_not.2 hlen), if_neg (not_not.2 hlen)]
      refine runs_after (runs_arguments place.sound k.name line (haccept hlen))
        fun fitted r hl hs hfitted => ?_
      have place' := place.later hs hl
      have hk' := hl.functions f k hk
      cases k with
      | script header body closure =>
        obtain ⟨hc, typed⟩ := hs.functions f header body closure hk'
        have hwild : header.returnType.isWild = false := by
          rw [Stmt.Typed] at typed
          exact typed.1.result
        refine runs_last (runs_scriptFunction ih place' hc typed hfitted) fun v r' _ hs' hv => ?_
        exact runs_result hs' _ line hwild hv
      | builtin b =>
        refine runs_last (runs_builtin hs fitted b) fun v r' _ hs' hv => ?_
        exact runs_result hs' (.builtin b) line (by cases b <;> rfl) hv.fits.returns
      | host name signature =>
        refine runs_last (runs_hostFunction served hs (hp name signature rfl) fitted)
          fun v r' _ hs' hv => ?_
        exact runs_result hs' (.host name signature) line hv.1 hv.2
    · rw [if_pos hlen, if_pos hlen]
      exact runs_throw place.sound fun he => absurd (harity he) hlen

/-! ## Requests -/

/-- The run of a typed program is typed. -/
theorem runs_program (served : T.Served setting.host) {statements : List Stmt}
    (typed : StmtsTyped T none false statements) {run : Run ω}
    (place : T.At setting setting.globals run.store) :
    T.Runs setting (Eval.program setting fuel statements) (Walk.program setting fuel statements) run
      (fun _ _ => True) :=
  runs_last (runs_stmts (callsTyped served fuel) statements typed place) fun _ _ _ hs _ =>
    runs_pure hs trivial

/-- The call of a name from outside is typed. If types are exact then the name must be that of a
function without parameters. -/
theorem runs_detached (served : T.Served setting.host) {name : String} {signature : Signature}
    (hn : T.signatures.find? name = some signature) (hf : T.exact → T.functions name)
    (hp : T.exact → signature.parameters = []) {run : Run ω}
    (place : T.At setting setting.globals run.store) :
    T.Runs setting (Eval.detached setting fuel (.globalCall name))
      (Walk.detached setting fuel (.globalCall name)) run
      (fun v s => s.Fits T.exact v signature.returnType) := by
  have result : (Expr.globalCall name).type T.signatures = signature.returnType := by
    rw [Expr.globalCall, Expr.type, Token.synthetic, hn]
    rfl
  rw [← result]
  rw [Eval.detached, Walk.detached, Expr.globalCall, Walk.expr]
  refine runs_here place.sound ?_
  rw [Eval.expr]
  refine runs_bind (runs_callee_expr place hn hf) fun function r₁ hl₁ hs₁ hcallee => ?_
  have place₁ := place.later hs₁ hl₁
  have calls := callsTyped served fuel
  refine runs_bind (runs_exprs calls setting.globals [] trivial place₁) fun values r₂ hl₂ hs₂ hvs => ?_
  cases hvs
  rcases hcallee with ⟨f, k, rfl, hk, hprov, rfl⟩ | ⟨hweak, hno⟩
  · refine (calls r₂ f k [] _ (place₁.later hs₂ hl₂).root (hl₂.functions f k hk) hprov ?_ ?_).mono
      fun v s hv => ?_
    · intro hlen
      rw [List.length_eq_zero_iff.1 hlen.symm]
      exact .nil
    · intro he
      rw [Callable.arity, hp he]
      rfl
    · show s.Fits T.exact v ((Expr.globalCall name).type T.signatures)
      rw [result]
      exact hv
  · cases function with
    | function f => exact absurd rfl (hno f)
    | _ => exact runs_throw hs₂ fun he => absurd he hweak

end Runs

end TickScript
