import TickScript.Proofs.Roles.Charts

/-!
# Runs keep to their charts

Whatever a program does, its store goes on agreeing with a chart. The one place where this could
fail is a name that gets a value: a value that has been fitted to a type is no function, and a
name without such a type is that of a function already. On the way functions that nobody assigns
to stay what they are.

Expressions and statements go by induction on their form, rounds of loops and calls by induction
on their bound. In a new scope the run goes on with a larger chart, and behind it with the store
and the chart that it left there.
-/

namespace TickScript

open Walk

variable {ω : Type}

/-- What fits a type that says something is no function. -/
theorem Store.inert_of_coerce {type : Ty} {v w : Value} {s t : Store} (hwild : type.isWild = false)
    (h : Store.coerce type v s = .ok w t) : w.Inert := by
  rcases Store.array_or_plain type v with ⟨element, a, rfl, rfl⟩ | hplain
  · rw [Store.coerce_array] at h
    split at h
    · cases h
      exact fun f hf => by cases hf
    · cases h
  · rw [Store.coerce_plain s hplain] at h
    cases hc : v.convert type with
    | error m =>
      rw [hc] at h
      cases h
    | ok w' =>
      rw [hc] at h
      cases h
      rintro f rfl
      exact Store.not_shape_function f type (Store.shape_convert (s := s) hwild hplain hc)

namespace Roles

variable {R : Roles} {setting : Setting ω} {chart : Chart} {s : Store} {α β : Type}

/-- Expressions aim right in this setting, the functions of its host keep out of scopes, and its
variables have types that say something. -/
structure Serves (R : Roles) (setting : Setting ω) : Prop where
  outside : ∀ f ∈ setting.host.functions, f.Outside
  data : ∀ v ∈ setting.host.externals, v.type.isWild = false
  aims : ∀ Fs e, R.stands Fs e → R.Aims setting.distances Fs e

/-- From every store that is reached from `s`, the run of `act` stays in such stores. Functions
last on the way, expressions are evaluated where they stand, and a value satisfies `ok`. -/
def Stays (R : Roles) (setting : Setting ω) (chart : Chart) (s : Store) (act : Eval ω α)
    (walk : Walk ω) (ok : α → Prop) : Prop :=
  ∀ run : Run ω, R.Reaches setting.globals chart s run.store →
    Follows (Store.Lasts R.lasting) (R.Meets setting.globals) act walk run
      (fun a r => R.Reaches setting.globals chart s r.store ∧ ok a)
      (fun _ r => R.Reaches setting.globals chart s r.store)

/-! ## Parts -/

section Rules

variable {ok : α → Prop} {middle : β → Prop} {act : Eval ω α} {walk : Walk ω} {x : Eval ω β}
  {f : β → Eval ω α} {next : β → Walk ω}

theorem stays_bind (hx : R.Stays setting chart s x walk middle)
    (hf : ∀ b, middle b → R.Stays setting chart s (f b) (next b) ok) :
    R.Stays setting chart s (x >>= f) (thenAfter walk x next) ok :=
  fun run h => follows_bind ((hx run h).mono (fun b r _ hr => hf b hr.2 r hr.1) fun _ _ _ hr => hr)

theorem stays_after (hx : R.Stays setting chart s x quiet middle)
    (hf : ∀ b, middle b → R.Stays setting chart s (f b) (next b) ok) :
    R.Stays setting chart s (x >>= f) (after x next) ok := by
  have hw : after x next = thenAfter quiet x next := by
    funext r
    simp [thenAfter, both, quiet]
  rw [hw]
  exact stays_bind hx hf

theorem stays_last (hx : R.Stays setting chart s x walk middle)
    (hf : ∀ b, middle b → R.Stays setting chart s (f b) quiet ok) :
    R.Stays setting chart s (x >>= f) walk ok := by
  intro run h
  refine follows_last ((hx run h).mono (fun b r _ hr => ?_) fun _ _ _ hr => hr)
  have rest := (hf b hr.2 r hr.1).ends
  exact rest.mono (fun _ _ p => ⟨(ordered_iff.1 p.1).1, p.2⟩)
    fun _ _ p => ⟨(ordered_iff.1 p.1).1, p.2⟩

/-- Behind a part that began with another chart, the run goes on with the one before it. -/
theorem Stays.rebase {chart' : Chart} {t : Store} (h : R.Stays setting chart' t act walk ok)
    (ho : Store.Onward chart s chart' t) {run : Run ω}
    (hr : R.Reaches setting.globals chart' t run.store) :
    Follows (Store.Lasts R.lasting) (R.Meets setting.globals) act walk run
      (fun a r => R.Reaches setting.globals chart s r.store ∧ ok a)
      (fun _ r => R.Reaches setting.globals chart s r.store) :=
  (h run hr).mono (fun _ _ _ hr => ⟨hr.1.after ho, hr.2⟩) fun _ _ _ hr => hr.after ho

/-- A step that touches nothing but arrays. -/
theorem stays_aside (h : act.Aside)
    (hok : ∀ run : Run ω, act.Ends run (fun a _ => ok a) fun _ _ => True) :
    R.Stays setting chart s act quiet ok := by
  intro run ⟨chart', ho, hc⟩
  have step : ∀ {r : Run ω}, r.store.scopes = run.store.scopes →
      r.store.functions = run.store.functions →
      Store.Lasts R.lasting run.store r.store ∧ R.Reaches setting.globals chart s r.store := by
    intro r hs hf
    have hadded : r.store.functions = run.store.functions ++ #[] := by simp [hf]
    exact ⟨.of_scopes hs hadded,
      (hc.aside hs hadded (by simp)).reaches.after (ho.trans (.of_scopes hs))⟩
  refine follows_quiet (((h run).and (hok run)).mono ?_ ?_)
  · rintro a r ⟨⟨hs, hf⟩, ha⟩
    exact ⟨(step hs hf).1, (step hs hf).2, ha⟩
  · rintro i r ⟨⟨⟨hs, hf⟩, -⟩, -⟩
    exact step hs hf

theorem stays_quiet (h : act.Aside) : R.Stays setting chart s act quiet fun _ => True :=
  stays_aside h fun _ => .intro (fun _ _ _ => trivial) fun _ _ _ => trivial

theorem stays_pure {a : α} (h : ok a) : R.Stays setting chart s (pure a) quiet ok :=
  stays_aside (Eval.aside_pure a) fun _ => (Eval.ends_pure a).2 h

theorem stays_throw (i : Interrupt) : R.Stays setting chart s (throw i : Eval ω α) quiet ok :=
  fun _ h => follows_quiet ((Eval.ends_throw i).2 ⟨StoreOrder.refl _, h⟩)

end Rules

/-! ## Steps -/

section Steps

variable {scope : ScopeId} {Fs : List Frame} {ok : α → Prop}

/-- What is fitted to a type that says something is no function. -/
theorem stays_fitTo (type : Ty) (v : Value) (line : Nat) {fault : Mismatch → Fault}
    (h : ∀ m name, fault m ≠ .alreadyDefined name) :
    R.Stays setting chart s (Eval.fitTo type v line fault) quiet
      fun w => type.isWild = false → w.Inert := by
  refine stays_aside (Eval.aside_fitTo type v line h) fun run => (Eval.ends_fitTo _ _ _ _).2 ?_
  cases hc : Store.coerce type v run.store with
  | ok w t => exact fun hwild => Store.inert_of_coerce hwild hc
  | error m t => trivial

/-- An assignment keeps to the chart, if a name that can be assigned any value is a function where
it is found, and none is found that lasts. -/
theorem stays_assigned (at' : Setting ω) (id : ExprId) (name : Token) (v : Value)
    (allowed : ∀ {chart' : Chart} {t : Store} {c : ScopeId}, Store.Onward chart s chart' t →
      R.Charted setting.globals chart' t → Eval.found at' scope id name t = some c →
      (name.type.isWild = true → chart' c name.lexeme = true ∧ ∀ f, ¬ R.left f) ∧
        (R.lasting name.lexeme → ∀ f, t.lookup c name.lexeme ≠ some (.function f))) :
    R.Stays setting chart s (Eval.assign at' scope id name v) quiet fun _ => True := by
  intro run ⟨chart', ho, hc⟩
  have reached : R.Reaches setting.globals chart s run.store := ⟨chart', ho, hc⟩
  refine follows_quiet (Eval.ends_assign_found ⟨StoreOrder.refl _, reached⟩ fun c hf => ?_)
  obtain ⟨hwild, hlast⟩ := allowed ho hc hf
  have frame := Store.coerce_frame name.type v run.store
  cases hr : Store.coerce name.type v run.store with
  | error m t =>
    obtain ⟨hs, hf⟩ := frame.2 m t hr
    have hadded : t.functions = run.store.functions ++ #[] := by simp [hf]
    exact ⟨.of_scopes hs hadded,
      (hc.aside hs hadded (by simp)).reaches.after (ho.trans (.of_scopes hs))⟩
  | ok w t =>
    obtain ⟨hs, hfun⟩ := frame.1 w t hr
    have hadded : t.functions = run.store.functions ++ #[] := by simp [hfun]
    have charted : R.Charted setting.globals chart' t := hc.aside hs hadded (by simp)
    -- Only a name that is a function there can get a function.
    have kind : ∀ f, w = .function f → chart' c name.lexeme = true ∧ ¬ R.left f := by
      intro f hw
      cases ht : name.type.isWild with
      | false => exact absurd hw (Store.inert_of_coerce ht hr f)
      | true => exact ⟨(hwild ht).1, (hwild ht).2 f⟩
    refine ⟨StoreOrder.trans (Store.Lasts.of_scopes hs hadded) (.bind fun hl f hb => ?_), ?_,
      trivial⟩
    · rw [Store.lookup, hs] at hb
      exact hlast hl f hb
    · exact (charted.bind kind).reaches.after ((ho.trans (.of_scopes hs)).trans (.bind _ _ _))

theorem stays_assign (under : s.Under chart setting.globals scope Fs) {e : Expr}
    (aims : R.Aims setting.distances Fs e) {name : Token} (hn : e.target? = some name) (v : Value) :
    R.Stays setting chart s (Eval.assign setting scope e.id name v) quiet fun _ => True := by
  refine stays_assigned setting e.id name v fun ho hc hf => ⟨fun hwild => ?_, fun hlast => ?_⟩
  · rw [((under.onward ho).found hc.root hf).2, hc.top]
    exact aims.wild name hn hwild
  · exact hc.no_function (under.onward ho) hf (aims.lasting name hn hlast)

/-- The host writes one of its variables. -/
theorem stays_write (serves : R.Serves setting) {name : String} (hlast : ¬ R.lasting name)
    (m : Machine ω) (statements : List Stmt) (fuel : Nat) (v : Value) :
    R.Stays setting chart s (m.order setting.host statements fuel (.write name v)) quiet
      fun _ => True := by
  rw [Machine.order]
  cases hx : setting.host.external? name with
  | none => exact stays_pure trivial
  | some external =>
    obtain ⟨hmem, rfl⟩ := Host.external?_name hx
    have stays : R.Stays setting chart s (Eval.assign (m.unrecorded setting.host) m.globals
        .detached (.synthetic external.name external.type) v) quiet fun _ => True := by
      refine stays_assigned _ _ _ v fun _ _ _ => ⟨fun hwild => ?_, fun hl => absurd hl hlast⟩
      rw [show (Token.synthetic external.name external.type).type = external.type from rfl,
        serves.data external hmem] at hwild
      cases hwild
    exact stays_last stays fun _ _ => stays_pure trivial

/-- What is read is no function that is left. -/
theorem stays_read (under : s.Under chart setting.globals scope Fs) (id : ExprId) (name : Token) :
    R.Stays setting chart s (Eval.read setting scope id name) quiet
      fun v => ∀ f, v = .function f → ¬ R.left f := by
  intro run ⟨chart', ho, hc⟩
  have stays := stays_quiet (Eval.aside_read setting scope id name) run ⟨chart', ho, hc⟩
  refine stays.noting.mono (fun v r _ h => ⟨h.2.1, fun f hv => ?_⟩) fun _ _ _ h => h
  obtain ⟨c, hf, hb⟩ := Eval.read_ok h.1
  exact hc.not_left (under.onward ho) hf (hv ▸ hb)

/-- A name is bound to what is no function. -/
theorem stays_define (name : Token) {v : Value} (hv : v.Inert) :
    R.Stays setting chart s (Eval.define scope name v) quiet fun _ => True := by
  intro run ⟨chart', ho, hc⟩
  refine follows_quiet ((Eval.ends_define _ _ _).2 ?_)
  split
  · exact ⟨StoreOrder.refl _, chart', ho, hc⟩
  · next hb =>
    have charted := hc.bind (c := scope) (n := name.lexeme) fun f hf => absurd hf (hv f)
    exact ⟨.define (Bool.eq_false_iff.2 hb), charted.reaches.after (ho.trans (.bind _ _ _)),
      trivial⟩

/-- A function is made and bound where it stands. -/
theorem stays_function (under : s.Under chart setting.globals scope Fs) {header : Header}
    {body : List Stmt} (stands : (Stmt.function header body).Stands R.stands R.top Fs) :
    R.Stays setting chart s
      (Eval.allocate (·.newFunction (.script header body scope)) >>= fun f =>
        Eval.define scope header.name (.function f)) quiet fun _ => True := by
  intro run ⟨chart', ho, hc⟩
  have under' := under.onward ho
  refine follows_quiet (Eval.ends_bind.2 ((Eval.ends_allocate _).2 ((Eval.ends_define _ _ _).2 ?_)))
  have charted := hc.newFunction under' stands
  have ho' : Store.Onward chart s chart' (run.store.newFunction (.script header body scope)).2 :=
    ho.trans (.of_scopes rfl)
  have made : Store.Lasts R.lasting run.store
      (run.store.newFunction (.script header body scope)).2 := .of_scopes rfl Array.push_eq_append
  split
  · exact ⟨made, charted.reaches.after ho'⟩
  · next hb =>
    -- It is one of the functions of the scope in which it stands.
    have kind : chart' scope header.name.lexeme = true ∧ ¬ R.left run.store.functions.size := by
      rw [under'.head, hc.top]
      exact ⟨stands.1, fun hl => Nat.lt_irrefl _ (hc.old _ hl)⟩
    exact ⟨StoreOrder.trans made (.define (Bool.eq_false_iff.2 hb)),
      (charted.bind fun f e => Value.function.inj e ▸ kind).reaches.after (ho'.trans (.bind _ _ _)), trivial⟩

/-- In a new scope the run goes on with the functions of this scope. -/
theorem stays_enter {p : ScopeId} (F : Frame) (under : s.Under chart setting.globals p Fs)
    {f : ScopeId → Eval ω α} {next : ScopeId → Walk ω}
    (h : ∀ {chart' : Chart} {t : Store} {c : ScopeId},
      t.Under chart' setting.globals c (F :: Fs) → R.Stays setting chart' t (f c) (next c) ok) :
    R.Stays setting chart s (Eval.allocate (·.newScope (some p)) >>= f)
      (after (Eval.allocate (·.newScope (some p))) next) ok := by
  intro run ⟨chart', ho, hc⟩
  refine follows_after ((Eval.ends_allocate _).2 ⟨.newScope _, ?_⟩)
  have inside := (under.onward ho).newScope hc.there F
  exact (h inside).rebase (ho.trans (.newScope _ F)) (hc.newScope p F).reaches

theorem stays_hostFunction (serves : R.Serves setting) (name : String) (values : List Value) :
    R.Stays setting chart s (Eval.hostFunction setting name values) quiet fun _ => True := by
  unfold Eval.hostFunction
  cases hf : setting.host.function? name with
  | none => exact stays_pure trivial
  | some g =>
    intro run ⟨chart', ho, hc⟩
    have outside := serves.outside g (List.mem_of_find?_eq_some hf)
    have hs := outside.scopes values run.store run.world
    obtain ⟨added, hadd, hno⟩ := outside.functions values run.store run.world
    exact follows_quiet ⟨.of_scopes hs hadd,
      (hc.aside hs hadd hno).reaches.after (ho.trans (.of_scopes hs)), trivial⟩

/-- Arguments of parameters whose types say something are no functions. -/
theorem stays_arguments (function : String) (line : Nat) : ∀ (position : Nat) (types : List Ty)
    (values : List Value), R.Stays setting chart s
      (Eval.arguments function line position types values : Eval ω _) quiet
      fun ws => (∀ type ∈ types, type.isWild = false) → ∀ w ∈ ws, w.Inert
  | position, type :: types, v :: vs => by
    rw [Eval.arguments]
    refine stays_last (stays_fitTo type v line (by simp)) fun w hw => ?_
    refine stays_last (stays_arguments function line (position + 1) types vs) fun ws hws => ?_
    refine stays_pure fun htypes => ?_
    obtain ⟨hfirst, hrest⟩ := List.forall_mem_cons.1 htypes
    exact List.forall_mem_cons.2 ⟨hw hfirst, hws hrest⟩
  | _, [], _ => stays_pure fun _ _ hw => absurd hw List.not_mem_nil
  | _, _ :: _, [] => stays_pure fun _ _ hw => absurd hw List.not_mem_nil

theorem stays_parameters : ∀ (ps : List Parameter) (values : List Value),
    (∀ v ∈ values, v.Inert) →
    R.Stays setting chart s (Eval.parameters scope ps values) (Walk.parameters scope ps values)
      fun _ => True
  | p :: ps, v :: vs, h => by
    obtain ⟨hv, hvs⟩ := List.forall_mem_cons.1 h
    rw [Eval.parameters, Walk.parameters]
    refine stays_after (stays_define p.name hv) fun _ _ run hr => ?_
    exact follows_bound_both trivial (stays_parameters ps vs hvs run hr)
  | [], _, _ => stays_pure trivial
  | _ :: _, [], _ => stays_pure trivial

end Steps

/-! ## Expressions -/

section Expressions

variable {scope : ScopeId} {Fs : List Frame} {fuel : Nat}

/-- Calls of functions that are not left stay in stores that are reached. -/
def CallsStay (R : Roles) (setting : Setting ω) (fuel : Nat) : Prop :=
  ∀ (chart : Chart) (s : Store) (f : FunctionId) (values : List Value) (line : Nat), ¬ R.left f →
    R.Stays setting chart s (Eval.call setting fuel f values line)
      (Walk.call setting fuel f values line) fun _ => True

/-- The evaluation of an expression is an event where it stands. -/
theorem stays_here {e : Expr} (under : s.Under chart setting.globals scope Fs)
    (he : e.Each (R.stands Fs)) {act : Eval ω α} {walk : Walk ω} {ok : α → Prop}
    (h : R.Stays setting chart s act walk ok) :
    R.Stays setting chart s act (both (here fuel scope e) walk) ok :=
  fun run hr => follows_here (hr.meets under he fuel rfl) (h run hr)

theorem stays_leaf {e : Expr} (under : s.Under chart setting.globals scope Fs)
    (he : e.Each (R.stands Fs)) {act : Eval ω α} {ok : α → Prop}
    (h : R.Stays setting chart s act quiet ok) :
    R.Stays setting chart s act (here fuel scope e) ok :=
  fun run hr => follows_leaf (hr.meets under he fuel rfl) (h run hr)

mutual

/-- An expression stays in stores that are reached from where it stands. -/
theorem stays_expr (serves : R.Serves setting) (calls : R.CallsStay setting fuel)
    (under : s.Under chart setting.globals scope Fs) : (e : Expr) → e.Each (R.stands Fs) →
    R.Stays setting chart s (Eval.expr setting (Eval.call setting fuel) scope e)
      (Walk.expr setting fuel (Walk.call setting fuel) scope e) fun _ => True
  | .literal id value line, h => by
    rw [Eval.expr, Walk.expr]
    exact stays_leaf under h (stays_pure trivial)
  | .grouping id inner, h => by
    rw [Eval.expr, Walk.expr]
    exact stays_here under h (stays_expr serves calls under inner (Expr.each_grouping.1 h).2)
  | .unary id operator right, h => by
    rw [Eval.expr, Walk.expr]
    refine stays_here under h (stays_last (stays_expr serves calls under right
      (Expr.each_unary.1 h).2) fun v _ => ?_)
    exact stays_quiet (Eval.aside_unary operator v)
  | .binary id left operator right, h => by
    obtain ⟨-, hl, hr⟩ := Expr.each_binary.1 h
    rw [Eval.expr, Walk.expr]
    refine stays_here under h (stays_bind (stays_expr serves calls under left hl) fun l _ => ?_)
    refine stays_last (stays_expr serves calls under right hr) fun r _ => ?_
    exact stays_quiet (Eval.aside_binary operator l r)
  | .logical id left operator right, h => by
    obtain ⟨-, hl, hr⟩ := Expr.each_logical.1 h
    rw [Eval.expr, Walk.expr]
    refine stays_here under h (stays_bind (stays_expr serves calls under left hl) fun l _ => ?_)
    split
    · exact stays_pure trivial
    · exact stays_expr serves calls under right hr
  | .var id name, h => by
    rw [Eval.expr, Walk.expr]
    exact stays_leaf under h (stays_quiet (Eval.aside_read setting scope id name))
  | .index id name position, h => by
    rw [Eval.expr, Walk.expr]
    refine stays_here under h (stays_after (stays_quiet (Eval.aside_read setting scope id name))
      fun target _ => ?_)
    refine stays_last (stays_expr serves calls under position (Expr.each_index.1 h).2)
      fun index _ => ?_
    exact stays_quiet (Eval.aside_item name target index)
  | .assign id name value, h => by
    obtain ⟨hself, hv⟩ := Expr.each_assign.1 h
    rw [Eval.expr, Walk.expr]
    refine stays_here under h (stays_last (stays_expr serves calls under value hv) fun v _ => ?_)
    exact stays_assign under (serves.aims Fs _ hself) rfl v
  | .assignIndex id name position value, h => by
    obtain ⟨-, hp, hv⟩ := Expr.each_assignIndex.1 h
    rw [Eval.expr, Walk.expr]
    refine stays_here under h (stays_bind (stays_expr serves calls under position hp)
      fun index _ => ?_)
    refine stays_last (stays_expr serves calls under value hv) fun v _ => ?_
    exact stays_quiet (Eval.aside_assignItem setting scope id name index v)
  | .assignElements id name elements, h => by
    obtain ⟨hself, he⟩ := Expr.each_assignElements.1 h
    rw [Eval.expr, Walk.expr]
    refine stays_here under h (stays_last (stays_exprs serves calls under elements he)
      fun vs _ => ?_)
    refine stays_last (stays_quiet (Eval.aside_newArray vs)) fun v _ => ?_
    exact stays_assign under (serves.aims Fs _ hself) rfl v
  | .call id callee paren arguments, h => by
    obtain ⟨hself, hc, ha⟩ := Expr.each_call.1 h
    obtain ⟨i, name, rfl⟩ := (serves.aims Fs _ hself).callee id callee paren arguments rfl
    rw [Eval.expr, Walk.expr, Eval.expr, Walk.expr]
    -- The callee is a name, and what is read under it is not left.
    refine stays_here under h (stays_bind (stays_leaf under hc (stays_read under i name))
      fun function hfunction => ?_)
    refine stays_bind (stays_exprs serves calls under arguments ha) fun values _ => ?_
    cases function with
    | function f => exact calls chart s f values paren.line (hfunction f rfl)
    | _ => exact stays_throw _

theorem stays_exprs (serves : R.Serves setting) (calls : R.CallsStay setting fuel)
    (under : s.Under chart setting.globals scope Fs) : (es : List Expr) →
    EachExpr (R.stands Fs) es →
    R.Stays setting chart s (Eval.exprs setting (Eval.call setting fuel) scope es)
      (Walk.exprs setting fuel (Walk.call setting fuel) scope es) fun _ => True
  | [], _ => by
    rw [Eval.exprs, Walk.exprs]
    exact stays_pure trivial
  | e :: es, h => by
    obtain ⟨he, hes⟩ := eachExpr_cons.1 h
    rw [Eval.exprs, Walk.exprs]
    refine stays_bind (stays_expr serves calls under e he) fun v _ => ?_
    exact stays_last (stays_exprs serves calls under es hes) fun vs _ => stays_pure trivial

end

end Expressions

/-! ## Statements -/

section Statements

variable {scope : ScopeId} {Fs : List Frame} {fuel : Nat}

theorem stays_holds (serves : R.Serves setting) (calls : R.CallsStay setting fuel)
    (under : s.Under chart setting.globals scope Fs) (e : Expr) (h : e.Each (R.stands Fs)) :
    R.Stays setting chart s (Eval.holds setting (Eval.call setting fuel) scope e)
      (Walk.expr setting fuel (Walk.call setting fuel) scope e) fun _ => True :=
  stays_last (stays_expr serves calls under e h) fun _ _ => stays_pure trivial

theorem stays_rounds {test : Eval ω Bool} {testWalk : Walk ω} {body : Eval ω Signal}
    {bodyWalk : Walk ω} (ht : R.Stays setting chart s test testWalk fun _ => True)
    (hb : R.Stays setting chart s body bodyWalk fun _ => True) (limit : Nat) :
    R.Stays setting chart s (Eval.rounds test body limit)
      (Walk.rounds test testWalk body bodyWalk limit) fun _ => True := by
  induction limit with
  | zero => exact stays_throw _
  | succ limit ih =>
    rw [Eval.rounds, Walk.rounds]
    refine stays_bind ht fun holds _ => ?_
    split
    · refine stays_bind hb fun signal _ => ?_
      cases signal with
      | normal => exact ih
      | «continue» => exact ih
      | «break» => exact stays_pure trivial
      | «return» v => exact stays_pure trivial
    · exact stays_pure trivial

theorem stays_initial (serves : R.Serves setting) (calls : R.CallsStay setting fuel)
    (under : s.Under chart setting.globals scope Fs) (type : Ty) (start : Initializer)
    (h : start.Each (R.stands Fs)) :
    R.Stays setting chart s (Eval.initial setting (Eval.call setting fuel) scope type start)
      (Walk.initial setting fuel (Walk.call setting fuel) scope start) fun _ => True := by
  cases start with
  | zero => exact stays_quiet (Eval.aside_zero type)
  | value e => exact stays_expr serves calls under e h
  | elements es =>
    exact stays_last (stays_exprs serves calls under es h) fun vs _ =>
      stays_quiet (Eval.aside_newArray vs)

mutual

/-- A statement stays in stores that are reached from where it stands. -/
theorem stays_stmt (serves : R.Serves setting) (calls : R.CallsStay setting fuel) :
    (st : Stmt) → ∀ {chart : Chart} {s : Store} {scope : ScopeId} {Fs : List Frame},
    s.Under chart setting.globals scope Fs → st.Stands R.stands R.top Fs →
    R.Stays setting chart s (Eval.stmt setting (Eval.call setting fuel) fuel scope st)
      (Walk.stmt setting fuel (Walk.call setting fuel) scope st) fun _ => True
  | .expression e, _, _, _, _, under, h => by
    rw [Eval.stmt, Walk.stmt]
    exact stays_last (stays_expr serves calls under e h) fun _ _ => stays_pure trivial
  | .block body, _, _, _, _, under, h => by
    rw [Eval.stmt, Walk.stmt]
    exact stays_enter (functionsOf body) under fun inside => stays_stmts serves calls body inside h
  | .declare name type start, _, _, scope, _, under, h => by
    rw [Eval.stmt, Walk.stmt]
    refine stays_bind (stays_initial serves calls under type start h.2) fun v _ => ?_
    refine stays_after (stays_fitTo type v name.line (by simp)) fun w hw => ?_
    refine stays_after (stays_define name (hw h.1)) fun _ _ run hr => ?_
    exact follows_bound trivial ⟨hr, trivial⟩
  | .ifThen keyword test yes, _, _, _, _, under, h => by
    rw [Eval.stmt, Walk.stmt]
    refine stays_bind (stays_holds serves calls under test h.1) fun holds _ => ?_
    split
    · exact stays_stmt serves calls yes under h.2
    · exact stays_pure trivial
  | .ifElse keyword test yes no, _, _, _, _, under, h => by
    rw [Eval.stmt, Walk.stmt]
    refine stays_bind (stays_holds serves calls under test h.1) fun holds _ => ?_
    split
    · exact stays_stmt serves calls yes under h.2.1
    · exact stays_stmt serves calls no under h.2.2
  | .while keyword test body, _, _, _, _, under, h => by
    rw [Eval.stmt, Walk.stmt]
    exact stays_rounds (stays_holds serves calls under test h.1)
      (stays_stmt serves calls body under h.2) fuel
  | .return keyword none, _, _, _, _, _, _ => by
    rw [Eval.stmt, Walk.stmt]
    exact stays_pure trivial
  | .return keyword (some e), _, _, _, _, under, h => by
    rw [Eval.stmt, Walk.stmt]
    exact stays_last (stays_expr serves calls under e (h e rfl)) fun _ _ => stays_pure trivial
  | .break keyword, _, _, _, _, _, _ => by
    rw [Eval.stmt, Walk.stmt]
    exact stays_pure trivial
  | .continue keyword, _, _, _, _, _, _ => by
    rw [Eval.stmt, Walk.stmt]
    exact stays_pure trivial
  | .function header body, _, _, scope, _, under, h => by
    rw [Eval.stmt, Walk.stmt]
    have made := stays_function under h
    exact stays_last (x := Eval.allocate (·.newFunction (.script header body scope)) >>= fun f =>
      Eval.define scope header.name (.function f)) made fun _ _ => stays_pure trivial

theorem stays_stmts (serves : R.Serves setting) (calls : R.CallsStay setting fuel) :
    (ss : List Stmt) → ∀ {chart : Chart} {s : Store} {scope : ScopeId} {Fs : List Frame},
    s.Under chart setting.globals scope Fs → StmtsStand R.stands R.top Fs ss →
    R.Stays setting chart s (Eval.stmts setting (Eval.call setting fuel) fuel scope ss)
      (Walk.stmts setting fuel (Walk.call setting fuel) scope ss) fun _ => True
  | [], _, _, _, _, _, _ => by
    rw [Eval.stmts, Walk.stmts]
    exact stays_pure trivial
  | st :: ss, _, _, _, _, under, h => by
    rw [Eval.stmts, Walk.stmts]
    refine stays_bind (stays_stmt serves calls st under h.1) fun signal _ => ?_
    cases signal with
    | normal => exact stays_stmts serves calls ss under h.2
    | _ => exact stays_pure trivial

end

end Statements

/-! ## Calls -/

/-- The body of a function runs in a scope of its own, inside that of its declaration. -/
theorem stays_scriptFunction {fuel : Nat} {closure : ScopeId} {Fs : List Frame} {header : Header}
    {body : List Stmt} {values : List Value} (serves : R.Serves setting)
    (calls : R.CallsStay setting fuel) (under : s.Under chart setting.globals closure Fs)
    (stands : StmtsStand R.stands R.top (functionsOf body :: Fs) body)
    (inert : ∀ v ∈ values, v.Inert) :
    R.Stays setting chart s
      (Eval.scriptFunction setting (Eval.call setting fuel) fuel header body closure values)
      (after (Eval.allocate (·.newScope (some closure))) fun scope =>
        thenAfter (Walk.parameters scope header.parameters values)
          (Eval.parameters scope header.parameters values) fun _ =>
            Walk.stmts setting fuel (Walk.call setting fuel) scope body) fun _ => True := by
  refine stays_enter (functionsOf body) under fun inside => ?_
  refine stays_bind (stays_parameters header.parameters values inert) fun _ _ => ?_
  refine stays_last (stays_stmts serves calls body inside stands) fun signal _ => ?_
  cases signal <;> exact stays_pure trivial

theorem callsStay (serves : R.Serves setting) (fuel : Nat) : R.CallsStay setting fuel := by
  induction fuel with
  | zero => exact fun _ _ _ _ _ _ => stays_throw _
  | succ fuel ih =>
    intro chart s f values line spared run ⟨chart', ho, hc⟩
    rw [Eval.call, Walk.call]
    refine follows_after ((Eval.ends_ask _).2 ⟨StoreOrder.refl _, ?_⟩)
    cases hk : run.store.functions[f]? with
    | none => exact stays_throw _ run ⟨chart', ho, hc⟩
    | some k =>
      dsimp only
      split
      · exact stays_throw _ run ⟨chart', ho, hc⟩
      · -- The closure is known in the store in which the call begins.
        refine Stays.rebase ?_ ho hc.reaches
        refine stays_after (stays_arguments k.name line 1 _ values) fun fitted hfitted => ?_
        cases k with
        | builtin b =>
          exact stays_last (stays_quiet (Eval.aside_builtin setting fitted b)) fun v _ =>
            stays_quiet (Eval.aside_result _ line v)
        | host name signature =>
          exact stays_last (stays_hostFunction serves name fitted) fun v _ =>
            stays_quiet (Eval.aside_result _ line v)
        | script header body closure =>
          obtain ⟨Fs, under, -, htypes, hbody⟩ := hc.functions f header body closure hk spared
          -- The arguments were fitted to the types of the parameters.
          have inert : ∀ v ∈ fitted, v.Inert := by
            refine hfitted fun type ht => ?_
            obtain ⟨p, hp, rfl⟩ := List.mem_map.1 ht
            exact htypes p hp
          exact stays_last (stays_scriptFunction serves ih under hbody inert) fun v _ =>
            stays_quiet (Eval.aside_result _ line v)

end Roles

end TickScript
