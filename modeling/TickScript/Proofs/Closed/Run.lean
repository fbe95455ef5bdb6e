import TickScript.Proofs.Closed

/-!
# Runs and loose ends

A program that starts in a closed store leaves it closed, however it ends, as long as the
functions of the host hand out only arrays and functions that there are. Arrays and functions
never go away, so the values that a run has met stay good.
-/

namespace TickScript

variable {ω : Type}

/-! ## Operators -/

/-- The value is neither an array nor a function. -/
def Value.Plain : Value → Prop
  | .array _ => False
  | .function _ => False
  | _ => True

theorem Value.Plain.has {v : Value} (h : v.Plain) (s : Store) : s.Has v := by
  cases v <;> trivial

namespace Operator

theorem plain_ofChecked {r : Except ArithmeticError Int64} {v : Value} (h : ofChecked r = .ok v) :
    v.Plain := by
  cases r <;> cases h
  trivial

theorem plain_unary {operator : Token} {v w : Value} (h : unary operator v = .ok w) : w.Plain := by
  unfold unary at h
  split at h
  · split at h
    · exact plain_ofChecked h
    · cases h
      trivial
    · cases h
  · cases h
    trivial
  · cases h

theorem plain_integers {operator : Token} {a b : Int64} {v : Value}
    (h : integers operator a b = .ok v) : v.Plain := by
  unfold integers at h
  split at h
  all_goals first | exact plain_ofChecked h | (cases h; trivial) | cases h

theorem plain_floats {operator : Token} {a b : Float} {v : Value}
    (h : floats operator a b = .ok v) : v.Plain := by
  unfold floats at h
  split at h
  case h_4 => split at h <;> cases h; trivial
  case h_5 => split at h <;> cases h; trivial
  all_goals first | (cases h; trivial) | cases h

theorem plain_numbers {operator : Token} {l r v : Value} (h : numbers operator l r = .ok v) :
    v.Plain := by
  unfold numbers at h
  split at h
  · exact plain_integers h
  · split at h
    · exact plain_floats h
    · cases h

theorem plain_binary {s : Store} {operator : Token} {l r v : Value}
    (h : binary s operator l r = .ok v) : v.Plain := by
  unfold binary at h
  split at h
  · cases h
    trivial
  · cases h
    trivial
  · exact plain_numbers h

end Operator

/-! ## Runs -/

/-- The host function hands out only arrays and functions that there are. -/
def HostFunction.Honest (f : HostFunction ω) : Prop :=
  ∀ values (s : Store) w, s.Closed → (∀ v ∈ values, s.Has v) →
    (f.respond values s w).store.Closed ∧ s.Grows (f.respond values s w).store ∧
      ∀ v ∈ (f.respond values s w).value, (f.respond values s w).store.Has v

/-- From every closed store that has room for the handles of `s`, the run of `act` gets to such
a store, and to a result that is `good` there. -/
def Closes (s : Store) {α : Type} (act : Eval ω α) (good : α → Store → Prop) : Prop :=
  ∀ run : Run ω, run.store.Closed → s.Grows run.store →
    act.Ends run (fun a r => (r.store.Closed ∧ run.store.Grows r.store) ∧ good a r.store)
      (fun _ r => r.store.Closed ∧ run.store.Grows r.store)

/-- The result is a value of the store. -/
def Given (v : Value) (s : Store) : Prop := s.Has v

/-- The results are values of the store. -/
def AllGiven (vs : List Value) (s : Store) : Prop := ∀ v ∈ vs, s.Has v

/-- What a statement returns is a value of the store. -/
def Returned (signal : Signal) (s : Store) : Prop :=
  ∀ v, signal = .return v → s.Has v

section Rules

variable {α β : Type} {s : Store} {P : α → Store → Prop}

theorem closes_pure {a : α} (h : ∀ t, s.Grows t → P a t) :
    Closes s (pure a : Eval ω α) P :=
  fun run closed grows => (Eval.ends_pure a).2 ⟨⟨closed, .refl _⟩, h run.store grows⟩

theorem closes_throw (i : Interrupt) : Closes s (throw i : Eval ω α) P :=
  fun _ closed _ => (Eval.ends_throw i).2 ⟨closed, .refl _⟩

theorem closes_bind {x : Eval ω β} {f : β → Eval ω α} {Q : β → Store → Prop}
    (hx : Closes s x Q) (hf : ∀ b t, s.Grows t → Q b t → Closes t (f b) P) :
    Closes s (x >>= f) P := by
  intro run closed grows
  refine Eval.ends_bind.2 ((hx run closed grows).mono ?_ fun _ _ h => h)
  rintro b r ⟨⟨closed', grows'⟩, hb⟩
  refine (hf b r.store (grows.trans grows') hb r closed' (.refl _)).mono ?_ ?_
  · exact fun a r' h => ⟨⟨h.1.1, grows'.trans h.1.2⟩, h.2⟩
  · exact fun i r' h => ⟨h.1, grows'.trans h.2⟩

theorem closes_demand {question : Store → Except RuntimeError α}
    (h : ∀ t a, t.Closed → s.Grows t → question t = .ok a → P a t) :
    Closes s (Eval.demand question : Eval ω α) P := by
  intro run closed grows
  refine (Eval.ends_demand question).2 ?_
  cases hq : question run.store with
  | ok a => exact ⟨⟨closed, .refl _⟩, h _ a closed grows hq⟩
  | error e => exact ⟨closed, .refl _⟩

theorem closes_ask {question : Store → α} (h : ∀ t, t.Closed → s.Grows t → P (question t) t) :
    Closes s (Eval.ask question : Eval ω α) P :=
  fun _ closed grows => (Eval.ends_ask question).2 ⟨⟨closed, .refl _⟩, h _ closed grows⟩

theorem closes_allocate {make : Store → α × Store}
    (h : ∀ t, t.Closed → s.Grows t →
      ((make t).2.Closed ∧ t.Grows (make t).2) ∧ P (make t).1 (make t).2) :
    Closes s (Eval.allocate make : Eval ω α) P :=
  fun run closed grows => (Eval.ends_allocate make).2 (h run.store closed grows)

end Rules

section Steps

variable {s : Store} {setting : Setting ω}

theorem closes_fitTo {v : Value} (hv : s.Has v) (type : Ty) (line : Nat)
    (fault : Mismatch → Fault) : Closes s (Eval.fitTo type v line fault : Eval ω Value) Given := by
  intro run closed grows
  refine (Eval.ends_fitTo type v line fault).2 ?_
  have fitted := closed.coerce (hv.grows grows) type
  cases hc : Store.coerce type v run.store with
  | ok w t =>
    rw [hc] at fitted
    exact ⟨⟨fitted.1, fitted.2.1⟩, fitted.2.2⟩
  | error m t =>
    rw [hc] at fitted
    exact fitted

theorem closes_define {v : Value} (hv : s.Has v) (scope : ScopeId) (name : Token) :
    Closes s (Eval.define scope name v : Eval ω Unit) fun _ _ => True := by
  intro run closed grows
  refine (Eval.ends_define scope name v).2 ?_
  split
  · exact ⟨closed, .refl _⟩
  · exact ⟨closed.bind scope name.lexeme (hv.grows grows), trivial⟩

theorem closes_newArray {items : List Value} (h : AllGiven items s) :
    Closes s (Eval.newArray items : Eval ω Value) Given := by
  intro run closed grows
  refine (Eval.ends_newArray items).2 ⟨closed.newArray fun v hv => ?_, ?_⟩
  · exact (h v (List.mem_toArray.1 hv)).grows grows
  · simp [Given, Store.Has, Store.newArray]

theorem closes_read (scope : ScopeId) (id : ExprId) (name : Token) :
    Closes s (Eval.read setting scope id name) Given :=
  fun _ closed _ => Eval.ends_read ⟨closed, .refl _⟩ fun c v _ hv =>
    ⟨⟨closed, .refl _⟩, closed.bindings c _ v hv⟩

theorem closes_assign {v : Value} (hv : s.Has v) (scope : ScopeId) (id : ExprId) (name : Token) :
    Closes s (Eval.assign setting scope id name v) Given := by
  intro run closed grows
  refine Eval.ends_assign ⟨closed, .refl _⟩ fun c _ => ?_
  have fitted := closed.coerce (hv.grows grows) name.type
  cases hc : Store.coerce name.type v run.store with
  | ok w t =>
    rw [hc] at fitted
    obtain ⟨closed', grows', hw⟩ := fitted
    obtain ⟨bound, more⟩ := closed'.bind c name.lexeme hw
    exact ⟨⟨bound, grows'.trans more⟩, hw.grows more⟩
  | error m t =>
    rw [hc] at fitted
    exact fitted

theorem closes_assignItem {index v : Value} (hv : s.Has v) (scope : ScopeId) (id : ExprId)
    (name : Token) : Closes s (Eval.assignItem setting scope id name index v) Given := by
  intro run closed grows
  refine Eval.ends_assignItem ⟨closed, .refl _⟩ fun c _ => ?_
  split
  · next a _ =>
    cases Store.slot (run.store.items a).size index with
    | error fault => exact ⟨closed, .refl _⟩
    | ok i =>
      have fitted := closed.coerce (hv.grows grows) (name.type.element?.getD .any)
      dsimp only
      cases hc : Store.coerce (name.type.element?.getD .any) v run.store with
      | ok w t =>
        rw [hc] at fitted
        obtain ⟨closed', grows', hw⟩ := fitted
        obtain ⟨written, more⟩ := closed'.setItem a i hw
        exact ⟨⟨written, grows'.trans more⟩, hw.grows more⟩
      | error m t =>
        rw [hc] at fitted
        exact fitted
  · exact ⟨closed, .refl _⟩

theorem closes_item (name : Token) (target index : Value) :
    Closes s (Eval.item name target index : Eval ω Value) Given := by
  intro run closed _
  refine Eval.ends_item (fun _ => ⟨closed, .refl _⟩) fun a _ => ?_
  cases Store.slot (run.store.items a).size index with
  | error fault => exact ⟨closed, .refl _⟩
  | ok i =>
    refine ⟨⟨closed, .refl _⟩, ?_⟩
    show run.store.Has ((run.store.items a).getD i .nil)
    rw [Array.getD_eq_getD_getElem?]
    cases hi : (run.store.items a)[i]? with
    | none => trivial
    | some w => exact closed.items a w (Array.mem_of_getElem? hi)

theorem closes_arguments (function : String) (line : Nat) :
    ∀ (position : Nat) (types : List Ty) (values : List Value) {s : Store}, AllGiven values s →
      Closes s (Eval.arguments function line position types values : Eval ω _) AllGiven
  | position, type :: types, v :: vs, s, h => by
    rw [Eval.arguments]
    refine closes_bind (closes_fitTo (h v List.mem_cons_self) type line _) fun w t g hw => ?_
    refine closes_bind (closes_arguments function line (position + 1) types vs fun u hu =>
      (h u (List.mem_cons_of_mem v hu)).grows g) fun ws t' g' hws => closes_pure fun u g'' => ?_
    intro x hx
    rcases List.mem_cons.1 hx with rfl | hx
    · exact (hw.grows g').grows g''
    · exact (hws x hx).grows g''
  | _, [], _, _, _ => closes_pure fun _ _ => by simp [AllGiven]
  | _, _ :: _, [], _, _ => closes_pure fun _ _ => by simp [AllGiven]

theorem closes_parameters (scope : ScopeId) :
    ∀ (ps : List Parameter) (values : List Value) {s : Store}, AllGiven values s →
      Closes s (Eval.parameters scope ps values : Eval ω Unit) fun _ _ => True
  | p :: ps, v :: vs, s, h => by
    rw [Eval.parameters]
    refine closes_bind (closes_define (h v List.mem_cons_self) scope p.name) fun _ t g _ => ?_
    exact closes_parameters scope ps vs fun u hu => (h u (List.mem_cons_of_mem v hu)).grows g
  | [], _, _, _ => closes_pure fun _ _ => trivial
  | _ :: _, [], _, _ => closes_pure fun _ _ => trivial

theorem closes_builtin (values : List Value) (b : Builtin) :
    Closes s (Eval.builtin setting values b) Given := by
  unfold Eval.builtin
  split
  · exact closes_pure fun _ _ => trivial
  · refine closes_bind (closes_ask (P := fun _ _ => True) fun _ _ _ => trivial)
      fun _ _ _ _ => ?_
    refine closes_bind (Q := fun _ _ => True) ?_ fun _ _ _ _ => closes_pure fun _ _ => trivial
    exact fun _ closed _ => (Eval.ends_printLine _).2 ⟨closed.of_frame rfl rfl (Nat.le_refl _), trivial⟩
  · split
    · exact closes_ask fun _ _ _ => trivial
    · exact closes_pure fun _ _ => trivial

theorem closes_hostFunction (honest : ∀ f ∈ setting.host.functions, f.Honest) (name : String)
    {values : List Value} (h : AllGiven values s) :
    Closes s (Eval.hostFunction setting name values) Given := by
  unfold Eval.hostFunction
  cases hf : setting.host.function? name with
  | none => exact closes_pure fun _ _ => trivial
  | some f =>
    intro run closed grows
    obtain ⟨closed', grows', reply⟩ := honest f (List.mem_of_find?_eq_some hf) values run.store
      run.world closed fun v hv => (h v hv).grows grows
    refine ⟨⟨closed', grows'⟩, ?_⟩
    show Store.Has _ ((f.respond values run.store run.world).value.getD .nil)
    cases hv : (f.respond values run.store run.world).value with
    | none => trivial
    | some v => exact reply v hv

theorem closes_result {v : Value} (hv : s.Has v) (c : Callable) (line : Nat) :
    Closes s (Eval.result c line v : Eval ω Value) Given := by
  unfold Eval.result
  split
  · exact closes_pure fun _ _ => trivial
  · exact closes_pure fun _ _ => trivial
  · exact closes_fitTo hv _ line _

end Steps

section Programs

variable {setting : Setting ω} {apply : Apply ω}

/-- Calls keep the store closed. -/
def Apply.Closes (apply : Apply ω) : Prop :=
  ∀ (s : Store) f values line, AllGiven values s → TickScript.Closes s (apply f values line) Given

mutual

theorem closes_expr (hcall : apply.Closes) (scope : ScopeId) : (e : Expr) → (s : Store) →
    Closes s (Eval.expr setting apply scope e) Given
  | .literal _ value _, s => by
    rw [Eval.expr]
    refine closes_pure fun _ _ => ?_
    cases value <;> trivial
  | .grouping _ inner, s => by
    rw [Eval.expr]
    exact closes_expr hcall scope inner s
  | .unary _ operator right, s => by
    rw [Eval.expr]
    refine closes_bind (closes_expr hcall scope right s) fun v t _ _ => closes_demand ?_
    intro u w _ _ hw
    cases hu : Operator.unary operator v with
    | ok w' =>
      rw [hu] at hw
      cases hw
      exact (Operator.plain_unary hu).has u
    | error fault =>
      rw [hu] at hw
      cases hw
  | .binary _ left operator right, s => by
    rw [Eval.expr]
    refine closes_bind (closes_expr hcall scope left s) fun l t _ _ => ?_
    refine closes_bind (closes_expr hcall scope right t) fun r _ _ _ => closes_demand ?_
    intro u w _ _ hw
    cases hu : Operator.binary u operator l r with
    | ok w' =>
      rw [hu] at hw
      cases hw
      exact (Operator.plain_binary hu).has u
    | error fault =>
      rw [hu] at hw
      cases hw
  | .logical _ left operator right, s => by
    rw [Eval.expr]
    refine closes_bind (closes_expr hcall scope left s) fun l t _ hl => ?_
    split
    · exact closes_pure fun u g => hl.grows g
    · exact closes_expr hcall scope right t
  | .var id name, s => by
    rw [Eval.expr]
    exact closes_read scope id name
  | .index id name position, s => by
    rw [Eval.expr]
    refine closes_bind (closes_read scope id name) fun target t _ _ => ?_
    exact closes_bind (closes_expr hcall scope position t) fun index _ _ _ =>
      closes_item name target index
  | .assign id name value, s => by
    rw [Eval.expr]
    exact closes_bind (closes_expr hcall scope value s) fun v _ _ hv =>
      closes_assign hv scope id name
  | .assignIndex id name position value, s => by
    rw [Eval.expr]
    refine closes_bind (closes_expr hcall scope position s) fun index t _ _ => ?_
    exact closes_bind (closes_expr hcall scope value t) fun v _ _ hv =>
      closes_assignItem hv scope id name
  | .assignElements id name elements, s => by
    rw [Eval.expr]
    refine closes_bind (closes_exprs hcall scope elements s) fun vs t _ hvs => ?_
    exact closes_bind (closes_newArray hvs) fun v _ _ hv => closes_assign hv scope id name
  | .call _ callee paren arguments, s => by
    rw [Eval.expr]
    refine closes_bind (closes_expr hcall scope callee s) fun function t _ _ => ?_
    refine closes_bind (closes_exprs hcall scope arguments t) fun values u _ hvs => ?_
    cases function with
    | function f => exact hcall u f values paren.line hvs
    | _ => exact closes_throw _

theorem closes_exprs (hcall : apply.Closes) (scope : ScopeId) : (es : List Expr) → (s : Store) →
    Closes s (Eval.exprs setting apply scope es) AllGiven
  | [], s => by
    rw [Eval.exprs]
    exact closes_pure fun _ _ => by simp [AllGiven]
  | e :: es, s => by
    rw [Eval.exprs]
    refine closes_bind (closes_expr hcall scope e s) fun v t _ hv => ?_
    refine closes_bind (closes_exprs hcall scope es t) fun vs u g hvs => closes_pure fun u' g' => ?_
    intro w hw
    rcases List.mem_cons.1 hw with rfl | hw
    · exact (hv.grows g).grows g'
    · exact (hvs w hw).grows g'

end

theorem closes_holds (hcall : apply.Closes) (scope : ScopeId) (e : Expr) (s : Store) :
    Closes s (Eval.holds setting apply scope e) fun _ _ => True :=
  closes_bind (closes_expr hcall scope e s) fun _ _ _ _ => closes_pure fun _ _ => trivial

theorem closes_initial (hcall : apply.Closes) (scope : ScopeId) (type : Ty) (s : Store) :
    (start : Initializer) → Closes s (Eval.initial setting apply scope type start) Given
  | .zero => closes_allocate fun t closed _ => by
      obtain ⟨closed', grows', hv⟩ := closed.zero type
      exact ⟨⟨closed', grows'⟩, hv⟩
  | .value e => closes_expr hcall scope e s
  | .elements es =>
    closes_bind (closes_exprs hcall scope es s) fun _ _ _ hvs => closes_newArray hvs

/-- A signal that returns nothing. -/
theorem closes_signal {s : Store} {signal : Signal} (h : ∀ v, signal ≠ .return v) :
    Closes s (pure signal : Eval ω Signal) Returned :=
  closes_pure fun _ _ v hv => absurd hv (h v)

theorem closes_rounds {test : Eval ω Bool} {body : Eval ω Signal}
    (ht : ∀ s, Closes s test fun _ _ => True) (hb : ∀ s, Closes s body Returned) (limit : Nat) :
    ∀ s, Closes s (Eval.rounds test body limit) Returned := by
  induction limit with
  | zero => exact fun s => closes_throw _
  | succ limit ih =>
    intro s
    rw [Eval.rounds]
    refine closes_bind (ht s) fun b t _ _ => ?_
    split
    · refine closes_bind (hb t) fun signal u _ hs => ?_
      cases signal with
      | normal => exact ih u
      | «continue» => exact ih u
      | «break» => exact closes_signal (by simp)
      | «return» v => exact closes_pure fun u' g w hw => (hs w hw).grows g
    · exact closes_signal (by simp)

mutual

theorem closes_stmt (hcall : apply.Closes) (limit : Nat) (scope : ScopeId) : (stmt : Stmt) →
    (s : Store) → Closes s (Eval.stmt setting apply limit scope stmt) Returned
  | .expression e, s => by
    rw [Eval.stmt]
    exact closes_bind (closes_expr hcall scope e s) fun _ _ _ _ => closes_signal (by simp)
  | .block body, s => by
    rw [Eval.stmt]
    refine closes_bind (closes_allocate (P := fun _ _ => True) fun t closed _ =>
      ⟨closed.newScope _, trivial⟩) fun inner t _ _ => ?_
    exact closes_stmts hcall limit inner body t
  | .declare name type start, s => by
    rw [Eval.stmt]
    refine closes_bind (closes_initial hcall scope type s start) fun v t _ hv => ?_
    refine closes_bind (closes_fitTo hv type name.line _) fun w u _ hw => ?_
    exact closes_bind (closes_define hw scope name) fun _ _ _ _ => closes_signal (by simp)
  | .ifThen _ test yes, s => by
    rw [Eval.stmt]
    refine closes_bind (closes_holds hcall scope test s) fun b t _ _ => ?_
    split
    · exact closes_stmt hcall limit scope yes t
    · exact closes_signal (by simp)
  | .ifElse _ test yes no, s => by
    rw [Eval.stmt]
    refine closes_bind (closes_holds hcall scope test s) fun b t _ _ => ?_
    split
    · exact closes_stmt hcall limit scope yes t
    · exact closes_stmt hcall limit scope no t
  | .while _ test body, s => by
    rw [Eval.stmt]
    exact closes_rounds (closes_holds hcall scope test) (closes_stmt hcall limit scope body) limit s
  | .return _ none, s => by
    rw [Eval.stmt]
    refine closes_pure fun _ _ v hv => ?_
    cases hv
    trivial
  | .return _ (some e), s => by
    rw [Eval.stmt]
    refine closes_bind (closes_expr hcall scope e s) fun v t _ hv => closes_pure fun _ g w hw => ?_
    cases hw
    exact hv.grows g
  | .break _, s => by
    rw [Eval.stmt]
    exact closes_signal (by simp)
  | .continue _, s => by
    rw [Eval.stmt]
    exact closes_signal (by simp)
  | .function header body, s => by
    rw [Eval.stmt]
    refine closes_bind (closes_allocate (P := fun f t => t.Has (.function f))
      fun t closed _ => ⟨closed.newFunction _, ?_⟩) fun f t _ hf => ?_
    · simp [Store.Has, Store.newFunction]
    · exact closes_bind (closes_define hf scope header.name) fun _ _ _ _ => closes_signal (by simp)

theorem closes_stmts (hcall : apply.Closes) (limit : Nat) (scope : ScopeId) : (ss : List Stmt) →
    (s : Store) → Closes s (Eval.stmts setting apply limit scope ss) Returned
  | [], s => by
    rw [Eval.stmts]
    exact closes_signal (by simp)
  | stmt :: ss, s => by
    rw [Eval.stmts]
    refine closes_bind (closes_stmt hcall limit scope stmt s) fun signal t _ hs => ?_
    cases signal with
    | normal => exact closes_stmts hcall limit scope ss t
    | «return» v => exact closes_pure fun u g w hw => (hs w hw).grows g
    | _ => exact closes_signal (by simp)

end

theorem closes_call (honest : ∀ f ∈ setting.host.functions, f.Honest) (fuel : Nat) :
    (Eval.call setting fuel).Closes := by
  induction fuel with
  | zero => exact fun _ _ _ _ _ => closes_throw _
  | succ fuel ih =>
    intro s f values line h
    rw [Eval.call]
    refine closes_bind (closes_ask (P := fun _ _ => True) fun _ _ _ => trivial)
      fun found t g _ => ?_
    cases found with
    | none => exact closes_throw _
    | some c =>
      dsimp only
      split
      · exact closes_throw _
      · refine closes_bind (closes_arguments c.name line 1 _ values fun v hv => (h v hv).grows g)
          fun fitted u _ hfitted => ?_
        cases c with
        | builtin b =>
          exact closes_bind (closes_builtin fitted b) fun v _ _ hv => closes_result hv _ line
        | host name _ =>
          exact closes_bind (closes_hostFunction honest name hfitted) fun v _ _ hv =>
            closes_result hv _ line
        | script header body closure =>
          refine closes_bind (Q := Given) ?_ fun v _ _ hv => closes_result hv _ line
          refine closes_bind (closes_allocate (P := fun _ _ => True) fun t closed _ =>
            ⟨closed.newScope _, trivial⟩) fun scope t' g' _ => ?_
          refine closes_bind (closes_parameters scope header.parameters fitted fun v hv =>
            (hfitted v hv).grows g') fun _ t'' _ _ => ?_
          refine closes_bind (closes_stmts ih fuel scope body t'') fun signal _ _ hs => ?_
          cases signal with
          | «return» v => exact closes_pure fun _ g => (hs v rfl).grows g
          | _ => exact closes_pure fun _ _ => trivial

end Programs

/-! ## Requests -/

/-- The host brings along only arrays and functions that there are. -/
def Request.Given (s : Store) : Request ω → Prop
  | .write _ v => s.Has v
  | .work arrays _ => Store.Closed { s with arrays } ∧ s.Grows { s with arrays }
  | _ => True

/-- A request leaves the store of a machine closed. -/
theorem Machine.closed_serve {m : Machine ω} {host : Host ω}
    (honest : ∀ f ∈ host.functions, f.Honest) (closed : m.store.Closed) (statements : List Stmt)
    (fuel : Nat) {request : Request ω} (given : request.Given m.store) :
    (m.serve host statements fuel request).2.store.Closed ∧
      m.store.Grows (m.serve host statements fuel request).2.store := by
  have calls : (Eval.call (m.setting host) fuel).Closes := closes_call honest fuel
  -- Each part of a request starts in the store of the machine.
  have closes : ∀ {act : Eval ω Unit}, Closes m.store act (fun _ _ => True) →
      act.Ends m.begin (fun _ r => r.store.Closed ∧ m.store.Grows r.store)
        fun _ r => r.store.Closed ∧ m.store.Grows r.store :=
    fun ends => (ends m.begin closed (.refl _)).mono (fun _ _ h => h.1) fun _ _ h => h
  have ends : (m.order host statements fuel request).Ends m.begin
      (fun _ r => r.store.Closed ∧ m.store.Grows r.store)
      fun _ r => r.store.Closed ∧ m.store.Grows r.store := by
    cases request with
    | interpret =>
      exact closes (closes_bind (closes_stmts calls fuel m.globals statements m.store)
        fun _ _ _ _ => closes_pure fun _ _ => trivial)
    | call name =>
      exact closes (closes_bind (closes_expr calls m.globals (.globalCall name) m.store)
        fun _ _ _ _ => closes_pure fun _ _ => trivial)
    | wait clock => exact closes (closes_pure fun _ _ => trivial)
    | write name v =>
      rw [order]
      cases host.external? name with
      | none => exact closes (closes_pure fun _ _ => trivial)
      | some external =>
        exact closes (closes_bind (closes_assign given m.globals .detached _)
          fun _ _ _ _ => closes_pure fun _ _ => trivial)
    | work arrays world => exact given
  refine serve_of_ends (P := fun _ m' => m'.store.Closed ∧ m.store.Grows m'.store)
    (ends.mono ?_ ?_)
  · exact fun _ _ h _ => h
  · exact fun _ _ h _ => h

end TickScript
