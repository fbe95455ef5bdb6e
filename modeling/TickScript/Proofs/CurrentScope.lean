import TickScript.Proofs.Closures
import TickScript.Proofs.Grammar.Statements

/-!
# The current scope

The evaluator is told in which scope it is. A machine that walks keeps this scope in its state: a
block and the body of a function go to a scope of their own and come back from it whatever happens
there (`Roaming.inside`), and everything else is done where the machine is. Both ways of running
are the same (`Roaming.expr_same`, `Roaming.stmt_same`, `Roaming.call_same`).

With the scope as part of the state it can be said that a program never loses its place
(`scopes_stay`). Whatever is evaluated or executed, and however it ends, the machine is back in the
scope it was in, and the scopes that were there bind the names that they bound before. Only a
declaration adds a name, its own, and only to the current scope. No declaration stands
directly behind a condition, so this holds of conditionals and loops as well.
-/

namespace TickScript

variable {ω α β : Type}

/-- What a run changes, and the scope it is in. -/
structure Spot (ω : Type) where
  run : Run ω
  scope : ScopeId

/-- A run that has its scope in its state. -/
abbrev Roaming (ω : Type) := EStateM Interrupt (Spot ω)

/-- How a function is called by a run that has its scope in its state. -/
abbrev Calling (ω : Type) := FunctionId → List Value → Nat → Roaming ω Value

namespace Roaming

/-! ## Walking -/

/-- Does something in the current scope and stays there. -/
def here (act : ScopeId → Eval ω α) : Roaming ω α := fun p =>
  match act p.scope p.run with
  | .ok a run => .ok a { p with run }
  | .error i run => .error i { p with run }

/-- Does something in another scope and comes back, whatever the outcome. -/
def inside (scope : ScopeId) (act : Roaming ω α) : Roaming ω α := fun p =>
  match act { p with scope } with
  | .ok a q => .ok a { q with scope := p.scope }
  | .error i q => .error i { q with scope := p.scope }

/-- Where an action leads, whatever the outcome. -/
def after (act : Roaming ω α) (p : Spot ω) : Spot ω :=
  match act p with
  | .ok _ q => q
  | .error _ q => q

theorem here_pure (a : α) : (here fun _ => pure a : Roaming ω α) = pure a := rfl

theorem here_bind (x : ScopeId → Eval ω β) (f : ScopeId → β → Eval ω α) :
    (here fun c => x c >>= f c) = here x >>= fun b => here fun c => f c b := by
  funext p
  show here (fun c => EStateM.bind (x c) (f c)) p =
    EStateM.bind (here x) (fun b => here fun c => f c b) p
  simp only [here, EStateM.bind]
  cases x p.scope p.run <;> rfl

theorem here_ite (b : Bool) (x y : ScopeId → Eval ω α) :
    (here fun c => if b then x c else y c) = if b then here x else here y := by
  cases b <;> rfl

theorem inside_here (scope : ScopeId) (act : ScopeId → Eval ω α) :
    inside scope (here act) = here fun _ => act scope := by
  funext p
  simp only [inside, here]
  cases act scope p.run <;> rfl

/-- What holds at each end of a run holds where the action leads. -/
theorem after_here {act : ScopeId → Eval ω α} {p : Spot ω} {P : Spot ω → Prop}
    (h : (act p.scope).Ends p.run (fun _ run => P { p with run }) fun _ run => P { p with run }) :
    P ((here act).after p) := by
  unfold after here
  cases e : act p.scope p.run with
  | ok a run => exact h.of_ok e
  | error i run => exact h.of_error e

/-! ## Expressions -/

mutual

/-- The value of an expression in the current scope. -/
def expr (setting : Setting ω) (apply : Calling ω) : Expr → Roaming ω Value
  | .literal _ value _ => return .ofLiteral value
  | .grouping _ inner => expr setting apply inner
  | .unary _ operator right => do
    let v ← expr setting apply right
    here fun _ => Eval.demand fun _ => (Operator.unary operator v).mapError (⟨operator.line, ·⟩)
  | .binary _ left operator right => do
    let l ← expr setting apply left
    let r ← expr setting apply right
    here fun _ => Eval.demand fun s =>
      (Operator.binary s operator l r).mapError (⟨operator.line, ·⟩)
  | .logical _ left operator right => do
    let l ← expr setting apply left
    if Operator.decides operator l then return l else expr setting apply right
  | .var id name => here fun scope => Eval.read setting scope id name
  | .index id name position => do
    let target ← here fun scope => Eval.read setting scope id name
    let index ← expr setting apply position
    here fun _ => Eval.item name target index
  | .assign id name value => do
    let v ← expr setting apply value
    here fun scope => Eval.assign setting scope id name v
  | .assignIndex id name position value => do
    let index ← expr setting apply position
    let v ← expr setting apply value
    here fun scope => Eval.assignItem setting scope id name index v
  | .assignElements id name elements => do
    let values ← exprs setting apply elements
    let v ← here fun _ => Eval.newArray values
    here fun scope => Eval.assign setting scope id name v
  | .call _ callee paren arguments => do
    let function ← expr setting apply callee
    let values ← exprs setting apply arguments
    match function with
    | .function f => apply f values paren.line
    | _ => here fun _ => Eval.fail paren.line .notCallable

def exprs (setting : Setting ω) (apply : Calling ω) : List Expr → Roaming ω (List Value)
  | [] => return []
  | e :: es => do
    let v ← expr setting apply e
    return v :: (← exprs setting apply es)

end

/-! ## Statements -/

/-- Rounds of a loop, at most `limit` of them. -/
def rounds (test : Roaming ω Bool) (body : Roaming ω Signal) : (limit : Nat) → Roaming ω Signal
  | 0 => here fun _ => throw .exhausted
  | limit + 1 => do
    if ← test then
      match ← body with
      | .break => return .normal
      | .return v => return .return v
      | .normal => rounds test body limit
      | .continue => rounds test body limit
    else return .normal

/-- The value with which a variable starts. -/
def initial (setting : Setting ω) (apply : Calling ω) (type : Ty) :
    Initializer → Roaming ω Value
  | .zero => here fun _ => Eval.allocate (·.zero type)
  | .value e => expr setting apply e
  | .elements es => do
    let values ← exprs setting apply es
    here fun _ => Eval.newArray values

/-- Does a condition hold? -/
def holds (setting : Setting ω) (apply : Calling ω) (e : Expr) : Roaming ω Bool := do
  return (← expr setting apply e).isTruthy

mutual

/-- Runs a statement in the current scope. A block is run inside of a new one. -/
def stmt (setting : Setting ω) (apply : Calling ω) (limit : Nat) : Stmt → Roaming ω Signal
  | .expression e => do
    let _ ← expr setting apply e
    return .normal
  | .block body => do
    let inner ← here fun scope => Eval.allocate (·.newScope (some scope))
    inside inner (stmts setting apply limit body)
  | .declare name type start => do
    let v ← initial setting apply type start
    let w ← here fun _ => Eval.fitTo type v name.line (.badInitializer name.lexeme)
    here fun scope => Eval.define scope name w
    return .normal
  | .ifThen _ test yes => do
    if ← holds setting apply test then stmt setting apply limit yes else return .normal
  | .ifElse _ test yes no => do
    if ← holds setting apply test then stmt setting apply limit yes
    else stmt setting apply limit no
  | .while _ test body =>
    rounds (holds setting apply test) (stmt setting apply limit body) limit
  | .return _ none => return .return .nil
  | .return _ (some e) => do
    return .return (← expr setting apply e)
  | .break _ => return .break
  | .continue _ => return .continue
  | .function header body => do
    let f ← here fun scope => Eval.allocate (·.newFunction (.script header body scope))
    here fun scope => Eval.define scope header.name (.function f)
    return .normal

def stmts (setting : Setting ω) (apply : Calling ω) (limit : Nat) :
    List Stmt → Roaming ω Signal
  | [] => return .normal
  | s :: ss => do
    match ← stmt setting apply limit s with
    | .normal => stmts setting apply limit ss
    | signal => return signal

end

/-! ## Calls -/

/-- Runs the body of a script function inside of a new scope around its closure. -/
def scriptFunction (setting : Setting ω) (apply : Calling ω) (limit : Nat) (header : Header)
    (body : List Stmt) (closure : ScopeId) (values : List Value) : Roaming ω Value := do
  let scope ← here fun _ => Eval.allocate (·.newScope (some closure))
  here fun _ => Eval.parameters scope header.parameters values
  match ← inside scope (stmts setting apply limit body) with
  | .return v => return v
  | _ => return .nil

/-- Calls a function from the current scope. -/
def call (setting : Setting ω) : (fuel : Nat) → Calling ω
  | 0, _, _, _ => here fun _ => throw .exhausted
  | fuel + 1, f, values, line => do
    match ← here fun _ => Eval.ask fun s => s.functions[f]? with
    | none => here fun _ => Eval.fail line .notCallable
    | some c =>
      if values.length ≠ c.arity then
        here fun _ => Eval.fail line (.wrongArity c.arity values.length)
      else
        let fitted ← here fun _ =>
          Eval.arguments c.name line 1 c.signature.parameters values
        let v ←
          match c with
          | .script header body closure =>
            scriptFunction setting (call setting fuel) fuel header body closure fitted
          | .builtin b => here fun _ => Eval.builtin setting fitted b
          | .host name _ => here fun _ => Eval.hostFunction setting name fitted
        here fun _ => Eval.result c line v

end Roaming

/-! ## Both ways are the same -/

/-- Calls do what they do in the evaluator, and come back to the scope they are made from. -/
def Calling.Does (apply : Calling ω) (act : Apply ω) : Prop :=
  ∀ f values line, apply f values line = Roaming.here fun _ => act f values line

namespace Roaming

section Same

variable {setting : Setting ω} {limit : Nat} {act : Apply ω} {apply : Calling ω}

mutual

/-- If calls are the same then so is every expression. -/
theorem expr_same (h : apply.Does act) :
    (e : Expr) → expr setting apply e = here fun scope => Eval.expr setting act scope e
  | .literal id value line => by simp only [expr, Eval.expr, here_pure]
  | .grouping id inner => by simp only [expr, Eval.expr, expr_same h inner]
  | .unary id operator right => by simp only [expr, Eval.expr, here_bind, expr_same h right]
  | .binary id left operator right => by
    simp only [expr, Eval.expr, here_bind, expr_same h left, expr_same h right]
  | .logical id left operator right => by
    simp only [expr, Eval.expr, here_bind, here_ite, here_pure, expr_same h left, expr_same h right]
  | .var id name => by simp only [expr, Eval.expr]
  | .index id name position => by
    simp only [expr, Eval.expr, here_bind, expr_same h position]
  | .assign id name value => by simp only [expr, Eval.expr, here_bind, expr_same h value]
  | .assignIndex id name position value => by
    simp only [expr, Eval.expr, here_bind, expr_same h position, expr_same h value]
  | .assignElements id name elements => by
    simp only [expr, Eval.expr, here_bind, exprs_same h elements]
  | .call id callee paren arguments => by
    simp only [expr, Eval.expr, here_bind, expr_same h callee, exprs_same h arguments]
    congr 1
    funext function
    congr 1
    funext values
    cases function with
    | function f => exact h f values paren.line
    | _ => rfl

theorem exprs_same (h : apply.Does act) :
    (es : List Expr) → exprs setting apply es = here fun scope => Eval.exprs setting act scope es
  | [] => by simp only [exprs, Eval.exprs, here_pure]
  | e :: es => by
    simp only [exprs, Eval.exprs, here_bind, here_pure, expr_same h e, exprs_same h es]

end

theorem rounds_same (test : ScopeId → Eval ω Bool) (body : ScopeId → Eval ω Signal) (limit : Nat) :
    rounds (here test) (here body) limit =
      here fun scope => Eval.rounds (test scope) (body scope) limit := by
  induction limit with
  | zero => rfl
  | succ limit ih =>
    simp only [rounds, Eval.rounds, here_bind, here_ite, here_pure]
    congr 1
    funext holds
    cases holds with
    | false => rfl
    | true =>
      simp only [if_true]
      congr 1
      funext signal
      cases signal with
      | normal => exact ih
      | «continue» => exact ih
      | «break» => rfl
      | «return» v => rfl

theorem holds_same (h : apply.Does act) (e : Expr) :
    holds setting apply e = here fun scope => Eval.holds setting act scope e := by
  simp only [holds, Eval.holds, here_bind, here_pure, expr_same h e]

theorem initial_same (h : apply.Does act) (type : Ty) (start : Initializer) :
    initial setting apply type start =
      here fun scope => Eval.initial setting act scope type start := by
  cases start with
  | zero => rfl
  | value e => exact expr_same h e
  | elements es => simp only [initial, Eval.initial, here_bind, exprs_same h es]

mutual

/-- If calls are the same then so is every statement. -/
theorem stmt_same (h : apply.Does act) :
    (s : Stmt) → stmt setting apply limit s =
      here fun scope => Eval.stmt setting act limit scope s
  | .expression e => by simp only [stmt, Eval.stmt, here_bind, here_pure, expr_same h e]
  | .block body => by
    -- What is done inside of the new scope is what the evaluator does when told to be there.
    simp only [stmt, Eval.stmt, here_bind, stmts_same h body, inside_here]
  | .declare name type start => by
    simp only [stmt, Eval.stmt, here_bind, here_pure, initial_same h type start]
  | .ifThen keyword test yes => by
    simp only [stmt, Eval.stmt, here_bind, here_ite, here_pure, holds_same h test, stmt_same h yes]
  | .ifElse keyword test yes no => by
    simp only [stmt, Eval.stmt, here_bind, here_ite, holds_same h test, stmt_same h yes,
      stmt_same h no]
  | .while keyword test body => by
    simp only [stmt, Eval.stmt, holds_same h test, stmt_same h body, rounds_same]
  | .return keyword none => by simp only [stmt, Eval.stmt, here_pure]
  | .return keyword (some e) => by
    simp only [stmt, Eval.stmt, here_bind, here_pure, expr_same h e]
  | .break keyword => by simp only [stmt, Eval.stmt, here_pure]
  | .continue keyword => by simp only [stmt, Eval.stmt, here_pure]
  | .function header body => by simp only [stmt, Eval.stmt, here_bind, here_pure]

theorem stmts_same (h : apply.Does act) :
    (ss : List Stmt) → stmts setting apply limit ss =
      here fun scope => Eval.stmts setting act limit scope ss
  | [] => by simp only [stmts, Eval.stmts, here_pure]
  | s :: ss => by
    simp only [stmts, Eval.stmts, here_bind, stmt_same h s]
    congr 1
    funext signal
    cases signal with
    | normal => exact stmts_same h ss
    | _ => rfl

end

theorem scriptFunction_same (h : apply.Does act) (header : Header) (body : List Stmt)
    (closure : ScopeId) (values : List Value) :
    scriptFunction setting apply limit header body closure values =
      here fun _ => Eval.scriptFunction setting act limit header body closure values := by
  simp only [scriptFunction, Eval.scriptFunction, here_bind, stmts_same h body, inside_here]
  congr 1
  funext scope
  congr 1
  funext _
  congr 1
  funext signal
  cases signal <;> rfl

/-- A call comes back to the scope from which it was made, and does what the evaluator does. -/
theorem call_same (setting : Setting ω) (fuel : Nat) :
    (call setting fuel).Does (Eval.call setting fuel) := by
  induction fuel with
  | zero => exact fun _ _ _ => rfl
  | succ fuel ih =>
    intro f values line
    simp only [call, Eval.call, here_bind]
    congr 1
    funext found
    cases found with
    | none => rfl
    | some c =>
      dsimp only
      split
      · rfl
      · rw [here_bind]
        congr 1
        funext fitted
        cases c with
        | script header body closure =>
          dsimp only
          rw [scriptFunction_same ih]
          exact (here_bind _ _).symm
        | builtin b => exact (here_bind _ _).symm
        | host name signature => exact (here_bind _ _).symm

end Same

end Roaming

/-! ## Names of the scopes that are there -/

/-- Back in the same scope, and no scope that was there has other names. -/
structure Spot.Same (p q : Spot ω) : Prop where
  scope : q.scope = p.scope
  names : ∀ c < p.run.store.scopes.size, ∀ n, q.run.store.binds c n = p.run.store.binds c n

/-- Back in the same scope, which is the only one that may have a new name, and only this one. -/
structure Spot.Gains (name : String) (p q : Spot ω) : Prop where
  scope : q.scope = p.scope
  still : ∀ c n, p.run.store.binds c n = true → q.run.store.binds c n = true
  names : ∀ c < p.run.store.scopes.size, ∀ n, q.run.store.binds c n = true →
    p.run.store.binds c n = true ∨ (c = p.scope ∧ n = name)

section Statements

variable {host : Host ω} {may : Permits} {K : Option ScopeId → Store → Store → Prop}
  {setting : Setting ω} {fuel : Nat} {p : Spot ω}

/-- If calls stay within `K` then so does every permitted statement that declares nothing where it
stands, and no scope is free to grow. -/
theorem keeps_plain (steady : Steady host may K)
    (hcall : ∀ free s₀, CallsKeep setting may K free s₀ fuel) (scope : ScopeId) (s₀ : Store) :
    (s : Stmt) → s.Each may.Node may.Part → (∀ part ∈ s.parts, part.Regular) → s.binds? = none →
      Keeps setting may K none s₀ (Eval.stmt setting (Eval.call setting fuel) fuel scope s)
        (Walk.stmt setting fuel (Walk.call setting fuel) scope s)
  | .expression e, h, _, _ => by
    rw [Eval.stmt, Walk.stmt]
    exact moves_last (keeps_expr steady (hcall _ _) scope e (Stmt.each_expression.1 h).2)
      fun _ => moves_pure steady _
  | .block body, h, _, _ => by
    rw [Eval.stmt, Walk.stmt]
    exact moves_enter steady fun c s₁ =>
      keeps_stmts steady hcall c s₁ body (Stmt.each_block.1 h).2
  | .declare name type start, _, _, plain => nomatch plain
  | .ifThen keyword test yes, h, g, _ => by
    obtain ⟨-, ht, hy⟩ := Stmt.each_ifThen.1 h
    obtain ⟨plain, gy⟩ := List.forall_mem_cons.1 g
    rw [Eval.stmt, Walk.stmt]
    refine moves_bind (keeps_holds steady (hcall _ _) scope test ht) fun holds => ?_
    split
    · exact keeps_plain steady hcall scope s₀ yes hy gy plain
    · exact moves_pure steady _
  | .ifElse keyword test yes no, h, g, _ => by
    obtain ⟨-, ht, hy, hn⟩ := Stmt.each_ifElse.1 h
    obtain ⟨plain, g⟩ := List.forall_mem_cons.1 g
    obtain ⟨gy, gn⟩ := List.forall_mem_append.1 g
    rw [Eval.stmt, Walk.stmt]
    refine moves_bind (keeps_holds steady (hcall _ _) scope test ht) fun holds => ?_
    split
    · exact keeps_plain steady hcall scope s₀ yes hy gy plain.1
    · exact keeps_plain steady hcall scope s₀ no hn gn plain.2
  | .while keyword test body, h, g, _ => by
    obtain ⟨-, ht, hb⟩ := Stmt.each_while.1 h
    obtain ⟨plain, gb⟩ := List.forall_mem_cons.1 g
    rw [Eval.stmt, Walk.stmt]
    exact keeps_rounds steady (keeps_holds steady (hcall _ _) scope test ht)
      (keeps_plain steady hcall scope s₀ body hb gb plain) fuel
  | .return keyword none, _, _, _ => by
    rw [Eval.stmt, Walk.stmt]
    exact moves_pure steady _
  | .return keyword (some e), h, _, _ => by
    rw [Eval.stmt, Walk.stmt]
    exact moves_last (keeps_expr steady (hcall _ _) scope e ((Stmt.each_return.1 h).2 e rfl))
      fun _ => moves_pure steady _
  | .break keyword, _, _, _ => by
    rw [Eval.stmt, Walk.stmt]
    exact moves_pure steady _
  | .continue keyword, _, _, _ => by
    rw [Eval.stmt, Walk.stmt]
    exact moves_pure steady _
  | .function header body, _, _, plain => nomatch plain

/-- If no scope is free to grow, every scope binds what it bound. -/
theorem Store.Kept.binds_eq {s t : Store} (h : Store.Kept may none s t) {c : ScopeId}
    (hc : c < s.scopes.size) (n : String) : t.binds c n = s.binds c n :=
  h.names c hc (Option.some_ne_none c).symm n

/-- What is plain leaves the names as they were. -/
theorem Spot.same_after {α : Type} {act : ScopeId → Eval ω α} {walk : Walk ω}
    (h : Keeps setting .everything (Store.Kept .everything) none p.run.store (act p.scope) walk) :
    p.Same ((Roaming.here act).after p) := by
  have follows := (h p.run (Store.bodies_everything _) (Store.Kept.refl _ _ _)).all
    Event.spares_nothing
  refine Roaming.after_here (follows.result.mono ?_ ?_)
  · exact fun _ _ r => ⟨rfl, fun c hc n => r.2.binds_eq hc n⟩
  · exact fun _ _ r => ⟨rfl, fun c hc n => r.1.2.binds_eq hc n⟩

theorem Spot.gains_kept {run : Run ω} (name : String)
    (h : Store.Kept .everything none p.run.store run.store) : p.Gains name { p with run } where
  scope := rfl
  still := h.still
  names _ hc n hb := .inl ((h.binds_eq hc n).symm.trans hb)

/-- A new name is bound in the current scope, behind what leaves all names as they were. -/
theorem Spot.gains_bind {run : Run ω} {name : String} {v : Value}
    (h : Store.Kept .everything none p.run.store run.store)
    (new : run.store.binds p.scope name = false) :
    p.Gains name { p with run := { run with store := run.store.bind p.scope name v } } where
  scope := rfl
  still := (h.weaken.trans (Store.Kept.of_define new)).still
  names c hc n hb := by
    by_cases own : c = p.scope ∧ n = name
    · exact .inr own
    · have other : c ≠ p.scope ∨ n ≠ name := Decidable.not_and_iff_or_not.1 own
      rw [Store.binds, Store.lookup_bind_of_ne other, ← Store.binds, h.binds_eq hc n] at hb
      exact .inl hb

/-- To define a name behind what leaves all names as they were. -/
theorem Spot.gains_define {run : Run ω} {name : Token} {v : Value} {signal : Signal}
    (h : Store.Kept .everything none p.run.store run.store) :
    (do Eval.define p.scope name v; return signal : Eval ω Signal).Ends run
      (fun _ run => p.Gains name.lexeme { p with run })
      (fun _ run => p.Gains name.lexeme { p with run }) := by
  refine Eval.ends_bind.2 ((Eval.ends_define p.scope name v).2 ?_)
  split
  · exact gains_kept name.lexeme h
  · next new => exact (Eval.ends_pure _).2 (gains_bind h (Bool.eq_false_iff.2 new))

/-- A declaration, whatever it declares, adds at most its own name to the current scope. -/
theorem Spot.gains_after (outside : ∀ f ∈ setting.host.functions, f.Outside) (fuel : Nat)
    {s : Stmt} {name : String} (declares : s.binds? = some name) (p : Spot ω) :
    p.Gains name ((Roaming.here fun scope =>
      Eval.stmt setting (Eval.call setting fuel) fuel scope s).after p) := by
  have steady := steady_kept outside .everything
  refine Roaming.after_here ?_
  cases s with
  | declare token type start =>
    cases declares
    rw [Eval.stmt]
    have value := keeps_initial steady (keeps_call setting steady fuel none p.run.store)
      p.scope type start (Initializer.each_iff.2 fun node _ => Permits.node_everything node)
    have follows := (value p.run (Store.bodies_everything _) (steady.refl _ _)).all
      Event.spares_nothing
    refine Eval.ends_bind.2 (follows.result.mono ?_ fun _ _ r => gains_kept _ r.1.2)
    intro v run r
    refine Eval.ends_bind.2 ((Eval.aside_fitTo type v token.line (by simp) run).mono ?_ ?_)
    · exact fun w run' r' => gains_define (r.2.trans (.of_arrays r'.1 r'.2))
    · exact fun _ run' r' => gains_kept _ (r.2.trans (.of_arrays r'.1.1 r'.1.2))
  | function header body =>
    cases declares
    rw [Eval.stmt]
    exact Eval.ends_bind.2 ((Eval.ends_allocate _).2
      (gains_define (Store.Kept.of_newFunction trivial)))
  | _ => cases declares

end Statements

/-! ## Programs -/

/-- A program does not lose its place, and nothing leaks out of the scopes it makes: whatever an
expression or a statement without a declaration of its own comes to, the machine is in the scope
it was in and the scopes that were there have the names they had. A declaration adds no name but
its own, to the current scope. -/
theorem scopes_stay (setting : Setting ω) (outside : ∀ f ∈ setting.host.functions, f.Outside)
    (fuel : Nat) (tokens : List Token) (p : Spot ω) :
    (∀ e, p.Same ((Roaming.expr setting (Roaming.call setting fuel) e).after p)) ∧
      ∀ s ∈ stmtsParts (parse tokens).statements,
        (s.binds? = none →
          p.Same ((Roaming.stmt setting (Roaming.call setting fuel) fuel s).after p)) ∧
        ∀ name, s.binds? = some name →
          p.Gains name ((Roaming.stmt setting (Roaming.call setting fuel) fuel s).after p) := by
  have steady := steady_kept outside .everything
  have calls := keeps_call setting steady fuel
  have same := Roaming.call_same setting fuel
  refine ⟨fun e => ?_, fun s hs => ⟨fun plain => ?_, fun name declares => ?_⟩⟩
  · rw [Roaming.expr_same same]
    exact Spot.same_after (keeps_expr steady (calls _ _) p.scope e
      fun node _ => Permits.node_everything node)
  · rw [Roaming.stmt_same same]
    have regular : ∀ part ∈ s.parts, part.Regular := fun part hp =>
      ((parse_written tokens).2.2 part (stmtsParts_subset _ hs hp)).regular
    exact Spot.same_after (keeps_plain steady calls p.scope _ s
      ⟨fun node _ => Permits.node_everything node, fun part _ => Permits.part_everything part⟩
      regular plain)
  · rw [Roaming.stmt_same same]
    exact Spot.gains_after outside fuel declares p

/-- A block that shadows a name and fails. -/
def shadowing : List Token := (scan "\x7b int x = 2; int y = x / 0; \x7d" ⟨[]⟩).tokens

/-- In a scope that binds `x`. -/
def shadowingSpot : Spot Unit :=
  ⟨⟨⟨#[], #[], #[⟨⟨[("x", .int 1)]⟩, none⟩]⟩, (), #[]⟩, 0⟩

def shadowingRun (s : Stmt) : Roaming Unit Signal :=
  Roaming.stmt ⟨Host.empty, 0, Table.empty, 0⟩
    (Roaming.call ⟨Host.empty, 0, Table.empty, 0⟩ 1) 1 s

/-- The block is left by a runtime error, and yet the scope around it is as it was. -/
theorem scopes_stay_shadowing : ∃ s ∈ stmtsParts (parse shadowing).statements,
    (∃ i q, shadowingRun s shadowingSpot = .error i q) ∧ s.binds? = none ∧
      shadowingSpot.Same ((shadowingRun s).after shadowingSpot) := by
  have fails : (stmtsParts (parse shadowing).statements).any (fun s => s.binds?.isNone &&
      match shadowingRun s shadowingSpot with
      | .ok .. => false
      | .error .. => true) = true := by decide +kernel
  obtain ⟨s, hs, hfails⟩ := List.any_eq_true.1 fails
  obtain ⟨plain, hfails⟩ := Bool.and_eq_true_iff.1 hfails
  have none : s.binds? = none := Option.isNone_iff_eq_none.1 plain
  refine ⟨s, hs, ?_, none, ?_⟩
  · split at hfails
    · cases hfails
    · next i q failed => exact ⟨i, q, failed⟩
  · exact ((scopes_stay ⟨Host.empty, 0, Table.empty, 0⟩ (by simp [Host.empty]) 1 shadowing
      shadowingSpot).2 s hs).1 none

end TickScript
