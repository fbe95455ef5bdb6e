import TickScript.Proofs.Histories

/-!
# Names are defined once

A declaration, of a variable, a parameter or a function, defines its name in the scope that the
run is in, and this is an error if the scope binds the name already. Resolution has made sure that
it never does: each round of a loop, each call and each block gets a scope of its own, and in one
scope a program declares a name once.

Nothing in a program catches an error. So a run that does not end with this error has not met it
on the way either, and every definition that it performed found its name unbound.
-/

namespace TickScript

variable {ω α β : Type}

namespace Eval

/-- The run of `act` from `run` comes to perform `step` in the state `r`: `step` is what `act` is
made up of, by way of what is done first and what is done after it. -/
inductive Performs (step : Eval ω β) (r : Run ω) : {α : Type} → Eval ω α → Run ω → Prop where
  | self : Performs step r step r
  | first {α γ : Type} {x : Eval ω γ} {f : γ → Eval ω α} {run : Run ω}
      (h : Performs step r x run) : Performs step r (x >>= f) run
  | next {α γ : Type} {x : Eval ω γ} {f : γ → Eval ω α} {run r' : Run ω} {c : γ}
      (done : x run = .ok c r') (h : Performs step r (f c) r') : Performs step r (x >>= f) run

/-- An error of a step that is performed is the error of the whole run. -/
theorem Performs.error {step : Eval ω β} {act : Eval ω α} {r run : Run ω}
    (h : Performs step r act run) {i : Interrupt} {r' : Run ω} (e : step r = .error i r') :
    act run = .error i r' := by
  induction h with
  | self => exact e
  | @first _ _ x f run _ ih =>
    show EStateM.bind x f run = _
    rw [EStateM.bind, ih]
  | @next _ _ x f run _ c done _ ih =>
    show EStateM.bind x f run = _
    rw [EStateM.bind, done]
    exact ih

/-- A program that begins with a function performs the definition of its name. -/
theorem performs_function (setting : Setting ω) (fuel : Nat) (header : Header)
    (body rest : List Stmt) (run : Run ω) :
    Performs (define setting.globals header.name (.function run.store.functions.size))
      { run with store := (run.store.newFunction (.script header body setting.globals)).2 }
      (program setting fuel (.function header body :: rest)) run := by
  rw [program, stmts, stmt]
  exact .first (.first (.next rfl (.first .self)))

/-- Every definition that is performed finds its name unbound. -/
def DefinesNew (act : Eval ω α) (run : Run ω) : Prop :=
  ∀ scope name v r, Performs (define scope name v) r act run → r.store.binds scope name.lexeme = false

/-- A run without the error has performed no definition that would have raised it. -/
theorem definesNew_of_ends {act : Eval ω α} {run : Run ω} {ok : α → Run ω → Prop}
    (h : act.Ends run ok fun i _ => i.Mild) : act.DefinesNew run := by
  intro scope name v r performs
  rw [Bool.eq_false_iff]
  intro bound
  have raised : (define scope name v : Eval ω Unit) r =
      .error (.error ⟨name.line, .alreadyDefined name.lexeme⟩) r := by
    simp [define, onStore, Store.define, bound]
  exact h.of_error (performs.error raised) name.line name.lexeme rfl

end Eval

namespace Machine

variable {host : Host ω} {m : Machine ω}

/-- A new outermost scope has only the names that every program finds there. -/
theorem only_reset (m : Machine ω) (host : Host ω) (distances : Table ExprId Nat) :
    (m.reset host distances).store.Only (.outermost host.top) (m.reset host distances).globals where
  there := by
    show m.store.scopes.size < (newGlobals host m.store).2.scopes.size
    rw [(begun host m.store).size]
    exact Nat.lt_succ_self _
  names n hb := Frame.ofNames_iff.2 ((begun host m.store).names n hb)

/-- The first run of an accepted program. -/
theorem program_mild {source : String} {c : Compilation}
    (outside : ∀ f ∈ host.functions, f.Outside) (hc : Compiled source host c)
    (makes : EachStmt (fun _ => True) (Stmt.Makes host.Accepts) c.statements)
    (scripts : m.store.Scripts host.Accepts)
    (only : m.store.Only (.outermost host.top) m.globals) (fuel : Nat) :
    (∀ line name, (m.interpret host fuel c.statements).1 ≠
        .error (.error ⟨line, .alreadyDefined name⟩)) ∧
      (Eval.program (m.setting host) fuel c.statements).DefinesNew m.begin := by
  refine ⟨fun line name h => ?_, Eval.definesNew_of_ends ((settles_program outside hc makes scripts
    (fun _ : True => only) fuel).result.mono (fun _ _ h => h) fun _ _ h => h.2 trivial)⟩
  exact (finish_program outside hc makes scripts (fun _ : True => only) fuel).2 _ h trivial line name
    rfl

/-- The value of an expression. -/
theorem detached_mild (outside : ∀ f ∈ host.functions, f.Outside)
    (scripts : m.store.Scripts host.Accepts) (fuel : Nat) (e : Expr) :
    (∀ line name, (m.evaluate host fuel e).1 ≠ .error (.error ⟨line, .alreadyDefined name⟩)) ∧
      (Eval.detached (m.setting host) fuel e).DefinesNew m.begin := by
  have ends := (settles_detached outside scripts fuel e).result
  refine ⟨fun line name h => ?_, Eval.definesNew_of_ends (ends.mono (fun _ _ h => h)
    fun _ _ h => h.2 trivial)⟩
  exact (finish_of_ends ends).2 _ h trivial line name rfl

end Machine

/-- No name is defined twice in a scope. A machine, whatever it has been through, takes up an accepted
program. When it runs this program for the first time then the run does not end with the error that
a name is defined already, and each definition on the way finds its name unbound. And so it is with
every call and every other expression that is evaluated later, by this machine or by any other. -/
theorem names_defined_once {source : String} {host : Host ω}
    (outside : ∀ f ∈ host.functions, f.Outside)
    (accepted : (compile source host).accepted = true) {m : Machine ω} (reached : m.Reached host)
    (fuel : Nat) :
    ((∀ line name, ((m.reset host (compile source host).distances).interpret host fuel
        (compile source host).statements).1 ≠ .error (.error ⟨line, .alreadyDefined name⟩)) ∧
      (Eval.program ((m.reset host (compile source host).distances).setting host) fuel
        (compile source host).statements).DefinesNew
        (m.reset host (compile source host).distances).begin) ∧
    ∀ later : Machine ω, later.Reached host → ∀ fuel e,
      (∀ line name, (later.evaluate host fuel e).1 ≠
        .error (.error ⟨line, .alreadyDefined name⟩)) ∧
      (Eval.detached (later.setting host) fuel e).DefinesNew later.begin :=
  ⟨Machine.program_mild outside (compiled accepted) (accepted_makes accepted)
      ((reached.reset _).scripts outside) (m.only_reset host _) fuel,
    fun _ reached fuel e => Machine.detached_mild outside (reached.scripts outside) fuel e⟩

/-- A program that calls itself and comes to the same declarations again. -/
def againSource : String :=
  "int f(int n) { int k = n; if (k > 0) { int j = f(k - 1); return j; } return k; } int a = f(2);"

abbrev again : Compilation :=
  compile againSource (Host.empty : Host Unit)

/-- The machine that runs it. -/
abbrev againMachine : Machine Unit :=
  (Machine.start Host.empty .empty ()).reset Host.empty again.distances

/-- Does a function come first? -/
def functionFirst : List Stmt → Bool
  | .function header _ :: _ => header.name.lexeme == "f"
  | _ => false

theorem again_runs : again.accepted = true ∧ functionFirst again.statements = true := by
  decide +kernel

/-- The first definition in `againSource` is that of the function, and it finds its name unbound. -/
theorem names_defined_once_again :
    (∀ line name, (againMachine.interpret Host.empty 9 again.statements).1 ≠
        .error (.error ⟨line, .alreadyDefined name⟩)) ∧
      ∃ name v r, name.lexeme = "f" ∧
        Eval.Performs (Eval.define againMachine.globals name v) r
          (Eval.program (againMachine.setting Host.empty) 9 again.statements) againMachine.begin ∧
        r.store.binds againMachine.globals name.lexeme = false := by
  have started : (Machine.start Host.empty .empty ()).Reached (Host.empty : Host Unit) :=
    .start () (by simp [Store.empty])
  obtain ⟨⟨mild, defines⟩, -⟩ :=
    names_defined_once (by simp [Host.empty]) again_runs.1 started 9
  refine ⟨mild, ?_⟩
  have first := again_runs.2
  unfold functionFirst at first
  split at first
  · next header body rest e =>
    have performs := Eval.performs_function (againMachine.setting Host.empty) 9 header body rest
      againMachine.begin
    rw [← e] at performs
    exact ⟨header.name, _, _, eq_of_beq first, performs, defines _ _ _ _ performs⟩
  · cases first

end TickScript
