import TickScript.Proofs.Closures
import TickScript.Proofs.Scripts

/-!
# Histories of machines

A machine lives on from program to program. It takes up a new one, runs it, calls its functions,
and between the runs the host does its own work: it assigns to global names, changes arrays and
lets time go by. Runs may fail at any point, and what they have left in the store stays there.

Through all of this the script functions of the machine are functions of accepted programs. What
resolution has checked of a function therefore holds for every function that a run calls.
-/

namespace TickScript

variable {ω : Type} {host : Host ω} {header : Header} {body : List Stmt}

/-! ## Functions of accepted programs -/

/-- The function is declared in an accepted program for the host, at the top or further in. -/
def Host.Accepts (host : Host ω) (header : Header) (body : List Stmt) : Prop :=
  ∃ source, (compile source host).accepted = true ∧
    .function header body ∈ stmtsParts (compile source host).statements

/-- What is checked of a function by itself. -/
def FunctionChecked (σ : Signatures) (header : Header) (body : List Stmt) : Prop :=
  StmtsChecked σ (some header.returnType) false body ∧
    (Resolve.mustReturn header.returnType = true → alwaysReturnsIn body = true)

mutual

/-- Every function in a checked statement is checked, whatever is around it. -/
theorem Stmt.Checked.function {σ : Signatures} : (s : Stmt) → ∀ {returnType : Option Ty}
    {inLoop : Bool}, s.Checked σ returnType inLoop → .function header body ∈ s.parts →
    FunctionChecked σ header body
  | .expression e, _, _, _, hp => by simp at hp
  | .block ss, _, _, h, hp => by
    rw [Stmt.Checked] at h
    rcases List.mem_cons.1 hp with e | hp
    · cases e
    · exact StmtsChecked.function ss h hp
  | .declare name type start, _, _, _, hp => by simp at hp
  | .ifThen keyword test yes, _, _, h, hp => by
    rw [Stmt.Checked] at h
    rcases List.mem_cons.1 hp with e | hp
    · cases e
    · exact Stmt.Checked.function yes h.2.2 hp
  | .ifElse keyword test yes no, _, _, h, hp => by
    rw [Stmt.Checked] at h
    rcases List.mem_cons.1 hp with e | hp
    · cases e
    · rcases List.mem_append.1 hp with hp | hp
      · exact Stmt.Checked.function yes h.2.2.1 hp
      · exact Stmt.Checked.function no h.2.2.2 hp
  | .while keyword test inner, _, _, h, hp => by
    rw [Stmt.Checked] at h
    rcases List.mem_cons.1 hp with e | hp
    · cases e
    · exact Stmt.Checked.function inner h.2.2 hp
  | .return keyword value, _, _, _, hp => by simp at hp
  | .break keyword, _, _, _, hp => by simp at hp
  | .continue keyword, _, _, _, hp => by simp at hp
  | .function header' ss, _, _, h, hp => by
    rw [Stmt.Checked] at h
    rcases List.mem_cons.1 hp with e | hp
    · cases e
      exact h.2
    · exact StmtsChecked.function ss h.2.1 hp

theorem StmtsChecked.function {σ : Signatures} : (ss : List Stmt) → ∀ {returnType : Option Ty}
    {inLoop : Bool}, StmtsChecked σ returnType inLoop ss → .function header body ∈ stmtsParts ss →
    FunctionChecked σ header body
  | [], _, _, _, hp => by simp at hp
  | s :: ss, _, _, h, hp => by
    rw [StmtsChecked] at h
    rcases List.mem_append.1 hp with hp | hp
    · exact Stmt.Checked.function s h.1 hp
    · exact StmtsChecked.function ss h.2 hp

end

section Accepted

variable {source : String} {c : Compilation}

theorem Compiled.function_checked (hc : Compiled source host c)
    (hp : .function header body ∈ stmtsParts c.statements) : ∃ σ, FunctionChecked σ header body :=
  ⟨_, StmtsChecked.function _ hc.checked hp⟩

theorem Compiled.function_orderly (hc : Compiled source host c)
    (hp : .function header body ∈ stmtsParts c.statements) : Orderly header body := by
  obtain ⟨L, placed, -⟩ := StmtsScoped.part _ hc.placed (fun _ => rfl) hp
  exact ⟨placed.2.2.1, _, _, placed.2.2.2⟩

/-- The return type of a function is one that can be written. -/
theorem Compiled.function_written (hc : Compiled source host c)
    (hp : .function header body ∈ stmtsParts c.statements) : header.returnType.isWild = false := by
  have hw : (Stmt.function header body).Written (tokensOf source host) := hc.written.2 _ hp
  rcases hw.1.cases with e | ⟨s, e⟩ | ⟨s, e⟩ <;> rw [e] <;> rfl

end Accepted

namespace Host.Accepts

theorem checked (h : host.Accepts header body) : ∃ σ, FunctionChecked σ header body := by
  obtain ⟨source, accepted, hp⟩ := h
  exact (compiled accepted).function_checked hp

theorem orderly (h : host.Accepts header body) : Orderly header body := by
  obtain ⟨source, accepted, hp⟩ := h
  exact (compiled accepted).function_orderly hp

theorem written (h : host.Accepts header body) : header.returnType.isWild = false := by
  obtain ⟨source, accepted, hp⟩ := h
  exact (compiled accepted).function_written hp

end Host.Accepts

/-- The functions that the statements of an accepted program make. -/
theorem accepted_makes {source : String} (accepted : (compile source host).accepted = true) :
    EachStmt (fun _ => True) (Stmt.Makes host.Accepts) (compile source host).statements := by
  refine ⟨fun _ _ => trivial, fun part hp => ?_⟩
  cases part with
  | function header body => exact ⟨source, accepted, hp⟩
  | _ => trivial

/-! ## Runs of a machine -/

namespace Machine

variable {m : Machine ω} {first : Prop}

/-- The run of an accepted program. If it is the first one then the outermost scope has only the
names that every program finds there. -/
theorem settles_program {source : String} {c : Compilation}
    (outside : ∀ f ∈ host.functions, f.Outside) (hc : Compiled source host c)
    (makes : EachStmt (fun _ => True) (Stmt.Makes host.Accepts) c.statements)
    (scripts : m.store.Scripts host.Accepts)
    (only : first → m.store.Only (.outermost host.top) m.globals) (fuel : Nat) :
    Settles host.Accepts first (Eval.program (m.setting host) fuel c.statements)
      (Walk.program (m.setting host) fuel c.statements) m.begin
      fun s => s.Scripts host.Accepts := by
  have hcall : CallsMild host.Accepts (m.setting host) fuel :=
    callsMild outside (fun _ _ h => h.orderly) fuel
  have settles : Settles host.Accepts first _ _ m.begin _ :=
    settles_stmts outside (fun _ _ h => h.orderly) hcall _ hc.placed makes ⟨scripts, only⟩
  refine follows_last (settles.mono ?_ fun _ _ _ h => h)
  exact fun _ r _ scripts => (Eval.ends_pure _).2 ⟨trivial, scripts⟩

/-- The run of an expression. -/
theorem settles_detached (outside : ∀ f ∈ host.functions, f.Outside)
    (scripts : m.store.Scripts host.Accepts) (fuel : Nat) (e : Expr) :
    Settles host.Accepts True (Eval.detached (m.setting host) fuel e)
      (Walk.detached (m.setting host) fuel e) m.begin fun s => s.Scripts host.Accepts := by
  have hcall : CallsMild host.Accepts (m.setting host) fuel :=
    callsMild outside (fun _ _ h => h.orderly) fuel
  have settles : Settles host.Accepts True _ _ m.begin _ :=
    Store.Scripts.expr outside (fun _ _ h => h.orderly) hcall scripts m.globals e
  exact settles.mono (fun _ _ _ k => Store.Scripts.kept scripts k) fun _ _ _ h => h

/-- What holds of the store at the end of a run holds of the store of the machine that takes it
up, and what holds of an interrupt holds of its answer. -/
theorem finish_of_ends {α : Type} {act : Eval ω α} {P : Store → Prop} {bad : Interrupt → Prop}
    (h : act.Ends m.begin (fun _ r => P r.store) (fun i r => P r.store ∧ bad i)) :
    P (m.finish (act m.begin)).2.store ∧ ∀ i, (m.finish (act m.begin)).1 = .error i → bad i := by
  cases e : act m.begin with
  | ok a r => exact ⟨h.of_ok e, fun i hi => by cases hi⟩
  | error i r =>
    refine ⟨(h.of_error e).1, fun i' hi => ?_⟩
    cases hi
    exact (h.of_error e).2

/-- What the run of an accepted program comes to. -/
theorem finish_program {source : String} {c : Compilation}
    (outside : ∀ f ∈ host.functions, f.Outside) (hc : Compiled source host c)
    (makes : EachStmt (fun _ => True) (Stmt.Makes host.Accepts) c.statements)
    (scripts : m.store.Scripts host.Accepts)
    (only : first → m.store.Only (.outermost host.top) m.globals) (fuel : Nat) :
    (m.interpret host fuel c.statements).2.store.Scripts host.Accepts ∧
      ∀ i, (m.interpret host fuel c.statements).1 = .error i → first → i.Mild :=
  finish_of_ends (settles_program outside hc makes scripts only fuel).result

/-! ## Histories -/

/-- The machines that a host can have before it. Each step starts from such a machine: a new
outermost scope, with the distances of whichever program comes next; the run of an accepted
program or of an expression, which may fail; an assignment from outside; and the host's own work,
which leaves the scopes and the functions as they are. -/
inductive Reached (host : Host ω) : Machine ω → Prop where
  | start {store : Store} (world : ω) (blank : ∀ k ∈ store.functions, k.isScript = false) :
    Reached host (.start host store world)
  | reset {m : Machine ω} (distances : Table ExprId Nat) (h : Reached host m) :
    Reached host (m.reset host distances)
  | interpret {m : Machine ω} {source : String} (accepted : (compile source host).accepted = true)
      (fuel : Nat) (h : Reached host m) :
    Reached host (m.interpret host fuel (compile source host).statements).2
  | evaluate {m : Machine ω} (fuel : Nat) (e : Expr) (h : Reached host m) :
    Reached host (m.evaluate host fuel e).2
  | assign {m : Machine ω} (name : Token) (v : Value) (h : Reached host m) :
    Reached host (m.assignGlobal name v).2
  | outside {m m' : Machine ω} (scopes : m'.store.scopes = m.store.scopes)
      (functions : m'.store.functions = m.store.functions) (globals : m'.globals = m.globals)
      (distances : m'.distances = m.distances) (h : Reached host m) : Reached host m'

theorem assignGlobal_functions (m : Machine ω) (name : Token) (v : Value) :
    (m.assignGlobal name v).2.store.functions = m.store.functions := by
  unfold assignGlobal Store.assign Store.assignIn
  cases m.store.nearest? name.lexeme m.globals with
  | none => rfl
  | some scope =>
    have frame := Store.coerce_frame name.type v m.store
    dsimp only
    cases hc : Store.coerce name.type v m.store with
    | ok w s => exact (frame.1 w s hc).2
    | error e s => exact (frame.2 e s hc).2

/-- The script functions of a machine are functions of accepted programs. -/
theorem Reached.scripts (outside : ∀ f ∈ host.functions, f.Outside) (h : m.Reached host) :
    m.store.Scripts host.Accepts := by
  induction h with
  | start world blank =>
    intro f header body closure hf
    have := blank _ (Array.mem_of_getElem? ((begun host _).functions f header body closure hf))
    simp [Callable.isScript] at this
  | reset distances _ ih =>
    exact fun f header body closure hf => ih ((begun host _).functions f header body closure hf)
  | interpret accepted fuel _ ih =>
    exact (finish_program outside (compiled accepted) (accepted_makes accepted) ih
      False.elim fuel).1
  | evaluate fuel e _ ih => exact (finish_of_ends (settles_detached outside ih fuel e).result).1
  | assign name v _ ih => exact ih.of_functions (assignGlobal_functions _ name v)
  | outside scopes functions globals distances _ ih => exact ih.of_functions functions

/-- The event happens when the machine runs an accepted program or an expression. -/
def Sees (host : Host ω) (m : Machine ω) (ev : Event ω) : Prop :=
  (∃ source fuel, (compile source host).accepted = true ∧
      ev ∈ Walk.program (m.setting host) fuel (compile source host).statements m.begin) ∨
    ∃ fuel e, ev ∈ Walk.detached (m.setting host) fuel e m.begin

theorem Reached.sees (outside : ∀ f ∈ host.functions, f.Outside) (h : m.Reached host)
    {ev : Event ω} (seen : m.Sees host ev) : ev.store.Scripts host.Accepts := by
  rcases seen with ⟨source, fuel, accepted, hev⟩ | ⟨fuel, e, hev⟩
  · exact (settles_program outside (compiled accepted) (accepted_makes accepted)
      (h.scripts outside) False.elim fuel).events ev hev
  · exact (settles_detached outside (h.scripts outside) fuel e).events ev hev

end Machine

/-! ## Calls -/

/-- The script function that is called, if the expression that is evaluated is a call of one: its
callee gives a function, and this is what it is in the store when the arguments are known too. -/
def Event.called? (setting : Setting ω) : Event ω → Option (Header × List Stmt)
  | .evaluates fuel scope (.call _ callee _ arguments) run =>
    match Eval.expr setting (Eval.call setting fuel) scope callee run with
    | .ok (.function f) r =>
      match Eval.exprs setting (Eval.call setting fuel) scope arguments r with
      | .ok _ r =>
        match r.store.functions[f]? with
        | some (.script header body _) => some (header, body)
        | _ => none
      | .error _ _ => none
    | _ => none
  | _ => none

/-- Only functions of accepted programs are called. -/
theorem Machine.Reached.accepts {m : Machine ω} (outside : ∀ f ∈ host.functions, f.Outside)
    (h : m.Reached host) {ev : Event ω} (seen : m.Sees host ev)
    (called : ev.called? (m.setting host) = some (header, body)) : host.Accepts header body := by
  have scripts := h.sees outside seen
  unfold Event.called? at called
  split at called
  case h_2 => cases called
  case h_1 fuel scope _ callee _ arguments run =>
    have hcall : CallsMild host.Accepts (m.setting host) fuel :=
      callsMild outside (fun _ _ h => h.orderly) fuel
    split at called
    case h_2 => cases called
    case h_1 f r hcallee =>
      have first : Settles host.Accepts False _ _ run _ :=
        Store.Scripts.expr outside (fun _ _ h => h.orderly) hcall scripts scope callee
      have scripts' := Store.Scripts.kept scripts (first.result.of_ok hcallee)
      split at called
      case h_2 => cases called
      case h_1 values r' harguments =>
        have second : Settles host.Accepts False _ _ r _ :=
          Store.Scripts.exprs outside (fun _ _ h => h.orderly) hcall scripts' scope arguments
        have scripts'' := Store.Scripts.kept scripts' (second.result.of_ok harguments)
        split at called
        case h_2 => cases called
        case h_1 hf =>
          cases called
          exact scripts'' hf

end TickScript
