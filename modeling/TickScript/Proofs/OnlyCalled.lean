import TickScript.Proofs.Bound

/-!
# Functions are only called

A function is not a value that programs can pass around: its name is there to be called.
Resolution refuses to read a name that it knows as a function. It knows a function from its
declaration on, and it asks only where a name is read, not where it is assigned to or indexed.

So far as the names of functions are kept out of these gaps, runs bear it out. A name that is read
has never a function for its value, no function is assigned to or indexed, and every function
stays bound to its name as long as the program is used. The gaps are real: in each of them an
accepted program gets hold of a function, or loses one.
-/

namespace TickScript

variable {ω : Type}

/-! ## Names that are read -/

/-- A name that is not called means no function, if it is known or no function of the outermost
scope. -/
theorem Visit.Sighted.means_variable {D : Table ExprId Nat} {V : List Visit}
    {good : String → Prop} {top : Frame} {Fs : List Frame} {v : Visit} {name : Token}
    (h : v.Sighted D V good top Fs) {id : ExprId}
    (hv : v.expr = .var id name)
    (uncalled : ∀ u ∈ V, ∀ i paren arguments, u.expr ≠ .call i v.expr paren arguments)
    (known : Resolve.bindingOf v.state name.lexeme = none → top name.lexeme = false) :
    v.meansFunction top name.lexeme = false := by
  have plain : Resolve.bindingOf v.state name.lexeme ≠ some .function := by
    intro hb
    obtain ⟨u, hu, i, paren, arguments, he⟩ := h.called id name hv hb
    exact uncalled u hu i paren arguments he
  unfold Resolve.bindingOf at known plain
  unfold Visit.meansFunction
  cases hs : v.state.scopes.findSome? (·.find? name.lexeme) with
  | some binding =>
    rw [hs, Option.some_or] at plain
    exact beq_eq_false_iff_ne.2 fun e => plain (by rw [e])
  | none =>
    rw [hs, Option.none_or] at known plain
    cases hb : v.state.globals.find? name.lexeme with
    | none => exact known hb
    | some binding =>
      refine Bool.eq_false_iff.2 fun ht => plain ?_
      rw [hb, (h.kinds.globals _ _ hb).2 ht]

/-! ## Accesses -/

namespace Roles

variable {R : Roles} {setting : Setting ω} {chart : Chart} {scope : ScopeId} {Fs : List Frame}

/-- On the way to the access of its own name an expression stays in stores that are reached. -/
theorem ends_approach (serves : R.Serves setting) {run : Run ω}
    (charted : R.Charted setting.globals chart run.store)
    (under : run.store.Under chart setting.globals scope Fs) {e : Expr}
    (he : e.Each (R.stands Fs)) (fuel : Nat) :
    (Eval.approach setting (Eval.call setting fuel) scope e).Ends run
      (fun _ r => R.Reaches setting.globals chart run.store r.store) (fun _ _ => True) := by
  have calls := callsStay serves fuel
  have walked : ∀ (part : Expr), part.Each (R.stands Fs) → ∀ r : Run ω,
      R.Reaches setting.globals chart run.store r.store →
      (Eval.expr setting (Eval.call setting fuel) scope part).Ends r
        (fun _ r' => R.Reaches setting.globals chart run.store r'.store) (fun _ _ => True) :=
    fun part hp r hr => (stays_expr serves calls under part hp r hr).result.mono
      (fun _ _ h => h.1) fun _ _ _ => trivial
  cases e with
  | assign id name value =>
    refine Eval.ends_bind.2 ((walked value (Expr.each_assign.1 he).2 run charted.reaches).mono ?_
      fun _ _ h => h)
    exact fun _ _ h => h
  | assignIndex id name position value =>
    obtain ⟨-, hp, hv⟩ := Expr.each_assignIndex.1 he
    refine Eval.ends_bind.2 ((walked position hp run charted.reaches).mono ?_ fun _ _ h => h)
    intro _ r hr
    exact Eval.ends_bind.2 ((walked value hv r hr).mono (fun _ _ h => h) fun _ _ h => h)
  | assignElements id name elements =>
    have stays := stays_exprs serves calls under elements (Expr.each_assignElements.1 he).2
    refine Eval.ends_bind.2 ((stays run charted.reaches).result.mono ?_ fun _ _ _ => trivial)
    intro vs r hr
    refine Eval.ends_bind.2 ((stays_quiet (Eval.aside_newArray vs) r hr.1).result.mono ?_
      fun _ _ _ => trivial)
    exact fun _ _ h => h.1
  | _ => exact charted.reaches

end Roles

section Accepted

variable {source : String} {host : Host ω} {c : Compilation}

/-- Where a name that means no function is accessed, it is bound to none. -/
theorem Compiled.no_function (hc : Compiled source host c) {untouched : String → Prop}
    {left : FunctionId → Prop} {setting : Setting ω}
    (serves : (c.roles source host untouched left).Serves setting)
    (hd : setting.distances = c.distances) {fuel : Nat} {scope : ScopeId} {e : Expr} {run : Run ω}
    (met : (c.roles source host untouched left).Meets setting.globals
      (.evaluates fuel scope e run) ∨ (Event.evaluates fuel scope e run).Asked)
    (hm : e ∈ stmtsNodes c.statements) {name : Token} (hn : e.name? = some name)
    (spared : ¬ c.NamesFunction host e) {r : Run ω}
    (hr : Eval.approach setting (Eval.call setting fuel) scope e run = .ok () r)
    {target : ScopeId} (hfound : Eval.found setting scope e.id name r.store = some target)
    (f : FunctionId) : r.store.lookup target name.lexeme ≠ some (.function f) := by
  rcases met with ⟨chart, Fs, charted, under, each⟩ | ⟨asked, hasked⟩
  · obtain ⟨chart', onward, charted'⟩ :=
      (Roles.ends_approach serves charted under each fuel).of_ok hr
    refine charted'.no_function (under.onward onward) hfound ?_ f
    obtain ⟨v, hv, rfl, sighted⟩ := each.self
    rw [hd, Bool.eq_false_iff]
    exact fun ha => spared ⟨v, hv, rfl, name, hn, sighted.meant hn ha⟩
  · exact absurd hm (hc.not_asked hasked)

/-- A name that is read and not called means no function, if it is known or no function of the
outermost scope. -/
theorem Compiled.names_variable (hc : Compiled source host c)
    (stands : StmtsStand (c.Sees source host) (outermostFunctions host c.statements) []
      c.statements) {v : Visit} (hv : v ∈ c.visits host) {id : ExprId} {name : Token}
    (hvar : v.expr = .var id name)
    (uncalled : ∀ i paren arguments,
      .call i (.var id name) paren arguments ∉ stmtsNodes c.statements)
    (known : Resolve.bindingOf v.state name.lexeme = none →
      outermostFunctions host c.statements name.lexeme = false) :
    ¬ c.NamesFunction host (.var id name) := by
  have hm : Expr.var id name ∈ stmtsNodes c.statements := hvar ▸ hc.mem_nodes hv
  rintro ⟨u, hu, hexpr, name', hn, means⟩
  obtain rfl : u = v := hc.visit_unique hu hv (by rw [hexpr, hvar])
  cases hn
  rcases StmtsStand.node c.statements stands hm with ⟨Fs, w, hw, hexpr', sighted⟩
  obtain rfl : w = u := hc.visit_unique hw hu (by rw [hexpr', hexpr])
  rw [sighted.means_variable hvar ?_ known] at means
  · cases means
  · intro u' hu' i paren arguments he
    exact uncalled i paren arguments (hexpr ▸ he ▸ hc.mem_nodes hu')

end Accepted

/-! ## Functions are only called -/

/-- A machine does what it is asked with its program, and functions are only called. What is said
of a name that is read or accessed holds in every setting of this program, whatever time it is. -/
structure OnlyCalled (c : Compilation) (host : Host ω) (m : Machine ω)
    (requests : List (Nat × Request ω)) : Prop where
  reads : ∀ v ∈ c.visits host, ∀ id name, v.expr = .var id name →
    (∀ i paren arguments, .call i (.var id name) paren arguments ∉ stmtsNodes c.statements) →
    (Resolve.bindingOf v.state name.lexeme = none →
      outermostFunctions host c.statements name.lexeme = false) →
    ∀ fuel scope run, Event.evaluates fuel scope (.var id name) run ∈
      m.eventsAll host c.statements requests →
    ∀ setting : Setting ω, setting.host = host → setting.globals = m.globals →
    setting.distances = c.distances →
    ∀ value r, Eval.expr setting (Eval.call setting fuel) scope (.var id name) run = .ok value r →
    ∀ f, value ≠ .function f
  accesses : ∀ e ∈ stmtsNodes c.statements, ¬ c.NamesFunction host e →
    ∀ name, e.name? = some name → ∀ fuel scope run, Event.evaluates fuel scope e run ∈
      m.eventsAll host c.statements requests →
    ∀ setting : Setting ω, setting.host = host → setting.globals = m.globals →
    setting.distances = c.distances →
    ∀ r, Eval.approach setting (Eval.call setting fuel) scope e run = .ok () r →
    ∀ target, Eval.found setting scope e.id name r.store = some target →
    ∀ f, r.store.lookup target name.lexeme ≠ some (.function f)
  lasting : Course
    (Store.Lasts fun n => c.Keeps host n ∧ ∀ request ∈ requests, request.2.writes? ≠ some n)
    m.store ((m.eventsAll host c.statements requests).map Event.store)
    (m.serveAll host c.statements requests).store

/-- Functions are only called. The host was put together by registration, and its functions keep
out of scopes. A machine takes up an accepted program, which cannot get at what earlier ones have
left there. It runs the program and calls its functions in any order, and in between the host writes
its variables and time goes by.

A name that is read and not called never has a function for its value, if resolution knew the name
or if it is no function of the outermost scope. If the name of an assignment or of an indexed
access means no function then none is bound to it when it is accessed. And a name that no
assignment means as a function and that the host does not write keeps every function that it is
bound to, in every scope. -/
theorem functions_only_called {source : String} {host : Host ω} {store : Store}
    (built : host.Built store) (outside : ∀ f ∈ host.functions, f.Outside)
    (accepted : (compile source host).accepted = true) (m : Machine ω)
    (forgets : m.Forgets host (compile source host)) (requests : List (Nat × Request ω)) :
    OnlyCalled (compile source host) host (m.reset host (compile source host).distances)
      requests := by
  have hc := compiled accepted
  have stands := accepted_stands accepted
  generalize compile source host = c at *
  have served : Machine.Served (c.roles source host
      (fun n => ∀ request ∈ requests, request.2.writes? ≠ some n) m.store.Left) host c.distances :=
    fun _ => hc.serves outside (fun v hv => (built.data v hv).1) forgets.tame
  obtain ⟨met, course, -⟩ := Machine.Plays.along served stands requests
    (Machine.plays_reset built.inert _) fun request hr n hn hlast => hlast.2 request hr hn
  generalize m.reset host c.distances = m' at *
  refine ⟨?_, ?_, course⟩
  · intro v hv id name hvar uncalled known fuel scope run hev setting hhost hg hd value r hvalue f
    rintro rfl
    rw [Eval.expr] at hvalue
    obtain ⟨target, hfound, hlookup⟩ := Eval.read_ok hvalue
    exact hc.no_function (served _ hhost hd) hd (hg ▸ met _ hev) (hvar ▸ hc.mem_nodes hv) rfl
      (hc.names_variable stands hv hvar uncalled known) rfl hfound f hlookup
  · exact fun e hm spared name hn fuel scope run hev setting hhost hg hd r hr target hfound =>
      hc.no_function (served _ hhost hd) hd (hg ▸ met _ hev) hm hn spared hr hfound

/-- A variable hides a function, and is read and assigned to. -/
def shadowSource : String :=
  "int f() { return count(); } int r = f(); { int f = 2; r = f; f = r; }"

/-- The program of `shadowSource`. -/
abbrev shadow : Compilation :=
  compile shadowSource Host.counting

/-- The machine that runs it, which has run another program before. -/
abbrev shadowMachine : Machine Nat :=
  agedMachine.reset Host.counting shadow.distances

/-- No call goes to the expression `id`. -/
def uncalled (statements : List Stmt) (id : ExprId) : Bool :=
  (stmtsNodes statements).all fun
    | .call _ callee _ _ => callee.id != id
    | _ => true

theorem uncalled_spec {statements : List Stmt} {id : ExprId} (h : uncalled statements id = true)
    {callee : Expr} (hid : callee.id = id) (i : ExprId) (paren : Token) (arguments : List Expr) :
    .call i callee paren arguments ∉ stmtsNodes statements := by
  intro hm
  have hne := List.all_eq_true.1 h _ hm
  simp [hid] at hne

/-- The variable `f` of `shadowSource` is read. -/
def Event.readsShadow : Event Nat → Bool
  | .evaluates _ _ (.var id name) _ =>
    name.lexeme == "f" && name.line == 1 && uncalled shadow.statements id
  | _ => false

theorem functions_only_called_shadow :
    (∃ fuel scope id name run, Event.evaluates fuel scope (.var id name) run ∈
        shadowMachine.eventsAll Host.counting shadow.statements
          [(0, .work #[] 7), (5, .interpret)] ∧
      name.lexeme = "f" ∧ ∀ value r,
        Eval.expr (shadowMachine.setting Host.counting)
          (Eval.call (shadowMachine.setting Host.counting) fuel) scope (.var id name) run =
          .ok value r → ∀ f, value ≠ .function f) ∧
    shadowMachine.global? "count" = some (.function 12) ∧
    (shadowMachine.serveAll Host.counting shadow.statements
      [(0, .work #[] 7), (5, .interpret)]).store.lookup shadowMachine.globals "count" =
        some (.function 12) := by
  have accepted : shadow.accepted = true := by decide +kernel
  have only := functions_only_called Host.counting_built Host.counting_outside accepted agedMachine
    (agedMachine_forgets shadow) [(0, .work #[] 7), (5, .interpret)]
  have hc := compiled accepted
  have provided : shadowMachine.global? "count" = some (.function 12) := by decide +kernel
  have started : ∀ (m : Machine Nat) (host : Host Nat) (distances : Table ExprId Nat),
      ((m.reset host distances).setting host).host = host ∧
      ((m.reset host distances).setting host).globals = (m.reset host distances).globals ∧
      ((m.reset host distances).setting host).distances = distances :=
    fun _ _ _ => ⟨rfl, rfl, rfl⟩
  have unwritten : ∀ request ∈ [((0 : Nat), (Request.work #[] 7 : Request Nat)),
      (5, .interpret)], request.2.writes? ≠ some "count" := by simp [Request.writes?]
  refine ⟨?_, provided, ?_⟩
  · have happens : (shadowMachine.eventsAll Host.counting shadow.statements
        [(0, .work #[] 7), (5, .interpret)]).any Event.readsShadow = true := by
      decide +kernel
    have known : (shadow.visits Host.counting).all (fun v =>
        v.expr.name?.all fun name => name.lexeme != "f" ||
          (Resolve.bindingOf v.state name.lexeme).isSome) = true := by decide +kernel
    obtain ⟨ev, hev, ht⟩ := List.any_eq_true.1 happens
    cases ev with
    | binds => cases ht
    | evaluates fuel scope e run =>
      cases e with
      | var id name =>
        simp only [Event.readsShadow, Bool.and_eq_true, beq_iff_eq] at ht
        obtain ⟨⟨hname, hline⟩, hcalls⟩ := ht
        have written : .var id name ∈ stmtsNodes shadow.statements :=
          evaluates_written Host.counting_outside accepted (agedMachine_forgets shadow) hev
            (by simp [Expr.line, hline])
        obtain ⟨v, hv, hvar⟩ := hc.visited written
        refine ⟨fuel, scope, id, name, run, hev, hname, ?_⟩
        obtain ⟨hhost, hglobals, hdistances⟩ := started agedMachine Host.counting shadow.distances
        refine only.reads v hv id name hvar (uncalled_spec hcalls rfl) (fun hnone => ?_) fuel scope
          run hev (shadowMachine.setting Host.counting) hhost hglobals hdistances
        have hknown := List.all_eq_true.1 known v hv
        rw [hvar, Expr.name?, Option.all_some, hnone, hname] at hknown
        cases hknown
      | _ => cases ht
  · have settled : (stmtsNodes shadow.statements).all (fun e =>
        e.target?.all fun t => t.lexeme != "count") = true := by decide +kernel
    refine (course_iff.1 only.lasting).1.bindings _ _ _ ⟨fun e he t ht hn => ?_, unwritten⟩ provided
    have := List.all_eq_true.1 settled e he
    simp [ht, hn] at this

/-- A function is assigned to. -/
def overwritingSource : String :=
  "int f() { return 1; } f = 2;"

/-- A built-in function is assigned to. -/
def builtinSource : String :=
  "size_of = 3;"

/-- A function is indexed. -/
def indexingSource : String :=
  "int[] f() { int[] a = {1}; return a; } f[0];"

/-- A function is read in a function that is resolved before it. -/
def earlySource : String :=
  "int f() { return 1; } void g() { f; } g();"

/-- A name that is not called is read, and has a function for its value. -/
def Event.readsFunction (statements : List Stmt) (setting : Setting Unit) : Event Unit → Bool
  | .evaluates fuel scope (.var id name) run =>
    uncalled statements id &&
      match Eval.expr setting (Eval.call setting fuel) scope (.var id name) run with
      | .ok (.function _) _ => true
      | _ => false
  | _ => false

/-- Is a function read in the first run of a source for a host without names? -/
def firstReads (source : String) : Bool :=
  let c := compile source (Host.empty : Host Unit)
  let m := (Machine.start Host.empty .empty ()).reset Host.empty c.distances
  (m.eventsAll Host.empty c.statements [(5, .interpret)]).any
    (Event.readsFunction c.statements (m.setting Host.empty))

/-- Functions are overwritten, indexed and read in accepted programs. -/
theorem functions_misused :
    ((compile overwritingSource (Host.empty : Host Unit)).accepted = true ∧
      firstRun overwritingSource = .ok () ∧
      firstValue overwritingSource "f" = some (.int 2)) ∧
    ((compile builtinSource (Host.empty : Host Unit)).accepted = true ∧
      firstRun builtinSource = .ok () ∧
      firstValue builtinSource "size_of" = some (.int 3)) ∧
    ((compile indexingSource (Host.empty : Host Unit)).accepted = true ∧
      firstRun indexingSource = .error (.error ⟨1, .notArray⟩)) ∧
    (compile earlySource (Host.empty : Host Unit)).accepted = true ∧
      firstRun earlySource = .ok () ∧ firstReads earlySource = true := by
  decide +kernel

end TickScript
