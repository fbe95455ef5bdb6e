import TickScript.Proofs.Closed
import TickScript.Proofs.Roles.Run

/-!
# What earlier programs have left

A machine lives on from program to program, and the functions of earlier ones stay in its store.
The new program cannot get at them. It finds other functions under their names, it is given data by
the host, and where it makes a value fit a type the value is no function afterwards. So it calls
none of them, whatever the host does between its runs.

There is one way around this. A name whose type says nothing can be assigned any value, and the
host can have such a name: that of a function that may return anything. So either the program
leaves these names alone, or there is nothing left that it could get at.
-/

namespace TickScript

variable {ω : Type}

/-! ## What names mean -/

/-- Does a name mean a function where resolution comes to an expression? The innermost scope that
knows the name decides, and if there is none then the outermost scope of the whole program. -/
def Visit.meansFunction (top : Frame) (v : Visit) (n : String) : Bool :=
  match v.state.scopes.findSome? (·.find? n) with
  | some binding => binding == .function
  | none => top n

/-- The name of an expression means a function. -/
def Compilation.NamesFunction (c : Compilation) (host : Host ω) (e : Expr) : Prop :=
  ∃ v ∈ c.visits host, v.expr = e ∧ ∃ name, e.name? = some name ∧
    v.meansFunction (outermostFunctions host c.statements) name.lexeme = true

section Meaning

variable {D : Table ExprId Nat} {V : List Visit} {good : String → Prop} {top : Frame}
  {Fs : List Frame} {n : String}

/-- Where a name aims at a function, the nearest table that has it says so. -/
theorem meant_of_aim {tables : List (Table String Binding)}
    (h : List.Forall₂ (Table.Agrees good) tables Fs)
    (ha : aim top Fs (tables.findIdx? (·.contains n)) n = true) :
    (match tables.findSome? (·.find? n) with
      | some binding => binding == .function
      | none => top n) = true := by
  induction h with
  | nil => exact ha
  | @cons table F tables Fs agrees _ ih =>
    rw [List.findIdx?_cons] at ha
    rw [List.findSome?_cons]
    cases hb : table.find? n with
    | some binding =>
      rw [if_pos (by rw [Table.contains, hb]; rfl)] at ha
      exact beq_iff_eq.2 ((agrees n binding hb).2 ha)
    | none =>
      rw [if_neg (by rw [Table.contains, hb]; simp)] at ha
      refine ih ?_
      cases hd : tables.findIdx? (·.contains n) <;> rw [hd] at ha <;> exact ha

/-- Only good names have a distance. -/
theorem good_of_distance {tables : List (Table String Binding)}
    (h : List.Forall₂ (Table.Agrees good) tables Fs) {d : Nat}
    (hd : tables.findIdx? (·.contains n) = some d) : good n := by
  obtain ⟨hlt, hc, -⟩ := List.findIdx?_eq_some_iff_getElem.1 hd
  obtain ⟨binding, hb⟩ := Option.isSome_iff_exists.1 hc
  have agrees := h.get hlt (h.length_eq ▸ hlt)
  exact (agrees n binding hb).1

variable {v : Visit} {name : Token}

theorem Visit.Sighted.meant (h : v.Sighted D V good top Fs) (hn : v.expr.name? = some name)
    (ha : aim top Fs (D.find? v.expr.id) name.lexeme = true) :
    v.meansFunction top name.lexeme = true := by
  rw [h.distance, hn, Option.bind_some] at ha
  exact meant_of_aim h.kinds.scopes ha

/-- A name that is not good is looked for in the outermost scope. -/
theorem Visit.Sighted.aim_of_bad (h : v.Sighted D V good top Fs) (hn : v.expr.name? = some name)
    (hbad : ¬ good name.lexeme) : aim top Fs (D.find? v.expr.id) = top := by
  rw [h.distance, hn, Option.bind_some]
  cases hd : Resolve.distance? v.state name.lexeme with
  | none => rfl
  | some d => exact absurd (good_of_distance h.kinds.scopes hd) hbad

end Meaning

/-! ## The roles of an accepted program -/

/-- No assignment of the program to this name means a function. -/
def Compilation.Keeps (c : Compilation) (host : Host ω) (n : String) : Prop :=
  ∀ e ∈ stmtsNodes c.statements, ∀ t, e.target? = some t → t.lexeme = n → ¬ c.NamesFunction host e

/-- The program assigns to no function of the host that can return anything. -/
def Compilation.Tame (c : Compilation) (host : Host ω) : Prop :=
  ∀ e ∈ stmtsNodes c.statements, ∀ t, e.target? = some t → ∀ f ∈ host.functions,
    f.name = t.lexeme → f.signature.returnType ≠ .any

/-- The functions of a program, where those last that no assignment means and that are untouched
from outside. -/
def Compilation.roles (c : Compilation) (source : String) (host : Host ω)
    (untouched : String → Prop) (left : FunctionId → Prop) : Roles where
  stands := c.Sees source host
  top := outermostFunctions host c.statements
  lasting n := c.Keeps host n ∧ untouched n
  left := left

section Accepted

variable {source : String} {host : Host ω} {c : Compilation}

/-- Only functions of the host that can return anything are names of no type in particular. -/
theorem function_of_any (data : ∀ v ∈ host.externals, v.type.isWild = false) {n : String}
    (h : ¬ Definite source host n) :
    ∃ f ∈ host.functions, f.name = n ∧ f.signature.returnType = .any := by
  have hseed : host.seedTypes.find? n = some .any := by
    by_contra hne
    exact h (scan_plain hne)
  rw [seedTypes_find?] at hseed
  split at hseed
  · cases hseed
  split at hseed
  · cases hseed
  split at hseed
  · cases hseed
  rcases List.mem_append.1 (Table.mem_of_find?_ofList hseed) with hm | hm
  · obtain ⟨v, hv, e⟩ := List.mem_map.1 hm
    have hwild := data v hv
    rw [(Prod.mk.inj e).2] at hwild
    cases hwild
  · obtain ⟨f, hf, e⟩ := List.mem_map.1 hm
    exact ⟨f, hf, (Prod.mk.inj e).1, (Prod.mk.inj e).2⟩

/-- The expressions of an accepted program aim right. -/
theorem Compiled.serves (hc : Compiled source host c)
    (outside : ∀ f ∈ host.functions, f.Outside)
    (data : ∀ v ∈ host.externals, v.type.isWild = false) {untouched : String → Prop}
    {left : FunctionId → Prop} (tame : ∀ f, left f → c.Tame host) {setting : Setting ω}
    (hhost : setting.host = host) (hdistances : setting.distances = c.distances) :
    (c.roles source host untouched left).Serves setting where
  outside := by
    rw [hhost]
    exact outside
  data := by
    rw [hhost]
    exact data
  aims := by
    rw [hdistances]
    rintro Fs e ⟨v, hv, rfl, sighted⟩
    have hm := hc.mem_nodes hv
    refine ⟨fun name hn hwild => ?_, fun name hn hlast => ?_,
      fun id callee paren arguments he => ?_⟩
    · -- The type of such a name can only be that of a host function.
      have hname := Expr.name?_of_target? hn
      have written := (hc.written.1 _ hm).name hname
      have htype : (scan source host.seedTypes).types.find? name.lexeme = some name.type :=
        scan_type written.1 written.2
      have indefinite : ¬ Definite source host name.lexeme := by
        have hknown := sighted.typed name hn
        rw [Definite, htype]
        cases ht : name.type with
        | any => simp
        | unknown => exact absurd ht hknown
        | _ =>
          rw [ht] at hwild
          cases hwild
      obtain ⟨f, hf, hfn, hany⟩ := function_of_any data indefinite
      refine ⟨?_, fun i hl => tame i hl _ hm name hn f hf hfn hany⟩
      rw [show (c.roles source host _ left).top = outermostFunctions host c.statements from rfl,
        sighted.aim_of_bad hname indefinite]
      exact outermostFunctions_iff.2 (.inr (.inl ⟨f, hf, hfn⟩))
    · have hname := Expr.name?_of_target? hn
      rw [Bool.eq_false_iff]
      intro ha
      refine hlast.1 _ hm name hn rfl ⟨v, hv, rfl, name, hname, ?_⟩
      exact sighted.meant hname ha
    · rw [he] at hm
      exact (StmtsChecked.call c.statements hc.checked hm).callee

end Accepted

/-! ## Requests -/

/-- The function of a script that is in the store. -/
def Store.Left (s : Store) (f : FunctionId) : Prop :=
  ∃ k, s.functions[f]? = some k ∧ k.isScript = true

theorem Store.not_left {s : Store} (blank : ∀ k ∈ s.functions, k.isScript = false)
    (f : FunctionId) : ¬ s.Left f := by
  rintro ⟨k, hk, hs⟩
  rw [blank k (Array.mem_of_getElem? hk)] at hs
  cases hs

namespace Roles

variable {R : Roles} {setting : Setting ω} {chart : Chart} {scope : ScopeId} {Fs : List Frame}

/-- Where scopes agree with a chart, the name of a function that is left is not called. -/
theorem Charted.spares {run : Run ω} (charted : R.Charted setting.globals chart run.store)
    (under : run.store.Under chart setting.globals scope Fs) (fuel : Nat) (id i : ExprId)
    (name paren : Token) (arguments : List Expr) :
    (Event.evaluates fuel scope (.call id (.var i name) paren arguments) run).Spares R.left
      setting := by
  intro f hf
  rw [Event.callee?, Eval.expr] at hf
  split at hf
  · next hr =>
    cases hf
    obtain ⟨c, hfound, hb⟩ := Eval.read_ok hr
    exact charted.not_left under hfound hb
  · cases hf

theorem Meets.spares (serves : R.Serves setting) {ev : Event ω} (h : R.Meets setting.globals ev) :
    ev.Spares R.left setting := by
  cases ev with
  | binds => exact fun f hf => by cases hf
  | evaluates fuel scope e run =>
    obtain ⟨chart, Fs, charted, under, each⟩ := h
    cases e with
    | call id callee paren arguments =>
      obtain ⟨i, name, rfl⟩ := (serves.aims Fs _ each.self).callee id callee paren arguments rfl
      exact charted.spares under fuel id i name paren arguments
    | _ => exact fun f hf => by cases hf

end Roles

namespace Machine

variable {R : Roles} {host : Host ω} {globals : ScopeId} {distances : Table ExprId Nat}
  {m : Machine ω} {statements : List Stmt}

/-- A machine between two requests: it has the outermost scope and the distances with which the
program began, and its store agrees with a chart. -/
structure Plays (R : Roles) (globals : ScopeId) (distances : Table ExprId Nat) (m : Machine ω) :
    Prop where
  charted : ∃ chart, R.Charted globals chart m.store
  globals : m.globals = globals
  distances : m.distances = distances

/-- The program is at home on the machine: expressions aim right at its distances. -/
abbrev Served (R : Roles) (host : Host ω) (distances : Table ExprId Nat) : Prop :=
  ∀ setting : Setting ω, setting.host = host → setting.distances = distances → R.Serves setting

/-- What a request comes across: an expression of the program that is evaluated where it stands, or
one that the request itself consists of, and no call of a function that is left. -/
def Meets (R : Roles) (host : Host ω) (m : Machine ω) (ev : Event ω) : Prop :=
  (R.Meets m.globals ev ∨ ev.Asked) ∧ ev.Spares R.left (m.setting host)

section Stays

variable {α : Type} {act : Eval ω α} {walk : Walk ω} {ok : α → Prop} {chart : Chart} {run : Run ω}

/-- What stays in stores that are reached from the machine is part of a request. -/
theorem follows_of_stays (serves : R.Serves (m.setting host))
    (stays : R.Stays (m.setting host) chart m.store act walk ok)
    (reached : R.Reaches m.globals chart m.store run.store) :
    Follows (Store.Lasts R.lasting) (m.Meets R host) act walk run
      (fun a r => R.Reaches m.globals chart m.store r.store ∧ ok a)
      (fun _ r => ∃ chart, R.Charted m.globals chart r.store) := by
  refine ((stays run reached).imp fun _ hev => ⟨.inl hev, hev.spares serves⟩).mono ?_ ?_
  · exact fun _ _ _ hr => hr
  · exact fun _ _ _ hr => hr.charted

/-- A function of the program is called by its name. The name is read, there are no arguments, and
what is called is no function that is left. -/
theorem follows_call (serves : R.Serves (m.setting host))
    (charted : R.Charted m.globals chart m.store) (fuel : Nat) (name : String) :
    Follows (Store.Lasts R.lasting) (m.Meets R host)
      (Eval.expr (m.setting host) (Eval.call (m.setting host) fuel) m.globals (.globalCall name))
      (Walk.expr (m.setting host) fuel (Walk.call (m.setting host) fuel) m.globals
        (.globalCall name)) m.begin
      (fun _ r => ∃ chart, R.Charted m.globals chart r.store)
      (fun _ r => ∃ chart, R.Charted m.globals chart r.store) := by
  have calls := Roles.callsStay serves fuel
  have under := Store.under_globals m.store chart m.globals
  have asked : ∀ {e : Expr} {run : Run ω}, e ∈ (Expr.globalCall name).nodes →
      (Event.evaluates fuel m.globals e run).Asked := fun he => ⟨name, he⟩
  rw [Expr.globalCall] at asked ⊢
  rw [Eval.expr, Walk.expr, Eval.expr, Walk.expr]
  refine follows_here ⟨.inr (asked (by simp)), charted.spares under fuel _ _ _ _ _⟩
    (follows_bind (follows_leaf ⟨.inr (asked (by simp)), fun f hf => by cases hf⟩ ?_))
  have here : R.Reaches m.globals chart m.store m.begin.store := charted.reaches
  refine (follows_of_stays serves (Roles.stays_read under _ _) here).mono ?_ fun _ _ _ h => h
  rintro function r - ⟨reached, hfunction⟩
  rw [Eval.exprs, Walk.exprs]
  refine follows_bind (follows_pure ?_)
  cases function with
  | function f =>
    have stays := calls chart m.store f [] 0 (hfunction f rfl)
    exact (follows_of_stays serves stays reached).mono (fun _ _ _ hr => hr.1.charted)
      fun _ _ _ h => h
  | _ => exact follows_quiet ((Eval.ends_fail _ _).2 ⟨StoreOrder.refl _, reached.charted⟩)

end Stays

/-- A request evaluates every expression of the program where it stands, and calls no function that
is left. -/
theorem Plays.follows (h : m.Plays R globals distances) (served : Served R host distances)
    (stands : StmtsStand R.stands R.top [] statements) (fuel : Nat) {request : Request ω}
    (hw : ∀ n, request.writes? = some n → ¬ R.lasting n) :
    Follows (Store.Lasts R.lasting) (m.Meets R host) (m.order host statements fuel request)
      (m.walk host statements fuel request) m.begin
      (fun _ r => ∃ chart, R.Charted globals chart r.store)
      (fun _ r => ∃ chart, R.Charted globals chart r.store) := by
  obtain ⟨⟨chart, charted⟩, rfl, rfl⟩ := h
  have serves : R.Serves (m.setting host) := served _ rfl rfl
  -- What is done with a chart in hand.
  have around : ∀ {act : Eval ω Unit} {walk : Walk ω},
      R.Stays (m.setting host) chart m.store act walk (fun _ => True) →
      Follows (Store.Lasts R.lasting) (m.Meets R host) act walk m.begin
        (fun _ r => ∃ chart, R.Charted m.globals chart r.store)
        (fun _ r => ∃ chart, R.Charted m.globals chart r.store) := fun stays =>
    (follows_of_stays serves stays charted.reaches).mono (fun _ _ _ hr => hr.1.charted)
      fun _ _ _ h => h
  cases request with
  | interpret =>
    have stays := Roles.stays_stmts serves (Roles.callsStay serves fuel) statements
      (Store.under_globals m.store chart m.globals) stands
    exact around (Roles.stays_last stays fun _ _ => Roles.stays_pure trivial)
  | call name =>
    refine follows_last ((follows_call serves charted fuel name).mono ?_ fun _ _ _ h => h)
    exact fun _ _ _ hr => (Eval.ends_pure _).2 ⟨StoreOrder.refl _, hr⟩
  | wait clock => exact follows_pure ⟨chart, charted⟩
  | write name v => exact around (Roles.stays_write serves (hw name rfl) m statements fuel v)
  | work arrays world => exact around (Roles.stays_quiet fun _ => ⟨rfl, rfl⟩)

/-- It stays such a machine. -/
theorem Plays.serve (h : m.Plays R globals distances) (served : Served R host distances)
    (stands : StmtsStand R.stands R.top [] statements) (fuel : Nat) {request : Request ω}
    (hw : ∀ n, request.writes? = some n → ¬ R.lasting n) :
    (m.serve host statements fuel request).2.Plays R globals distances ∧
      Course (Store.Lasts R.lasting) m.store
        ((m.events host statements fuel request).map Event.store)
        (m.serve host statements fuel request).2.store := by
  refine serve_of_ends (P := fun _ m' => m'.Plays R globals distances ∧
    Course (Store.Lasts R.lasting) m.store
      ((m.events host statements fuel request).map Event.store) m'.store)
    ((h.follows served stands fuel hw).ends.mono ?_ ?_)
  · exact fun _ r hr clock => ⟨⟨hr.2, h.globals, h.distances⟩, hr.1⟩
  · exact fun _ r hr errors => ⟨⟨hr.2, h.globals, h.distances⟩, hr.1⟩

/-- Along any requests every expression of the program is evaluated where it stands, functions
last, and none that is left is called. -/
theorem Plays.along (served : Served R host distances)
    (stands : StmtsStand R.stands R.top [] statements) (requests : List (Nat × Request ω)) :
    ∀ {m : Machine ω}, m.Plays R globals distances →
      (∀ r ∈ requests, ∀ n, r.2.writes? = some n → ¬ R.lasting n) →
      (∀ ev ∈ m.eventsAll host statements requests, R.Meets globals ev ∨ ev.Asked) ∧
      Course (Store.Lasts R.lasting) m.store
        ((m.eventsAll host statements requests).map Event.store)
        (m.serveAll host statements requests).store ∧
      m.Sparing R.left host statements requests := by
  induction requests with
  | nil =>
    exact fun _ _ => ⟨fun ev hev => absurd hev List.not_mem_nil,
      course_nil (StoreOrder.refl _), trivial⟩
  | cons entry rest ih =>
    obtain ⟨fuel, request⟩ := entry
    intro m h hw
    obtain ⟨hfirst, hrest⟩ := List.forall_mem_cons.1 hw
    have follows := h.follows served stands fuel hfirst
    obtain ⟨plays, course⟩ := h.serve served stands fuel hfirst
    obtain ⟨met, others, sparing⟩ := ih plays hrest
    refine ⟨fun ev hev => ?_, ?_, fun ev hev => (follows.events ev hev).2, sparing⟩
    · rcases List.mem_append.1 hev with hev | hev
      · exact h.globals ▸ (follows.events ev hev).1
      · exact met ev hev
    · rw [Machine.eventsAll, List.map_append]
      exact course.append others

end Machine

/-! ## The start of a program -/

/-- A copy of what is no function is none. -/
theorem Store.copy_inert {s : Store} {v : Value} (h : v.Inert) : (s.copy v).1.Inert := by
  obtain ⟨depth, hdepth⟩ := Store.nesting_succ
  rw [Store.copy, Store.content, hdepth]
  cases v with
  | function f => exact absurd rfl (h f)
  | _ => exact fun f hf => by cases hf

/-- No variable of a host starts as a function. -/
theorem Host.Built.inert {host : Host ω} {store : Store} (h : host.Built store) :
    ∀ v ∈ host.externals, v.initial.Inert := by
  induction h with
  | empty _ => exact fun _ hv => nomatch hv
  | «variable» _ _ ok ih =>
    have typed := addVariable_type ok
    obtain ⟨-, w, hc, rfl⟩ := addVariable_ok ok
    intro v hv
    rcases List.mem_append.1 hv with hv | hv
    · exact ih v hv
    · rw [List.mem_singleton.1 hv]
      exact Store.inert_of_coerce typed.1 hc
  | function _ ok ih =>
    obtain ⟨-, rfl⟩ := addFunction_ok ok
    exact ih
  | worked _ _ _ ih => exact ih

namespace Machine

variable {R : Roles} {host : Host ω} {statements : List Stmt}

/-- In the outermost scope of a program only its functions are bound to functions. -/
theorem charted_newGlobals {s : Store} (inert : ∀ v ∈ host.externals, v.initial.Inert)
    (htop : R.top = outermostFunctions host statements) (hleft : R.left = s.Left) :
    R.Charted s.scopes.size (fun _ => R.top) (newGlobals host s).2 := by
  have function : ∀ {t : Store} {k : Callable}, k.isScript = false → R.top k.name = true →
      R.Charted s.scopes.size (fun _ => R.top) t →
      R.Charted s.scopes.size (fun _ => R.top) (provideFunction s.scopes.size t k) := by
    intro t k hk hn h
    have made : R.Charted s.scopes.size (fun _ => R.top) (t.newFunction k).2 :=
      h.aside rfl Array.push_eq_append (by simpa using hk)
    show R.Charted _ _ (provide s.scopes.size (t.newFunction k).2 k.name _)
    unfold provide
    split
    · exact made
    · refine made.bind fun f e => ⟨hn, fun hl => ?_⟩
      cases e
      exact Nat.lt_irrefl _ (h.old _ hl)
  refine newGlobals_induct _ ?_ ?_ ?_ ?_
  · refine ⟨by simp, Store.parent?_newScope_self s none, rfl, fun c n f hc hb => ?_,
      fun f hl => ?_, fun f header body closure hf hl => ?_⟩
    · rw [Store.lookup_newScope] at hb
      exact absurd (Store.lt_of_lookup hb) (Nat.not_lt.2 hc)
    · rw [hleft] at hl
      obtain ⟨k, hk, -⟩ := hl
      exact (Array.getElem?_eq_some_iff.1 hk).1
    · rw [hleft] at hl
      exact absurd ⟨_, hf, rfl⟩ hl
  · intro t b h
    refine function rfl ?_ h
    rw [htop]
    exact outermostFunctions_iff.2 (.inl ⟨b, rfl⟩)
  · intro t f hf h
    refine function rfl ?_ h
    rw [htop]
    exact outermostFunctions_iff.2 (.inr (.inl ⟨f, hf, rfl⟩))
  · intro t v hv h
    obtain ⟨hs, hf⟩ := Store.copy_frame t v.initial
    have copied : R.Charted s.scopes.size (fun _ => R.top) (t.copy v.initial).2 :=
      h.aside hs (show _ = t.functions ++ #[] by simp [hf]) (by simp)
    show R.Charted _ _ (provide s.scopes.size (t.copy v.initial).2 v.name (t.copy v.initial).1)
    unfold provide
    split
    · exact copied
    · exact copied.bind fun f e => absurd e (Store.copy_inert (inert v hv) f)

/-- The start of an accepted program. -/
theorem plays_reset {source : String} {c : Compilation} {m : Machine ω}
    (inert : ∀ v ∈ host.externals, v.initial.Inert) (untouched : String → Prop) :
    (m.reset host c.distances).Plays (c.roles source host untouched m.store.Left)
      (m.reset host c.distances).globals c.distances :=
  ⟨⟨_, charted_newGlobals inert rfl rfl⟩, rfl, rfl⟩

/-- A program cannot get at what earlier programs have left on a machine. Nothing is left, or the
host was put together by registration and the program assigns to none of its functions that can
return anything. -/
inductive Forgets (m : Machine ω) (host : Host ω) (c : Compilation) : Prop where
  | blank (blank : ∀ k ∈ m.store.functions, k.isScript = false)
  | spared {store : Store} (built : host.Built store) (tame : c.Tame host)

theorem Forgets.tame {m : Machine ω} {c : Compilation} (h : m.Forgets host c) (f : FunctionId)
    (hl : m.store.Left f) : c.Tame host := by
  cases h with
  | spared built tame => exact tame
  | blank blank => exact absurd hl (Store.not_left blank f)

/-- Where nothing is left, nothing that is left is called. -/
theorem sparing_of_none {left : FunctionId → Prop} (none : ∀ f, ¬ left f)
    (requests : List (Nat × Request ω)) :
    ∀ m : Machine ω, m.Sparing left host statements requests := by
  induction requests with
  | nil => exact fun _ => trivial
  | cons entry rest ih => exact fun m => ⟨fun _ _ f _ => none f, ih _⟩

/-- An accepted program calls none of the functions that earlier programs have left. -/
theorem Forgets.sparing {source : String} (outside : ∀ f ∈ host.functions, f.Outside)
    (accepted : (compile source host).accepted = true) {m : Machine ω}
    (forgets : m.Forgets host (compile source host)) (requests : List (Nat × Request ω)) :
    (m.reset host (compile source host).distances).Sparing m.store.Left host
      (compile source host).statements requests := by
  cases forgets with
  | blank blank => exact sparing_of_none (Store.not_left blank) requests _
  | spared built tame =>
    have hc := compiled accepted
    have stands := accepted_stands accepted
    generalize compile source host = c at *
    -- Here it does not matter which functions last.
    have served : Served (c.roles source host (fun _ => False) m.store.Left) host c.distances :=
      fun _ => hc.serves outside (fun v hv => (built.data v hv).1) fun _ _ => tame
    exact (Plays.along served stands requests (plays_reset built.inert _)
      fun _ _ _ _ h => h.2).2.2

end Machine

end TickScript
