import TickScript.Proofs.Correspondence

/-!
# Resolved names are bound

A name with a distance was declared in one of the scopes around its use. When a run comes to the
use, the declaration has been run, and the name is bound in the scope at this distance. The one
exception is a declaration whose own initial value assigns to the name or calls it: resolution
refuses only to read a name in its own initial value, but locates it in all cases.
-/

namespace TickScript

variable {ω : Type}

/-! ## Accesses -/

/-- The name is bound in the scope at this distance, and so it can be read, and to write it or an
element of it does not fail for want of a definition. -/
structure Store.BoundAt (s : Store) (distance : Nat) (scope : ScopeId) (name : Token) : Prop where
  found : ∃ a v, s.ancestor? distance scope = some a ∧ s.lookup a name.lexeme = some v
  get : ∃ v, s.getAt distance scope name = .ok v
  assign : ∀ v e t, Store.assignAt distance scope name v s = .error e t →
    ∀ n, e.fault ≠ .undefinedVariable n
  assignItem : ∀ index v e t, Store.assignItemAt distance scope name index v s = .error e t →
    ∀ n, e.fault ≠ .undefinedVariable n

theorem Store.slot_ne_undefined {size : Nat} {index : Value} {fault : Fault}
    (h : Store.slot size index = .error fault) (n : String) : fault ≠ .undefinedVariable n := by
  unfold Store.slot at h
  split at h
  · cases h
    simp
  · split at h
    · cases h
    · cases h
      simp

theorem Store.boundAt {s : Store} {distance : Nat} {scope a : ScopeId} {name : Token}
    (ha : s.ancestor? distance scope = some a) (hb : s.binds a name.lexeme = true) :
    s.BoundAt distance scope name := by
  obtain ⟨v, hv⟩ := Option.isSome_iff_exists.1 hb
  have at' : s.bindingAt? name.lexeme distance scope = some a := by
    rw [bindingAt?, ha, Option.filter_some, if_pos hb]
  refine ⟨⟨a, v, ha, hv⟩, ⟨v, ?_⟩, fun w e t h n => ?_, fun index w e t h n => ?_⟩
  · rw [getAt, at', readIn, Option.bind_some, hv]
  · rw [assignAt, at', assignIn] at h
    cases hc : coerce name.type w s with
    | ok u s' =>
      rw [hc] at h
      cases h
    | error m s' =>
      rw [hc] at h
      cases h
      simp
  · rw [assignItemAt, at', assignItemIn, hv] at h
    cases v with
    | array items =>
      dsimp only at h
      cases hs : slot (s.items items).size index with
      | error fault =>
        rw [hs] at h
        cases h
        exact slot_ne_undefined hs n
      | ok i =>
        rw [hs] at h
        dsimp only at h
        cases hc : coerce (name.type.element?.getD .any) w s with
        | ok u s' =>
          rw [hc] at h
          cases h
        | error m s' =>
          rw [hc] at h
          cases h
          simp
    | _ =>
      cases h
      simp

/-- What an expression evaluates before it accesses its own name. A name is read first and
written last. -/
def Eval.approach (setting : Setting ω) (apply : Apply ω) (scope : ScopeId) : Expr → Eval ω Unit
  | .assign _ _ value => do
    let _ ← expr setting apply scope value
  | .assignIndex _ _ position value => do
    let _ ← expr setting apply scope position
    let _ ← expr setting apply scope value
  | .assignElements _ _ elements => do
    let _ ← newArray (← exprs setting apply scope elements)
  | _ => pure ()

/-- On the way to an access no scope is moved and no name is taken away. -/
theorem Eval.approach_kept {setting : Setting ω}
    (outside : ∀ f ∈ setting.host.functions, f.Outside) (fuel : Nat) (scope : ScopeId) (e : Expr)
    (run : Run ω) :
    (Eval.approach setting (Eval.call setting fuel) scope e).Ends run
      (fun _ r => Store.Kept .everything none run.store r.store) (fun _ _ => True) := by
  have steady := steady_kept outside .everything
  have calls := keeps_call setting steady fuel none run.store
  have walked : ∀ (e : Expr) (r : Run ω), Store.Kept .everything none run.store r.store →
      (Eval.expr setting (Eval.call setting fuel) scope e).Ends r
        (fun _ r' => Store.Kept .everything none run.store r'.store) (fun _ _ => True) :=
    fun e r k => ((keeps_expr steady calls scope e (fun node _ => Permits.node_everything node) r
      (Store.bodies_everything _) k).all Event.spares_nothing).result.mono
        (fun _ _ h => h.2) fun _ _ _ => trivial
  cases e with
  | assign id name value =>
    refine Eval.ends_bind.2 ((walked value run (steady.refl none _)).mono ?_ fun _ _ h => h)
    exact fun _ _ k => k
  | assignIndex id name position value =>
    refine Eval.ends_bind.2 ((walked position run (steady.refl none _)).mono ?_ fun _ _ h => h)
    intro _ r k
    exact Eval.ends_bind.2 ((walked value r k).mono (fun _ _ k => k) fun _ _ h => h)
  | assignElements id name elements =>
    have walk := keeps_exprs steady calls scope elements
      (fun node _ => Permits.node_everything node) run (Store.bodies_everything _)
      (steady.refl none _)
    refine Eval.ends_bind.2 ((walk.all Event.spares_nothing).result.mono ?_ fun _ _ _ => trivial)
    intro values r k
    refine Eval.ends_bind.2 ((Eval.ends_newArray values).2 ?_)
    exact k.2.trans (Store.Kept.of_arrays rfl rfl)
  | _ => exact steady.refl none _

/-! ## Declared names and bound names -/

/-- The expression stands in the initial value of a declaration of its own name, to which it
assigns or which it calls. -/
def Expr.Hasty (statements : List Stmt) (e : Expr) : Prop :=
  ∃ name type start t, .declare name type start ∈ stmtsParts statements ∧ e ∈ start.nodes ∧
    e.name? = some t ∧ t.lexeme = name.lexeme ∧
    (e.assigns = true ∨ ∃ id paren arguments, .call id e paren arguments ∈ start.nodes)

/-- If the name of an expression is declared then it is bound in the same frame. -/
def Backed (fs gs : List Frame) (e : Expr) : Prop :=
  ∀ name d, e.name? = some name → fs.findIdx? (· name.lexeme) = some d →
    gs.findIdx? (· name.lexeme) = some d

/-- A name that is being declared does not matter to expressions with another name. -/
theorem backed_add {L : Layout} {name : String} {e : Expr}
    (h : ∀ t, e.name? = some t → t.lexeme = name → L.own = []) :
    Backed (L.add name).frames L.frames e := by
  intro t d ht hd
  cases hown : L.own with
  | nil =>
    have hadd : (L.add name).frames = L.frames := by simp only [Layout.add, hown, Layout.frames]
    rwa [hadd] at hd
  | cons f fs =>
    have hne : t.lexeme ≠ name := by
      intro e
      rw [h t ht e] at hown
      cases hown
    have hadd : (L.add name).frames = f.add name :: (fs ++ L.outer) := by
      simp only [Layout.add, hown, Layout.frames, List.cons_append]
    have hsame : f.add name t.lexeme = f t.lexeme := by simp [Frame.add, hne]
    rw [hadd, List.findIdx?_cons, hsame] at hd
    rw [Layout.frames, hown, List.cons_append, List.findIdx?_cons]
    exact hd

section Scoped

variable {P : List Frame → List Frame → Expr → Prop} {all : List Stmt}

/-- What is known of an expression at its place, and where its name is bound. -/
abbrev Bounded (P : List Frame → List Frame → Expr → Prop) (all : List Stmt)
    (fs gs : List Frame) (e : Expr) : Prop :=
  P fs gs e ∧ (Backed fs gs e ∨ e.Hasty all)

theorem bounded_same {fs : List Frame} {e : Expr} (h : e.Each (P fs fs)) :
    e.Each (Bounded P all fs fs) :=
  fun node hn => ⟨h node hn, .inl fun _ _ _ hd => hd⟩

mutual

/-- In a program that reads no name in its own initial value, names are bound where they are
used. -/
theorem Stmt.Scoped.bounded : (s : Stmt) → ∀ {L : Layout}, s.Scoped P L →
    (∀ part ∈ s.parts, part.Ready ∧ part ∈ stmtsParts all) → s.Scoped (Bounded P all) L
  | .expression e, _, h, _ => bounded_same h
  | .block body, _, h, hp =>
    StmtsScoped.bounded body h fun part hm => hp part (by simp [hm])
  | .declare name type start, L, h, hp => by
    obtain ⟨ready, hall⟩ := hp (.declare name type start) (by simp)
    refine ⟨h.1, Initializer.each_iff.2 fun node hn => ⟨Initializer.each_iff.1 h.2 node hn, ?_⟩⟩
    by_cases own : ∃ t, node.name? = some t ∧ t.lexeme = name.lexeme
    · obtain ⟨t, ht, hlex⟩ := own
      exact .inr ⟨name, type, start, t, hall, hn, ht, hlex, ready node hn t ht hlex⟩
    · exact .inl (backed_add fun t ht hlex => absurd ⟨t, ht, hlex⟩ own)
  | .ifThen keyword test yes, _, h, hp =>
    ⟨bounded_same h.1, h.2.1, Stmt.Scoped.bounded yes h.2.2 fun part hm => hp part (by simp [hm])⟩
  | .ifElse keyword test yes no, _, h, hp =>
    ⟨bounded_same h.1,
      ⟨h.2.1.1, Stmt.Scoped.bounded yes h.2.1.2 fun part hm => hp part (by simp [hm])⟩,
      h.2.2.1, Stmt.Scoped.bounded no h.2.2.2 fun part hm => hp part (by simp [hm])⟩
  | .while keyword test body, _, h, hp =>
    ⟨bounded_same h.1, h.2.1, Stmt.Scoped.bounded body h.2.2 fun part hm => hp part (by simp [hm])⟩
  | .return keyword value, _, h, _ => fun e he => bounded_same (h e he)
  | .break keyword, _, _, _ => trivial
  | .continue keyword, _, _, _ => trivial
  | .function header body, _, h, hp =>
    ⟨h.1, h.2.1, h.2.2.1, StmtsScoped.bounded body h.2.2.2 fun part hm => hp part (by simp [hm])⟩

theorem StmtsScoped.bounded : (ss : List Stmt) → ∀ {L : Layout}, StmtsScoped P L ss →
    (∀ part ∈ stmtsParts ss, part.Ready ∧ part ∈ stmtsParts all) →
    StmtsScoped (Bounded P all) L ss
  | [], _, _, _ => trivial
  | s :: ss, _, h, hp =>
    ⟨Stmt.Scoped.bounded s h.1 fun part hm => hp part (by simp [hm]),
      StmtsScoped.bounded ss h.2 fun part hm => hp part (by simp [hm])⟩

end

end Scoped

/-- The scope of a frame with a name binds it. -/
theorem Store.Lower.binds_at {s : Store} {n : String} : ∀ {cs : List ScopeId} {gs : List Frame}
    {d : Nat}, s.Lower cs gs → gs.findIdx? (· n) = some d →
    ∃ h : d < cs.length, s.binds cs[d] n = true
  | _, _, d, .nil, hd => by simp at hd
  | _, _, d, .cons hg hgs, hd => by
    rw [List.findIdx?_cons] at hd
    split at hd
    · next hn =>
      cases hd
      exact ⟨by simp, hg n hn⟩
    · obtain ⟨d', hd', rfl⟩ := Option.map_eq_some_iff.1 hd
      obtain ⟨hlt, hb⟩ := Store.Lower.binds_at hgs hd'
      exact ⟨Nat.succ_lt_succ hlt, hb⟩

/-! ## Runs -/

/-- Resolved names are bound. A machine takes up an accepted program, which cannot get at what
earlier ones have left there. It runs the program and calls its functions in any order, and in
between the host writes its variables and time goes by. Whenever the machine comes to an access of
a name with a distance, be it to read or to write it or to call it, the name is bound in the scope
at this distance; unless the access is an assignment or a call in the initial value of this very
name. -/
theorem accesses_bound {source : String} {host : Host ω}
    (outside : ∀ f ∈ host.functions, f.Outside) (accepted : (compile source host).accepted = true)
    (m : Machine ω) (forgets : m.Forgets host (compile source host))
    (requests : List (Nat × Request ω)) {fuel : Nat} {scope : ScopeId} {e : Expr} {run : Run ω}
    (h : Event.evaluates fuel scope e run ∈
      (m.reset host (compile source host).distances).eventsAll host
        (compile source host).statements requests)
    (written : e ∈ stmtsNodes (compile source host).statements)
    (settled : ¬ e.Hasty (compile source host).statements) {distance : Nat}
    (hd : (compile source host).distances.find? e.id = some distance) :
    ∃ name, e.name? = some name ∧ ∀ setting : Setting ω, setting.host = host → ∀ r,
      Eval.approach setting (Eval.call setting fuel) scope e run = .ok () r →
      r.store.BoundAt distance scope name := by
  have hc := compiled accepted
  have placed : StmtsScoped (Bounded _ (compile source host).statements) _ _ :=
    StmtsScoped.bounded _ hc.placed fun part hm => ⟨hc.surveyed.ready part hm, hm⟩
  obtain ⟨hev, -⟩ := Machine.Ready.eventsAll outside placed requests
    (Machine.ready_reset host m _) (forgets.sparing outside accepted requests) _ h
  rcases hev with ⟨cs, fs, gs, chain, -, lower, located, backed⟩ | ⟨asked, hasked⟩
  · rw [located.distance] at hd
    obtain ⟨name, hname, hidx⟩ := Option.bind_eq_some_iff.1 hd
    obtain ⟨hlt, hb⟩ := lower.binds_at (backed.resolve_right settled name distance hname hidx)
    refine ⟨name, hname, fun setting hs r hr => ?_⟩
    have kept : Store.Kept .everything none run.store r.store :=
      (Eval.approach_kept (by rw [hs]; exact outside) fuel scope e run).of_ok hr
    have chain' := Store.chain_congr chain fun c hm =>
      kept.parent c (Store.chain_lt chain c hm)
    exact Store.boundAt (Store.chain_ancestor_lt hlt chain') (kept.still _ _ hb)
  · exact absurd written (hc.not_asked hasked)

theorem accesses_bound_nested :
    ∃ fuel scope id name run, Event.evaluates fuel scope (.var id name) run ∈
        (agedMachine.reset Host.counting nested.distances).eventsAll Host.counting
          nested.statements
          [(5, .interpret), (0, .work #[] 7), (0, .interpret), (5, .call "twice")] ∧
      nested.distances.find? id = some 1 ∧ run.store.BoundAt 1 scope name := by
  have accepted : nested.accepted = true := by decide +kernel
  have happens : ((agedMachine.reset Host.counting nested.distances).eventsAll Host.counting
        nested.statements
        [(5, .interpret), (0, .work #[] 7), (0, .interpret), (5, .call "twice")]).any
      Event.readsParameter = true := by decide +kernel
  -- No declaration of the program is of a parameter's name.
  have others : ((stmtsParts nested.statements).all fun part => part.binds? != some "k") = true := by
    decide +kernel
  obtain ⟨ev, hev, ht⟩ := List.any_eq_true.1 happens
  cases ev with
  | binds => cases ht
  | evaluates fuel scope e run =>
    cases e with
    | var id name =>
      simp only [Event.readsParameter, Bool.and_eq_true, beq_iff_eq] at ht
      have written : .var id name ∈ stmtsNodes nested.statements :=
        evaluates_written Host.counting_outside accepted (agedMachine_forgets nested) hev
          (by simp [Expr.line, ht.1.2])
      have settled : ¬ (Expr.var id name).Hasty nested.statements := by
        rintro ⟨declared, type, start, t, hpart, -, hname, hlex, -⟩
        cases hname
        have := List.all_eq_true.1 others _ hpart
        simp [Stmt.binds?, ← hlex, ht.1.1] at this
      obtain ⟨t, hname, hbound⟩ := accesses_bound Host.counting_outside accepted agedMachine
        (agedMachine_forgets nested) _ hev written settled ht.2
      cases hname
      exact ⟨fuel, scope, id, name, run, hev, ht.2,
        hbound (Setting.mk Host.counting 0 Table.empty 0) rfl run rfl⟩
    | _ => cases ht

/-- A variable is assigned to in its own initial value. -/
def hastySource : String :=
  "{ int a = (a = 1); }"

/-- A function is called in the initial value of a variable that hides it. -/
def hidingSource : String :=
  "int f() { return 1; } { int f = f(); }"

/-- All expressions with this name have the distance zero. -/
def allNear (source name : String) : Bool :=
  (stmtsNodes (compile source (Host.empty : Host Unit)).statements).all fun e =>
    (e.name?.map Token.lexeme) != some name ||
      (compile source (Host.empty : Host Unit)).distances.find? e.id == some 0

/-- Names that have a distance, and are not bound when they are used. -/
theorem accesses_unbound :
    ((compile hastySource (Host.empty : Host Unit)).accepted = true ∧
      allNear hastySource "a" = true ∧
      firstRun hastySource = .error (.error ⟨1, .undefinedVariable "a"⟩)) ∧
    (compile hidingSource (Host.empty : Host Unit)).accepted = true ∧
      allNear hidingSource "f" = true ∧
      firstRun hidingSource = .error (.error ⟨1, .undefinedVariable "f"⟩) := by
  decide +kernel

end TickScript
