import TickScript.Proofs.Forgetting

/-!
# Resolution corresponds to runs

Whenever a run evaluates an expression, it is as many scopes away from the outermost one as
resolution was when it came to this expression. A name with a distance is therefore found where
resolution saw it declared, and nothing nearer hides it: looking the name up at its distance and
searching for it outward give the same.

This holds for every run of an accepted program and for every call of one of its functions
after that, whichever way the runs and calls before it ended and whatever the host did in between.
It holds on machines that have run other programs before, too.
-/

namespace TickScript

variable {ω : Type}

/-! ## Requests -/

namespace Machine

variable {P : List Frame → List Frame → Expr → Prop} {left : FunctionId → Prop} {first : Prop}
  {m : Machine ω} {host : Host ω} {statements : List Stmt} {top : Frame}

/-- The outermost scope of a machine is there and has none around it, and its functions were
declared where their frames say, except for those that are left of earlier programs. -/
structure Ready (P : List Frame → List Frame → Expr → Prop) (left : FunctionId → Prop)
    (m : Machine ω) : Prop where
  there : m.globals < m.store.scopes.size
  root : m.store.parent? m.globals = none
  goods : m.store.Goods P left m.globals

/-- A machine is at the place before the first statement. -/
theorem Ready.site (h : m.Ready P left)
    (htop : first → ∀ n, m.store.binds m.globals n = true → top n = true) :
    Site P left first m.globals m.store (.outermost top) m.globals [] [] where
  chain := rfl
  upper := .nil
  lower := .nil
  clear := trivial
  outside _ := rfl
  inside h := by simp [Layout.outermost] at h
  apart h := by simp [Layout.outermost] at h
  top _ := htop
  there := h.there
  goods := h.goods

/-- A request evaluates every expression of the program at its place, if it calls no function that
is left. -/
theorem Ready.arrives (outside : ∀ f ∈ host.functions, f.Outside) (h : m.Ready P left)
    (placed : StmtsScoped P (.outermost top) statements)
    (htop : first → ∀ n, m.store.binds m.globals n = true → top n = true) (fuel : Nat)
    (request : Request ω) :
    FollowsIf (Event.Spares left (m.setting host)) AnyOrder
      (fun ev => Placed P m.globals ev ∨ ev.Asked)
      (m.order host statements fuel request) (m.walk host statements fuel request) m.begin
      (fun _ r => r.store.Goods P left m.globals)
      (fun i r => r.store.Goods P left m.globals ∧ (first → i.Mild)) := by
  have calls : CallsPlaced P left (m.setting host) fuel := callsPlaced outside fuel
  have steady := steady_kept outside (.bodies left)
  -- What does not add to the outermost scope.
  have around : ∀ {act : Eval ω Unit} {walk : Walk ω},
      Moves (m.setting host) (.bodies left) (Store.Kept (.bodies left))
        (fun ev => Placed P m.globals ev ∨ ev.Asked) Interrupt.Mild none m.store act walk →
      FollowsIf (Event.Spares left (m.setting host)) AnyOrder
        (fun ev => Placed P m.globals ev ∨ ev.Asked) act walk m.begin
        (fun _ r => r.store.Goods P left m.globals)
        (fun i r => r.store.Goods P left m.globals ∧ (first → i.Mild)) := by
    intro act walk moves
    refine ((moves m.begin h.goods.bodies (steady.refl none _)).imp fun _ hev => hev.2).mono ?_ ?_
    · exact fun _ r _ hr => h.goods.kept hr.2
    · exact fun i r _ hr => ⟨h.goods.kept hr.1.2, fun _ => hr.2⟩
  cases request with
  | interpret =>
    have arrives : Arrives P left first (m.setting host) _ _ m.begin _ :=
      arrives_stmts outside calls statements placed (h.site htop)
    refine followsIf_last ((arrives.imp fun _ hev => .inl hev).mono ?_ fun _ _ _ h => h)
    intro _ r _ goods
    exact (Eval.ends_pure _).2 ⟨trivial, goods⟩
  | call name =>
    have asked : (Expr.globalCall name).Each
        (Allowed (.bodies left) (Store.Kept (.bodies left))
          (fun ev : Event ω => Placed P m.globals ev ∨ ev.Asked) none m.store fuel m.globals) :=
      fun node hn => ⟨Permits.node_bodies node, fun _ _ => .inr ⟨name, hn⟩⟩
    have hcall : CallsMove (m.setting host) (.bodies left) (Store.Kept (.bodies left))
        (fun ev => Placed P m.globals ev ∨ ev.Asked) Interrupt.Mild none m.store fuel :=
      fun f values line spared run hb k =>
        (calls m.store h.goods h.there f values line spared run hb k).imp
          fun _ hev => ⟨hev.1, .inl hev.2⟩
    exact around (moves_last (moves_expr steady (fun _ hi => hi) hcall m.globals
      (Expr.globalCall name) asked) fun _ => moves_pure steady _)
  | wait clock => exact around (moves_pure steady _)
  | write name v =>
    exact around (m.moves_write steady (fun _ hi => hi) (fun _ _ => trivial) fuel name v)
  | work arrays world => exact around (moves_arrays steady fun _ => ⟨rfl, rfl⟩)

/-- Every store of a request has the outermost scope where it was. -/
theorem Ready.keeps (outside : ∀ f ∈ host.functions, f.Outside) (m : Machine ω)
    (statements : List Stmt) (fuel : Nat) (request : Request ω) :
    Follows AnyOrder (fun ev => Store.Kept .everything (some m.globals) m.store ev.store)
      (m.order host statements fuel request) (m.walk host statements fuel request) m.begin
      (fun _ r => Store.Kept .everything (some m.globals) m.store r.store)
      (fun _ r => Store.Kept .everything (some m.globals) m.store r.store) := by
  have steady := steady_kept outside .everything
  have keeps := keeps_order steady m (Permits.each_everything statements) (fun _ _ => trivial) fuel
    m.store request m.begin (Store.bodies_everything _) (steady.refl _ _)
  refine ((keeps.all Event.spares_nothing).imp fun _ h => h.1).mono ?_ ?_
  · intro _ r _ h
    exact h.2
  · intro _ r _ h
    exact h.1.2

/-- A request that calls no function that is left leaves a machine ready. -/
theorem Ready.serve (outside : ∀ f ∈ host.functions, f.Outside) (h : m.Ready P left)
    (placed : StmtsScoped P (.outermost top) statements) {fuel : Nat} {request : Request ω}
    (spares : ∀ ev ∈ m.events host statements fuel request, ev.Spares left (m.setting host)) :
    (m.serve host statements fuel request).2.Ready P left ∧
      (m.serve host statements fuel request).2.globals = m.globals := by
  have arrives := h.arrives outside placed (fun h : False => h.elim) fuel request spares
  have ready : ∀ {r : Run ω} {m' : Machine ω}, m'.store = r.store → m'.globals = m.globals →
      r.store.Goods P left m.globals →
      Store.Kept .everything (some m.globals) m.store r.store →
      m'.Ready P left ∧ m'.globals = m.globals := by
    intro r m' hs hg goods k
    refine ⟨⟨?_, ?_, ?_⟩, hg⟩
    · rw [hg, hs]
      exact Nat.lt_of_lt_of_le h.there k.size
    · rw [hg, hs, k.parent _ h.there]
      exact h.root
    · rw [hg, hs]
      exact goods
  refine serve_of_ends (P := fun _ m' => m'.Ready P left ∧ m'.globals = m.globals)
    ((arrives.both (Ready.keeps outside m statements fuel request)).result.mono ?_ ?_)
  · intro _ r hr clock
    exact ready rfl rfl hr.1 hr.2
  · intro _ r hr errors
    exact ready rfl rfl hr.1.1 hr.2

/-- Along any requests every expression of the program is evaluated at its place. -/
theorem Ready.eventsAll (outside : ∀ f ∈ host.functions, f.Outside)
    (placed : StmtsScoped P (.outermost top) statements) (requests : List (Nat × Request ω)) :
    ∀ {m : Machine ω}, m.Ready P left → m.Sparing left host statements requests →
      ∀ ev ∈ m.eventsAll host statements requests,
      (Placed P m.globals ev ∨ ev.Asked) ∧ ev.store.parent? m.globals = none := by
  induction requests with
  | nil => exact fun _ _ ev hev => absurd hev List.not_mem_nil
  | cons entry rest ih =>
    obtain ⟨fuel, request⟩ := entry
    rintro m h ⟨spares, sparing⟩ ev hev
    rcases List.mem_append.1 hev with hev | hev
    · have hp := (h.arrives outside placed (fun h : False => h.elim) fuel request spares).events ev
        hev
      have k := (Ready.keeps outside m statements fuel request).events ev hev
      exact ⟨hp, (k.parent _ h.there).trans h.root⟩
    · obtain ⟨ready, hg⟩ := h.serve outside placed spares
      have := ih ready sparing ev hev
      rwa [hg] at this

/-- At the start of a program all script functions are left of earlier ones. -/
theorem ready_reset (host : Host ω) (m : Machine ω) (distances : Table ExprId Nat) :
    (m.reset host distances).Ready P m.store.Left := by
  have hb := begun host m.store
  refine ⟨?_, hb.parent, ?_⟩
  · show m.store.scopes.size < (newGlobals host m.store).2.scopes.size
    rw [hb.size]
    exact Nat.lt_succ_self _
  · exact fun f header body closure hf hl =>
      absurd ⟨_, hb.functions f header body closure hf, rfl⟩ hl

end Machine

/-! ## Names -/

namespace Store

variable {s : Store} {globals scope : ScopeId} {cs : List ScopeId} {name : String}

/-- A search outward stops at the first scope that has the name. -/
theorem nearestWithin?_chain : ∀ {cs : List ScopeId} {scope : ScopeId} {d limit : Nat}
    (hd : d < cs.length), s.Chain globals scope cs → d ≤ limit →
    (∀ i (h : i < cs.length), i < d → s.binds cs[i] name = false) →
    s.binds cs[d] name = true → s.nearestWithin? name limit scope = some cs[d]
  | c :: cs, _, 0, limit, _, hchain, _, _, hb => by
    obtain ⟨rfl, -⟩ := hchain
    cases limit <;> exact if_pos hb
  | c :: cs, _, d + 1, limit + 1, hd, hchain, hle, hbefore, hb => by
    obtain ⟨rfl, -, p, hp, hrest⟩ := hchain
    have hfirst := hbefore 0 (by simp) (Nat.succ_pos d)
    rw [List.getElem_cons_zero] at hfirst
    rw [nearestWithin?, if_neg (by simp [hfirst]), hp, Option.bind_some]
    refine nearestWithin?_chain (Nat.lt_of_succ_lt_succ hd) hrest (Nat.le_of_succ_le_succ hle) ?_ hb
    intro i hi hid
    exact hbefore (i + 1) (Nat.succ_lt_succ hi) (Nat.succ_lt_succ hid)

/-- A chain is no longer than there are scopes. -/
theorem chain_length_le (h : s.Chain globals scope cs) : cs.length ≤ s.scopes.size := by
  have hsub : cs ⊆ List.range s.scopes.size := fun c hc => List.mem_range.2 (chain_lt h c hc)
  have := List.Nodup.length_le_of_subset (chain_nodup h) hsub
  rwa [List.length_range] at this

/-- Looking a name up at the distance of the nearest scope with it is searching for it. -/
theorem get_of_getAt {d : Nat} {token : Token} {v : Value} (hd : d < cs.length)
    (h : s.Chain globals scope cs)
    (hbefore : ∀ i (h : i < cs.length), i < d → s.binds cs[i] token.lexeme = false)
    (hget : s.getAt d scope token = .ok v) : s.get scope token = .ok v := by
  have hanc := chain_ancestor_lt hd h
  by_cases hb : s.binds cs[d] token.lexeme = true
  · have hnear : s.nearest? token.lexeme scope = some cs[d] :=
      nearestWithin?_chain hd h (Nat.le_trans (Nat.le_of_lt hd) (chain_length_le h)) hbefore hb
    rw [getAt, bindingAt?, hanc, Option.filter_some, if_pos hb] at hget
    rw [get, hnear]
    exact hget
  · rw [getAt, bindingAt?, hanc, Option.filter_some, if_neg hb] at hget
    cases hget

end Store

/-! ## The correspondence -/

/-- In the state of a run in `scope`, resolution and the run agree about the expression `e`:

* resolution came to `e` exactly once, and then had as many scopes around it as there are from
  `scope` to the outermost one;
* if `e` has a distance then the scope at this distance is there and is not the outermost one,
  no scope before it has the name of `e`, and what is found in it is what a search outward from
  `scope` finds. -/
structure Mirrors (c : Compilation) (host : Host ω) (globals scope : ScopeId) (e : Expr)
    (s : Store) : Prop where
  visit : ∃ v ∈ c.visits host, v.expr = e ∧ (∀ u ∈ c.visits host, u.expr = e → u = v) ∧
    s.ancestor? v.state.scopes.length scope = some globals
  root : s.parent? globals = none
  distance : ∀ d, c.distances.find? e.id = some d → ∃ name a, e.name? = some name ∧
    s.ancestor? d scope = some a ∧ a ≠ globals ∧
    (∀ i < d, ∀ b, s.ancestor? i scope = some b → s.binds b name.lexeme = false) ∧
    ∀ v, s.getAt d scope name = .ok v → s.get scope name = .ok v

theorem Compiled.mirrors {source : String} {host : Host ω} {c : Compilation}
    (hc : Compiled source host c) {globals scope : ScopeId} {e : Expr} {s : Store}
    {cs : List ScopeId} {fs : List Frame} (root : s.parent? globals = none)
    (chain : s.Chain globals scope cs) (clear : s.Clear cs fs)
    (located : Located c.distances (c.visits host) fs e) : Mirrors c host globals scope e s where
  visit := by
    obtain ⟨v, hv, rfl, hlen⟩ := located.visited
    refine ⟨v, hv, rfl, fun u hu e => hc.visit_unique hu hv (congrArg Expr.id e), ?_⟩
    rw [hlen, ← Store.clear_length clear]
    exact Store.chain_ancestor chain
  root := root
  distance d hd := by
    rw [located.distance] at hd
    obtain ⟨name, hname, hidx⟩ := Option.bind_eq_some_iff.1 hd
    obtain ⟨hlt, hbefore⟩ := Store.clear_findIdx? clear hidx
    refine ⟨name, cs[d], hname, Store.chain_ancestor_lt hlt chain, ?_, ?_, ?_⟩
    · intro e
      exact Store.chain_globals_not_mem chain (e ▸ List.getElem_mem hlt)
    · intro i hi b hb
      rw [Store.chain_ancestor_lt (Nat.lt_trans hi hlt) chain] at hb
      cases hb
      exact hbefore i _ hi
    · intro v hv
      exact Store.get_of_getAt hlt chain hbefore hv

/-- What a request consists of stands in no program, because the source has no line zero. -/
theorem Compiled.not_asked {source : String} {host : Host ω} {c : Compilation}
    (hc : Compiled source host c) {name : String} {e : Expr}
    (he : e ∈ (Expr.globalCall name).nodes) : e ∉ stmtsNodes c.statements := by
  intro hn
  have hw := hc.written.1 e hn
  simp only [Expr.globalCall, Expr.nodes, exprsNodes, List.append_nil, List.mem_cons,
    List.not_mem_nil, or_false] at he
  rcases he with rfl | rfl
  · exact Nat.not_succ_le_zero 0 (scan_line hw)
  · exact Nat.not_succ_le_zero 0 (scan_line hw.1)

theorem Expr.line_of_asked {name : String} {e : Expr} (h : e ∈ (Expr.globalCall name).nodes) :
    e.line = 0 := by
  simp only [Expr.globalCall, Expr.nodes, exprsNodes, List.append_nil, List.mem_cons,
    List.not_mem_nil, or_false] at h
  rcases h with rfl | rfl <;> rfl

section Accepted

variable {source : String} {host : Host ω}

/-- Whatever has a line and is evaluated stands in the program. -/
theorem evaluates_written (outside : ∀ f ∈ host.functions, f.Outside)
    (accepted : (compile source host).accepted = true) {m : Machine ω}
    (forgets : m.Forgets host (compile source host)) {requests : List (Nat × Request ω)}
    {fuel : Nat} {scope : ScopeId} {e : Expr} {run : Run ω}
    (h : Event.evaluates fuel scope e run ∈
      (m.reset host (compile source host).distances).eventsAll host
        (compile source host).statements requests) (hline : e.line ≠ 0) :
    e ∈ stmtsNodes (compile source host).statements := by
  have hc := compiled accepted
  obtain ⟨hev, -⟩ := Machine.Ready.eventsAll outside hc.placed requests
    (Machine.ready_reset host m _) (forgets.sparing outside accepted requests) _ h
  rcases hev with ⟨cs, fs, gs, -, -, -, located⟩ | ⟨name, hname⟩
  · obtain ⟨v, hv, rfl, -⟩ := located.visited
    exact hc.mem_nodes hv
  · exact absurd (Expr.line_of_asked hname) hline

/-- Resolution mirrors runs. A machine takes up an accepted program, which cannot get at what
earlier ones have left there. It runs the program and calls its functions in any order, and in
between the host writes its variables and time goes by. Whenever the machine evaluates an
expression, then either the request itself consists of this expression, or resolution agrees about
it. -/
theorem evaluates_mirrors (outside : ∀ f ∈ host.functions, f.Outside)
    (accepted : (compile source host).accepted = true) (m : Machine ω)
    (forgets : m.Forgets host (compile source host)) (requests : List (Nat × Request ω))
    {fuel : Nat} {scope : ScopeId} {e : Expr} {run : Run ω}
    (h : Event.evaluates fuel scope e run ∈
      (m.reset host (compile source host).distances).eventsAll host
        (compile source host).statements requests) :
    (∃ name, e ∈ (Expr.globalCall name).nodes ∧ e ∉ stmtsNodes (compile source host).statements) ∨
      Mirrors (compile source host) host (m.reset host (compile source host).distances).globals
        scope e run.store := by
  have hc := compiled accepted
  obtain ⟨hev, root⟩ := Machine.Ready.eventsAll outside hc.placed requests
    (Machine.ready_reset host m _) (forgets.sparing outside accepted requests) _ h
  rcases hev with ⟨cs, fs, gs, chain, clear, -, located⟩ | ⟨name, hname⟩
  · exact .inr (hc.mirrors root chain clear located)
  · exact .inl ⟨name, hname, hc.not_asked hname⟩

end Accepted

/-- How the first run of a source ends for a host without names. -/
def firstRun (source : String) : Except Interrupt Unit :=
  (((Machine.start Host.empty .empty ()).reset Host.empty
    (compile source (Host.empty : Host Unit)).distances).interpret Host.empty 5
      (compile source (Host.empty : Host Unit)).statements).1

/-- The value of a global name after the first run of a source for a host without names. -/
def firstValue (source name : String) : Option Value :=
  (((Machine.start Host.empty .empty ()).reset Host.empty
    (compile source (Host.empty : Host Unit)).distances).interpret Host.empty 5
      (compile source (Host.empty : Host Unit)).statements).2.global? name

/-- A host with one function, which counts its calls. -/
def Host.counting : Host Nat :=
  ⟨[], [⟨"count", ⟨[], .int⟩, fun _ s w => ⟨some (.int (Int64.ofNat w)), s, w + 1, []⟩⟩]⟩

theorem Host.counting_outside : ∀ f ∈ Host.counting.functions, f.Outside := by
  intro f hf
  rw [List.mem_singleton.1 hf]
  exact ⟨fun _ _ _ => rfl, fun _ _ _ => ⟨#[], by simp, by simp⟩⟩

theorem Host.counting_built : Host.counting.Built .empty :=
  .function (.empty Store.closed_empty) rfl

/-- A program whose function reads its parameter in a block inside of it. -/
def nestedSource : String :=
  "int twice(int k) { { int l = k; return l + k; } } int n = twice(count());"

/-- The program of `nestedSource`. -/
abbrev nested : Compilation :=
  compile nestedSource Host.counting

/-- A machine that has run `nestedSource`, and on which its function is left. -/
def agedMachine : Machine Nat :=
  ((Machine.start Host.counting .empty 3).reset Host.counting nested.distances).serveAll
    Host.counting nested.statements [(5, .interpret)]

theorem agedMachine_forgets (c : Compilation) : agedMachine.Forgets Host.counting c := by
  refine .spared Host.counting_built fun e _ t _ f hf _ => ?_
  rw [List.mem_singleton.1 hf]
  exact nofun

/-- The parameter of `nestedSource` is evaluated with distance one. -/
def Event.readsParameter : Event Nat → Bool
  | .evaluates _ _ (.var id name) _ =>
    name.lexeme == "k" && name.line == 1 && nested.distances.find? id == some 1
  | _ => false

theorem evaluates_mirrors_nested :
    ∃ fuel scope e run, Event.evaluates fuel scope e run ∈
        (agedMachine.reset Host.counting nested.distances).eventsAll Host.counting
          nested.statements
          [(5, .interpret), (0, .work #[] 7), (0, .interpret), (5, .call "twice")] ∧
      nested.distances.find? e.id = some 1 ∧
      Mirrors nested Host.counting
        (agedMachine.reset Host.counting nested.distances).globals scope e run.store := by
  have accepted : nested.accepted = true := by decide +kernel
  have happens : ((agedMachine.reset Host.counting nested.distances).eventsAll Host.counting
        nested.statements
        [(5, .interpret), (0, .work #[] 7), (0, .interpret), (5, .call "twice")]).any
      Event.readsParameter = true := by decide +kernel
  obtain ⟨ev, hev, ht⟩ := List.any_eq_true.1 happens
  cases ev with
  | binds => cases ht
  | evaluates fuel scope e run =>
    cases e with
    | var id name =>
      simp only [Event.readsParameter, Bool.and_eq_true, beq_iff_eq] at ht
      have hmirror := evaluates_mirrors Host.counting_outside accepted agedMachine
        (agedMachine_forgets nested) _ hev
      refine ⟨fuel, scope, .var id name, run, hev, ht.2, hmirror.resolve_left ?_⟩
      rintro ⟨called, hn, -⟩
      exact absurd (Expr.line_of_asked hn) (by simp [Expr.line, ht.1.2])
    | _ => cases ht

end TickScript
