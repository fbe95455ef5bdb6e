import Mathlib.Logic.Function.Basic
import TickScript.Proofs.Roles

/-!
# Charts of the scopes of a run

A store tells which scopes there are and what their names are bound to, but not which block or
function a scope was made for. A chart is kept beside the store and says of each scope which
names are functions in it. It is fixed when the scope is made: a scope that is made for a block
gets the functions of this block.

A store agrees with its chart if a scope binds only its own functions to functions. What a run
does keeps this up, and the chart only ever grows. So a name that is looked up at its distance is
found in a scope whose functions are those that resolution saw at this distance.
-/

namespace TickScript

variable {ω : Type}

/-- Which names are functions in which scope. -/
abbrev Chart := ScopeId → Frame

/-- The value is no function. -/
def Value.Inert (v : Value) : Prop :=
  ∀ f, v ≠ .function f

/-- What is fixed about a program: what its expressions satisfy among the functions around them,
the functions of its outermost scope, the names whose functions last, and the functions that are
left of earlier programs. -/
structure Roles where
  stands : List Frame → Expr → Prop
  top : Frame
  lasting : String → Prop
  left : FunctionId → Prop

/-- The functions of the scope at a distance, with the functions `Fs` on the way to the outermost
scope. Without a distance it is this one. -/
def aim (top : Frame) (Fs : List Frame) : Option Nat → Frame
  | some distance => Fs[distance]?.getD top
  | none => top

/-- A name that can be assigned any value is a function where it is looked for, and there is none
if functions are left. A function that lasts is not assigned to, and only names are called. -/
structure Roles.Aims (R : Roles) (distances : Table ExprId Nat) (Fs : List Frame) (e : Expr) :
    Prop where
  wild : ∀ name, e.target? = some name → name.type.isWild = true →
    aim R.top Fs (distances.find? e.id) name.lexeme = true ∧ ∀ f, ¬ R.left f
  lasting : ∀ name, e.target? = some name → R.lasting name.lexeme →
    aim R.top Fs (distances.find? e.id) name.lexeme = false
  callee : ∀ id callee paren arguments, e = .call id callee paren arguments →
    ∃ i name, callee = .var i name

/-! ## Charts -/

namespace Store

variable {s t u : Store} {globals scope p : ScopeId} {chart chart' chart'' : Chart}
  {F : Frame} {Fs : List Frame}

/-- From `scope` outward, up to the outermost scope and without it, the scopes have the functions
`Fs`. -/
def Under (s : Store) (chart : Chart) (globals scope : ScopeId) (Fs : List Frame) : Prop :=
  ∃ cs, s.Chain globals scope cs ∧ cs.map chart = Fs

/-- The later store `t` has the scopes of `s` where they were, and its chart agrees about them. -/
structure Onward (chart : Chart) (s : Store) (chart' : Chart) (t : Store) : Prop where
  size : s.scopes.size ≤ t.scopes.size
  parent : ∀ c, c < s.scopes.size → t.parent? c = s.parent? c
  same : ∀ c, c < s.scopes.size → chart' c = chart c

theorem Onward.refl (chart : Chart) (s : Store) : Onward chart s chart s :=
  ⟨Nat.le_refl _, fun _ _ => rfl, fun _ _ => rfl⟩

theorem Onward.trans (h : Onward chart s chart' t) (h' : Onward chart' t chart'' u) :
    Onward chart s chart'' u where
  size := Nat.le_trans h.size h'.size
  parent c hc := (h'.parent c (Nat.lt_of_lt_of_le hc h.size)).trans (h.parent c hc)
  same c hc := (h'.same c (Nat.lt_of_lt_of_le hc h.size)).trans (h.same c hc)

theorem Onward.of_scopes (hs : t.scopes = s.scopes) : Onward chart s chart t where
  size := by simp [hs]
  parent c _ := by rw [parent?, parent?, hs]
  same _ _ := rfl

theorem Onward.bind (c : ScopeId) (n : String) (v : Value) :
    Onward chart s chart (s.bind c n v) where
  size := by simp
  parent p _ := parent?_bind s c p n v
  same _ _ := rfl

theorem Onward.newScope (p : Option ScopeId) (F : Frame) :
    Onward chart s (Function.update chart s.scopes.size F) (s.newScope p).2 where
  size := by simp
  parent c hc := parent?_newScope (Nat.ne_of_lt hc)
  same c hc := Function.update_of_ne (Nat.ne_of_lt hc) _ _

theorem Under.onward (h : s.Under chart globals scope Fs) (ho : Onward chart s chart' t) :
    t.Under chart' globals scope Fs := by
  obtain ⟨cs, chain, rfl⟩ := h
  have hlt := chain_lt chain
  refine ⟨cs, chain_congr chain fun c hc => ho.parent c (hlt c hc), ?_⟩
  exact List.map_congr_left fun c hc => ho.same c (hlt c hc)

theorem under_globals (s : Store) (chart : Chart) (globals : ScopeId) :
    s.Under chart globals globals [] :=
  ⟨[], rfl, rfl⟩

/-- The functions of the innermost scope. -/
theorem Under.head (h : s.Under chart globals scope Fs) :
    chart scope = Fs.headD (chart globals) := by
  obtain ⟨cs, chain, rfl⟩ := h
  cases cs with
  | nil => rw [show scope = globals from chain, List.map_nil, List.headD_nil]
  | cons c cs => rw [chain.1, List.map_cons, List.headD_cons]

/-- A new scope is the innermost one. -/
theorem Under.newScope (h : s.Under chart globals p Fs) (there : globals < s.scopes.size)
    (F : Frame) :
    (s.newScope (some p)).2.Under (Function.update chart s.scopes.size F) globals s.scopes.size
      (F :: Fs) := by
  obtain ⟨cs, chain, hcs⟩ := h.onward (Onward.newScope (some p) F)
  refine ⟨s.scopes.size :: cs, ⟨rfl, there, p, parent?_newScope_self s _, chain⟩, ?_⟩
  rw [List.map_cons, hcs, Function.update_self]

/-- The scope at a distance is the one in the chain, or else the outermost one. -/
theorem chain_at {c : ScopeId} (root : s.parent? globals = none) : ∀ {cs : List ScopeId}
    {scope : ScopeId} {distance : Nat}, s.Chain globals scope cs →
    s.ancestor? distance scope = some c → c = cs[distance]?.getD globals
  | [], _, distance, chain, h => by
    obtain rfl : _ = globals := chain
    cases distance with
    | zero => exact (Option.some.inj h).symm
    | succ distance =>
      rw [ancestor?, root] at h
      cases h
  | first :: cs, _, distance, chain, h => by
    obtain ⟨rfl, -, p, hp, rest⟩ := chain
    cases distance with
    | zero => exact (Option.some.inj h).symm
    | succ distance =>
      rw [ancestor?, hp, Option.bind_some] at h
      rw [List.getElem?_cons_succ]
      exact chain_at root rest h

/-- A name is found in a scope with the functions at which it aims. -/
theorem Under.found {setting : Setting ω} (h : s.Under chart setting.globals scope Fs)
    (root : s.parent? setting.globals = none) {id : ExprId} {name : Token} {c : ScopeId}
    (hf : Eval.found setting scope id name s = some c) :
    setting.globals ≤ c ∧
      chart c = aim (chart setting.globals) Fs (setting.distances.find? id) := by
  obtain ⟨cs, chain, rfl⟩ := h
  unfold Eval.found at hf
  cases hd : setting.distances.find? id with
  | none =>
    rw [hd] at hf
    dsimp only at hf
    rw [nearest?_root root] at hf
    split at hf
    · cases hf
      exact ⟨Nat.le_refl _, rfl⟩
    · cases hf
  | some distance =>
    rw [hd] at hf
    dsimp only at hf
    obtain ⟨ha, -⟩ := Option.filter_eq_some_iff.1 hf
    refine ⟨chain_within root chain ⟨distance, ha⟩, ?_⟩
    rw [aim, chain_at root chain ha, List.getElem?_map]
    cases cs[distance]? <;> rfl

end Store

/-! ## Functions that last -/

namespace Store

variable {s t u : Store} {names : String → Prop}

/-- Later on the functions of `s` are still there, and names among `names` that were bound to a
function are bound to the same one. -/
structure Lasts (names : String → Prop) (s t : Store) : Prop where
  functions : ∀ (f : FunctionId) (k : Callable), s.functions[f]? = some k → t.functions[f]? = some k
  bindings : ∀ c n f, names n → s.lookup c n = some (.function f) →
    t.lookup c n = some (.function f)

instance : StoreOrder (Lasts names) where
  refl _ := ⟨fun _ _ h => h, fun _ _ _ _ h => h⟩
  trans h h' := ⟨fun f k hk => h'.functions f k (h.functions f k hk),
    fun c n f hn hb => h'.bindings c n f hn (h.bindings c n f hn hb)⟩

theorem Lasts.of_scopes (hs : t.scopes = s.scopes) {added : Array Callable}
    (hf : t.functions = s.functions ++ added) : Lasts names s t where
  functions f k hk := by
    rw [hf, Array.getElem?_append, if_pos (Array.getElem?_eq_some_iff.1 hk).1]
    exact hk
  bindings c n f _ hb := by
    rw [lookup, hs]
    exact hb

theorem Lasts.newScope (p : Option ScopeId) : Lasts names s (s.newScope p).2 where
  functions _ _ hk := hk
  bindings c n f _ hb := by
    rw [lookup_newScope]
    exact hb

/-- A name is bound that was not bound to a function that lasts. -/
theorem Lasts.bind {c : ScopeId} {n : String} {v : Value}
    (h : names n → ∀ f, s.lookup c n ≠ some (.function f)) : Lasts names s (s.bind c n v) where
  functions _ _ hk := hk
  bindings c' n' f hn hb := by
    rw [lookup_bind_of_ne]
    · exact hb
    · by_contra hcon
      obtain ⟨rfl, rfl⟩ := not_or.1 hcon |>.imp not_not.1 not_not.1
      exact h hn f hb

theorem Lasts.define {c : ScopeId} {n : String} {v : Value} (h : s.binds c n = false) :
    Lasts names s (s.bind c n v) := by
  refine .bind fun _ f hf => ?_
  rw [binds_false_iff.1 h] at hf
  cases hf

end Store

/-! ## Stores that agree with their chart -/

namespace Roles

variable {R : Roles} {globals : ScopeId} {chart : Chart} {s t : Store}

/-- The outermost scope is there, each scope binds only its own functions to functions, and none to
one that is left. The other functions of scripts were declared where they stand. -/
structure Charted (R : Roles) (globals : ScopeId) (chart : Chart) (s : Store) : Prop where
  there : globals < s.scopes.size
  root : s.parent? globals = none
  top : chart globals = R.top
  kinds : ∀ c n f, globals ≤ c → s.lookup c n = some (.function f) → chart c n = true ∧ ¬ R.left f
  old : ∀ f, R.left f → f < s.functions.size
  functions : ∀ (f : FunctionId) (header : Header) (body : List Stmt) (closure : ScopeId),
    s.functions[f]? = some (.script header body closure) → ¬ R.left f →
    ∃ Fs, s.Under chart globals closure Fs ∧ (Stmt.function header body).Stands R.stands R.top Fs

theorem Charted.aside (h : R.Charted globals chart s) (hs : t.scopes = s.scopes)
    {added : Array Callable} (hf : t.functions = s.functions ++ added)
    (hno : ∀ k ∈ added, k.isScript = false) : R.Charted globals chart t where
  there := by
    rw [hs]
    exact h.there
  root := by
    rw [Store.parent?, hs]
    exact h.root
  top := h.top
  kinds c n f hc hb := by
    rw [Store.lookup, hs] at hb
    exact h.kinds c n f hc hb
  old f hl := by
    rw [hf, Array.size_append]
    exact Nat.lt_add_right _ (h.old f hl)
  functions f header body closure hk hl := by
    rw [hf, Array.getElem?_append] at hk
    split at hk
    · obtain ⟨Fs, under, stands⟩ := h.functions f header body closure hk hl
      exact ⟨Fs, under.onward (.of_scopes hs), stands⟩
    · have := hno _ (Array.mem_of_getElem? hk)
      simp [Callable.isScript] at this

theorem Charted.bind (h : R.Charted globals chart s) {c : ScopeId} {n : String} {v : Value}
    (hv : ∀ f, v = .function f → chart c n = true ∧ ¬ R.left f) :
    R.Charted globals chart (s.bind c n v) where
  there := by
    rw [Store.size_bind]
    exact h.there
  root := by
    rw [Store.parent?_bind]
    exact h.root
  top := h.top
  kinds c' n' f hc' hb := by
    by_cases e : c' = c ∧ n' = n
    · obtain ⟨rfl, rfl⟩ := e
      have hlt : c' < s.scopes.size := by
        have := Store.lt_of_lookup hb
        rwa [Store.size_bind] at this
      rw [Store.lookup_bind _ _ _ _ _ _ hlt, if_pos ⟨rfl, rfl⟩] at hb
      exact hv f (Option.some.inj hb)
    · rw [Store.lookup_bind_of_ne (by tauto)] at hb
      exact h.kinds c' n' f hc' hb
  old := h.old
  functions f header body closure hk hl := by
    obtain ⟨Fs, under, stands⟩ := h.functions f header body closure hk hl
    exact ⟨Fs, under.onward (.bind c n v), stands⟩

theorem Charted.newScope (h : R.Charted globals chart s) (p : ScopeId) (F : Frame) :
    R.Charted globals (Function.update chart s.scopes.size F) (s.newScope (some p)).2 where
  there := by
    rw [Store.size_newScope]
    exact Nat.lt_succ_of_lt h.there
  root := by
    rw [Store.parent?_newScope (Nat.ne_of_lt h.there)]
    exact h.root
  top := by
    rw [Function.update_of_ne (Nat.ne_of_lt h.there)]
    exact h.top
  kinds c n f hc hb := by
    rw [Store.lookup_newScope] at hb
    rw [Function.update_of_ne (Nat.ne_of_lt (Store.lt_of_lookup hb))]
    exact h.kinds c n f hc hb
  old := h.old
  functions f header body closure hk hl := by
    obtain ⟨Fs, under, stands⟩ := h.functions f header body closure hk hl
    exact ⟨Fs, under.onward (.newScope _ F), stands⟩

theorem Charted.newFunction (h : R.Charted globals chart s) {header : Header} {body : List Stmt}
    {closure : ScopeId} {Fs : List Frame} (under : s.Under chart globals closure Fs)
    (stands : (Stmt.function header body).Stands R.stands R.top Fs) :
    R.Charted globals chart (s.newFunction (.script header body closure)).2 where
  there := h.there
  root := h.root
  top := h.top
  kinds := h.kinds
  old f hl := Nat.lt_trans (h.old f hl) (by simp [Store.newFunction])
  functions f header' body' closure' hk hl := by
    simp only [Store.newFunction, Array.getElem?_push] at hk
    split at hk
    · cases hk
      exact ⟨Fs, under.onward (.of_scopes rfl), stands⟩
    · obtain ⟨Fs', under', stands'⟩ := h.functions f header' body' closure' hk hl
      exact ⟨Fs', under'.onward (.of_scopes rfl), stands'⟩

/-- Where a name aims at no function, none is found. -/
theorem Charted.no_function {setting : Setting ω} (h : R.Charted setting.globals chart s)
    {scope : ScopeId} {Fs : List Frame} (under : s.Under chart setting.globals scope Fs)
    {id : ExprId} {name : Token} {c : ScopeId}
    (hf : Eval.found setting scope id name s = some c)
    (ha : aim R.top Fs (setting.distances.find? id) name.lexeme = false) (f : FunctionId) :
    s.lookup c name.lexeme ≠ some (.function f) := by
  intro hb
  obtain ⟨hle, hc⟩ := under.found h.root hf
  have hfunction := (h.kinds c _ f hle hb).1
  rw [hc, h.top, ha] at hfunction
  cases hfunction

/-- What is found is no function that is left. -/
theorem Charted.not_left {setting : Setting ω} (h : R.Charted setting.globals chart s)
    {scope : ScopeId} {Fs : List Frame} (under : s.Under chart setting.globals scope Fs)
    {id : ExprId} {name : Token} {c : ScopeId}
    (hf : Eval.found setting scope id name s = some c) {f : FunctionId}
    (hb : s.lookup c name.lexeme = some (.function f)) : ¬ R.left f :=
  (h.kinds c _ f (under.found h.root hf).1 hb).2

/-! ## Stores that are reached -/

/-- From a store with a chart a run gets to `t`, which agrees with a chart that goes on from it. -/
def Reaches (R : Roles) (globals : ScopeId) (chart : Chart) (s t : Store) : Prop :=
  ∃ chart', Store.Onward chart s chart' t ∧ R.Charted globals chart' t

theorem Charted.reaches (h : R.Charted globals chart s) : R.Reaches globals chart s s :=
  ⟨chart, .refl chart s, h⟩

theorem Reaches.charted (h : R.Reaches globals chart s t) :
    ∃ chart', R.Charted globals chart' t := by
  obtain ⟨chart', -, hc⟩ := h
  exact ⟨chart', hc⟩

theorem Reaches.after {chart' : Chart} {u : Store} (h : R.Reaches globals chart' t u)
    (ho : Store.Onward chart s chart' t) : R.Reaches globals chart s u := by
  obtain ⟨chart'', ho', hc⟩ := h
  exact ⟨chart'', ho.trans ho', hc⟩

/-- A run gets to an expression that stands where it is evaluated. -/
def Meets (R : Roles) (globals : ScopeId) : Event ω → Prop
  | .evaluates _ scope e run =>
    ∃ chart Fs, R.Charted globals chart run.store ∧ run.store.Under chart globals scope Fs ∧
      e.Each (R.stands Fs)
  | .binds .. => True

theorem Reaches.meets (h : R.Reaches globals chart s t) {scope : ScopeId} {Fs : List Frame}
    (under : s.Under chart globals scope Fs) {e : Expr} (he : e.Each (R.stands Fs)) (fuel : Nat)
    {run : Run ω} (hr : run.store = t) : R.Meets globals (.evaluates fuel scope e run) := by
  obtain ⟨chart', ho, hc⟩ := h
  subst hr
  exact ⟨chart', Fs, hc, under.onward ho, he⟩

end Roles

end TickScript
