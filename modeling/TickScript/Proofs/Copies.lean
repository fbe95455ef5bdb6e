import TickScript.Proofs.Closed

/-!
# What is seen of copies

What is seen of a value of a closed store does not change when arrays and functions are added.
A copy shows what its original showed, and so do the variables of a host when a program starts.
What is seen of a value that was built and then fitted to a type can be said without a store.
-/

namespace TickScript

variable {ω : Type}

namespace Store

/-! ## Stores with more in them -/

/-- The arrays and functions of `s` are in `t` as they were. -/
structure Adds (s t : Store) : Prop where
  arrays : ∀ a, a < s.arrays.size → t.arrays[a]? = s.arrays[a]?
  functions : ∀ f, f < s.functions.size → t.functions[f]? = s.functions[f]?

variable {s t u : Store}

theorem Adds.of_frame (ha : t.arrays = s.arrays) (hf : t.functions = s.functions) : Adds s t :=
  ⟨fun _ _ => by rw [ha], fun _ _ => by rw [hf]⟩

theorem Adds.refl (s : Store) : Adds s s := .of_frame rfl rfl

theorem Adds.grows (h : Adds s t) : Grows s t := by
  constructor
  · by_contra hlt
    have := h.arrays t.arrays.size (Nat.lt_of_not_le hlt)
    rw [Array.getElem?_eq_none (Nat.le_refl _), eq_comm, Array.getElem?_eq_none_iff] at this
    exact hlt this
  · by_contra hlt
    have := h.functions t.functions.size (Nat.lt_of_not_le hlt)
    rw [Array.getElem?_eq_none (Nat.le_refl _), eq_comm, Array.getElem?_eq_none_iff] at this
    exact hlt this

theorem Adds.trans (h : Adds s t) (h' : Adds t u) : Adds s u where
  arrays a ha := (h'.arrays a (Nat.lt_of_lt_of_le ha h.grows.arrays)).trans (h.arrays a ha)
  functions f hf :=
    (h'.functions f (Nat.lt_of_lt_of_le hf h.grows.functions)).trans (h.functions f hf)

theorem Extends.adds (h : Extends s t) : Adds s t where
  arrays := h.arrays
  functions f hf := by
    obtain ⟨added, hadd, -⟩ := h.functions
    rw [hadd, Array.getElem?_append_left hf]

theorem adds_newFunction (s : Store) (k : Callable) : Adds s (s.newFunction k).2 where
  arrays _ _ := rfl
  functions f hf := by rw [newFunction, Array.getElem?_push, if_neg (Nat.ne_of_lt hf)]

theorem adds_newScope (s : Store) (p : Option ScopeId) : Adds s (s.newScope p).2 :=
  .of_frame rfl rfl

theorem Adds.items (h : Adds s t) {a : ArrayId} (ha : a < s.arrays.size) :
    t.items a = s.items a := by
  rw [Store.items, Store.items, Array.getD_eq_getD_getElem?, h.arrays a ha,
    Array.getD_eq_getD_getElem?]

theorem Adds.functionContent (h : Adds s t) {f : FunctionId} (hf : f < s.functions.size) :
    t.functionContent f = s.functionContent f := by
  rw [Store.functionContent, h.functions f hf, ← Store.functionContent]

/-- What is seen of a value stays the same. -/
theorem Adds.contentWithin (h : Adds s t) (closed : s.Closed) (depth : Nat) :
    ∀ {v : Value}, s.Has v → t.contentWithin depth v = s.contentWithin depth v := by
  induction depth with
  | zero =>
    intro v hv
    cases v with
    | function f => exact h.functionContent hv
    | _ => rfl
  | succ depth ih =>
    intro v hv
    cases v with
    | function f => exact h.functionContent hv
    | array a =>
      rw [Store.contentWithin, Store.contentWithin, h.items hv]
      congr 1
      exact List.map_congr_left fun w hw => ih (closed.items a w (Array.mem_toList_iff.1 hw))
    | _ => rfl

theorem Adds.content (h : Adds s t) (closed : s.Closed) {v : Value} (hv : s.Has v) :
    t.content v = s.content v :=
  h.contentWithin closed nesting hv

/-! ## Copies -/

theorem content_buildFunction {s t u : Store} {f : FunctionId} (hst : Adds s t)
    (htu : Adds (t.build (s.functionContent f)).2 u) (depth : Nat) :
    u.contentWithin depth (t.build (s.functionContent f)).1 = s.functionContent f := by
  revert htu
  unfold Store.functionContent
  cases hf : s.functions[f]? with
  | none => cases depth <;> exact fun _ => rfl
  | some k =>
    intro htu
    have hu : u.functions[f]? = some k := by
      have hlt := (Array.getElem?_eq_some_iff.1 hf).1
      rw [htu.functions f (Nat.lt_of_lt_of_le hlt hst.grows.functions)]
      exact (hst.functions f hlt).trans hf
    cases depth <;> simp only [build, Store.contentWithin, Store.functionContent, hu]

/-- Values that are built one after the other, where none changes an earlier one. -/
theorem content_buildAll {s : Store} {depth : Nat}
    (one : ∀ {v : Value} {t u : Store}, t.Closed → Adds s t →
      Adds (t.build (s.contentWithin depth v)).2 u →
      u.contentWithin depth (t.build (s.contentWithin depth v)).1 = s.contentWithin depth v) :
    ∀ (vs : List Value) {t u : Store}, t.Closed → Adds s t →
      Adds (t.buildAll (vs.map (s.contentWithin depth))).2 u →
      (t.buildAll (vs.map (s.contentWithin depth))).1.map (u.contentWithin depth) =
        vs.map (s.contentWithin depth)
  | [], _, _, _, _, _ => rfl
  | v :: vs, t, u, closed, hst, htu => by
    have mentions := Mentions.grows _ (s.mentions_content depth v) hst.grows
    obtain ⟨closed', -, -⟩ := Closed.build (s.contentWithin depth v) closed mentions
    have first := (build_extends (s.contentWithin depth v) t).1.adds
    have rest := (buildAll_extends (vs.map (s.contentWithin depth))
      (t.build (s.contentWithin depth v)).2).adds
    rw [List.map_cons, buildAll] at htu ⊢
    rw [List.map_cons, one closed hst (rest.trans htu),
      content_buildAll one vs closed' (hst.trans first) htu]

/-- A value that is built from what was seen of a value shows the same, also later. -/
theorem content_build {s : Store} (depth : Nat) : ∀ {v : Value} {t u : Store}, t.Closed →
    Adds s t → Adds (t.build (s.contentWithin depth v)).2 u →
    u.contentWithin depth (t.build (s.contentWithin depth v)).1 = s.contentWithin depth v := by
  induction depth with
  | zero =>
    intro v t u _ hst htu
    cases v with
    | function f => exact content_buildFunction hst htu 0
    | _ => rfl
  | succ depth ih =>
    intro v t u closed hst htu
    cases v with
    | function f => exact content_buildFunction hst htu (depth + 1)
    | array a =>
      rw [Store.contentWithin, build] at htu ⊢
      have last := (extends_newArray
        (t.buildAll ((s.items a).toList.map (s.contentWithin depth))).2
        (t.buildAll ((s.items a).toList.map (s.contentWithin depth))).1.toArray).adds
      rw [Store.contentWithin, htu.items (by simp [newArray])]
      congr 1
      rw [show Store.items _ _ = _ from items_newArray _ _, List.toList_toArray]
      exact content_buildAll ih _ closed hst (last.trans htu)
    | _ => rfl

/-- A copy shows what its original shows, also later. -/
theorem content_copy {v : Value} (closed : s.Closed) (h : Adds (s.copy v).2 t) :
    t.content (s.copy v).1 = s.content v :=
  content_build nesting closed (.refl s) h

end Store

/-! ## Fitted contents -/

namespace Content

/-- What is seen of a scalar that was fitted to a kind. -/
def fitScalar : Scalar → Content → Content
  | .int, .float x =>
    match Number.integral? x with
    | some n => .int n
    | none => .float x
  | .float, .int n => .float (Number.ofInt n)
  | _, c => c

/-- What is seen of a value that was fitted to a type. -/
def fit : Ty → Content → Content
  | .scalar k, c => c.fitScalar k
  | .array element, .array items => .array (items.map (fitScalar element))
  | _, c => c

end Content

namespace Store

theorem content_convert {s t : Store} {c : Content} {k : Scalar} {w : Value}
    (h : (s.build c).1.convert (.scalar k) = .ok w) (depth : Nat) :
    t.contentWithin depth w = c.fitScalar k := by
  cases c with
  | int n => cases k <;> cases h <;> cases depth <;> rfl
  | bool b =>
    cases k <;> cases h
    cases depth <;> rfl
  | float x =>
    cases k with
    | int =>
      rw [build, Value.convert_float_int] at h
      cases hn : Number.integral? x with
      | none =>
        rw [hn] at h
        cases h
      | some n =>
        rw [hn] at h
        cases h
        have fitted : (Content.float x).fitScalar .int = .int n := by
          simp only [Content.fitScalar, hn]
        rw [fitted]
        cases depth <;> rfl
    | float =>
      cases h
      cases depth <;> rfl
    | bool => cases h
  | function f name => cases k <;> cases h
  | nil => cases k <;> cases h
  | array items => cases k <;> cases h

theorem content_convertItems {u : Store} {element : Scalar} {depth : Nat} :
    ∀ {cs : List Content} {s : Store} {ws : List Value},
      convertItems element (s.buildAll cs).1 = (ws, none) →
      ws.map (u.contentWithin depth) = cs.map (Content.fitScalar element)
  | [], _, _, h => by
    cases h
    rfl
  | c :: cs, s, ws, h => by
    rw [buildAll, convertItems] at h
    dsimp only at h
    split at h
    · cases h
    · next w hw =>
      cases hrest : convertItems element ((s.build c).2.buildAll cs).1 with
      | mk rest failure =>
        rw [hrest] at h
        cases h
        rw [List.map_cons, List.map_cons, content_convert hw, content_convertItems hrest]

/-- A value that is built and fitted to a type shows what its content says. -/
theorem content_fitted {s t : Store} {c : Content} {type : Ty} {w : Value}
    (hwild : type.isWild = false) (h : coerce type (s.build c).1 (s.build c).2 = .ok w t) :
    t.content w = c.fit type := by
  rcases array_or_plain type (s.build c).1 with ⟨element, a, rfl, ha⟩ | hplain
  · cases c with
    | array cs =>
      rw [build] at ha h
      cases ha
      rw [coerce_array, show Store.items _ _ = _ from items_newArray _ _,
        List.toList_toArray] at h
      cases hc : convertItems element (s.buildAll cs).1 with
      | mk ws failure =>
        rw [hc] at h
        cases failure with
        | some m => cases h
        | none =>
          cases h
          obtain ⟨depth, hdepth⟩ := nesting_succ
          rw [content, hdepth, contentWithin, items_setItems _ _ _ _ (by simp [newArray]),
            if_pos rfl, List.toList_toArray, content_convertItems hc, Content.fit]
    | _ => cases ha
  · rw [coerce_plain _ hplain] at h
    cases hc : (s.build c).1.convert type with
    | error m =>
      rw [hc] at h
      cases h
    | ok v =>
      rw [hc] at h
      cases h
      cases type with
      | scalar k => exact content_convert hc nesting
      | array element =>
        cases c with
        | array cs => exact absurd rfl (hplain element _ rfl)
        | _ => cases hc
      | void => cases c <;> cases hc; rfl
      | _ => cases hwild

end Store

/-! ## What a program starts with -/

namespace Machine

/-- Something that a program finds in its outermost scope. -/
inductive Provision where
  | function (c : Callable)
  | «variable» (v : HostVariable)

namespace Provision

def name : Provision → String
  | function c => c.name
  | «variable» v => v.name

/-- The value that is provided, which is made for it. -/
def make (t : Store) : Provision → Value × Store
  | function c => (.function (t.newFunction c).1, (t.newFunction c).2)
  | «variable» v => t.copy v.initial

/-- Of one name, what is provided first counts. -/
def provide (g : ScopeId) (t : Store) (p : Provision) : Store :=
  Machine.provide g (p.make t).2 p.name (p.make t).1

variable {g : ScopeId} {t : Store}

theorem make_scopes (p : Provision) (t : Store) : (p.make t).2.scopes = t.scopes := by
  cases p with
  | function c => rfl
  | «variable» v => exact (t.copy_frame v.initial).1

theorem adds_make (p : Provision) (t : Store) : t.Adds (p.make t).2 := by
  cases p with
  | function c => exact t.adds_newFunction c
  | «variable» v => exact (Store.build_extends _ t).1.adds

theorem closed_provide (p : Provision) (closed : t.Closed) : (p.provide g t).Closed := by
  cases p with
  | function c =>
    exact Machine.closed_provide c.name (closed.newFunction c).1
      (by simp [make, Store.Has, Store.newFunction])
  | «variable» v =>
    obtain ⟨closed', -, hv⟩ := closed.copy v.initial
    exact Machine.closed_provide v.name closed' hv

theorem adds_provide (p : Provision) : (p.make t).2.Adds (p.provide g t) := by
  unfold provide Machine.provide
  split
  · exact .refl _
  · exact .of_frame rfl rfl

theorem size_provide (p : Provision) : (p.provide g t).scopes.size = t.scopes.size := by
  rw [← p.make_scopes t]
  unfold provide Machine.provide
  split
  · rfl
  · exact Store.size_bind _ _ _ _

theorem lookup_provide (p : Provision) (hg : g < t.scopes.size) (n : String) :
    (p.provide g t).lookup g n =
      if n = p.name ∧ t.binds g n = false then some (p.make t).1 else t.lookup g n := by
  have scopes := p.make_scopes t
  have binds : ∀ n, (p.make t).2.binds g n = t.binds g n := fun n => by
    rw [Store.binds, Store.lookup, scopes, ← Store.lookup, ← Store.binds]
  have found : ∀ n, (p.make t).2.lookup g n = t.lookup g n := fun n => by
    rw [Store.lookup, scopes, ← Store.lookup]
  unfold provide Machine.provide
  rw [binds p.name]
  cases taken : t.binds g p.name with
  | true =>
    rw [if_pos rfl, found n, if_neg]
    rintro ⟨rfl, free⟩
    rw [taken] at free
    cases free
  | false =>
    rw [if_neg Bool.false_ne_true, Store.lookup_bind _ g g _ n _ (scopes ▸ hg), found n]
    refine if_congr ⟨?_, fun h => ⟨rfl, h.1⟩⟩ rfl rfl
    rintro ⟨-, rfl⟩
    exact ⟨rfl, taken⟩

/-- What is provided in turn leaves everything as it is, but for names that were free. -/
theorem foldl_provide : ∀ (ps : List Provision) {t : Store}, t.Closed → g < t.scopes.size →
    (ps.foldl (provide g) t).Closed ∧ g < (ps.foldl (provide g) t).scopes.size ∧
      t.Adds (ps.foldl (provide g) t) ∧
      ∀ n, (∀ p ∈ ps, p.name ≠ n) ∨ t.binds g n = true →
        (ps.foldl (provide g) t).lookup g n = t.lookup g n
  | [], t, closed, hg => ⟨closed, hg, .refl t, fun _ _ => rfl⟩
  | p :: ps, t, closed, hg => by
    obtain ⟨last, size, adds, same⟩ := foldl_provide ps (p.closed_provide closed)
      (Nat.lt_of_lt_of_eq hg p.size_provide.symm)
    refine ⟨last, size, ((p.adds_make t).trans p.adds_provide).trans adds, fun n hn => ?_⟩
    have first : (p.provide g t).lookup g n = t.lookup g n := by
      rw [p.lookup_provide hg n, if_neg]
      rintro ⟨rfl, free⟩
      rcases hn with hn | hn
      · exact hn p List.mem_cons_self rfl
      · rw [hn] at free
        cases free
    refine (same n ?_).trans first
    rcases hn with hn | hn
    · exact .inl fun q hq => hn q (List.mem_cons_of_mem p hq)
    · exact .inr (by rw [Store.binds, first, ← Store.binds]; exact hn)

/-- A name that was free is bound to what is provided first under it. -/
theorem foldl_provide_first {ps : List Provision} {n : String} {p : Provision}
    (closed : t.Closed) (hg : g < t.scopes.size) (free : t.binds g n = false)
    (first : ps.find? (·.name == n) = some p) :
    ∃ u, t.Adds u ∧ u.Closed ∧ (p.make u).2.Adds (ps.foldl (provide g) t) ∧
      (ps.foldl (provide g) t).lookup g n = some (p.make u).1 := by
  obtain ⟨hn, before, after, rfl, others⟩ := List.find?_eq_some_iff_append.1 first
  obtain rfl := eq_of_beq hn
  -- `u` is the store in which the turn of `p` comes.
  obtain ⟨closed', hg', adds, same⟩ := foldl_provide before closed hg
  have still : (before.foldl (provide g) t).binds g p.name = false := by
    rw [Store.binds, same, ← Store.binds]
    · exact free
    · exact .inl fun q hq e => by simpa [e] using others q hq
  have bound := p.lookup_provide hg' p.name
  rw [if_pos ⟨rfl, still⟩] at bound
  obtain ⟨-, -, adds', same'⟩ := foldl_provide after (p.closed_provide closed')
    (Nat.lt_of_lt_of_eq hg' p.size_provide.symm)
  refine ⟨_, adds, closed', ?_, ?_⟩
  · rw [List.foldl_append, List.foldl_cons]
    exact p.adds_provide.trans adds'
  · rw [List.foldl_append, List.foldl_cons]
    exact (same' p.name (.inr (Store.binds_iff.2 ⟨_, bound⟩))).trans bound

end Provision

/-- What a program finds in its outermost scope, in the order in which it is provided. -/
def provisions (host : Host ω) : List Provision :=
  Builtin.all.map (fun b => .function (.builtin b)) ++
    host.functions.map (fun f => .function (.host f.name f.signature)) ++
    host.externals.map .variable

variable {host : Host ω} {s : Store}

theorem newGlobals_eq (host : Host ω) (s : Store) :
    (newGlobals host s).2 =
      (provisions host).foldl (Provision.provide s.scopes.size) (s.newScope none).2 := by
  simp only [provisions, List.foldl_append, List.foldl_map]
  rfl

theorem adds_newGlobals (closed : s.Closed) : s.Adds (newGlobals host s).2 := by
  obtain ⟨-, -, adds, -⟩ := Provision.foldl_provide (g := s.scopes.size) (provisions host)
    (closed.newScope none).1 (by simp)
  rw [newGlobals_eq]
  exact (s.adds_newScope none).trans adds

/-- When a program starts, a name stands for what is provided first under it. -/
theorem newGlobals_first (closed : s.Closed) {n : String} {p : Provision}
    (first : (provisions host).find? (·.name == n) = some p) :
    ∃ u, s.Adds u ∧ u.Closed ∧ (p.make u).2.Adds (newGlobals host s).2 ∧
      (newGlobals host s).2.lookup s.scopes.size n = some (p.make u).1 := by
  have free : (s.newScope none).2.binds s.scopes.size n = false := by
    rw [Store.binds, Store.lookup_newScope, ← Store.binds, ← Bool.not_eq_true]
    exact fun hb => Nat.lt_irrefl _ (Store.lt_of_binds hb)
  obtain ⟨u, adds, closed', made, bound⟩ :=
    Provision.foldl_provide_first (closed.newScope none).1 (by simp) free first
  rw [newGlobals_eq]
  exact ⟨u, (s.adds_newScope none).trans adds, closed', made, bound⟩

theorem provisions_find? (host : Host ω) (n : String) :
    (provisions host).find? (·.name == n) =
      ((Builtin.ofName? n).map fun b => .function (.builtin b)).or
        (((host.function? n).map fun f => .function (.host f.name f.signature)).or
          ((host.external? n).map .variable)) := by
  simp only [provisions, List.find?_append, List.find?_map, Option.or_assoc]
  rfl

/-- No function of the host has the name of one of its variables. -/
theorem function?_variable (distinct : host.names.Nodup) {v : HostVariable}
    (hv : v ∈ host.externals) : host.function? v.name = none := by
  refine List.find?_eq_none.2 fun f hf e => ?_
  exact (List.nodup_append.1 distinct).2.2 _ (List.mem_map_of_mem hv) _ (List.mem_map_of_mem hf)
    (eq_of_beq e).symm

/-- A variable of the host comes first under its name, unless a built-in function has it. -/
theorem provisions_variable (distinct : host.names.Nodup) {v : HostVariable}
    (hv : v ∈ host.externals) (apart : Builtin.ofName? v.name = none) :
    (provisions host).find? (·.name == v.name) = some (.variable v) := by
  rw [provisions_find?, apart, function?_variable distinct hv,
    Host.external?_of_mem distinct hv]
  rfl

/-- When a program starts, each variable of the host shows what its initial value shows. -/
theorem content_newGlobals (closed : s.Closed) (distinct : host.names.Nodup)
    (apart : ∀ n ∈ host.names, n ∉ Builtin.all.map Builtin.name)
    (initial : ∀ v ∈ host.externals, s.Has v.initial) :
    s.Adds (newGlobals host s).2 ∧
      ∀ v ∈ host.externals, ∃ w, (newGlobals host s).2.lookup s.scopes.size v.name = some w ∧
        (newGlobals host s).2.content w = s.content v.initial := by
  refine ⟨adds_newGlobals closed, fun v hv => ?_⟩
  have free : Builtin.ofName? v.name = none := List.find?_eq_none.2 fun b hb e =>
    apart v.name (List.mem_append_left _ (List.mem_map_of_mem hv))
      (List.mem_map.2 ⟨b, hb, eq_of_beq e⟩)
  obtain ⟨u, adds, closed', made, bound⟩ :=
    newGlobals_first closed (provisions_variable distinct hv free)
  refine ⟨_, bound, ?_⟩
  rw [← adds.content closed (initial v hv)]
  exact Store.content_copy closed' made

end Machine

end TickScript
