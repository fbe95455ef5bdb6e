import TickScript.Proofs.Typing.Operators

/-!
# Typed steps

A typed run keeps the store typed, and whatever it does to the store comes later in the order of
stores. `Runs` says so for a part of a program, together with what holds of its value; here are
its rules and its steps. A step never changes an array that a name can hold: either the value
has the right shape already, or the array is a literal that was made just before.
-/

namespace TickScript

open Walk

variable {ω α β : Type}

/-! ## Typed runs -/

/-- What holds of an event of a typed run. The store is typed; if types are exact then what is
evaluated gives a value of its type, unless it names a function; and what has been bound has the
type of its name. -/
def Types.Good (T : Types) (setting : Setting ω) : Event ω → Prop
  | .evaluates fuel scope e run =>
    run.store.Sound T setting.globals ∧
      (T.exact → (∀ name, e.name? = some name → ¬ T.functions name.lexeme) → ∀ v r,
        Eval.expr setting (Eval.call setting fuel) scope e run = .ok v r →
        r.store.HasShape v (e.type T.signatures))
  | .binds scope name type run =>
    run.store.Sound T setting.globals ∧ T.name name.lexeme = type ∧ setting.globals ≤ scope ∧
      run.store.Holds scope name.lexeme type

/-- The run of `act` is typed: if it comes to its end then `ok` holds there of its value. -/
def Types.Runs (T : Types) (setting : Setting ω) (act : Eval ω α) (walk : Walk ω) (run : Run ω)
    (ok : α → Store → Prop) : Prop :=
  Follows (Store.Later T.name setting.globals) (T.Good setting) act walk run
    (fun a r => r.store.Sound T setting.globals ∧ ok a r.store)
    (fun i r => r.store.Sound T setting.globals ∧ (T.exact → i.Ordinary))

/-- The store is typed, and `scope` is a scope of the program in it. -/
structure Types.At (T : Types) (setting : Setting ω) (scope : ScopeId) (s : Store) : Prop where
  sound : s.Sound T setting.globals
  inside : setting.globals ≤ scope
  there : scope < s.scopes.size

section Rules

variable {T : Types} {setting : Setting ω} {act : Eval ω α} {walk : Walk ω} {run : Run ω}
  {ok ok' : α → Store → Prop} {scope : ScopeId} {s t : Store}

theorem Types.At.later (h : T.At setting scope s) (hs : t.Sound T setting.globals)
    (hl : Store.Later T.name setting.globals s t) : T.At setting scope t :=
  ⟨hs, h.inside, Nat.lt_of_lt_of_le h.there hl.scopes⟩

theorem Types.Runs.mono (h : T.Runs setting act walk run ok)
    (hok : ∀ a s, ok a s → ok' a s) : T.Runs setting act walk run ok' :=
  Follows.mono h (fun a _ _ hr => ⟨hr.1, hok a _ hr.2⟩) (fun _ _ _ hr => hr)

theorem runs_bind {x : Eval ω β} {f : β → Eval ω α} {next : β → Walk ω}
    {middle : β → Store → Prop} (h : T.Runs setting x walk run middle)
    (hf : ∀ b r, Store.Later T.name setting.globals run.store r.store →
      r.store.Sound T setting.globals → middle b r.store → T.Runs setting (f b) (next b) r ok) :
    T.Runs setting (x >>= f) (thenAfter walk x next) run ok :=
  follows_bind (Follows.mono h (fun b r hl hr => hf b r hl hr.1 hr.2) (fun _ _ _ hr => hr))

theorem runs_after {x : Eval ω β} {f : β → Eval ω α} {next : β → Walk ω}
    {middle : β → Store → Prop} (h : T.Runs setting x quiet run middle)
    (hf : ∀ b r, Store.Later T.name setting.globals run.store r.store →
      r.store.Sound T setting.globals → middle b r.store → T.Runs setting (f b) (next b) r ok) :
    T.Runs setting (x >>= f) (after x next) run ok := by
  have hw : after x next = thenAfter quiet x next := by
    funext r
    simp [thenAfter, both, quiet]
  rw [hw]
  exact runs_bind h hf

theorem runs_last {x : Eval ω β} {f : β → Eval ω α} {middle : β → Store → Prop}
    (h : T.Runs setting x walk run middle)
    (hf : ∀ b r, Store.Later T.name setting.globals run.store r.store →
      r.store.Sound T setting.globals → middle b r.store → T.Runs setting (f b) quiet r ok) :
    T.Runs setting (x >>= f) walk run ok := by
  have hw : walk = thenAfter walk x fun _ => quiet := by
    funext r
    simp only [thenAfter, both, after]
    cases x r <;> simp [quiet]
  rw [hw]
  exact runs_bind h hf

/-- A step that makes new arrays only. -/
theorem runs_extends (hs : run.store.Sound T setting.globals)
    (h : act.Ends run (fun a r => run.store.Extends r.store ∧ ok a r.store)
      (fun i r => run.store.Extends r.store ∧ (T.exact → i.Ordinary))) :
    T.Runs setting act quiet run ok :=
  follows_quiet (h.mono (fun _ _ p => ⟨p.1.later, hs.extends p.1, p.2⟩)
    (fun _ _ p => ⟨p.1.later, hs.extends p.1, p.2⟩))

/-- A step that leaves the store as it is. -/
theorem runs_same (hs : run.store.Sound T setting.globals)
    (h : act.Ends run (fun a r => r.store = run.store ∧ ok a run.store)
      (fun i r => r.store = run.store ∧ (T.exact → i.Ordinary))) :
    T.Runs setting act quiet run ok := by
  refine runs_extends hs (h.mono ?_ ?_)
  · rintro a r ⟨hr, ha⟩
    rw [hr]
    exact ⟨.refl _, ha⟩
  · rintro i r ⟨hr, hi⟩
    rw [hr]
    exact ⟨.refl _, hi⟩

theorem runs_pure (hs : run.store.Sound T setting.globals) {a : α} (h : ok a run.store) :
    T.Runs setting (pure a) quiet run ok :=
  runs_same hs ((Eval.ends_pure a).2 ⟨rfl, h⟩)

theorem runs_throw (hs : run.store.Sound T setting.globals) {i : Interrupt}
    (h : T.exact → i.Ordinary) : T.Runs setting (throw i : Eval ω α) quiet run ok :=
  runs_same hs ((Eval.ends_throw i).2 ⟨rfl, h⟩)

/-! ## Events -/

/-- What is known of the value of an expression. -/
abbrev Types.Gives (T : Types) (e : Expr) (v : Value) (s : Store) : Prop :=
  s.Fits T.exact v (e.type T.signatures)

theorem good_evaluates {fuel : Nat} {e : Expr} (hs : run.store.Sound T setting.globals)
    (h : T.Runs setting (Eval.expr setting (Eval.call setting fuel) scope e) walk run (T.Gives e)) :
    T.Good setting (.evaluates fuel scope e run) :=
  ⟨hs, fun he _ _ _ hv => (h.result.of_ok hv).2.shape he⟩

theorem runs_here {fuel : Nat} {e : Expr} (hs : run.store.Sound T setting.globals)
    (h : T.Runs setting (Eval.expr setting (Eval.call setting fuel) scope e) walk run (T.Gives e)) :
    T.Runs setting (Eval.expr setting (Eval.call setting fuel) scope e)
      (both (here fuel scope e) walk) run (T.Gives e) :=
  follows_here (good_evaluates hs h) h

theorem runs_leaf {fuel : Nat} {e : Expr} (hs : run.store.Sound T setting.globals)
    (h : T.Runs setting (Eval.expr setting (Eval.call setting fuel) scope e) quiet run (T.Gives e)) :
    T.Runs setting (Eval.expr setting (Eval.call setting fuel) scope e) (here fuel scope e) run
      (T.Gives e) :=
  follows_leaf (good_evaluates hs h) h

end Rules

/-! ## Names -/

section Names

variable {T : Types} {setting : Setting ω} {scope : ScopeId} {run : Run ω} {id : ExprId}
  {name : Token} {v w index : Value} {type : Ty} {element : Scalar}

/-- A name is found in a scope of the program. -/
theorem Types.At.finds {s : Store} (h : T.At setting scope s) {n : String} {c : ScopeId}
    (hc : Eval.Finds setting scope s n c) : setting.globals ≤ c := by
  rcases hc.within with hw | hw
  · exact h.sound.within h.inside hw
  · exact h.sound.within (Nat.le_refl _) hw

/-- A variable that is read has a value of its type. -/
theorem runs_read (place : T.At setting scope run.store) (hn : T.Variable name) :
    T.Runs setting (Eval.read setting scope id name) quiet run
      (fun v s => s.Fits T.exact v name.type) := by
  refine runs_same place.sound (Eval.ends_read ⟨rfl, fun _ => trivial⟩ fun c v hc hv => ⟨rfl, ?_⟩)
  rcases place.sound.bindings c _ v (place.finds hc) hv with ⟨f, k, rfl, -, -, -, hf⟩ | ⟨hs, -⟩
  · exact .of_not_array (by simp) fun he => absurd (hf he) (hn.exact he)
  · rw [← hn.named] at hs
    exact hs.fits

/-- The value is a function of the signature. -/
def Types.Callee (T : Types) (signature : Signature) (s : Store) (v : Value) : Prop :=
  ∃ f k, v = .function f ∧ s.functions[f]? = some k ∧ T.Provided k ∧ k.signature = signature

/-- The name of a function stands for a function of its signature. If types are not exact then it
can stand for anything else, but not for another function. -/
theorem runs_callee {signature : Signature} (place : T.At setting scope run.store)
    (hn : T.signatures.find? name.lexeme = some signature)
    (hf : T.exact → T.functions name.lexeme) :
    T.Runs setting (Eval.read setting scope id name) quiet run
      (fun v s => T.Callee signature s v ∨ ¬ T.exact ∧ ∀ f, v ≠ .function f) := by
  refine runs_same place.sound (Eval.ends_read ⟨rfl, fun _ => trivial⟩ fun c v hc hv => ⟨rfl, ?_⟩)
  rcases place.sound.bindings c _ v (place.finds hc) hv with ⟨f, k, rfl, hk, hp, hσ, -⟩ | ⟨hs, he⟩
  · rw [hn] at hσ
    exact .inl ⟨f, k, rfl, hk, hp, (Option.some.inj hσ).symm⟩
  · refine .inr ⟨fun hexact => he hexact (hf hexact), ?_⟩
    rintro f rfl
    exact Store.not_shape_function f _ hs

/-- A name gets a value of its type. -/
theorem bound_of_shape {s : Store} (hn : T.Variable name) (hw : s.HasShape w name.type) :
    T.Bound s name.lexeme w :=
  .inr ⟨by rw [← hn.named]; exact hw, hn.exact⟩

theorem runs_assign (place : T.At setting scope run.store) (hn : T.Variable name)
    (hv : run.store.Fits T.exact v type) (ht : type.isWild = false)
    (hc : name.type.compatible type = true) :
    T.Runs setting (Eval.assign setting scope id name v) quiet run
      (fun w s => s.HasShape w name.type) := by
  refine follows_quiet (Eval.ends_assign ⟨StoreOrder.refl _, place.sound, fun _ => trivial⟩
    fun c _ => ?_)
  have fitted := hv.coerce hn.known ht hc
  cases hr : Store.coerce name.type v run.store with
  | ok w s =>
    rw [hr] at fitted
    obtain ⟨rfl, hw⟩ := fitted
    have hw' : run.store.HasShape w (T.name name.lexeme) := by
      rw [← hn.named]
      exact hw
    exact ⟨Store.later_bind (.inr hw'), place.sound.bind (bound_of_shape hn hw), hw⟩
  | error m s =>
    rw [hr] at fitted
    obtain ⟨rfl, he⟩ := fitted
    exact ⟨StoreOrder.refl _, place.sound, fun hexact => absurd hexact he⟩

/-- What elements of this kind are given as: if types are exact then each can be converted. -/
def Types.Elements (T : Types) (element : Scalar) (vs : List Value) : Prop :=
  T.exact → ∀ v ∈ vs, ∃ w, v.convert (.scalar element) = .ok w

/-- A name gets a new array. -/
theorem runs_assign_new (place : T.At setting scope run.store) (hn : T.Variable name)
    (ht : name.type = .array element) {vs : List Value} (hvs : T.Elements element vs) :
    T.Runs setting (Eval.newArray vs >>= fun v => Eval.assign setting scope id name v) quiet run
      (fun w s => s.HasShape w name.type) := by
  have made := Store.extends_newArray run.store vs.toArray
  refine follows_quiet (Eval.ends_bind.2 ((Eval.ends_newArray vs).2 (Eval.ends_assign
    ⟨made.later, place.sound.extends made, fun _ => trivial⟩ fun c _ => ?_)))
  have fitted := Store.coerce_newArray run.store element vs.toArray
  rw [ht]
  dsimp only
  cases hr : Store.coerce (.array element) (.array run.store.arrays.size)
      (run.store.newArray vs.toArray).2 with
  | ok w s =>
    rw [hr] at fitted
    obtain ⟨hext, hw⟩ := fitted
    have hw' : s.HasShape w (T.name name.lexeme) := by
      rw [← hn.named, ht]
      exact hw
    refine ⟨StoreOrder.trans hext.later (Store.later_bind (.inr hw')),
      (place.sound.extends hext).bind (bound_of_shape hn (by rw [ht]; exact hw)), hw⟩
  | error m s =>
    rw [hr] at fitted
    obtain ⟨hext, v, hv, hno⟩ := fitted
    refine ⟨hext.later, place.sound.extends hext, fun he => ?_⟩
    obtain ⟨w, hw⟩ := hvs he v (by simpa using hv)
    exact absurd hw (hno w)

/-- An index of type `int` is good or out of bounds. -/
theorem slot_cases {s : Store} (size : Nat) (hi : s.Fits T.exact index .int) :
    match Store.slot size index with
    | .ok i => i < size
    | .error fault => T.exact → fault.Ordinary := by
  unfold Store.slot
  cases hn : index.integral? with
  | none =>
    intro he
    have hs := hi.shape he
    cases index <;> first | cases hn; done | cases hs
  | some n =>
    by_cases h : 0 ≤ n.toInt ∧ n.toInt < size
    · simp only [if_pos h]
      exact (Int.toNat_lt h.1).2 h.2
    · simp only [if_neg h]
      exact fun _ => trivial

/-- An element is written into an array of its kind. -/
theorem runs_assignItem (place : T.At setting scope run.store) (hn : T.Variable name)
    (ht : name.type = .array element) (hi : run.store.Fits T.exact index .int)
    (hv : run.store.Fits T.exact v type) (hwild : type.isWild = false)
    (hc : (Ty.scalar element).compatible type = true) :
    T.Runs setting (Eval.assignItem setting scope id name index v) quiet run
      (fun w s => s.HasShape w (.scalar element)) := by
  refine follows_quiet (Eval.ends_assignItem ⟨StoreOrder.refl _, place.sound, fun _ => trivial⟩
    fun c hfind => ?_)
  obtain ⟨target, htarget⟩ := Store.binds_iff.1 hfind.binds
  have bound := place.sound.bindings c _ target (place.finds hfind) htarget
  rw [Types.Bound, ← hn.named, ht] at bound
  have shape : T.exact ∨ (∃ a, target = .array a) → run.store.HasShape target (.array element) := by
    rintro h
    rcases bound with ⟨f, k, rfl, -, -, -, hf⟩ | ⟨hs, -⟩
    · rcases h with he | ⟨a, ha⟩
      · exact absurd (hf he) (hn.exact he)
      · cases ha
    · exact hs
  rw [htarget]
  cases target with
  | array a =>
    obtain ⟨a', ha', hfill⟩ := shape (.inr ⟨a, rfl⟩)
    cases ha'
    have slots := slot_cases (run.store.items a).size hi
    have fitted := hv.coerce (show (Ty.scalar element).isWild = false from rfl) hwild hc
    dsimp only
    rw [ht, Ty.element?_array, Option.getD_some]
    cases hslot : Store.slot (run.store.items a).size index with
    | error fault =>
      rw [hslot] at slots
      exact ⟨StoreOrder.refl _, place.sound, slots⟩
    | ok i =>
      rw [hslot] at slots
      dsimp only
      cases hr : Store.coerce (.scalar element) v run.store with
      | ok w s =>
        rw [hr] at fitted
        obtain ⟨rfl, hw⟩ := fitted
        exact ⟨Store.later_setItem hfill slots hw, place.sound.setItem hfill slots hw, hw⟩
      | error m s =>
        rw [hr] at fitted
        obtain ⟨rfl, he⟩ := fitted
        exact ⟨StoreOrder.refl _, place.sound, fun hexact => absurd hexact he⟩
  | _ =>
    refine ⟨StoreOrder.refl _, place.sound, fun he => ?_⟩
    obtain ⟨a, ha, -⟩ := shape (.inl he)
    cases ha

/-- An element of an array is of the array's kind. -/
theorem runs_item (hs : run.store.Sound T setting.globals)
    (hv : run.store.Fits T.exact v (.array element)) (hi : run.store.Fits T.exact index .int) :
    T.Runs setting (Eval.item name v index) quiet run
      (fun w s => s.Fits T.exact w (.scalar element)) := by
  refine runs_same hs (Eval.ends_item (fun hna => ⟨rfl, fun he => ?_⟩) fun a ha => ?_)
  · obtain ⟨a, ha, -⟩ := hv.shape he
    exact absurd ha (hna a)
  · obtain ⟨a', ha', hfill⟩ := hv.array a ha
    obtain rfl : a = a' := Value.array.inj (ha.symm.trans ha')
    have slots := slot_cases (run.store.items a).size hi
    cases hslot : Store.slot (run.store.items a).size index with
    | error fault =>
      rw [hslot] at slots
      exact ⟨rfl, slots⟩
    | ok i =>
      rw [hslot] at slots
      have hget : (run.store.items a).getD i .nil ∈ run.store.items a := by
        rw [Array.getD_eq_getD_getElem?, Array.getElem?_eq_getElem slots]
        exact Array.getElem_mem slots
      have hshape : run.store.HasShape ((run.store.items a).getD i .nil) (.scalar element) :=
        hfill.2 _ hget
      exact ⟨rfl, hshape.fits⟩

end Names

/-! ## Declarations -/

section Declarations

variable {T : Types} {setting : Setting ω} {scope : ScopeId} {run : Run ω} {name : Token}
  {v w : Value} {type slot : Ty} {element : Scalar} {line : Nat} {fault : Mismatch → Fault}

theorem Ty.compatible_self {t : Ty} (h : t.isWild = false) : t.compatible t = true := by
  cases t with
  | scalar k => cases k <;> rfl
  | array k => cases k <;> rfl
  | void => rfl
  | any => cases h
  | unknown => cases h

theorem runs_fit (hs : run.store.Sound T setting.globals) (hv : run.store.Fits T.exact v type)
    (hslot : slot.isWild = false) (hwild : type.isWild = false)
    (hc : slot.compatible type = true) :
    T.Runs setting (Eval.fitTo slot v line fault) quiet run (fun w s => s.HasShape w slot) := by
  refine runs_same hs ((Eval.ends_fitTo slot v line fault).2 ?_)
  have fitted := hv.coerce hslot hwild hc
  cases hr : Store.coerce slot v run.store with
  | ok w s =>
    rw [hr] at fitted
    exact fitted
  | error m s =>
    rw [hr] at fitted
    exact ⟨fitted.1, fun he => absurd he fitted.2⟩

/-- A new array is made and fitted. -/
theorem runs_fit_new (hs : run.store.Sound T setting.globals) {vs : List Value}
    (hvs : T.Elements element vs) :
    T.Runs setting (Eval.newArray vs >>= fun v => Eval.fitTo (.array element) v line fault) quiet run
      (fun w s => s.HasShape w (.array element)) := by
  refine runs_extends hs (Eval.ends_bind.2 ((Eval.ends_newArray vs).2
    ((Eval.ends_fitTo _ _ _ _).2 ?_)))
  have fitted := Store.coerce_newArray run.store element vs.toArray
  dsimp only
  cases hr : Store.coerce (.array element) (.array run.store.arrays.size)
      (run.store.newArray vs.toArray).2 with
  | ok w s =>
    rw [hr] at fitted
    exact fitted
  | error m s =>
    rw [hr] at fitted
    obtain ⟨hext, v, hv, hno⟩ := fitted
    refine ⟨hext, fun he => ?_⟩
    obtain ⟨w, hw⟩ := hvs he v (by simpa using hv)
    exact absurd hw (hno w)

theorem runs_zero (hs : run.store.Sound T setting.globals) (ht : type.isData = true) :
    T.Runs setting (Eval.allocate (·.zero type)) quiet run (fun v s => s.HasShape v type) := by
  refine runs_extends hs ((Eval.ends_allocate _).2 ?_)
  cases type with
  | scalar k => cases k <;> exact ⟨.refl _, rfl⟩
  | array k =>
    have filled : (run.store.newArray #[]).2.Filled (run.store.newArray #[]).1 k :=
      ⟨by simp [Store.newArray], fun v hv => by simp at hv⟩
    exact ⟨Store.extends_newArray _ _, _, rfl, filled⟩
  | _ => cases ht

theorem runs_define (place : T.At setting scope run.store) (hd : T.Declares name type)
    (hw : run.store.HasShape w type) :
    T.Runs setting (Eval.define scope name w) quiet run (fun _ s => s.Holds scope name.lexeme type) := by
  refine follows_quiet ((Eval.ends_define scope name w).2 ?_)
  split
  · exact ⟨StoreOrder.refl _, place.sound, fun _ => trivial⟩
  · next h =>
    have hb : T.Bound run.store name.lexeme w := .inr ⟨by rw [hd.named]; exact hw, hd.exact⟩
    refine ⟨Store.later_bind (.inl (Bool.eq_false_iff.2 h)), place.sound.bind hb, w, ?_, hw⟩
    rw [Store.lookup_bind _ _ _ _ _ _ place.there, if_pos ⟨rfl, rfl⟩]

theorem good_binds (place : T.At setting scope run.store) (hd : T.Declares name type)
    (h : run.store.Holds scope name.lexeme type) : T.Good setting (.binds scope name type run) :=
  ⟨place.sound, hd.named, place.inside, h⟩

/-- A function is made and bound to its name. -/
theorem runs_function (place : T.At setting scope run.store) {header : Header} {body : List Stmt}
    (hf : (Stmt.function header body).Typed T none false) :
    T.Runs setting
      (Eval.allocate (·.newFunction (.script header body scope)) >>= fun f =>
        Eval.define scope header.name (.function f)) quiet run (fun _ _ => True) := by
  have hf' := hf
  rw [Stmt.Typed] at hf'
  refine follows_quiet (Eval.ends_bind.2 ((Eval.ends_allocate _).2 ((Eval.ends_define _ _ _).2 ?_)))
  have later : Store.Later T.name setting.globals run.store
      (run.store.newFunction (.script header body scope)).2 := Store.later_newFunction _
  have sound : (run.store.newFunction (.script header body scope)).2.Sound T setting.globals :=
    place.sound.newFunction fun header' body' closure' e => by
      cases e
      exact ⟨place.inside, hf⟩
  split
  · exact ⟨later, sound, fun _ => trivial⟩
  · next h =>
    have hb : T.Bound (run.store.newFunction (.script header body scope)).2 header.name.lexeme
        (.function run.store.functions.size) :=
      .inl ⟨_, .script header body scope, rfl, by simp [Store.newFunction], by simp [Types.Provided],
        hf'.1.signature, hf'.1.exact⟩
    exact ⟨StoreOrder.trans later (Store.later_bind (.inl (Bool.eq_false_iff.2 h))),
      sound.bind hb, trivial⟩

/-- A scope is made inside a scope of the program. -/
theorem runs_newScope (place : T.At setting setting.globals run.store) {p : ScopeId}
    (hp : setting.globals ≤ p) :
    T.Runs setting (Eval.allocate (·.newScope (some p))) quiet run (fun c s => T.At setting c s) := by
  have sound := place.sound.newScope hp
  exact follows_quiet ((Eval.ends_allocate _).2 ⟨Store.later_newScope _, sound, sound,
    Nat.le_of_lt place.there, by simp [Store.newScope]⟩)

end Declarations

end TickScript
