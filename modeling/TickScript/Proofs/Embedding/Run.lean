import TickScript.Proofs.Embedding

/-!
# Runs inside of stores

A program that runs in a store inside of another one does what it does without it: it ends in
the same way, with handles embedded, and never touches what is not of its store. This holds if
the functions of the host depend on their arguments only.
-/

namespace TickScript

variable {ω : Type}

/-- The host function depends only on its arguments: whatever else there is, under whichever
handles its arguments are there, and whatever the state of the host is, it replies the same, with
handles embedded. -/
def HostFunction.Pure (f : HostFunction ω) : Prop :=
  ∀ (ρ : Embedding) (base s t : Store) (values : List Value) (w w' : ω), Store.Embeds ρ base s t →
    (f.respond (values.map (Value.embed ρ)) t w').value =
        (f.respond values s w).value.map (Value.embed ρ) ∧
      Store.Embeds ρ base (f.respond values s w).store
        (f.respond (values.map (Value.embed ρ)) t w').store ∧
      (f.respond (values.map (Value.embed ρ)) t w').lines = (f.respond values s w).lines

def Signal.embed (ρ : Embedding) : Signal → Signal
  | .return v => .return (v.embed ρ)
  | signal => signal

def Setting.embed (ρ : Embedding) (setting : Setting ω) : Setting ω :=
  { setting with globals := ρ.scope setting.globals }

/-- The scope is there, and there is no other around it. -/
structure Store.Roots (s : Store) (g : ScopeId) : Prop where
  there : g < s.scopes.size
  alone : s.parent? g = none

/-- What is around a run: the handles under which its store lies inside of another one, what else
there is in that one, and the lines that were printed before. Its outermost scope is `globals`,
by its own handle. -/
structure Ground where
  ρ : Embedding
  base : Store
  printed : Array String
  globals : ScopeId

variable {G : Ground} {α β : Type}

/-- The run `x` lies inside of `r`. -/
structure Ground.Over (G : Ground) (x r : Run ω) : Prop where
  store : Store.Embeds G.ρ G.base x.store r.store
  console : r.console = G.printed ++ x.console
  root : x.store.Roots G.globals

/-- Two runs end in the same way, with handles embedded by `f`, and one still lies inside of the
other. -/
def Ground.Agree (G : Ground) (f : α → β) :
    EStateM.Result Interrupt (Run ω) α → EStateM.Result Interrupt (Run ω) β → Prop
  | .ok a x, .ok b r => b = f a ∧ G.Over x r
  | .error i x, .error j r => j = i ∧ G.Over x r
  | _, _ => False

/-- On the ground, `act'` does what `act` does without it. -/
def Ground.Lifts (G : Ground) (f : α → β) (act : Eval ω α) (act' : Eval ω β) : Prop :=
  ∀ x r, G.Over x r → G.Agree f (act x) (act' r)

section Rules

theorem lifts_pure {f : α → β} {a : α} {b : β} (h : b = f a) :
    G.Lifts f (pure a : Eval ω α) (pure b) :=
  fun _ _ above => ⟨h, above⟩

theorem lifts_throw {f : α → β} (i : Interrupt) : G.Lifts f (throw i : Eval ω α) (throw i) :=
  fun _ _ above => ⟨rfl, above⟩

theorem lifts_bind {γ δ : Type} {f : γ → δ} {g : α → β} {x : Eval ω γ} {x' : Eval ω δ}
    {k : γ → Eval ω α} {k' : δ → Eval ω β} (hx : G.Lifts f x x')
    (hk : ∀ c, G.Lifts g (k c) (k' (f c))) : G.Lifts g (x >>= k) (x' >>= k') := by
  intro run r above
  have first := hx run r above
  show G.Agree g (EStateM.bind x k run) (EStateM.bind x' k' r)
  unfold EStateM.bind
  cases hr : x run with
  | ok c y =>
    cases hr' : x' r with
    | ok d r' =>
      rw [hr, hr'] at first
      obtain ⟨rfl, above'⟩ := first
      exact hk c y r' above'
    | error j r' =>
      rw [hr, hr'] at first
      exact first.elim
  | error i y =>
    cases hr' : x' r with
    | ok d r' =>
      rw [hr, hr'] at first
      exact first.elim
    | error j r' =>
      rw [hr, hr'] at first
      exact first

theorem lifts_ask {f : α → β} {question : Store → α} {question' : Store → β}
    (h : ∀ s t, Store.Embeds G.ρ G.base s t → s.Roots G.globals → question' t = f (question s)) :
    G.Lifts f (Eval.ask question : Eval ω α) (Eval.ask question') :=
  fun _ _ above => ⟨h _ _ above.store above.root, above⟩

theorem lifts_demand {f : α → β} {question : Store → Except RuntimeError α}
    {question' : Store → Except RuntimeError β}
    (h : ∀ s t, Store.Embeds G.ρ G.base s t → s.Roots G.globals →
      question' t = (question s).map f) :
    G.Lifts f (Eval.demand question : Eval ω α) (Eval.demand question') := by
  refine lifts_bind (lifts_ask (f := Except.map f) h) fun result => ?_
  cases result with
  | ok a => exact lifts_pure rfl
  | error e => exact lifts_throw _

/-- A step on the store keeps the outermost scope outermost. -/
def Rooted {ε : Type} (g : ScopeId) (s : Store) : EStateM.Result ε Store α → Prop
  | .ok _ t => s.Roots g → t.Roots g
  | .error _ t => s.Roots g → t.Roots g

theorem lifts_onStore {f : α → β} {act : EStateM RuntimeError Store α}
    {act' : EStateM RuntimeError Store β}
    (h : ∀ s t, Store.Embeds G.ρ G.base s t → s.Roots G.globals →
      Store.Agrees G.ρ G.base f (act s) (act' t) ∧ Rooted G.globals s (act s)) :
    G.Lifts f (Eval.onStore act : Eval ω α) (Eval.onStore act') := by
  rintro ⟨s, w, console⟩ ⟨t, w', console'⟩ ⟨hs, hc, hroot⟩
  obtain ⟨agrees, rooted⟩ := h s t hs hroot
  unfold Eval.onStore
  dsimp only
  cases hr : act s with
  | ok a s' =>
    cases hr' : act' t with
    | ok b t' =>
      rw [hr] at rooted
      rw [hr, hr'] at agrees
      exact ⟨agrees.1, agrees.2, hc, rooted hroot⟩
    | error e t' =>
      rw [hr, hr'] at agrees
      exact agrees.elim
  | error e s' =>
    cases hr' : act' t with
    | ok b t' =>
      rw [hr, hr'] at agrees
      exact agrees.elim
    | error e' t' =>
      rw [hr] at rooted
      rw [hr, hr'] at agrees
      exact ⟨congrArg Interrupt.error agrees.1, agrees.2, hc, rooted hroot⟩

theorem lifts_allocate {f : α → β} {make : Store → α × Store} {make' : Store → β × Store}
    (h : ∀ s t, Store.Embeds G.ρ G.base s t →
      (make' t).1 = f (make s).1 ∧ Store.Embeds G.ρ G.base (make s).2 (make' t).2)
    (root : ∀ s, s.Roots G.globals → (make s).2.Roots G.globals) :
    G.Lifts f (Eval.allocate make : Eval ω α) (Eval.allocate make') :=
  lifts_onStore fun s t inside _ => ⟨h s t inside, root s⟩

end Rules

/-! ## Steps -/

namespace Store

variable {ρ : Embedding} {base s t : Store}

theorem Embeds.readIn (h : Embeds ρ base s t) (found : Option ScopeId) (name : Token) :
    Store.readIn (found.map ρ.scope) name t =
      (Store.readIn found name s).map (Value.embed ρ) := by
  cases found with
  | none => rfl
  | some c =>
    simp only [Store.readIn, Option.map_some, Option.bind_some, h.lookup]
    cases s.lookup c name.lexeme <;> rfl

theorem Embeds.assignIn (h : Embeds ρ base s t) (found : Option ScopeId) (name : Token)
    (v : Value) :
    Agrees ρ base (Value.embed ρ) (Store.assignIn found name v s)
      (Store.assignIn (found.map ρ.scope) name (v.embed ρ) t) := by
  cases found with
  | none => exact ⟨rfl, h⟩
  | some c =>
    have fitted := h.coerce name.type v
    unfold Store.assignIn
    dsimp only [Option.map_some]
    cases hs : Store.coerce name.type v s <;> cases ht : Store.coerce name.type (v.embed ρ) t <;>
      rw [hs, ht] at fitted <;> first | exact fitted.elim | skip
    · obtain ⟨rfl, inside⟩ := fitted
      exact ⟨rfl, inside.bind c name.lexeme _⟩
    · obtain ⟨rfl, inside⟩ := fitted
      exact ⟨rfl, inside⟩

@[simp]
theorem slot_embed (size : Nat) (index : Value) : slot size (index.embed ρ) = slot size index := by
  rw [slot, slot, integral?_embed]

theorem Embeds.assignItemIn (h : Embeds ρ base s t) (found : Option ScopeId) (name : Token)
    (index v : Value) :
    Agrees ρ base (Value.embed ρ) (Store.assignItemIn found name index v s)
      (Store.assignItemIn (found.map ρ.scope) name (index.embed ρ) (v.embed ρ) t) := by
  cases found with
  | none => exact ⟨rfl, h⟩
  | some c =>
    simp only [Store.assignItemIn, Option.map_some, h.lookup]
    cases s.lookup c name.lexeme with
    | none => exact ⟨rfl, h⟩
    | some target =>
      cases target with
      | array a =>
        simp only [Option.map_some, embed_array, h.items, Array.size_map, slot_embed]
        cases slot (s.items a).size index with
        | error fault => exact ⟨rfl, h⟩
        | ok i =>
          have fitted := h.coerce (name.type.element?.getD .any) v
          dsimp only
          cases hs : Store.coerce (name.type.element?.getD .any) v s <;>
            cases ht : Store.coerce (name.type.element?.getD .any) (v.embed ρ) t <;>
            rw [hs, ht] at fitted <;> first | exact fitted.elim | skip
          · obtain ⟨rfl, inside⟩ := fitted
            exact ⟨rfl, inside.setItem a i _⟩
          · obtain ⟨rfl, inside⟩ := fitted
            exact ⟨rfl, inside⟩
      | _ => exact ⟨rfl, h⟩

theorem Roots.of_scopes {g : ScopeId} (h : s.Roots g) (hs : t.scopes = s.scopes) :
    t.Roots g :=
  ⟨by rw [hs]; exact h.there, by rw [parent?, hs]; exact h.alone⟩

theorem Roots.bind {g : ScopeId} (h : s.Roots g) (c : ScopeId) (n : String) (v : Value) :
    (s.bind c n v).Roots g :=
  ⟨by rw [size_bind]; exact h.there, by rw [parent?_bind]; exact h.alone⟩

theorem Roots.newScope {g : ScopeId} (h : s.Roots g) (p : Option ScopeId) :
    (s.newScope p).2.Roots g :=
  ⟨by rw [size_newScope]; exact Nat.lt_succ_of_lt h.there,
    by rw [parent?_newScope (Nat.ne_of_lt h.there)]; exact h.alone⟩

theorem rooted_coerce (s : Store) (g : ScopeId) (type : Ty) (v : Value) :
    Rooted g s (coerce type v s) := by
  have frame := coerce_frame type v s
  cases hc : coerce type v s with
  | ok w t => exact fun h => h.of_scopes (frame.1 w t hc).1
  | error m t => exact fun h => h.of_scopes (frame.2 m t hc).1

theorem rooted_assignIn (s : Store) (g : ScopeId) (found : Option ScopeId) (name : Token)
    (v : Value) : Rooted g s (assignIn found name v s) := by
  cases found with
  | none => exact fun h => h
  | some c =>
    have fitted := s.rooted_coerce g name.type v
    unfold assignIn
    dsimp only
    cases hc : coerce name.type v s with
    | ok w t =>
      rw [hc] at fitted
      exact fun h => (fitted h).bind c name.lexeme w
    | error m t =>
      rw [hc] at fitted
      exact fitted

theorem rooted_assignItemIn (s : Store) (g : ScopeId) (found : Option ScopeId) (name : Token)
    (index v : Value) : Rooted g s (assignItemIn found name index v s) := by
  cases found with
  | none => exact fun h => h
  | some c =>
    unfold assignItemIn
    dsimp only
    split
    · next a _ =>
      cases slot (s.items a).size index with
      | error fault => exact fun h => h
      | ok i =>
        have fitted := s.rooted_coerce g (name.type.element?.getD .any) v
        dsimp only
        cases hc : coerce (name.type.element?.getD .any) v s with
        | ok w t =>
          rw [hc] at fitted
          exact fun h => (fitted h).of_scopes rfl
        | error m t =>
          rw [hc] at fitted
          exact fitted
    · exact fun h => h

end Store

section Steps

variable {setting : Setting ω}

theorem lifts_fitTo (type : Ty) (v : Value) (line : Nat) (fault : Mismatch → Fault) :
    G.Lifts (Value.embed G.ρ) (Eval.fitTo type v line fault : Eval ω Value)
      (Eval.fitTo type (v.embed G.ρ) line fault) := by
  refine lifts_onStore fun s t inside _ => ?_
  have fitted := inside.coerce type v
  have rooted := s.rooted_coerce G.globals type v
  cases hs : Store.coerce type v s <;> cases ht : Store.coerce type (v.embed G.ρ) t <;>
    rw [hs, ht] at fitted <;> rw [hs] at rooted <;> first | exact fitted.elim | skip
  · exact ⟨fitted, rooted⟩
  · obtain ⟨rfl, inside⟩ := fitted
    exact ⟨⟨rfl, inside⟩, rooted⟩

theorem lifts_define (scope : ScopeId) (name : Token) (v : Value) :
    G.Lifts id (Eval.define scope name v : Eval ω Unit)
      (Eval.define (G.ρ.scope scope) name (v.embed G.ρ)) := by
  refine lifts_onStore fun s t inside _ => ?_
  simp only [Store.define, inside.binds]
  by_cases hb : s.binds scope name.lexeme = true
  · rw [if_pos hb, if_pos hb]
    exact ⟨⟨rfl, inside⟩, fun h => h⟩
  · rw [if_neg hb, if_neg hb]
    exact ⟨⟨rfl, inside.bind scope name.lexeme v⟩, fun h => h.bind scope name.lexeme v⟩

theorem lifts_newArray (items : List Value) :
    G.Lifts (Value.embed G.ρ) (Eval.newArray items : Eval ω Value)
      (Eval.newArray (items.map (Value.embed G.ρ))) := by
  refine lifts_allocate (fun s t inside => ?_) fun _ h => h.of_scopes rfl
  obtain ⟨made, inside⟩ := inside.newArray items.toArray
  rw [List.map_toArray] at made inside
  exact ⟨congrArg Value.array made, inside⟩

theorem lifts_newScope (p : ScopeId) :
    G.Lifts G.ρ.scope (Eval.allocate (·.newScope (some p)) : Eval ω ScopeId)
      (Eval.allocate (·.newScope (some (G.ρ.scope p)))) :=
  lifts_allocate (fun _ _ inside => inside.newScope (some p)) fun _ h => h.newScope _

theorem lifts_read (hg : setting.globals = G.globals) (scope : ScopeId) (id : ExprId)
    (name : Token) :
    G.Lifts (Value.embed G.ρ) (Eval.read setting scope id name)
      (Eval.read (setting.embed G.ρ) (G.ρ.scope scope) id name) := by
  refine lifts_demand fun s t inside hroot => ?_
  dsimp only [Setting.embed]
  cases setting.distances.find? id with
  | some distance =>
    simp only [Store.getAt]
    rw [inside.bindingAt?, inside.readIn]
  | none =>
    simp only [Store.get]
    rw [hg, inside.nearest? hroot.alone, inside.readIn]

theorem lifts_assign (hg : setting.globals = G.globals) (scope : ScopeId) (id : ExprId)
    (name : Token) (v : Value) :
    G.Lifts (Value.embed G.ρ) (Eval.assign setting scope id name v)
      (Eval.assign (setting.embed G.ρ) (G.ρ.scope scope) id name (v.embed G.ρ)) := by
  refine lifts_onStore fun s t inside hroot => ?_
  dsimp only [Setting.embed]
  cases setting.distances.find? id with
  | some distance =>
    simp only [Store.assignAt]
    rw [inside.bindingAt?]
    exact ⟨inside.assignIn _ name v, s.rooted_assignIn _ _ _ _⟩
  | none =>
    simp only [Store.assign]
    rw [hg, inside.nearest? hroot.alone]
    exact ⟨inside.assignIn _ name v, s.rooted_assignIn _ _ _ _⟩

theorem lifts_assignItem (hg : setting.globals = G.globals) (scope : ScopeId) (id : ExprId)
    (name : Token) (index v : Value) :
    G.Lifts (Value.embed G.ρ) (Eval.assignItem setting scope id name index v)
      (Eval.assignItem (setting.embed G.ρ) (G.ρ.scope scope) id name (index.embed G.ρ)
        (v.embed G.ρ)) := by
  refine lifts_onStore fun s t inside hroot => ?_
  dsimp only [Setting.embed]
  cases setting.distances.find? id with
  | some distance =>
    simp only [Store.assignItemAt]
    rw [inside.bindingAt?]
    exact ⟨inside.assignItemIn _ name index v, s.rooted_assignItemIn _ _ _ _ _⟩
  | none =>
    simp only [Store.assignItem]
    rw [hg, inside.nearest? hroot.alone]
    exact ⟨inside.assignItemIn _ name index v, s.rooted_assignItemIn _ _ _ _ _⟩

theorem lifts_item (name : Token) (target index : Value) :
    G.Lifts (Value.embed G.ρ) (Eval.item name target index : Eval ω Value)
      (Eval.item name (target.embed G.ρ) (index.embed G.ρ)) := by
  refine lifts_demand fun s t inside _ => ?_
  cases target with
  | array a =>
    simp only [embed_array, inside.items, Array.size_map, Store.slot_embed]
    cases Store.slot (s.items a).size index with
    | error fault => rfl
    | ok i =>
      simp only [Except.map, Array.getD_eq_getD_getElem?, Array.getElem?_map]
      cases (s.items a)[i]? <;> rfl
  | _ => rfl

section Operators

variable (ρ : Embedding)

/-- Operators do not see handles. -/
theorem unary_embed (operator : Token) (v : Value) :
    Operator.unary operator (v.embed ρ) = (Operator.unary operator v).map (Value.embed ρ) := by
  have same : Operator.unary operator (v.embed ρ) = Operator.unary operator v := by
    unfold Operator.unary
    rw [isTruthy_embed]
    cases v <;> rfl
  rw [same]
  cases hu : Operator.unary operator v with
  | ok w => exact congrArg Except.ok ((Operator.plain_unary hu).embed ρ).symm
  | error fault => rfl

theorem numbers_embed (operator : Token) (l r : Value) :
    Operator.numbers operator (l.embed ρ) (r.embed ρ) = Operator.numbers operator l r := by
  cases l <;> cases r <;> rfl

variable {ρ} {base s t : Store}

theorem Store.Embeds.areEqual (h : Store.Embeds ρ base s t) (l r : Value) :
    Operator.areEqual t (l.embed ρ) (r.embed ρ) = Operator.areEqual s l r := by
  have equal := h.equal l r
  cases l <;> cases r <;> first | rfl | exact equal

theorem Store.Embeds.binary (h : Store.Embeds ρ base s t) (operator : Token) (l r : Value) :
    Operator.binary t operator (l.embed ρ) (r.embed ρ) =
      (Operator.binary s operator l r).map (Value.embed ρ) := by
  have same : Operator.binary t operator (l.embed ρ) (r.embed ρ) =
      Operator.binary s operator l r := by
    unfold Operator.binary
    rw [h.areEqual, numbers_embed]
  rw [same]
  cases hb : Operator.binary s operator l r with
  | ok w => exact congrArg Except.ok ((Operator.plain_binary hb).embed ρ).symm
  | error fault => rfl

end Operators

/-- A question whose faults are told with a line. -/
theorem lifts_operator {question question' : Store → Except Fault Value} (line : Nat)
    (h : ∀ s t, Store.Embeds G.ρ G.base s t → question' t = (question s).map (Value.embed G.ρ)) :
    G.Lifts (Value.embed G.ρ)
      (Eval.demand fun s => (question s).mapError (RuntimeError.mk line ·) : Eval ω Value)
      (Eval.demand fun s => (question' s).mapError (RuntimeError.mk line ·)) := by
  refine lifts_demand fun s t inside _ => ?_
  rw [h s t inside]
  cases question s <;> rfl

theorem lifts_arguments (function : String) (line : Nat) :
    ∀ (position : Nat) (types : List Ty) (values : List Value),
      G.Lifts (List.map (Value.embed G.ρ))
        (Eval.arguments function line position types values : Eval ω _)
        (Eval.arguments function line position types (values.map (Value.embed G.ρ)))
  | position, type :: types, v :: vs => by
    rw [List.map_cons, Eval.arguments, Eval.arguments]
    refine lifts_bind (lifts_fitTo type v line _) fun w => ?_
    exact lifts_bind (lifts_arguments function line (position + 1) types vs) fun ws =>
      lifts_pure rfl
  | _, [], _ => lifts_pure rfl
  | _, _ :: _, [] => lifts_pure rfl

theorem lifts_parameters (scope : ScopeId) : ∀ (ps : List Parameter) (values : List Value),
    G.Lifts id (Eval.parameters scope ps values : Eval ω Unit)
      (Eval.parameters (G.ρ.scope scope) ps (values.map (Value.embed G.ρ)))
  | p :: ps, v :: vs => by
    rw [List.map_cons, Eval.parameters, Eval.parameters]
    exact lifts_bind (lifts_define scope p.name v) fun _ => lifts_parameters scope ps vs
  | [], _ => lifts_pure rfl
  | _ :: _, [] => lifts_pure rfl

theorem lifts_printLine (text : String) :
    G.Lifts id (Eval.printLine text : Eval ω Unit) (Eval.printLine text) := by
  rintro ⟨s, w, console⟩ ⟨t, w', console'⟩ ⟨hs, hc, hroot⟩
  refine ⟨rfl, hs, ?_, hroot⟩
  show console'.push text = G.printed ++ console.push text
  rw [show console' = G.printed ++ console from hc, Array.append_push]

theorem lifts_builtin (values : List Value) (b : Builtin) :
    G.Lifts (Value.embed G.ρ) (Eval.builtin setting values b)
      (Eval.builtin (setting.embed G.ρ) (values.map (Value.embed G.ρ)) b) := by
  cases b with
  | deltatime => exact lifts_pure rfl
  | print =>
    refine lifts_bind (f := id) (lifts_ask fun s t inside _ => ?_) fun texts =>
      lifts_bind (lifts_printLine _) fun _ => lifts_pure rfl
    rw [List.map_map]
    exact List.map_congr_left fun v _ => inside.display v
  | sizeOf =>
    cases values with
    | nil => exact lifts_pure rfl
    | cons v vs =>
      cases v with
      | array a =>
        show G.Lifts _ (Eval.ask fun s => Value.int (Int64.ofNat (s.items a).size))
          (Eval.ask fun s => Value.int (Int64.ofNat (s.items (G.ρ.array a)).size))
        refine lifts_ask fun s t inside _ => ?_
        rw [inside.items, Array.size_map]
        rfl
      | _ => exact lifts_pure rfl

theorem lifts_hostFunction (outside : ∀ f ∈ setting.host.functions, f.Outside)
    (pure : ∀ f ∈ setting.host.functions, f.Pure) (name : String) (values : List Value) :
    G.Lifts (Value.embed G.ρ) (Eval.hostFunction setting name values)
      (Eval.hostFunction (setting.embed G.ρ) name (values.map (Value.embed G.ρ))) := by
  unfold Eval.hostFunction
  rw [show (setting.embed G.ρ).host = setting.host from rfl]
  cases hf : setting.host.function? name with
  | none => exact lifts_pure rfl
  | some f =>
    have hmem : f ∈ setting.host.functions := List.mem_of_find?_eq_some hf
    rintro ⟨s, w, console⟩ ⟨t, w', console'⟩ ⟨hs, hc, hroot⟩
    obtain ⟨value, store, lines⟩ := pure f hmem G.ρ G.base s t values w w' hs
    refine ⟨?_, store, ?_, ?_⟩
    · show (f.respond _ _ w').value.getD .nil = ((f.respond values s w).value.getD .nil).embed _
      rw [value]
      cases (f.respond values s w).value <;> rfl
    · show console' ++ (f.respond _ _ w').lines = G.printed ++ (console ++ (f.respond values s w).lines)
      rw [lines, show console' = G.printed ++ console from hc]
      apply Array.toList_inj.1
      simp only [Array.toList_append, Array.toList_appendList, List.append_assoc]
    · exact hroot.of_scopes ((outside f hmem).scopes values s w)

theorem lifts_result (c : Callable) (line : Nat) (v : Value) :
    G.Lifts (Value.embed G.ρ) (Eval.result c line v : Eval ω Value)
      (Eval.result (c.embed G.ρ) line (v.embed G.ρ)) := by
  unfold Eval.result
  rw [signature_embed, name_embed]
  cases v with
  | nil =>
    cases c.signature.returnType <;> exact lifts_pure rfl
  | _ =>
    cases c.signature.returnType
    all_goals first | exact lifts_pure rfl | exact lifts_fitTo _ _ line _

end Steps

/-! ## Programs -/

section Programs

variable {setting : Setting ω} {apply apply' : Apply ω}

/-- Calls do on top of the ground what they do without it. -/
def Ground.Calls (G : Ground) (apply apply' : Apply ω) : Prop :=
  ∀ f values line, G.Lifts (Value.embed G.ρ) (apply f values line)
    (apply' (G.ρ.function f) (values.map (Value.embed G.ρ)) line)

mutual

theorem lifts_expr (hg : setting.globals = G.globals) (calls : G.Calls apply apply')
    (scope : ScopeId) : (e : Expr) →
    G.Lifts (Value.embed G.ρ) (Eval.expr setting apply scope e)
      (Eval.expr (setting.embed G.ρ) apply' (G.ρ.scope scope) e)
  | .literal _ value _ => by
    rw [Eval.expr, Eval.expr]
    cases value <;> exact lifts_pure rfl
  | .grouping _ inner => by
    rw [Eval.expr, Eval.expr]
    exact lifts_expr hg calls scope inner
  | .unary _ operator right => by
    rw [Eval.expr, Eval.expr]
    exact lifts_bind (lifts_expr hg calls scope right) fun v =>
      lifts_operator operator.line fun _ _ _ => unary_embed G.ρ operator v
  | .binary _ left operator right => by
    rw [Eval.expr, Eval.expr]
    refine lifts_bind (lifts_expr hg calls scope left) fun l => ?_
    exact lifts_bind (lifts_expr hg calls scope right) fun r =>
      lifts_operator operator.line fun _ _ inside => inside.binary operator l r
  | .logical _ left operator right => by
    rw [Eval.expr, Eval.expr]
    refine lifts_bind (lifts_expr hg calls scope left) fun l => ?_
    have decides : Operator.decides operator (l.embed G.ρ) = Operator.decides operator l := by
      rw [Operator.decides, Operator.decides, isTruthy_embed]
    rw [decides]
    split
    · exact lifts_pure rfl
    · exact lifts_expr hg calls scope right
  | .var id name => by
    rw [Eval.expr, Eval.expr]
    exact lifts_read hg scope id name
  | .index id name position => by
    rw [Eval.expr, Eval.expr]
    refine lifts_bind (lifts_read hg scope id name) fun target => ?_
    exact lifts_bind (lifts_expr hg calls scope position) fun index => lifts_item name target index
  | .assign id name value => by
    rw [Eval.expr, Eval.expr]
    exact lifts_bind (lifts_expr hg calls scope value) fun v => lifts_assign hg scope id name v
  | .assignIndex id name position value => by
    rw [Eval.expr, Eval.expr]
    refine lifts_bind (lifts_expr hg calls scope position) fun index => ?_
    exact lifts_bind (lifts_expr hg calls scope value) fun v =>
      lifts_assignItem hg scope id name index v
  | .assignElements id name elements => by
    rw [Eval.expr, Eval.expr]
    refine lifts_bind (lifts_exprs hg calls scope elements) fun vs => ?_
    exact lifts_bind (lifts_newArray vs) fun v => lifts_assign hg scope id name v
  | .call _ callee paren arguments => by
    rw [Eval.expr, Eval.expr]
    refine lifts_bind (lifts_expr hg calls scope callee) fun function => ?_
    refine lifts_bind (lifts_exprs hg calls scope arguments) fun values => ?_
    cases function with
    | function f => exact calls f values paren.line
    | _ => exact lifts_throw _

theorem lifts_exprs (hg : setting.globals = G.globals) (calls : G.Calls apply apply')
    (scope : ScopeId) : (es : List Expr) →
    G.Lifts (List.map (Value.embed G.ρ)) (Eval.exprs setting apply scope es)
      (Eval.exprs (setting.embed G.ρ) apply' (G.ρ.scope scope) es)
  | [] => by
    rw [Eval.exprs, Eval.exprs]
    exact lifts_pure rfl
  | e :: es => by
    rw [Eval.exprs, Eval.exprs]
    refine lifts_bind (lifts_expr hg calls scope e) fun v => ?_
    exact lifts_bind (lifts_exprs hg calls scope es) fun vs => lifts_pure rfl

end

theorem lifts_holds (hg : setting.globals = G.globals) (calls : G.Calls apply apply')
    (scope : ScopeId) (e : Expr) :
    G.Lifts id (Eval.holds setting apply scope e)
      (Eval.holds (setting.embed G.ρ) apply' (G.ρ.scope scope) e) :=
  lifts_bind (lifts_expr hg calls scope e) fun v => lifts_pure (isTruthy_embed G.ρ v)

theorem lifts_initial (hg : setting.globals = G.globals) (calls : G.Calls apply apply')
    (scope : ScopeId) (type : Ty) : (start : Initializer) →
    G.Lifts (Value.embed G.ρ) (Eval.initial setting apply scope type start)
      (Eval.initial (setting.embed G.ρ) apply' (G.ρ.scope scope) type start)
  | .zero => by
    refine lifts_allocate (fun _ _ inside => inside.zero type) fun s h => ?_
    cases type with
    | array element => exact h.of_scopes rfl
    | scalar k => cases k <;> exact h
    | _ => exact h
  | .value e => lifts_expr hg calls scope e
  | .elements es => lifts_bind (lifts_exprs hg calls scope es) fun vs => lifts_newArray vs

theorem lifts_rounds {test test' : Eval ω Bool} {body body' : Eval ω Signal}
    (ht : G.Lifts id test test') (hb : G.Lifts (Signal.embed G.ρ) body body') (limit : Nat) :
    G.Lifts (Signal.embed G.ρ) (Eval.rounds test body limit)
      (Eval.rounds test' body' limit) := by
  induction limit with
  | zero => exact lifts_throw _
  | succ limit ih =>
    rw [Eval.rounds, Eval.rounds]
    refine lifts_bind ht fun b => ?_
    dsimp only [id]
    split
    · refine lifts_bind hb fun signal => ?_
      cases signal with
      | normal => exact ih
      | «continue» => exact ih
      | «break» => exact lifts_pure rfl
      | «return» v => exact lifts_pure rfl
    · exact lifts_pure rfl

mutual

theorem lifts_stmt (hg : setting.globals = G.globals) (calls : G.Calls apply apply') (limit : Nat)
    (scope : ScopeId) : (stmt : Stmt) →
    G.Lifts (Signal.embed G.ρ) (Eval.stmt setting apply limit scope stmt)
      (Eval.stmt (setting.embed G.ρ) apply' limit (G.ρ.scope scope) stmt)
  | .expression e => by
    rw [Eval.stmt, Eval.stmt]
    exact lifts_bind (lifts_expr hg calls scope e) fun _ => lifts_pure rfl
  | .block body => by
    rw [Eval.stmt, Eval.stmt]
    exact lifts_bind (lifts_newScope scope) fun inner => lifts_stmts hg calls limit inner body
  | .declare name type start => by
    rw [Eval.stmt, Eval.stmt]
    refine lifts_bind (lifts_initial hg calls scope type start) fun v => ?_
    refine lifts_bind (lifts_fitTo type v name.line _) fun w => ?_
    exact lifts_bind (lifts_define scope name w) fun _ => lifts_pure rfl
  | .ifThen _ test yes => by
    rw [Eval.stmt, Eval.stmt]
    refine lifts_bind (lifts_holds hg calls scope test) fun b => ?_
    dsimp only [id]
    split
    · exact lifts_stmt hg calls limit scope yes
    · exact lifts_pure rfl
  | .ifElse _ test yes no => by
    rw [Eval.stmt, Eval.stmt]
    refine lifts_bind (lifts_holds hg calls scope test) fun b => ?_
    dsimp only [id]
    split
    · exact lifts_stmt hg calls limit scope yes
    · exact lifts_stmt hg calls limit scope no
  | .while _ test body => by
    rw [Eval.stmt, Eval.stmt]
    exact lifts_rounds (lifts_holds hg calls scope test) (lifts_stmt hg calls limit scope body) limit
  | .return _ none => by
    rw [Eval.stmt, Eval.stmt]
    exact lifts_pure rfl
  | .return _ (some e) => by
    rw [Eval.stmt, Eval.stmt]
    exact lifts_bind (lifts_expr hg calls scope e) fun v => lifts_pure rfl
  | .break _ => by
    rw [Eval.stmt, Eval.stmt]
    exact lifts_pure rfl
  | .continue _ => by
    rw [Eval.stmt, Eval.stmt]
    exact lifts_pure rfl
  | .function header body => by
    rw [Eval.stmt, Eval.stmt]
    have made : G.Lifts G.ρ.function
        (Eval.allocate (·.newFunction (.script header body scope)) : Eval ω FunctionId)
        (Eval.allocate (·.newFunction (.script header body (G.ρ.scope scope)))) :=
      lifts_allocate (fun _ _ inside => inside.newFunction (.script header body scope))
        fun _ h => h.of_scopes rfl
    refine lifts_bind made fun f => ?_
    exact lifts_bind (lifts_define scope header.name (.function f)) fun _ => lifts_pure rfl

theorem lifts_stmts (hg : setting.globals = G.globals) (calls : G.Calls apply apply') (limit : Nat)
    (scope : ScopeId) : (ss : List Stmt) →
    G.Lifts (Signal.embed G.ρ) (Eval.stmts setting apply limit scope ss)
      (Eval.stmts (setting.embed G.ρ) apply' limit (G.ρ.scope scope) ss)
  | [] => by
    rw [Eval.stmts, Eval.stmts]
    exact lifts_pure rfl
  | stmt :: ss => by
    rw [Eval.stmts, Eval.stmts]
    refine lifts_bind (lifts_stmt hg calls limit scope stmt) fun signal => ?_
    cases signal with
    | normal => exact lifts_stmts hg calls limit scope ss
    | _ => exact lifts_pure rfl

end

theorem lifts_call (hg : setting.globals = G.globals)
    (outside : ∀ f ∈ setting.host.functions, f.Outside)
    (pure : ∀ f ∈ setting.host.functions, f.Pure) (fuel : Nat) :
    G.Calls (Eval.call setting fuel) (Eval.call (setting.embed G.ρ) fuel) := by
  induction fuel with
  | zero => exact fun _ _ _ => lifts_throw _
  | succ fuel ih =>
    intro f values line
    rw [Eval.call, Eval.call]
    refine lifts_bind (lifts_ask fun _ _ inside _ => inside.functions.get f) fun found => ?_
    cases found with
    | none => exact lifts_throw _
    | some c =>
      dsimp only [Option.map_some]
      rw [arity_embed, signature_embed, List.length_map, name_embed]
      split
      · exact lifts_throw _
      · refine lifts_bind (lifts_arguments c.name line 1 _ values) fun fitted => ?_
        cases c with
        | builtin b =>
          exact lifts_bind (lifts_builtin fitted b) fun v => lifts_result (.builtin b) line v
        | host name signature =>
          exact lifts_bind (lifts_hostFunction outside pure name fitted) fun v =>
            lifts_result (.host name signature) line v
        | script header body closure =>
          refine lifts_bind (f := Value.embed G.ρ) ?_ fun v =>
            lifts_result (.script header body closure) line v
          refine lifts_bind (lifts_newScope closure) fun scope => ?_
          refine lifts_bind (lifts_parameters scope header.parameters fitted) fun _ => ?_
          refine lifts_bind (lifts_stmts hg ih fuel scope body) fun signal => ?_
          cases signal <;> exact lifts_pure rfl

end Programs

end TickScript
