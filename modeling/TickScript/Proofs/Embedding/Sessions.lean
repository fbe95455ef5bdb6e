import TickScript.Proofs.Changes
import TickScript.Proofs.Embedding.Run

/-!
# Sessions inside of stores

A machine or session whose store lies inside of another one does what it does without it: runs,
ticks and writes of variables are answered in the same way, with handles embedded. It also starts
a program in the same way, if the initial values of the host are there.
-/

namespace TickScript

variable {ω : Type}

/-! ## Handles that stay -/

section Handles

variable {ρ : Embedding} {s : Store}

mutual

/-- A content is the same if the functions that it mentions keep their handles. -/
theorem Content.embed_of_mentions (fixed : ∀ f < s.functions.size, ρ.function f = f) :
    (c : Content) → s.Mentions c → c.embed ρ = c
  | .int _, _ => rfl
  | .float _, _ => rfl
  | .bool _, _ => rfl
  | .nil, _ => rfl
  | .function f name, h => by rw [Content.embed, fixed f h]
  | .array items, h => by rw [Content.embed, Content.embedAll_of_mentions fixed items h]

theorem Content.embedAll_of_mentions (fixed : ∀ f < s.functions.size, ρ.function f = f) :
    (cs : List Content) → s.MentionsAll cs → Content.embedAll ρ cs = cs
  | [], _ => rfl
  | c :: cs, h => by
    rw [Content.embedAll, Content.embed_of_mentions fixed c h.1,
      Content.embedAll_of_mentions fixed cs h.2]

end

mutual

/-- A content is the same if all functions keep their handles. -/
theorem Content.embed_of_fixed (fixed : ∀ f, ρ.function f = f) : (c : Content) → c.embed ρ = c
  | .int _ => rfl
  | .float _ => rfl
  | .bool _ => rfl
  | .nil => rfl
  | .function f name => by rw [Content.embed, fixed f]
  | .array items => by rw [Content.embed, Content.embedAll_of_fixed fixed items]

theorem Content.embedAll_of_fixed (fixed : ∀ f, ρ.function f = f) : (cs : List Content) →
    Content.embedAll ρ cs = cs
  | [] => rfl
  | c :: cs => by
    rw [Content.embedAll, Content.embed_of_fixed fixed c, Content.embedAll_of_fixed fixed cs]

end

theorem Value.embed_of_has (arrays : ∀ a < s.arrays.size, ρ.array a = a)
    (functions : ∀ f < s.functions.size, ρ.function f = f) {v : Value} (h : s.Has v) :
    v.embed ρ = v := by
  cases v with
  | array a => exact congrArg Value.array (arrays a h)
  | function f => exact congrArg Value.function (functions f h)
  | _ => rfl

theorem Callable.embed_of_foreign {k : Callable} (h : k.isScript = false) : k.embed ρ = k := by
  cases k with
  | script => cases h
  | _ => rfl

end Handles

/-! ## The start of a program -/

namespace Machine

/-- The value that is provided, where the variables of the host have the contents `V`. -/
def Provision.makeAs (V : HostVariable → Content) (s : Store) : Provision → Value × Store
  | .function c => (.function (s.newFunction c).1, (s.newFunction c).2)
  | .variable v => s.build (V v)

/-- A new outermost scope, where the variables of the host have the contents `V`. -/
@[irreducible]
def globalsAs (host : Host ω) (V : HostVariable → Content) (s : Store) : Store :=
  (provisions host).foldl
    (fun t p => provide s.scopes.size (p.makeAs V t).2 p.name (p.makeAs V t).1)
    (s.newScope none).2

variable {ρ : Embedding} {base store s t : Store} {host : Host ω}

theorem isScript_of_provision {c : Callable} (h : .function c ∈ provisions host) :
    c.isScript = false := by
  simp only [provisions, List.mem_append, List.mem_map, Provision.function.injEq, reduceCtorEq,
    and_false, exists_false, or_false] at h
  rcases h with ⟨b, -, rfl⟩ | ⟨f, -, rfl⟩ <;> rfl

theorem Provision.embeds_make (closed : store.Closed)
    (initial : ∀ v ∈ host.externals, store.Has v.initial)
    (fixed : ∀ f < store.functions.size, ρ.function f = f) (adds : store.Adds t)
    (h : Store.Embeds ρ base s t) {p : Provision} (hp : p ∈ provisions host) :
    (p.make t).1 = (p.makeAs (fun v => store.content v.initial) s).1.embed ρ ∧
      Store.Embeds ρ base (p.makeAs (fun v => store.content v.initial) s).2 (p.make t).2 := by
  cases p with
  | function c =>
    obtain ⟨made, inside⟩ := h.newFunction c
    rw [Callable.embed_of_foreign (isScript_of_provision hp)] at made inside
    exact ⟨congrArg Value.function made, inside⟩
  | «variable» v =>
    have hv : v ∈ host.externals := by
      simpa [provisions] using hp
    have built := Store.Embeds.build (store.content v.initial) h
    rw [show (store.content v.initial).embed ρ = _ from
      Content.embed_of_mentions fixed _ (store.mentions_content _ v.initial)] at built
    rw [Provision.make, Store.copy, adds.content closed (initial v hv)]
    exact built

theorem embeds_provide (h : Store.Embeds ρ base s t) (g : ScopeId) (name : String) (v : Value) :
    Store.Embeds ρ base (provide g s name v) (provide (ρ.scope g) t name (v.embed ρ)) := by
  unfold provide
  rw [h.binds]
  split
  · exact h
  · exact h.bind g name v

theorem roots_provide {g : ScopeId} (h : s.Roots g) (g' : ScopeId) (name : String) (v : Value) :
    (provide g' s name v).Roots g := by
  unfold provide
  split
  · exact h
  · exact h.bind g' name v

theorem Provision.roots_makeAs {g : ScopeId} (h : s.Roots g) (V : HostVariable → Content)
    (p : Provision) : (p.makeAs V s).2.Roots g := by
  cases p with
  | function c => exact h.of_scopes rfl
  | «variable» v => exact h.of_scopes (Store.build_frame (V v) s).1

/-- A program starts in the same way inside of another store, if the initial values of the host
are there. -/
theorem embeds_newGlobals (closed : store.Closed)
    (initial : ∀ v ∈ host.externals, store.Has v.initial)
    (fixed : ∀ f < store.functions.size, ρ.function f = f) (adds : store.Adds t)
    (h : Store.Embeds ρ base s t) :
    Store.Embeds ρ base (globalsAs host (fun v => store.content v.initial) s)
        (newGlobals host t).2 ∧
      (globalsAs host (fun v => store.content v.initial) s).Roots s.scopes.size := by
  rw [newGlobals_eq, globalsAs]
  have started : (s.newScope none).2.Roots s.scopes.size :=
    ⟨by rw [Store.size_newScope]; exact Nat.lt_succ_self _, Store.parent?_newScope_self s none⟩
  have provided := @List.foldl_rel Provision Store Store (provisions host)
    (fun u p => provide s.scopes.size (p.makeAs (fun v => store.content v.initial) u).2 p.name
      (p.makeAs (fun v => store.content v.initial) u).1)
    (Provision.provide t.scopes.size) (s.newScope none).2 (t.newScope none).2
    (fun u u' => Store.Embeds ρ base u u' ∧ store.Adds u' ∧ u.Roots s.scopes.size)
    ⟨(h.newScope none).2, adds.trans (t.adds_newScope none), started⟩
    fun p hp u u' ⟨inside, there, root⟩ => ?_
  · exact ⟨provided.1, provided.2.2⟩
  · obtain ⟨made, inside'⟩ := Provision.embeds_make closed initial fixed there inside hp
    refine ⟨?_, (there.trans (p.adds_make u')).trans p.adds_provide,
      roots_provide (Provision.roots_makeAs root _ p) _ _ _⟩
    rw [Provision.provide, made, ← h.scopes.size]
    exact embeds_provide inside' _ _ _

end Machine

/-! ## Machines -/

/-- Two clocks that go on alike: one that is pinned does not ask when it was started. -/
structure Clock.Like (c d : Clock) : Prop where
  delta : c.delta = d.delta
  pinned : c.pinned = d.pinned
  started : c.pinned = none → c.started = d.started

theorem Clock.Like.refl (c : Clock) : c.Like c :=
  ⟨rfl, rfl, fun _ => rfl⟩

/-- Clocks that are pinned to the same time go on alike. -/
theorem Clock.like_pin (c d : Clock) (seconds : Float) : (c.pin seconds).Like (d.pin seconds) :=
  ⟨rfl, rfl, fun h => by cases h⟩

theorem Clock.Like.beginFrame {c d : Clock} (h : c.Like d) (elapsed : Float) :
    (c.beginFrame elapsed).Like (d.beginFrame elapsed) := by
  refine ⟨?_, h.pinned, fun _ => rfl⟩
  unfold Clock.beginFrame
  rw [← h.pinned]
  cases hp : c.pinned with
  | some fixed => rfl
  | none => rw [h.started hp]

variable {G : Ground} {host : Host ω}

/-- The machine `x` lies inside of `m`. -/
structure Machine.Over (x : Machine ω) (G : Ground) (m : Machine ω) : Prop where
  store : Store.Embeds G.ρ G.base x.store m.store
  root : x.store.Roots G.globals
  outermost : x.globals = G.globals
  globals : m.globals = G.ρ.scope G.globals
  console : m.console = G.printed ++ x.console
  distances : m.distances = x.distances
  clock : m.clock.Like x.clock

namespace Machine

variable {x m : Machine ω}

theorem Over.run (h : x.Over G m) : G.Over x.begin m.begin :=
  ⟨h.store, h.console, h.root⟩

theorem Over.setting (h : x.Over G m) (host : Host ω) :
    m.setting host = (x.setting host).embed G.ρ := by
  rw [Machine.setting, Machine.setting, Setting.embed, h.globals, h.outermost, h.distances,
    h.clock.delta]

/-- Machines take up what runs on top of the ground have left behind. -/
theorem Over.finish {α β : Type} (h : x.Over G m) {f : α → β} {act : Eval ω α} {act' : Eval ω β}
    (lifts : G.Lifts f act act') :
    (m.finish (act' m.begin)).1 = (x.finish (act x.begin)).1.map f ∧
      (x.finish (act x.begin)).2.Over G (m.finish (act' m.begin)).2 := by
  have agree := lifts x.begin m.begin h.run
  cases hx : act x.begin with
  | ok a y =>
    cases hm : act' m.begin with
    | ok b r =>
      rw [hx, hm] at agree
      obtain ⟨rfl, above⟩ := agree
      exact ⟨rfl, above.store, above.root, h.outermost, h.globals, above.console, h.distances, h.clock⟩
    | error j r =>
      rw [hx, hm] at agree
      exact agree.elim
  | error i y =>
    cases hm : act' m.begin with
    | ok b r =>
      rw [hx, hm] at agree
      exact agree.elim
    | error j r =>
      rw [hx, hm] at agree
      obtain ⟨rfl, above⟩ := agree
      exact ⟨rfl, above.store, above.root, h.outermost, h.globals, above.console, h.distances, h.clock⟩

theorem Over.interpret (h : x.Over G m) (outside : ∀ f ∈ host.functions, f.Outside)
    (pure : ∀ f ∈ host.functions, f.Pure) (fuel : Nat) (statements : List Stmt) :
    (m.interpret host fuel statements).1 = (x.interpret host fuel statements).1 ∧
      (x.interpret host fuel statements).2.Over G (m.interpret host fuel statements).2 := by
  have hg : (x.setting host).globals = G.globals := h.outermost
  have lifts : G.Lifts id (Eval.program (x.setting host) fuel statements)
      (Eval.program (m.setting host) fuel statements) := by
    rw [h.setting]
    refine lifts_bind (f := Signal.embed G.ρ) ?_ fun _ => lifts_pure rfl
    have run := lifts_stmts hg (lifts_call hg outside pure fuel) fuel G.globals statements
    rw [← hg] at run
    exact run
  obtain ⟨result, above⟩ := h.finish lifts
  refine ⟨result.trans ?_, above⟩
  show (x.interpret host fuel statements).1.map id = _
  cases (x.interpret host fuel statements).1 <;> rfl

theorem Over.evaluate (h : x.Over G m) (outside : ∀ f ∈ host.functions, f.Outside)
    (pure : ∀ f ∈ host.functions, f.Pure) (fuel : Nat) (e : Expr) :
    (m.evaluate host fuel e).1 = (x.evaluate host fuel e).1.map (Value.embed G.ρ) ∧
      (x.evaluate host fuel e).2.Over G (m.evaluate host fuel e).2 := by
  have hg : (x.setting host).globals = G.globals := h.outermost
  have lifts : G.Lifts (Value.embed G.ρ) (Eval.detached (x.setting host) fuel e)
      (Eval.detached (m.setting host) fuel e) := by
    rw [h.setting]
    have run := lifts_expr hg (lifts_call hg outside pure fuel) G.globals e
    rw [← hg] at run
    exact run
  exact h.finish lifts

theorem Over.global? (h : x.Over G m) (name : String) :
    m.global? name = (x.global? name).map (Value.embed G.ρ) := by
  rw [Machine.global?, Machine.global?, h.globals, h.outermost, h.store.lookup]

theorem Over.content? (h : x.Over G m) (name : String) :
    m.content? name = (x.content? name).map (Content.embed G.ρ) := by
  rw [Machine.content?, Machine.content?, h.global?, Option.map_map, Option.map_map]
  refine congrArg (fun f => Option.map f _) (funext fun v => ?_)
  exact h.store.content v

theorem Over.present (h : x.Over G m) (name : String) :
    Session.present m name = (Session.present x name).embed G.ρ := by
  rw [Session.present, Session.present, h.content?]
  cases x.content? name <;> rfl

theorem Over.assignGlobal (h : x.Over G m) (name : Token) (v : Value) :
    (m.assignGlobal name (v.embed G.ρ)).1 = (x.assignGlobal name v).1.map (Value.embed G.ρ) ∧
      (x.assignGlobal name v).2.Over G (m.assignGlobal name (v.embed G.ρ)).2 := by
  have agrees := h.store.assignIn (x.store.nearest? name.lexeme G.globals) name v
  rw [← h.store.nearest? h.root.alone] at agrees
  have rooted := x.store.rooted_assignIn G.globals (x.store.nearest? name.lexeme G.globals) name v
  unfold Machine.assignGlobal Store.assign
  rw [h.globals, h.outermost]
  cases hx : Store.assignIn (x.store.nearest? name.lexeme G.globals) name v x.store <;>
    cases hm : Store.assignIn (m.store.nearest? name.lexeme (G.ρ.scope G.globals)) name
      (v.embed G.ρ) m.store <;>
    rw [hx, hm] at agrees <;> rw [hx] at rooted <;> first | exact agrees.elim | skip
  · obtain ⟨rfl, inside⟩ := agrees
    exact ⟨rfl, inside, rooted h.root, rfl, rfl, h.console, h.distances, h.clock⟩
  · obtain ⟨rfl, inside⟩ := agrees
    exact ⟨rfl, inside, rooted h.root, rfl, rfl, h.console, h.distances, h.clock⟩

end Machine

/-! ## Sessions -/

/-- The change with the handles of functions moved. -/
def Change.embed (ρ : Embedding) (change : Change) : Change :=
  ⟨change.name, change.previous.embed ρ, change.current.embed ρ⟩

/-- What the host knows, with the handles of functions moved. -/
def embedKnown (ρ : Embedding) (known : List (String × Content)) : List (String × Content) :=
  known.map fun entry => (entry.1, entry.2.embed ρ)

namespace Session

/-- The session `s` is `x` on top of the ground. -/
structure Over (x : Session ω) (G : Ground) (s : Session ω) : Prop where
  served : s.host = x.host
  machine : x.machine.Over G s.machine
  program : s.program = x.program
  known : s.known = embedKnown G.ρ x.known

variable {x s : Session ω}

/-- Comparing on top of the ground. -/
theorem compareKnown_embed {m y : Machine ω} (h : y.Over G m) : ∀ known : List (String × Content),
    compareKnown m (embedKnown G.ρ known) =
      ((compareKnown y known).1.map (Change.embed G.ρ),
        embedKnown G.ρ (compareKnown y known).2)
  | [] => rfl
  | (name, previous) :: rest => by
    have ih := compareKnown_embed h rest
    show compareKnown m ((name, previous.embed G.ρ) :: embedKnown G.ρ rest) = _
    simp only [compareKnown, ih, h.present, same_embed]
    split <;> rfl

theorem learn_embed (ρ : Embedding) (name : String) (c : Content) :
    ∀ known : List (String × Content),
      learn name (c.embed ρ) (embedKnown ρ known) = embedKnown ρ (learn name c known)
  | [] => rfl
  | entry :: rest => by
    show learn name (c.embed ρ) ((entry.1, entry.2.embed ρ) :: embedKnown ρ rest) = _
    rw [learn, learn]
    dsimp only
    split
    · rfl
    · rw [learn_embed ρ name c rest]
      rfl

theorem Over.poll (h : x.Over G s) :
    s.poll.1 = x.poll.1.map (Change.embed G.ρ) ∧ x.poll.2.Over G s.poll.2 := by
  have compared := compareKnown_embed h.machine x.known
  rw [← h.known] at compared
  unfold Session.poll
  rw [compared]
  exact ⟨rfl, h.served, h.machine, h.program, rfl⟩

/-- A run or tick on top of the ground ends as it does without it. -/
def PassesOver (G : Ground) (r r' : Except SessionError (List Change) × Session ω) : Prop :=
  r'.1 = r.1.map (List.map (Change.embed G.ρ)) ∧ r.2.Over G r'.2

theorem Over.declares (h : x.Over G s) (name : String) : s.declares name = x.declares name := by
  have found : s.machine.function? name =
      (x.machine.function? name).map (Callable.embed G.ρ) := by
    unfold Machine.function?
    rw [h.machine.global?]
    cases x.machine.global? name with
    | none => rfl
    | some v =>
      cases v with
      | function f =>
        exact h.machine.store.functions.get f
      | _ => rfl
  unfold Session.declares
  rw [found]
  cases x.machine.function? name with
  | none => rfl
  | some k => cases k <;> rfl

theorem Over.enter (h : x.Over G s) (outside : ∀ f ∈ x.host.functions, f.Outside)
    (pure : ∀ f ∈ x.host.functions, f.Pure) (fuel : Nat) (name : String) :
    PassesOver G (x.enter fuel name) (s.enter fuel name) := by
  unfold Session.enter
  rw [h.declares]
  split
  · obtain ⟨host, m, program, known, ticks, reported⟩ := s
    obtain ⟨rfl, machine, rfl, rfl⟩ := h
    obtain ⟨result, above⟩ := machine.evaluate outside pure fuel (.globalCall name)
    dsimp only
    cases hx : x.machine.evaluate x.host fuel (.globalCall name) with
    | mk r y =>
      cases hs : m.evaluate x.host fuel (.globalCall name) with
      | mk r' m' =>
        rw [hx, hs] at result above
        obtain rfl : r' = r.map (Value.embed G.ρ) := result
        have after : { x with machine := y }.Over G
            ⟨x.host, m', x.program, embedKnown G.ρ x.known, ticks, reported⟩ :=
          ⟨rfl, above, rfl, rfl⟩
        cases r with
        | ok v =>
          obtain ⟨changes, polled⟩ := after.poll
          exact ⟨congrArg Except.ok changes, polled⟩
        | error i => exact ⟨rfl, after⟩
  · obtain ⟨changes, polled⟩ := h.poll
    exact ⟨congrArg Except.ok changes, polled⟩

theorem Over.run (h : x.Over G s) (outside : ∀ f ∈ x.host.functions, f.Outside)
    (pure : ∀ f ∈ x.host.functions, f.Pure) (fuel : Nat) :
    PassesOver G (x.run fuel) (s.run fuel) := by
  obtain ⟨host, m, program, known, ticks, reported⟩ := s
  obtain ⟨rfl, machine, rfl, rfl⟩ := h
  unfold Session.run
  dsimp only
  cases hp : x.program with
  | none => exact ⟨rfl, rfl, machine, hp.symm, rfl⟩
  | some statements =>
    obtain ⟨result, above⟩ := machine.interpret outside pure fuel statements
    dsimp only
    cases hx : x.machine.interpret x.host fuel statements with
    | mk r y =>
      cases hs : m.interpret x.host fuel statements with
      | mk r' m' =>
        rw [hx, hs] at result above
        obtain rfl : r' = r := result
        have after : Over ⟨x.host, y, some statements, x.known, x.ticks, x.reported⟩ G
            ⟨x.host, m', some statements, embedKnown G.ρ x.known, ticks, reported⟩ :=
          ⟨rfl, above, rfl, rfl⟩
        cases r' with
        | ok v => exact after.enter outside pure fuel setupName
        | error i => exact ⟨rfl, after⟩

theorem Over.tick (h : x.Over G s) (outside : ∀ f ∈ x.host.functions, f.Outside)
    (pure : ∀ f ∈ x.host.functions, f.Pure) (fuel : Nat) (elapsed : Float) :
    PassesOver G (x.tick fuel elapsed) (s.tick fuel elapsed) := by
  unfold Session.tick Session.isCompiled
  rw [h.program]
  split
  · have begun : { x.beginFrame elapsed with ticks := x.ticks + 1 }.Over G
        { s.beginFrame elapsed with ticks := s.ticks + 1 } :=
      ⟨h.served, { h.machine with clock := h.machine.clock.beginFrame elapsed }, h.program, h.known⟩
    exact begun.enter outside pure fuel mainName
  · exact ⟨rfl, h⟩

theorem Over.setVariable (h : x.Over G s) (name : String) (v : Value) :
    (s.setVariable name (v.embed G.ρ)).1 = (x.setVariable name v).1 ∧
      (x.setVariable name v).2.Over G (s.setVariable name (v.embed G.ρ)).2 := by
  obtain ⟨host, m, program, known, ticks, reported⟩ := s
  obtain ⟨rfl, machine, rfl, rfl⟩ := h
  unfold Session.setVariable
  dsimp only
  cases x.host.external? name with
  | none => exact ⟨rfl, rfl, machine, rfl, rfl⟩
  | some external =>
    obtain ⟨result, above⟩ := machine.assignGlobal (.synthetic name external.type) v
    dsimp only
    cases hx : x.machine.assignGlobal (.synthetic name external.type) v with
    | mk r y =>
      cases hs : m.assignGlobal (.synthetic name external.type) (v.embed G.ρ) with
      | mk r' m' =>
        rw [hx, hs] at result above
        obtain rfl : r' = r.map (Value.embed G.ρ) := result
        cases r with
        | ok w =>
          refine ⟨rfl, rfl, above, rfl, ?_⟩
          show learn name (m'.store.content (w.embed G.ρ)) _ = _
          rw [above.store.content, learn_embed]
        | error e => exact ⟨rfl, rfl, above, rfl, rfl⟩

theorem Over.offer (h : x.Over G s) (name : String) (content : Content) :
    (s.offer name (content.embed G.ρ)).1 = (x.offer name content).1 ∧
      (x.offer name content).2.Over G (s.offer name (content.embed G.ρ)).2 := by
  obtain ⟨built, inside⟩ := Store.Embeds.build content h.machine.store
  have root := h.machine.root.of_scopes (Store.build_frame content x.machine.store).1
  have grown : Over
      { x with machine := { x.machine with store := (x.machine.store.build content).2 } } G
      { s with machine :=
        { s.machine with store := (s.machine.store.build (content.embed G.ρ)).2 } } :=
    { h with machine := { h.machine with store := inside, root } }
  unfold Session.offer
  rw [built]
  exact grown.setVariable name _

/-- Whether a new value is refused does not depend on what else there is. -/
theorem Over.writeNew (h : x.Over G s) (name : String) (content : Content) :
    (s.writeNew name (content.embed G.ρ)).1 = (x.writeNew name content).1 ∧
      (x.writeNew name content).2.Over G (s.writeNew name (content.embed G.ρ)).2 := by
  obtain ⟨result, above⟩ := h.offer name content
  unfold Session.writeNew
  cases hx : x.offer name content with
  | mk r y =>
    cases hs : s.offer name (content.embed G.ρ) with
    | mk r' t =>
      rw [hx, hs] at result above
      cases result
      cases r with
      | ok => exact ⟨rfl, above⟩
      | error e => exact ⟨rfl, h⟩

end Session

end TickScript
