import TickScript.Proofs.Typing.Run
import TickScript.Proofs.Typing.Start
import TickScript.Session

/-!
# Typed sessions

A session runs its program, ticks it and lets the host write variables, in any order, and each
of this can fail. Whatever happens, a variable that has been declared with a type holds a value
of this type at every later moment, in the middle of a run as well as between two. The same is
true of parameters and of the variables of the host.

The moments of a session are the events of its runs and the points between them. Their stores
come in the order of later stores, and this is what carries the types of variables along.
-/

namespace TickScript

variable {ω : Type}

/-- What a session can be asked for when it has a program. A value for a variable is built for
it. -/
inductive Order where
  | run (fuel : Nat)
  | tick (fuel : Nat) (elapsed : Float)
  | setVariable (name : String) (content : Content)

/-- A moment in the life of a session: an event of a run, or a point between two orders. -/
inductive Moment (ω : Type) where
  | during (ev : Event ω)
  | between (store : Store)

def Moment.store : Moment ω → Store
  | .during ev => ev.store
  | .between store => store

namespace Session

/-- The events of calling a function of the script, if there is one of this name. -/
def enterEvents (s : Session ω) (fuel : Nat) (name : String) : List (Event ω) :=
  if s.declares name then s.machine.events s.host [] fuel (.call name) else []

/-- The events of an order. -/
def events (s : Session ω) : Order → List (Event ω)
  | .run fuel =>
    match s.program with
    | none => []
    | some statements =>
      s.machine.events s.host statements fuel .interpret ++
        match s.machine.interpret s.host fuel statements with
        | (.ok _, machine) => { s with machine }.enterEvents fuel setupName
        | (.error _, _) => []
  | .tick fuel elapsed =>
    if s.isCompiled then
      { s.beginFrame elapsed with ticks := s.ticks + 1 }.enterEvents fuel mainName
    else []
  | .setVariable _ _ => []

/-- The session after an order. -/
def obey (s : Session ω) : Order → Session ω
  | .run fuel => (s.run fuel).2
  | .tick fuel elapsed => (s.tick fuel elapsed).2
  | .setVariable name content =>
    let (v, store) := s.machine.store.build content
    ({ s with machine := { s.machine with store } }.setVariable name v).2

/-- The moments from now on. -/
def moments (s : Session ω) : List Order → List (Moment ω)
  | [] => [.between s.machine.store]
  | o :: os => .between s.machine.store :: ((s.events o).map .during ++ (s.obey o).moments os)

end Session

/-! ## Orders -/

/-- What has been bound is a variable of its type. -/
def Event.Held (T : Types) (globals : ScopeId) : Event ω → Prop
  | .evaluates .. => True
  | .binds scope name type run =>
    T.name name.lexeme = type ∧ globals ≤ scope ∧ run.store.Holds scope name.lexeme type

namespace Session

variable {T : Types} {globals : ScopeId} {s : Session ω}

/-- The program of the session and its store are typed. -/
structure Sound (T : Types) (globals : ScopeId) (s : Session ω) : Prop where
  outermost : s.machine.globals = globals
  store : s.machine.store.Sound T globals
  there : globals < s.machine.store.scopes.size
  served : T.Served s.host
  program : ∀ statements ∈ s.program, StmtsTyped T none false statements
  externals : ∀ v ∈ s.host.externals, T.name v.name = v.type ∧ v.type.isWild = false

/-- With these events the session `s` gets to `s'`, and everything stays typed. -/
structure Passes (T : Types) (globals : ScopeId) (s : Session ω) (events : List (Event ω))
    (s' : Session ω) : Prop where
  sound : s'.Sound T globals
  course : Course (Store.Later T.name globals) s.machine.store (events.map Event.store)
    s'.machine.store
  held : ∀ ev ∈ events, ev.Held T globals

theorem Passes.trans {s' s'' : Session ω} {events others : List (Event ω)}
    (h : Passes T globals s events s') (h' : Passes T globals s' others s'') :
    Passes T globals s (events ++ others) s'' where
  sound := h'.sound
  course := by
    rw [List.map_append]
    exact h.course.append h'.course
  held ev hev := by
    rcases List.mem_append.1 hev with hev | hev
    · exact h.held ev hev
    · exact h'.held ev hev

/-- Only the store and what does not matter here has changed. -/
theorem Sound.passes {s' : Session ω} (h : s.Sound T globals) (hhost : s'.host = s.host)
    (hprogram : s'.program = s.program) (hglobals : s'.machine.globals = s.machine.globals)
    (hs : s'.machine.store.Sound T globals) {events : List (Event ω)}
    (hc : Course (Store.Later T.name globals) s.machine.store (events.map Event.store)
      s'.machine.store) (hev : ∀ ev ∈ events, ev.Held T globals) :
    Passes T globals s events s' where
  sound := by
    refine ⟨hglobals.trans h.outermost, hs, ?_, ?_, ?_, ?_⟩
    · exact Nat.lt_of_lt_of_le h.there (course_iff.1 hc).1.scopes
    · rw [hhost]
      exact h.served
    · rw [hprogram]
      exact h.program
    · rw [hhost]
      exact h.externals
  course := hc
  held := hev

/-- Nothing has happened to the store. -/
theorem Sound.still {s' : Session ω} (h : s.Sound T globals) (hhost : s'.host = s.host)
    (hprogram : s'.program = s.program) (hglobals : s'.machine.globals = s.machine.globals)
    (hstore : s'.machine.store = s.machine.store) : Passes T globals s [] s' := by
  refine h.passes hhost hprogram hglobals ?_ ?_ (by simp)
  · rw [hstore]
    exact h.store
  · rw [hstore]
    exact course_nil (StoreOrder.refl _)

/-- The machine of the session has taken up what a typed run left behind. -/
theorem Sound.finished {α : Type} {s' : Session ω} (h : s.Sound T globals) {act : Eval ω α}
    {walk : Walk ω} {ok : α → Store → Prop}
    (runs : T.Runs (s.machine.setting s.host) act walk s.machine.begin ok)
    (hhost : s'.host = s.host) (hprogram : s'.program = s.program)
    (hmachine : s'.machine = (s.machine.finish (act s.machine.begin)).2) :
    Passes T globals s (walk s.machine.begin) s' := by
  have hg : (s.machine.setting s.host).globals = globals := h.outermost
  have held : ∀ ev ∈ walk s.machine.begin, ev.Held T globals := by
    intro ev hev
    have good := runs.events ev hev
    rw [← hg]
    cases ev with
    | evaluates => trivial
    | binds => exact good.2
  cases hr : act s.machine.begin with
  | ok a r =>
    obtain ⟨ordered, sound, -⟩ := runs.ends.of_ok hr
    rw [hr] at hmachine
    rw [hg] at ordered sound
    refine h.passes hhost hprogram ?_ ?_ ?_ held
    all_goals rw [hmachine]
    · rfl
    · exact sound
    · exact ordered
  | error i r =>
    obtain ⟨ordered, sound, -⟩ := runs.ends.of_error hr
    rw [hr] at hmachine
    rw [hg] at ordered sound
    refine h.passes hhost hprogram ?_ ?_ ?_ held
    all_goals rw [hmachine]
    · rfl
    · exact sound
    · exact ordered

theorem Sound.at (h : s.Sound T globals) :
    T.At (s.machine.setting s.host) (s.machine.setting s.host).globals s.machine.begin.store := by
  show T.At (s.machine.setting s.host) s.machine.globals s.machine.store
  have hg := h.outermost
  subst hg
  exact ⟨h.store, Nat.le_refl _, h.there⟩

/-- A name that stands for a script function has a signature. -/
theorem Sound.signature (h : s.Sound T globals) {name : String} (hd : s.declares name = true) :
    ∃ signature, T.signatures.find? name = some signature := by
  unfold declares Machine.function? Machine.global? at hd
  rw [h.outermost] at hd
  cases hl : s.machine.store.lookup globals name with
  | none =>
    rw [hl] at hd
    cases hd
  | some v =>
    rw [hl] at hd
    cases v with
    | function f =>
      rcases h.store.bindings globals name _ (Nat.le_refl _) hl with ⟨g, k, -, -, -, hσ, -⟩ | ⟨hs, -⟩
      · exact ⟨k.signature, hσ⟩
      · exact absurd hs (Store.not_shape_function f _)
    | _ => cases hd

/-- Calling a function of the script from outside. -/
theorem Sound.enter (hweak : ¬ T.exact) (h : s.Sound T globals) (fuel : Nat) (name : String) :
    Passes T globals s (s.enterEvents fuel name) (s.enter fuel name).2 := by
  unfold enterEvents Session.enter
  by_cases hd : s.declares name = true
  · rw [if_pos hd, if_pos hd]
    obtain ⟨signature, hσ⟩ := h.signature hd
    have runs : T.Runs (s.machine.setting s.host)
        (Eval.detached _ fuel (.globalCall name)) _ _ _ := runs_detached h.served hσ
      (fun he => absurd he hweak) (fun he => absurd he hweak) h.at
    cases hr : s.machine.evaluate s.host fuel (.globalCall name) with
    | mk result machine =>
      have hm : machine = (s.machine.evaluate s.host fuel (.globalCall name)).2 := by rw [hr]
      cases result with
      | ok v => exact h.finished runs rfl rfl hm
      | error i => exact h.finished runs rfl rfl hm
  · rw [if_neg hd, if_neg hd]
    exact h.still rfl rfl rfl rfl

theorem Sound.run (hweak : ¬ T.exact) (h : s.Sound T globals) (fuel : Nat) :
    Passes T globals s (s.events (.run fuel)) (s.run fuel).2 := by
  unfold events Session.run
  cases hp : s.program with
  | none => exact h.still rfl rfl rfl rfl
  | some statements =>
    have runs : T.Runs (s.machine.setting s.host) (Eval.program _ fuel statements) _ _ _ :=
      runs_program h.served (h.program statements hp) h.at
    dsimp only
    cases hr : s.machine.interpret s.host fuel statements with
    | mk result machine =>
      have hm : machine = (s.machine.interpret s.host fuel statements).2 := by rw [hr]
      cases result with
      | ok v =>
        have passes : Passes T globals s (s.machine.events s.host statements fuel .interpret)
            { s with machine, program := some statements } := h.finished runs rfl hp.symm hm
        exact passes.trans (passes.sound.enter hweak fuel setupName)
      | error i =>
        dsimp only
        rw [List.append_nil]
        exact h.finished runs rfl hp.symm hm

theorem Sound.tick (hweak : ¬ T.exact) (h : s.Sound T globals) (fuel : Nat) (elapsed : Float) :
    Passes T globals s (s.events (.tick fuel elapsed)) (s.tick fuel elapsed).2 := by
  dsimp only [events, Session.tick]
  by_cases hc : s.isCompiled = true
  · rw [if_pos hc, if_pos hc]
    have framed : Passes T globals s [] { s.beginFrame elapsed with ticks := s.ticks + 1 } :=
      h.still rfl rfl rfl rfl
    exact framed.trans (framed.sound.enter hweak fuel mainName)
  · rw [if_neg hc, if_neg hc]
    exact h.still rfl rfl rfl rfl

/-- The host writes a variable with a value that was built for it. -/
theorem Sound.setVariable (hweak : ¬ T.exact) (h : s.Sound T globals) (name : String)
    (content : Content) : Passes T globals s [] (s.obey (.setVariable name content)) := by
  have built := (Store.build_extends content s.machine.store).1
  have extended : ∀ {s' : Session ω}, s'.host = s.host → s'.program = s.program →
      s'.machine.globals = s.machine.globals → s.machine.store.Extends s'.machine.store →
      Passes T globals s [] s' := fun hhost hprogram hglobals hext =>
    h.passes hhost hprogram hglobals (h.store.extends hext) (course_nil hext.later) (by simp)
  dsimp only [obey, Session.setVariable]
  cases he : s.host.external? name with
  | none => exact extended rfl rfl rfl built
  | some external =>
    obtain ⟨hname, hwild⟩ := h.externals external (List.mem_of_find?_eq_some he)
    have found : external.name = name := by
      have := List.find?_some he
      exact eq_of_beq this
    rw [found] at hname
    have fitted := s.machine.store.coerce_build content hwild
    dsimp only [Machine.assignGlobal, Store.assign, Store.assignIn, Token.synthetic]
    cases hn : (s.machine.store.build content).2.nearest? name s.machine.globals with
    | none => exact extended rfl rfl rfl built
    | some c =>
      dsimp only
      cases hr : Store.coerce external.type (s.machine.store.build content).1
          (s.machine.store.build content).2 with
      | error m t =>
        rw [hr] at fitted
        exact extended rfl rfl rfl fitted
      | ok w t =>
        rw [hr] at fitted
        obtain ⟨hext, hshape⟩ := fitted
        rw [← hname] at hshape
        have sound := (h.store.extends hext).bind (c := c)
          (.inr ⟨hshape, fun hexact => absurd hexact hweak⟩)
        have later : Store.Later T.name globals s.machine.store (t.bind c name w) :=
          StoreOrder.trans hext.later (Store.later_bind (.inr hshape))
        refine h.passes ?_ ?_ ?_ ?_ (course_nil ?_) (by simp)
        · rfl
        · rfl
        · rfl
        · exact sound
        · exact later

theorem Sound.obey (hweak : ¬ T.exact) (h : s.Sound T globals) (order : Order) :
    Passes T globals s (s.events order) (s.obey order) := by
  cases order with
  | run fuel => exact h.run hweak fuel
  | tick fuel elapsed => exact h.tick hweak fuel elapsed
  | setVariable name content => exact h.setVariable hweak name content

/-- The stores of all moments come in the order of later stores, and what is bound in one of them
is a variable of its type. -/
theorem Sound.moments (hweak : ¬ T.exact) (orders : List Order) : ∀ {s : Session ω},
    s.Sound T globals →
    ((s.moments orders).map Moment.store).Pairwise (Store.Later T.name globals) ∧
      (∀ m ∈ s.moments orders, Store.Later T.name globals s.machine.store m.store) ∧
      ∀ ev, .during ev ∈ s.moments orders → ev.Held T globals := by
  induction orders with
  | nil =>
    intro s h
    rw [Session.moments]
    refine ⟨List.pairwise_singleton _ _, fun m hm => ?_, fun ev hev => by simp at hev⟩
    rw [List.mem_singleton.1 hm]
    exact StoreOrder.refl _
  | cons order orders ih =>
    intro s h
    have passes := h.obey hweak order
    obtain ⟨ends, events, pairwise⟩ := course_iff.1 passes.course
    obtain ⟨rest, later, held⟩ := ih passes.sound
    have first : ∀ m ∈ (s.events order).map Moment.during ++ (s.obey order).moments orders,
        Store.Later T.name globals s.machine.store m.store := by
      intro m hm
      rcases List.mem_append.1 hm with hm | hm
      · obtain ⟨ev, hev, rfl⟩ := List.mem_map.1 hm
        exact (events ev.store (List.mem_map_of_mem hev)).1
      · exact StoreOrder.trans ends (later m hm)
    have during : ((s.events order).map Moment.during).map Moment.store =
        (s.events order).map Event.store := by
      rw [List.map_map]
      rfl
    rw [Session.moments]
    refine ⟨?_, ?_, ?_⟩
    · rw [List.map_cons, List.map_append, during, List.pairwise_cons, List.pairwise_append]
      refine ⟨fun t ht => ?_, pairwise, rest, fun t ht u hu => ?_⟩
      · rw [← during, ← List.map_append] at ht
        obtain ⟨m, hm, rfl⟩ := List.mem_map.1 ht
        exact first m hm
      · obtain ⟨m, hm, rfl⟩ := List.mem_map.1 hu
        exact StoreOrder.trans (events t ht).2 (later m hm)
    · intro m hm
      rcases List.mem_cons.1 hm with rfl | hm
      · exact StoreOrder.refl _
      · exact first m hm
    · intro ev hev
      rcases List.mem_cons.1 hev with hev | hev
      · cases hev
      · rcases List.mem_append.1 hev with hev | hev
        · obtain ⟨ev', hev', e⟩ := List.mem_map.1 hev
          cases e
          exact passes.held ev hev'
        · exact held ev hev

end Session

/-! ## Accepted programs -/

/-- A session that has just been started and has compiled a source. -/
def Session.opened (host : Host ω) (store : Store) (world : ω) (source : String) : Session ω :=
  ((Session.start host store world).compile source).2

section Accepted

variable {source : String} {host : Host ω} {store : Store} {world : ω}

/-- What a session has after it has accepted a program. -/
theorem compile_accepted {s : Session ω} (accepted : (compile source s.host).accepted = true) :
    (s.compile source).2 =
      { s with
        machine := s.machine.reset s.host (compile source s.host).distances
        known := Session.observe s.host
          (s.machine.reset s.host (compile source s.host).distances)
        ticks := 0
        program := some (compile source s.host).statements } := by
  dsimp only [Session.compile]
  rw [if_pos accepted]

/-- A session with an accepted program is typed, and the variables of its host hold values of
their types. -/
theorem sound_opened (init : host.Initialized store)
    (apart : ∀ n ∈ host.names, n ∉ Builtin.all.map Builtin.name)
    (quiet : ∀ f ∈ host.functions, f.Quiet) (accepted : (compile source host).accepted = true)
    (once : (functionNames host (compile source host).statements).Nodup) :
    (Session.opened host store world source).Sound
        (typesOf source host (compile source host).statements False)
        (Session.opened host store world source).machine.globals ∧
      ∀ v ∈ host.externals,
        (typesOf source host (compile source host).statements False).name v.name = v.type ∧
        (Session.opened host store world source).machine.store.Holds
          (Session.opened host store world source).machine.globals v.name v.type := by
  have hc := compiled accepted
  rw [Session.opened, compile_accepted (s := Session.start host store world) accepted]
  have started := Machine.begun host (Machine.start host store world).store
  obtain ⟨sound, holds⟩ :=
    @Machine.sound_newGlobals _ _ _ source _ False init.newGlobals apart once False.elim
  refine ⟨⟨rfl, sound, ?_, ?_, ?_, ?_⟩, fun v hv => ⟨(holds v hv).2, (holds v hv).1⟩⟩
  · exact Nat.lt_of_lt_of_eq (Nat.lt_succ_self _) started.size.symm
  · exact served quiet False.elim _
  · intro statements hs
    cases hs
    exact hc.typed quiet init once False.elim
  · exact fun v hv => ⟨(holds v hv).2, (init.data v hv).1⟩

/-- Variables keep their types. A session compiles a source, and then runs it, ticks it and has
its variables written in any order, whether this succeeds or fails. At every moment the
variables of the host hold values of their types; and a variable or parameter of the script
does so from the moment on at which it has been bound, in whatever scope this is. -/
theorem variables_keep_types (registered : host.Registered store)
    (apart : ∀ n ∈ host.names, n ∉ Builtin.all.map Builtin.name)
    (quiet : ∀ f ∈ host.functions, f.Quiet) (accepted : (compile source host).accepted = true)
    (once : (functionNames host (compile source host).statements).Nodup) (orders : List Order) :
    (∀ m ∈ (Session.opened host store world source).moments orders, ∀ v ∈ host.externals,
        m.store.Holds (Session.opened host store world source).machine.globals v.name v.type) ∧
      ∀ before after scope name type run,
        (Session.opened host store world source).moments orders =
          before ++ .during (.binds scope name type run) :: after →
        run.store.Holds scope name.lexeme type ∧
          ∀ m ∈ after, m.store.Holds scope name.lexeme type := by
  obtain ⟨sound, externals⟩ :=
    @sound_opened _ _ _ _ world registered.initialized apart quiet accepted once
  obtain ⟨pairwise, later, held⟩ := Session.Sound.moments (fun h => h) orders sound
  refine ⟨fun m hm v hv => ?_, fun before after scope name type run hsplit => ?_⟩
  · obtain ⟨hname, holds⟩ := externals v hv
    rw [← hname] at holds ⊢
    exact (later m hm).bindings _ _ (Nat.le_refl _) holds
  · have hbound : Event.Held _ _ (.binds scope name type run) :=
      held _ (hsplit ▸ List.mem_append_right _ List.mem_cons_self)
    obtain ⟨hname, hscope, holds⟩ := hbound
    refine ⟨holds, fun m hm => ?_⟩
    rw [hsplit, List.map_append, List.map_cons] at pairwise
    have hlater := (List.pairwise_cons.1 (List.pairwise_append.1 pairwise).2.1).1 m.store
      (List.mem_map_of_mem hm)
    rw [← hname] at holds ⊢
    exact hlater.bindings _ _ hscope holds

end Accepted

/-- A host with an array. -/
def Host.listing : Host Unit :=
  ⟨[⟨"xs", .array .int, .array 0⟩], []⟩

/-- A program that writes the array of its host through a variable of its own. -/
def aliasSource : String :=
  "int last(int k) { int[] ys = xs; ys[0] = k; return ys[1]; } int n = last(4);"

/-- The variable `ys` of `aliasSource` has been bound. -/
def Moment.bindsAlias : Moment Unit → Bool
  | .during (.binds _ name type _) => name.lexeme == "ys" && type == .array .int
  | _ => false

theorem variables_keep_types_alias :
    ∃ before after scope name run,
      (Session.opened Host.listing ⟨#[#[.int 1, .int 2]], #[], #[]⟩ () aliasSource).moments
          [.run 5, .setVariable "xs" (.array [.int 7]), .run 5, .tick 5 0] =
        before ++ .during (.binds scope name (.array .int) run) :: after ∧
      name.lexeme = "ys" ∧ run.store.Holds scope name.lexeme (.array .int) ∧
      ∀ m ∈ after, m.store.Holds scope name.lexeme (.array .int) := by
  have registered : Host.listing.Registered ⟨#[#[.int 1, .int 2]], #[], #[]⟩ :=
    @Host.Registered.variable _ _ _ _ _ "xs" (.array .int) (.array [.int 1, .int 2]) .empty rfl
  have apart : ∀ n ∈ Host.listing.names, n ∉ Builtin.all.map Builtin.name := by decide
  have accepted : (compile aliasSource Host.listing).accepted = true := by decide +kernel
  have once : (functionNames Host.listing (compile aliasSource Host.listing).statements).Nodup := by
    decide +kernel
  have happens : ((Session.opened Host.listing ⟨#[#[.int 1, .int 2]], #[], #[]⟩ ()
      aliasSource).moments [.run 5, .setVariable "xs" (.array [.int 7]), .run 5, .tick 5 0]).any
        Moment.bindsAlias = true := by decide +kernel
  obtain ⟨m, hm, ht⟩ := List.any_eq_true.1 happens
  obtain ⟨before, after, hsplit⟩ := List.append_of_mem hm
  cases m with
  | between => cases ht
  | during ev =>
    cases ev with
    | evaluates => cases ht
    | binds scope name type run =>
      simp only [Moment.bindsAlias, Bool.and_eq_true, beq_iff_eq] at ht
      obtain ⟨hname, rfl⟩ := ht
      have keep := (variables_keep_types registered apart (by simp [Host.listing]) accepted once
        _).2 before after scope name _ run hsplit
      exact ⟨before, after, scope, name, run, hsplit, hname, keep.1, keep.2⟩

end TickScript
