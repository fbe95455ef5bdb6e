import TickScript.Proofs.Embedding.Sessions

/-!
# Recompiling forgets the past

A program that is compiled starts with copies of the initial values of the host, and it does not
see what earlier programs have left. As long as the host never writes a variable with an array
that was there when the session started, no script gets hold of such an array. So the initial
values stay as they were, and after a compilation a session answers as a new one does, whatever it
has been asked before.

If the host writes a variable with the very array that it registered then the script works on this
array, and the next program starts with what has become of it.
-/

namespace TickScript

variable {ω : Type}

/-! ## Handles that move on -/

/-- Positions below `n` stay, and the later ones move on by `d`. -/
def skip (n d i : Nat) : Nat :=
  if i < n then i else i + d

theorem skip_of_lt {n i : Nat} (d : Nat) (h : i < n) : skip n d i = i := if_pos h

theorem skip_of_le {n i : Nat} (d : Nat) (h : n ≤ i) : skip n d i = i + d :=
  if_neg (Nat.not_lt.2 h)

theorem skip_injective (n d : Nat) : (skip n d).Injective := by
  intro i j h
  unfold skip at h
  split at h <;> split at h <;> omega

/-- If `ys` has what `xs` has, and `g` leaves this as it is, then what comes next in `xs` comes
behind all of `ys`. -/
theorem Spread.behind {α : Type} {g : α → α} {xs ys : Array α}
    (same : ∀ i < xs.size, ys[i]? = xs[i]?) (size : xs.size ≤ ys.size) (fixed : ∀ x ∈ xs, g x = x) :
    Spread (skip xs.size (ys.size - xs.size)) g xs ys where
  get i := by
    rcases Nat.lt_or_ge i xs.size with hi | hi
    · rw [skip_of_lt _ hi, same i hi, Array.getElem?_eq_getElem hi, Option.map_some,
        fixed _ (Array.getElem_mem hi)]
    · rw [skip_of_le _ hi, Array.getElem?_eq_none hi, Array.getElem?_eq_none (by omega)]
      rfl
  next n := by
    rw [skip_of_le _ (Nat.le_add_right _ _)]
    omega

/-- The arrays and functions of `s` stay, and all that comes later comes behind what `t` has. -/
def Embedding.behind (s t : Store) : Embedding where
  array := skip s.arrays.size (t.arrays.size - s.arrays.size)
  function := skip s.functions.size (t.functions.size - s.functions.size)
  scope := skip 0 t.scopes.size
  array_injective := skip_injective _ _
  function_injective := skip_injective _ _
  scope_injective := skip_injective _ _

namespace Store

/-- The store without scopes. -/
def unscoped (s : Store) : Store :=
  { s with scopes := #[] }

/-- What is in both of two stores stays when a program starts in them, if no script is involved. -/
theorem embeds_behind {s t : Store} (closed : s.Closed)
    (blank : ∀ k ∈ s.functions, k.isScript = false) (adds : s.Adds t) :
    Embeds (.behind s t) t s.unscoped t where
  arrays := by
    refine Spread.behind adds.arrays adds.grows.arrays fun items hi => ?_
    -- An array mentions only arrays and functions of the store, which stay.
    obtain ⟨a, ha, rfl⟩ := Array.mem_iff_getElem.1 hi
    refine (Array.map_congr_left fun v hv => ?_).trans (Array.map_id _)
    refine Value.embed_of_has (fun _ h => skip_of_lt _ h) (fun _ h => skip_of_lt _ h)
      (closed.items a v ?_)
    rwa [Store.items, Array.getD_eq_getD_getElem?, Array.getElem?_eq_getElem ha]
  functions := Spread.behind adds.functions adds.grows.functions fun k hk =>
    Callable.embed_of_foreign (blank k hk)
  scopes := @Spread.behind _ _ #[] t.scopes (fun i hi => absurd hi (Nat.not_lt_zero i))
    (Nat.zero_le _) fun sc hsc => absurd hsc (Array.not_mem_empty sc)
  otherArrays _ _ := rfl
  oldFunctions _ _ := rfl

end Store

/-! ## Answers -/

namespace Content

mutual

/-- The content without the handles of functions. -/
def blind : Content → Content
  | .function _ name => .function 0 name
  | .array items => .array (blindAll items)
  | c => c

def blindAll : List Content → List Content
  | [] => []
  | c :: cs => c.blind :: blindAll cs

end

mutual

theorem blind_embed (ρ : Embedding) : (c : Content) → (c.embed ρ).blind = c.blind
  | .int _ => rfl
  | .float _ => rfl
  | .bool _ => rfl
  | .nil => rfl
  | .function _ _ => rfl
  | .array items => by rw [Content.embed, blind, blind, blindAll_embed ρ items]

theorem blindAll_embed (ρ : Embedding) : (cs : List Content) →
    blindAll (embedAll ρ cs) = blindAll cs
  | [] => rfl
  | c :: cs => by rw [embedAll, blindAll, blindAll, blind_embed ρ c, blindAll_embed ρ cs]

end

end Content

def Answer.embed (ρ : Embedding) : Answer → Answer
  | .passed result => .passed (result.map (List.map (Change.embed ρ)))
  | .shown content => .shown (content.map (Content.embed ρ))
  | answer => answer

/-- The answer without the handles of functions. -/
def Answer.blind : Answer → Answer
  | .passed result =>
    .passed (result.map (List.map fun change =>
      ⟨change.name, change.previous.blind, change.current.blind⟩))
  | .shown content => .shown (content.map Content.blind)
  | answer => answer

theorem Answer.blind_embed (ρ : Embedding) (answer : Answer) :
    (answer.embed ρ).blind = answer.blind := by
  cases answer with
  | compiled => rfl
  | written => rfl
  | passed result =>
    cases result with
    | error e => rfl
    | ok changes =>
      simp only [Answer.embed, Answer.blind, Except.map, List.map_map, Function.comp_def,
        Change.embed, Content.blind_embed]
  | shown content =>
    simp only [Answer.embed, Answer.blind, Option.map_map, Function.comp_def, Content.blind_embed]

/-! ## Wishes -/

/-- What a host wishes of a session: a deed, or that a variable is written with a value that there
is already. -/
inductive Wish where
  | deed (deed : Deed)
  | assign (name : String) (v : Value)

/-- The deed with the handles of functions embedded. -/
def Deed.embed (ρ : Embedding) : Deed → Deed
  | .setVariable name content => .setVariable name (content.embed ρ)
  | deed => deed

namespace Wish

/-- The wish with its handles embedded. -/
def embed (ρ : Embedding) : Wish → Wish
  | .deed d => .deed (d.embed ρ)
  | .assign name v => .assign name (v.embed ρ)

/-- The wish is about the program that there is. -/
def Follows : Wish → Prop
  | .deed (.compile _) => False
  | _ => True

/-- The host keeps the arrays of `store` to itself. -/
def Spares (store : Store) : Wish → Prop
  | .assign _ (.array a) => store.arrays.size ≤ a
  | _ => True

end Wish

namespace Session

/-- The session does as it is wished. -/
def grant (s : Session ω) : Wish → Answer × Session ω
  | .deed d => s.act d
  | .assign name v => (.written (s.setVariable name v).1, (s.setVariable name v).2)

/-- The session after some wishes. -/
def granted (s : Session ω) : List Wish → Session ω
  | [] => s
  | w :: ws => (s.grant w).2.granted ws

/-- The answers to some wishes. -/
def answers (s : Session ω) : List Wish → List Answer
  | [] => []
  | w :: ws => (s.grant w).1 :: (s.grant w).2.answers ws

theorem setVariable_host (s : Session ω) (name : String) (v : Value) :
    (s.setVariable name v).2.host = s.host := by
  unfold Session.setVariable
  cases s.host.external? name with
  | none => rfl
  | some external =>
    dsimp only
    split <;> rfl

theorem grant_host (s : Session ω) (wish : Wish) : (s.grant wish).2.host = s.host := by
  cases wish with
  | deed d => exact s.act_host d
  | assign name v => exact s.setVariable_host name v

theorem granted_host (s : Session ω) (wishes : List Wish) : (s.granted wishes).host = s.host := by
  induction wishes generalizing s with
  | nil => rfl
  | cons wish wishes ih => exact (ih _).trans (s.grant_host wish)

variable {G : Ground} {x s : Session ω} {host : Host ω}

/-- A session that lies inside of another one answers as that one does. -/
theorem Over.grant (h : x.Over G s) (outside : ∀ f ∈ x.host.functions, f.Outside)
    (pure : ∀ f ∈ x.host.functions, f.Pure) {wish : Wish} (follows : wish.Follows) :
    (s.grant (wish.embed G.ρ)).1 = (x.grant wish).1.embed G.ρ ∧
      (x.grant wish).2.Over G (s.grant (wish.embed G.ρ)).2 := by
  cases wish with
  | assign name v =>
    obtain ⟨result, above⟩ := h.setVariable name v
    exact ⟨congrArg Answer.written result, above⟩
  | deed d =>
    cases d with
    | compile source => exact follows.elim
    | run fuel =>
      obtain ⟨result, above⟩ := h.run outside pure fuel
      exact ⟨congrArg Answer.passed result, above⟩
    | tick fuel elapsed =>
      obtain ⟨result, above⟩ := h.tick outside pure fuel elapsed
      exact ⟨congrArg Answer.passed result, above⟩
    | setVariable name content =>
      obtain ⟨result, above⟩ := h.writeNew name content
      exact ⟨congrArg Answer.written result, above⟩
    | «variable» name => exact ⟨congrArg Answer.shown (h.machine.content? name), h⟩

theorem Over.answers (outside : ∀ f ∈ host.functions, f.Outside)
    (pure : ∀ f ∈ host.functions, f.Pure) :
    ∀ {wishes : List Wish} {x s : Session ω}, x.Over G s → x.host = host →
      (∀ w ∈ wishes, w.Follows) →
      (s.answers (wishes.map (Wish.embed G.ρ))).map Answer.blind =
          (x.answers wishes).map Answer.blind ∧
        (x.granted wishes).Over G (s.granted (wishes.map (Wish.embed G.ρ))) := by
  intro wishes
  induction wishes with
  | nil => exact fun h _ _ => ⟨rfl, h⟩
  | cons wish wishes ih =>
    intro x s h hhost follows
    subst hhost
    obtain ⟨answer, above⟩ := h.grant outside pure (follows wish List.mem_cons_self)
    obtain ⟨rest, last⟩ := ih above (x.grant_host wish) fun w hw =>
      follows w (List.mem_cons_of_mem wish hw)
    refine ⟨?_, last⟩
    rw [List.map_cons, Session.answers, Session.answers, List.map_cons, List.map_cons, rest,
      answer, Answer.blind_embed]

/-! ## Compilations -/

/-- A session of a machine that has just taken up a program, where the variables of the host have
the contents `V`. -/
def renewed (host : Host ω) (V : HostVariable → Content) (distances : Table ExprId Nat)
    (program : Option (List Stmt)) (m : Machine ω) : Session ω :=
  let machine :=
    { m with store := Machine.globalsAs host V m.store, globals := m.store.scopes.size, distances }
  ⟨host, machine, program, observe host machine, 0, #[]⟩

section Renewed

variable {ρ : Embedding} {base store t : Store} {m : Machine ω} {printed : Array String}

/-- A program starts in the same way inside of another store, if the initial values of the host
are there. -/
theorem over_renewed (closed : store.Closed)
    (initial : ∀ v ∈ s.host.externals, store.Has v.initial)
    (fixed : ∀ f < store.functions.size, ρ.function f = f) (adds : store.Adds t)
    (inside : Store.Embeds ρ base m.store t)
    (hs : s.machine.store = (Machine.newGlobals s.host t).2)
    (hg : s.machine.globals = t.scopes.size) (known : s.known = observe s.host s.machine)
    (console : s.machine.console = printed ++ m.console) (like : s.machine.clock.Like m.clock) :
    (renewed s.host (fun v => store.content v.initial) s.machine.distances s.program m).Over
      ⟨ρ, base, printed, m.store.scopes.size⟩ s := by
  obtain ⟨started, root⟩ := Machine.embeds_newGlobals closed initial fixed adds inside
  have machine : (renewed s.host (fun v => store.content v.initial) s.machine.distances s.program
      m).machine.Over ⟨ρ, base, printed, m.store.scopes.size⟩ s.machine :=
    ⟨by rw [hs]; exact started, root, rfl, hg.trans inside.scopes.size.symm, console, rfl, like⟩
  refine ⟨rfl, machine, rfl, ?_⟩
  rw [known, observe, embedKnown]
  show _ = List.map _ (observe s.host _)
  rw [observe, List.map_map]
  exact List.map_congr_left fun v _ => by rw [machine.present]; rfl

end Renewed

/-- The program of a session that has compiled a source text, if there is one. -/
def compiled (host : Host ω) (source : String) : Option (List Stmt) :=
  if (TickScript.compile source host).accepted then
    some (TickScript.compile source host).statements else none

theorem compile_answer (s : Session ω) (source : String) :
    (s.compile source).1 =
      if (TickScript.compile source s.host).accepted then .ok ()
      else .error (TickScript.compile source s.host).diagnostics := by
  unfold Session.compile
  dsimp only
  split <;> rfl

theorem compile_session (s : Session ω) (source : String) :
    ∃ reported, (s.compile source).2 =
      ⟨s.host, s.machine.reset s.host (TickScript.compile source s.host).distances,
        compiled s.host source,
        observe s.host (s.machine.reset s.host (TickScript.compile source s.host).distances),
        0, reported⟩ := by
  unfold Session.compile compiled
  dsimp only
  split <;> exact ⟨_, rfl⟩

theorem compile_distances (s : Session ω) (source : String) (seconds : Float) :
    ((s.compile source).2.pinDelta seconds).machine.distances =
      (TickScript.compile source s.host).distances := by
  obtain ⟨reported, hs⟩ := s.compile_session source
  rw [hs]
  generalize TickScript.compile source s.host = c
  rfl

end Session

/-! ## What the host keeps to itself -/

/-- All arrays and scopes come behind those of `store`. -/
def Embedding.past (store : Store) : Embedding :=
  .behind ⟨#[], store.functions, #[]⟩ store

theorem Embedding.past_array (store : Store) (a : ArrayId) :
    (past store).array a = a + store.arrays.size :=
  skip_of_le _ (Nat.zero_le a)

theorem Embedding.past_function (store : Store) (f : FunctionId) : (past store).function f = f := by
  show skip store.functions.size (store.functions.size - store.functions.size) f = f
  unfold skip
  split <;> omega

theorem Store.adds_onlyFunctions (store : Store) :
    Store.Adds ⟨#[], store.functions, #[]⟩ store where
  arrays _ ha := absurd ha (Nat.not_lt_zero _)
  functions _ _ := rfl

theorem Store.closed_onlyFunctions (store : Store) : Store.Closed ⟨#[], store.functions, #[]⟩ where
  items _ _ hv := absurd hv (Array.not_mem_empty _)
  bindings _ _ _ hv := by cases hv

/-- What spares the arrays of the host can be wished without them. -/
theorem Wish.exists_embed {store : Store} {wish : Wish} (h : wish.Spares store) :
    ∃ w : Wish, w.embed (.past store) = wish ∧ (wish.Follows → w.Follows) := by
  cases wish with
  | deed d =>
    refine ⟨.deed d, ?_, id⟩
    cases d with
    | setVariable name content =>
      exact congrArg (fun c => Wish.deed (.setVariable name c))
        (Content.embed_of_fixed (Embedding.past_function store) content)
    | _ => rfl
  | assign name v =>
    cases v with
    | array a =>
      have ha : store.arrays.size ≤ a := h
      refine ⟨.assign name (.array (a - store.arrays.size)), ?_, fun _ => trivial⟩
      rw [Wish.embed, Value.embed, Embedding.past_array, Nat.sub_add_cancel ha]
    | function f =>
      refine ⟨.assign name (.function f), ?_, fun _ => trivial⟩
      rw [Wish.embed, Value.embed, Embedding.past_function]
    | int n => exact ⟨.assign name (.int n), rfl, fun _ => trivial⟩
    | float n => exact ⟨.assign name (.float n), rfl, fun _ => trivial⟩
    | bool b => exact ⟨.assign name (.bool b), rfl, fun _ => trivial⟩
    | nil => exact ⟨.assign name .nil, rfl, fun _ => trivial⟩

namespace Session

variable {s : Session ω} {host : Host ω} {store : Store}

/-- No program has got at the arrays that were there at the beginning. -/
structure Settled (host : Host ω) (store : Store) (s : Session ω) : Prop where
  served : s.host = host
  inside : ∃ (x : Session ω) (printed : Array String) (globals : ScopeId),
    x.Over ⟨.past store, store, printed, globals⟩ s

/-- What was there at the beginning is as it was. -/
theorem Settled.adds (h : s.Settled host store) : store.Adds s.machine.store := by
  obtain ⟨x, printed, globals, above⟩ := h.inside
  refine ⟨fun a ha => above.machine.store.otherArrays a fun b hb => ?_,
    above.machine.store.oldFunctions⟩
  rw [Embedding.past_array] at hb
  exact absurd ha (Nat.not_lt.2 (hb ▸ Nat.le_add_left _ _))

section Host

variable (built : host.Built store)

include built

theorem settled_start (blank : ∀ k ∈ store.functions, k.isScript = false) (world : ω) :
    (start host store world).Settled host store := by
  let blankMachine : Machine ω :=
    ⟨⟨#[], store.functions, #[]⟩, 0, Table.empty, .start, #[], #[], world⟩
  have inside : Store.Embeds (.past store) store blankMachine.store store :=
    Store.embeds_behind store.closed_onlyFunctions blank store.adds_onlyFunctions
  exact ⟨rfl, _, _, _, over_renewed (s := start host store world) (m := blankMachine) built.closed
    built.initial (fun f _ => Embedding.past_function store f) (.refl store) inside rfl rfl rfl
    (Array.append_empty).symm (.refl _)⟩

theorem Settled.compile (h : s.Settled host store) (source : String) :
    (s.compile source).2.Settled host store := by
  have adds := h.adds
  obtain ⟨rfl, x, printed, globals, above⟩ := h
  obtain ⟨reported, hs⟩ := s.compile_session source
  rw [hs]
  generalize (TickScript.compile source s.host).distances = distances
  generalize compiled s.host source = program
  exact ⟨rfl, _, _, _, over_renewed (s := ⟨_, s.machine.reset s.host _, _, _, _, _⟩)
    built.closed built.initial (fun f _ => Embedding.past_function store f) adds
    above.machine.store rfl rfl rfl above.machine.console above.machine.clock⟩

theorem Settled.grant (outside : ∀ f ∈ host.functions, f.Outside)
    (pure : ∀ f ∈ host.functions, f.Pure) (h : s.Settled host store) {wish : Wish}
    (spares : wish.Spares store) : (s.grant wish).2.Settled host store := by
  by_cases follows : wish.Follows
  · obtain ⟨rfl, x, printed, globals, above⟩ := h
    obtain ⟨w, rfl, hw⟩ := Wish.exists_embed spares
    rw [above.served] at outside pure
    exact ⟨s.grant_host _, _, _, _, (above.grant outside pure (hw follows)).2⟩
  · cases wish with
    | assign name v => exact absurd trivial follows
    | deed d =>
      cases d with
      | compile source => exact h.compile built source
      | _ => exact absurd trivial follows

theorem Settled.granted (outside : ∀ f ∈ host.functions, f.Outside)
    (pure : ∀ f ∈ host.functions, f.Pure) : ∀ {wishes : List Wish} {s : Session ω},
    s.Settled host store → (∀ w ∈ wishes, w.Spares store) →
      (s.granted wishes).Settled host store := by
  intro wishes
  induction wishes with
  | nil => exact fun h _ => h
  | cons wish wishes ih =>
    intro s h spares
    exact ih (h.grant built outside pure (spares wish List.mem_cons_self))
      fun w hw => spares w (List.mem_cons_of_mem wish hw)

/-- A program that is compiled starts as in a session of its own that has nothing but what the
host had. -/
theorem Settled.renewed (blank : ∀ k ∈ store.functions, k.isScript = false)
    (h : s.Settled host store) (source : String) (seconds : Float) (world : ω) :
    (Session.renewed host (fun v => store.content v.initial)
        (TickScript.compile source host).distances (compiled host source)
        ⟨store.unscoped, 0, Table.empty, Clock.start.pin seconds, #[], #[], world⟩).Over
      ⟨.behind store s.machine.store, s.machine.store, s.machine.console, 0⟩
      ((s.compile source).2.pinDelta seconds) := by
  have adds := h.adds
  obtain ⟨rfl, -⟩ := h
  obtain ⟨reported, hs⟩ := s.compile_session source
  rw [hs]
  generalize (TickScript.compile source s.host).distances = distances
  generalize compiled s.host source = program
  exact over_renewed
    (s := pinDelta ⟨_, s.machine.reset s.host _, _, _, _, _⟩ seconds)
    (m := ⟨store.unscoped, 0, Table.empty, Clock.start.pin seconds, #[], #[], world⟩)
    built.closed built.initial (fun f hf => skip_of_lt _ hf) adds
    (Store.embeds_behind built.closed blank adds) rfl rfl rfl
    (Array.append_empty).symm (Clock.like_pin _ _ seconds)

end Host

end Session

/-- Recompiling forgets the past. The host was put together by registration in a store without
scripts, and its functions depend only on their arguments. It asks a session for anything in any
order, and writes its variables with new values and with values that there are. Then it asks to
compile a source text. This is answered as by a new session, with the same distances of variables.

If the host never wrote an array that it had at the beginning then these arrays are as they were,
and all that follows is answered as by the new session, up to the handles of functions, if the
time between frames is pinned to the same value in both. The lines that are printed are the same,
too. What follows are runs, ticks, reads, and writes with new values, with values that the host
had, and with values that were made since the compilation. The handles of the latter count from
the store of the host, so both sessions are given the same value, each in the place where it has
it. -/
theorem recompiling_forgets {host : Host ω} {store : Store} (built : host.Built store)
    (blank : ∀ k ∈ store.functions, k.isScript = false)
    (outside : ∀ f ∈ host.functions, f.Outside) (pure : ∀ f ∈ host.functions, f.Pure)
    (world world' : ω) (past : List Wish) (source : String) (seconds : Float)
    (future : List Wish) (follows : ∀ w ∈ future, w.Follows) :
    let aged := (Session.start host store world).granted past
    let fresh := Session.start host store world'
    let aged' := (aged.compile source).2.pinDelta seconds
    let fresh' := (fresh.compile source).2.pinDelta seconds
    let agedFuture := future.map (Wish.embed (.behind store aged.machine.store))
    let freshFuture := future.map (Wish.embed (.behind store fresh.machine.store))
    (aged.compile source).1 = (fresh.compile source).1 ∧
      aged'.machine.distances = fresh'.machine.distances ∧
      ((∀ w ∈ past, w.Spares store) →
        store.Adds aged.machine.store ∧
        (∀ v ∈ host.externals, aged.machine.store.content v.initial = store.content v.initial) ∧
        (aged'.answers agedFuture).map Answer.blind =
          (fresh'.answers freshFuture).map Answer.blind ∧
        (aged'.granted agedFuture).machine.console =
          aged.machine.console ++ (fresh'.granted freshFuture).machine.console) := by
  intro aged fresh aged' fresh' agedFuture freshFuture
  have new : fresh.Settled host store := Session.settled_start built blank world'
  have served : aged.host = host := Session.granted_host _ past
  refine ⟨?_, ?_, fun spares => ?_⟩
  · rw [Session.compile_answer, Session.compile_answer, served, new.served]
  · refine (aged.compile_distances source seconds).trans
      (Eq.trans ?_ (fresh.compile_distances source seconds).symm)
    rw [served, new.served]
  · have settled : aged.Settled host store :=
      (Session.settled_start built blank world).granted built outside pure spares
    -- One session that has nothing but what the host had lies inside of both.
    have agedOver := settled.renewed built blank source seconds world
    have freshOver := new.renewed built blank source seconds world
    obtain ⟨agedAnswers, agedAfter⟩ := agedOver.answers outside pure rfl follows
    obtain ⟨freshAnswers, freshAfter⟩ := freshOver.answers outside pure rfl follows
    refine ⟨settled.adds, fun v hv => settled.adds.content built.closed (built.initial v hv),
      agedAnswers.trans freshAnswers.symm, ?_⟩
    have printed : (fresh'.granted freshFuture).machine.console = _ := freshAfter.machine.console
    rw [printed]
    show _ = _ ++ (#[] ++ _)
    rw [Array.empty_append]
    exact agedAfter.machine.console

/-- A function that makes arrays and counts them. -/
def HostFunction.list : HostFunction Nat :=
  ⟨"list", ⟨[.int, .int], .array .int⟩, fun values s w =>
    ⟨some (.array (s.newArray values.toArray).1), (s.newArray values.toArray).2, w + 1, []⟩⟩

theorem HostFunction.pure_list : HostFunction.list.Pure := by
  intro ρ base s t values w w' inside
  obtain ⟨made, inside⟩ := inside.newArray values.toArray
  rw [List.map_toArray] at made inside
  exact ⟨congrArg (fun a => some (Value.array a)) made, inside, rfl⟩

theorem HostFunction.outside_list : HostFunction.list.Outside where
  scopes _ _ _ := rfl
  functions _ _ _ := ⟨#[], Array.append_empty.symm, fun _ h => absurd h (Array.not_mem_empty _)⟩

/-- A host with an array and a function that makes arrays. -/
def Host.making : Host Nat :=
  ⟨[⟨"xs", .array .int, .array 0⟩], [.list]⟩

/-- A program that writes the array of its host in two ways before it fails. -/
def spoilingSource : String :=
  "void Main() { } xs[0] = 9; xs = list(xs[0], 4); int n = 1 / 0;"

/-- A program that makes a new array of the old one. -/
def makingSource : String :=
  "void Main() { xs = list(xs[1], xs[0] + 1); }"

/-- What the host of these sessions had at the beginning. -/
def makingStore : Store :=
  ⟨#[#[.int 1, .int 2]], #[], #[]⟩

theorem Host.making_built : Host.making.Built makingStore := by
  obtain ⟨closed, grows⟩ : Store.Closed makingStore ∧ Store.Grows .empty makingStore :=
    @Store.Closed.newArray .empty Store.closed_empty #[.int 1, .int 2] (by simp [Store.Has])
  have first : Host.Built ⟨Host.making.externals, []⟩ makingStore :=
    @Host.Built.variable Nat _ _ _ _ "xs" (.array .int) (.array 0) (.empty closed)
      Nat.zero_lt_one rfl
  exact @Host.Built.function _ _ _ _ .list first rfl

/-- A program that fails, a write that is refused, and one with an array that was left. -/
def spoilingWishes : List Wish :=
  [.deed (.compile spoilingSource), .deed (.run 5),
    .deed (.setVariable "xs" (.array [.int 5, .function 0 "print"])), .assign "xs" (.array 2)]

/-- Work on the array of the host, and on new ones. -/
def makingWishes : List Wish :=
  [.deed (.run 5), .assign "xs" (.array 0), .deed (.tick 5 2),
    .deed (.setVariable "xs" (.array [])), .deed (.tick 5 2), .deed (.variable "xs")]

/-- After a program that failed, a write that was refused and one with an array that an earlier
program had left, `xs` is not what it was. The next program does not see it, and it may work on
the very array of the host. -/
theorem recompiling_forgets_failed_program :
    let start := Session.start Host.making makingStore
    let aged := (start 0).granted spoilingWishes
    (Session.present aged.machine "xs").same (.array [.int 9, .int 2]) = true ∧
      (((aged.compile makingSource).2.pinDelta 1).answers
          (makingWishes.map (Wish.embed (.behind makingStore aged.machine.store)))).map
            Answer.blind =
        ((((start 3).compile makingSource).2.pinDelta 1).answers
          (makingWishes.map (Wish.embed (.behind makingStore (start 3).machine.store)))).map
            Answer.blind := by
  have outside : ∀ f ∈ Host.making.functions, f.Outside := by
    intro f hf
    rw [Host.making, List.mem_singleton] at hf
    subst hf
    exact HostFunction.outside_list
  have pure : ∀ f ∈ Host.making.functions, f.Pure := by
    intro f hf
    rw [Host.making, List.mem_singleton] at hf
    subst hf
    exact HostFunction.pure_list
  have spares : ∀ w ∈ spoilingWishes, w.Spares makingStore := by
    simp [spoilingWishes, Wish.Spares, makingStore]
  have follows : ∀ w ∈ makingWishes, w.Follows := by
    simp [makingWishes, Wish.Follows]
  exact ⟨by decide +kernel, ((recompiling_forgets Host.making_built (by simp [makingStore]) outside
    pure 0 3 spoilingWishes makingSource 1 makingWishes follows).2.2 spares).2.2.1⟩

/-- The host writes `xs` with the array that it registered, and the program of the first session
changes it. The next program starts with the changed array, and that of a new session does
not. -/
theorem recompiling_remembers_registered_array :
    let start := Session.start Host.making makingStore 0
    let aged := start.granted
      [.deed (.compile "xs[0] = 9;"), .assign "xs" (.array 0), .deed (.run 5)]
    Host.making.Built makingStore ∧
      (Session.present (aged.compile "").2.machine "xs").same (.array [.int 9, .int 2]) = true ∧
      (Session.present (start.compile "").2.machine "xs").same (.array [.int 1, .int 2]) = true ∧
      (aged.machine.store.content (.array 0)).same (.array [.int 9, .int 2]) = true :=
  ⟨Host.making_built, by decide +kernel, by decide +kernel, by decide +kernel⟩

end TickScript
