import Mathlib.Logic.Function.Basic
import TickScript.Proofs.Closed.Run
import TickScript.Proofs.Copies
import TickScript.Proofs.Frames
import TickScript.Session

/-!
# What a host is told

A host asks a session to compile sources, to run and tick the program, and to write variables,
in any order, and each of this can fail. A host that listens keeps a view of its variables: it
starts with the initial values, and again when it compiles; it knows what it writes itself; and
it is told of changes. This view is always what the session takes the host to know. So each
change starts from what the host knows, and after a run or tick that succeeds the host knows
every variable, whatever has failed before.
-/

namespace TickScript

variable {ω : Type}

/-! ## Deeds and answers -/

/-- What a host can ask of a session. A value for a variable is built for it. -/
inductive Deed where
  | compile (source : String)
  | run (fuel : Nat)
  | tick (fuel : Nat) (elapsed : Float)
  | setVariable (name : String) (content : Content)
  | variable (name : String)

/-- What a session answers. -/
inductive Answer where
  | compiled (result : Except (List Diagnostic) Unit)
  | passed (result : Except SessionError (List Change))
  | written (result : Except SessionError Unit)
  | shown (content : Option Content)

namespace Session

/-- A variable of the host is to be written with a new value. -/
def offer (s : Session ω) (name : String) (content : Content) :
    Except SessionError Unit × Session ω :=
  { s with machine := { s.machine with store := (s.machine.store.build content).2 } }.setVariable
    name (s.machine.store.build content).1

/-- A variable of the host is written with a new value. One that is refused is dropped, and
nothing else has changed (`offer_refused`). -/
def writeNew (s : Session ω) (name : String) (content : Content) :
    Except SessionError Unit × Session ω :=
  match s.offer name content with
  | (.ok _, written) => (.ok (), written)
  | (.error e, _) => (.error e, s)

/-- All that is left of a value that was refused is arrays that nothing else refers to. -/
theorem offer_refused (s : Session ω) (typed : ∀ v ∈ s.host.externals, v.type.isWild = false)
    {name : String} {content : Content} {e : SessionError} {t : Session ω}
    (h : s.offer name content = (.error e, t)) :
    t = { s with machine := { s.machine with store := t.machine.store } } ∧
      s.machine.store.Extends t.machine.store := by
  unfold offer setVariable at h
  cases he : s.host.external? name with
  | none =>
    simp only [he] at h
    cases h
    exact ⟨rfl, (Store.build_extends content s.machine.store).1⟩
  | some external =>
    have fitted := Store.coerce_build s.machine.store content
      (typed external (List.mem_of_find?_eq_some he))
    simp only [he, Machine.assignGlobal, Store.assign, Store.assignIn, Token.synthetic] at h
    cases hn : (s.machine.store.build content).2.nearest? name s.machine.globals with
    | none =>
      simp only [hn] at h
      cases h
      exact ⟨rfl, (Store.build_extends content s.machine.store).1⟩
    | some scope =>
      cases hc : Store.coerce external.type (s.machine.store.build content).1
          (s.machine.store.build content).2 with
      | ok w u =>
        simp only [hn, hc] at h
        cases h
      | error m u =>
        rw [hc] at fitted
        simp only [hn, hc] at h
        cases h
        exact ⟨rfl, fitted⟩

/-- The session does as it is asked. -/
def act (s : Session ω) : Deed → Answer × Session ω
  | .compile source => (.compiled (s.compile source).1, (s.compile source).2)
  | .run fuel => (.passed (s.run fuel).1, (s.run fuel).2)
  | .tick fuel elapsed => (.passed (s.tick fuel elapsed).1, (s.tick fuel elapsed).2)
  | .setVariable name content =>
    (.written (s.writeNew name content).1, (s.writeNew name content).2)
  | .variable name => (.shown (s.content? name), s)

/-- A session keeps its host. -/
theorem enter_host (s : Session ω) (fuel : Nat) (name : String) :
    (s.enter fuel name).2.host = s.host := by
  unfold Session.enter
  split
  · cases s.machine.evaluate s.host fuel (.globalCall name) with
    | mk result machine => cases result <;> rfl
  · rfl

theorem act_host (s : Session ω) (deed : Deed) : (s.act deed).2.host = s.host := by
  cases deed with
  | compile source =>
    show (s.compile source).2.host = s.host
    unfold Session.compile
    dsimp only
    split <;> rfl
  | run fuel =>
    show (s.run fuel).2.host = s.host
    unfold Session.run
    cases s.program with
    | none => rfl
    | some statements =>
      dsimp only
      cases s.machine.interpret s.host fuel statements with
      | mk result machine =>
        cases result with
        | ok v => exact enter_host _ fuel setupName
        | error i => rfl
  | tick fuel elapsed =>
    show (s.tick fuel elapsed).2.host = s.host
    unfold Session.tick
    split
    · exact enter_host _ fuel mainName
    · rfl
  | setVariable name content =>
    show (s.writeNew name content).2.host = s.host
    have kept : (s.offer name content).2.host = s.host := by
      unfold Session.offer Session.setVariable
      dsimp only
      cases s.host.external? name with
      | none => rfl
      | some external =>
        dsimp only
        split <;> rfl
    unfold Session.writeNew
    cases ho : s.offer name content with
    | mk result written =>
      rw [ho] at kept
      cases result with
      | ok => exact kept
      | error e => rfl
  | «variable» name => rfl

/-- The session after some deeds. -/
def after (s : Session ω) : List Deed → Session ω
  | [] => s
  | d :: ds => (s.act d).2.after ds

/-- The host mentions only functions that there are. -/
def Possible (s : Session ω) : Deed → Prop
  | .setVariable _ content => s.machine.store.Mentions content
  | _ => True

/-- The host never mentions a function that there is not. -/
def AllPossible (s : Session ω) : List Deed → Prop
  | [] => True
  | d :: ds => s.Possible d ∧ (s.act d).2.AllPossible ds

end Session

/-! ## Views -/

/-- What a host knows of its variables. -/
abbrev View := String → Content

/-- What is seen of the initial values. -/
def Host.initialView (host : Host ω) (s : Store) : View := fun name =>
  match host.external? name with
  | some v => s.content v.initial
  | none => .nil

/-- The host is told of changes. -/
def View.tell (V : View) (changes : List Change) : View :=
  changes.foldl (fun V change => Function.update V change.name change.current) V

/-- What a host knows after a deed and its answer. Before the deed the store was `s`. -/
def View.hear (V : View) (host : Host ω) (s : Store) : Deed → Answer → View
  | .compile _, _ => host.initialView s
  | .setVariable name content, .written (.ok _) =>
    match host.external? name with
    | some v => Function.update V name (content.fit v.type)
    | none => V
  | _, .passed (.ok changes) => V.tell changes
  | _, _ => V

/-- What the host of a session knows after some deeds. -/
def Session.view (s : Session ω) (V : View) : List Deed → View
  | [] => V
  | d :: ds => (s.act d).2.view (V.hear s.host s.machine.store d (s.act d).1) ds

/-! ## Contents without NaN -/

namespace Content

mutual

/-- No double in the content is a NaN. -/
def Regular : Content → Prop
  | .float x => (x == x) = true
  | .array items => RegularAll items
  | _ => True

def RegularAll : List Content → Prop
  | [] => True
  | c :: cs => c.Regular ∧ RegularAll cs

end

mutual

/-- A content without NaN equals itself. -/
theorem same_self : (c : Content) → c.Regular → c.same c = true
  | .int n, _ => beq_self_eq_true n
  | .float _, h => h
  | .bool b, _ => beq_self_eq_true b
  | .array items, h => sameAll_self items h
  | .function f _, _ => beq_self_eq_true f
  | .nil, _ => rfl

theorem sameAll_self : (cs : List Content) → RegularAll cs → sameAll cs cs = true
  | [], _ => rfl
  | c :: cs, h => by
    rw [sameAll, same_self c h.1, sameAll_self cs h.2]
    rfl

end

end Content

/-! ## Comparing -/

namespace Session

/-- What the host knows of a variable after a comparison. -/
def refreshed (m : Machine ω) (name : String) (previous : Content) : Content :=
  if (present m name).same previous then previous else present m name

/-- Comparing goes through what was known in order. -/
theorem compareKnown_known (m : Machine ω) : ∀ known : List (String × Content),
    (compareKnown m known).2 = known.map fun entry => (entry.1, refreshed m entry.1 entry.2)
  | [] => rfl
  | (name, previous) :: rest => by
    have ih := compareKnown_known m rest
    simp only [compareKnown, List.map_cons, refreshed]
    split
    · rw [ih]
      rfl
    · rw [ih]
      rfl

theorem compareKnown_names (m : Machine ω) : ∀ known : List (String × Content),
    ((compareKnown m known).1.map Change.name).Sublist (known.map Prod.fst)
  | [] => .slnil
  | (name, previous) :: rest => by
    have ih := compareKnown_names m rest
    simp only [compareKnown, List.map_cons]
    split
    · exact ih.cons name
    · exact ih.cons_cons name

theorem compareKnown_changes (m : Machine ω) : ∀ known : List (String × Content),
    ∀ change ∈ (compareKnown m known).1, (change.name, change.previous) ∈ known ∧
      change.current.same change.previous = false
  | [], change, h => nomatch h
  | (name, previous) :: rest, change, h => by
    have ih := compareKnown_changes m rest
    simp only [compareKnown] at h
    split at h
    · exact (ih change h).imp_left (List.mem_cons_of_mem _)
    · next hs =>
      rcases List.mem_cons.1 h with rfl | h
      · exact ⟨List.mem_cons_self, Bool.not_eq_true _ ▸ hs⟩
      · exact (ih change h).imp_left (List.mem_cons_of_mem _)

end Session

theorem View.tell_of_not_mem (V : View) (name : String) : ∀ changes : List Change,
    name ∉ changes.map Change.name → V.tell changes name = V name := by
  intro changes
  induction changes generalizing V with
  | nil => exact fun _ => rfl
  | cons change rest ih =>
    intro h
    rw [List.map_cons, List.mem_cons, not_or] at h
    show View.tell (Function.update V change.name change.current) rest name = V name
    rw [ih _ h.2, Function.update_of_ne h.1]

/-- The host that is told of a comparison knows what the session takes it to know. -/
theorem View.tell_compareKnown (m : Machine ω) : ∀ (names : List String) (V : View),
    names.Nodup → ∀ name ∈ names,
      V.tell (Session.compareKnown m (names.map fun n => (n, V n))).1 name =
        Session.refreshed m name (V name)
  | [], _, _ => by simp
  | first :: names, V, hn => by
    rw [List.nodup_cons] at hn
    have later : ∀ W : View, (∀ n ∈ names, W n = V n) → ∀ name ∈ names,
        W.tell (Session.compareKnown m (names.map fun n => (n, V n))).1 name =
          Session.refreshed m name (V name) := by
      intro W hW name hname
      rw [List.map_congr_left (g := fun n => (n, W n)) fun n hm => by rw [hW n hm]]
      rw [View.tell_compareKnown m names W hn.2 name hname, hW name hname]
    have others : first ∉
        (Session.compareKnown m (names.map fun n => (n, V n))).1.map Change.name := by
      intro hm
      have := (Session.compareKnown_names m _).subset hm
      rw [List.map_map] at this
      obtain ⟨n, hmem, rfl⟩ := List.mem_map.1 this
      exact hn.1 hmem
    intro name hname
    simp only [List.map_cons, Session.compareKnown]
    by_cases hs : (Session.present m first).same (V first) = true
    · rw [if_pos hs]
      rcases List.mem_cons.1 hname with rfl | hname
      · rw [View.tell_of_not_mem V _ _ others, Session.refreshed, if_pos hs]
      · exact later V (fun _ _ => rfl) name hname
    · rw [if_neg hs]
      show View.tell (Function.update V first (Session.present m first)) _ name = _
      rcases List.mem_cons.1 hname with rfl | hname
      · rw [View.tell_of_not_mem _ _ _ others, Function.update_self, Session.refreshed, if_neg hs]
      · refine later _ (fun n hm => Function.update_of_ne ?_ _ _) name hname
        exact fun e => hn.1 (e ▸ hm)

/-! ## Mirrors -/

/-- A change list tells a host that knows `V` what has become of its variables in `s`. -/
structure Told (host : Host ω) (V : View) (s : Session ω) (changes : List Change) : Prop where
  order : (changes.map Change.name).Sublist (host.externals.map HostVariable.name)
  previous : ∀ change ∈ changes, change.previous = V change.name
  differs : ∀ change ∈ changes, change.current.same change.previous = false
  current : ∀ v ∈ host.externals, ∃ c, s.content? v.name = some c ∧
    (c.Regular → c.same (V.tell changes v.name) = true)

/-- The names of the host are its own, its variables have types, and its functions work on
values that there are. -/
structure Host.Proper (host : Host ω) : Prop where
  distinct : host.names.Nodup
  apart : ∀ n ∈ host.names, n ∉ Builtin.all.map Builtin.name
  data : ∀ v ∈ host.externals, v.type.isWild = false
  outside : ∀ f ∈ host.functions, f.Outside
  honest : ∀ f ∈ host.functions, f.Honest

namespace Session

/-- The session takes its host to know `V`. -/
structure Mirrors (host : Host ω) (V : View) (s : Session ω) : Prop where
  served : s.host = host
  known : s.known = host.externals.map fun v => (v.name, V v.name)
  closed : s.machine.store.Closed
  bound : ∀ v ∈ host.externals, s.machine.store.binds s.machine.globals v.name = true
  initial : ∀ v ∈ host.externals, s.machine.store.Has v.initial

variable {host : Host ω} {V : View} {s : Session ω}

/-- A request to the machine changes nothing that the host knows. -/
theorem Mirrors.serve (proper : host.Proper) (h : s.Mirrors host V) (statements : List Stmt)
    (fuel : Nat) (request : Request ω) (given : request.Given s.machine.store) :
    { s with machine := (s.machine.serve host statements fuel request).2 }.Mirrors host V := by
  have steady := steady_kept proper.outside .everything
  obtain ⟨closed, grows⟩ := Machine.closed_serve proper.honest h.closed statements fuel given
  obtain ⟨-, kept, hg⟩ := Machine.keeps_serve steady (Permits.each_everything statements)
    (fun _ _ => trivial) (Store.bodies_everything _) fun ev _ => ev.spares_nothing
  refine ⟨h.served, h.known, closed, fun v hv => ?_, fun v hv => (h.initial v hv).grows grows⟩
  rw [hg]
  exact kept.still _ _ (h.bound v hv)

/-- A variable of the host has a content. -/
theorem Mirrors.content (h : s.Mirrors host V) {v : HostVariable} (hv : v ∈ host.externals) :
    s.content? v.name = some (present s.machine v.name) := by
  obtain ⟨w, hw⟩ := Store.binds_iff.1 (h.bound v hv)
  have hc : s.machine.content? v.name = some (s.machine.store.content w) := by
    rw [Machine.content?, Machine.global?, hw, Option.map_some]
  rw [content?, present, hc, Option.getD_some]

/-- The host is told what has changed, and then the session takes it to know this. -/
theorem Mirrors.poll (proper : host.Proper) (h : s.Mirrors host V) :
    Told host V s.poll.2 s.poll.1 ∧ s.poll.2.Mirrors host (V.tell s.poll.1) := by
  have names : (host.externals.map HostVariable.name).Nodup :=
    (List.nodup_append.1 proper.distinct).1
  have hknown : s.known = (host.externals.map HostVariable.name).map fun n => (n, V n) := by
    rw [h.known, List.map_map]
    rfl
  have told : ∀ v ∈ host.externals,
      V.tell s.poll.1 v.name = refreshed s.machine v.name (V v.name) := by
    intro v hv
    show V.tell (compareKnown s.machine s.known).1 v.name = _
    rw [hknown]
    exact View.tell_compareKnown s.machine _ V names v.name (List.mem_map_of_mem hv)
  refine ⟨⟨?_, ?_, ?_, ?_⟩, ⟨h.served, ?_, h.closed, h.bound, h.initial⟩⟩
  · have order := compareKnown_names s.machine s.known
    rw [h.known, List.map_map] at order
    rw [← h.known] at order
    exact order
  · intro change hc
    obtain ⟨hmem, -⟩ := compareKnown_changes s.machine s.known change hc
    rw [h.known] at hmem
    obtain ⟨v, -, e⟩ := List.mem_map.1 hmem
    rw [← (Prod.mk.inj e).1, (Prod.mk.inj e).2]
  · exact fun change hc => (compareKnown_changes s.machine s.known change hc).2
  · intro v hv
    refine ⟨_, h.content hv, fun hr => ?_⟩
    rw [told v hv, refreshed]
    split
    · assumption
    · exact Content.same_self _ hr
  · show (compareKnown s.machine s.known).2 = _
    rw [compareKnown_known, h.known, List.map_map]
    refine List.map_congr_left fun v hv => ?_
    rw [told v hv]
    rfl

/-- What a run or tick comes to: the host is told what has changed, or it fails and nothing is
told. -/
def Reports (host : Host ω) (V : View) : Except SessionError (List Change) × Session ω → Prop
  | (.ok changes, s) => Told host V s changes ∧ s.Mirrors host (V.tell changes)
  | (.error _, s) => s.Mirrors host V

theorem Reports.heard {result : Except SessionError (List Change) × Session ω}
    (h : Reports host V result) {hear : Answer → View}
    (ok : ∀ changes, hear (.passed (.ok changes)) = V.tell changes)
    (error : ∀ e, hear (.passed (.error e)) = V) :
    result.2.Mirrors host (hear (.passed result.1)) ∧
      ∀ changes, Answer.passed result.1 = .passed (.ok changes) →
        Told host V result.2 changes := by
  obtain ⟨answer, s'⟩ := result
  cases answer with
  | ok changes =>
    rw [ok]
    refine ⟨h.2, fun changes' e => ?_⟩
    cases e
    exact h.1
  | error e =>
    rw [error]
    exact ⟨h, fun _ h => nomatch h⟩

theorem Mirrors.enter (proper : host.Proper) (h : s.Mirrors host V) (fuel : Nat)
    (name : String) : Reports host V (s.enter fuel name) := by
  obtain rfl := h.served
  unfold Session.enter
  split
  · have served := h.serve proper [] fuel (.call name) trivial
    cases hr : s.machine.evaluate s.host fuel (.globalCall name) with
    | mk result machine =>
      have hm : (s.machine.serve s.host [] fuel (.call name)).2 = machine := congrArg Prod.snd hr
      rw [hm] at served
      cases result with
      | ok v => exact served.poll proper
      | error i => exact served
  · exact h.poll proper

theorem Mirrors.run (proper : host.Proper) (h : s.Mirrors host V) (fuel : Nat) :
    Reports host V (s.run fuel) := by
  obtain rfl := h.served
  unfold Session.run
  cases hp : s.program with
  | none => exact h
  | some statements =>
    have served := h.serve proper statements fuel .interpret trivial
    dsimp only
    cases hr : s.machine.interpret s.host fuel statements with
    | mk result machine =>
      have hm : (s.machine.serve s.host statements fuel .interpret).2 = machine :=
        congrArg Prod.snd hr
      rw [hm, hp] at served
      cases result with
      | ok v => exact served.enter proper fuel setupName
      | error i => exact served

theorem Mirrors.tick (proper : host.Proper) (h : s.Mirrors host V) (fuel : Nat)
    (elapsed : Float) : Reports host V (s.tick fuel elapsed) := by
  unfold Session.tick
  split
  · have begun : { s.beginFrame elapsed with ticks := s.ticks + 1 }.Mirrors host V :=
      ⟨h.served, h.known, h.closed, h.bound, h.initial⟩
    exact begun.enter proper fuel mainName
  · exact h

/-- With a new outermost scope the host knows the initial values. -/
theorem mirrors_observe (proper : host.Proper) {store : Store} (closed : store.Closed)
    (initial : ∀ v ∈ host.externals, store.Has v.initial) (served : s.host = host)
    (hs : s.machine.store = (Machine.newGlobals host store).2)
    (hg : s.machine.globals = store.scopes.size) (known : s.known = observe host s.machine) :
    s.Mirrors host (host.initialView store) := by
  obtain ⟨adds, shown⟩ :=
    Machine.content_newGlobals closed proper.distinct proper.apart initial
  refine ⟨served, ?_, ?_, ?_, ?_⟩
  · rw [known, observe]
    refine List.map_congr_left fun v hv => ?_
    obtain ⟨w, hw, hcontent⟩ := shown v hv
    rw [present, Machine.content?, Machine.global?, hs, hg, hw, Option.map_some, Option.getD_some,
      hcontent, Host.initialView, Host.external?_of_mem proper.distinct hv]
  · rw [hs]
    exact Machine.closed_newGlobals closed
  · intro v hv
    obtain ⟨w, hw, -⟩ := shown v hv
    rw [hs, hg]
    exact Store.binds_iff.2 ⟨w, hw⟩
  · intro v hv
    rw [hs]
    exact (initial v hv).grows adds.grows

theorem Mirrors.compile (proper : host.Proper) (h : s.Mirrors host V) (source : String) :
    (s.compile source).2.Mirrors host (host.initialView s.machine.store) := by
  obtain rfl := h.served
  unfold Session.compile
  dsimp only
  split
  · exact mirrors_observe proper h.closed h.initial rfl rfl rfl rfl
  · exact mirrors_observe proper h.closed h.initial rfl rfl rfl rfl

/-- What the host writes it knows. -/
theorem learn_map (name : String) (c : Content) : ∀ names : List String, names.Nodup →
    learn name c (names.map fun n => (n, V n)) =
      names.map fun n => (n, Function.update V name c n)
  | [], _ => rfl
  | first :: names, hn => by
    rw [List.nodup_cons] at hn
    rw [List.map_cons, List.map_cons, learn]
    by_cases he : first = name
    · subst he
      rw [if_pos rfl, Function.update_self]
      congr 1
      refine List.map_congr_left fun n hm => ?_
      have hne : n ≠ first := fun e => hn.1 (e ▸ hm)
      rw [Function.update_of_ne hne]
    · rw [if_neg he, Function.update_of_ne he, learn_map name c names hn.2]

/-- Only the store has changed, and in it only arrays. -/
theorem Mirrors.of_arrays (h : s.Mirrors host V) {store : Store} (closed : store.Closed)
    (grows : s.machine.store.Grows store) (hs : store.scopes = s.machine.store.scopes) :
    { s with machine := { s.machine with store } }.Mirrors host V := by
  refine ⟨h.served, h.known, closed, fun v hv => ?_, fun v hv => (h.initial v hv).grows grows⟩
  show store.binds s.machine.globals v.name = true
  rw [Store.binds, Store.lookup, hs]
  exact h.bound v hv

theorem Mirrors.write (proper : host.Proper) (h : s.Mirrors host V) (name : String)
    {content : Content} (possible : s.machine.store.Mentions content) :
    (s.writeNew name content).2.Mirrors host
      (V.hear host s.machine.store (.setVariable name content)
        (.written (s.writeNew name content).1)) := by
  obtain rfl := h.served
  obtain ⟨closed, grows, hv⟩ := Store.Closed.build content h.closed possible
  have frame := (Store.build_frame content s.machine.store).1
  unfold writeNew offer setVariable
  cases he : s.host.external? name with
  | none => exact h
  | some external =>
    have hmem : external ∈ s.host.externals := List.mem_of_find?_eq_some he
    have hname : external.name = name := by
      have := List.find?_some he
      exact eq_of_beq this
    subst hname
    have hbound : (s.machine.store.build content).2.binds s.machine.globals external.name = true := by
      rw [Store.binds, Store.lookup, frame]
      exact h.bound external hmem
    dsimp only [Machine.assignGlobal, Store.assign, Store.assignIn, Token.synthetic]
    rw [Store.nearest?_of_binds hbound]
    dsimp only
    have fitted := closed.coerce hv external.type
    have coerced := Store.coerce_frame external.type (s.machine.store.build content).1
      (s.machine.store.build content).2
    cases hr : Store.coerce external.type (s.machine.store.build content).1
        (s.machine.store.build content).2 with
    | error m t => exact h
    | ok w t =>
      rw [hr] at fitted
      obtain ⟨closed', grows', hw⟩ := fitted
      obtain ⟨bound, more⟩ := closed'.bind s.machine.globals external.name hw
      have arrays := h.of_arrays closed' (grows.trans grows') ((coerced.1 w t hr).1.trans frame)
      have adds : t.Adds (t.bind s.machine.globals external.name w) := .of_frame rfl rfl
      have shown : (t.bind s.machine.globals external.name w).content w =
          content.fit external.type := by
        rw [adds.content closed' hw]
        exact Store.content_fitted (proper.data external hmem) hr
      refine ⟨rfl, ?_, bound, ?_, ?_⟩
      · show learn _ (Store.content _ w) s.known = _
        rw [shown, h.known]
        have learned := learn_map (V := V) external.name (content.fit external.type)
          (s.host.externals.map HostVariable.name) (List.nodup_append.1 proper.distinct).1
        rw [List.map_map, List.map_map] at learned
        simp only [View.hear, he]
        exact learned
      · intro v hv
        exact (Store.binds_bind (Store.lt_of_binds (arrays.bound external hmem))).2
          (.inr (arrays.bound v hv))
      · exact fun v hv => (arrays.initial v hv).grows more

/-- Whatever the session is asked for, it goes on to know what its host knows. -/
theorem Mirrors.act (proper : host.Proper) (h : s.Mirrors host V) (deed : Deed)
    (possible : s.Possible deed) :
    (s.act deed).2.Mirrors host (V.hear host s.machine.store deed (s.act deed).1) ∧
      ∀ changes, (s.act deed).1 = .passed (.ok changes) →
        Told host V (s.act deed).2 changes := by
  cases deed with
  | compile source => exact ⟨h.compile proper source, fun _ h => nomatch h⟩
  | run fuel => exact (h.run proper fuel).heard (fun _ => rfl) (fun _ => rfl)
  | tick fuel elapsed => exact (h.tick proper fuel elapsed).heard (fun _ => rfl) (fun _ => rfl)
  | setVariable name content => exact ⟨h.write proper name possible, fun _ h => nomatch h⟩
  | «variable» name => exact ⟨h, fun _ h => nomatch h⟩

theorem Mirrors.after (proper : host.Proper) (deeds : List Deed) :
    ∀ {s : Session ω} {V : View}, s.Mirrors host V → s.AllPossible deeds →
      (s.after deeds).Mirrors host (s.view V deeds) := by
  induction deeds with
  | nil => exact fun h _ => h
  | cons deed deeds ih =>
    intro s V h possible
    rw [Session.after, Session.view, h.served]
    exact ih (h.act proper deed possible.1).1 possible.2

end Session

/-- Change lists mirror the variables of the host. The host was put together by registration,
none of its names is built in, and its functions work on the values that there are. It asks a
session for anything in any order, and keeps a view `V` of its variables.

If it then asks for a run or a tick that succeeds, the changes it is told come in the order of
registration, at most one for each variable; each starts from what the host knew and is a
difference; and then the host knows the present value of every variable, as far as a value can
equal itself. -/
theorem changes_mirror_variables {host : Host ω} {store : Store} {world : ω}
    (built : host.Built store) (apart : ∀ n ∈ host.names, n ∉ Builtin.all.map Builtin.name)
    (outside : ∀ f ∈ host.functions, f.Outside) (honest : ∀ f ∈ host.functions, f.Honest)
    (deeds : List Deed) (possible : (Session.start host store world).AllPossible deeds)
    (deed : Deed) (now : ((Session.start host store world).after deeds).Possible deed)
    (changes : List Change)
    (told : (((Session.start host store world).after deeds).act deed).1 = .passed (.ok changes)) :
    (changes.map Change.name).Sublist (host.externals.map HostVariable.name) ∧
      (changes.map Change.name).Nodup ∧
      (∀ change ∈ changes,
        change.previous =
            (Session.start host store world).view (host.initialView store) deeds change.name ∧
          change.current.same change.previous = false) ∧
      ∀ v ∈ host.externals, ∃ c,
        (((Session.start host store world).after deeds).act deed).2.content? v.name = some c ∧
          (c.Regular → c.same (((Session.start host store world).view (host.initialView store)
            deeds).tell changes v.name) = true) := by
  have proper : host.Proper :=
    ⟨built.distinct, apart, fun v hv => (built.data v hv).1, outside, honest⟩
  have started : (Session.start host store world).Mirrors host (host.initialView store) :=
    Session.mirrors_observe proper built.closed built.initial rfl rfl rfl rfl
  have report := ((started.after proper deeds possible).act proper deed now).2 changes told
  have names := (List.nodup_append.1 built.distinct).1
  exact ⟨report.order, report.order.nodup names,
    fun change hc => ⟨report.previous change hc, report.differs change hc⟩, report.current⟩

/-- A host with a number and an array. -/
def Host.lives : Host Unit :=
  ⟨[⟨"lives", .int, .int 3⟩, ⟨"xs", .array .int, .array 0⟩], []⟩

/-- A program that writes both variables of its host before it fails. -/
def failingSource : String :=
  "void Main() { lives = lives - 1; } lives = 4; xs[0] = 9; int n = 1 / 0;"

/-- The names of the changes that are told. -/
def Answer.changed : Answer → List String
  | .passed (.ok changes) => changes.map Change.name
  | _ => []

/-- The program fails, and the host writes one of its variables. The next tick tells what has
become of both. -/
theorem changes_mirror_variables_failing :
    ∃ changes,
      (((Session.start Host.lives ⟨#[#[.int 1, .int 2]], #[], #[]⟩ ()).after
        [.compile failingSource, .run 5, .setVariable "lives" (.int 7)]).act (.tick 5 0)).1 =
          .passed (.ok changes) ∧
      changes.map Change.name = ["lives", "xs"] ∧
      ∀ change ∈ changes,
        change.previous =
            (Session.start Host.lives ⟨#[#[.int 1, .int 2]], #[], #[]⟩ ()).view
              (Host.lives.initialView ⟨#[#[.int 1, .int 2]], #[], #[]⟩)
              [.compile failingSource, .run 5, .setVariable "lives" (.int 7)] change.name ∧
          change.current.same change.previous = false := by
  obtain ⟨closed, -⟩ : Store.Closed ⟨#[#[.int 1, .int 2]], #[], #[]⟩ ∧
      Store.Grows .empty ⟨#[#[.int 1, .int 2]], #[], #[]⟩ :=
    @Store.Closed.newArray .empty Store.closed_empty #[.int 1, .int 2] (by simp [Store.Has])
  have built : Host.lives.Built ⟨#[#[.int 1, .int 2]], #[], #[]⟩ :=
    @Host.Built.variable _ _ _ _ _ "xs" (.array .int) (.array 0)
      (@Host.Built.variable _ _ _ _ _ "lives" .int (.int 3) (.empty closed) trivial rfl)
      Nat.zero_lt_one rfl
  have possible : (Session.start Host.lives ⟨#[#[.int 1, .int 2]], #[], #[]⟩ ()).AllPossible
      [.compile failingSource, .run 5, .setVariable "lives" (.int 7)] :=
    ⟨trivial, trivial, trivial, trivial⟩
  have apart : ∀ n ∈ Host.lives.names, n ∉ Builtin.all.map Builtin.name := by decide
  have happens : (((Session.start Host.lives ⟨#[#[.int 1, .int 2]], #[], #[]⟩ ()).after
      [.compile failingSource, .run 5, .setVariable "lives" (.int 7)]).act
        (.tick 5 0)).1.changed = ["lives", "xs"] := by decide +kernel
  cases ha : (((Session.start Host.lives ⟨#[#[.int 1, .int 2]], #[], #[]⟩ ()).after
      [.compile failingSource, .run 5, .setVariable "lives" (.int 7)]).act (.tick 5 0)).1 with
  | passed result =>
    cases result with
    | ok changes =>
      rw [ha] at happens
      have mirrored := changes_mirror_variables built apart (by simp [Host.lives])
        (by simp [Host.lives]) _ possible (.tick 5 0) trivial changes ha
      exact ⟨changes, rfl, happens, mirrored.2.2.1⟩
    | error e =>
      rw [ha] at happens
      cases happens
  | _ =>
    rw [ha] at happens
    cases happens

end TickScript
