import Mathlib.Data.List.Basic
import TickScript.Proofs.Events

/-!
# Rules for runs

`Ends` says what holds when a run ends, normally or not. `Follows` adds what holds along the
way: of every event, and, for a given order of stores, that the stores of the run come in this
order. For each form of the evaluator there is one rule, so that a statement about all runs is
proved case by case without opening the evaluator's steps.
-/

namespace TickScript

variable {ω α β : Type}

namespace Eval

/-- If the run of `act` comes to its end then `ok` holds there, and if it is interrupted then
`bad` does. -/
def Ends (act : Eval ω α) (run : Run ω) (ok : α → Run ω → Prop)
    (bad : Interrupt → Run ω → Prop) : Prop :=
  match act run with
  | .ok a run => ok a run
  | .error i run => bad i run

variable {act : Eval ω α} {run : Run ω} {ok ok' : α → Run ω → Prop}
  {bad bad' : Interrupt → Run ω → Prop}

theorem Ends.of_ok (h : act.Ends run ok bad) {a : α} {r : Run ω} (e : act run = .ok a r) :
    ok a r := by
  rw [Ends, e] at h
  exact h

theorem Ends.of_error (h : act.Ends run ok bad) {i : Interrupt} {r : Run ω}
    (e : act run = .error i r) : bad i r := by
  rw [Ends, e] at h
  exact h

theorem Ends.intro (hok : ∀ a r, act run = .ok a r → ok a r)
    (hbad : ∀ i r, act run = .error i r → bad i r) : act.Ends run ok bad := by
  unfold Ends
  split
  · next e => exact hok _ _ e
  · next e => exact hbad _ _ e

theorem Ends.mono (h : act.Ends run ok bad) (hok : ∀ a r, ok a r → ok' a r)
    (hbad : ∀ i r, bad i r → bad' i r) : act.Ends run ok' bad' :=
  .intro (fun a r e => hok a r (h.of_ok e)) (fun i r e => hbad i r (h.of_error e))

theorem Ends.and (h : act.Ends run ok bad) (h' : act.Ends run ok' bad') :
    act.Ends run (fun a r => ok a r ∧ ok' a r) (fun i r => bad i r ∧ bad' i r) :=
  .intro (fun _ _ e => ⟨h.of_ok e, h'.of_ok e⟩) (fun _ _ e => ⟨h.of_error e, h'.of_error e⟩)

theorem ends_pure (a : α) : (pure a : Eval ω α).Ends run ok bad ↔ ok a run := Iff.rfl

theorem ends_throw (i : Interrupt) : (throw i : Eval ω α).Ends run ok bad ↔ bad i run := Iff.rfl

theorem ends_fail (line : Nat) (fault : Fault) :
    (fail line fault : Eval ω α).Ends run ok bad ↔ bad (.error ⟨line, fault⟩) run := Iff.rfl

theorem ends_bind {x : Eval ω β} {f : β → Eval ω α} :
    (x >>= f).Ends run ok bad ↔ x.Ends run (fun b r => (f b).Ends r ok bad) bad := by
  show (match EStateM.bind x f run with
    | .ok a run => ok a run
    | .error i run => bad i run) ↔ _
  unfold Ends EStateM.bind
  cases x run <;> rfl

theorem ends_ask (question : Store → α) :
    (ask question : Eval ω α).Ends run ok bad ↔ ok (question run.store) run := Iff.rfl

theorem ends_onStore (step : EStateM RuntimeError Store α) :
    (onStore step : Eval ω α).Ends run ok bad ↔
      match step run.store with
      | .ok a s => ok a { run with store := s }
      | .error e s => bad (.error e) { run with store := s } := by
  obtain ⟨store, world, console⟩ := run
  simp only [Ends, onStore]
  cases step store <;> rfl

theorem ends_allocate (make : Store → α × Store) :
    (allocate make : Eval ω α).Ends run ok bad ↔
      ok (make run.store).1 { run with store := (make run.store).2 } := Iff.rfl

theorem ends_demand (question : Store → Except RuntimeError α) :
    (demand question : Eval ω α).Ends run ok bad ↔
      match question run.store with
      | .ok a => ok a run
      | .error e => bad (.error e) run := by
  unfold demand
  rw [ends_bind, ends_ask]
  cases question run.store <;> rfl

theorem ends_printLine {ok : Unit → Run ω → Prop} (text : String) :
    (printLine text : Eval ω Unit).Ends run ok bad ↔
      ok () { run with console := run.console.push text } := Iff.rfl

theorem ends_define {ok : Unit → Run ω → Prop} (scope : ScopeId) (name : Token) (v : Value) :
    (define scope name v : Eval ω Unit).Ends run ok bad ↔
      if run.store.binds scope name.lexeme then
        bad (.error ⟨name.line, .alreadyDefined name.lexeme⟩) run
      else ok () { run with store := run.store.bind scope name.lexeme v } := by
  by_cases h : run.store.binds scope name.lexeme <;>
    simp [Ends, define, onStore, Store.define, h]

theorem ends_fitTo {ok : Value → Run ω → Prop} (type : Ty) (v : Value) (line : Nat)
    (fault : Mismatch → Fault) :
    (fitTo type v line fault : Eval ω Value).Ends run ok bad ↔
      match Store.coerce type v run.store with
      | .ok w s => ok w { run with store := s }
      | .error m s => bad (.error ⟨line, fault m⟩) { run with store := s } := by
  unfold Ends fitTo onStore
  dsimp only
  cases Store.coerce type v run.store <;> rfl

theorem ends_newArray {ok : Value → Run ω → Prop} (items : List Value) :
    (newArray items : Eval ω Value).Ends run ok bad ↔
      ok (.array run.store.arrays.size)
        { run with store := (run.store.newArray items.toArray).2 } := Iff.rfl

end Eval

/-! ## Events on the way -/

/-- A relation between earlier and later stores. -/
class StoreOrder (R : Store → Store → Prop) : Prop where
  refl : ∀ s, R s s
  trans : ∀ {s t u}, R s t → R t u → R s u

/-- Nothing is said about the order of stores. -/
def AnyOrder (_ _ : Store) : Prop := True

instance : StoreOrder AnyOrder := ⟨fun _ => trivial, fun _ _ => trivial⟩

section Course

variable {R : Store → Store → Prop}

/-- From `first` on, the stores up to `last` come in the order `R`. -/
def Course (R : Store → Store → Prop) (first : Store) (stores : List Store) (last : Store) : Prop :=
  (first :: stores ++ [last]).Pairwise R

theorem course_iff {first last : Store} {stores : List Store} :
    Course R first stores last ↔
      R first last ∧ (∀ s ∈ stores, R first s ∧ R s last) ∧ stores.Pairwise R := by
  simp only [Course, List.cons_append, List.pairwise_cons, List.pairwise_append, List.mem_append,
    List.mem_singleton]
  constructor
  · rintro ⟨h, hp, -, hl⟩
    exact ⟨h last (.inr rfl), fun s hs => ⟨h s (.inl hs), hl s hs last rfl⟩, hp⟩
  · rintro ⟨h, hs, hp⟩
    refine ⟨?_, hp, ⟨by simp, .nil⟩, fun s hm t ht => ?_⟩
    · rintro s (hm | rfl)
      · exact (hs s hm).1
      · exact h
    · subst ht
      exact (hs s hm).2

theorem Course.append [StoreOrder R] {first middle last : Store} {stores others : List Store}
    (h : Course R first stores middle) (h' : Course R middle others last) :
    Course R first (stores ++ others) last := by
  obtain ⟨h₁, hs₁, hp₁⟩ := course_iff.1 h
  obtain ⟨h₂, hs₂, hp₂⟩ := course_iff.1 h'
  refine course_iff.2 ⟨StoreOrder.trans h₁ h₂, fun s hs => ?_, ?_⟩
  · rcases List.mem_append.1 hs with hs | hs
    · exact ⟨(hs₁ s hs).1, StoreOrder.trans (hs₁ s hs).2 h₂⟩
    · exact ⟨StoreOrder.trans h₁ (hs₂ s hs).1, (hs₂ s hs).2⟩
  · exact List.pairwise_append.2 ⟨hp₁, hp₂, fun s hs t ht =>
      StoreOrder.trans (hs₁ s hs).2 (hs₂ t ht).1⟩

theorem course_nil {first last : Store} (h : R first last) : Course R first [] last :=
  course_iff.2 ⟨h, by simp, .nil⟩

end Course

namespace Walk

/-- From `run` on, the stores of the events of a walk up to `last` come in the order `R`. -/
def Ordered (R : Store → Store → Prop) (walk : Walk ω) (run : Run ω) (last : Store) : Prop :=
  (run.store :: (walk run).map Event.store ++ [last]).Pairwise R

theorem ordered_iff {R : Store → Store → Prop} {walk : Walk ω} {run : Run ω} {last : Store} :
    walk.Ordered R run last ↔
      R run.store last ∧ (∀ ev ∈ walk run, R run.store ev.store ∧ R ev.store last) ∧
        (walk run).Pairwise fun a b => R a.store b.store := by
  rw [show walk.Ordered R run last ↔ Course R run.store ((walk run).map Event.store) last from
    Iff.rfl, course_iff, List.pairwise_map, List.forall_mem_map]

theorem mem_after {act : Eval ω α} {next : α → Walk ω} {run : Run ω} {ev : Event ω} :
    ev ∈ after act next run ↔ ∃ a r, act run = .ok a r ∧ ev ∈ next a r := by
  unfold after
  cases h : act run with
  | ok a r => simp
  | error i r => simp

end Walk

open Walk

/-- Along the run of `act` from `run`, whose events are those of `walk`, the stores come in the
order `R` and `each` holds of every event; and `ok` or `bad` holds at its end. -/
structure Follows (R : Store → Store → Prop) (each : Event ω → Prop) (act : Eval ω α)
    (walk : Walk ω) (run : Run ω) (ok : α → Run ω → Prop) (bad : Interrupt → Run ω → Prop) :
    Prop where
  ends : act.Ends run (fun a r => walk.Ordered R run r.store ∧ ok a r)
    (fun i r => walk.Ordered R run r.store ∧ bad i r)
  events : ∀ ev ∈ walk run, each ev

section Rules

variable {R : Store → Store → Prop} {each : Event ω → Prop} {act : Eval ω α} {walk : Walk ω}
  {run : Run ω} {ok ok' : α → Run ω → Prop} {bad bad' : Interrupt → Run ω → Prop}

theorem Follows.mono (h : Follows R each act walk run ok bad)
    (hok : ∀ a r, R run.store r.store → ok a r → ok' a r)
    (hbad : ∀ i r, R run.store r.store → bad i r → bad' i r) :
    Follows R each act walk run ok' bad' where
  ends := h.ends.mono (fun a r p => ⟨p.1, hok a r (ordered_iff.1 p.1).1 p.2⟩)
    (fun i r p => ⟨p.1, hbad i r (ordered_iff.1 p.1).1 p.2⟩)
  events := h.events

/-- Two statements about one run. -/
theorem Follows.both {each' : Event ω → Prop} (h : Follows R each act walk run ok bad)
    (h' : Follows R each' act walk run ok' bad') :
    Follows R (fun ev => each ev ∧ each' ev) act walk run (fun a r => ok a r ∧ ok' a r)
      (fun i r => bad i r ∧ bad' i r) where
  ends := (h.ends.and h'.ends).mono (fun _ _ p => ⟨p.1.1, p.1.2, p.2.2⟩)
    (fun _ _ p => ⟨p.1.1, p.1.2, p.2.2⟩)
  events ev hev := ⟨h.events ev hev, h'.events ev hev⟩

theorem Follows.imp {each' : Event ω → Prop} (h : Follows R each act walk run ok bad)
    (he : ∀ ev, each ev → each' ev) : Follows R each' act walk run ok bad :=
  ⟨h.ends, fun ev hev => he ev (h.events ev hev)⟩

theorem Follows.result (h : Follows R each act walk run ok bad) : act.Ends run ok bad :=
  h.ends.mono (fun _ _ p => p.2) (fun _ _ p => p.2)

/-- A part without events. -/
theorem follows_quiet
    (h : act.Ends run (fun a r => R run.store r.store ∧ ok a r)
      (fun i r => R run.store r.store ∧ bad i r)) : Follows R each act quiet run ok bad where
  ends := by
    refine h.mono (fun a r p => ⟨?_, p.2⟩) (fun i r p => ⟨?_, p.2⟩)
    all_goals exact ordered_iff.2 ⟨p.1, by simp [quiet], by simp [quiet]⟩
  events := by simp [quiet]

variable [StoreOrder R]

theorem follows_pure {a : α} (h : ok a run) :
    Follows R each (pure a) quiet run ok bad :=
  follows_quiet (Eval.ends_pure a |>.2 ⟨StoreOrder.refl _, h⟩)

/-- The evaluation of an expression is an event of its own. -/
theorem follows_here {fuel : Nat} {scope : ScopeId} {e : Expr}
    (he : each (.evaluates fuel scope e run)) (h : Follows R each act walk run ok bad) :
    Follows R each act (both (here fuel scope e) walk) run ok bad where
  ends := by
    have extend : ∀ last, walk.Ordered R run last →
        (both (here fuel scope e) walk).Ordered R run last := by
      intro last hw
      obtain ⟨hl, hev, hp⟩ := ordered_iff.1 hw
      refine ordered_iff.2 ⟨hl, ?_, ?_⟩
      · simp only [both, here, List.singleton_append, List.mem_cons]
        rintro ev (rfl | hmem)
        · exact ⟨StoreOrder.refl _, hl⟩
        · exact hev ev hmem
      · simp only [both, here, List.singleton_append, List.pairwise_cons]
        exact ⟨fun ev hmem => (hev ev hmem).1, hp⟩
    exact h.ends.mono (fun a r p => ⟨extend _ p.1, p.2⟩) (fun i r p => ⟨extend _ p.1, p.2⟩)
  events := by
    simp only [both, here, List.singleton_append, List.mem_cons]
    rintro ev (rfl | hmem)
    · exact he
    · exact h.events ev hmem

/-- An expression without parts is one event. -/
theorem follows_leaf {fuel : Nat} {scope : ScopeId} {e : Expr}
    (he : each (.evaluates fuel scope e run)) (h : Follows R each act quiet run ok bad) :
    Follows R each act (here fuel scope e) run ok bad := by
  have hw : here fuel scope e = both (here fuel scope e) (quiet : Walk ω) := by
    funext r
    simp [both, quiet]
  rw [hw]
  exact follows_here he h

theorem follows_bind {x : Eval ω β} {f : β → Eval ω α} {next : β → Walk ω}
    (h : Follows R each x walk run (fun b r => Follows R each (f b) (next b) r ok bad) bad) :
    Follows R each (x >>= f) (thenAfter walk x next) run ok bad := by
  cases hx : x run with
  | error i r =>
    obtain ⟨ho, hb⟩ := h.ends.of_error hx
    have hw : thenAfter walk x next run = walk run := by simp [thenAfter, both, after, hx]
    refine ⟨Eval.ends_bind.2 ?_, ?_⟩
    · rw [Eval.Ends, hx]
      exact ⟨by rw [Ordered, hw]; exact ho, hb⟩
    · rw [hw]
      exact h.events
  | ok b r =>
    obtain ⟨ho, hf⟩ := h.ends.of_ok hx
    have hw : thenAfter walk x next run = walk run ++ next b r := by
      simp [thenAfter, both, after, hx]
    -- The stores of both parts are in order, because all go through that of `r`.
    have join : ∀ last, (next b).Ordered R r last →
        (thenAfter walk x next).Ordered R run last := by
      intro last hn
      obtain ⟨h₁, he₁, hp₁⟩ := ordered_iff.1 ho
      obtain ⟨h₂, he₂, hp₂⟩ := ordered_iff.1 hn
      refine ordered_iff.2 ⟨StoreOrder.trans h₁ h₂, ?_, ?_⟩
      · rw [hw]
        intro ev hev
        rcases List.mem_append.1 hev with hev | hev
        · exact ⟨(he₁ ev hev).1, StoreOrder.trans (he₁ ev hev).2 h₂⟩
        · exact ⟨StoreOrder.trans h₁ (he₂ ev hev).1, (he₂ ev hev).2⟩
      · rw [hw]
        exact List.pairwise_append.2 ⟨hp₁, hp₂, fun a ha c hc =>
          StoreOrder.trans (he₁ a ha).2 (he₂ c hc).1⟩
    refine ⟨Eval.ends_bind.2 ?_, ?_⟩
    · rw [Eval.Ends, hx]
      exact hf.ends.mono (fun a r' p => ⟨join _ p.1, p.2⟩) (fun i r' p => ⟨join _ p.1, p.2⟩)
    · rw [hw]
      intro ev hev
      rcases List.mem_append.1 hev with hev | hev
      · exact h.events ev hev
      · exact hf.events ev hev

/-- What is bound has no events of its own. -/
theorem follows_after {x : Eval ω β} {f : β → Eval ω α} {next : β → Walk ω}
    (h : x.Ends run (fun b r => R run.store r.store ∧ Follows R each (f b) (next b) r ok bad)
      (fun i r => R run.store r.store ∧ bad i r)) :
    Follows R each (x >>= f) (after x next) run ok bad := by
  have hw : after x next = thenAfter quiet x next := by
    funext r
    simp [thenAfter, both, quiet]
  rw [hw]
  exact follows_bind (follows_quiet h)

/-- What comes behind has no events. -/
theorem follows_last {x : Eval ω β} {f : β → Eval ω α}
    (h : Follows R each x walk run (fun b r => (f b).Ends r
      (fun a r' => R r.store r'.store ∧ ok a r') (fun i r' => R r.store r'.store ∧ bad i r')) bad) :
    Follows R each (x >>= f) walk run ok bad := by
  have hw : walk = thenAfter walk x fun _ => quiet := by
    funext r
    simp only [thenAfter, both, after]
    cases x r <;> simp [quiet]
  rw [hw]
  exact follows_bind (h.mono (fun b r _ p => follows_quiet p) (fun _ _ _ p => p))

/-- A variable has just been bound. -/
theorem follows_bound {scope : ScopeId} {name : Token} {type : Ty} {a : α}
    (he : each (.binds scope name type run)) (h : ok a run) :
    Follows R each (pure a) (bound scope name type) run ok bad where
  ends := by
    refine (Eval.ends_pure a).2 ⟨ordered_iff.2 ⟨StoreOrder.refl _, ?_, ?_⟩, h⟩
    · simp only [bound, List.mem_singleton]
      rintro ev rfl
      exact ⟨StoreOrder.refl _, StoreOrder.refl _⟩
    · exact List.pairwise_singleton _ _
  events := by
    simp only [bound, List.mem_singleton]
    rintro ev rfl
    exact he

/-- A variable has just been bound, and the run goes on. -/
theorem follows_bound_both {scope : ScopeId} {name : Token} {type : Ty}
    (he : each (.binds scope name type run)) (h : Follows R each act walk run ok bad) :
    Follows R each act (both (bound scope name type) walk) run ok bad := by
  have hb : Follows R each (pure ()) (bound scope name type) run
      (fun _ r => Follows R each act walk r ok bad) bad := follows_bound he h
  have hw : both (bound scope name type) walk =
      thenAfter (bound scope name type) (pure () : Eval ω Unit) fun _ => walk := rfl
  rw [hw]
  exact follows_bind hb

end Rules

/-! ## Runs of which something is known -/

section Given

variable {given : Event ω → Prop} {R : Store → Store → Prop} {each : Event ω → Prop}
  {act : Eval ω α} {walk : Walk ω} {run : Run ω} {ok ok' : α → Run ω → Prop}
  {bad bad' : Interrupt → Run ω → Prop}

/-- What `Follows` says, if `given` holds of every event. -/
def FollowsIf (given : Event ω → Prop) (R : Store → Store → Prop) (each : Event ω → Prop)
    (act : Eval ω α) (walk : Walk ω) (run : Run ω) (ok : α → Run ω → Prop)
    (bad : Interrupt → Run ω → Prop) : Prop :=
  (∀ ev ∈ walk run, given ev) → Follows R each act walk run ok bad

theorem Follows.always (h : Follows R each act walk run ok bad) :
    FollowsIf given R each act walk run ok bad :=
  fun _ => h

/-- The value at the end is that of the run. -/
theorem Follows.noting (h : Follows R each act walk run ok bad) :
    Follows R each act walk run (fun a r => act run = .ok a r ∧ ok a r) bad where
  ends := .intro (fun _ _ e => ⟨(h.ends.of_ok e).1, e, (h.ends.of_ok e).2⟩)
    fun _ _ e => h.ends.of_error e
  events := h.events

namespace FollowsIf

theorem mono (h : FollowsIf given R each act walk run ok bad)
    (hok : ∀ a r, R run.store r.store → ok a r → ok' a r)
    (hbad : ∀ i r, R run.store r.store → bad i r → bad' i r) :
    FollowsIf given R each act walk run ok' bad' :=
  fun hg => (h hg).mono hok hbad

theorem imp {each' : Event ω → Prop} (h : FollowsIf given R each act walk run ok bad)
    (he : ∀ ev, each ev → each' ev) : FollowsIf given R each' act walk run ok bad :=
  fun hg => (h hg).imp he

theorem both {each' : Event ω → Prop} (h : FollowsIf given R each act walk run ok bad)
    (h' : FollowsIf given R each' act walk run ok' bad') :
    FollowsIf given R (fun ev => each ev ∧ each' ev) act walk run (fun a r => ok a r ∧ ok' a r)
      (fun i r => bad i r ∧ bad' i r) :=
  fun hg => (h hg).both (h' hg)

theorem noting (h : FollowsIf given R each act walk run ok bad) :
    FollowsIf given R each act walk run (fun a r => act run = .ok a r ∧ ok a r) bad :=
  fun hg => (h hg).noting

/-- What has to be known is known of all events. -/
theorem all (h : FollowsIf given R each act walk run ok bad) (hg : ∀ ev, given ev) :
    Follows R each act walk run ok bad :=
  h fun ev _ => hg ev

/-- More is known. -/
theorem weaken {given' : Event ω → Prop} (h : FollowsIf given R each act walk run ok bad)
    (hg : ∀ ev, given' ev → given ev) : FollowsIf given' R each act walk run ok bad :=
  fun hg' => h fun ev hev => hg ev (hg' ev hev)

/-- Nothing has to be known of no events. -/
theorem free (h : FollowsIf given R each act quiet run ok bad) :
    Follows R each act quiet run ok bad :=
  h fun _ hev => absurd hev List.not_mem_nil

theorem result (h : FollowsIf given R each act quiet run ok bad) : act.Ends run ok bad :=
  h.free.result

end FollowsIf

variable [StoreOrder R]

theorem followsIf_here {fuel : Nat} {scope : ScopeId} {e : Expr}
    (he : given (.evaluates fuel scope e run) → each (.evaluates fuel scope e run))
    (h : given (.evaluates fuel scope e run) → FollowsIf given R each act walk run ok bad) :
    FollowsIf given R each act (both (here fuel scope e) walk) run ok bad := by
  intro hg
  obtain ⟨first, rest⟩ := List.forall_mem_cons.1 hg
  exact follows_here (he first) (h first rest)

theorem followsIf_bind {x : Eval ω β} {f : β → Eval ω α} {next : β → Walk ω}
    (h : FollowsIf given R each x walk run
      (fun b r => FollowsIf given R each (f b) (next b) r ok bad) bad) :
    FollowsIf given R each (x >>= f) (thenAfter walk x next) run ok bad := by
  intro hg
  have first := h fun ev hev => hg ev (List.mem_append_left _ hev)
  refine follows_bind (first.noting.mono ?_ fun _ _ _ h => h)
  rintro b r - ⟨hx, rest⟩
  exact rest fun ev hev => hg ev (List.mem_append_right _ (mem_after.2 ⟨b, r, hx, hev⟩))

theorem followsIf_after {x : Eval ω β} {f : β → Eval ω α} {next : β → Walk ω}
    (h : x.Ends run
      (fun b r => R run.store r.store ∧ FollowsIf given R each (f b) (next b) r ok bad)
      (fun i r => R run.store r.store ∧ bad i r)) :
    FollowsIf given R each (x >>= f) (after x next) run ok bad := by
  have hw : after x next = thenAfter quiet x next := by
    funext r
    simp [thenAfter, both, quiet]
  rw [hw]
  exact followsIf_bind (follows_quiet h).always

theorem followsIf_last {x : Eval ω β} {f : β → Eval ω α}
    (h : FollowsIf given R each x walk run (fun b r => (f b).Ends r
      (fun a r' => R r.store r'.store ∧ ok a r') (fun i r' => R r.store r'.store ∧ bad i r')) bad) :
    FollowsIf given R each (x >>= f) walk run ok bad :=
  fun hg => follows_last (h hg)

theorem followsIf_bound_both {scope : ScopeId} {name : Token} {type : Ty}
    (he : each (.binds scope name type run)) (h : FollowsIf given R each act walk run ok bad) :
    FollowsIf given R each act (both (bound scope name type) walk) run ok bad :=
  fun hg => follows_bound_both he (h fun ev hev => hg ev (List.mem_cons_of_mem _ hev))

end Given

/-! ## Requests -/

namespace Machine

variable {P : Except Interrupt Unit → Machine ω → Prop} {m : Machine ω} {host : Host ω}

/-- An assignment from outside, as a run. -/
theorem ends_unrecorded {name : Token} {v : Value} {ok : Value → Run ω → Prop}
    {bad : Interrupt → Run ω → Prop} :
    (Eval.assign (m.unrecorded host) m.globals .detached name v).Ends m.begin ok bad ↔
      match Store.assign m.globals name v m.store with
      | .ok w s => ok w { m.begin with store := s }
      | .error e s => bad (.error e) { m.begin with store := s } := by
  have unknown : (m.unrecorded host).distances.find? .detached = none := Table.find?_empty _
  rw [Eval.assign, unknown, Eval.ends_onStore]
  dsimp only [begin, unrecorded, setting]
  cases Store.assign m.globals name v m.store <;> rfl

/-- What holds at the end of a run holds of the machine that takes it up. -/
theorem ends_finish {act : Eval ω α} {P : Except Interrupt α → Machine ω → Prop}
    (h : act.Ends m.begin
      (fun a r => P (.ok a) { m with store := r.store, world := r.world, console := r.console })
      (fun i r => ∀ errors, P (.error i)
        { m with store := r.store, world := r.world, console := r.console, errors })) :
    P (m.finish (act m.begin)).1 (m.finish (act m.begin)).2 := by
  cases e : act m.begin with
  | ok a r => exact h.of_ok e
  | error i r => exact h.of_error e _

/-- What holds at the end of a request holds of the machine behind it, whatever its clock shows. -/
theorem serve_of_ends {statements : List Stmt} {fuel : Nat} {request : Request ω}
    (h : (m.order host statements fuel request).Ends m.begin
      (fun _ r => ∀ clock, P (.ok ())
        { m with store := r.store, world := r.world, console := r.console, clock })
      (fun i r => ∀ errors, P (.error i)
        { m with store := r.store, world := r.world, console := r.console, errors })) :
    P (m.serve host statements fuel request).1 (m.serve host statements fuel request).2 := by
  cases request with
  | interpret => exact ends_finish (h.mono (fun _ _ p => p m.clock) fun _ _ p => p)
  | call name =>
    refine ends_finish (P := fun result m => P (result.map fun _ => ()) m) ?_
    exact (Eval.ends_bind.1 h).mono (fun _ _ p => p m.clock) fun _ _ p => p
  | wait clock => exact (Eval.ends_pure _).1 h clock
  | write name v =>
    rw [order] at h
    rw [serve]
    cases hx : host.external? name with
    | none =>
      rw [hx] at h
      exact h m.clock
    | some external =>
      rw [hx] at h
      have ends := ends_unrecorded.1 (Eval.ends_bind.1 h)
      dsimp only [assignGlobal]
      cases hs : Store.assign m.globals (.synthetic name external.type) v m.store with
      | ok w s =>
        rw [hs] at ends
        exact ends m.clock
      | error e s =>
        rw [hs] at ends
        exact ends m.errors
  | work arrays world => exact h m.clock

end Machine

end TickScript
