import TickScript.Proofs.Histories

/-!
# How statements are left

A statement is left normally, or with a `break`, a `continue` or a `return`. Resolution follows
with two flags where it is: inside of a function or not, inside of a loop of this function or
not. The signals of a statement are those that its flags permit, so none of them leaves the loop
or the function that it belongs to, and every statement at the top of a program is left
normally.

A function with a result is also checked by its form: some statement of its body can never be
left normally. A loop counts as such if its condition is the literal `true` and it has no `break`
of its own; however many rounds it takes, it is then left by a `return` only.
-/

namespace TickScript

variable {ω : Type}

/-! ## Rounds -/

/-- A round that ends with this signal either goes on or leaves the loop in a way that `out`
permits. -/
def Signal.Leaves (out : Signal → Prop) : Signal → Prop
  | .normal => True
  | .continue => True
  | .break => out .normal
  | .return v => out (.return v)

/-- A loop is left in a permitted way if each round can only leave it so, and so can its test. -/
theorem Eval.ends_rounds {out : Signal → Prop} {test : Eval ω Bool} {body : Eval ω Signal}
    (ht : ∀ run, test.Ends run (fun holds _ => holds = false → out .normal) fun _ _ => True)
    (hb : ∀ run, body.Ends run (fun signal _ => signal.Leaves out) fun _ _ => True) (limit : Nat) :
    ∀ run : Run ω, (rounds test body limit).Ends run (fun signal _ => out signal)
      fun _ _ => True := by
  induction limit with
  | zero => exact fun run => (ends_throw _).2 trivial
  | succ limit ih =>
    intro run
    rw [rounds]
    refine ends_bind.2 ((ht run).mono (fun holds r hout => ?_) fun _ _ h => h)
    cases holds with
    | false => exact (ends_pure _).2 (hout rfl)
    | true =>
      refine ends_bind.2 ((hb r).mono (fun signal r hleaves => ?_) fun _ _ h => h)
      cases signal with
      | normal => exact ih r
      | «continue» => exact ih r
      | «break» => exact (ends_pure _).2 hleaves
      | «return» v => exact (ends_pure _).2 hleaves

section Signals

variable {setting : Setting ω} {apply : Apply ω} {limit : Nat}

/-- After anything at all. -/
theorem Eval.ends_after {α β : Type} {x : Eval ω β} {f : β → Eval ω α} {run : Run ω}
    {ok : α → Run ω → Prop} (h : ∀ b r, (f b).Ends r ok fun _ _ => True) :
    (x >>= f).Ends run ok fun _ _ => True :=
  ends_bind.2 (.intro (fun b r _ => h b r) fun _ _ _ => trivial)

/-! ## Signals that the flags permit -/

/-- A signal that is permitted where these flags are set. -/
def Signal.Fits (returnType : Option Ty) (inLoop : Bool) : Signal → Prop
  | .normal => True
  | .return _ => returnType ≠ none
  | .break => inLoop = true
  | .continue => inLoop = true

/-- Outside of loops and functions. -/
theorem Signal.Fits.normal {signal : Signal} (h : signal.Fits none false) : signal = .normal := by
  cases signal with
  | normal => rfl
  | «return» v => exact absurd rfl h
  | «break» => cases h
  | «continue» => cases h

/-- Outside of loops. -/
theorem Signal.Fits.normal_or_return {signal : Signal} {returnType : Option Ty}
    (h : signal.Fits returnType false) : signal = .normal ∨ ∃ v, signal = .return v := by
  cases signal with
  | normal => exact .inl rfl
  | «return» v => exact .inr ⟨v, rfl⟩
  | «break» => cases h
  | «continue» => cases h

/-- A loop hands on nothing but a `return`. -/
theorem Signal.Fits.leaves {signal : Signal} {returnType : Option Ty} {inLoop : Bool}
    (h : signal.Fits returnType true) : signal.Leaves (Signal.Fits returnType inLoop) := by
  cases signal with
  | «return» v => exact h
  | _ => trivial

mutual

/-- A checked statement is left with a signal that its flags permit. -/
theorem Stmt.Checked.fits {σ : Signatures} : (s : Stmt) → ∀ {returnType : Option Ty}
    {inLoop : Bool} {scope : ScopeId} {run : Run ω}, s.Checked σ returnType inLoop →
    (Eval.stmt setting apply limit scope s).Ends run
      (fun signal _ => signal.Fits returnType inLoop) fun _ _ => True
  | .expression e, _, _, _, _, _ => by
    rw [Eval.stmt]
    exact Eval.ends_after fun _ _ => trivial
  | .block body, _, _, _, _, h => by
    rw [Stmt.Checked] at h
    rw [Eval.stmt]
    exact Eval.ends_after fun _ _ => StmtsChecked.fits body h
  | .declare name type start, _, _, _, _, _ => by
    rw [Eval.stmt]
    exact Eval.ends_after fun _ _ => Eval.ends_after fun _ _ => Eval.ends_after fun _ _ => trivial
  | .ifThen keyword test yes, _, _, _, _, h => by
    rw [Stmt.Checked] at h
    rw [Eval.stmt]
    refine Eval.ends_after fun holds _ => ?_
    split
    · exact Stmt.Checked.fits yes h.2.2
    · trivial
  | .ifElse keyword test yes no, _, _, _, _, h => by
    rw [Stmt.Checked] at h
    rw [Eval.stmt]
    refine Eval.ends_after fun holds _ => ?_
    split
    · exact Stmt.Checked.fits yes h.2.2.1
    · exact Stmt.Checked.fits no h.2.2.2
  | .while keyword test body, _, _, _, _, h => by
    rw [Stmt.Checked] at h
    rw [Eval.stmt]
    refine Eval.ends_rounds (fun _ => .intro (fun _ _ _ _ => trivial) fun _ _ _ => trivial) ?_ limit _
    exact fun _ => (Stmt.Checked.fits body h.2.2).mono (fun _ _ fits => fits.leaves) fun _ _ h => h
  | .return keyword none, _, _, _, _, h => by
    rw [Stmt.Checked] at h
    obtain ⟨type, rfl, -⟩ := h
    rw [Eval.stmt]
    exact (Eval.ends_pure _).2 (Option.some_ne_none type)
  | .return keyword (some e), _, _, _, _, h => by
    rw [Stmt.Checked] at h
    obtain ⟨-, type, rfl, -⟩ := h
    rw [Eval.stmt]
    exact Eval.ends_after fun _ _ => Option.some_ne_none type
  | .break keyword, _, _, _, _, h => by
    rw [Stmt.Checked] at h
    rw [Eval.stmt]
    exact (Eval.ends_pure _).2 h
  | .continue keyword, _, _, _, _, h => by
    rw [Stmt.Checked] at h
    rw [Eval.stmt]
    exact (Eval.ends_pure _).2 h
  | .function header body, _, _, _, _, _ => by
    rw [Eval.stmt]
    exact Eval.ends_after fun _ _ => Eval.ends_after fun _ _ => trivial

theorem StmtsChecked.fits {σ : Signatures} : (ss : List Stmt) → ∀ {returnType : Option Ty}
    {inLoop : Bool} {scope : ScopeId} {run : Run ω}, StmtsChecked σ returnType inLoop ss →
    (Eval.stmts setting apply limit scope ss).Ends run
      (fun signal _ => signal.Fits returnType inLoop) fun _ _ => True
  | [], _, _, _, _, _ => by
    rw [Eval.stmts]
    exact (Eval.ends_pure _).2 trivial
  | s :: ss, _, _, _, _, h => by
    rw [StmtsChecked] at h
    rw [Eval.stmts]
    refine Eval.ends_bind.2 ((Stmt.Checked.fits s h.1).mono (fun signal r fits => ?_)
      fun _ _ h => h)
    cases signal with
    | normal => exact StmtsChecked.fits ss h.2
    | _ => exact (Eval.ends_pure _).2 fits

end

/-! ## Statements that cannot be left normally -/

mutual

/-- Without a `break` of its own, a statement does not break. -/
theorem Stmt.never_breaks : (s : Stmt) → ∀ {scope : ScopeId} {run : Run ω}, s.breaksOut = false →
    (Eval.stmt setting apply limit scope s).Ends run (fun signal _ => signal ≠ .break)
      fun _ _ => True
  | .expression e, _, _, _ => by
    rw [Eval.stmt]
    exact Eval.ends_after fun _ _ => by simp [Eval.ends_pure]
  | .block body, _, _, h => by
    rw [Eval.stmt]
    exact Eval.ends_after fun _ _ => never_breaks_in body h
  | .declare name type start, _, _, _ => by
    rw [Eval.stmt]
    exact Eval.ends_after fun _ _ => Eval.ends_after fun _ _ => Eval.ends_after fun _ _ => by
      simp [Eval.ends_pure]
  | .ifThen keyword test yes, _, _, h => by
    rw [Eval.stmt]
    refine Eval.ends_after fun holds _ => ?_
    split
    · exact Stmt.never_breaks yes h
    · simp [Eval.ends_pure]
  | .ifElse keyword test yes no, _, _, h => by
    rw [Stmt.breaksOut, Bool.or_eq_false_iff] at h
    rw [Eval.stmt]
    refine Eval.ends_after fun holds _ => ?_
    split
    · exact Stmt.never_breaks yes h.1
    · exact Stmt.never_breaks no h.2
  | .while keyword test body, _, _, _ => by
    -- A `break` inside belongs to this loop, which is then left normally.
    rw [Eval.stmt]
    refine Eval.ends_rounds (fun _ => .intro (fun _ _ _ _ => by simp) fun _ _ _ => trivial) ?_ limit _
    refine fun _ => .intro (fun signal _ _ => ?_) fun _ _ _ => trivial
    cases signal <;> simp [Signal.Leaves]
  | .return keyword none, _, _, _ => by
    rw [Eval.stmt]
    simp [Eval.ends_pure]
  | .return keyword (some e), _, _, _ => by
    rw [Eval.stmt]
    exact Eval.ends_after fun _ _ => by simp [Eval.ends_pure]
  | .break keyword, _, _, h => by cases h
  | .continue keyword, _, _, _ => by
    rw [Eval.stmt]
    simp [Eval.ends_pure]
  | .function header body, _, _, _ => by
    rw [Eval.stmt]
    exact Eval.ends_after fun _ _ => Eval.ends_after fun _ _ => by simp [Eval.ends_pure]

theorem never_breaks_in : (ss : List Stmt) → ∀ {scope : ScopeId} {run : Run ω},
    anyBreaksOut ss = false → (Eval.stmts setting apply limit scope ss).Ends run
      (fun signal _ => signal ≠ .break) fun _ _ => True
  | [], _, _, _ => by
    rw [Eval.stmts]
    simp [Eval.ends_pure]
  | s :: ss, _, _, h => by
    rw [anyBreaksOut, Bool.or_eq_false_iff] at h
    rw [Eval.stmts]
    refine Eval.ends_bind.2 ((Stmt.never_breaks s h.1).mono (fun signal r hs => ?_) fun _ _ h => h)
    cases signal with
    | normal => exact never_breaks_in ss h.2
    | _ => exact (Eval.ends_pure _).2 hs

end

/-- The literal `true` holds. -/
theorem Expr.holds_of_isTrue {e : Expr} (h : e.isTrue = true) (scope : ScopeId) (run : Run ω) :
    (Eval.holds setting apply scope e).Ends run (fun holds _ => holds = true) fun _ _ => True := by
  unfold Expr.isTrue at h
  split at h
  · next id b line =>
    subst h
    rw [Eval.holds, Eval.expr]
    exact Eval.ends_bind.2 ((Eval.ends_pure _).2 rfl)
  · cases h

mutual

/-- A statement that always returns is never left normally. -/
theorem Stmt.never_normal : (s : Stmt) → ∀ {scope : ScopeId} {run : Run ω},
    s.alwaysReturns = true → (Eval.stmt setting apply limit scope s).Ends run
      (fun signal _ => signal ≠ .normal) fun _ _ => True
  | .expression e, _, _, h => by cases h
  | .block body, _, _, h => by
    rw [Eval.stmt]
    exact Eval.ends_after fun _ _ => never_normal_in body h
  | .declare name type start, _, _, h => by cases h
  | .ifThen keyword test yes, _, _, h => by cases h
  | .ifElse keyword test yes no, _, _, h => by
    rw [Stmt.alwaysReturns, Bool.and_eq_true] at h
    rw [Eval.stmt]
    refine Eval.ends_after fun holds _ => ?_
    split
    · exact Stmt.never_normal yes h.1
    · exact Stmt.never_normal no h.2
  | .while keyword test body, scope, _, h => by
    rw [Stmt.alwaysReturns, Bool.and_eq_true, Bool.not_eq_true'] at h
    rw [Eval.stmt]
    refine Eval.ends_rounds (fun run => ?_) (fun run => ?_) limit _
    · refine (test.holds_of_isTrue h.1 scope run).mono (fun holds _ e hf => ?_) fun _ _ h => h
      rw [e] at hf
      cases hf
    · refine (Stmt.never_breaks body h.2).mono (fun signal _ hs => ?_) fun _ _ h => h
      cases signal with
      | «break» => exact absurd rfl hs
      | «return» v => simp [Signal.Leaves]
      | _ => trivial
  | .return keyword none, _, _, _ => by
    rw [Eval.stmt]
    simp [Eval.ends_pure]
  | .return keyword (some e), _, _, _ => by
    rw [Eval.stmt]
    exact Eval.ends_after fun _ _ => by simp [Eval.ends_pure]
  | .break keyword, _, _, h => by cases h
  | .continue keyword, _, _, h => by cases h
  | .function header body, _, _, h => by cases h

theorem never_normal_in : (ss : List Stmt) → ∀ {scope : ScopeId} {run : Run ω},
    alwaysReturnsIn ss = true → (Eval.stmts setting apply limit scope ss).Ends run
      (fun signal _ => signal ≠ .normal) fun _ _ => True
  | [], _, _, h => by cases h
  | s :: ss, _, _, h => by
    rw [alwaysReturnsIn, Bool.or_eq_true] at h
    rw [Eval.stmts]
    rcases h with h | h
    · refine Eval.ends_bind.2 ((Stmt.never_normal s h).mono (fun signal r hs => ?_) fun _ _ h => h)
      cases signal with
      | normal => exact absurd rfl hs
      | _ => exact (Eval.ends_pure _).2 hs
    · refine Eval.ends_after fun signal _ => ?_
      cases signal with
      | normal => exact never_normal_in ss h
      | _ => simp [Eval.ends_pure]

end

end Signals

/-! ## Where a result comes from -/

/-- The value is that of the expression of a `return` among `parts`: its evaluation is one of the
events and ends in `r`. -/
def ByReturn (setting : Setting ω) (fuel : Nat) (parts : List Stmt) (events : List (Event ω))
    (v : Value) (r : Run ω) : Prop :=
  ∃ keyword e scope run, .return keyword (some e) ∈ parts ∧
    .evaluates fuel scope e run ∈ events ∧
    Eval.expr setting (Eval.call setting fuel) scope e run = .ok v r

section Results

variable {setting : Setting ω} {fuel : Nat}

theorem ByReturn.mono {parts parts' : List Stmt} {events events' : List (Event ω)} {v : Value}
    {r : Run ω} (h : ByReturn setting fuel parts events v r) (hp : parts ⊆ parts')
    (he : events ⊆ events') : ByReturn setting fuel parts' events' v r := by
  obtain ⟨keyword, e, scope, run, hpart, hevent, hvalue⟩ := h
  exact ⟨keyword, e, scope, run, hp hpart, he hevent, hvalue⟩

/-- If the statement ends with a `return` then with that of an expression. -/
abbrev Eval.Gives (setting : Setting ω) (fuel : Nat) (parts : List Stmt) (act : Eval ω Signal)
    (events : List (Event ω)) (run : Run ω) : Prop :=
  act.Ends run (fun signal r => ∀ v, signal = .return v →
    ByReturn setting fuel parts events v r) fun _ _ => True

theorem Eval.Gives.within {parts parts' : List Stmt} {act : Eval ω Signal}
    {events : List (Event ω)} {run : Run ω} (h : Gives setting fuel parts act events run)
    (hp : parts ⊆ parts') : Gives setting fuel parts' act events run :=
  Ends.mono h (fun _ _ hr v hv => (hr v hv).mono hp (List.Subset.refl _)) fun _ _ h => h

theorem Eval.Gives.later {parts : List Stmt} {act : Eval ω Signal}
    {events events' : List (Event ω)} {run : Run ω} (h : Gives setting fuel parts act events run)
    (he : events ⊆ events') : Gives setting fuel parts act events' run :=
  Ends.mono h (fun _ _ hr v hv => (hr v hv).mono (List.Subset.refl _) he) fun _ _ h => h

theorem Eval.gives_pure {parts : List Stmt} {signal : Signal} {events : List (Event ω)}
    {run : Run ω} (h : ∀ v, signal ≠ .return v) :
    Gives setting fuel parts (pure signal) events run :=
  (ends_pure _).2 fun v hv => absurd hv (h v)

/-- What comes after `x` gives the result. -/
theorem Eval.gives_after {α : Type} {parts : List Stmt} {x : Eval ω α} {f : α → Eval ω Signal}
    {next : α → Walk ω} {run : Run ω} (h : ∀ a r, Gives setting fuel parts (f a) (next a r) r) :
    Gives setting fuel parts (x >>= f) (Walk.after x next run) run := by
  refine ends_bind.2 (.intro (fun a r e => ?_) fun _ _ _ => trivial)
  exact (h a r).later fun ev hev => Walk.mem_after.2 ⟨a, r, e, hev⟩

theorem Eval.gives_bind {α : Type} {parts : List Stmt} {walk : Walk ω} {x : Eval ω α}
    {f : α → Eval ω Signal} {next : α → Walk ω} {run : Run ω}
    (h : ∀ a r, Gives setting fuel parts (f a) (next a r) r) :
    Gives setting fuel parts (x >>= f) (Walk.thenAfter walk x next run) run :=
  (gives_after h).later (List.subset_append_right _ _)

/-- Either a statement gives the result or what comes after it. -/
theorem Eval.gives_next {parts : List Stmt} {walk : Walk ω} {x : Eval ω Signal}
    {f : Signal → Eval ω Signal} {next : Signal → Walk ω} {run : Run ω}
    (hx : Gives setting fuel parts x (walk run) run) (stop : ∀ v, f (.return v) = pure (.return v))
    (hf : ∀ signal r, (∀ v, signal ≠ .return v) →
      Gives setting fuel parts (f signal) (next signal r) r) :
    Gives setting fuel parts (x >>= f) (Walk.thenAfter walk x next run) run := by
  refine ends_bind.2 (.intro (fun signal r e => ?_) fun _ _ _ => trivial)
  have later : next signal r ⊆ Walk.thenAfter walk x next run := fun ev hev =>
    List.mem_append_right _ (Walk.mem_after.2 ⟨signal, r, e, hev⟩)
  cases signal with
  | «return» v =>
    rw [stop]
    refine (ends_pure _).2 fun v' hv => ?_
    exact ((hx.of_ok e) v' hv).mono (List.Subset.refl _) (List.subset_append_left _ _)
  | normal => exact (hf _ r (by simp)).later later
  | «break» => exact (hf _ r (by simp)).later later
  | «continue» => exact (hf _ r (by simp)).later later

theorem Eval.gives_rounds {parts : List Stmt} {test : Eval ω Bool} {testWalk : Walk ω}
    {body : Eval ω Signal} {bodyWalk : Walk ω}
    (hb : ∀ run, Gives setting fuel parts body (bodyWalk run) run) (limit : Nat) :
    ∀ run, Gives setting fuel parts (rounds test body limit)
      (Walk.rounds test testWalk body bodyWalk limit run) run := by
  induction limit with
  | zero => exact fun run => (ends_throw _).2 trivial
  | succ limit ih =>
    intro run
    rw [rounds, Walk.rounds]
    refine gives_bind fun holds r => ?_
    cases holds with
    | false => exact gives_pure (by simp)
    | true =>
      refine gives_next (hb r) (fun _ => rfl) fun signal r hno => ?_
      cases signal with
      | normal => exact ih r
      | «continue» => exact ih r
      | «break» => exact gives_pure (by simp)
      | «return» v => exact absurd rfl (hno v)

theorem Walk.mem_expr_self (calls : CallWalk ω) (scope : ScopeId) (e : Expr) (run : Run ω) :
    Event.evaluates fuel scope e run ∈ Walk.expr setting fuel calls scope e run := by
  cases e <;> simp [Walk.expr, Walk.both, Walk.here]

variable {σ : Signatures} {type : Ty}

mutual

/-- In a function that cannot return nothing, a statement returns the value of an expression. -/
theorem Stmt.Checked.gives (result : Resolve.matchesReturn type .void = false) : (s : Stmt) →
    ∀ {inLoop : Bool} {scope : ScopeId} {run : Run ω}, s.Checked σ (some type) inLoop →
    Eval.Gives setting fuel s.parts (Eval.stmt setting (Eval.call setting fuel) fuel scope s)
      (Walk.stmt setting fuel (Walk.call setting fuel) scope s run) run
  | .expression e, _, _, _, _ => by
    rw [Eval.stmt]
    exact Eval.ends_after fun _ _ => Eval.gives_pure (by simp)
  | .block body, _, _, _, h => by
    rw [Stmt.Checked] at h
    rw [Eval.stmt, Walk.stmt]
    exact Eval.gives_after fun _ _ => (StmtsChecked.gives result body h).within
      (List.subset_cons_self _ _)
  | .declare name t start, _, _, _, _ => by
    rw [Eval.stmt]
    exact Eval.ends_after fun _ _ => Eval.ends_after fun _ _ => Eval.ends_after fun _ _ =>
      Eval.gives_pure (by simp)
  | .ifThen keyword test yes, _, _, _, h => by
    rw [Stmt.Checked] at h
    rw [Eval.stmt, Walk.stmt]
    refine Eval.gives_bind fun holds _ => ?_
    cases holds with
    | true => exact (Stmt.Checked.gives result yes h.2.2).within (List.subset_cons_self _ _)
    | false => exact Eval.gives_pure (by simp)
  | .ifElse keyword test yes no, _, _, _, h => by
    rw [Stmt.Checked] at h
    rw [Eval.stmt, Walk.stmt]
    refine Eval.gives_bind fun holds _ => ?_
    cases holds with
    | true =>
      exact (Stmt.Checked.gives result yes h.2.2.1).within
        (List.subset_cons_of_subset _ (List.subset_append_left _ _))
    | false =>
      exact (Stmt.Checked.gives result no h.2.2.2).within
        (List.subset_cons_of_subset _ (List.subset_append_right _ _))
  | .while keyword test body, _, _, _, h => by
    rw [Stmt.Checked] at h
    rw [Eval.stmt, Walk.stmt]
    exact Eval.gives_rounds (fun _ => (Stmt.Checked.gives result body h.2.2).within
      (List.subset_cons_self _ _)) fuel _
  | .return keyword none, _, _, _, h => by
    rw [Stmt.Checked] at h
    obtain ⟨t, ht, hvoid⟩ := h
    cases ht
    rw [hvoid] at result
    cases result
  | .return keyword (some e), _, scope, run, _ => by
    rw [Eval.stmt, Walk.stmt]
    refine Eval.ends_bind.2 (.intro (fun v r hv => ?_) fun _ _ _ => trivial)
    refine (Eval.ends_pure _).2 fun v' e' => ?_
    cases e'
    exact ⟨keyword, e, scope, run, Stmt.mem_parts_self _, Walk.mem_expr_self _ scope e run, hv⟩
  | .break keyword, _, _, _, _ => by
    rw [Eval.stmt]
    exact Eval.gives_pure (by simp)
  | .continue keyword, _, _, _, _ => by
    rw [Eval.stmt]
    exact Eval.gives_pure (by simp)
  | .function header body, _, _, _, _ => by
    rw [Eval.stmt]
    exact Eval.ends_after fun _ _ => Eval.ends_after fun _ _ => Eval.gives_pure (by simp)

theorem StmtsChecked.gives (result : Resolve.matchesReturn type .void = false) :
    (ss : List Stmt) → ∀ {inLoop : Bool} {scope : ScopeId} {run : Run ω},
    StmtsChecked σ (some type) inLoop ss →
    Eval.Gives setting fuel (stmtsParts ss)
      (Eval.stmts setting (Eval.call setting fuel) fuel scope ss)
      (Walk.stmts setting fuel (Walk.call setting fuel) scope ss run) run
  | [], _, _, _, _ => by
    rw [Eval.stmts]
    exact Eval.gives_pure (by simp)
  | s :: ss, _, _, _, h => by
    rw [StmtsChecked] at h
    rw [Eval.stmts, Walk.stmts]
    refine Eval.gives_next ((Stmt.Checked.gives result s h.1).within
      (List.subset_append_left _ _)) (fun _ => rfl) fun signal r hno => ?_
    cases signal with
    | normal => exact (StmtsChecked.gives result ss h.2).within (List.subset_append_right _ _)
    | «return» v => exact absurd rfl (hno v)
    | «break» => exact Eval.gives_pure (by simp)
    | «continue» => exact Eval.gives_pure (by simp)

end

end Results

/-! ## Programs -/

/-- Checked statements outside of functions run one after the other, each to its end. -/
theorem stmts_eq_forM {σ : Signatures} (setting : Setting ω) (apply : Apply ω) (limit : Nat)
    (scope : ScopeId) {ss : List Stmt} (h : StmtsChecked σ none false ss) :
    (do let _ ← Eval.stmts setting apply limit scope ss) =
      ss.forM fun s => (do let _ ← Eval.stmt setting apply limit scope s) := by
  induction ss with
  | nil => rfl
  | cons s ss ih =>
    rw [StmtsChecked] at h
    rw [Eval.stmts, List.forM, bind_assoc, bind_assoc]
    funext run
    have fits : (Eval.stmt setting apply limit scope s).Ends run _ _ := Stmt.Checked.fits s h.1
    show EStateM.bind _ _ run = EStateM.bind _ _ run
    unfold EStateM.bind
    cases e : Eval.stmt setting apply limit scope s run with
    | error i r => rfl
    | ok signal r =>
      rw [(fits.of_ok e).normal]
      exact congrFun (ih h.2) r

/-- Statements in a list are checked like the list. -/
theorem StmtsChecked.mem {σ : Signatures} {returnType : Option Ty} {inLoop : Bool} {s : Stmt} :
    ∀ {ss : List Stmt}, StmtsChecked σ returnType inLoop ss → s ∈ ss →
      s.Checked σ returnType inLoop
  | t :: ss, h, hs => by
    rw [StmtsChecked] at h
    rcases List.mem_cons.1 hs with rfl | hs
    · exact h.1
    · exact h.2.mem hs

/-- A statement at the top of an accepted program is left normally. -/
theorem Compiled.left_normally {source : String} {host : Host ω} {c : Compilation}
    (hc : Compiled source host c) {s : Stmt} (hs : s ∈ c.statements) (setting : Setting ω)
    (apply : Apply ω) (limit : Nat) (scope : ScopeId) (run : Run ω) {signal : Signal} {r : Run ω}
    (ends : Eval.stmt setting apply limit scope s run = .ok signal r) : signal = .normal := by
  have fits : (Eval.stmt setting apply limit scope s).Ends run _ _ :=
    Stmt.Checked.fits s (hc.checked.mem hs)
  exact (fits.of_ok ends).normal

theorem Compiled.program_eq {source : String} {host : Host ω} {c : Compilation}
    (hc : Compiled source host c) (setting : Setting ω) (fuel : Nat) :
    Eval.program setting fuel c.statements = c.statements.forM fun s =>
      (do let _ ← Eval.stmt setting (Eval.call setting fuel) fuel setting.globals s) :=
  stmts_eq_forM setting (Eval.call setting fuel) fuel setting.globals hc.checked

/-- No signal leaves the loop or the function that it belongs to. A statement at the top of an
accepted program is left normally wherever it is run, so that running the program means to run its
statements one after the other until one of them fails. And whatever a machine has been through,
every script function that a run calls has a body that is left normally or with a `return`. -/
theorem signals_stay_inside {source : String} {host : Host ω}
    (outside : ∀ f ∈ host.functions, f.Outside)
    (accepted : (compile source host).accepted = true) :
    (∀ s ∈ (compile source host).statements, ∀ (setting : Setting ω) apply limit scope run signal r,
      Eval.stmt setting apply limit scope s run = .ok signal r → signal = .normal) ∧
    (∀ (setting : Setting ω) fuel,
      Eval.program setting fuel (compile source host).statements =
        (compile source host).statements.forM fun s =>
          (do let _ ← Eval.stmt setting (Eval.call setting fuel) fuel setting.globals s)) ∧
    ∀ m : Machine ω, m.Reached host → ∀ ev, m.Sees host ev → ∀ header body,
      ev.called? (m.setting host) = some (header, body) →
      ∀ (setting : Setting ω) apply limit scope run signal r,
        Eval.stmts setting apply limit scope body run = .ok signal r →
        signal = .normal ∨ ∃ v, signal = .return v := by
  refine ⟨?_, (compiled accepted).program_eq, ?_⟩
  · intro s hs setting apply limit scope run signal r ends
    exact (compiled accepted).left_normally hs setting apply limit scope run ends
  · intro m reached ev seen header body called setting apply limit scope run signal r ends
    obtain ⟨σ, inside, -⟩ := (reached.accepts outside seen called).checked
    have fits : (Eval.stmts setting apply limit scope body).Ends run _ _ :=
      StmtsChecked.fits body inside
    exact (fits.of_ok ends).normal_or_return

/-- A program with a function in a loop. The loop of `f` is left only by its `return`. -/
def leavingSource : String :=
  "int f() { int k = 0; while (true) { if (k > 0) { return k; } k = 1; continue; } } " ++
    "while (true) { int g() { while (true) { break; } return f(); } g(); break; }"

abbrev leaving : Compilation :=
  compile leavingSource (Host.empty : Host Unit)

/-- The machine that runs it. -/
abbrev leavingMachine : Machine Unit :=
  (Machine.start Host.empty .empty ()).reset Host.empty leaving.distances

/-- What happens when it runs. -/
abbrev leavingEvents : List (Event Unit) :=
  Walk.program (leavingMachine.setting Host.empty) 9 leaving.statements leavingMachine.begin

/-- A call of the function of this name. -/
def Event.callsNamed (name : String) (ev : Event Unit) : Bool :=
  match ev.called? (leavingMachine.setting Host.empty) with
  | some (header, _) => header.name.lexeme == name
  | none => false

/-- A call of a function with a result, whose body comes to its end. -/
def Event.callsValue (ev : Event Unit) : Bool :=
  match ev.called? (leavingMachine.setting Host.empty) with
  | some (header, body) =>
    header.returnType != .void &&
      match Eval.stmts (leavingMachine.setting Host.empty)
        (Eval.call (leavingMachine.setting Host.empty) 9) 9 leavingMachine.globals body
        leavingMachine.begin with
      | .ok .. => true
      | .error .. => false
  | none => false

theorem leaving_runs : leaving.accepted = true ∧
    leavingEvents.any (Event.callsNamed "g") = true ∧
    leavingEvents.any Event.callsValue = true := by
  decide +kernel

theorem leavingMachine_reached : leavingMachine.Reached Host.empty :=
  .reset _ (.start () (by simp [Store.empty]))

theorem leaving_seen {ev : Event Unit} (hev : ev ∈ leavingEvents) :
    leavingMachine.Sees Host.empty ev :=
  .inl ⟨_, 9, leaving_runs.1, hev⟩

/-- The function of `leavingSource` that is declared in a loop is called, and does not break it. -/
theorem signals_stay_inside_loops :
    (∀ s ∈ leaving.statements, ∀ (setting : Setting Unit) apply limit scope run signal r,
      Eval.stmt setting apply limit scope s run = .ok signal r → signal = .normal) ∧
    ∃ ev header body, leavingMachine.Sees Host.empty ev ∧
      ev.called? (leavingMachine.setting Host.empty) = some (header, body) ∧
      header.name.lexeme = "g" ∧
      ∀ (setting : Setting Unit) apply limit scope run signal r,
        Eval.stmts setting apply limit scope body run = .ok signal r →
        signal = .normal ∨ ∃ v, signal = .return v := by
  obtain ⟨normally, -, inside⟩ := signals_stay_inside (by simp [Host.empty]) leaving_runs.1
  obtain ⟨ev, hev, hcalls⟩ := List.any_eq_true.1 leaving_runs.2.1
  have seen := leaving_seen hev
  unfold Event.callsNamed at hcalls
  split at hcalls
  · next header body called =>
    exact ⟨normally, ev, header, body, seen, called, eq_of_beq hcalls,
      inside leavingMachine leavingMachine_reached ev seen header body called⟩
  · cases hcalls

/-- A function with a result gives one. Whatever a machine has been through, if a run calls a script
function whose return type is not `void`, and its body comes to an end without an error, then this
is the end of a `return` in it: the last thing that happened was that the expression of this
`return` was evaluated, and its value is given back. -/
theorem functions_return_values {host : Host ω} (outside : ∀ f ∈ host.functions, f.Outside)
    {m : Machine ω} (reached : m.Reached host) {ev : Event ω} (seen : m.Sees host ev)
    {header : Header} {body : List Stmt}
    (called : ev.called? (m.setting host) = some (header, body))
    (nonvoid : header.returnType ≠ .void) (setting : Setting ω) (fuel : Nat) (scope : ScopeId)
    (run : Run ω) {signal : Signal} {r : Run ω}
    (ends : Eval.stmts setting (Eval.call setting fuel) fuel scope body run = .ok signal r) :
    ∃ v, signal = .return v ∧ ByReturn setting fuel (stmtsParts body)
      (Walk.stmts setting fuel (Walk.call setting fuel) scope body run) v r := by
  have accepts := reached.accepts outside seen called
  obtain ⟨σ, inside, returns⟩ := accepts.checked
  have written := accepts.written
  have must : Resolve.mustReturn header.returnType = true := by
    simp [Resolve.mustReturn, written, nonvoid]
  have result : Resolve.matchesReturn header.returnType .void = false := by
    simp [Resolve.matchesReturn, written, nonvoid, show Ty.void.isWild = false from rfl]
  have fits : (Eval.stmts setting (Eval.call setting fuel) fuel scope body).Ends run _ _ :=
    StmtsChecked.fits body inside
  have left : (Eval.stmts setting (Eval.call setting fuel) fuel scope body).Ends run _ _ :=
    never_normal_in body (returns must)
  have gives : Eval.Gives setting fuel (stmtsParts body)
      (Eval.stmts setting (Eval.call setting fuel) fuel scope body)
      (Walk.stmts setting fuel (Walk.call setting fuel) scope body run) run :=
    StmtsChecked.gives result body inside
  rcases (fits.of_ok ends).normal_or_return with normal | ⟨v, hv⟩
  · exact absurd normal (left.of_ok ends)
  · exact ⟨v, hv, gives.of_ok ends v hv⟩

/-- The loop of `f` has no other end than its `return`. -/
theorem functions_return_values_forever :
    ∃ ev header body signal r, leavingMachine.Sees Host.empty ev ∧
      ev.called? (leavingMachine.setting Host.empty) = some (header, body) ∧
      header.returnType ≠ .void ∧
      Eval.stmts (leavingMachine.setting Host.empty)
        (Eval.call (leavingMachine.setting Host.empty) 9) 9 leavingMachine.globals body
        leavingMachine.begin = .ok signal r ∧
      ∃ v, signal = .return v ∧ ByReturn (leavingMachine.setting Host.empty) 9 (stmtsParts body)
        (Walk.stmts (leavingMachine.setting Host.empty) 9
          (Walk.call (leavingMachine.setting Host.empty) 9) leavingMachine.globals body
          leavingMachine.begin) v r := by
  obtain ⟨ev, hev, hcalls⟩ := List.any_eq_true.1 leaving_runs.2.2
  have seen := leaving_seen hev
  unfold Event.callsValue at hcalls
  split at hcalls
  · next header body called =>
    obtain ⟨nonvoid, comes⟩ := Bool.and_eq_true_iff.1 hcalls
    split at comes
    · next signal r ends =>
      have nonvoid : header.returnType ≠ .void := by simpa using nonvoid
      exact ⟨ev, header, body, signal, r, seen, called, nonvoid, ends,
        functions_return_values (by simp [Host.empty]) leavingMachine_reached seen called nonvoid
          _ 9 _ _ ends⟩
    · cases comes
  · cases hcalls

end TickScript
