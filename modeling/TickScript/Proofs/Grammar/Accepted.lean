import TickScript.Proofs.Grammar.Derived

/-!
# Expressions that are derived are parsed

The parser of a rule takes every token list that the rule derives, and answers its tree. It has to
stop at the end of the list: what follows must not begin with a token that the parser would take
as well, such as an operator behind an operand. Each rule has its own list of such tokens.
-/

namespace TickScript

open Grammar

/-! ## Targets of assignments -/

theorem Grammar.Operation.ofPrimary {X : Rule Expr} {ts : List Token} {e : Expr}
    (h : Primary X ts e) : ∀ levels : List Level, Operation X levels ts e
  | [] => .unary (.call (.primary h))
  | _ :: levels => .operand (.ofPrimary h levels)

theorem Expr.of_unnumbered_var {e : Expr} {name : Token} (h : e.unnumbered = .var 0 name) :
    ∃ id, e = .var id name := by
  cases e with
  | var id t =>
    cases h
    exact ⟨id, rfl⟩
  | _ => cases h

theorem Expr.of_unnumbered_index {e position : Expr} {name : Token}
    (h : e.unnumbered = .index 0 name position) :
    ∃ id position', e = .index id name position' ∧ position'.unnumbered = position := by
  cases e with
  | index id t position' =>
    cases h
    exact ⟨id, position', rfl, rfl⟩
  | _ => cases h

namespace Parser

variable {α β : Type}

/-! ## Parsers that answer -/

/-- From `c` the parser answers, and then `post` holds. -/
def Yields (p : Parser α) (c : Cursor) (post : α → Cursor → Prop) : Prop :=
  ∃ a c', p c = .ok a c' ∧ post a c'

section

variable {p : Parser α} {c : Cursor} {post : α → Cursor → Prop}

theorem Yields.mono {post' : α → Cursor → Prop} (h : Yields p c post)
    (hp : ∀ a c', post a c' → post' a c') : Yields p c post' := by
  obtain ⟨a, c', e, ha⟩ := h
  exact ⟨a, c', e, hp a c' ha⟩

theorem yields_pure {a : α} (h : post a c) : Yields (pure a) c post :=
  ⟨a, c, rfl, h⟩

theorem yields_bind {x : Parser β} {f : β → Parser α}
    (h : Yields x c fun b c' => Yields (f b) c' post) : Yields (x >>= f) c post := by
  obtain ⟨b, c', hx, a, c'', hf, hp⟩ := h
  exact ⟨a, c'', (bind_of_ok hx).trans hf, hp⟩

/-- One parser after another. -/
theorem yields_then {x : Parser β} {f : β → Parser α} {mid : β → Cursor → Prop}
    (h : Yields x c mid) (hf : ∀ b c', mid b c' → Yields (f b) c' post) :
    Yields (x >>= f) c post :=
  yields_bind (h.mono hf)

end

section

variable {c : Cursor} {t : Token} {rest : List Token}

theorem yields_peek {post : Token → Cursor → Prop} (hr : c.rest = t :: rest) (h : post t c) :
    Yields peek c post := by
  refine ⟨t, c, ?_, h⟩
  unfold peek
  rw [hr]
  rfl

theorem yields_skip {post : Unit → Cursor → Prop} (hr : c.rest = t :: rest)
    (h : post () { c with rest }) : Yields skip c post := by
  refine ⟨(), { c with rest }, ?_, h⟩
  unfold skip
  rw [hr]
  rfl

theorem yields_remaining {post : Nat → Cursor → Prop} (h : post c.rest.length c) :
    Yields remaining c post :=
  ⟨_, c, rfl, h⟩

theorem yields_freshId {post : ExprId → Cursor → Prop}
    (h : post c.nextId { c with nextId := c.nextId + 1 }) : Yields freshId c post :=
  ⟨_, _, rfl, h⟩

theorem yields_take {kinds : List TokenKind} {post : Option Token → Cursor → Prop}
    (hr : c.rest = t :: rest) (hk : t.kind ∈ kinds) (h : post (some t) { c with rest }) :
    Yields (acceptAny kinds) c post := by
  refine ⟨some t, { c with rest }, ?_, h⟩
  unfold acceptAny
  rw [hr]
  exact if_pos hk

theorem yields_leave {kinds : List TokenKind} {post : Option Token → Cursor → Prop}
    (stops : Stops kinds c.rest) (h : post none c) : Yields (acceptAny kinds) c post := by
  refine ⟨none, c, ?_, h⟩
  unfold acceptAny
  cases hr : c.rest with
  | nil => rfl
  | cons t rest => exact if_neg (stops t rest hr)

theorem yields_accept {kind : TokenKind} {post : Option Token → Cursor → Prop}
    (hr : c.rest = t :: rest) (hk : t.kind = kind) (h : post (some t) { c with rest }) :
    Yields (accept kind) c post :=
  yields_take hr (List.mem_singleton.2 hk) h

theorem yields_expect {kind : TokenKind} {what : Expectation} {post : Token → Cursor → Prop}
    (hr : c.rest = t :: rest) (hk : t.kind = kind) (h : post t { c with rest }) :
    Yields (expect kind what) c post :=
  yields_bind (yields_accept hr hk (yields_pure h))

theorem yields_check {kind : TokenKind} {post : Bool → Cursor → Prop} (hr : c.rest = t :: rest)
    (h : post (decide (t.kind = kind)) c) : Yields (check kind) c post := by
  refine ⟨_, c, ?_, h⟩
  unfold check
  rw [hr]

end

/-! ## Lists that stop -/

theorem stops_cons {kinds : List TokenKind} {t : Token} {us : List Token} (h : t.kind ∉ kinds) :
    Stops kinds (t :: us) := by
  intro t' us' e
  cases e
  exact h

theorem stops_of_kind {kinds : List TokenKind} {kind : TokenKind} {t : Token} {us : List Token}
    (h : t.kind = kind) (hk : kind ∉ kinds) : Stops kinds (t :: us) :=
  stops_cons (h ▸ hk)

theorem Stops.mono {kinds kinds' : List TokenKind} {ts : List Token} (h : Stops kinds' ts)
    (hs : kinds ⊆ kinds') : Stops kinds ts :=
  fun t us e hk => h t us e (hs hk)

theorem stops_of_begins {kinds kinds' : List TokenKind} {ts : List Token}
    (h : Begins kinds' ts) (apart : ∀ k ∈ kinds', k ∉ kinds) : Stops kinds ts := by
  obtain ⟨t, us, rfl, hk⟩ := h
  exact stops_cons (apart _ hk)

/-- The rest is ahead, and nothing was reported. -/
def Past (c : Cursor) (rest : List Token) (c' : Cursor) : Prop :=
  c'.rest = rest ∧ c'.log = c.log

/-- The parser takes a list of fewer than `size` tokens that the rule derives, unless a token of
the kinds `follow` comes behind it. -/
def Complete (R : Rule β) (tree : α → β) (follow : List TokenKind) (size : Nat)
    (p : Parser α) : Prop :=
  ∀ ts b, R ts b → ts.length < size → ∀ c rest, c.rest = ts ++ rest → Stops follow rest →
    Yields p c fun a c' => tree a = b ∧ Past c rest c'

/-! ## Lists -/

theorem yields_separated {R : Rule β} {tree : α → β} {item : Nat → Parser α}
    {allowed : Nat → Prop} {follow : List TokenKind} {size : Nat}
    (hi : ∀ n, allowed n → Complete R tree follow size (item n)) (hcomma : .comma ∉ follow)
    {ts : List Token} {bs : List β} (h : Separated R ts bs) :
    ∀ (limit count : Nat) (c : Cursor) (rest : List Token), ts.length < size →
      ts.length < limit → (∀ i < bs.length, allowed (count + i)) → c.rest = ts ++ rest →
      Stops (.comma :: follow) rest →
      Yields (separated item limit count) c fun as c' => as.map tree = bs ∧ Past c rest c' := by
  induction h with
  | @last ts b item =>
    intro limit count c rest hsize hlimit hcounts hr stops
    obtain ⟨limit, rfl⟩ := Nat.exists_eq_succ_of_ne_zero (Nat.ne_zero_of_lt hlimit)
    have first := hi count (hcounts 0 Nat.one_pos) ts b item hsize c rest hr
      (stops.mono (List.subset_cons_self _ _))
    refine yields_then first ?_
    rintro a c₁ ⟨ha, hrest, hlog⟩
    refine yields_bind (yields_leave ?_ (yields_pure ⟨?_, hrest, hlog⟩))
    · rw [hrest]
      exact stops.mono (by simp)
    · rw [List.map_singleton, ha]
  | @more ts us b bs comma item separator others ih =>
    intro limit count c rest hsize hlimit hcounts hr stops
    obtain ⟨limit, rfl⟩ := Nat.exists_eq_succ_of_ne_zero (Nat.ne_zero_of_lt hlimit)
    rw [List.length_append, List.length_cons] at hsize hlimit
    rw [List.append_assoc, List.cons_append] at hr
    have first := hi count (hcounts 0 (Nat.succ_pos _)) ts b item (by omega) c _ hr
      (stops_of_kind separator hcomma)
    refine yields_then first ?_
    rintro a c₁ ⟨ha, hrest, hlog⟩
    refine yields_bind (yields_accept hrest separator ?_)
    refine yields_then
      (ih limit (count + 1) _ rest (by omega) (by omega) (fun i hi => ?_) rfl stops) ?_
    · rw [Nat.add_right_comm]
      exact hcounts (i + 1) (Nat.succ_lt_succ hi)
    · rintro as c₂ ⟨has, hrest₂, hlog₂⟩
      refine yields_pure ⟨?_, hrest₂, hlog₂.trans hlog⟩
      rw [List.map_cons, ha, has]

theorem yields_listUntil {R : Rule β} {tree : α → β} {item : Nat → Parser α}
    (allowed : Nat → Prop) {follow kinds : List TokenKind} {size : Nat} {close : TokenKind}
    (hi : ∀ n, allowed n → Complete R tree follow size (item n)) (hcomma : .comma ∉ follow)
    (begins : ∀ ts b, R ts b → Begins kinds ts) (apart : close ∉ kinds)
    (stops : close ∉ .comma :: follow) {ts : List Token} {bs : List β} (h : Listed R ts bs)
    (hsize : ts.length < size) (hcounts : ∀ i < bs.length, allowed i) {finish : Token}
    (hk : finish.kind = close) {c : Cursor} {rest : List Token}
    (hr : c.rest = ts ++ finish :: rest) :
    Yields (listUntil close item) c fun as c' =>
      as.map tree = bs ∧ Past c (finish :: rest) c' := by
  cases h with
  | none =>
    refine yields_bind (yields_check hr ?_)
    rw [if_pos (decide_eq_true hk)]
    exact yields_pure ⟨rfl, hr, rfl⟩
  | some items =>
    have first : Begins kinds ts := by
      cases items with
      | last item => exact begins _ _ item
      | more item separator others => exact (begins _ _ item).append _
    obtain ⟨t, us, rfl, ht⟩ := first
    have other : t.kind ≠ close := fun e => apart (e ▸ ht)
    refine yields_bind (yields_check hr ?_)
    rw [if_neg (mt of_decide_eq_true other)]
    refine yields_bind (yields_remaining ?_)
    refine yields_separated hi hcomma items _ 0 c _ hsize ?_ ?_ hr (stops_of_kind hk stops)
    · rw [hr, List.length_append]
      omega
    · intro i hi
      rw [Nat.zero_add]
      exact hcounts i hi

/-! ## Expressions -/

/-- The tokens that go on with an operation. -/
def operationFollow (levels : List Level) : List TokenKind :=
  levels.flatMap Level.kinds ++ [.leftParen, .leftBracket]

/-- The tokens that go on with an expression. -/
def expressionFollow : List TokenKind :=
  .equal :: operationFollow precedence

theorem operationFollow_cons (l : Level) (levels : List Level) :
    operationFollow (l :: levels) = l.kinds ++ operationFollow levels := by
  simp [operationFollow]

theorem yields_literal {t : Token} {value : Literal} (carries : t.literal = some value)
    {c : Cursor} {rest : List Token} (hr : c.rest = t :: rest) :
    Yields (match t.literal with
      | none => reject .malformedLiteral t
      | some value => do
        skip
        return .literal (← freshId) value t.line : Parser Expr) c
      fun e c' => e.unnumbered = .literal 0 value t.line ∧ Past c rest c' := by
  rw [carries]
  exact yields_bind (yields_skip hr (yields_bind (yields_freshId (yields_pure ⟨rfl, rfl, rfl⟩))))

section

variable {X : Rule Expr} {expression : Parser Expr} {size : Nat}
  (begins : ∀ ts e, X ts e → Begins expressionKinds ts)
  (he : Complete X Expr.unnumbered expressionFollow size expression)

include he

theorem complete_primary :
    Complete (Primary X) Expr.unnumbered [.leftBracket] (size + 1) (primary expression) := by
  intro ts b h hsize c rest hr stops
  cases h with
  | @literal t value kind carries =>
    have read := yields_literal carries hr
    refine yields_bind (yields_peek hr ?_)
    split
    · exact read
    · exact read
    · exact read
    · exact read
    · next hk => exact absurd (hk ▸ kind) (by decide)
    · next hk => exact absurd (hk ▸ kind) (by decide)
    · next yes no int float _ _ =>
      simp only [literals, List.mem_cons, List.not_mem_nil, or_false] at kind
      exact (kind.elim int fun kind => kind.elim float fun kind => kind.elim yes no).elim
  | @name t kind =>
    refine yields_bind (yields_peek hr ?_)
    rw [kind]
    refine yields_bind (yields_skip hr (yields_bind (yields_leave stops ?_)))
    exact yields_bind (yields_freshId (yields_pure ⟨rfl, rfl, rfl⟩))
  | @index t left right ts position kind opens inside closes =>
    have hr' : c.rest = t :: left :: (ts ++ right :: rest) := by simpa using hr
    refine yields_bind (yields_peek hr' ?_)
    rw [kind]
    refine yields_bind (yields_skip hr' (yields_bind (yields_accept rfl opens ?_)))
    refine yields_then (he ts position inside (by simp at hsize; omega) _ (right :: rest) rfl
      (stops_of_kind closes (by decide))) ?_
    rintro e c₁ ⟨he, hrest, hlog⟩
    refine yields_bind (yields_expect hrest closes ?_)
    refine yields_bind (yields_freshId (yields_pure ⟨?_, rfl, hlog⟩))
    rw [Expr.unnumbered, he]
  | @grouping left right ts inner opens inside closes =>
    have hr' : c.rest = left :: (ts ++ right :: rest) := by simpa using hr
    refine yields_bind (yields_peek hr' ?_)
    rw [opens]
    refine yields_bind (yields_skip hr' ?_)
    refine yields_then (he ts inner inside (by simp at hsize; omega) _ (right :: rest) rfl
      (stops_of_kind closes (by decide))) ?_
    rintro e c₁ ⟨he, hrest, hlog⟩
    refine yields_bind (yields_expect hrest closes ?_)
    refine yields_bind (yields_freshId (yields_pure ⟨?_, rfl, hlog⟩))
    rw [Expr.unnumbered, he]

include begins

/-- The parser comes to read argument lists behind what the rule derives so far. The induction is
on the derivation, where the last argument list is the outermost. -/
theorem yields_call {ts : List Token} {e : Expr} (h : Call X ts e) :
    ∀ (c : Cursor) (rest : List Token) (post : Expr → Cursor → Prop), ts.length < size + 1 →
      c.rest = ts ++ rest → Stops [.leftBracket] rest →
      (∀ callee c' limit, callee.unnumbered = e → Past c rest c' → rest.length ≤ limit →
        Yields (calls expression limit callee) c' post) →
      Yields (call expression) c post := by
  induction h with
  | primary h =>
    intro c rest post hsize hr stops go
    refine yields_then (complete_primary he _ _ h hsize c rest hr stops) ?_
    rintro callee c₁ ⟨hcallee, hpast⟩
    refine yields_bind (yields_remaining (go callee c₁ _ hcallee hpast ?_))
    exact Nat.le_of_eq (congrArg List.length hpast.1.symm)
  | @arguments ts us callee items left right h opens inside few closes ih =>
    intro c rest post hsize hr stops go
    have hr' : c.rest = ts ++ left :: (us ++ right :: rest) := by simpa using hr
    simp only [List.length_append, List.length_cons, List.length_nil] at hsize
    refine ih c _ post (by omega) hr' (stops_of_kind opens (by decide)) ?_
    intro callee' c₁ limit hcallee hpast hlimit
    obtain ⟨limit, rfl⟩ := Nat.exists_eq_succ_of_ne_zero (Nat.ne_zero_of_lt hlimit)
    rw [calls]
    refine yields_bind (yields_accept hpast.1 opens ?_)
    have argument : ∀ n, n < maxArguments →
        Complete X Expr.unnumbered expressionFollow size (argument expression n) := by
      intro n hn
      unfold Parser.argument
      rw [if_neg (Nat.not_le.2 hn)]
      exact he
    refine yields_then (yields_listUntil (· < maxArguments) argument (by decide) begins (by decide) (by decide) inside
      (by omega) (fun i hi => Nat.lt_of_lt_of_le hi few) closes rfl) ?_
    rintro as c₂ ⟨has, hrest₂, hlog₂⟩
    refine yields_bind (yields_expect hrest₂ closes (yields_bind (yields_freshId ?_)))
    refine go _ _ limit ?_ ⟨rfl, hlog₂.trans hpast.2⟩ ?_
    · rw [Expr.unnumbered, exprsUnnumbered_eq, hcallee, has]
    · simp only [List.length_cons, List.length_append] at hlimit
      omega

theorem complete_call :
    Complete (Call X) Expr.unnumbered [.leftParen, .leftBracket] (size + 1)
      (call expression) := by
  intro ts e h hsize c rest hr stops
  refine yields_call begins he h c rest _ hsize hr (stops.mono (by decide)) ?_
  intro callee c₁ limit hcallee hpast _
  cases limit with
  | zero => exact yields_pure ⟨hcallee, hpast⟩
  | succ limit =>
    refine yields_bind (yields_leave ?_ (yields_pure ⟨hcallee, hpast⟩))
    rw [hpast.1]
    exact stops.mono (by decide)

theorem complete_unary :
    Complete (Unary X) Expr.unnumbered [.leftParen, .leftBracket] (size + 1)
      (unary expression) := by
  have signs : ∀ {ts e}, Unary X ts e → ∀ limit c rest, ts.length < size + 1 →
      ts.length ≤ limit → c.rest = ts ++ rest → Stops [.leftParen, .leftBracket] rest →
      Yields (signs (call expression) limit) c fun a c' => a.unnumbered = e ∧ Past c rest c' := by
    intro ts e h
    induction h with
    | @call ts e h =>
      intro limit c rest hsize hlimit hr stops
      have plain := complete_call begins he _ _ h hsize c rest hr stops
      cases limit with
      | zero => exact plain
      | succ limit =>
        refine yields_bind (yields_leave ?_ plain)
        rw [hr]
        exact stops_of_begins (h.begins.append rest) (by decide)
    | @sign sign ts e kind h ih =>
      intro limit c rest hsize hlimit hr stops
      rw [List.length_cons] at hsize hlimit
      obtain ⟨limit, rfl⟩ := Nat.exists_eq_succ_of_ne_zero (Nat.ne_zero_of_lt hlimit)
      refine yields_bind (yields_take hr kind ?_)
      refine yields_then (ih limit _ rest (by omega) (by omega) rfl stops) ?_
      rintro right c₁ ⟨hright, hrest, hlog⟩
      refine yields_bind (yields_freshId (yields_pure ⟨?_, hrest, hlog⟩))
      rw [Expr.unnumbered, hright]
  intro ts e h hsize c rest hr stops
  refine yields_bind (yields_remaining (signs h _ c rest hsize ?_ hr stops))
  rw [hr, List.length_append]
  omega

omit he begins in
/-- The parser comes to read operators of the first level behind what the rule derives so far. -/
theorem yields_level {l : Level} {levels : List Level}
    (apart : ∀ k ∈ l.kinds, k ∉ operationFollow levels)
    (ho : Complete (Operation X levels) Expr.unnumbered (operationFollow levels) (size + 1)
      (operation expression levels)) {ts : List Token} {e : Expr}
    (h : Operation X (l :: levels) ts e) :
    ∀ (c : Cursor) (rest : List Token) (post : Expr → Cursor → Prop), ts.length < size + 1 →
      c.rest = ts ++ rest → Stops (operationFollow levels) rest →
      (∀ left c' limit, left.unnumbered = e → Past c rest c' → rest.length ≤ limit →
        Yields (operators l.kinds l.node (operation expression levels) limit left) c' post) →
      Yields (operation expression (l :: levels)) c post := by
  generalize hl : l :: levels = ls at h
  induction h with
  | unary h => cases hl
  | operand h ih =>
    cases hl
    intro c rest post hsize hr stops go
    refine yields_then (ho _ _ h hsize c rest hr stops) ?_
    rintro left c₁ ⟨hleft, hpast⟩
    refine yields_bind (yields_remaining (go left c₁ _ hleft hpast ?_))
    exact Nat.le_of_eq (congrArg List.length hpast.1.symm)
  | @more _ _ ts us left operator right h kind h' ih ih' =>
    cases hl
    intro c rest post hsize hr stops go
    have hr' : c.rest = ts ++ operator :: (us ++ rest) := by simpa using hr
    rw [List.length_append, List.length_cons] at hsize
    refine ih rfl c _ post (by omega) hr' (stops_cons (apart _ kind)) ?_
    intro left' c₁ limit hleft hpast hlimit
    obtain ⟨limit, rfl⟩ := Nat.exists_eq_succ_of_ne_zero (Nat.ne_zero_of_lt hlimit)
    rw [operators]
    refine yields_bind (yields_take hpast.1 kind ?_)
    refine yields_then (ho _ _ h' (by omega) _ rest rfl stops) ?_
    rintro right' c₂ ⟨hright, hrest₂, hlog₂⟩
    refine yields_bind (yields_freshId (go _ _ limit ?_ ⟨hrest₂, hlog₂.trans hpast.2⟩ ?_))
    · rw [l.unnumbered_node, hleft, hright]
    · simp only [List.length_cons, List.length_append] at hlimit
      omega

theorem complete_operation : ∀ levels : List Level, (operationFollow levels).Nodup →
    Complete (Operation X levels) Expr.unnumbered (operationFollow levels) (size + 1)
      (operation expression levels)
  | [], _ => by
    intro ts e h hsize c rest hr stops
    cases h with
    | unary h => exact complete_unary begins he _ _ h hsize c rest hr stops
  | l :: levels, hnodup => by
    rw [operationFollow_cons, List.nodup_append] at hnodup
    obtain ⟨-, hrest, apart⟩ := hnodup
    have ho := complete_operation levels hrest
    intro ts e h hsize c rest hr stops
    rw [operationFollow_cons] at stops
    refine yields_level (fun k hk hk' => apart k hk k hk' rfl) ho h c rest _ hsize hr
      (stops.mono (List.subset_append_right _ _)) ?_
    intro left c₁ limit hleft hpast _
    cases limit with
    | zero => exact yields_pure ⟨hleft, hpast⟩
    | succ limit =>
      refine yields_bind (yields_leave ?_ (yields_pure ⟨hleft, hpast⟩))
      rw [hpast.1]
      exact stops.mono (List.subset_append_left _ _)

theorem yields_elements {ts : List Token} {es : List Expr} (h : Listed X ts es)
    (hsize : ts.length < size) {right : Token} (hk : right.kind = .rightBrace) {c : Cursor}
    {rest : List Token} (hr : c.rest = ts ++ right :: rest) :
    Yields (elements expression) c fun items c' =>
      items.map Expr.unnumbered = es ∧ Past c rest c' := by
  refine yields_then (yields_listUntil (fun _ => True) (fun _ _ => he) (by decide)
    begins (by decide) (by decide) h hsize (fun _ _ => trivial) hk hr) ?_
  rintro items c₁ ⟨hitems, hrest, hlog⟩
  exact yields_bind (yields_expect hrest hk (yields_pure ⟨hitems, rfl, hlog⟩))

theorem complete_assignment :
    Complete (Assignment X) Expr.unnumbered expressionFollow (size + 1)
      (assignment expression) := by
  have operand : Complete (Operation X precedence) Expr.unnumbered (operationFollow precedence)
      (size + 1) (logicOr expression) :=
    complete_operation begins he precedence (by decide)
  intro ts e h hsize c rest hr stops
  cases h with
  | operation h =>
    refine yields_then (operand _ _ h hsize c rest hr (stops.mono (List.subset_cons_self _ _))) ?_
    rintro e' c₁ ⟨he', hpast⟩
    refine yields_bind (yields_leave ?_ (yields_pure ⟨he', hpast⟩))
    rw [hpast.1]
    exact stops.mono (by decide)
  | @name t equals ts value kind sign h =>
    rw [List.length_cons, List.length_cons] at hsize
    refine yields_then (operand [t] _ (.ofPrimary (.name kind) _) (by simp; omega) c _ hr
      (stops_of_kind sign (by decide))) ?_
    rintro target c₁ ⟨htarget, hrest, hlog⟩
    obtain ⟨id, rfl⟩ := Expr.of_unnumbered_var htarget
    refine yields_bind (yields_accept hrest sign (yields_bind (yields_leave ?_ ?_)))
    · exact stops_of_begins ((begins _ _ h).append rest) (by decide)
    refine yields_then (he ts value h (by omega) _ rest rfl stops) ?_
    rintro value' c₂ ⟨hvalue, hrest₂, hlog₂⟩
    refine yields_bind (yields_freshId (yields_pure ⟨?_, hrest₂, hlog₂.trans hlog⟩))
    rw [Expr.unnumbered, hvalue]
  | @index t left right equals ts us position value kind opens inside closes sign h =>
    simp only [List.length_cons, List.length_append] at hsize
    have hr' : c.rest = (t :: left :: (ts ++ [right])) ++ equals :: (us ++ rest) := by
      simpa using hr
    refine yields_then (operand _ _ (.ofPrimary (.index kind opens inside closes) _)
      (by simp; omega) c _ hr' (stops_of_kind sign (by decide))) ?_
    rintro target c₁ ⟨htarget, hrest, hlog⟩
    obtain ⟨id, position', rfl, hposition⟩ := Expr.of_unnumbered_index htarget
    refine yields_bind (yields_accept hrest sign (yields_bind (yields_leave ?_ ?_)))
    · exact stops_of_begins ((begins _ _ h).append rest) (by decide)
    refine yields_then (he us value h (by omega) _ rest rfl stops) ?_
    rintro value' c₂ ⟨hvalue, hrest₂, hlog₂⟩
    refine yields_bind (yields_freshId (yields_pure ⟨?_, hrest₂, hlog₂.trans hlog⟩))
    rw [Expr.unnumbered, hvalue, hposition]
  | @elements t equals left right ts items kind sign opens inside closes =>
    simp only [List.length_cons, List.length_append] at hsize
    have hr' : c.rest = [t] ++ equals :: left :: (ts ++ right :: rest) := by simpa using hr
    refine yields_then (operand [t] _ (.ofPrimary (.name kind) _) (by simp; omega) c _ hr'
      (stops_of_kind sign (by decide))) ?_
    rintro target c₁ ⟨htarget, hrest, hlog⟩
    obtain ⟨id, rfl⟩ := Expr.of_unnumbered_var htarget
    refine yields_bind (yields_accept hrest sign (yields_bind (yields_accept rfl opens ?_)))
    refine yields_then (yields_elements begins he inside (by omega) closes rfl) ?_
    rintro items' c₂ ⟨hitems, hrest₂, hlog₂⟩
    refine yields_bind (yields_freshId (yields_pure ⟨?_, hrest₂, hlog₂.trans hlog⟩))
    rw [Expr.unnumbered, exprsUnnumbered_eq, hitems]

end

theorem complete_nested (depth : Nat) :
    Complete Expression Expr.unnumbered expressionFollow depth (nested depth) := by
  induction depth with
  | zero => exact fun ts e _ h => absurd h (Nat.not_lt_zero _)
  | succ depth ih =>
    intro ts e h
    cases h with
    | assignment h => exact complete_assignment (fun _ _ h => h.begins) ih ts e h

theorem complete_expression {ts : List Token} {e : Expr} (h : Expression ts e) {c : Cursor}
    {rest : List Token} (hr : c.rest = ts ++ rest) (stops : Stops expressionFollow rest) :
    Yields expression c fun a c' => a.unnumbered = e ∧ Past c rest c' := by
  refine yields_bind (yields_remaining (complete_nested _ ts e h ?_ c rest hr stops))
  rw [hr, List.length_append]
  omega

end Parser

end TickScript
