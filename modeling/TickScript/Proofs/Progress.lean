import TickScript.Proofs.Recovery

/-!
# Parsers go forward

No parser goes back, and all that it does depends on the tokens ahead. The rules of the grammar
contain one another, but each asks the next one further in only behind a token that it has taken
itself. So it does not matter what a rule would answer where as many tokens are ahead as before: if
two parsers agree where fewer than `n` tokens are ahead (`Agree`), then the rules made of them agree
where at most `n` are. That is why recursion without a bound comes to its end, and why the
bounds that are set here are never reached (`Agree.settle`).

What is passed and what is reported are counted together (`Cursor.Ahead`): every report has a token
of its own.
-/

namespace TickScript

open Grammar

/-- The cursor `c'` comes behind `c`. What has been reported in between has a token each that was
passed, and `spare` more tokens were passed. -/
structure Cursor.Ahead (spare : Nat) (c c' : Cursor) : Prop where
  rest : c'.rest <:+ c.rest
  mark : c'.endMark = c.endMark
  reports : ∃ rs : List Rejection, c'.log = c.log ++ rs.map Rejection.diagnostic ∧
    rs.length + spare + c'.rest.length ≤ c.rest.length

namespace Cursor

variable {c c' c'' : Cursor} {i j : Nat}

theorem Ahead.still (rest : c'.rest = c.rest) (mark : c'.endMark = c.endMark)
    (log : c'.log = c.log) : c.Ahead 0 c' where
  rest := rest ▸ List.suffix_refl _
  mark := mark
  reports := ⟨[], by simpa using log, by simp [rest]⟩

theorem Ahead.refl (c : Cursor) : c.Ahead 0 c := .still rfl rfl rfl

theorem Ahead.trans (h : c.Ahead i c') (h' : c'.Ahead j c'') : c.Ahead (i + j) c'' where
  rest := h'.rest.trans h.rest
  mark := h'.mark.trans h.mark
  reports := by
    obtain ⟨rs, log, paid⟩ := h.reports
    obtain ⟨rs', log', paid'⟩ := h'.reports
    refine ⟨rs ++ rs', ?_, ?_⟩
    · rw [log', log, List.map_append, List.append_assoc]
    · rw [List.length_append]
      omega

theorem Ahead.weaken (h : c.Ahead i c') (hj : j ≤ i) : c.Ahead j c' where
  rest := h.rest
  mark := h.mark
  reports := by
    obtain ⟨rs, log, paid⟩ := h.reports
    exact ⟨rs, log, by omega⟩

/-- Behind the token ahead. -/
theorem Ahead.pass {t : Token} {rest : List Token} (hr : c.rest = t :: rest) :
    c.Ahead 1 { c with rest } where
  rest := hr ▸ List.suffix_cons t rest
  mark := rfl
  reports := ⟨[], by simp, by simp [hr, Nat.add_comm]⟩

theorem Ahead.length (h : c.Ahead i c') : c'.rest.length + i ≤ c.rest.length := by
  obtain ⟨rs, -, paid⟩ := h.reports
  omega

end Cursor

namespace Parser

variable {α β ι : Type}

/-! ## Agreement -/

/-- From admitted cursors with fewer than `n` tokens ahead both parsers do the same, and it leads
on as it should. -/
def Below (admits : Cursor → Prop) (leads : Cursor → Cursor → Prop) (n : Nat) (p q : Parser α) :
    Prop :=
  ∀ c, admits c → c.rest.length < n → p c = q c ∧ leads c (reached p c)

namespace Below

variable {admits : Cursor → Prop} {leads : Cursor → Cursor → Prop} {m n : Nat}
  {p q r : Parser α}

theorem mono (h : Below admits leads n p q) (hm : m ≤ n) : Below admits leads m p q :=
  fun c ok hc => h c ok (Nat.lt_of_lt_of_le hc hm)

theorem symm (h : Below admits leads n p q) : Below admits leads n q p := by
  intro c ok hc
  obtain ⟨same, lead⟩ := h c ok hc
  refine ⟨same.symm, ?_⟩
  unfold reached at lead ⊢
  rwa [← same]

theorem trans (h : Below admits leads n p q) (h' : Below admits leads n q r) :
    Below admits leads n p r :=
  fun c ok hc => ⟨(h c ok hc).1.trans (h' c ok hc).1, (h c ok hc).2⟩

end Below

/-! ## Bounds that are not reached -/

/-- One round of a recursion asks the next one only where fewer tokens are ahead. -/
def Contracts (admits : Cursor → Prop) (leads : Cursor → Cursor → Prop)
    (step : (ι → Parser α) → ι → Parser α) : Prop :=
  ∀ n p q, (∀ i, Below admits leads n (p i) (q i)) →
    ∀ i, Below admits leads (n + 1) (step p i) (step q i)

/-- The recursion `p` goes round by `step`: whatever does the same as `p` where fewer tokens are
ahead can be put in its place. It therefore comes to its end, and is the only one of its kind. -/
def Descends (admits : Cursor → Prop) (leads : Cursor → Cursor → Prop) (p : ι → Parser α)
    (step : (ι → Parser α) → ι → Parser α) : Prop :=
  ∀ n q, (∀ i, Below admits leads n (p i) (q i)) →
    ∀ i, Below admits leads (n + 1) (p i) (step q i)

/-- The recursion with as many rounds as tokens are ahead, and `extra` more. -/
def unbounded (extra : Nat) (rounds : Nat → ι → Parser α) (i : ι) : Parser α :=
  fun c => rounds (c.rest.length + extra) i c

section Settle

variable {admits : Cursor → Prop} {leads : Cursor → Cursor → Prop} {rounds : Nat → ι → Parser α}
  {step : (ι → Parser α) → ι → Parser α} {slack : Nat}

/-- One more round makes no difference where the tokens come to their end before the rounds. -/
theorem Contracts.next (contracts : Contracts admits leads step)
    (hstep : ∀ k i, rounds (k + 1) i = step (rounds k) i)
    (hzero : ∀ i, Below admits leads slack (rounds 0 i) (step (rounds 0) i)) (k : Nat) :
    ∀ i, Below admits leads (k + slack) (rounds k i) (rounds (k + 1) i) := by
  induction k with
  | zero =>
    intro i
    rw [Nat.zero_add, hstep]
    exact hzero i
  | succ k ih =>
    intro i
    rw [hstep k, hstep (k + 1), Nat.add_right_comm]
    exact contracts _ _ _ ih i

theorem Contracts.enough (contracts : Contracts admits leads step)
    (hstep : ∀ k i, rounds (k + 1) i = step (rounds k) i)
    (hzero : ∀ i, Below admits leads slack (rounds 0 i) (step (rounds 0) i)) {k k' : Nat}
    (hk : k ≤ k') (i : ι) : Below admits leads (k + slack) (rounds k i) (rounds k' i) := by
  obtain ⟨more, rfl⟩ := Nat.exists_eq_add_of_le hk
  induction more with
  | zero =>
    have next := contracts.next hstep hzero k i
    exact next.trans next.symm
  | succ more ih =>
    exact (ih (Nat.le_add_right k more)).trans
      ((contracts.next hstep hzero (k + more) i).mono (by omega))

/-- With enough rounds a recursion does what it would do without a bound. -/
theorem Contracts.settle (rounds : Nat → ι → Parser α) (slack extra : Nat)
    (contracts : Contracts admits leads step)
    (hstep : ∀ k i, rounds (k + 1) i = step (rounds k) i)
    (hzero : ∀ i, Below admits leads slack (rounds 0 i) (step (rounds 0) i)) {k n : Nat}
    (hextra : 1 ≤ extra + slack) (hn : n ≤ k + slack) (i : ι) :
    Below admits leads n (unbounded extra rounds i) (rounds k i) := by
  intro c ok hc
  rcases Nat.le_total (c.rest.length + extra) k with hk | hk
  · exact contracts.enough hstep hzero hk i c ok (by omega)
  · exact (contracts.enough hstep hzero hk i).symm c ok (by omega)

/-- A recursion that asks only where fewer tokens are ahead comes to its end, and enough rounds
are as good as no bound. -/
theorem Contracts.descends (rounds : Nat → ι → Parser α) (slack extra : Nat)
    (contracts : Contracts admits leads step)
    (hstep : ∀ k i, rounds (k + 1) i = step (rounds k) i)
    (hzero : ∀ i, Below admits leads slack (rounds 0 i) (step (rounds 0) i))
    (hextra : 1 ≤ extra + slack) : Descends admits leads (unbounded extra rounds) step := by
  intro n q agree i
  have enough : ∀ k, n ≤ k + slack → ∀ j,
      Below admits leads n (unbounded extra rounds j) (rounds k j) :=
    fun k hk => contracts.settle rounds slack extra hstep hzero hextra hk
  have here : Below admits leads (n + 1) (unbounded extra rounds i) (rounds (n + 1) i) :=
    contracts.settle rounds slack extra hstep hzero hextra (Nat.le_add_right _ _) i
  rw [hstep] at here
  refine here.trans (contracts n _ _ (fun j => ?_) i)
  exact (enough n (Nat.le_add_right _ _) j).symm.trans (agree j)

end Settle

/-! ## Parsers put together -/

/-- A cursor in front of an end mark. -/
def Marked (c : Cursor) : Prop :=
  c.endMark.kind = .eof

theorem Marked.ahead {c c' : Cursor} {spare : Nat} (mark : Marked c) (h : c.Ahead spare c') :
    Marked c' :=
  (congrArg Token.kind h.mark).trans mark

/-- Where fewer than `n` tokens are ahead both parsers do the same and go forward. -/
abbrev Agree (n : Nat) (p q : Parser α) : Prop :=
  Below Marked (Cursor.Ahead 0) n p q

/-- The parser goes forward. -/
def Goes (p : Parser α) : Prop :=
  ∀ n, Agree n p p

section Rules

variable {m n : Nat} {p q : Parser α} {c : Cursor}

theorem reached_of_ok {a : α} {c' : Cursor} (h : p c = .ok a c') : reached p c = c' := by
  rw [reached, h]

theorem reached_of_error {r : Rejection} {c' : Cursor} (h : p c = .error r c') :
    reached p c = c' := by
  rw [reached, h]

theorem reached_bind {x : Parser β} {f : β → Parser α} {b : β} {c' : Cursor}
    (h : x c = .ok b c') : reached (x >>= f) c = reached (f b) c' := by
  rw [reached, bind_of_ok h, ← reached]

theorem agree_bind {x y : Parser β} {f g : β → Parser α} (hx : Agree n x y)
    (hf : ∀ b, Agree n (f b) (g b)) : Agree n (x >>= f) (y >>= g) := by
  intro c mark hn
  obtain ⟨same, lead⟩ := hx c mark hn
  cases run : x c with
  | error r c' =>
    rw [reached_of_error run] at lead
    rw [bind_of_error run, bind_of_error (same ▸ run), reached_of_error (bind_of_error run)]
    exact ⟨rfl, lead⟩
  | ok b c' =>
    rw [reached_of_ok run] at lead
    have hn' : c'.rest.length < n := Nat.lt_of_le_of_lt lead.length hn
    obtain ⟨same', lead'⟩ := hf b c' (mark.ahead lead) hn'
    rw [bind_of_ok run, bind_of_ok (same ▸ run), reached_bind run]
    exact ⟨same', lead.trans lead'⟩

theorem goes_bind {x : Parser β} {f : β → Parser α} (hx : Goes x) (hf : ∀ b, Goes (f b)) :
    Goes (x >>= f) :=
  fun n => agree_bind (hx n) fun b => hf b n

/-- A parser that does not move. -/
theorem goes_still (h : ∀ c, (reached p c).rest = c.rest ∧ (reached p c).endMark = c.endMark ∧
    (reached p c).log = c.log) : Goes p :=
  fun _ c _ _ => ⟨rfl, .still (h c).1 (h c).2.1 (h c).2.2⟩

theorem goes_pure (a : α) : Goes (pure a : Parser α) := goes_still fun _ => ⟨rfl, rfl, rfl⟩

theorem goes_reject (problem : ParseProblem) (token : Token) :
    Goes (reject problem token : Parser α) := goes_still fun _ => ⟨rfl, rfl, rfl⟩

theorem goes_peek : Goes peek := goes_still fun _ => ⟨rfl, rfl, rfl⟩

theorem goes_remaining : Goes remaining := goes_still fun _ => ⟨rfl, rfl, rfl⟩

theorem goes_freshId : Goes freshId := goes_still fun _ => ⟨rfl, rfl, rfl⟩

theorem check_eq (kind : TokenKind) (c : Cursor) :
    check kind c = .ok (c.rest.head?.any (·.kind = kind)) c := by
  unfold check
  cases c.rest <;> rfl

theorem goes_check (kind : TokenKind) : Goes (check kind) := by
  refine goes_still fun c => ?_
  rw [reached_of_ok (check_eq kind c)]
  exact ⟨rfl, rfl, rfl⟩

/-- What comes behind a token that was taken has fewer tokens ahead. -/
theorem agree_acceptAny {kinds : List TokenKind} {f g : Option Token → Parser α}
    (hnone : Agree (n + 1) (f none) (g none)) (hsome : ∀ t, Agree n (f (some t)) (g (some t))) :
    Agree (n + 1) (acceptAny kinds >>= f) (acceptAny kinds >>= g) := by
  intro c mark hn
  cases hr : c.rest with
  | nil =>
    have run : acceptAny kinds c = .ok none c := by rw [acceptAny, hr]
    rw [bind_of_ok run, bind_of_ok run, reached_bind run]
    exact hnone c mark hn
  | cons t rest =>
    by_cases hk : t.kind ∈ kinds
    · have run : acceptAny kinds c = .ok (some t) { c with rest } := by
        simp only [acceptAny, hr, if_pos hk]
      have shorter : rest.length < n := by
        rw [hr, List.length_cons] at hn
        omega
      obtain ⟨same, lead⟩ := hsome t { c with rest } mark shorter
      rw [bind_of_ok run, bind_of_ok run, reached_bind run]
      exact ⟨same, ((Cursor.Ahead.pass hr).trans lead).weaken (Nat.zero_le _)⟩
    · have run : acceptAny kinds c = .ok none c := by
        simp only [acceptAny, hr, if_neg hk]
      rw [bind_of_ok run, bind_of_ok run, reached_bind run]
      exact hnone c mark hn

theorem agree_accept {kind : TokenKind} {f g : Option Token → Parser α}
    (hnone : Agree (n + 1) (f none) (g none)) (hsome : ∀ t, Agree n (f (some t)) (g (some t))) :
    Agree (n + 1) (accept kind >>= f) (accept kind >>= g) :=
  agree_acceptAny hnone hsome

theorem goes_acceptAny (kinds : List TokenKind) : Goes (acceptAny kinds) := by
  intro n
  have whole : acceptAny kinds = acceptAny kinds >>= pure := (bind_pure _).symm
  rw [whole]
  exact (agree_acceptAny (goes_pure _ _) fun t => goes_pure _ n).mono (Nat.le_succ n)

theorem goes_accept (kind : TokenKind) : Goes (accept kind) := goes_acceptAny [kind]

/-- A token is taken, or rejected where it stands. -/
theorem goes_expect (kind : TokenKind) (what : Expectation) : Goes (expect kind what) := by
  refine goes_bind (goes_accept kind) fun found => ?_
  cases found with
  | none => exact goes_bind goes_peek fun t => goes_reject _ t
  | some t => exact goes_pure t

theorem goes_skip : Goes skip := by
  intro n c mark _
  refine ⟨rfl, ?_⟩
  cases hr : c.rest with
  | nil => exact .still (by simp [reached, skip, hr]) rfl rfl
  | cons t rest =>
    have passed := (Cursor.Ahead.pass hr).weaken (Nat.zero_le 1)
    simpa [reached, skip, hr] using passed

/-- An expression with the next number. -/
theorem goes_numbered (node : ExprId → α) : Goes (freshId >>= fun id => pure (node id)) :=
  goes_bind goes_freshId fun id => goes_pure (node id)

theorem agree_zero {p q : Parser α} : Agree 0 p q :=
  fun _ _ h => absurd h (Nat.not_lt_zero _)

/-- It is enough to look at places with room for a token. -/
theorem agree_of_succ {p q : Parser α} (h : ∀ m, n = m + 1 → Agree (m + 1) p q) : Agree n p q := by
  cases n with
  | zero => exact agree_zero
  | succ m => exact h m rfl

end Rules

/-! ## The first token -/

/-- From here both parsers do the same. They pass a token that no report accounts for, unless they
reject the token ahead at once. -/
def EarnAt (c : Cursor) (p q : Parser α) : Prop :=
  p c = q c ∧
    match p c with
    | .ok _ c' => c.Ahead 1 c'
    | .error _ c' => c' = c ∨ c.Ahead 1 c'

/-- Where fewer than `n` tokens are ahead both parsers do the same, and pass a token unless they
reject the first one. -/
def Earn (n : Nat) (p q : Parser α) : Prop :=
  ∀ c, Marked c → c.rest.length < n → EarnAt c p q

section First

variable {n : Nat} {p q : Parser α} {c : Cursor}

theorem earnAt_of_ahead (same : p c = q c) (h : c.Ahead 1 (reached p c)) : EarnAt c p q := by
  refine ⟨same, ?_⟩
  cases run : p c with
  | ok a c' =>
    rw [reached_of_ok run] at h
    exact h
  | error r c' =>
    rw [reached_of_error run] at h
    exact .inr h

theorem Earn.agree (h : Earn n p q) : Agree n p q := by
  intro c mark hn
  obtain ⟨same, earned⟩ := h c mark hn
  refine ⟨same, ?_⟩
  cases run : p c with
  | ok a c' =>
    rw [run] at earned
    rw [reached_of_ok run]
    exact earned.weaken (Nat.zero_le 1)
  | error r c' =>
    rw [run] at earned
    rw [reached_of_error run]
    rcases earned with rfl | passed
    · exact .refl _
    · exact passed.weaken (Nat.zero_le 1)

/-- The first of two parsers passes the token, so that the second one has fewer ahead. -/
theorem earn_bind {x y : Parser β} {f g : β → Parser α} (hx : Earn (n + 1) x y)
    (hf : ∀ b, Agree n (f b) (g b)) : Earn (n + 1) (x >>= f) (y >>= g) := by
  intro c mark hn
  obtain ⟨same, earned⟩ := hx c mark hn
  cases run : x c with
  | error r c' =>
    rw [run] at earned
    refine ⟨by rw [bind_of_error run, bind_of_error (same ▸ run)], ?_⟩
    rw [bind_of_error run]
    exact earned
  | ok b c' =>
    rw [run] at earned
    have shorter := earned.length
    obtain ⟨same', lead⟩ := hf b c' (mark.ahead earned) (by omega)
    refine earnAt_of_ahead (by rw [bind_of_ok run, bind_of_ok (same ▸ run), same']) ?_
    rw [reached_bind run]
    exact earned.trans lead

theorem earn_remaining {f g : Nat → Parser α} (h : ∀ k, Earn n (f k) (g k)) :
    Earn n (remaining >>= f) (remaining >>= g) :=
  fun c => h c.rest.length c

theorem earn_acceptAny {kinds : List TokenKind} {f g : Option Token → Parser α}
    (hnone : Earn (n + 1) (f none) (g none)) (hsome : ∀ t, Agree n (f (some t)) (g (some t))) :
    Earn (n + 1) (acceptAny kinds >>= f) (acceptAny kinds >>= g) := by
  intro c mark hn
  have leaves : acceptAny kinds c = .ok none c →
      EarnAt c (acceptAny kinds >>= f) (acceptAny kinds >>= g) := by
    intro run
    rw [EarnAt, bind_of_ok run, bind_of_ok run]
    exact hnone c mark hn
  cases hr : c.rest with
  | nil => exact leaves (by rw [acceptAny, hr])
  | cons t rest =>
    by_cases hk : t.kind ∈ kinds
    · have run : acceptAny kinds c = .ok (some t) { c with rest } := by
        simp only [acceptAny, hr, if_pos hk]
      have passed := Cursor.Ahead.pass hr
      have shorter := passed.length
      obtain ⟨same, lead⟩ := hsome t { c with rest } mark (by omega)
      refine earnAt_of_ahead (by rw [bind_of_ok run, bind_of_ok run, same]) ?_
      rw [reached_bind run]
      exact passed.trans lead
    · exact leaves (by simp only [acceptAny, hr, if_neg hk])

theorem earnAt_reject (problem : ParseProblem) (token : Token) :
    EarnAt c (reject problem token : Parser α) (reject problem token) :=
  ⟨rfl, .inl rfl⟩

/-- What is decided by the token ahead. -/
theorem earn_peek {f g : Token → Parser α}
    (h : ∀ c, Marked c → c.rest.length < n →
      EarnAt c (f (c.rest.headD c.endMark)) (g (c.rest.headD c.endMark))) :
    Earn n (peek >>= f) (peek >>= g) :=
  h

/-- A token that was looked at is passed, if it is no end mark. -/
theorem earnAt_skip {f g : Unit → Parser α} {token : Token} (mark : Marked c)
    (hn : c.rest.length < n + 1) (htoken : c.rest.headD c.endMark = token)
    (hk : token.kind ≠ .eof) (h : Agree n (f ()) (g ())) :
    EarnAt c (skip >>= f) (skip >>= g) := by
  rw [← htoken] at hk
  cases hr : c.rest with
  | nil =>
    rw [hr] at hk
    exact absurd mark hk
  | cons t rest =>
    have run : skip c = .ok () { c with rest } := by simp [skip, hr]
    have passed := Cursor.Ahead.pass hr
    have shorter := passed.length
    obtain ⟨same, lead⟩ := h { c with rest } mark (by omega)
    refine earnAt_of_ahead (by rw [bind_of_ok run, bind_of_ok run, same]) ?_
    rw [reached_bind run]
    exact passed.trans lead

end First

/-! ## Rounds

What one round of a loop or of a recursion of the grammar does, where the others are given. -/

/-- A round of `separated`. -/
def separatedRound (item : Nat → Parser α) (more : Nat → Parser (List α)) (count : Nat) :
    Parser (List α) := do
  let first ← item count
  match ← accept .comma with
  | some _ => return first :: (← more (count + 1))
  | none => return [first]

/-- A round of `operators`. -/
def operatorsRound (kinds : List TokenKind) (node : ExprId → Expr → Token → Expr → Expr)
    (operand : Parser Expr) (more : Expr → Parser Expr) (left : Expr) : Parser Expr := do
  match ← acceptAny kinds with
  | none => return left
  | some operator =>
    let right ← operand
    more (node (← freshId) left operator right)

/-- A round of `calls`. -/
def callsRound (expression : Parser Expr) (more : Expr → Parser Expr) (callee : Expr) :
    Parser Expr := do
  match ← accept .leftParen with
  | none => return callee
  | some _ =>
    let arguments ← listUntil .rightParen (argument expression)
    let paren ← expect .rightParen .argumentsEnd
    more (.call (← freshId) callee paren arguments)

/-- A round of `signs`. -/
def signsRound (operand : Parser Expr) (again : Parser Expr) : Parser Expr := do
  match ← acceptAny [.bang, .minus] with
  | none => operand
  | some operator =>
    let right ← again
    return .unary (← freshId) operator right

/-! ## Expressions -/

section Expressions

variable {n : Nat} {item item' : Nat → Parser α} {operand operand' e e' : Parser Expr}
  {kinds : List TokenKind} {node : ExprId → Expr → Token → Expr → Expr}

theorem agree_separatedRound {more more' : Nat → Parser (List α)}
    (hi : ∀ k, Agree (n + 1) (item k) (item' k)) (hm : ∀ k, Agree n (more k) (more' k))
    (count : Nat) :
    Agree (n + 1) (separatedRound item more count) (separatedRound item' more' count) := by
  refine agree_bind (hi count) fun first => agree_accept (goes_pure _ _) fun _ => ?_
  exact agree_bind (hm (count + 1)) fun _ => goes_pure _ n

theorem agree_separated (hi : ∀ k, Agree n (item k) (item' k)) (limit : Nat) :
    ∀ count, Agree n (separated item limit count) (separated item' limit count) := by
  induction limit with
  | zero => exact fun _ => goes_pure _ n
  | succ limit ih =>
    intro count
    refine agree_of_succ ?_
    rintro m rfl
    exact agree_separatedRound hi (fun k => (ih k).mono (Nat.le_succ m)) count

theorem agree_listUntil (close : TokenKind) (hi : ∀ k, Agree n (item k) (item' k)) :
    Agree n (listUntil close item) (listUntil close item') := by
  refine agree_bind (goes_check close n) fun closed => ?_
  cases closed with
  | true => exact goes_pure _ n
  | false => exact agree_bind (goes_remaining n) fun k => agree_separated hi (k + 1) 0

theorem agree_operatorsRound {more more' : Expr → Parser Expr} (ho : Agree n operand operand')
    (hm : ∀ left, Agree n (more left) (more' left)) (left : Expr) :
    Agree (n + 1) (operatorsRound kinds node operand more left)
      (operatorsRound kinds node operand' more' left) := by
  refine agree_acceptAny (goes_pure _ _) fun operator => ?_
  exact agree_bind ho fun right => agree_bind (goes_freshId n) fun id => hm _

theorem agree_operators (ho : Agree n operand operand') (limit : Nat) :
    ∀ left, Agree n (operators kinds node operand limit left)
      (operators kinds node operand' limit left) := by
  induction limit with
  | zero => exact fun _ => goes_pure _ n
  | succ limit ih =>
    intro left
    refine agree_of_succ ?_
    rintro m rfl
    exact agree_operatorsRound (ho.mono (Nat.le_succ m)) (fun l => (ih l).mono (Nat.le_succ m)) left

theorem agree_elements (he : Agree n e e') : Agree n (elements e) (elements e') := by
  refine agree_bind (agree_listUntil _ fun _ => he) fun items => ?_
  exact agree_bind (goes_expect _ _ n) fun _ => goes_pure items n

theorem agree_argument (he : Agree n e e') (count : Nat) :
    Agree n (argument e count) (argument e' count) := by
  unfold argument
  split
  · exact agree_bind (goes_peek n) fun t => agree_bind (goes_reject _ t n) fun _ => he
  · exact he

/-- An inner expression stands behind the token that decides on the rule. -/
theorem earn_primary (he : Agree n e e') : Earn (n + 1) (primary e) (primary e') := by
  refine earn_peek fun c mark hn => ?_
  generalize htoken : c.rest.headD c.endMark = token
  cases hk : token.kind
  case identifier =>
    refine earnAt_skip mark hn htoken (by simp [hk]) (agree_bind (goes_accept _ n) fun bracket => ?_)
    cases bracket with
    | none => exact goes_numbered _ n
    | some t =>
      exact agree_bind he fun position => agree_bind (goes_expect _ _ n) fun _ => goes_numbered _ n
  case leftParen =>
    refine earnAt_skip mark hn htoken (by simp [hk]) (agree_bind he fun inner => ?_)
    exact agree_bind (goes_expect _ _ n) fun _ => goes_numbered _ n
  case true | false | intNumber | floatNumber =>
    dsimp only
    cases token.literal with
    | none => exact earnAt_reject _ _
    | some value => exact earnAt_skip mark hn htoken (by simp [hk]) (goes_numbered _ n)
  all_goals exact earnAt_reject _ _

theorem agree_callsRound {more more' : Expr → Parser Expr} (he : Agree n e e')
    (hm : ∀ callee, Agree n (more callee) (more' callee)) (callee : Expr) :
    Agree (n + 1) (callsRound e more callee) (callsRound e' more' callee) := by
  refine agree_accept (goes_pure _ _) fun paren => ?_
  refine agree_bind (agree_listUntil _ (agree_argument he)) fun items => ?_
  exact agree_bind (goes_expect _ _ n) fun closing => agree_bind (goes_freshId n) fun id => hm _

theorem agree_calls (he : Agree n e e') (limit : Nat) :
    ∀ callee, Agree n (calls e limit callee) (calls e' limit callee) := by
  induction limit with
  | zero => exact fun _ => goes_pure _ n
  | succ limit ih =>
    intro callee
    refine agree_of_succ ?_
    rintro m rfl
    exact agree_callsRound (he.mono (Nat.le_succ m)) (fun c => (ih c).mono (Nat.le_succ m)) callee

theorem earn_call (he : Agree n e e') : Earn (n + 1) (call e) (call e') :=
  earn_bind (earn_primary he) fun callee =>
    agree_bind (goes_remaining n) fun k => agree_calls he k callee

theorem earn_signsRound {again again' : Parser Expr} (ho : Earn (n + 1) operand operand')
    (ha : Agree n again again') :
    Earn (n + 1) (signsRound operand again) (signsRound operand' again') := by
  refine earn_acceptAny ho fun sign => ?_
  exact agree_bind ha fun right => goes_numbered _ n

theorem earn_signs (ho : Earn (n + 1) operand operand') (limit : Nat) :
    Earn (n + 1) (signs operand limit) (signs operand' limit) := by
  induction limit with
  | zero => exact ho
  | succ limit ih => exact earn_signsRound ho (ih.agree.mono (Nat.le_succ n))

theorem earn_operation (he : Agree n e e') : ∀ levels : List Level,
    Earn (n + 1) (operation e levels) (operation e' levels)
  | [] => earn_remaining fun k => earn_signs (earn_call he) k
  | l :: levels => by
    have inner := earn_operation he levels
    refine earn_bind inner fun left => agree_bind (goes_remaining n) fun k => ?_
    exact agree_operators (inner.agree.mono (Nat.le_succ n)) k left

/-- Every expression further in stands behind a token of the outer one. -/
theorem earn_assignment (he : Agree n e e') : Earn (n + 1) (assignment e) (assignment e') := by
  have operands : Earn (n + 1) (logicOr e) (logicOr e') := by
    rw [logicOr_eq, logicOr_eq]
    exact earn_operation he precedence
  refine earn_bind operands fun target => agree_bind (goes_accept _ n) fun equals => ?_
  cases equals with
  | none => exact goes_pure _ n
  | some equals =>
    refine agree_bind (goes_accept _ n) fun brace => ?_
    cases brace with
    | none =>
      refine agree_bind he fun value => ?_
      cases target
      case var => exact goes_numbered _ n
      case index => exact goes_numbered _ n
      all_goals exact goes_reject _ _ n
    | some t =>
      cases target
      case var => exact agree_bind (agree_elements he) fun items => goes_numbered _ n
      all_goals exact goes_reject _ _ n

theorem earn_nested (depth : Nat) : ∀ n, Earn n (nested depth) (nested depth) := by
  induction depth with
  | zero => exact fun n => earn_peek fun c _ _ => earnAt_reject _ _
  | succ depth ih =>
    intro n c mark hn
    exact earn_assignment (ih n).agree c mark (Nat.lt_succ_of_lt hn)

theorem earn_expression (n : Nat) : Earn n expression expression :=
  earn_remaining fun k => earn_nested (k + 1) n

theorem goes_expression : Goes expression := fun n => (earn_expression n).agree

end Expressions

end Parser

end TickScript
