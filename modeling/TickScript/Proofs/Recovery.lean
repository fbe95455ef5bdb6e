import TickScript.Proofs.Parsing

/-!
# Recovery from a broken statement

A statement that does not fit the grammar is left out, and the statements around it are parsed as
if it were not there (`parse_recovers`). Two facts make this so. Wherever an expression is
rejected, no semicolon has been passed yet: all rules for expressions are `Confined`. And
resumption stops behind the first semicolon, unless a keyword of a statement comes before it.
-/

namespace TickScript

open Grammar

/-- From the one cursor to the other no semicolon is passed, and nothing is reported. -/
structure Cursor.Within (c c' : Cursor) : Prop where
  passed : ∃ front, c.rest = front ++ c'.rest ∧ ∀ t ∈ front, t.kind ≠ .semicolon
  log : c'.log = c.log

namespace Cursor.Within

variable {c c' c'' : Cursor}

theorem stay (rest : c'.rest = c.rest) (log : c'.log = c.log) : c.Within c' :=
  ⟨⟨[], rest.symm, by simp⟩, log⟩

theorem pass {t : Token} {rest : List Token} (hr : c.rest = t :: rest)
    (hk : t.kind ≠ .semicolon) : c.Within { c with rest } :=
  ⟨⟨[t], hr, by simpa using hk⟩, rfl⟩

theorem trans (h : c.Within c') (h' : c'.Within c'') : c.Within c'' := by
  obtain ⟨⟨front, e, free⟩, log⟩ := h
  obtain ⟨⟨front', e', free'⟩, log'⟩ := h'
  refine ⟨⟨front ++ front', ?_, ?_⟩, log'.trans log⟩
  · rw [e, e', List.append_assoc]
  · intro t ht
    rcases List.mem_append.1 ht with ht | ht
    · exact free t ht
    · exact free' t ht

/-- A cursor that has not passed a semicolon is still before the first one. -/
theorem before (h : c.Within c') {ts rest : List Token} {stop : Token}
    (hr : c.rest = ts ++ stop :: rest) (hstop : stop.kind = .semicolon) :
    ∃ front left, ts = front ++ left ∧ c'.rest = left ++ stop :: rest := by
  obtain ⟨⟨front, e, free⟩, -⟩ := h
  rw [hr] at e
  rcases List.append_eq_append_iff.1 e with ⟨more, rfl, hmore⟩ | ⟨left, rfl, hleft⟩
  · cases more with
    | nil => exact ⟨ts, [], by simp, hmore.symm⟩
    | cons t more =>
      obtain ⟨rfl, -⟩ := List.cons.inj hmore
      exact absurd hstop (free stop (by simp))
  · exact ⟨front, left, rfl, hleft⟩

end Cursor.Within

namespace Parser

variable {α β : Type}

/-! ## Parsers that pass no semicolon -/

/-- Where the parser comes to its end, with an answer or a rejection. -/
def reached (p : Parser α) (c : Cursor) : Cursor :=
  match p c with
  | .ok _ c' => c'
  | .error _ c' => c'

/-- The parser passes no semicolon and reports nothing, whether or not it answers. -/
def Confined (p : Parser α) : Prop :=
  ∀ c : Cursor, c.Within (reached p c)

theorem within_bind {x : Parser β} {f : β → Parser α} {c : Cursor}
    (hx : c.Within (reached x c)) (hf : ∀ b, Confined (f b)) :
    c.Within (reached (x >>= f) c) := by
  unfold reached at hx ⊢
  cases run : x c with
  | ok b c' =>
    rw [run] at hx
    rw [bind_of_ok run]
    exact hx.trans (hf b c')
  | error r c' =>
    rw [run] at hx
    rw [bind_of_error run]
    exact hx

theorem confined_bind {x : Parser β} {f : β → Parser α} (hx : Confined x)
    (hf : ∀ b, Confined (f b)) : Confined (x >>= f) :=
  fun c => within_bind (hx c) hf

theorem confined_pure (a : α) : Confined (pure a : Parser α) := fun _ => .stay rfl rfl

theorem confined_reject (problem : ParseProblem) (token : Token) :
    Confined (reject problem token : Parser α) := fun _ => .stay rfl rfl

theorem confined_peek : Confined peek := fun _ => .stay rfl rfl

theorem confined_remaining : Confined remaining := fun _ => .stay rfl rfl

theorem confined_freshId : Confined freshId := fun _ => .stay rfl rfl

theorem confined_check (kind : TokenKind) : Confined (check kind) := by
  intro c
  unfold reached check
  cases c.rest <;> exact .stay rfl rfl

theorem confined_acceptAny {kinds : List TokenKind} (other : .semicolon ∉ kinds) :
    Confined (acceptAny kinds) := by
  intro c
  unfold reached acceptAny
  cases hr : c.rest with
  | nil => exact .stay rfl rfl
  | cons t rest =>
    by_cases hk : t.kind ∈ kinds
    · simp only [if_pos hk]
      refine .pass hr ?_
      intro e
      exact other (e ▸ hk)
    · simp only [if_neg hk]
      exact .stay rfl rfl

theorem confined_accept {kind : TokenKind} (other : kind ≠ .semicolon) : Confined (accept kind) :=
  confined_acceptAny (by simpa using other.symm)

theorem confined_expect {kind : TokenKind} (other : kind ≠ .semicolon) (what : Expectation) :
    Confined (expect kind what) := by
  refine confined_bind (confined_accept other) ?_
  intro found
  cases found with
  | none => exact confined_bind confined_peek fun t => confined_reject _ t
  | some t => exact confined_pure t

theorem within_peek {f : Token → Parser α} {c : Cursor}
    (h : c.Within (reached (f (c.rest.headD c.endMark)) c)) :
    c.Within (reached (peek >>= f) c) := by
  have run : (peek >>= f) c = f (c.rest.headD c.endMark) c := bind_of_ok rfl
  unfold reached at h ⊢
  rw [run]
  exact h

/-- A token that was looked at can be passed if it is no semicolon. -/
theorem within_skip {c : Cursor} (h : (c.rest.headD c.endMark).kind ≠ .semicolon) :
    c.Within (reached skip c) := by
  cases hr : c.rest with
  | nil => exact .stay (by simp [reached, skip, hr]) rfl
  | cons t rest =>
    rw [hr] at h
    simpa [reached, skip, hr] using Cursor.Within.pass hr h

/-! ## Expressions -/

section Lists

theorem confined_separated {item : Nat → Parser α} (hi : ∀ n, Confined (item n)) (limit : Nat) :
    ∀ count, Confined (separated item limit count) := by
  induction limit with
  | zero => exact fun _ => confined_pure _
  | succ limit ih =>
    intro count
    refine confined_bind (hi count) fun first => ?_
    refine confined_bind (confined_accept (by decide)) fun comma => ?_
    cases comma with
    | none => exact confined_pure _
    | some t => exact confined_bind (ih (count + 1)) fun _ => confined_pure _

theorem confined_listUntil (close : TokenKind) {item : Nat → Parser α}
    (hi : ∀ n, Confined (item n)) : Confined (listUntil close item) := by
  refine confined_bind (confined_check close) fun closed => ?_
  cases closed with
  | true => exact confined_pure _
  | false => exact confined_bind confined_remaining fun n => confined_separated hi (n + 1) 0

end Lists

section Rules

variable {expression : Parser Expr}

theorem confined_operators {kinds : List TokenKind} {node : ExprId → Expr → Token → Expr → Expr}
    {operand : Parser Expr} (other : .semicolon ∉ kinds) (ho : Confined operand) (limit : Nat) :
    ∀ left, Confined (operators kinds node operand limit left) := by
  induction limit with
  | zero => exact fun left => confined_pure left
  | succ limit ih =>
    intro left
    refine confined_bind (confined_acceptAny other) fun operator => ?_
    cases operator with
    | none => exact confined_pure left
    | some t =>
      exact confined_bind ho fun right => confined_bind confined_freshId fun id => ih _

theorem confined_elements (he : Confined expression) : Confined (elements expression) := by
  refine confined_bind (confined_listUntil _ fun _ => he) fun items => ?_
  exact confined_bind (confined_expect (by decide) _) fun _ => confined_pure items

theorem confined_argument (he : Confined expression) (count : Nat) :
    Confined (argument expression count) := by
  unfold argument
  split
  · refine confined_bind confined_peek fun t => ?_
    exact confined_bind (confined_reject _ t) fun _ => he
  · exact he

theorem confined_primary (he : Confined expression) : Confined (primary expression) := by
  intro c
  -- What is passed unseen is the token that decided on the rule.
  have skipping : ∀ {kind : TokenKind} {rest : Unit → Parser Expr},
      (c.rest.headD c.endMark).kind = kind → kind ≠ .semicolon → (∀ u, Confined (rest u)) →
      c.Within (reached (skip >>= rest) c) := by
    intro kind rest hk other hrest
    exact within_bind (within_skip (hk ▸ other)) hrest
  have numbered : ∀ node : ExprId → Expr, Confined (freshId >>= fun id => pure (node id)) :=
    fun node => confined_bind confined_freshId fun id => confined_pure (node id)
  unfold primary
  refine within_peek ?_
  split
  case h_5 hk =>
    refine skipping hk (by decide) fun _ => confined_bind (confined_accept (by decide)) ?_
    intro bracket
    cases bracket with
    | none => exact numbered _
    | some t =>
      refine confined_bind he fun position => ?_
      exact confined_bind (confined_expect (by decide) _) fun _ => numbered _
  case h_6 hk =>
    refine skipping hk (by decide) fun _ => confined_bind he fun inner => ?_
    exact confined_bind (confined_expect (by decide) _) fun _ => numbered _
  case h_7 => exact confined_reject _ _ c
  -- Numbers and truth values are left.
  all_goals
    next hk =>
    split
    · exact confined_reject _ _ c
    · exact skipping hk (by decide) fun _ => numbered _

theorem confined_calls (he : Confined expression) (limit : Nat) :
    ∀ callee, Confined (calls expression limit callee) := by
  induction limit with
  | zero => exact fun callee => confined_pure callee
  | succ limit ih =>
    intro callee
    refine confined_bind (confined_accept (by decide)) fun paren => ?_
    cases paren with
    | none => exact confined_pure callee
    | some t =>
      refine confined_bind (confined_listUntil _ (confined_argument he)) fun items => ?_
      refine confined_bind (confined_expect (by decide) _) fun closing => ?_
      exact confined_bind confined_freshId fun id => ih _

theorem confined_signs {operand : Parser Expr} (ho : Confined operand) (limit : Nat) :
    Confined (signs operand limit) := by
  induction limit with
  | zero => exact ho
  | succ limit ih =>
    refine confined_bind (confined_acceptAny (by decide)) fun sign => ?_
    cases sign with
    | none => exact ho
    | some t => exact confined_bind ih fun right => confined_bind confined_freshId fun id =>
        confined_pure _

theorem confined_operation (he : Confined expression) : ∀ levels : List Level,
    (∀ l ∈ levels, .semicolon ∉ l.kinds) → Confined (operation expression levels)
  | [], _ => by
    refine confined_bind confined_remaining fun n => confined_signs ?_ n
    refine confined_bind (confined_primary he) fun callee => ?_
    exact confined_bind confined_remaining fun n => confined_calls he n callee
  | l :: levels, other => by
    have inner := confined_operation he levels fun l' hl => other l' (List.mem_cons_of_mem l hl)
    refine confined_bind inner fun left => confined_bind confined_remaining fun n => ?_
    exact confined_operators (other l List.mem_cons_self) inner n left

theorem confined_assignment (he : Confined expression) : Confined (assignment expression) := by
  have operands : Confined (logicOr expression) := by
    rw [logicOr_eq]
    exact confined_operation he precedence (by decide)
  refine confined_bind operands fun target => ?_
  refine confined_bind (confined_accept (by decide)) fun equals => ?_
  cases equals with
  | none => exact confined_pure target
  | some equals =>
    refine confined_bind (confined_accept (by decide)) fun brace => ?_
    cases brace with
    | none =>
      refine confined_bind he fun value => ?_
      split
      · exact confined_bind confined_freshId fun _ => confined_pure _
      · exact confined_bind confined_freshId fun _ => confined_pure _
      · exact confined_reject _ _
    | some t =>
      dsimp only
      split
      · refine confined_bind (confined_elements he) fun items => ?_
        exact confined_bind confined_freshId fun _ => confined_pure _
      · exact confined_reject _ _

end Rules

theorem confined_nested (depth : Nat) : Confined (nested depth) := by
  induction depth with
  | zero => exact confined_bind confined_peek fun t => confined_reject _ t
  | succ depth ih => exact confined_assignment ih

/-- No expression goes beyond a semicolon, and neither does a rejected one. -/
theorem confined_expression : Confined expression :=
  confined_bind confined_remaining fun n => confined_nested (n + 1)

/-! ## A broken statement -/

/-- The tokens at which a statement ends or begins. -/
def boundaries : List TokenKind :=
  [.semicolon, .leftBrace, .rightBrace, .eof, .else, .if, .while, .break, .continue, .return, .int,
    .float, .bool, .void]

section

variable {all broken after : List Token} {stop : Token} {c : Cursor}

/-- A broken statement begins with one of its tokens or consists of its semicolon alone. -/
theorem head_of_broken (after : List Token) (plain : ∀ t ∈ broken, t.kind ∉ boundaries)
    (hstop : stop.kind = .semicolon) :
    ∃ t rest, broken ++ stop :: after = t :: rest ∧
      (t.kind ∉ boundaries ∨ t.kind = .semicolon) := by
  cases broken with
  | nil => exact ⟨stop, after, rfl, .inr hstop⟩
  | cons t broken => exact ⟨t, broken ++ stop :: after, rfl, .inl (plain t List.mem_cons_self)⟩

theorem expect_rejects {kind : TokenKind} (what : Expectation) (stops : Stops [kind] c.rest) :
    ∃ r, expect kind what c = .error r c := by
  obtain ⟨found, c', run, rfl, hc⟩ :
      Yields (accept kind) c fun found c' => found = none ∧ c' = c := yields_leave stops ⟨rfl, rfl⟩
  rw [hc] at run
  exact ⟨⟨.expected what, c.rest.headD c.endMark⟩, bind_of_ok run⟩

/-- If the tokens before a semicolon are no expression, then they are rejected before it. -/
theorem expressionStatement_rejects (on : c.On all) (hr : c.rest = broken ++ stop :: after)
    (plain : ∀ t ∈ broken, t.kind ≠ .semicolon) (hstop : stop.kind = .semicolon)
    (wrong : ∀ e, ¬ Expression broken e) :
    ∃ r c' left, expressionStatement c = .error r c' ∧ left <:+ broken ∧
      c'.rest = left ++ stop :: after ∧ c'.log = c.log := by
  have within := confined_expression c
  unfold reached at within
  cases run : expression c with
  | error r c' =>
    rw [run] at within
    obtain ⟨front, left, rfl, hleft⟩ := within.before hr hstop
    exact ⟨r, c', left, bind_of_error run, List.suffix_append front left, hleft, within.log⟩
  | ok e c' =>
    rw [run] at within
    obtain ⟨front, left, rfl, hleft⟩ := within.before hr hstop
    obtain ⟨-, -, ts, hts, derived⟩ := (sound_expression c on).of_ok run
    have consumed : ts = front := by
      rw [hr, hleft, List.append_assoc] at hts
      exact (List.append_cancel_right hts).symm
    subst consumed
    -- An expression that ends right before the semicolon would be the whole statement.
    have stops : Stops [.semicolon] c'.rest := by
      cases left with
      | nil =>
        rw [List.append_nil] at wrong
        exact absurd derived (wrong _)
      | cons t left =>
        rw [hleft]
        exact stops_cons (by simpa using plain t (by simp))
    obtain ⟨r, missing⟩ := expect_rejects .expressionEnd stops
    refine ⟨r, c', left, ?_, List.suffix_append ts left, hleft, within.log⟩
    exact (bind_of_ok run).trans (bind_of_error missing)

/-- Resumption stops right behind a semicolon. -/
theorem resume_semicolon (hstop : stop.kind = .semicolon) (ts : List Token) :
    Cursor.resume stop ts = ts := by
  cases ts with
  | nil => rfl
  | cons t ts => rw [Cursor.resume, if_pos (.inl hstop)]

theorem boundary_of_startsStatement {kind : TokenKind}
    (h : Cursor.startsStatement kind = true) : kind ∈ boundaries := by
  cases kind <;> first | decide | cases h

/-- Resumption passes over everything up to the first semicolon, if no statement begins before
it. -/
theorem resume_behind (hstop : stop.kind = .semicolon) {left : List Token}
    (plain : ∀ t ∈ left, t.kind ∉ boundaries) {last : Token} (hlast : last.kind ∉ boundaries) :
    Cursor.resume last (left ++ stop :: after) = after := by
  have onward : ∀ {last t : Token} {rest : List Token}, last.kind ∉ boundaries →
      Cursor.startsStatement t.kind = false →
      Cursor.resume last (t :: rest) = Cursor.resume t rest := by
    intro last t rest hlast ht
    rw [Cursor.resume, if_neg]
    rintro (h | h)
    · exact hlast (h ▸ by decide)
    · rw [ht] at h
      cases h
  induction left generalizing last with
  | nil => rw [List.nil_append, onward hlast (hstop ▸ rfl), resume_semicolon hstop]
  | cons t left ih =>
    have ht := plain t List.mem_cons_self
    rw [List.cons_append, onward hlast (Bool.eq_false_iff.2 (mt boundary_of_startsStatement ht))]
    exact ih (fun u hu => plain u (List.mem_cons_of_mem t hu)) ht

theorem synchronize_behind (hstop : stop.kind = .semicolon) {left : List Token}
    (plain : ∀ t ∈ left, t.kind ∉ boundaries) (hr : c.rest = left ++ stop :: after) :
    c.synchronize = { c with rest := after } := by
  unfold Cursor.synchronize
  rw [hr]
  cases left with
  | nil => simp only [List.nil_append, resume_semicolon hstop]
  | cons t left =>
    simp only [List.cons_append]
    rw [resume_behind hstop (fun u hu => plain u (List.mem_cons_of_mem t hu))
      (plain t List.mem_cons_self)]

/-- At a token that is no keyword and no brace, a declaration is an expression statement. -/
theorem declarationBody_expression {block : Parser (List Stmt)} {t : Token} {rest : List Token}
    (hr : c.rest = t :: rest) (ht : t.kind ∉ boundaries ∨ t.kind = .semicolon) :
    declarationBody block c = expressionStatement c := by
  have untyped : ∀ {kind : TokenKind}, kind ∉ boundaries ∨ kind = .semicolon →
      kind.type? = none := by
    intro kind hk
    cases kind <;> first | rfl | exact absurd hk (by decide)
  have peeked : peek c = .ok t c := by
    unfold peek
    rw [hr]
    rfl
  calc declarationBody block c
      _ = statement block c := by
        unfold declarationBody
        rw [bind_of_ok peeked, untyped ht]
      _ = statementWithin block (c.rest.length + 1) c := bind_of_ok rfl
      _ = expressionStatement c := by
        rw [statementWithin, bind_of_ok peeked]
        cases hk : t.kind <;> first | rfl | exact absurd (hk ▸ ht) (by decide)

/-- A broken statement up to its semicolon is left out with one report. -/
theorem declaration_recovers (depth : Nat) (on : c.On all)
    (hr : c.rest = broken ++ stop :: after) (plain : ∀ t ∈ broken, t.kind ∉ boundaries)
    (hstop : stop.kind = .semicolon) (wrong : ∀ e, ¬ Expression broken e) :
    ∃ r : Rejection, Yields (declaration (depth + 1)) c fun found c' =>
      found = none ∧ c'.rest = after ∧ c'.log = c.log ++ [r.diagnostic] := by
  obtain ⟨t, rest, ahead, ht⟩ := head_of_broken after plain hstop
  have here : declarationBody (blockOf (declaration depth)) c = expressionStatement c :=
    declarationBody_expression (hr.trans ahead) ht
  obtain ⟨r, c', left, rejected, hleft, hrest, hlog⟩ := expressionStatement_rejects on hr
    (fun t ht e => plain t ht (e ▸ by decide)) hstop wrong
  have synchronized := synchronize_behind (c := { c' with log := c'.log ++ [r.diagnostic] }) hstop
    (fun t ht => plain t (hleft.subset ht)) hrest
  refine ⟨r, none, { c' with log := c'.log ++ [r.diagnostic], rest := after }, ?_, rfl, rfl, ?_⟩
  · unfold declaration recover
    rw [here, rejected]
    exact congrArg _ synchronized
  · rw [← hlog]

/-- A declaration that is left out does not end the program. -/
theorem yields_declarations_none {declaration : Parser (Option Stmt)} {limit : Nat}
    {ss : List Stmt} {post : List Stmt → Cursor → Prop} {t : Token} {rest : List Token}
    (hr : c.rest = t :: rest)
    (h : Yields declaration c fun found c' =>
      found = none ∧ Yields (declarations false declaration limit ss) c' post) :
    Yields (declarations false declaration (limit + 1) ss) c post := by
  rw [declarations]
  refine yields_bind (yields_check hr ?_)
  rw [if_neg (by simp)]
  refine yields_bind (yields_remaining ?_)
  rw [if_neg (by rw [hr]; simp)]
  refine yields_then h ?_
  rintro found c' ⟨rfl, next⟩
  exact next

/-- Declarations, a broken statement, and declarations again. -/
theorem yields_program_broken {before : List Token} {first second : List Stmt}
    (hfirst : Many (Declaration true (Block true)) before first)
    (hsecond : Many (Declaration true (Block true)) after second) (on : c.On all)
    (hr : c.rest = before ++ (broken ++ stop :: after)) (plain : ∀ t ∈ broken, t.kind ∉ boundaries)
    (hstop : stop.kind = .semicolon) (wrong : ∀ e, ¬ Expression broken e) :
    Yields program c fun ss c' =>
      ss.map Stmt.unnumbered = (first ++ second).foldl hoist [] ∧
        ∃ r : Rejection, c'.log = c.log ++ [r.diagnostic] := by
  have begins : ∀ ts s, Declaration true (Block true) ts s → Begins declarationKinds ts :=
    fun _ _ h => h.begins fun _ _ => Block.begins
  have size : c.rest.length = before.length + (broken.length + (after.length + 1)) := by
    rw [hr, List.length_append, List.length_append, List.length_cons]
  obtain ⟨t, rest, ahead, ht⟩ := head_of_broken after plain hstop
  have stops : Stops [.else] (broken ++ stop :: after) := by
    rw [ahead]
    apply stops_cons
    intro h
    rw [List.mem_singleton.1 h] at ht
    exact absurd ht (by decide)
  refine yields_bind (yields_remaining ?_)
  refine yields_many (·.On all) begins ?_ hfirst _ [] c (broken ++ stop :: after) _
    (Nat.le_refl _) (by omega) on hr stops ?_
  · intro ts s h hts c' rest on' hr' stops'
    obtain ⟨found, c'', run, s', hfound, hs, past⟩ :=
      yields_declaration (c.rest.length + 1) ts s h (by omega) c' rest hr' stops'
    exact ⟨found, c'', run, s', hfound, hs, past, ((writes_declaration _ c' on').of_ok run).1.on⟩
  · rintro limit ss c₁ hlimit hss ⟨hrest, hlog⟩ on₁
    obtain ⟨limit, rfl⟩ := Nat.exists_eq_succ_of_ne_zero (by omega : limit ≠ 0)
    obtain ⟨r, recovered⟩ := declaration_recovers c.rest.length on₁ hrest plain hstop wrong
    refine yields_declarations_none (hrest.trans ahead) (recovered.mono ?_)
    rintro found c₂ ⟨rfl, hrest₂, hlog₂⟩
    refine ⟨rfl, ?_⟩
    have finished : Ends false ([] : List Token) := rfl
    refine (yields_declarations begins ?_ hsecond limit ss c₂ [] (Nat.le_refl _) (by omega)
      (by rw [hrest₂, List.append_nil]) finished).mono ?_
    · intro ts s h hts
      exact yields_declaration (c.rest.length + 1) ts s h (by omega)
    · rintro ss' c₃ ⟨hss', -, hlog₃⟩
      refine ⟨?_, r, ?_⟩
      · rw [hss', hss, List.map_nil, List.foldl_append]
      · rw [hlog₃, hlog₂, hlog]

end

end Parser

/-! ## Programs -/

theorem derived_of_clean {ts : List Token} (inner : ∀ t ∈ ts, t.kind ≠ .eof)
    (clean : (parse ts).diagnostics = []) :
    ∃ body, Many (Declaration true (Block true)) ts body := by
  obtain ⟨body, hbody, -⟩ := parse_arranged clean
  have whole := takeWhile_ended inner (.inl rfl)
  rw [List.append_nil] at whole
  rw [whole] at hbody
  exact ⟨body, hbody⟩

/-- An error is contained. Let tokens that are no expression, and among which none looks like the
end or the beginning of a statement, stand before a semicolon between two programs. Then parsing
reports one problem and answers what it answers to the two programs alone, apart from the numbers
of expressions. -/
theorem parse_recovers (before broken after ending : List Token) (stop : Token)
    (inner : ∀ t ∈ before ++ after, t.kind ≠ .eof) (ended : ending = [] ∨ Begins [.eof] ending)
    (clean : (parse before).diagnostics = []) (clean' : (parse after).diagnostics = [])
    (plain : ∀ t ∈ broken, t.kind ∉ Parser.boundaries) (hstop : stop.kind = .semicolon)
    (wrong : ∀ e, ¬ Statement true (Block true) (broken ++ [stop]) (.expression e)) :
    (∃ problem line location, (parse (before ++ broken ++ stop :: after ++ ending)).diagnostics =
      [⟨.parse problem, line, location⟩]) ∧
    (parse (before ++ broken ++ stop :: after ++ ending)).statements.map Stmt.unnumbered =
      (parse (before ++ after ++ ending)).statements.map Stmt.unnumbered := by
  have hbefore : ∀ t ∈ before, t.kind ≠ .eof := fun t ht => inner t (List.mem_append_left _ ht)
  have hafter : ∀ t ∈ after, t.kind ≠ .eof := fun t ht => inner t (List.mem_append_right _ ht)
  obtain ⟨first, hfirst⟩ := derived_of_clean hbefore clean
  obtain ⟨second, hsecond⟩ := derived_of_clean hafter clean'
  have whole : ∀ t ∈ before ++ (broken ++ stop :: after), t.kind ≠ .eof := by
    intro t ht
    simp only [List.mem_append, List.mem_cons] at ht
    rcases ht with ht | ht | rfl | ht
    · exact hbefore t ht
    · exact fun e => plain t ht (e ▸ by decide)
    · exact fun e => absurd (hstop.symm.trans e) (by decide)
    · exact hafter t ht
  have notExpression : ∀ e, ¬ Expression broken e := fun e he => wrong e (.expression he hstop)
  obtain ⟨ss, c, run, hss, r, hlog⟩ := Parser.yields_program_broken hfirst hsecond
    (Cursor.start_on _) (takeWhile_ended whole ended) plain hstop notExpression
  have contained : parse (before ++ broken ++ stop :: after ++ ending) = ⟨ss, c.log⟩ := by
    rw [List.append_assoc before broken, parse, run]
  rw [contained, (parse_many inner ended (hfirst.append hsecond)).2]
  refine ⟨⟨r.problem, r.token.line, r.token.location, hlog⟩, ?_⟩
  rw [hss, Parser.foldl_hoist]

/-- The token of the number 1. -/
def Token.one : Token :=
  { Token.bare .intNumber "1" with literal := some (.int 1) }

/-- The tokens of `int x = 1;`. -/
def declareX : List Token :=
  [.bare .int "int", .bare .identifier "x", .bare .equal "=", .one, .bare .semicolon ";"]

/-- The tokens of `1 = x`. -/
def assignToOne : List Token :=
  [.one, .bare .equal "=", .bare .identifier "x"]

/-- The tokens of `{ x; }`. -/
def blockOfX : List Token :=
  [.bare .leftBrace "\x7b", .bare .identifier "x", .bare .semicolon ";",
   .bare .rightBrace "\x7d"]

/-- That an assignment has no valid target is found out at its end. The declaration before it and
the block behind it are kept. -/
theorem parse_recovers_assignment :
    (∃ problem line location,
      (parse (declareX ++ assignToOne ++ .bare .semicolon ";" :: blockOfX ++
        [.endMark 1 0])).diagnostics = [⟨.parse problem, line, location⟩]) ∧
    (parse (declareX ++ assignToOne ++ .bare .semicolon ";" :: blockOfX ++
      [.endMark 1 0])).statements.map Stmt.unnumbered =
      (parse (declareX ++ blockOfX ++ [.endMark 1 0])).statements.map Stmt.unnumbered := by
  refine parse_recovers _ _ _ _ _ (by decide) (.inr (.cons (by decide))) (by decide +kernel)
    (by decide +kernel) (by decide) rfl ?_
  intro e h
  have program : Program true (assignToOne ++ [.bare .semicolon ";"] ++ [] ++ [.endMark 1 0]) _ :=
    .mk (.cons (.statement h) .nil) rfl
  exact absurd (parse_accepted (by decide) program).1 (by decide +kernel)

end TickScript
