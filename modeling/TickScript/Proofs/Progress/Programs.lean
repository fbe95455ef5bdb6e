import TickScript.Proofs.Progress

/-!
# Parsing comes to its end

A declaration that is read in front of a token gets on, although it recovers from rejections
(`proceed_recover`): what was rejected is either the token ahead, which is passed when the parser
looks for the next statement, or comes behind a token that was passed before. So blocks and programs
are lists of declarations, each of which starts further on than the one before (`Loop`), and all the
recursions of the grammar come to their end (`terminates`).
-/

namespace TickScript

open Grammar

namespace Parser

variable {α β : Type}

/-! ## Statements -/

/-- A round of `statementWithin`. -/
def statementRound (block : Parser (List Stmt)) (again : Parser Stmt) : Parser Stmt := do
  let keyword ← peek
  match keyword.kind with
  | .if =>
    skip
    let test ← condition .ifStart .ifEnd
    let yes ← again
    match ← accept .else with
    | some _ => return .ifElse keyword test yes (← again)
    | none => return .ifThen keyword test yes
  | .return =>
    skip
    returnStatement keyword
  | .break =>
    skip
    let _ ← expect .semicolon .breakEnd
    return .break keyword
  | .continue =>
    skip
    let _ ← expect .semicolon .continueEnd
    return .continue keyword
  | .while =>
    skip
    let test ← condition .whileStart .whileEnd
    return .while keyword test (← again)
  | .leftBrace =>
    skip
    return .block (← block)
  | _ => expressionStatement

/-- A round of `declarations`. -/
def declarationsRound (inBlock : Bool) (declaration : Parser (Option Stmt))
    (more : List Stmt → Parser (List Stmt)) (statements : List Stmt) : Parser (List Stmt) := do
  if inBlock && (← check .rightBrace) then return statements
  if (← remaining) = 0 then return statements
  match ← declaration with
  | some s => more (hoist statements s)
  | none => more statements

theorem statementWithin_succ (block : Parser (List Stmt)) (depth : Nat) :
    statementWithin block (depth + 1) = statementRound block (statementWithin block depth) := rfl

theorem declarations_succ (inBlock : Bool) (declaration : Parser (Option Stmt)) (limit : Nat)
    (statements : List Stmt) : declarations inBlock declaration (limit + 1) statements =
      declarationsRound inBlock declaration (declarations inBlock declaration limit) statements :=
  rfl

section Statements

variable {n : Nat} {block block' : Parser (List Stmt)}

theorem earn_expressionStatement (n : Nat) :
    Earn (n + 1) expressionStatement expressionStatement :=
  earn_bind (earn_expression _) fun _ => agree_bind (goes_expect _ _ n) fun _ => goes_pure _ n

theorem goes_returnStatement (keyword : Token) : Goes (returnStatement keyword) := by
  refine goes_bind (goes_check _) fun closed => ?_
  have finish : ∀ value, Goes (expect .semicolon .returnEnd >>= fun _ =>
      pure (Stmt.return keyword value)) :=
    fun value => goes_bind (goes_expect _ _) fun _ => goes_pure _
  cases closed with
  | true => exact goes_bind (goes_pure none) finish
  | false => exact goes_bind (goes_bind goes_expression fun e => goes_pure (some e)) finish

theorem goes_condition (start finish : Expectation) : Goes (condition start finish) :=
  goes_bind (goes_expect _ _) fun _ => goes_bind goes_expression fun e =>
    goes_bind (goes_expect _ _) fun _ => goes_pure e

/-- Every statement further in stands behind the keyword of the outer one, and so does a block. -/
theorem earn_statementRound {again again' : Parser Stmt} (hb : Agree n block block')
    (ha : Agree n again again') :
    Earn (n + 1) (statementRound block again) (statementRound block' again') := by
  refine earn_peek fun c mark hn => ?_
  generalize htoken : c.rest.headD c.endMark = keyword
  cases hk : keyword.kind
  case «if» =>
    refine earnAt_skip mark hn htoken (by simp [hk]) ?_
    refine agree_bind (goes_condition _ _ n) fun test => ?_
    refine agree_bind ha fun yes => agree_bind (goes_accept _ n) fun found => ?_
    cases found with
    | none => exact goes_pure _ n
    | some t => exact agree_bind ha fun no => goes_pure _ n
  case «return» =>
    exact earnAt_skip mark hn htoken (by simp [hk]) (goes_returnStatement keyword n)
  case «break» | «continue» =>
    refine earnAt_skip mark hn htoken (by simp [hk]) ?_
    exact agree_bind (goes_expect _ _ n) fun _ => goes_pure _ n
  case «while» =>
    refine earnAt_skip mark hn htoken (by simp [hk]) ?_
    refine agree_bind (goes_condition _ _ n) fun test => ?_
    exact agree_bind ha fun body => goes_pure _ n
  case leftBrace =>
    refine earnAt_skip mark hn htoken (by simp [hk]) ?_
    exact agree_bind hb fun body => goes_pure _ n
  all_goals exact earn_expressionStatement n c mark hn

theorem earn_statementWithin (hb : Agree n block block') (depth : Nat) :
    Earn (n + 1) (statementWithin block depth) (statementWithin block' depth) := by
  induction depth with
  | zero => exact earn_expressionStatement n
  | succ depth ih => exact earn_statementRound hb (ih.agree.mono (Nat.le_succ n))

theorem earn_statement (hb : Agree n block block') :
    Earn (n + 1) (statement block) (statement block') :=
  earn_remaining fun k => earn_statementWithin hb (k + 1)

theorem goes_scalarInitializer : Goes scalarInitializer := by
  refine goes_bind (goes_accept _) fun equals => ?_
  cases equals with
  | none => exact goes_pure _
  | some t => exact goes_bind goes_expression fun e => goes_pure _

theorem goes_elements : Goes (elements expression) :=
  fun n => agree_elements (goes_expression n)

theorem goes_arrayInitializer : Goes arrayInitializer := by
  refine goes_bind (goes_accept _) fun equals => ?_
  cases equals with
  | none => exact goes_pure _
  | some t =>
    refine goes_bind (goes_accept _) fun brace => ?_
    cases brace with
    | none => exact goes_bind goes_expression fun e => goes_pure _
    | some t => exact goes_bind goes_elements fun es => goes_pure _

theorem goes_bracketed (type : Ty) : Goes (bracketed type) := by
  refine goes_bind (goes_accept _) fun bracket => ?_
  cases bracket with
  | none => exact goes_pure _
  | some t => exact goes_bind (goes_expect _ _) fun _ => goes_pure _

theorem goes_parameter (count : Nat) : Goes (parameter count) := by
  refine goes_bind goes_peek fun token => ?_
  dsimp only
  split
  · -- What stands behind a rejection plays no part.
    exact goes_still fun _ => ⟨rfl, rfl, rfl⟩
  · split
    · exact goes_reject _ token
    · exact goes_reject _ token
    · refine goes_bind goes_skip fun _ => goes_bind (goes_bracketed _) fun type => ?_
      exact goes_bind (goes_expect _ _) fun name => goes_pure _

theorem agree_function (hb : Agree n block block') (name : Token) (returnType : Ty) :
    Agree n (function block name returnType) (function block' name returnType) := by
  refine agree_bind (agree_listUntil _ fun k => goes_parameter k n) fun ps => ?_
  refine agree_bind (goes_expect _ _ n) fun _ => agree_bind (goes_expect _ _ n) fun _ => ?_
  exact agree_bind hb fun body => goes_pure _ n

theorem agree_named (hb : Agree n block block') (type : Ty) {initializer : Parser Initializer}
    (hi : Goes initializer) : Agree n (named block type initializer)
      (named block' type initializer) := by
  refine agree_bind (goes_expect _ _ n) fun name => agree_bind (goes_accept _ n) fun paren => ?_
  cases paren with
  | some t => exact agree_function hb name type
  | none =>
    have initialized : Agree n (do
        let start ← initializer
        let _ ← expect .semicolon .declarationEnd
        return Stmt.declare name type start) _ :=
      agree_bind (hi n) fun start => agree_bind (goes_expect _ _ n) fun _ => goes_pure _ n
    dsimp only
    split
    · exact agree_bind (goes_reject _ name n) fun _ => initialized
    · exact initialized

theorem agree_typedDeclaration (hb : Agree n block block') (keyword : Token) (type : Ty) :
    Agree n (typedDeclaration block keyword type) (typedDeclaration block' keyword type) := by
  refine agree_bind (goes_accept _ n) fun bracket => ?_
  cases bracket with
  | none => exact agree_named hb type goes_scalarInitializer
  | some t =>
    refine agree_bind (goes_expect _ _ n) fun _ => ?_
    have array := agree_named hb type.arrayOf goes_arrayInitializer
    split
    · exact agree_bind (goes_reject _ keyword n) fun _ => array
    · exact array

/-- A block stands behind a token of its declaration. -/
theorem earn_declarationBody (hb : Agree n block block') :
    Earn (n + 1) (declarationBody block) (declarationBody block') := by
  refine earn_peek fun c mark hn => ?_
  generalize htoken : c.rest.headD c.endMark = token
  cases hk : token.kind.type? with
  | none => exact earn_statement hb c mark hn
  | some type =>
    refine earnAt_skip mark hn htoken ?_ (agree_typedDeclaration hb token type)
    intro e
    rw [e] at hk
    cases hk

end Statements

/-! ## Declarations -/

/-- A cursor in front of a token. -/
def Facing (c : Cursor) : Prop :=
  Marked c ∧ c.rest ≠ []

/-- The cursor `c'` is further on than `c`. -/
def Advances (c c' : Cursor) : Prop :=
  c.Ahead 0 c' ∧ c'.rest.length < c.rest.length

/-- In front of a token with fewer than `n` behind it, both parsers do the same and get on. -/
abbrev Proceed (n : Nat) (p q : Parser α) : Prop :=
  Below Facing Advances n p q

section Declarations

variable {n : Nat} {inBlock : Bool} {d d' : Parser (Option Stmt)}

/-- Synchronizing passes the token ahead, if there is one. -/
theorem synchronize_passes (c : Cursor) : c.synchronize.rest <:+ c.rest.tail ∧
    c.synchronize.endMark = c.endMark ∧ c.synchronize.log = c.log := by
  unfold Cursor.synchronize
  cases hr : c.rest with
  | nil => exact ⟨by simp [hr], rfl, rfl⟩
  | cons t rest => exact ⟨resume_suffix t rest, rfl, rfl⟩

/-- A rejection is reported, and paid with the token that was rejected or with one that was passed
before. -/
theorem proceed_recover {p q : Parser Stmt} (h : Earn n p q) :
    Proceed n (recover p) (recover q) := by
  rintro c ⟨mark, facing⟩ hn
  obtain ⟨same, earned⟩ := h c mark hn
  refine ⟨by unfold recover; rw [same], ?_⟩
  have some_token : 0 < c.rest.length := List.length_pos_iff.2 facing
  cases run : p c with
  | ok s c' =>
    rw [run] at earned
    have shorter := earned.length
    rw [reached, recover, run]
    exact ⟨earned.weaken (Nat.zero_le 1), by dsimp only; omega⟩
  | error r c' =>
    rw [run] at earned
    rw [reached, recover, run]
    obtain ⟨suffix, endMark, log⟩ :=
      synchronize_passes { c' with log := c'.log ++ [r.diagnostic] }
    have shorter := suffix.length_le
    rw [List.length_tail] at shorter
    dsimp only at suffix endMark log shorter ⊢
    rcases earned with rfl | passed
    · refine ⟨⟨suffix.trans (List.tail_suffix _), endMark, [r], log, ?_⟩, ?_⟩
      · rw [List.length_singleton]
        omega
      · omega
    · obtain ⟨rs, log', paid⟩ := passed.reports
      refine ⟨⟨(suffix.trans (List.tail_suffix _)).trans passed.rest, endMark.trans passed.mark,
        rs ++ [r], ?_, ?_⟩, ?_⟩
      · rw [log, log', List.map_append, List.append_assoc]
        rfl
      · rw [List.length_append, List.length_singleton]
        omega
      · omega

/-- The declarations of a list are asked for in front of tokens only. -/
theorem agree_declarationsRound {more more' : List Stmt → Parser (List Stmt)}
    (hd : Proceed (n + 1) d d') (hm : ∀ ss, Agree n (more ss) (more' ss)) (ss : List Stmt) :
    Agree (n + 1) (declarationsRound inBlock d more ss)
      (declarationsRound inBlock d' more' ss) := by
  refine agree_bind (goes_check _ _) fun closed => ?_
  split
  · exact goes_pure _ _
  · intro c mark hn
    have size : remaining c = .ok c.rest.length c := rfl
    rw [bind_of_ok size, bind_of_ok size, reached_bind size]
    by_cases hr : c.rest.length = 0
    · rw [if_pos hr, if_pos hr]
      exact goes_pure ss _ c mark hn
    · rw [if_neg hr, if_neg hr]
      have facing : c.rest ≠ [] := fun e => hr (by rw [e]; rfl)
      obtain ⟨same, lead, shorter⟩ := hd c ⟨mark, facing⟩ hn
      cases run : d c with
      | error r c' =>
        rw [reached_of_error run] at lead
        rw [bind_of_error run, bind_of_error (same ▸ run), reached_of_error (bind_of_error run)]
        exact ⟨rfl, lead⟩
      | ok found c' =>
        rw [reached_of_ok run] at lead shorter
        rw [bind_of_ok run, bind_of_ok (same ▸ run), reached_bind run]
        have mark' : Marked c' := mark.ahead lead
        cases found with
        | none =>
          obtain ⟨same', lead'⟩ := hm ss c' mark' (by omega)
          exact ⟨same', lead.trans lead'⟩
        | some s =>
          obtain ⟨same', lead'⟩ := hm (hoist ss s) c' mark' (by omega)
          exact ⟨same', lead.trans lead'⟩

theorem agree_declarations (hd : Proceed n d d') (limit : Nat) :
    ∀ ss, Agree n (declarations inBlock d limit ss) (declarations inBlock d' limit ss) := by
  induction limit with
  | zero => exact fun _ => goes_pure _ n
  | succ limit ih =>
    intro ss
    refine agree_of_succ ?_
    rintro m rfl
    exact agree_declarationsRound hd (fun ss => (ih ss).mono (Nat.le_succ m)) ss

theorem agree_blockOf (hd : Proceed n d d') : Agree n (blockOf d) (blockOf d') := by
  refine agree_bind (goes_remaining n) fun k => ?_
  refine agree_bind (agree_declarations hd k []) fun body => ?_
  exact agree_bind (goes_expect _ _ n) fun _ => goes_pure body n

/-- A declaration in a block stands behind a token of the declaration around it. -/
theorem proceed_declaration (hd : Proceed n d d') :
    Proceed (n + 1) (recover (declarationBody (blockOf d)))
      (recover (declarationBody (blockOf d'))) :=
  proceed_recover (earn_declarationBody (agree_blockOf hd))

end Declarations

/-! ## Recursion without bounds -/

/-- A declaration, however deep its blocks nest. -/
def anyDeclaration : Parser (Option Stmt) :=
  unbounded 1 (fun depth (_ : Unit) => declaration depth) ()

/-- A block behind its opening brace, however deep its blocks nest. -/
def anyBlock : Parser (List Stmt) :=
  blockOf anyDeclaration

theorem contracts_declaration : Contracts Facing Advances
    fun (d : Unit → Parser (Option Stmt)) _ => recover (declarationBody (blockOf (d ()))) :=
  fun _ _ _ h _ => proceed_declaration (h ())

theorem below_zero {admits : Cursor → Prop} {leads : Cursor → Cursor → Prop} {p q : Parser α} :
    Below admits leads 0 p q :=
  fun _ _ h => absurd h (Nat.not_lt_zero _)

/-- With enough depth a declaration is read as if there were no bound. -/
theorem proceed_anyDeclaration {n depth : Nat} (h : n ≤ depth) :
    Proceed n anyDeclaration (declaration depth) :=
  contracts_declaration.settle (fun depth _ => declaration depth) 0 1 (fun _ _ => rfl)
    (fun _ => below_zero) (Nat.le_refl 1) h ()

theorem proceeds_anyDeclaration (n : Nat) : Proceed n anyDeclaration anyDeclaration :=
  (proceed_anyDeclaration (Nat.le_refl n)).trans (proceed_anyDeclaration (Nat.le_refl n)).symm

theorem goes_anyBlock : Goes anyBlock :=
  fun n => agree_blockOf (proceeds_anyDeclaration n)

/-- The recursions and loops of the grammar, each with its round. They come to their end, because
every round asks for the next one with fewer tokens ahead. Declarations are asked for in front of
a token only; how they follow each other in a list is said by `Loop`. -/
structure Terminates : Prop where
  expression : Descends Marked (Cursor.Ahead 0) (fun _ : Unit => Parser.expression)
    fun e _ => assignment (e ())
  statement : Descends Marked (Cursor.Ahead 0) (fun _ : Unit => Parser.statement anyBlock)
    fun s _ => statementRound anyBlock (s ())
  declaration : Descends Facing Advances (fun _ : Unit => anyDeclaration)
    fun d _ => recover (declarationBody (blockOf (d ())))
  separated : ∀ {α : Type} (item : Nat → Parser α), (∀ k, Goes (item k)) →
    Descends Marked (Cursor.Ahead 0) (unbounded 1 (Parser.separated item)) (separatedRound item)
  operators : ∀ kinds node operand, Goes operand →
    Descends Marked (Cursor.Ahead 0) (unbounded 0 (Parser.operators kinds node operand))
      (operatorsRound kinds node operand)
  calls : Descends Marked (Cursor.Ahead 0) (unbounded 0 (Parser.calls Parser.expression))
    (callsRound Parser.expression)
  signs : Descends Marked (Cursor.Ahead 0)
    (unbounded 0 fun k (_ : Unit) => Parser.signs (call Parser.expression) k)
    fun s _ => signsRound (call Parser.expression) (s ())

/-- At the end of the list no operator is taken. -/
theorem agree_finished {kinds : List TokenKind} {p : Parser α} {f : Option Token → Parser α}
    (hp : Goes p) (hnone : f none = p) : Agree 1 p (acceptAny kinds >>= f) := by
  intro c mark hn
  have finished : acceptAny kinds c = .ok none c := by
    rw [acceptAny, List.eq_nil_of_length_eq_zero (Nat.lt_one_iff.1 hn)]
  rw [bind_of_ok finished, hnone]
  exact hp 1 c mark hn

theorem terminates : Terminates where
  expression := by
    refine Contracts.descends (fun depth _ => nested depth) 0 1 ?_ (fun _ _ => rfl)
      (fun _ => below_zero) (Nat.le_refl 1)
    exact fun _ _ _ h _ => (earn_assignment (h ())).agree
  statement := by
    refine Contracts.descends (fun depth _ => statementWithin anyBlock depth) 0 1 ?_
      (fun depth _ => statementWithin_succ anyBlock depth) (fun _ => below_zero) (Nat.le_refl 1)
    exact fun n _ _ h _ => (earn_statementRound (goes_anyBlock n) (h ())).agree
  declaration :=
    contracts_declaration.descends (fun depth _ => declaration depth) 0 1 (fun _ _ => rfl)
      (fun _ => below_zero) (Nat.le_refl 1)
  separated item hi := by
    refine Contracts.descends _ 0 1 ?_ (fun _ _ => rfl) (fun _ => below_zero) (Nat.le_refl 1)
    exact fun n _ _ h => agree_separatedRound (fun k => hi k (n + 1)) h
  operators kinds node operand ho := by
    refine Contracts.descends _ 1 0 ?_ (fun _ _ => rfl) (fun left => ?_) (Nat.le_refl 1)
    · exact fun n _ _ h => agree_operatorsRound (ho n) h
    · exact agree_finished (goes_pure left) rfl
  calls := by
    refine Contracts.descends _ 1 0 ?_ (fun _ _ => rfl) (fun callee => ?_) (Nat.le_refl 1)
    · exact fun n _ _ h => agree_callsRound (goes_expression n) h
    · exact agree_finished (goes_pure callee) rfl
  signs := by
    have operand : ∀ n, Earn (n + 1) (call Parser.expression) (call Parser.expression) :=
      fun n => earn_call (goes_expression n)
    refine Contracts.descends _ 1 0 ?_ (fun _ _ => rfl) (fun _ => ?_) (Nat.le_refl 1)
    · exact fun n _ _ h _ => (earn_signsRound (operand n) (h ())).agree
    · exact agree_finished (fun n => (operand n).agree.mono (Nat.le_succ n)) rfl

/-! ## Lists of declarations -/

/-- A list of declarations ends here: there are no more tokens, or a block is closed. -/
def Closes (inBlock : Bool) (c : Cursor) : Prop :=
  c.rest = [] ∨ (inBlock = true ∧ ∃ t rest, c.rest = t :: rest ∧ t.kind = .rightBrace)

/-- Declarations are asked for one after another, each of which gets on, until the list ends. -/
inductive Loop (inBlock : Bool) : Cursor → List Stmt → Cursor → List Stmt → Prop where
  | done {c : Cursor} {ss : List Stmt} (h : Closes inBlock c) : Loop inBlock c ss c ss
  | next {c c' c'' : Cursor} {ss ss' : List Stmt} {found : Option Stmt} (h : ¬ Closes inBlock c)
      (call : anyDeclaration c = .ok found c') (advances : Advances c c')
      (rest : Loop inBlock c' (found.elim ss (hoist ss)) c'' ss') : Loop inBlock c ss c'' ss'

section Lists

variable {inBlock : Bool} {c c' : Cursor} {ss ss' : List Stmt}

theorem Loop.ends (h : Loop inBlock c ss c' ss') : Closes inBlock c' ∧ c.Ahead 0 c' := by
  induction h with
  | done h => exact ⟨h, .refl _⟩
  | next _ _ advances _ ih => exact ⟨ih.1, advances.1.trans ih.2⟩

/-- A declaration in front of a token answers, and gets on. -/
theorem anyDeclaration_advances (facing : Facing c) :
    ∃ found c', anyDeclaration c = .ok found c' ∧ Advances c c' := by
  have lead := (proceeds_anyDeclaration _ c facing (Nat.lt_succ_self _)).2
  cases run : anyDeclaration c with
  | ok found c' =>
    rw [reached_of_ok run] at lead
    exact ⟨found, c', rfl, lead⟩
  | error r c' =>
    -- What is rejected is left out, and so a declaration itself rejects nothing.
    have never : recover (declarationBody (blockOf (declaration c.rest.length))) c = .error r c' :=
      run
    unfold recover at never
    split at never <;> cases never

theorem closes_iff : Closes inBlock c ↔
    (inBlock && c.rest.head?.any (·.kind = .rightBrace)) = true ∨ c.rest.length = 0 := by
  unfold Closes
  cases hr : c.rest with
  | nil => simp
  | cons t rest => simp

/-- A round asks for a declaration unless the list ends. -/
theorem declarationsRound_run (d : Parser (Option Stmt)) (more : List Stmt → Parser (List Stmt)) :
    declarationsRound inBlock d more ss c =
      if inBlock && c.rest.head?.any (·.kind = .rightBrace) then .ok ss c
      else if c.rest.length = 0 then .ok ss c
      else (d >>= fun found => more (found.elim ss (hoist ss))) c := by
  have size : remaining c = .ok c.rest.length c := rfl
  rw [declarationsRound, bind_of_ok (check_eq _ c)]
  split
  · rfl
  · rw [bind_of_ok size]
    split
    · rfl
    · refine congrFun (bind_congr fun found => ?_) c
      cases found <;> rfl

/-- With a bound of as many declarations as there are tokens, a list comes to its own end. -/
theorem loop_declarations (inBlock : Bool) (limit : Nat) : ∀ (c : Cursor) (ss : List Stmt),
    Marked c → c.rest.length ≤ limit → ∃ c' ss',
      declarations inBlock anyDeclaration limit ss c = .ok ss' c' ∧ Loop inBlock c ss c' ss' := by
  induction limit with
  | zero =>
    intro c ss _ hl
    exact ⟨c, ss, rfl, .done (.inl (List.eq_nil_of_length_eq_zero (Nat.le_zero.1 hl)))⟩
  | succ limit ih =>
    intro c ss mark hl
    rw [declarations_succ]
    by_cases closed : Closes inBlock c
    · refine ⟨c, ss, ?_, .done closed⟩
      rw [declarationsRound_run]
      split
      · rfl
      · next other => rw [if_pos ((closes_iff.1 closed).resolve_left other)]
    · have facing : c.rest ≠ [] := fun e => closed (.inl e)
      obtain ⟨found, c', run, advances⟩ := anyDeclaration_advances ⟨mark, facing⟩
      have mark' : Marked c' := mark.ahead advances.1
      have shorter : c'.rest.length ≤ limit := by
        have := advances.2
        omega
      obtain ⟨c'', ss', rest, loop⟩ := ih c' (found.elim ss (hoist ss)) mark' shorter
      refine ⟨c'', ss', ?_, .next closed run advances loop⟩
      rw [closes_iff, not_or] at closed
      rw [declarationsRound_run, if_neg closed.1, if_neg closed.2, bind_of_ok run]
      exact rest

end Lists

end Parser

end TickScript
