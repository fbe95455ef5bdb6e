import TickScript.Proofs.Grammar.Shells
import TickScript.Proofs.Progress.Positions

/-!
# Numbers of expressions

The expressions of a program are numbered in the order in which the parser finishes them. Each
number is paid for with a token: a literal and a name with their own, an operation with its
operator, and anything else with a bracket or an equals sign. So there are never more numbers than tokens
passed, whether or not a parser answers (`Charged`), and in a list of tokens that is shorter than
the number of an expression without source text, no expression has this number
(`parse_numbered`).
-/

namespace TickScript

open Grammar

/-- From the one cursor to the other, no more numbers are given out than tokens are passed, but for
`credit` tokens that were passed before. -/
structure Cursor.Charges (credit : Nat) (c c' : Cursor) : Prop where
  mark : c'.endMark = c.endMark
  paid : c'.rest.length + c'.nextId ≤ c.rest.length + c.nextId + credit

namespace Cursor.Charges

variable {c c' c'' : Cursor} {i j : Nat}

theorem still (rest : c'.rest.length ≤ c.rest.length) (mark : c'.endMark = c.endMark)
    (nextId : c'.nextId = c.nextId) : c.Charges i c' :=
  ⟨mark, by rw [nextId]; omega⟩

theorem trans (h : c.Charges i c') (h' : c'.Charges j c'') : c.Charges (i + j) c'' :=
  ⟨h'.mark.trans h.mark, by have := h.paid; have := h'.paid; omega⟩

theorem mono (h : c.Charges i c') (hj : i ≤ j) : c.Charges j c' :=
  ⟨h.mark, Nat.le_trans h.paid (Nat.add_le_add_left hj _)⟩

/-- A token that is passed pays for what comes behind it. -/
theorem pass {t : Token} {rest : List Token} (hr : c.rest = t :: rest)
    (h : Cursor.Charges (i + 1) { c with rest } c') : c.Charges i c' := by
  obtain ⟨mark, paid⟩ := h
  refine ⟨mark, ?_⟩
  rw [hr, List.length_cons]
  dsimp only at paid
  omega

end Cursor.Charges

namespace Parser

variable {α β : Type} {k : Nat}

/-- The parser pays with the tokens that it passes, and with `credit` tokens that were passed
before. -/
def Charged (credit : Nat) (p : Parser α) : Prop :=
  ∀ c, Marked c → c.Charges credit (reached p c)

/-! ## Paying -/

theorem Marked.charges {c c' : Cursor} {i : Nat} (h : Marked c) (charges : c.Charges i c') :
    Marked c' := by
  rw [Marked, charges.mark]
  exact h

theorem Charged.mono {p : Parser α} {j : Nat} (h : Charged k p) (hj : k ≤ j) : Charged j p :=
  fun c mark => (h c mark).mono hj

theorem charged_bind {x : Parser β} {f : β → Parser α} (hx : Charged 0 x)
    (hf : ∀ b, Charged k (f b)) : Charged k (x >>= f) := by
  intro c mark
  have first := hx c mark
  cases run : x c with
  | error r c' =>
    rw [reached_of_error run] at first
    rw [reached_of_error (bind_of_error run)]
    exact first.mono (Nat.zero_le k)
  | ok b c' =>
    rw [reached_of_ok run] at first
    rw [reached_bind run, ← Nat.zero_add k]
    exact first.trans (hf b c' (mark.charges first))

/-- A parser that gives out no number. -/
theorem charged_still {p : Parser α} (h : ∀ c, (reached p c).rest.length ≤ c.rest.length ∧
    (reached p c).endMark = c.endMark ∧ (reached p c).nextId = c.nextId) : Charged k p :=
  fun c _ => .still (h c).1 (h c).2.1 (h c).2.2

theorem charged_pure (a : α) : Charged k (pure a : Parser α) :=
  charged_still fun _ => ⟨Nat.le_refl _, rfl, rfl⟩

theorem charged_reject (problem : ParseProblem) (token : Token) :
    Charged k (reject problem token : Parser α) :=
  charged_still fun _ => ⟨Nat.le_refl _, rfl, rfl⟩

theorem charged_peek : Charged k peek :=
  charged_still fun _ => ⟨Nat.le_refl _, rfl, rfl⟩

theorem charged_remaining : Charged k remaining :=
  charged_still fun _ => ⟨Nat.le_refl _, rfl, rfl⟩

theorem charged_skip : Charged k skip :=
  charged_still fun c => ⟨(List.tail_suffix c.rest).length_le, rfl, rfl⟩

theorem charged_check (kind : TokenKind) : Charged k (check kind) :=
  charged_still fun c => by rw [reached_of_ok (check_eq kind c)]; exact ⟨Nat.le_refl _, rfl, rfl⟩

/-- A number takes a token that was passed. -/
theorem charged_freshId {f : ExprId → Parser α} (hf : ∀ id, Charged k (f id)) :
    Charged (k + 1) (freshId >>= f) := by
  intro c mark
  have run : freshId c = .ok c.nextId { c with nextId := c.nextId + 1 } := rfl
  obtain ⟨mark', paid⟩ := hf c.nextId { c with nextId := c.nextId + 1 } mark
  rw [reached_bind run]
  exact ⟨mark', by dsimp only at paid; omega⟩

theorem charged_acceptAny {kinds : List TokenKind} {f : Option Token → Parser α}
    (hnone : Charged k (f none)) (hsome : ∀ t, Charged (k + 1) (f (some t))) :
    Charged k (acceptAny kinds >>= f) := by
  intro c mark
  cases hr : c.rest with
  | nil =>
    have run : acceptAny kinds c = .ok none c := by simp only [acceptAny, hr]
    rw [reached_bind run]
    exact hnone c mark
  | cons t rest =>
    by_cases hk : t.kind ∈ kinds
    · have run : acceptAny kinds c = .ok (some t) { c with rest } := by
        simp only [acceptAny, hr, if_pos hk]
      rw [reached_bind run]
      exact .pass hr (hsome t _ mark)
    · have run : acceptAny kinds c = .ok none c := by simp only [acceptAny, hr, if_neg hk]
      rw [reached_bind run]
      exact hnone c mark

theorem charged_accept {kind : TokenKind} {f : Option Token → Parser α}
    (hnone : Charged k (f none)) (hsome : ∀ t, Charged (k + 1) (f (some t))) :
    Charged k (accept kind >>= f) :=
  charged_acceptAny hnone hsome

theorem charged_expect {kind : TokenKind} {what : Expectation} {f : Token → Parser α}
    (hf : ∀ t, Charged (k + 1) (f t)) : Charged k (expect kind what >>= f) := by
  unfold expect
  rw [bind_assoc]
  refine charged_accept ?_ hf
  intro c mark
  exact .still (Nat.le_refl _) rfl rfl

/-- The token ahead pays for what comes behind it, if it is not the mark at the end. -/
theorem charges_skip {f : Unit → Parser α} {c : Cursor} {kind : TokenKind} (mark : Marked c)
    (hk : (c.rest.headD c.endMark).kind = kind) (inside : kind ≠ .eof)
    (hf : Charged (k + 1) (f ())) : c.Charges k (reached (skip >>= f) c) := by
  cases hr : c.rest with
  | nil =>
    rw [hr] at hk
    exact absurd (hk.symm.trans mark) inside
  | cons t rest =>
    have run : skip c = .ok () { c with rest } := by unfold skip; rw [hr]; rfl
    rw [reached_bind run]
    exact .pass hr (hf _ mark)

theorem charges_peek {f : Token → Parser α} {c : Cursor}
    (h : c.Charges k (reached (f (c.rest.headD c.endMark)) c)) :
    c.Charges k (reached (peek >>= f) c) := by
  have run : peek c = .ok (c.rest.headD c.endMark) c := rfl
  rw [reached_bind run]
  exact h

/-! ## Expressions -/

section Lists

variable {item : Nat → Parser α}

theorem charged_separated (hi : ∀ n, Charged 0 (item n)) (limit : Nat) :
    ∀ count, Charged 0 (separated item limit count) := by
  induction limit with
  | zero => exact fun _ => charged_pure _
  | succ limit ih =>
    intro count
    refine charged_bind (hi count) fun first => charged_accept (charged_pure _) fun comma => ?_
    exact charged_bind (ih (count + 1)) fun _ => charged_pure _

theorem charged_listUntil (close : TokenKind) (hi : ∀ n, Charged 0 (item n)) :
    Charged 0 (listUntil close item) := by
  refine charged_bind (charged_check close) fun closed => ?_
  cases closed with
  | true => exact charged_pure _
  | false => exact charged_bind charged_remaining fun n => charged_separated hi (n + 1) 0

end Lists

section Rules

variable {expression : Parser Expr}

theorem charged_numbered (node : ExprId → Expr) :
    Charged (k + 1) (freshId >>= fun id => pure (node id)) :=
  charged_freshId fun _ => charged_pure _

theorem charged_operators {kinds : List TokenKind} {node : ExprId → Expr → Token → Expr → Expr}
    {operand : Parser Expr} (ho : Charged 0 operand) (limit : Nat) :
    ∀ left, Charged 0 (operators kinds node operand limit left) := by
  induction limit with
  | zero => exact fun left => charged_pure left
  | succ limit ih =>
    intro left
    refine charged_acceptAny (charged_pure left) fun operator => ?_
    exact charged_bind ho fun right => charged_freshId fun id => ih _

theorem charged_elements (he : Charged 0 expression) : Charged 0 (elements expression) := by
  refine charged_bind (charged_listUntil _ fun _ => he) fun items => ?_
  exact charged_expect fun _ => charged_pure items

theorem charged_argument (he : Charged 0 expression) (count : Nat) :
    Charged 0 (argument expression count) := by
  unfold argument
  split
  · refine charged_bind charged_peek fun t => ?_
    exact charged_bind (charged_reject _ t) fun _ => he
  · exact he

theorem charged_primary (he : Charged 0 expression) : Charged 0 (primary expression) := by
  intro c mark
  unfold primary
  refine charges_peek ?_
  split
  case h_5 hk =>
    refine charges_skip mark hk (by decide) (charged_accept (charged_numbered _) fun bracket => ?_)
    exact charged_bind he fun position => charged_expect fun _ => charged_numbered _
  case h_6 hk =>
    refine charges_skip mark hk (by decide) ?_
    exact charged_bind he fun inner => charged_expect fun _ => charged_numbered _
  case h_7 => exact charged_reject _ _ c mark
  -- Numbers and truth values are left.
  all_goals
    next hk =>
    split
    · exact charged_reject _ _ c mark
    · exact charges_skip mark hk (by decide) (charged_numbered _)

theorem charged_calls (he : Charged 0 expression) (limit : Nat) :
    ∀ callee, Charged 0 (calls expression limit callee) := by
  induction limit with
  | zero => exact fun callee => charged_pure callee
  | succ limit ih =>
    intro callee
    refine charged_accept (charged_pure callee) fun paren => ?_
    refine charged_bind (charged_listUntil _ (charged_argument he)) fun items => ?_
    exact charged_expect fun closing => charged_freshId fun id => (ih _).mono (Nat.zero_le 1)

theorem charged_signs {operand : Parser Expr} (ho : Charged 0 operand) (limit : Nat) :
    Charged 0 (signs operand limit) := by
  induction limit with
  | zero => exact ho
  | succ limit ih =>
    exact charged_acceptAny ho fun sign => charged_bind ih fun right => charged_numbered _

theorem charged_operation (he : Charged 0 expression) : ∀ levels : List Level,
    Charged 0 (operation expression levels)
  | [] => by
    refine charged_bind charged_remaining fun n => charged_signs ?_ n
    refine charged_bind (charged_primary he) fun callee => ?_
    exact charged_bind charged_remaining fun n => charged_calls he n callee
  | l :: levels => by
    have inner := charged_operation he levels
    exact charged_bind inner fun left => charged_bind charged_remaining fun n =>
      charged_operators inner n left

theorem charged_assignment (he : Charged 0 expression) : Charged 0 (assignment expression) := by
  have operands : Charged 0 (logicOr expression) := charged_operation he precedence
  refine charged_bind operands fun target => charged_accept (charged_pure target) fun equals => ?_
  refine charged_accept (charged_bind he fun value => ?_) fun brace => ?_
  · split
    · exact charged_numbered _
    · exact charged_numbered _
    · exact charged_reject _ _
  · dsimp only
    split
    · exact charged_bind (charged_elements he) fun items => charged_numbered _
    · exact charged_reject _ _

end Rules

theorem charged_nested (depth : Nat) : Charged 0 (nested depth) := by
  induction depth with
  | zero => exact charged_bind charged_peek fun t => charged_reject _ t
  | succ depth ih => exact charged_assignment ih

theorem charged_expression : Charged 0 expression :=
  charged_bind charged_remaining fun n => charged_nested (n + 1)

/-! ## Statements -/

section Statements

variable {block : Parser (List Stmt)}

theorem charged_expressionStatement : Charged 0 expressionStatement :=
  charged_bind charged_expression fun _ => charged_expect fun _ => charged_pure _

theorem charged_returnStatement (keyword : Token) : Charged 0 (returnStatement keyword) := by
  refine charged_bind (charged_check _) fun closed => ?_
  have finish : ∀ value, Charged 0 (expect .semicolon .returnEnd >>= fun _ =>
      pure (Stmt.return keyword value)) :=
    fun value => charged_expect fun _ => charged_pure _
  cases closed with
  | true => exact charged_bind (charged_pure none) finish
  | false =>
    exact charged_bind (charged_bind charged_expression fun e => charged_pure (some e)) finish

theorem charged_condition (start finish : Expectation) : Charged 0 (condition start finish) :=
  charged_expect fun _ => charged_bind charged_expression fun _ =>
    charged_expect fun _ => charged_pure _

theorem charged_statementWithin (hb : Charged 0 block) (depth : Nat) :
    Charged 0 (statementWithin block depth) := by
  induction depth with
  | zero => exact charged_expressionStatement
  | succ depth ih =>
    rw [statementWithin]
    refine charged_bind charged_peek fun keyword => ?_
    split
    · refine charged_bind charged_skip fun _ => charged_bind (charged_condition _ _) fun test => ?_
      refine charged_bind ih fun yes => charged_accept (charged_pure _) fun t => ?_
      exact charged_bind ih fun no => charged_pure _
    · exact charged_bind charged_skip fun _ => charged_returnStatement keyword
    · exact charged_bind charged_skip fun _ => charged_expect fun _ => charged_pure _
    · exact charged_bind charged_skip fun _ => charged_expect fun _ => charged_pure _
    · refine charged_bind charged_skip fun _ => charged_bind (charged_condition _ _) fun test => ?_
      exact charged_bind ih fun body => charged_pure _
    · exact charged_bind charged_skip fun _ => charged_bind hb fun body => charged_pure _
    · exact charged_expressionStatement

theorem charged_scalarInitializer : Charged 0 scalarInitializer :=
  charged_accept (charged_pure _) fun _ => charged_bind charged_expression fun _ => charged_pure _

theorem charged_arrayInitializer : Charged 0 arrayInitializer := by
  refine charged_accept (charged_pure _) fun _ => charged_accept ?_ fun _ => ?_
  · exact charged_bind charged_expression fun _ => charged_pure _
  · exact charged_bind (charged_elements charged_expression) fun _ => charged_pure _

theorem charged_bracketed (type : Ty) : Charged 0 (bracketed type) :=
  charged_accept (charged_pure _) fun _ => charged_expect fun _ => charged_pure _

theorem charged_parameter (count : Nat) : Charged 0 (parameter count) := by
  refine charged_bind charged_peek fun token => ?_
  dsimp only
  split
  · exact charged_still fun _ => ⟨Nat.le_refl _, rfl, rfl⟩
  · split
    · exact charged_reject _ token
    · exact charged_reject _ token
    · refine charged_bind charged_skip fun _ => charged_bind (charged_bracketed _) fun type => ?_
      exact charged_expect fun _ => charged_pure _

theorem charged_function (hb : Charged 0 block) (name : Token) (returnType : Ty) :
    Charged 0 (function block name returnType) := by
  refine charged_bind (charged_listUntil _ charged_parameter) fun parameters => ?_
  refine charged_expect fun _ => charged_expect fun _ => ?_
  exact charged_bind hb fun body => charged_pure _

theorem charged_named (hb : Charged 0 block) (type : Ty) {initializer : Parser Initializer}
    (hi : Charged 0 initializer) : Charged 0 (named block type initializer) := by
  refine charged_expect fun name => charged_accept ?_ fun paren => ?_
  · have initialized : Charged 1 (do
        let start ← initializer
        let _ ← expect .semicolon .declarationEnd
        return Stmt.declare name type start) :=
      charged_bind hi fun start => charged_expect fun _ => charged_pure _
    dsimp only
    split
    · exact charged_bind (charged_reject _ name) fun _ => initialized
    · exact initialized
  · exact (charged_function hb name type).mono (Nat.zero_le _)

theorem charged_typedDeclaration (hb : Charged 0 block) (keyword : Token) (type : Ty) :
    Charged 0 (typedDeclaration block keyword type) := by
  refine charged_accept (charged_named hb type charged_scalarInitializer) fun bracket => ?_
  have array : Charged 2 (named block type.arrayOf arrayInitializer) :=
    (charged_named hb _ charged_arrayInitializer).mono (Nat.zero_le 2)
  refine charged_expect fun _ => ?_
  split
  · exact charged_bind (charged_reject _ keyword) fun _ => array
  · exact array

theorem charged_declarationBody (hb : Charged 0 block) : Charged 0 (declarationBody block) := by
  refine charged_bind charged_peek fun token => ?_
  split
  · exact charged_bind charged_skip fun _ => charged_typedDeclaration hb token _
  · exact charged_bind charged_remaining fun n => charged_statementWithin hb (n + 1)

end Statements

/-! ## Programs -/

theorem nextId_synchronize (c : Cursor) : c.synchronize.nextId = c.nextId := by
  unfold Cursor.synchronize
  split <;> rfl

theorem charged_recover {p : Parser Stmt} (h : Charged 0 p) : Charged 0 (recover p) := by
  intro c mark
  have first := h c mark
  unfold reached recover
  cases run : p c with
  | ok s c' =>
    rw [reached_of_ok run] at first
    exact first
  | error r c' =>
    rw [reached_of_error run] at first
    obtain ⟨suffix, mark', -⟩ := synchronize_passes { c' with log := c'.log ++ [r.diagnostic] }
    have shorter := Nat.le_trans suffix.length_le (List.tail_suffix _).length_le
    have last : c'.Charges 0 ({ c' with log := c'.log ++ [r.diagnostic] } : Cursor).synchronize :=
      .still shorter mark' (nextId_synchronize _)
    exact first.trans last

theorem charged_declarations {inBlock : Bool} {declaration : Parser (Option Stmt)}
    (hd : Charged 0 declaration) (limit : Nat) :
    ∀ ss, Charged 0 (declarations inBlock declaration limit ss) := by
  induction limit with
  | zero => exact fun ss => charged_pure ss
  | succ limit ih =>
    intro ss
    rw [declarations]
    refine charged_bind (charged_check _) fun closed => ?_
    split
    · exact charged_pure ss
    · refine charged_bind charged_remaining fun n => ?_
      split
      · exact charged_pure ss
      · refine charged_bind hd fun found => ?_
        cases found with
        | none => exact ih ss
        | some s => exact ih (hoist ss s)

theorem charged_declaration (depth : Nat) : Charged 0 (declaration depth) := by
  induction depth with
  | zero => exact charged_pure _
  | succ depth ih =>
    refine charged_recover (charged_declarationBody ?_)
    refine charged_bind charged_remaining fun n => ?_
    exact charged_bind (charged_declarations ih n []) fun body => charged_expect fun _ =>
      charged_pure body

theorem charged_program : Charged 0 program :=
  charged_bind charged_remaining fun n => charged_declarations (charged_declaration (n + 1)) n []

end Parser

/-- No two expressions of a tree have the same number, and the number of an expression is greater
than those of its parts and smaller than the number of tokens. So none is the one of expressions
without source text, and the counter stays within that bound, too. -/
theorem parse_numbered (tokens : List Token) (room : tokens.length ≤ ExprId.detached) :
    ((stmtsNodes (parse tokens).statements).map Expr.id).Nodup ∧
      (∀ e ∈ stmtsNodes (parse tokens).statements,
        (∀ part ∈ e.nodes.tail, part.id < e.id) ∧ e.id < tokens.length ∧
          e.id ≠ ExprId.detached) ∧
      ∃ c, Parser.program (Cursor.start tokens) = .ok (parse tokens).statements c ∧
        (∀ e ∈ stmtsNodes (parse tokens).statements, e.id < c.nextId) ∧
        c.nextId ≤ tokens.length ∧ c.nextId ≤ ExprId.detached := by
  have on := Cursor.start_on tokens
  obtain ⟨c, ss, -, run⟩ := Parser.loop_program on.mark
  have parsed : parse tokens = ⟨ss, c.log⟩ := by rw [parse, run]
  obtain ⟨-, placed, -⟩ := (Parser.keeps_program _ on).of_ok run
  have paid := (Parser.charged_program _ on.mark).paid
  rw [Parser.reached_of_ok run] at paid
  have shorter : (tokens.takeWhile (·.kind ≠ .eof)).length ≤ tokens.length :=
    (List.takeWhile_prefix _).length_le
  have bound : tokens.length ≥ c.nextId := by
    have start : (Cursor.start tokens).nextId = 0 := rfl
    have ahead : (Cursor.start tokens).rest = tokens.takeWhile (·.kind ≠ .eof) := rfl
    rw [start, ahead] at paid
    omega
  refine ⟨(parse_written tokens).1, ?_, ?_⟩
  · rw [parsed]
    intro e he
    have small : e.id < tokens.length := Nat.lt_of_lt_of_le (placed e he).2 bound
    exact ⟨(placed e he).1.descends, small, Nat.ne_of_lt (Nat.lt_of_lt_of_le small room)⟩
  · rw [parsed]
    exact ⟨c, run, fun e he => (placed e he).2, bound, Nat.le_trans bound room⟩

/-- The tokens of `a = b + 1;`. -/
def assignSum : List Token :=
  [.bare .identifier "a", .bare .equal "=", .bare .identifier "b", .bare .plus "+", .one,
    .bare .semicolon ";"]

/-- The number 0 went to the name before the equals sign, of which only the token is kept. -/
theorem parse_numbered_assignment :
    assignSum.length ≤ ExprId.detached ∧
      (stmtsNodes (parse assignSum).statements).map Expr.id = [4, 3, 1, 2] ∧
      ∀ e ∈ stmtsNodes (parse assignSum).statements,
        (∀ part ∈ e.nodes.tail, part.id < e.id) ∧ e.id < 6 ∧ e.id ≠ ExprId.detached :=
  ⟨by decide, by decide +kernel, (parse_numbered assignSum (by decide)).2.1⟩

end TickScript
