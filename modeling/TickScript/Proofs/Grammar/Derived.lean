import TickScript.Proofs.Grammar.Rules
import TickScript.Proofs.Grammar.Expressions

/-!
# Expressions that are parsed are derived

The tokens that the parser of a rule passes over are derived by the rule, and the tree that it
answers is the tree of the derivation, apart from numbers.
-/

namespace TickScript

open Grammar

/-! ## Trees without numbers -/

@[simp]
theorem exprsUnnumbered_eq : ∀ es : List Expr, exprsUnnumbered es = es.map Expr.unnumbered
  | [] => rfl
  | e :: es => by rw [exprsUnnumbered, exprsUnnumbered_eq es, List.map_cons]

@[simp]
theorem stmtsUnnumbered_eq : ∀ ss : List Stmt, stmtsUnnumbered ss = ss.map Stmt.unnumbered
  | [] => rfl
  | s :: ss => by rw [stmtsUnnumbered, stmtsUnnumbered_eq ss, List.map_cons]

theorem Grammar.Level.unnumbered_node (l : Level) (id : ExprId) (left : Expr) (operator : Token)
    (right : Expr) : (l.node id left operator right).unnumbered =
      l.node 0 left.unnumbered operator right.unnumbered := by
  obtain ⟨kinds, logical⟩ := l
  cases logical <;> rfl

/-- Can the expression stand before an equals sign? -/
def Grammar.isTarget : Expr → Bool
  | .var _ _ => true
  | .index _ _ _ => true
  | _ => false

/-- An operation that can stand before an equals sign is a name, perhaps with an index. -/
theorem Grammar.Operation.primary {X : Rule Expr} {levels : List Level} {ts : List Token}
    {e : Expr} (h : Operation X levels ts e) (target : isTarget e = true) : Primary X ts e := by
  induction h with
  | unary h =>
    cases h with
    | sign kind h => cases target
    | call h =>
      cases h with
      | primary h => exact h
      | arguments h opens inside few closes => cases target
  | operand h ih => exact ih target
  | @more l levels ts us left operator right h kind h' ih ih' =>
    obtain ⟨kinds, logical⟩ := l
    cases logical <;> cases target

namespace Parser

variable {all : List Token} {α β : Type}

/-- The rule derives the tokens between two cursors, and nothing was reported there. -/
def Spells (R : Rule β) (c : Cursor) (b : β) (c' : Cursor) : Prop :=
  c'.log = c.log ∧ ∃ ts, c.rest = ts ++ c'.rest ∧ R ts b

theorem Spells.imp {R R' : Rule β} {c c' : Cursor} {b : β} (h : Spells R c b c')
    (sub : ∀ ts, R ts b → R' ts b) : Spells R' c b c' := by
  obtain ⟨log, ts, e, h⟩ := h
  exact ⟨log, ts, e, sub ts h⟩

/-- The rule of the parser derives what it answers. -/
def Sound (all : List Token) (R : Rule β) (tree : α → β) (p : Parser α) : Prop :=
  ∀ c, c.On all → Reads all p c fun a c' => Spells R c (tree a) c'

theorem Sound.imp {R R' : Rule β} {tree : α → β} {p : Parser α} (h : Sound all R tree p)
    (sub : ∀ ts b, R ts b → R' ts b) : Sound all R' tree p := by
  intro c on
  refine (h c on).mono ?_
  intro a c' _ spells
  exact spells.imp fun ts => sub ts (tree a)

/-! ## Operators -/

variable {X : Rule Expr}

theorem derives_operators {l : Level} {levels : List Level} {operand : Parser Expr}
    (ho : Sound all (Operation X levels) Expr.unnumbered operand) (c₀ : Cursor) (limit : Nat) :
    ∀ (left : Expr) (c : Cursor), c.On all →
      Spells (Operation X (l :: levels)) c₀ left.unnumbered c →
      Reads all (operators l.kinds l.node operand limit left) c fun e c' =>
        Spells (Operation X (l :: levels)) c₀ e.unnumbered c' := by
  induction limit with
  | zero => exact fun left c on h => reads_pure on h
  | succ limit ih =>
    intro left c on h
    rw [operators]
    refine reads_bind (reads_acceptAny on (reads_pure on h) fun t rest hr hk on₁ => ?_)
    refine reads_then (ho _ on₁) fun right c₂ lead hright => ?_
    refine reads_bind (reads_freshId lead.on fun on₃ => ih _ _ on₃ ?_)
    obtain ⟨log₁, ts, e₁, h₁⟩ := h
    obtain ⟨log₂, us, e₂, h₂⟩ := hright
    refine ⟨log₂.trans log₁, ts ++ t :: us, ?_, ?_⟩
    · rw [e₁, hr, show rest = us ++ c₂.rest from e₂, List.append_assoc, List.cons_append]
    · rw [l.unnumbered_node]
      exact .more h₁ hk h₂

/-- The parser for operations with some levels of operators. -/
def operation (expression : Parser Expr) : List Level → Parser Expr
  | [] => unary expression
  | l :: levels => level l.kinds l.node (operation expression levels)

theorem logicOr_eq (expression : Parser Expr) :
    logicOr expression = operation expression precedence := rfl

/-! ## Lists -/

/-- Each item says something about the number of items before it. -/
theorem derives_separated {R : Rule β} {tree : α → β} {item : Nat → Parser α}
    {allowed : Nat → Prop} (nonempty : ∀ ts b, R ts b → 0 < ts.length)
    (hi : ∀ n c, c.On all →
      Reads all (item n) c fun a c' => Spells R c (tree a) c' ∧ allowed n) (limit : Nat) :
    ∀ (count : Nat) (c : Cursor), c.On all → c.rest.length < limit →
      Reads all (separated item limit count) c fun as c' =>
        Spells (Separated R) c (as.map tree) c' ∧ ∀ i < as.length, allowed (count + i) := by
  induction limit with
  | zero => exact fun count c on h => absurd h (Nat.not_lt_zero _)
  | succ limit ih =>
    intro count c on hlimit
    rw [separated]
    refine reads_then (hi count c on) fun first c₁ lead hfirst => ?_
    obtain ⟨⟨log₁, ts, e₁, h₁⟩, hcount⟩ := hfirst
    have some_token := nonempty ts _ h₁
    have shorter : c₁.rest.length < limit := by
      rw [e₁, List.length_append] at hlimit
      omega
    refine reads_bind (reads_accept lead.on ?_ fun t rest hr hk on₂ => ?_)
    · refine reads_pure lead.on ⟨⟨log₁, ts, e₁, .last h₁⟩, fun i hi => ?_⟩
      obtain rfl : i = 0 := Nat.lt_one_iff.1 hi
      exact hcount
    · have hrest : rest.length < limit := by
        rw [hr, List.length_cons] at shorter
        omega
      refine reads_then (ih (count + 1) _ on₂ hrest) fun others c₃ lead₃ hothers => ?_
      obtain ⟨⟨log₃, us, e₃, h₃⟩, hcounts⟩ := hothers
      refine reads_pure lead₃.on ⟨⟨log₃.trans log₁, ts ++ t :: us, ?_, .more h₁ hk h₃⟩, ?_⟩
      · rw [e₁, hr, show rest = us ++ c₃.rest from e₃, List.append_assoc, List.cons_append]
      · intro i hi
        cases i with
        | zero => exact hcount
        | succ i =>
          have := hcounts i (Nat.lt_of_succ_lt_succ hi)
          rwa [Nat.add_right_comm] at this

theorem derives_listUntil {R : Rule β} (tree : α → β) {item : Nat → Parser α}
    (allowed : Nat → Prop) {close : TokenKind} (nonempty : ∀ ts b, R ts b → 0 < ts.length)
    (hi : ∀ n c, c.On all → Reads all (item n) c fun a c' => Spells R c (tree a) c' ∧ allowed n)
    {c : Cursor} (on : c.On all) :
    Reads all (listUntil close item) c fun as c' =>
      Spells (Listed R) c (as.map tree) c' ∧ ∀ i < as.length, allowed i := by
  refine reads_bind (reads_check on fun b => ?_)
  split
  · exact reads_pure on ⟨⟨rfl, [], rfl, .none⟩, fun i hi => absurd hi (Nat.not_lt_zero i)⟩
  · refine reads_bind (reads_remaining on ?_)
    refine (derives_separated nonempty hi _ 0 c on (Nat.lt_succ_self _)).mono ?_
    rintro as c' - ⟨⟨log, ts, e, h⟩, hcounts⟩
    exact ⟨⟨log, ts, e, .some h⟩, fun i hi => by simpa using hcounts i hi⟩

/-- A list that has an item only behind fewer than 255 others has at most 255. -/
theorem length_le_of_allowed {n : Nat} (h : ∀ i < n, i < maxArguments) : n ≤ 255 := by
  cases n with
  | zero => exact Nat.zero_le _
  | succ n => exact h n (Nat.lt_succ_self n)

/-! ## Expressions -/

theorem derives_literal {c : Cursor} (on : c.On all) {token : Token} {rest : List Token}
    (hr : c.rest = token :: rest) (hk : token.kind ∈ literals) :
    Reads all (match token.literal with
      | none => reject .malformedLiteral token
      | some value => do
        skip
        return .literal (← freshId) value token.line : Parser Expr) c
      fun e c' => Spells (Primary X) c e.unnumbered c' := by
  cases hl : token.literal with
  | none => exact reads_reject on
  | some value =>
    refine reads_bind (reads_skip on hr ?_)
    refine reads_bind (reads_freshId (on.tail hr).on fun on₁ => reads_pure on₁ ?_)
    exact ⟨rfl, [token], hr, .literal hk hl⟩

section

variable {expression : Parser Expr} (begins : ∀ ts e, X ts e → 0 < ts.length)
  (he : Sound all X Expr.unnumbered expression)

include begins he

theorem derives_elements {c : Cursor} (on : c.On all) :
    Reads all (elements expression) c fun items c' => c'.log = c.log ∧
      ∃ ts right, c.rest = ts ++ right :: c'.rest ∧ right.kind = .rightBrace ∧
        Listed X ts (items.map Expr.unnumbered) := by
  refine reads_then (derives_listUntil Expr.unnumbered (fun _ => True) begins
    (fun n c on => (he c on).mono fun _ _ _ h => ⟨h, trivial⟩) on) fun items c₁ lead h => ?_
  obtain ⟨⟨log, ts, e, h⟩, -⟩ := h
  refine reads_bind (reads_expect lead.on fun right rest hr hk on₂ => reads_pure on₂ ?_)
  exact ⟨log, ts, right, by rw [e, hr], hk, h⟩

omit begins in
theorem sound_primary : Sound all (Primary X) Expr.unnumbered (primary expression) := by
  intro c on
  refine reads_bind (reads_peek on fun token htoken => ?_)
  have here : ∀ {kind}, token.kind = kind → kind ≠ .eof → ∃ rest, c.rest = token :: rest :=
    fun hk hne => htoken.resolve_right fun e => hne (hk.symm.trans e)
  split
  · next hk =>
    obtain ⟨rest, hr⟩ := here hk (by decide)
    exact derives_literal on hr (hk ▸ by decide)
  · next hk =>
    obtain ⟨rest, hr⟩ := here hk (by decide)
    exact derives_literal on hr (hk ▸ by decide)
  · next hk =>
    obtain ⟨rest, hr⟩ := here hk (by decide)
    exact derives_literal on hr (hk ▸ by decide)
  · next hk =>
    obtain ⟨rest, hr⟩ := here hk (by decide)
    exact derives_literal on hr (hk ▸ by decide)
  · next hname =>
    obtain ⟨rest, hr⟩ := here hname (by decide)
    refine reads_bind (reads_skip on hr (reads_bind (reads_accept (on.tail hr).on ?_ ?_)))
    · refine reads_bind (reads_freshId (on.tail hr).on fun on₁ => reads_pure on₁ ?_)
      exact ⟨rfl, [token], hr, .name hname⟩
    · intro left rest₁ hl hkl on₁
      refine reads_then (he _ on₁) fun position c₂ lead hposition => ?_
      refine reads_bind (reads_expect lead.on fun right rest₃ hright hkr on₃ => ?_)
      refine reads_bind (reads_freshId on₃ fun on₄ => reads_pure on₄ ?_)
      obtain ⟨log, ts, e, h⟩ := hposition
      refine ⟨log, token :: left :: (ts ++ [right]), ?_, .index hname hkl h hkr⟩
      rw [hr, show rest = left :: rest₁ from hl, show rest₁ = ts ++ c₂.rest from e, hright]
      simp
  · next hopen =>
    obtain ⟨rest, hr⟩ := here hopen (by decide)
    refine reads_bind (reads_skip on hr ?_)
    refine reads_then (he _ (on.tail hr).on) fun inner c₂ lead hinner => ?_
    refine reads_bind (reads_expect lead.on fun right rest₃ hright hkr on₃ => ?_)
    refine reads_bind (reads_freshId on₃ fun on₄ => reads_pure on₄ ?_)
    obtain ⟨log, ts, e, h⟩ := hinner
    refine ⟨log, token :: (ts ++ [right]), ?_, .grouping hopen h hkr⟩
    rw [hr, show rest = ts ++ c₂.rest from e, hright]
    simp
  · exact reads_reject on

theorem derives_calls (c₀ : Cursor) (limit : Nat) : ∀ (callee : Expr) (c : Cursor), c.On all →
    Spells (Call X) c₀ callee.unnumbered c →
    Reads all (calls expression limit callee) c fun e c' =>
      Spells (Call X) c₀ e.unnumbered c' := by
  have argument : ∀ n c, c.On all → Reads all (argument expression n) c fun a c' =>
      Spells X c a.unnumbered c' ∧ n < maxArguments := by
    intro n c on
    unfold Parser.argument
    split
    · exact reads_bind (reads_peek on fun t _ => reads_bind (reads_reject on))
    · next hn => exact (he c on).mono fun _ _ _ h => ⟨h, Nat.lt_of_not_le hn⟩
  induction limit with
  | zero => exact fun callee c on h => reads_pure on h
  | succ limit ih =>
    intro callee c on h
    rw [calls]
    refine reads_bind (reads_accept on (reads_pure on h) fun left rest hl hkl on₁ => ?_)
    refine reads_then (derives_listUntil Expr.unnumbered (· < maxArguments) begins argument on₁) fun items c₂ lead hitems => ?_
    refine reads_bind (reads_expect lead.on fun right rest₃ hright hkr on₃ => ?_)
    refine reads_bind (reads_freshId on₃ fun on₄ => ih _ _ on₄ ?_)
    obtain ⟨log₁, ts, e₁, h₁⟩ := h
    obtain ⟨⟨log₂, us, e₂, h₂⟩, few⟩ := hitems
    refine ⟨log₂.trans log₁, ts ++ left :: (us ++ [right]), ?_, ?_⟩
    · rw [e₁, hl, show rest = us ++ c₂.rest from e₂, hright]
      simp
    · rw [Expr.unnumbered, exprsUnnumbered_eq]
      exact .arguments h₁ hkl h₂ (by rw [List.length_map]; exact length_le_of_allowed few) hkr

theorem sound_call : Sound all (Call X) Expr.unnumbered (call expression) := by
  intro c on
  refine reads_then (sound_primary he c on) fun callee c₁ lead h => ?_
  refine reads_bind (reads_remaining lead.on ?_)
  exact derives_calls begins he c _ callee c₁ lead.on (h.imp fun _ h => .primary h)

theorem sound_unary : Sound all (Unary X) Expr.unnumbered (unary expression) := by
  have signs : ∀ limit, Sound all (Unary X) Expr.unnumbered (signs (call expression) limit) := by
    have plain : Sound all (Unary X) Expr.unnumbered (call expression) :=
      (sound_call begins he).imp fun _ _ h => .call h
    intro limit
    induction limit with
    | zero => exact plain
    | succ limit ih =>
      intro c on
      rw [Parser.signs]
      refine reads_bind (reads_acceptAny on (plain c on) fun sign rest hr hk on₁ => ?_)
      refine reads_then (ih _ on₁) fun right c₂ lead h => ?_
      refine reads_bind (reads_freshId lead.on fun on₃ => reads_pure on₃ ?_)
      obtain ⟨log, ts, e, h⟩ := h
      refine ⟨log, sign :: ts, ?_, .sign hk h⟩
      rw [hr, show rest = ts ++ c₂.rest from e, List.cons_append]
  exact fun c on => reads_bind (reads_remaining on (signs _ c on))

theorem sound_operation : ∀ levels : List Level,
    Sound all (Operation X levels) Expr.unnumbered (operation expression levels)
  | [] => (sound_unary begins he).imp fun _ _ h => .unary h
  | l :: levels => by
    intro c on
    have ho := sound_operation levels
    refine reads_then (ho c on) fun left c₁ lead h => ?_
    refine reads_bind (reads_remaining lead.on ?_)
    exact derives_operators ho c _ left c₁ lead.on (h.imp fun _ h => .operand h)

theorem sound_assignment : Sound all (Assignment X) Expr.unnumbered (assignment expression) := by
  intro c on
  have operands := sound_operation begins he precedence c on
  rw [← logicOr_eq] at operands
  refine reads_then operands fun target c₁ lead htarget => ?_
  obtain ⟨log₁, ts, e₁, h₁⟩ := htarget
  refine reads_bind (reads_accept lead.on ?_ fun equals rest hr hk on₂ => ?_)
  · exact reads_pure lead.on ⟨log₁, ts, e₁, .operation h₁⟩
  refine reads_bind (reads_accept on₂ ?_ fun left rest₂ hl hkl on₃ => ?_)
  · refine reads_then (he _ on₂) fun value c₃ lead₃ hvalue => ?_
    obtain ⟨log₃, us, e₃, h₃⟩ := hvalue
    split
    · next id t =>
      refine reads_bind (reads_freshId lead₃.on fun on₄ => reads_pure on₄ ?_)
      cases h₁.primary rfl with
      | name kind =>
        refine ⟨log₃.trans log₁, t :: equals :: us, ?_, .name kind hk h₃⟩
        rw [e₁, hr, show rest = us ++ c₃.rest from e₃]
        simp
    · next id t position =>
      refine reads_bind (reads_freshId lead₃.on fun on₄ => reads_pure on₄ ?_)
      cases h₁.primary rfl with
      | @index _ left right vs _ kind opens inside closes =>
        refine ⟨log₃.trans log₁, t :: left :: (vs ++ right :: equals :: us), ?_,
          .index kind opens inside closes hk h₃⟩
        rw [e₁, hr, show rest = us ++ c₃.rest from e₃]
        simp
    · exact reads_reject lead₃.on
  · dsimp only
    split
    · next id t =>
      refine reads_then (derives_elements begins he on₃) fun items c₄ lead₄ hitems => ?_
      obtain ⟨log₄, us, right, e₄, hkr, h₄⟩ := hitems
      refine reads_bind (reads_freshId lead₄.on fun on₅ => reads_pure on₅ ?_)
      cases h₁.primary rfl with
      | name kind =>
        refine ⟨log₄.trans log₁, t :: equals :: left :: (us ++ [right]), ?_, ?_⟩
        · rw [e₁, hr, show rest = left :: rest₂ from hl,
            show rest₂ = us ++ right :: c₄.rest from e₄]
          simp
        · rw [Expr.unnumbered, exprsUnnumbered_eq]
          exact .elements kind hk hkl h₄ hkr
    · exact reads_reject on₃

end

theorem sound_nested (depth : Nat) : Sound all Expression Expr.unnumbered (nested depth) := by
  induction depth with
  | zero => exact fun c on => reads_bind (reads_peek on fun t _ => reads_reject on)
  | succ depth ih =>
    exact (sound_assignment (fun _ _ h => h.begins.length_pos) ih).imp fun _ _ h => .assignment h

theorem sound_expression : Sound all Expression Expr.unnumbered expression := fun c on =>
  reads_bind (reads_remaining on (sound_nested _ c on))

end Parser

end TickScript
