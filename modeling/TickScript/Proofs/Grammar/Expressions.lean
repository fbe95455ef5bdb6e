import TickScript.Proofs.Grammar

/-!
# Expressions of a token list

Every rule for expressions builds its nodes from tokens of the list and gives them new numbers,
if the rule that it contains again further in does. The induction is on the bound that ties the
knot.
-/

namespace TickScript

namespace Parser

variable {ts : List Token}

/-- What the parser answers is built from where it starts up to where it stops. -/
def Builds {α : Type} (ts : List Token) (p : Parser α) (nodes : α → List Expr) : Prop :=
  ∀ c, c.On ts → Reads ts p c fun a c' => Built ts c.nextId c'.nextId (nodes a)

/-- A constructor of nodes with two operands and an operator between them. -/
structure Joins (ts : List Token) (kinds : List TokenKind)
    (node : ExprId → Expr → Token → Expr → Expr) : Prop where
  nodes : ∀ id l t r, (node id l t r).nodes = node id l t r :: (l.nodes ++ r.nodes)
  id : ∀ id l t r, (node id l t r).id = id
  written : ∀ id l t r, t.kind ∈ kinds → (node id l t r).Written ts

theorem joins_binary {kinds : List TokenKind} (h : kinds ⊆ binaryKinds) :
    Joins ts kinds .binary :=
  ⟨fun _ _ _ _ => by simp, fun _ _ _ _ => rfl, fun _ _ _ _ hk => h hk⟩

theorem joins_logical {kinds : List TokenKind} (h : ∀ k ∈ kinds, k = .and ∨ k = .or) :
    Joins ts kinds .logical :=
  ⟨fun _ _ _ _ => by simp, fun _ _ _ _ => rfl, fun _ _ t _ hk => h t.kind hk⟩

theorem reads_operators {kinds : List TokenKind} {node : ExprId → Expr → Token → Expr → Expr}
    {operand : Parser Expr} (hn : Joins ts kinds node) (ho : Builds ts operand Expr.nodes)
    (limit : Nat) : ∀ (left : Expr) (c : Cursor) (low : Nat), c.On ts → low ≤ c.nextId →
      Built ts low c.nextId left.nodes →
      Reads ts (operators kinds node operand limit left) c fun e c' =>
        Built ts low c'.nextId e.nodes := by
  induction limit with
  | zero => exact fun left c low on _ hb => reads_pure on hb
  | succ limit ih =>
    intro left c low on hl hb
    rw [operators]
    refine reads_bind (reads_acceptAny on (reads_pure on hb) fun t rest hr hk on₁ => ?_)
    refine reads_then (ho _ on₁) fun right c₂ lead hright => ?_
    refine reads_bind (reads_freshId lead.on fun on₃ => ?_)
    have hle : low ≤ c₂.nextId := Nat.le_trans hl lead.nextId
    refine ih _ _ low on₃ (Nat.le_succ_of_le hle) ?_
    rw [hn.nodes]
    exact (hb.append hright hl lead.nextId).cons hle (hn.id _ _ _ _) (hn.written _ _ _ _ hk)

theorem builds_level {kinds : List TokenKind} {node : ExprId → Expr → Token → Expr → Expr}
    {operand : Parser Expr} (hn : Joins ts kinds node) (ho : Builds ts operand Expr.nodes) :
    Builds ts (level kinds node operand) Expr.nodes := by
  intro c on
  refine reads_then (ho c on) fun left c₁ lead hb => ?_
  refine reads_bind (reads_remaining lead.on ?_)
  exact reads_operators hn ho _ left c₁ c.nextId lead.on lead.nextId hb

/-! ## Lists -/

theorem reads_separated {item : Nat → Parser Expr} (hi : ∀ n, Builds ts (item n) Expr.nodes)
    (limit : Nat) : ∀ count, Builds ts (separated item limit count) exprsNodes := by
  induction limit with
  | zero => exact fun count c on => reads_pure on .nil
  | succ limit ih =>
    intro count c on
    rw [separated]
    refine reads_then (hi count c on) fun first c₁ lead hb => ?_
    refine reads_bind (reads_accept lead.on ?_ fun t rest hr hk on₂ => ?_)
    · exact reads_pure lead.on (by simpa using hb)
    · refine reads_then (ih (count + 1) _ on₂) fun more c₃ lead₃ hmore => ?_
      exact reads_pure lead₃.on (hb.append hmore lead.nextId lead₃.nextId)

theorem builds_listUntil {close : TokenKind} {item : Nat → Parser Expr}
    (hi : ∀ n, Builds ts (item n) Expr.nodes) :
    Builds ts (listUntil close item) exprsNodes := by
  intro c on
  refine reads_bind (reads_check on fun b => ?_)
  split
  · exact reads_pure on .nil
  · exact reads_bind (reads_remaining on (reads_separated hi _ 0 c on))

theorem builds_elements {expression : Parser Expr} (he : Builds ts expression Expr.nodes) :
    Builds ts (elements expression) exprsNodes := by
  intro c on
  refine reads_then (builds_listUntil (fun _ => he) c on) fun items c₁ lead hb => ?_
  exact reads_bind (reads_expect lead.on fun t rest hr hk on₂ => reads_pure on₂ hb)

theorem builds_argument {expression : Parser Expr} (he : Builds ts expression Expr.nodes)
    (count : Nat) : Builds ts (argument expression count) Expr.nodes := by
  intro c on
  unfold argument
  split
  · exact reads_bind (reads_peek on fun t _ => reads_bind (reads_reject on))
  · exact he c on

/-! ## The rules -/

theorem reads_literal {c : Cursor} {token : Token} (on : c.On ts) {rest : List Token}
    (hr : c.rest = token :: rest) :
    Reads ts (match token.literal with
      | none => reject .malformedLiteral token
      | some value => do
        skip
        return .literal (← freshId) value token.line : Parser Expr) c
      fun e c' => Built ts c.nextId c'.nextId e.nodes := by
  split
  · exact reads_reject on
  · refine reads_bind (reads_skip on hr (reads_bind (reads_freshId (on.tail hr).on fun on₁ => ?_)))
    exact reads_pure on₁ (.cons .nil (Nat.le_refl _) rfl trivial)

theorem builds_primary {expression : Parser Expr} (he : Builds ts expression Expr.nodes) :
    Builds ts (primary expression) Expr.nodes := by
  intro c on
  refine reads_bind (reads_peek on fun token htoken => ?_)
  have here : ∀ {kind}, token.kind = kind → kind ≠ .eof → ∃ rest, c.rest = token :: rest :=
    fun hk hne => htoken.resolve_right fun e => hne (hk.symm.trans e)
  split
  · next hk =>
    obtain ⟨rest, hr⟩ := here hk (by decide)
    exact reads_literal on hr
  · next hk =>
    obtain ⟨rest, hr⟩ := here hk (by decide)
    exact reads_literal on hr
  · next hk =>
    obtain ⟨rest, hr⟩ := here hk (by decide)
    exact reads_literal on hr
  · next hk =>
    obtain ⟨rest, hr⟩ := here hk (by decide)
    exact reads_literal on hr
  · next hk =>
    obtain ⟨rest, hr⟩ := here hk (by decide)
    have hmem : token ∈ ts := on.mem (by rw [hr]; exact List.mem_cons_self)
    refine reads_bind (reads_skip on hr (reads_bind (reads_accept (on.tail hr).on ?_ ?_)))
    · refine reads_bind (reads_freshId (on.tail hr).on fun on₁ => ?_)
      exact reads_pure on₁ (.cons .nil (Nat.le_refl _) rfl ⟨hmem, hk⟩)
    · intro t rest' _ _ on₁
      refine reads_then (he _ on₁) fun position c₂ lead hb => ?_
      refine reads_bind (reads_expect lead.on fun t rest hr hk on₂ => ?_)
      refine reads_bind (reads_freshId on₂ fun on₃ => reads_pure on₃ ?_)
      exact hb.cons lead.nextId rfl ⟨hmem, by assumption⟩
  · next hk =>
    obtain ⟨rest, hr⟩ := here hk (by decide)
    refine reads_bind (reads_skip on hr ?_)
    refine reads_then (he _ (on.tail hr).on) fun inner c₂ lead hb => ?_
    refine reads_bind (reads_expect lead.on fun t rest hr hk on₂ => ?_)
    exact reads_bind (reads_freshId on₂ fun on₃ =>
      reads_pure on₃ (hb.cons lead.nextId rfl trivial))
  · exact reads_reject on

theorem reads_calls {expression : Parser Expr} (he : Builds ts expression Expr.nodes)
    (limit : Nat) : ∀ (callee : Expr) (c : Cursor) (low : Nat), c.On ts → low ≤ c.nextId →
      Built ts low c.nextId callee.nodes →
      Reads ts (calls expression limit callee) c fun e c' => Built ts low c'.nextId e.nodes := by
  induction limit with
  | zero => exact fun callee c low on _ hb => reads_pure on hb
  | succ limit ih =>
    intro callee c low on hl hb
    rw [calls]
    refine reads_bind (reads_accept on (reads_pure on hb) fun t rest hr hk on₁ => ?_)
    refine reads_then (builds_listUntil (builds_argument he) _ on₁) fun items c₂ lead hi => ?_
    refine reads_bind (reads_expect lead.on fun paren rest hr _ on₂ => ?_)
    refine reads_bind (reads_freshId on₂ fun on₃ => ?_)
    have hle : low ≤ c₂.nextId := Nat.le_trans hl lead.nextId
    refine ih _ _ low on₃ (Nat.le_succ_of_le hle) ?_
    have hmem : paren ∈ ts := lead.on.mem (by rw [hr]; exact List.mem_cons_self)
    exact (hb.append hi hl lead.nextId).cons hle rfl hmem

theorem builds_call {expression : Parser Expr} (he : Builds ts expression Expr.nodes) :
    Builds ts (call expression) Expr.nodes := by
  intro c on
  refine reads_then (builds_primary he c on) fun callee c₁ lead hb => ?_
  refine reads_bind (reads_remaining lead.on ?_)
  exact reads_calls he _ callee c₁ c.nextId lead.on lead.nextId hb

theorem builds_signs {operand : Parser Expr} (ho : Builds ts operand Expr.nodes) (limit : Nat) :
    Builds ts (signs operand limit) Expr.nodes := by
  induction limit with
  | zero => exact ho
  | succ limit ih =>
    intro c on
    rw [signs]
    refine reads_bind (reads_acceptAny on (ho c on) fun t rest hr hk on₁ => ?_)
    refine reads_then (ih _ on₁) fun right c₂ lead hb => ?_
    refine reads_bind (reads_freshId lead.on fun on₃ => reads_pure on₃ ?_)
    have hsign : t.kind = .bang ∨ t.kind = .minus := by simpa using hk
    exact hb.cons lead.nextId rfl hsign

theorem builds_logicOr {expression : Parser Expr} (he : Builds ts expression Expr.nodes) :
    Builds ts (logicOr expression) Expr.nodes := by
  have hunary : Builds ts (unary expression) Expr.nodes := fun c on =>
    reads_bind (reads_remaining on (builds_signs (builds_call he) _ c on))
  have hfactor : Builds ts (factor expression) Expr.nodes :=
    builds_level (joins_binary (by decide)) hunary
  have hterm : Builds ts (term expression) Expr.nodes :=
    builds_level (joins_binary (by decide)) hfactor
  have hcomparison : Builds ts (comparison expression) Expr.nodes :=
    builds_level (joins_binary (by decide)) hterm
  have hequality : Builds ts (equality expression) Expr.nodes :=
    builds_level (joins_binary (by decide)) hcomparison
  have hand : Builds ts (logicAnd expression) Expr.nodes :=
    builds_level (joins_logical (by decide)) hequality
  exact builds_level (joins_logical (by decide)) hand

theorem builds_assignment {expression : Parser Expr} (he : Builds ts expression Expr.nodes) :
    Builds ts (assignment expression) Expr.nodes := by
  intro c on
  refine reads_then (builds_logicOr he c on) fun target c₁ lead hb => ?_
  refine reads_bind (reads_accept lead.on (reads_pure lead.on hb) fun equals rest _ _ on₁ => ?_)
  refine reads_bind (reads_accept on₁ ?_ fun brace rest _ _ on₂ => ?_)
  · refine reads_then (he _ on₁) fun value c₃ lead₃ hv => ?_
    have hle : c.nextId ≤ c₃.nextId := Nat.le_trans lead.nextId lead₃.nextId
    split
    · next id name =>
      refine reads_bind (reads_freshId lead₃.on fun on₄ => reads_pure on₄ ?_)
      have hw : (Expr.var id name).Written ts := hb.written _ (by simp)
      exact (hv.mono lead.nextId (Nat.le_refl _)).cons hle rfl hw
    · next id name position =>
      refine reads_bind (reads_freshId lead₃.on fun on₄ => reads_pure on₄ ?_)
      have hw : (Expr.index id name position).Written ts := hb.written _ (by simp)
      have hp : Built ts c.nextId c₁.nextId position.nodes := hb.sublist (by simp)
      exact (hp.append hv lead.nextId lead₃.nextId).cons hle rfl hw
    · exact reads_reject lead₃.on
  · dsimp only
    split
    · next id name =>
      refine reads_then (builds_elements he _ on₂) fun items c₃ lead₃ hi => ?_
      have hle : c.nextId ≤ c₃.nextId := Nat.le_trans lead.nextId lead₃.nextId
      refine reads_bind (reads_freshId lead₃.on fun on₄ => reads_pure on₄ ?_)
      have hw : (Expr.var id name).Written ts := hb.written _ (by simp)
      exact (hi.mono lead.nextId (Nat.le_refl _)).cons hle rfl hw
    · exact reads_reject on₂

theorem builds_nested (depth : Nat) : Builds ts (nested depth) Expr.nodes := by
  induction depth with
  | zero => exact fun c on => reads_bind (reads_peek on fun t _ => reads_reject on)
  | succ depth ih => exact builds_assignment ih

theorem builds_expression : Builds ts expression Expr.nodes := fun c on =>
  reads_bind (reads_remaining on (builds_nested _ c on))

end Parser

end TickScript
