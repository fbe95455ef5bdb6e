import TickScript.Proofs.Grammar.Derived.Statements

/-!
# The nodes of an expression

Every node of an expression is made of tokens of the list: its operator is the token that was taken
for it, and a literal has the value of its token. A node takes its number when its parts are there,
so its number is greater than theirs. As in `Grammar.Expressions` this is shown rule by rule.
-/

namespace TickScript

open Grammar

/-! ## Nodes over a token list -/

/-- The kinds of tokens that have a value. -/
def literalKinds : List TokenKind := [.true, .false, .intNumber, .floatNumber]

/-- The tokens of an expression itself are in the list, and what it says of them is so. -/
def Expr.Tokens (ts : List Token) : Expr → Prop
  | .literal _ value line =>
    ∃ t ∈ ts, t.kind ∈ literalKinds ∧ t.literal = some value ∧ t.line = line
  | .grouping .. => True
  | .unary _ operator _ => operator ∈ ts ∧ operator.kind ∈ [TokenKind.bang, .minus]
  | .binary _ _ operator _ => operator ∈ ts ∧ operator.kind ∈ binaryKinds
  | .logical _ _ operator _ => operator ∈ ts ∧ operator.kind ∈ [TokenKind.and, .or]
  | .var _ name => name ∈ ts ∧ name.kind = .identifier
  | .index _ name _ => name ∈ ts ∧ name.kind = .identifier
  | .assign _ name _ => name ∈ ts ∧ name.kind = .identifier
  | .assignIndex _ name _ _ => name ∈ ts ∧ name.kind = .identifier
  | .assignElements _ name _ => name ∈ ts ∧ name.kind = .identifier
  | .call _ _ paren _ => paren ∈ ts ∧ paren.kind = .rightParen

/-- A node and its number: all its parts have smaller ones. -/
structure Expr.Placed (ts : List Token) (e : Expr) : Prop where
  tokens : e.Tokens ts
  descends : ∀ part ∈ e.nodes.tail, e.id > part.id

/-- The nodes are placed, and have numbers below `high`. -/
def AllPlaced (ts : List Token) (high : Nat) (nodes : List Expr) : Prop :=
  ∀ node ∈ nodes, node.Placed ts ∧ high > node.id

namespace AllPlaced

variable {ts : List Token} {high : Nat} {a b : List Expr}

theorem nil : AllPlaced ts high [] := by simp [AllPlaced]

theorem mono {high' : Nat} (h : AllPlaced ts high a) (hh : high ≤ high') : AllPlaced ts high' a :=
  fun node hn => ⟨(h node hn).1, Nat.lt_of_lt_of_le (h node hn).2 hh⟩

theorem append (h : AllPlaced ts high a) (h' : AllPlaced ts high b) :
    AllPlaced ts high (a ++ b) := by
  intro node hn
  rcases List.mem_append.1 hn with hn | hn
  · exact h node hn
  · exact h' node hn

theorem subset (h : AllPlaced ts high a) (hs : b ⊆ a) : AllPlaced ts high b :=
  fun node hn => h node (hs hn)

/-- A node takes the next number when its parts are placed. -/
theorem node {e : Expr} {parts : List Expr} (h : AllPlaced ts high parts)
    (nodes : e.nodes = e :: parts) (number : e.id = high) (tokens : e.Tokens ts) :
    AllPlaced ts (high + 1) e.nodes := by
  rw [nodes]
  intro node hn
  rcases List.mem_cons.1 hn with rfl | hn
  · refine ⟨⟨tokens, fun part hp => ?_⟩, by rw [number]; exact Nat.lt_succ_self high⟩
    rw [nodes] at hp
    rw [number]
    exact (h part hp).2
  · exact ⟨(h node hn).1, Nat.lt_succ_of_lt (h node hn).2⟩

end AllPlaced

namespace Parser

variable {ts : List Token} {α : Type}

/-- What the parser answers is placed. -/
def Places (ts : List Token) (p : Parser α) (nodes : α → List Expr) : Prop :=
  ∀ c, c.On ts → Reads ts p c fun a c' => AllPlaced ts c'.nextId (nodes a)

/-! ## Expressions -/

section Rules

variable {expression : Parser Expr}

/-- The last step of a rule: a node takes the next number. -/
theorem reads_numbered {c : Cursor} {parts : List Expr} {node : ExprId → Expr} (on : c.On ts)
    (h : AllPlaced ts c.nextId parts) (nodes : ∀ id, (node id).nodes = node id :: parts)
    (number : ∀ id, (node id).id = id) (tokens : ∀ id, (node id).Tokens ts) :
    Reads ts (freshId >>= fun id => pure (node id)) c fun e c' => AllPlaced ts c'.nextId e.nodes :=
  reads_bind (reads_freshId on fun on' =>
    reads_pure on' (h.node (nodes _) (number _) (tokens _)))

theorem places_separated {item : Nat → Parser Expr} (hi : ∀ n, Places ts (item n) Expr.nodes)
    (limit : Nat) : ∀ count, Places ts (separated item limit count) exprsNodes := by
  induction limit with
  | zero => exact fun count c on => reads_pure on .nil
  | succ limit ih =>
    intro count c on
    rw [separated]
    refine reads_then (hi count c on) fun first c₁ lead hb => ?_
    refine reads_bind (reads_accept lead.on ?_ fun t rest hr hk on₂ => ?_)
    · exact reads_pure lead.on (by simpa using hb)
    · refine reads_then (ih (count + 1) _ on₂) fun more c₃ lead₃ hmore => ?_
      exact reads_pure lead₃.on ((hb.mono lead₃.nextId).append hmore)

theorem places_listUntil {close : TokenKind} {item : Nat → Parser Expr}
    (hi : ∀ n, Places ts (item n) Expr.nodes) : Places ts (listUntil close item) exprsNodes := by
  intro c on
  refine reads_bind (reads_check on fun b => ?_)
  split
  · exact reads_pure on .nil
  · exact reads_bind (reads_remaining on (places_separated hi _ 0 c on))

theorem places_elements (he : Places ts expression Expr.nodes) :
    Places ts (elements expression) exprsNodes := by
  intro c on
  refine reads_then (places_listUntil (fun _ => he) c on) fun items c₁ lead hb => ?_
  exact reads_bind (reads_expect lead.on fun t rest hr hk on₂ => reads_pure on₂ hb)

theorem places_argument (he : Places ts expression Expr.nodes) (count : Nat) :
    Places ts (argument expression count) Expr.nodes := by
  intro c on
  unfold argument
  split
  · exact reads_bind (reads_peek on fun t _ => reads_bind (reads_reject on))
  · exact he c on

theorem reads_literal_placed {c : Cursor} {token : Token} (on : c.On ts) {rest : List Token}
    (hr : c.rest = token :: rest) (hk : token.kind ∈ literalKinds) :
    Reads ts (match token.literal with
      | none => reject .malformedLiteral token
      | some value => do
        skip
        return .literal (← freshId) value token.line : Parser Expr) c
      fun e c' => AllPlaced ts c'.nextId e.nodes := by
  split
  · exact reads_reject on
  · next value hv =>
    refine reads_bind (reads_skip on hr ?_)
    have mem : token ∈ ts := on.mem (by rw [hr]; exact List.mem_cons_self)
    exact reads_numbered (on.tail hr).on .nil (fun _ => rfl) (fun _ => rfl)
      fun _ => ⟨token, mem, hk, hv, rfl⟩

theorem places_primary (he : Places ts expression Expr.nodes) :
    Places ts (primary expression) Expr.nodes := by
  intro c on
  refine reads_bind (reads_peek on fun token htoken => ?_)
  have here : ∀ {kind}, token.kind = kind → kind ≠ .eof → ∃ rest, c.rest = token :: rest :=
    fun hk hne => htoken.resolve_right fun e => hne (hk.symm.trans e)
  split
  case h_5 hk =>
    obtain ⟨rest, hr⟩ := here hk (by decide)
    have mem : token ∈ ts := on.mem (by rw [hr]; exact List.mem_cons_self)
    refine reads_bind (reads_skip on hr (reads_bind (reads_accept (on.tail hr).on ?_ ?_)))
    · exact reads_numbered (on.tail hr).on .nil (fun _ => rfl) (fun _ => rfl) fun _ => ⟨mem, hk⟩
    · intro t rest' _ _ on₁
      refine reads_then (he _ on₁) fun position c₂ lead hb => ?_
      refine reads_bind (reads_expect lead.on fun t rest hr _ on₂ => ?_)
      exact reads_numbered on₂ hb (fun _ => rfl) (fun _ => rfl) fun _ => ⟨mem, hk⟩
  case h_6 hk =>
    obtain ⟨rest, hr⟩ := here hk (by decide)
    refine reads_bind (reads_skip on hr ?_)
    refine reads_then (he _ (on.tail hr).on) fun inner c₂ lead hb => ?_
    refine reads_bind (reads_expect lead.on fun t rest hr hk on₂ => ?_)
    exact reads_numbered on₂ hb (fun _ => rfl) (fun _ => rfl) fun _ => trivial
  case h_7 => exact reads_reject on
  -- Numbers and truth values are left.
  all_goals
    next hk =>
    obtain ⟨rest, hr⟩ := here hk (by decide)
    exact reads_literal_placed on hr (hk ▸ by decide)

theorem places_calls (he : Places ts expression Expr.nodes) (limit : Nat) :
    ∀ (callee : Expr) (c : Cursor), c.On ts → AllPlaced ts c.nextId callee.nodes →
      Reads ts (calls expression limit callee) c fun e c' => AllPlaced ts c'.nextId e.nodes := by
  induction limit with
  | zero => exact fun callee c on hb => reads_pure on hb
  | succ limit ih =>
    intro callee c on hb
    rw [calls]
    refine reads_bind (reads_accept on (reads_pure on hb) fun t rest hr hk on₁ => ?_)
    refine reads_then (places_listUntil (places_argument he) _ on₁) fun items c₂ lead hi => ?_
    refine reads_bind (reads_expect lead.on fun paren rest hr hk on₂ => ?_)
    refine reads_bind (reads_freshId on₂ fun on₃ => ?_)
    have mem : paren ∈ ts := lead.on.mem (by rw [hr]; exact List.mem_cons_self)
    exact ih _ _ on₃ (((hb.mono lead.nextId).append hi).node (by simp) rfl ⟨mem, hk⟩)

theorem places_signs {operand : Parser Expr} (ho : Places ts operand Expr.nodes) (limit : Nat) :
    Places ts (signs operand limit) Expr.nodes := by
  induction limit with
  | zero => exact ho
  | succ limit ih =>
    intro c on
    rw [signs]
    refine reads_bind (reads_acceptAny on (ho c on) fun t rest hr hk on₁ => ?_)
    refine reads_then (ih _ on₁) fun right c₂ lead hb => ?_
    have mem : t ∈ ts := on.mem (by rw [hr]; exact List.mem_cons_self)
    exact reads_numbered lead.on hb (fun _ => rfl) (fun _ => rfl) fun _ => ⟨mem, hk⟩

theorem nodes_level (l : Level) (id : ExprId) (left : Expr) (t : Token) (right : Expr) :
    (l.node id left t right).nodes = l.node id left t right :: (left.nodes ++ right.nodes) := by
  obtain ⟨kinds, logical⟩ := l
  cases logical <;> simp [Level.node]

theorem id_level (l : Level) (id : ExprId) (left : Expr) (t : Token) (right : Expr) :
    (l.node id left t right).id = id := by
  obtain ⟨kinds, logical⟩ := l
  cases logical <;> rfl

theorem tokens_level {l : Level} (hl : l ∈ precedence) {t : Token} (mem : t ∈ ts)
    (hk : t.kind ∈ l.kinds) (id : ExprId) (left right : Expr) :
    (l.node id left t right).Tokens ts := by
  have kinds : ∀ l ∈ precedence, ∀ k ∈ l.kinds,
      k ∈ if l.logical then [TokenKind.and, .or] else binaryKinds := by decide
  have here := kinds l hl t.kind hk
  obtain ⟨kinds, logical⟩ := l
  cases logical <;> exact ⟨mem, here⟩

theorem places_operators {l : Level} (hl : l ∈ precedence) {operand : Parser Expr}
    (ho : Places ts operand Expr.nodes) (limit : Nat) :
    ∀ (left : Expr) (c : Cursor), c.On ts → AllPlaced ts c.nextId left.nodes →
      Reads ts (operators l.kinds l.node operand limit left) c fun e c' =>
        AllPlaced ts c'.nextId e.nodes := by
  induction limit with
  | zero => exact fun left c on hb => reads_pure on hb
  | succ limit ih =>
    intro left c on hb
    rw [operators]
    refine reads_bind (reads_acceptAny on (reads_pure on hb) fun t rest hr hk on₁ => ?_)
    refine reads_then (ho _ on₁) fun right c₂ lead hright => ?_
    refine reads_bind (reads_freshId lead.on fun on₃ => ?_)
    have mem : t ∈ ts := on.mem (by rw [hr]; exact List.mem_cons_self)
    exact ih _ _ on₃ (((hb.mono lead.nextId).append hright).node (nodes_level l ..) (id_level l ..)
      (tokens_level hl mem hk ..))

theorem places_operation (he : Places ts expression Expr.nodes) : ∀ levels : List Level,
    levels ⊆ precedence → Places ts (operation expression levels) Expr.nodes
  | [], _ => by
    intro c on
    refine reads_bind (reads_remaining on (places_signs (fun c on => ?_) _ c on))
    refine reads_then (places_primary he c on) fun callee c₁ lead hb => ?_
    exact reads_bind (reads_remaining lead.on (places_calls he _ callee c₁ lead.on hb))
  | l :: levels, known => by
    have inner := places_operation he levels (List.subset_of_cons_subset known)
    intro c on
    refine reads_then (inner c on) fun left c₁ lead hb => ?_
    refine reads_bind (reads_remaining lead.on ?_)
    exact places_operators (known List.mem_cons_self) inner _ left c₁ lead.on hb

theorem places_assignment (he : Places ts expression Expr.nodes) :
    Places ts (assignment expression) Expr.nodes := by
  intro c on
  rw [assignment, logicOr_eq]
  refine reads_then (places_operation he precedence (List.Subset.refl _) c on) ?_
  intro target c₁ lead hb
  have self : target.Placed ts := (hb target target.mem_nodes_self).1
  refine reads_bind (reads_accept lead.on (reads_pure lead.on hb) fun equals rest _ _ on₁ => ?_)
  refine reads_bind (reads_accept on₁ ?_ fun brace rest _ _ on₂ => ?_)
  · refine reads_then (he _ on₁) fun value c₃ lead₃ hv => ?_
    split
    · exact reads_numbered lead₃.on hv (fun _ => rfl) (fun _ => rfl) fun _ => self.tokens
    · next id name position =>
      have hp : AllPlaced ts c₃.nextId position.nodes :=
        (hb.mono lead₃.nextId).subset (by simp)
      exact reads_numbered lead₃.on (hp.append hv) (fun _ => by simp) (fun _ => rfl)
        fun _ => self.tokens
    · exact reads_reject lead₃.on
  · dsimp only
    split
    · refine reads_then (places_elements he _ on₂) fun items c₃ lead₃ hi => ?_
      exact reads_numbered lead₃.on hi (fun _ => rfl) (fun _ => rfl) fun _ => self.tokens
    · exact reads_reject on₂

end Rules

theorem places_nested (depth : Nat) : Places ts (nested depth) Expr.nodes := by
  induction depth with
  | zero => exact fun c on => reads_bind (reads_peek on fun t _ => reads_reject on)
  | succ depth ih => exact places_assignment ih

theorem places_expression : Places ts expression Expr.nodes := fun c on =>
  reads_bind (reads_remaining on (places_nested _ c on))

end Parser

end TickScript
