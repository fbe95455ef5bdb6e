import TickScript.Proofs.Layout
import TickScript.Tree.Parse

/-!
# What the grammar grants

The tree of a token list is built from tokens of this list: every name and every operator is
one of its tokens, of the right kind; a declared name stands right behind its type; and no two
expressions have the same number. `Reads` is the logic in which this is shown, parser by
parser.
-/

namespace TickScript

/-! ## Trees over a token list -/

/-- The name stands in the list right behind the keywords of its type. -/
inductive Declared (ts : List Token) : Ty → Token → Prop where
  | plain {keyword name : Token} {type : Ty} (ht : keyword.kind.type? = some type)
      (hn : name.kind = .identifier) (h : [keyword, name] <:+: ts) : Declared ts type name
  | array {keyword left right name : Token} {type : Ty} (ht : keyword.kind.type? = some type)
      (hv : type ≠ .void) (hl : left.kind = .leftBracket) (hr : right.kind = .rightBracket)
      (hn : name.kind = .identifier) (h : [keyword, left, right, name] <:+: ts) :
      Declared ts type.arrayOf name

/-- The operators between two operands. -/
def binaryKinds : List TokenKind :=
  [.slash, .star, .percent, .minus, .plus, .greater, .greaterEqual, .less, .lessEqual,
    .bangEqual, .equalEqual]

/-- The tokens of an expression itself are of the list, and of the right kind. -/
def Expr.Written (ts : List Token) : Expr → Prop
  | .literal .. => True
  | .grouping .. => True
  | .unary _ operator _ => operator.kind = .bang ∨ operator.kind = .minus
  | .binary _ _ operator _ => operator.kind ∈ binaryKinds
  | .logical _ _ operator _ => operator.kind = .and ∨ operator.kind = .or
  | .var _ name => name ∈ ts ∧ name.kind = .identifier
  | .index _ name _ => name ∈ ts ∧ name.kind = .identifier
  | .assign _ name _ => name ∈ ts ∧ name.kind = .identifier
  | .assignIndex _ name _ _ => name ∈ ts ∧ name.kind = .identifier
  | .assignElements _ name _ => name ∈ ts ∧ name.kind = .identifier
  | .call _ _ paren _ => paren ∈ ts

/-- The names that a statement itself declares are declared in the list, and no declaration
stands directly behind a condition. -/
def Stmt.Written (ts : List Token) : Stmt → Prop
  | .declare name type _ => Declared ts type name ∧ type ≠ .void
  | .ifThen _ _ yes => yes.binds? = none
  | .ifElse _ _ yes no => yes.binds? = none ∧ no.binds? = none
  | .while _ _ body => body.binds? = none
  | .function header _ =>
    Declared ts header.returnType header.name ∧
      ∀ p ∈ header.parameters, Declared ts p.type p.name ∧ p.type ≠ .void
  | _ => True

theorem Declared.mem {ts : List Token} {type : Ty} {name : Token} (h : Declared ts type name) :
    name ∈ ts ∧ name.kind = .identifier := by
  cases h with
  | plain _ hn hi => exact ⟨hi.subset (by simp), hn⟩
  | array _ _ _ _ hn hi => exact ⟨hi.subset (by simp), hn⟩

theorem Expr.Written.name {ts : List Token} {e : Expr} {name : Token} (h : e.Written ts)
    (hn : e.name? = some name) : name ∈ ts ∧ name.kind = .identifier := by
  cases e with
  | literal => cases hn
  | grouping => cases hn
  | unary => cases hn
  | binary => cases hn
  | logical => cases hn
  | call => cases hn
  | _ =>
    cases hn
    exact h

/-- The expressions have numbers from `low` up to `high`, no two the same, and are written. -/
structure Built (ts : List Token) (low high : Nat) (nodes : List Expr) : Prop where
  nodup : (nodes.map Expr.id).Nodup
  range : ∀ node ∈ nodes, low ≤ node.id ∧ high > node.id
  written : ∀ node ∈ nodes, node.Written ts

namespace Built

variable {ts : List Token} {low mid high : Nat} {a b : List Expr}

theorem nil : Built ts low high [] :=
  ⟨by simp, by simp, by simp⟩

theorem mono {low' high' : Nat} (h : Built ts low high a) (hl : low' ≤ low)
    (hh : high ≤ high') : Built ts low' high' a where
  nodup := h.nodup
  range node hn := ⟨Nat.le_trans hl (h.range node hn).1, Nat.lt_of_lt_of_le (h.range node hn).2 hh⟩
  written := h.written

theorem append (h : Built ts low mid a) (h' : Built ts mid high b) (hl : low ≤ mid)
    (hh : mid ≤ high) : Built ts low high (a ++ b) where
  nodup := by
    rw [List.map_append, List.nodup_append]
    refine ⟨h.nodup, h'.nodup, ?_⟩
    intro i hi j hj e
    obtain ⟨x, hx, rfl⟩ := List.mem_map.1 hi
    obtain ⟨y, hy, rfl⟩ := List.mem_map.1 hj
    have hx' := (h.range x hx).2
    have hy' := (h'.range y hy).1
    rw [e] at hx'
    omega
  range node hn := by
    rcases List.mem_append.1 hn with hn | hn
    · have := h.range node hn
      omega
    · have := h'.range node hn
      omega
  written node hn := by
    rcases List.mem_append.1 hn with hn | hn
    · exact h.written node hn
    · exact h'.written node hn

theorem sublist (h : Built ts low high a) (hs : b.Sublist a) : Built ts low high b where
  nodup := (hs.map Expr.id).nodup h.nodup
  range node hn := h.range node (hs.subset hn)
  written node hn := h.written node (hs.subset hn)

/-- The order of expressions does not matter. -/
theorem perm (h : Built ts low high a) (hp : a.Perm b) : Built ts low high b where
  nodup := (hp.map Expr.id).nodup_iff.1 h.nodup
  range node hn := h.range node (hp.mem_iff.2 hn)
  written node hn := h.written node (hp.mem_iff.2 hn)

/-- A new expression takes the next number. -/
theorem cons {e : Expr} (h : Built ts low mid a) (hl : low ≤ mid) (hid : e.id = mid)
    (hw : e.Written ts) : Built ts low (mid + 1) (e :: a) where
  nodup := by
    rw [List.map_cons, List.nodup_cons]
    refine ⟨?_, h.nodup⟩
    intro hm
    obtain ⟨x, hx, he⟩ := List.mem_map.1 hm
    have := (h.range x hx).2
    rw [he, hid] at this
    omega
  range node hn := by
    rcases List.mem_cons.1 hn with rfl | hn
    · rw [hid]
      omega
    · have := h.range node hn
      omega
  written node hn := by
    rcases List.mem_cons.1 hn with rfl | hn
    · exact hw
    · exact h.written node hn

end Built

/-! ## The logic of parsers -/

/-- The cursor stands in the list. -/
structure Cursor.On (ts : List Token) (c : Cursor) : Prop where
  rest : c.rest <:+ ts
  mark : c.endMark.kind = .eof

/-- The cursor `c'` comes behind `c` in the list. -/
structure Cursor.Leads (ts : List Token) (c c' : Cursor) : Prop where
  on : c'.On ts
  rest : c'.rest <:+ c.rest
  nextId : c.nextId ≤ c'.nextId
  log : c.log <+: c'.log

theorem Cursor.Leads.trans {ts : List Token} {c c' c'' : Cursor} (h : c.Leads ts c')
    (h' : c'.Leads ts c'') : c.Leads ts c'' :=
  ⟨h'.on, h'.rest.trans h.rest, Nat.le_trans h.nextId h'.nextId, h.log.trans h'.log⟩

theorem Cursor.On.refl {ts : List Token} {c : Cursor} (h : c.On ts) : c.Leads ts c :=
  ⟨h, List.suffix_refl _, Nat.le_refl _, List.prefix_refl _⟩

/-- The cursor behind the token ahead. -/
theorem Cursor.On.tail {ts : List Token} {c : Cursor} (h : c.On ts) {t : Token}
    {rest : List Token} (hr : c.rest = t :: rest) : Cursor.Leads ts c { c with rest } := by
  have behind : rest <:+ c.rest := hr ▸ List.suffix_cons t rest
  exact ⟨⟨behind.trans h.rest, h.mark⟩, behind, Nat.le_refl _, List.prefix_refl _⟩

theorem Cursor.On.mem {ts : List Token} {c : Cursor} (h : c.On ts) {t : Token}
    (ht : t ∈ c.rest) : t ∈ ts :=
  h.rest.subset ht

namespace Parser

variable {ts : List Token} {α β : Type}

/-- From `c` the parser stays in the list, and if it answers then `post` holds. -/
def Reads (ts : List Token) (p : Parser α) (c : Cursor) (post : α → Cursor → Prop) : Prop :=
  match p c with
  | .ok a c' => c.Leads ts c' ∧ post a c'
  | .error _ c' => c.Leads ts c'

variable {p : Parser α} {c : Cursor} {post post' : α → Cursor → Prop}

theorem Reads.of_ok (h : Reads ts p c post) {a : α} {c' : Cursor} (e : p c = .ok a c') :
    c.Leads ts c' ∧ post a c' := by
  rw [Reads, e] at h
  exact h

theorem Reads.of_error (h : Reads ts p c post) {r : Rejection} {c' : Cursor}
    (e : p c = .error r c') : c.Leads ts c' := by
  rw [Reads, e] at h
  exact h

theorem Reads.intro (hok : ∀ a c', p c = .ok a c' → c.Leads ts c' ∧ post a c')
    (herr : ∀ r c', p c = .error r c' → c.Leads ts c') : Reads ts p c post := by
  unfold Reads
  split
  · next e => exact hok _ _ e
  · next e => exact herr _ _ e

theorem Reads.mono (h : Reads ts p c post) (hp : ∀ a c', c.Leads ts c' → post a c' → post' a c') :
    Reads ts p c post' :=
  .intro (fun a c' e => ⟨(h.of_ok e).1, hp a c' (h.of_ok e).1 (h.of_ok e).2⟩)
    (fun _ _ e => h.of_error e)

theorem reads_pure {a : α} (on : c.On ts) (h : post a c) : Reads ts (pure a) c post :=
  ⟨on.refl, h⟩

/-- A parser that answers hands over to the next one. -/
theorem bind_of_ok {x : Parser β} {f : β → Parser α} {b : β} {c' : Cursor}
    (h : x c = .ok b c') : (x >>= f) c = f b c' := by
  show EStateM.bind x f c = _
  unfold EStateM.bind
  rw [h]

theorem bind_of_error {x : Parser β} {f : β → Parser α} {r : Rejection} {c' : Cursor}
    (h : x c = .error r c') : (x >>= f) c = .error r c' := by
  show EStateM.bind x f c = _
  unfold EStateM.bind
  rw [h]

theorem reads_bind {x : Parser β} {f : β → Parser α}
    (h : Reads ts x c fun b c' => Reads ts (f b) c' post) : Reads ts (x >>= f) c post := by
  cases hx : x c with
  | error r c' =>
    rw [Reads, bind_of_error hx]
    exact h.of_error hx
  | ok b c' =>
    obtain ⟨lead, hf⟩ := h.of_ok hx
    refine .intro (fun a c'' e => ?_) (fun r c'' e => ?_)
    · obtain ⟨lead', hp⟩ := hf.of_ok ((bind_of_ok hx).symm.trans e)
      exact ⟨lead.trans lead', hp⟩
    · exact lead.trans (hf.of_error ((bind_of_ok hx).symm.trans e))

/-- One parser after another. -/
theorem reads_then {x : Parser β} {f : β → Parser α} {mid : β → Cursor → Prop}
    (h : Reads ts x c mid) (hf : ∀ b c', c.Leads ts c' → mid b c' → Reads ts (f b) c' post) :
    Reads ts (x >>= f) c post :=
  reads_bind (h.mono hf)

/-! ## Tokens -/

theorem reads_reject {problem : ParseProblem} {token : Token} (on : c.On ts) :
    Reads ts (reject problem token : Parser α) c post :=
  on.refl

/-- The token ahead, or the mark behind the last one. -/
theorem reads_peek {post : Token → Cursor → Prop} (on : c.On ts)
    (h : ∀ t, (∃ rest, c.rest = t :: rest) ∨ t.kind = .eof → post t c) :
    Reads ts peek c post := by
  refine ⟨on.refl, h _ ?_⟩
  cases hr : c.rest with
  | nil => exact .inr on.mark
  | cons t rest => exact .inl ⟨rest, rfl⟩

theorem reads_skip {post : Unit → Cursor → Prop} {t : Token} {rest : List Token} (on : c.On ts)
    (hr : c.rest = t :: rest) (h : post () { c with rest }) : Reads ts skip c post := by
  have htail : { c with rest := c.rest.tail } = ({ c with rest } : Cursor) := by rw [hr]; rfl
  refine ⟨?_, ?_⟩
  · show c.Leads ts { c with rest := c.rest.tail }
    rw [htail]
    exact on.tail hr
  · show post () { c with rest := c.rest.tail }
    rw [htail]
    exact h

theorem reads_remaining {post : Nat → Cursor → Prop} (on : c.On ts)
    (h : post c.rest.length c) : Reads ts remaining c post :=
  ⟨on.refl, h⟩

theorem reads_check {kind : TokenKind} {post : Bool → Cursor → Prop} (on : c.On ts)
    (h : ∀ b, post b c) : Reads ts (check kind) c post := by
  unfold Reads check
  split
  · next e =>
    split at e
    all_goals
      cases e
      exact ⟨on.refl, h _⟩
  · next e =>
    split at e
    all_goals cases e

/-- The list does not go on with a token of one of these kinds. -/
def Stops (kinds : List TokenKind) (ts : List Token) : Prop :=
  ∀ t us, ts = t :: us → t.kind ∉ kinds

/-- A token that is not accepted is of another kind. -/
theorem reads_acceptAny_stops {kinds : List TokenKind} {post : Option Token → Cursor → Prop}
    (on : c.On ts) (hnone : Stops kinds c.rest → post none c)
    (hsome : ∀ t rest, c.rest = t :: rest → t.kind ∈ kinds → ({ c with rest } : Cursor).On ts →
      post (some t) { c with rest }) : Reads ts (acceptAny kinds) c post := by
  unfold Reads acceptAny
  cases hr : c.rest with
  | nil => exact ⟨on.refl, hnone fun t us h => by rw [hr] at h; cases h⟩
  | cons t rest =>
    dsimp only
    by_cases hk : t.kind ∈ kinds
    · rw [if_pos hk]
      exact ⟨on.tail hr, hsome t rest hr hk (on.tail hr).on⟩
    · rw [if_neg hk]
      refine ⟨on.refl, hnone fun t' us h => ?_⟩
      rw [hr] at h
      cases h
      exact hk

theorem reads_acceptAny {kinds : List TokenKind} {post : Option Token → Cursor → Prop}
    (on : c.On ts) (hnone : post none c)
    (hsome : ∀ t rest, c.rest = t :: rest → t.kind ∈ kinds → ({ c with rest } : Cursor).On ts →
      post (some t) { c with rest }) : Reads ts (acceptAny kinds) c post :=
  reads_acceptAny_stops on (fun _ => hnone) hsome

theorem reads_accept {kind : TokenKind} {post : Option Token → Cursor → Prop}
    (on : c.On ts) (hnone : post none c)
    (hsome : ∀ t rest, c.rest = t :: rest → t.kind = kind → ({ c with rest } : Cursor).On ts →
      post (some t) { c with rest }) : Reads ts (accept kind) c post :=
  reads_acceptAny on hnone fun t rest hr hk => hsome t rest hr (List.mem_singleton.1 hk)

theorem reads_expect {kind : TokenKind} {what : Expectation} {post : Token → Cursor → Prop}
    (on : c.On ts)
    (h : ∀ t rest, c.rest = t :: rest → t.kind = kind → ({ c with rest } : Cursor).On ts →
      post t { c with rest }) : Reads ts (expect kind what) c post := by
  unfold expect
  refine reads_bind (reads_accept on ?_ ?_)
  · exact reads_bind (reads_peek on fun t _ => reads_reject on)
  · intro t rest hr hk on'
    exact reads_pure on' (h t rest hr hk on')

theorem reads_freshId {post : ExprId → Cursor → Prop} (on : c.On ts)
    (h : ({ c with nextId := c.nextId + 1 } : Cursor).On ts →
      post c.nextId { c with nextId := c.nextId + 1 }) : Reads ts freshId c post :=
  ⟨⟨⟨on.rest, on.mark⟩, List.suffix_refl _, Nat.le_succ _, List.prefix_refl _⟩,
    h ⟨on.rest, on.mark⟩⟩

end Parser

end TickScript
