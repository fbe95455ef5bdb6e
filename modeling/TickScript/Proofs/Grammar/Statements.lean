import TickScript.Proofs.Grammar.Expressions

/-!
# Statements of a token list

The main statement is `parse_written`: the tree of a token list is written in it, and its
expressions have numbers of their own.
-/

namespace TickScript

namespace Parser

variable {ts : List Token}

/-- The parser answers statements that are built and written. -/
def Writes {α : Type} (ts : List Token) (p : Parser α) (nodes : α → List Expr)
    (parts : α → List Stmt) : Prop :=
  ∀ c, c.On ts → Reads ts p c fun a c' =>
    Built ts c.nextId c'.nextId (nodes a) ∧ ∀ part ∈ parts a, part.Written ts

/-! ## Plain statements -/

/-- What a statement that is no declaration comes to. -/
def Plain (ts : List Token) (c : Cursor) (s : Stmt) (c' : Cursor) : Prop :=
  (Built ts c.nextId c'.nextId s.nodes ∧ ∀ part ∈ s.parts, part.Written ts) ∧ s.binds? = none

theorem reads_expressionStatement {c : Cursor} (on : c.On ts) :
    Reads ts expressionStatement c (Plain ts c) := by
  refine reads_then (builds_expression c on) fun e c₁ lead hb => ?_
  refine reads_bind (reads_expect lead.on fun t rest _ _ on₂ => reads_pure on₂ ?_)
  exact ⟨⟨hb, by simp [Stmt.Written]⟩, rfl⟩

theorem reads_returnStatement {c : Cursor} (keyword : Token) (on : c.On ts) :
    Reads ts (returnStatement keyword) c (Plain ts c) := by
  refine reads_bind (reads_check on fun b => ?_)
  have finish : ∀ value c₁, c.Leads ts c₁ →
      Built ts c.nextId c₁.nextId (Stmt.return keyword value).nodes →
      Reads ts (do
        let _ ← expect .semicolon .returnEnd
        return .return keyword value) c₁ (Plain ts c) := by
    intro value c₁ lead hb
    refine reads_bind (reads_expect lead.on fun t rest _ _ on₂ => reads_pure on₂ ?_)
    exact ⟨⟨hb, by simp [Stmt.Written]⟩, rfl⟩
  split
  · exact reads_bind (reads_pure on (finish none c on.refl .nil))
  · refine reads_bind (reads_then (builds_expression c on) fun e c₁ lead hb => ?_)
    exact reads_pure lead.on (finish (some e) c₁ lead hb)

theorem builds_condition (start finish : Expectation) :
    Builds ts (condition start finish) Expr.nodes := by
  intro c on
  refine reads_bind (reads_expect on fun t rest _ _ on₁ => ?_)
  refine reads_then (builds_expression _ on₁) fun e c₂ lead hb => ?_
  exact reads_bind (reads_expect lead.on fun t rest _ _ on₃ => reads_pure on₃ hb)

theorem reads_statementWithin {block : Parser (List Stmt)}
    (hblock : Writes ts block stmtsNodes stmtsParts) (depth : Nat) :
    ∀ c, c.On ts → Reads ts (statementWithin block depth) c (Plain ts c) := by
  induction depth with
  | zero => exact fun c on => reads_expressionStatement on
  | succ depth ih =>
    intro c on
    rw [statementWithin]
    refine reads_bind (reads_peek on fun keyword hkeyword => ?_)
    have here : ∀ {kind}, keyword.kind = kind → kind ≠ .eof → ∃ rest, c.rest = keyword :: rest :=
      fun hk hne => hkeyword.resolve_right fun e => hne (hk.symm.trans e)
    split
    · next hk =>
      obtain ⟨rest, hr⟩ := here hk (by decide)
      refine reads_bind (reads_skip on hr ?_)
      refine reads_then (builds_condition _ _ _ (on.tail hr).on) fun test c₂ lead ht => ?_
      refine reads_then (ih _ lead.on) fun yes c₃ lead₃ hy => ?_
      have hle : c.nextId ≤ c₃.nextId := Nat.le_trans lead.nextId lead₃.nextId
      have hty := ht.append hy.1.1 lead.nextId lead₃.nextId
      refine reads_bind (reads_accept lead₃.on ?_ fun t rest _ _ on₄ => ?_)
      · refine reads_pure lead₃.on ⟨⟨hty, ?_⟩, rfl⟩
        simp only [Stmt.parts, List.mem_cons, forall_eq_or_imp]
        exact ⟨hy.2, hy.1.2⟩
      · refine reads_then (ih _ on₄) fun no c₅ lead₅ hn => ?_
        refine reads_pure lead₅.on ⟨⟨?_, ?_⟩, rfl⟩
        · exact hty.append hn.1.1 hle lead₅.nextId
        · simp only [Stmt.parts, List.cons_append, List.mem_cons, List.mem_append, or_imp,
            forall_and, forall_eq]
          exact ⟨⟨hy.2, hn.2⟩, hy.1.2, hn.1.2⟩
    · next hk =>
      obtain ⟨rest, hr⟩ := here hk (by decide)
      exact reads_bind (reads_skip on hr (reads_returnStatement keyword (on.tail hr).on))
    · next hk =>
      obtain ⟨rest, hr⟩ := here hk (by decide)
      refine reads_bind (reads_skip on hr (reads_bind (reads_expect (on.tail hr).on ?_)))
      intro t rest _ _ on₂
      exact reads_pure on₂ ⟨⟨.nil, by simp [Stmt.Written]⟩, rfl⟩
    · next hk =>
      obtain ⟨rest, hr⟩ := here hk (by decide)
      refine reads_bind (reads_skip on hr (reads_bind (reads_expect (on.tail hr).on ?_)))
      intro t rest _ _ on₂
      exact reads_pure on₂ ⟨⟨.nil, by simp [Stmt.Written]⟩, rfl⟩
    · next hk =>
      obtain ⟨rest, hr⟩ := here hk (by decide)
      refine reads_bind (reads_skip on hr ?_)
      refine reads_then (builds_condition _ _ _ (on.tail hr).on) fun test c₂ lead ht => ?_
      refine reads_then (ih _ lead.on) fun body c₃ lead₃ hy => ?_
      refine reads_pure lead₃.on ⟨⟨ht.append hy.1.1 lead.nextId lead₃.nextId, ?_⟩, rfl⟩
      simp only [Stmt.parts, List.mem_cons, forall_eq_or_imp]
      exact ⟨hy.2, hy.1.2⟩
    · next hk =>
      obtain ⟨rest, hr⟩ := here hk (by decide)
      refine reads_bind (reads_skip on hr ?_)
      refine reads_then (hblock _ (on.tail hr).on) fun body c₂ lead hb => ?_
      refine reads_pure lead.on ⟨⟨hb.1, ?_⟩, rfl⟩
      simp only [Stmt.parts, List.mem_cons, forall_eq_or_imp]
      exact ⟨trivial, hb.2⟩
    · exact reads_expressionStatement on

theorem writes_statement {block : Parser (List Stmt)}
    (hblock : Writes ts block stmtsNodes stmtsParts) :
    Writes ts (statement block) Stmt.nodes Stmt.parts := fun c on =>
  reads_bind (reads_remaining on
    ((reads_statementWithin hblock _ c on).mono fun _ _ _ h => h.1))

/-! ## Declarations -/

theorem builds_scalarInitializer : Builds ts scalarInitializer Initializer.nodes := by
  intro c on
  refine reads_bind (reads_accept on (reads_pure on .nil) fun t rest _ _ on₁ => ?_)
  exact reads_then (builds_expression _ on₁) fun e c₂ lead hb => reads_pure lead.on hb

theorem builds_arrayInitializer : Builds ts arrayInitializer Initializer.nodes := by
  intro c on
  refine reads_bind (reads_accept on (reads_pure on .nil) fun t rest _ _ on₁ => ?_)
  refine reads_bind (reads_accept on₁ ?_ fun t rest _ _ on₂ => ?_)
  · exact reads_then (builds_expression _ on₁) fun e c₂ lead hb => reads_pure lead.on hb
  · exact reads_then (builds_elements builds_expression _ on₂) fun es c₃ lead hb =>
      reads_pure lead.on hb

/-- The tokens ahead are next to each other in the list. -/
theorem infix_of_rest {c : Cursor} (on : c.On ts) (front rest : List Token)
    (h : c.rest = front ++ rest) : front <:+: ts :=
  (List.prefix_append front rest).isInfix.trans (h ▸ on.rest).isInfix

theorem type?_eof {kind : TokenKind} {type : Ty} (h : kind.type? = some type) : kind ≠ .eof := by
  rintro rfl
  cases h

theorem type?_arrayOf {kind : TokenKind} {type : Ty} (h : kind.type? = some type)
    (hv : type ≠ .void) : type.arrayOf ≠ .void := by
  cases kind <;> cases h <;> first | exact absurd rfl hv | simp

theorem reads_parameter (count : Nat) {c : Cursor} (on : c.On ts) :
    Reads ts (parameter count) c fun p c' =>
      (Declared ts p.type p.name ∧ p.type ≠ .void) ∧ c'.nextId = c.nextId := by
  refine reads_bind (reads_peek on fun token htoken => ?_)
  dsimp only
  split
  · exact reads_bind (reads_reject on)
  · split
    · exact reads_reject on
    · exact reads_reject on
    · next type hvoid htype =>
      have hv : type ≠ .void := fun e => hvoid (e ▸ rfl)
      obtain ⟨rest, hr⟩ := htoken.resolve_right (type?_eof htype)
      refine reads_bind (reads_skip on hr (reads_bind (reads_bind (reads_accept (on.tail hr).on ?_ ?_))))
      · refine reads_pure (on.tail hr).on (reads_bind (reads_expect (on.tail hr).on ?_))
        intro name rest' hname hk on₂
        refine reads_pure on₂ ⟨⟨.plain htype hk (infix_of_rest on _ rest' ?_), hv⟩, rfl⟩
        rw [hr]
        exact congrArg (token :: ·) hname
      · intro left rest₁ hl hkl on₁
        refine reads_bind (reads_expect on₁ fun right rest₂ hright hkr on₂ => ?_)
        refine reads_pure on₂ (reads_bind (reads_expect on₂ ?_))
        intro name rest₃ hname hk on₃
        have hrest : c.rest = [token, left, right, name] ++ rest₃ := by
          rw [hr, show rest = left :: rest₁ from hl, show rest₁ = right :: rest₂ from hright,
            show rest₂ = name :: rest₃ from hname]
          rfl
        refine reads_pure on₃ ⟨⟨?_, type?_arrayOf htype hv⟩, rfl⟩
        exact .array htype hv hkl hkr hk (infix_of_rest on _ _ hrest)

theorem reads_parameters {close : TokenKind} {c : Cursor} (on : c.On ts) :
    Reads ts (listUntil close parameter) c fun ps c' =>
      (∀ p ∈ ps, Declared ts p.type p.name ∧ p.type ≠ .void) ∧ c'.nextId = c.nextId := by
  have all : ∀ (limit count : Nat) (c : Cursor), c.On ts →
      Reads ts (separated parameter limit count) c fun ps c' =>
        (∀ p ∈ ps, Declared ts p.type p.name ∧ p.type ≠ .void) ∧ c'.nextId = c.nextId := by
    intro limit
    induction limit with
    | zero => exact fun count c on => reads_pure on ⟨by simp, rfl⟩
    | succ limit ih =>
      intro count c on
      rw [separated]
      refine reads_then (reads_parameter count on) fun p c₁ lead hp => ?_
      refine reads_bind (reads_accept lead.on ?_ fun t rest _ _ on₂ => ?_)
      · exact reads_pure lead.on ⟨by simpa using hp.1, hp.2⟩
      · refine reads_then (ih (count + 1) _ on₂) fun ps c₃ lead₃ hps => ?_
        refine reads_pure lead₃.on ⟨?_, hps.2.trans hp.2⟩
        simp only [List.mem_cons, forall_eq_or_imp]
        exact ⟨hp.1, hps.1⟩
  refine reads_bind (reads_check on fun b => ?_)
  split
  · exact reads_pure on ⟨by simp, rfl⟩
  · exact reads_bind (reads_remaining on (all _ 0 c on))

theorem reads_function {block : Parser (List Stmt)}
    (hblock : Writes ts block stmtsNodes stmtsParts) {name : Token} {returnType : Ty}
    (hd : Declared ts returnType name) {c : Cursor} (on : c.On ts) :
    Reads ts (function block name returnType) c fun s c' =>
      Built ts c.nextId c'.nextId s.nodes ∧ ∀ part ∈ s.parts, part.Written ts := by
  refine reads_then (reads_parameters on) fun ps c₁ lead hps => ?_
  refine reads_bind (reads_expect lead.on fun t rest _ _ on₂ => ?_)
  refine reads_bind (reads_expect on₂ fun t rest _ _ on₃ => ?_)
  refine reads_then (hblock _ on₃) fun body c₄ lead₄ hb => ?_
  refine reads_pure lead₄.on ⟨hb.1.mono lead.nextId (Nat.le_refl _), ?_⟩
  simp only [Stmt.parts, List.mem_cons, forall_eq_or_imp]
  exact ⟨⟨hd, hps.1⟩, hb.2⟩

/-- A declaration behind its type. -/
theorem reads_named {block : Parser (List Stmt)}
    (hblock : Writes ts block stmtsNodes stmtsParts) {type : Ty} {initializer : Parser Initializer}
    (hi : Builds ts initializer Initializer.nodes) {c : Cursor} (on : c.On ts)
    (hd : ∀ name rest, c.rest = name :: rest → name.kind = .identifier → Declared ts type name) :
    Reads ts (named block type initializer) c fun s c' =>
      Built ts c.nextId c'.nextId s.nodes ∧ ∀ part ∈ s.parts, part.Written ts := by
  refine reads_bind (reads_expect on fun name rest hr hk on₁ => ?_)
  have hname := hd name rest hr hk
  refine reads_bind (reads_accept on₁ ?_ fun t rest _ _ on₂ => ?_)
  · dsimp only
    split
    · exact reads_bind (reads_reject on₁)
    · next hv =>
      refine reads_then (hi _ on₁) fun start c₂ lead hb => ?_
      refine reads_bind (reads_expect lead.on fun t rest _ _ on₃ => reads_pure on₃ ⟨hb, ?_⟩)
      simp only [Stmt.parts, List.mem_singleton, forall_eq]
      exact ⟨hname, hv⟩
  · exact reads_function hblock hname on₂

theorem writes_declarationBody {block : Parser (List Stmt)}
    (hblock : Writes ts block stmtsNodes stmtsParts) :
    Writes ts (declarationBody block) Stmt.nodes Stmt.parts := by
  intro c on
  refine reads_bind (reads_peek on fun token htoken => ?_)
  split
  · next type htype =>
    obtain ⟨rest, hr⟩ := htoken.resolve_right (type?_eof htype)
    refine reads_bind (reads_skip on hr (reads_bind (reads_accept (on.tail hr).on ?_ ?_)))
    · refine reads_named hblock builds_scalarInitializer (on.tail hr).on ?_
      intro name rest' hname hk
      refine .plain htype hk (infix_of_rest on _ rest' ?_)
      rw [hr]
      exact congrArg (token :: ·) hname
    · intro left rest₁ hl hkl on₁
      refine reads_bind (reads_expect on₁ fun right rest₂ hright hkr on₂ => ?_)
      dsimp only
      split
      · exact reads_bind (reads_reject on₂)
      · next hv =>
        refine reads_named hblock builds_arrayInitializer on₂ ?_
        intro name rest₃ hname hk
        have hrest : c.rest = [token, left, right, name] ++ rest₃ := by
          rw [hr, show rest = left :: rest₁ from hl, show rest₁ = right :: rest₂ from hright,
            show rest₂ = name :: rest₃ from hname]
          rfl
        exact .array htype hv hkl hkr hk (infix_of_rest on _ _ hrest)
  · exact writes_statement hblock c on

/-! ## Programs -/

theorem resume_suffix (last : Token) (rest : List Token) : Cursor.resume last rest <:+ rest := by
  induction rest generalizing last with
  | nil => exact List.suffix_refl _
  | cons t rest ih =>
    rw [Cursor.resume]
    split
    · exact List.suffix_refl _
    · exact (ih t).trans (List.suffix_cons t rest)

theorem synchronize_leads {c : Cursor} (on : c.On ts) : c.Leads ts c.synchronize := by
  unfold Cursor.synchronize
  split
  · exact on.refl
  · next t rest hr =>
    have behind : Cursor.resume t rest <:+ c.rest :=
      (resume_suffix t rest).trans (hr ▸ List.suffix_cons t rest)
    exact ⟨⟨behind.trans on.rest, on.mark⟩, behind, Nat.le_refl _, List.prefix_refl _⟩

/-- The expressions of a statement that may be missing. -/
def optionNodes : Option Stmt → List Expr
  | none => []
  | some s => s.nodes

/-- A statement that may be missing, and the statements in it. -/
def optionParts : Option Stmt → List Stmt
  | none => []
  | some s => s.parts

theorem writes_recover {p : Parser Stmt} (h : Writes ts p Stmt.nodes Stmt.parts) :
    Writes ts (recover p) optionNodes optionParts := by
  intro c on
  have hp := h c on
  unfold Reads recover
  cases e : p c with
  | ok s c' => exact hp.of_ok e
  | error r c' =>
    have lead := hp.of_error e
    have logged : c.Leads ts { c' with log := c'.log ++ [r.diagnostic] } :=
      ⟨⟨lead.on.rest, lead.on.mark⟩, lead.rest, lead.nextId,
        lead.log.trans (List.prefix_append _ _)⟩
    exact ⟨logged.trans (synchronize_leads logged.on), .nil, by simp [optionParts]⟩

theorem stmtsNodes_append (a b : List Stmt) : stmtsNodes (a ++ b) = stmtsNodes a ++ stmtsNodes b := by
  induction a with
  | nil => rfl
  | cons s a ih => simp [ih]

theorem stmtsParts_append (a b : List Stmt) : stmtsParts (a ++ b) = stmtsParts a ++ stmtsParts b := by
  induction a with
  | nil => rfl
  | cons s a ih => simp [ih]

theorem hoist_nodes (ss : List Stmt) (s : Stmt) :
    (stmtsNodes ss ++ s.nodes).Perm (stmtsNodes (hoist ss s)) := by
  unfold hoist
  split
  · exact List.perm_append_comm
  · rw [stmtsNodes_append]
    simp

theorem hoist_parts {ss : List Stmt} {s part : Stmt} (h : part ∈ stmtsParts (hoist ss s)) :
    part ∈ stmtsParts ss ∨ part ∈ s.parts := by
  unfold hoist at h
  split at h
  · simpa [or_comm] using h
  · rw [stmtsParts_append] at h
    simpa using h

theorem reads_declarations {inBlock : Bool} {declaration : Parser (Option Stmt)}
    (hd : Writes ts declaration optionNodes optionParts) (limit : Nat) :
    ∀ (ss : List Stmt) (c : Cursor) (low : Nat), c.On ts → low ≤ c.nextId →
      Built ts low c.nextId (stmtsNodes ss) → (∀ part ∈ stmtsParts ss, part.Written ts) →
      Reads ts (declarations inBlock declaration limit ss) c fun ss' c' =>
        Built ts low c'.nextId (stmtsNodes ss') ∧ ∀ part ∈ stmtsParts ss', part.Written ts := by
  induction limit with
  | zero => exact fun ss c low on _ hb hw => reads_pure on ⟨hb, hw⟩
  | succ limit ih =>
    intro ss c low on hl hb hw
    rw [declarations]
    refine reads_bind (reads_check on fun b => ?_)
    split
    · exact reads_pure on ⟨hb, hw⟩
    · refine reads_bind (reads_remaining on ?_)
      split
      · exact reads_pure on ⟨hb, hw⟩
      · refine reads_then (hd c on) fun found c₁ lead hf => ?_
        have hle : low ≤ c₁.nextId := Nat.le_trans hl lead.nextId
        cases found with
        | none => exact ih ss c₁ low lead.on hle (hb.mono (Nat.le_refl _) lead.nextId) hw
        | some s =>
          refine ih _ c₁ low lead.on hle ((hb.append hf.1 hl lead.nextId).perm (hoist_nodes ss s)) ?_
          intro part hp
          rcases hoist_parts hp with hp | hp
          · exact hw part hp
          · exact hf.2 part hp

theorem writes_blockOf {declaration : Parser (Option Stmt)}
    (hd : Writes ts declaration optionNodes optionParts) :
    Writes ts (blockOf declaration) stmtsNodes stmtsParts := by
  intro c on
  refine reads_bind (reads_remaining on ?_)
  refine reads_then (reads_declarations hd _ [] c c.nextId on (Nat.le_refl _) .nil (by simp)) ?_
  intro body c₁ lead hb
  exact reads_bind (reads_expect lead.on fun t rest _ _ on₂ => reads_pure on₂ hb)

theorem writes_declaration (depth : Nat) :
    Writes ts (declaration depth) optionNodes optionParts := by
  induction depth with
  | zero => exact fun c on => reads_pure on ⟨.nil, by simp [optionParts]⟩
  | succ depth ih => exact writes_recover (writes_declarationBody (writes_blockOf ih))

theorem writes_program : Writes ts program stmtsNodes stmtsParts := by
  intro c on
  refine reads_bind (reads_remaining on ?_)
  exact reads_declarations (writes_declaration _) _ [] c c.nextId on (Nat.le_refl _) .nil
    (by simp)

end Parser

theorem Cursor.start_on (tokens : List Token) :
    (Cursor.start tokens).On (tokens.takeWhile (·.kind ≠ .eof)) := by
  refine ⟨List.suffix_refl _, ?_⟩
  unfold Cursor.start
  dsimp only
  split
  · next mark rest h =>
    have hd := List.head?_dropWhile_not (·.kind ≠ TokenKind.eof) tokens
    rw [h] at hd
    simpa using hd
  · rfl

theorem Declared.mono {ts ts' : List Token} {type : Ty} {name : Token} (h : Declared ts type name)
    (hs : ts <:+: ts') : Declared ts' type name := by
  cases h with
  | plain ht hn hi => exact .plain ht hn (hi.trans hs)
  | array ht hv hl hr hn hi => exact .array ht hv hl hr hn (hi.trans hs)

theorem Expr.Written.mono {ts ts' : List Token} {e : Expr} (h : e.Written ts) (hs : ts ⊆ ts') :
    e.Written ts' := by
  cases e with
  | literal id value line => trivial
  | grouping id inner => trivial
  | unary id operator right => exact h
  | binary id left operator right => exact h
  | logical id left operator right => exact h
  | var id name => exact ⟨hs h.1, h.2⟩
  | index id name position => exact ⟨hs h.1, h.2⟩
  | assign id name value => exact ⟨hs h.1, h.2⟩
  | assignIndex id name position value => exact ⟨hs h.1, h.2⟩
  | assignElements id name elements => exact ⟨hs h.1, h.2⟩
  | call id callee paren arguments => exact hs h

theorem Stmt.Written.mono {ts ts' : List Token} {s : Stmt} (h : s.Written ts)
    (hs : ts <:+: ts') : s.Written ts' := by
  cases s with
  | declare name type start => exact ⟨h.1.mono hs, h.2⟩
  | function header body => exact ⟨h.1.mono hs, fun p hp => ⟨(h.2 p hp).1.mono hs, (h.2 p hp).2⟩⟩
  | expression e => trivial
  | block body => trivial
  | ifThen keyword test yes => exact h
  | ifElse keyword test yes no => exact h
  | «while» keyword test body => exact h
  | «return» keyword value => trivial
  | «break» keyword => trivial
  | «continue» keyword => trivial

/-- The tree of a token list is written in it, and no two of its expressions have the same
number. -/
theorem parse_written (tokens : List Token) :
    ((stmtsNodes (parse tokens).statements).map Expr.id).Nodup ∧
      EachStmt (Expr.Written tokens) (Stmt.Written tokens) (parse tokens).statements := by
  have hs : tokens.takeWhile (·.kind ≠ .eof) <:+: tokens := (List.takeWhile_prefix _).isInfix
  have hp := Parser.writes_program _ (Cursor.start_on tokens)
  unfold parse
  cases e : Parser.program (Cursor.start tokens) with
  | ok ss c =>
    obtain ⟨-, hb, hw⟩ := hp.of_ok e
    exact ⟨hb.nodup, fun node hn => (hb.written node hn).mono hs.subset,
      fun part hpart => (hw part hpart).mono hs⟩
  | error r c => exact ⟨by simp, eachStmt_nil⟩

end TickScript
