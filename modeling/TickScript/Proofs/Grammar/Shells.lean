import TickScript.Proofs.Grammar.Hoisted
import TickScript.Proofs.Grammar.Placed

/-!
# Statements up to their blocks

A statement is read up to the blocks in it, which are lists of declarations again. Its shell is what
is outside of them: the statement and those behind its conditions, with their expressions. What
the rules for statements grant of the shell, and where they read the blocks, is said once
(`Shelled`).
-/

namespace TickScript

open Grammar

/-! ## Shells and blocks -/

/-- The statement and the statements directly behind its conditions. -/
def Stmt.shell : Stmt → List Stmt
  | .ifThen keyword test yes => .ifThen keyword test yes :: yes.shell
  | .ifElse keyword test yes no => .ifElse keyword test yes no :: (yes.shell ++ no.shell)
  | .while keyword test body => .while keyword test body :: body.shell
  | s => [s]

/-- The expressions of a statement outside of its blocks. -/
def Stmt.heads : Stmt → List Expr
  | .expression e => e.nodes
  | .declare _ _ start => start.nodes
  | .ifThen _ test yes => test.nodes ++ yes.heads
  | .ifElse _ test yes no => test.nodes ++ (yes.heads ++ no.heads)
  | .while _ test body => test.nodes ++ body.heads
  | .return _ (some e) => e.nodes
  | _ => []

/-- The blocks of a statement and the body of a function, but not what is inside of them. -/
def Stmt.inner : Stmt → List (List Stmt)
  | .block body => [body]
  | .function _ body => [body]
  | .ifThen _ _ yes => yes.inner
  | .ifElse _ _ yes no => yes.inner ++ no.inner
  | .while _ _ body => body.inner
  | _ => []

/-- A statement consists of its shell and its blocks. -/
theorem Stmt.mem_parts {part : Stmt} : ∀ {s : Stmt}, part ∈ s.parts ↔
    part ∈ s.shell ∨ ∃ body ∈ s.inner, part ∈ stmtsParts body
  | .expression e => by simp [Stmt.shell, Stmt.inner]
  | .block body => by simp [Stmt.shell, Stmt.inner]
  | .declare name type start => by simp [Stmt.shell, Stmt.inner]
  | .ifThen keyword test yes => by simp [Stmt.shell, Stmt.inner, mem_parts (s := yes), or_assoc]
  | .ifElse keyword test yes no => by
    simp only [Stmt.parts, Stmt.shell, Stmt.inner, List.mem_cons, List.mem_append,
      mem_parts (s := yes), mem_parts (s := no), or_and_right, exists_or, List.cons_append,
      or_assoc, or_left_comm]
  | .while keyword test body => by
    simp [Stmt.shell, Stmt.inner, mem_parts (s := body), or_assoc]
  | .return keyword none => by simp [Stmt.shell, Stmt.inner]
  | .return keyword (some e) => by simp [Stmt.shell, Stmt.inner]
  | .break keyword => by simp [Stmt.shell, Stmt.inner]
  | .continue keyword => by simp [Stmt.shell, Stmt.inner]
  | .function header body => by simp [Stmt.shell, Stmt.inner]

theorem Stmt.mem_nodes {node : Expr} : ∀ {s : Stmt}, node ∈ s.nodes ↔
    node ∈ s.heads ∨ ∃ body ∈ s.inner, node ∈ stmtsNodes body
  | .expression e => by simp [Stmt.heads, Stmt.inner]
  | .block body => by simp [Stmt.heads, Stmt.inner]
  | .declare name type start => by simp [Stmt.heads, Stmt.inner]
  | .ifThen keyword test yes => by simp [Stmt.heads, Stmt.inner, mem_nodes (s := yes), or_assoc]
  | .ifElse keyword test yes no => by
    simp only [Stmt.nodes, Stmt.heads, Stmt.inner, List.mem_append, mem_nodes (s := yes),
      mem_nodes (s := no), or_and_right, exists_or, or_assoc, or_left_comm]
  | .while keyword test body => by
    simp [Stmt.heads, Stmt.inner, mem_nodes (s := body), or_assoc]
  | .return keyword none => by simp [Stmt.heads, Stmt.inner]
  | .return keyword (some e) => by simp [Stmt.heads, Stmt.inner]
  | .break keyword => by simp [Stmt.heads, Stmt.inner]
  | .continue keyword => by simp [Stmt.heads, Stmt.inner]
  | .function header body => by simp [Stmt.heads, Stmt.inner]

/-- The keyword of a statement itself is in the list. -/
def Stmt.Keyed (ts : List Token) : Stmt → Prop
  | .ifThen keyword _ _ => keyword ∈ ts ∧ keyword.kind = .if
  | .ifElse keyword _ _ _ => keyword ∈ ts ∧ keyword.kind = .if
  | .while keyword _ _ => keyword ∈ ts ∧ keyword.kind = .while
  | .return keyword _ => keyword ∈ ts ∧ keyword.kind = .return
  | .break keyword => keyword ∈ ts ∧ keyword.kind = .break
  | .continue keyword => keyword ∈ ts ∧ keyword.kind = .continue
  | _ => True

namespace Parser

variable {ts : List Token}

/-- What is read of a statement between two cursors. Its expressions are placed, its keywords are
in the list, and its blocks are read in between. -/
structure Shelled (ts : List Token) (block : Parser (List Stmt)) (c : Cursor) (s : Stmt)
    (c' : Cursor) : Prop where
  heads : AllPlaced ts c'.nextId s.heads
  keyed : ∀ part ∈ s.shell, part.Keyed ts
  blocks : ∀ body ∈ s.inner, ∃ c₁ c₂, c.Leads ts c₁ ∧ block c₁ = .ok body c₂ ∧ c₂.Leads ts c'

theorem Reads.and {α : Type} {p : Parser α} {c : Cursor} {post post' : α → Cursor → Prop}
    (h : Reads ts p c post) (h' : Reads ts p c post') :
    Reads ts p c fun a c' => post a c' ∧ post' a c' :=
  .intro (fun _ _ run => ⟨(h.of_ok run).1, (h.of_ok run).2, (h'.of_ok run).2⟩)
    fun _ _ run => h.of_error run

/-- The parser stays in the list when it is asked for a block. -/
def Stays (ts : List Token) (block : Parser (List Stmt)) : Prop :=
  ∀ c, c.On ts → Reads ts block c fun body c' => block c = .ok body c'

namespace Shelled

variable {block : Parser (List Stmt)} {c c₁ c₂ c₃ : Cursor} {s : Stmt}

/-- A statement without blocks. -/
theorem plain (heads : AllPlaced ts c₂.nextId s.heads) (keyed : s.Keyed ts) (shell : s.shell = [s])
    (inner : s.inner = []) : Shelled ts block c s c₂ where
  heads := heads
  keyed := by simpa [shell] using keyed
  blocks := by simp [inner]

/-- What is read between two cursors is read between cursors further apart. -/
theorem widen (first : c.Leads ts c₁) (h : Shelled ts block c₁ s c₂) (last : c₂.Leads ts c₃) :
    Shelled ts block c s c₃ where
  heads := h.heads.mono last.nextId
  keyed := h.keyed
  blocks body hb := by
    obtain ⟨c₄, c₅, lead, run, lead'⟩ := h.blocks body hb
    exact ⟨c₄, c₅, first.trans lead, run, lead'.trans last⟩

variable {keyword : Token} {test : Expr} {yes no : Stmt}

theorem ifThen (mem : keyword ∈ ts) (hk : keyword.kind = .if)
    (ht : AllPlaced ts c₁.nextId test.nodes) (hy : Shelled ts block c yes c₁) : Shelled ts block c (.ifThen keyword test yes) c₁ where
  heads := ht.append hy.heads
  keyed := List.forall_mem_cons.2 ⟨⟨mem, hk⟩, hy.keyed⟩
  blocks := hy.blocks

theorem ifElse (mem : keyword ∈ ts) (hk : keyword.kind = .if)
    (ht : AllPlaced ts c₁.nextId test.nodes) (hy : Shelled ts block c yes c₁)
    (hn : Shelled ts block c no c₁) :
    Shelled ts block c (.ifElse keyword test yes no) c₁ where
  heads := ht.append (hy.heads.append hn.heads)
  keyed := List.forall_mem_cons.2 ⟨⟨mem, hk⟩, List.forall_mem_append.2 ⟨hy.keyed, hn.keyed⟩⟩
  blocks body hb := (List.mem_append.1 hb).elim (hy.blocks body) (hn.blocks body)

theorem loop (mem : keyword ∈ ts) (hk : keyword.kind = .while)
    (ht : AllPlaced ts c₁.nextId test.nodes) (hy : Shelled ts block c yes c₁) :
    Shelled ts block c (.while keyword test yes) c₁ where
  heads := ht.append hy.heads
  keyed := List.forall_mem_cons.2 ⟨⟨mem, hk⟩, hy.keyed⟩
  blocks := hy.blocks

end Shelled

section Rules

variable {block : Parser (List Stmt)}

theorem shelled_expressionStatement {c : Cursor} (on : c.On ts) :
    Reads ts expressionStatement c (Shelled ts block c) := by
  refine reads_then (places_expression c on) fun e c₁ lead hb => ?_
  refine reads_bind (reads_expect lead.on fun t rest _ _ on₂ => reads_pure on₂ ?_)
  exact .plain hb trivial rfl rfl

theorem shelled_returnStatement {c : Cursor} {keyword : Token} (on : c.On ts)
    (mem : keyword ∈ ts) (hk : keyword.kind = .return) :
    Reads ts (returnStatement keyword) c (Shelled ts block c) := by
  refine reads_bind (reads_check on fun b => ?_)
  have finish : ∀ value c₁, c.Leads ts c₁ →
      AllPlaced ts c₁.nextId (Stmt.return keyword value).heads →
      Reads ts (do
        let _ ← expect .semicolon .returnEnd
        return .return keyword value) c₁ (Shelled ts block c) := by
    intro value c₁ lead hb
    refine reads_bind (reads_expect lead.on fun t rest _ _ on₂ => reads_pure on₂ ?_)
    exact .plain hb ⟨mem, hk⟩ rfl rfl
  split
  · exact reads_bind (reads_pure on (finish none c on.refl .nil))
  · refine reads_bind (reads_then (places_expression c on) fun e c₁ lead hb => ?_)
    exact reads_pure lead.on (finish (some e) c₁ lead hb)

theorem places_condition (start finish : Expectation) :
    Places ts (condition start finish) Expr.nodes := by
  intro c on
  refine reads_bind (reads_expect on fun t rest _ _ on₁ => ?_)
  refine reads_then (places_expression _ on₁) fun e c₂ lead hb => ?_
  exact reads_bind (reads_expect lead.on fun t rest _ _ on₃ => reads_pure on₃ hb)

theorem shelled_statementWithin (hblock : Stays ts block) (depth : Nat) :
    ∀ c, c.On ts → Reads ts (statementWithin block depth) c (Shelled ts block c) := by
  induction depth with
  | zero => exact fun c on => shelled_expressionStatement on
  | succ depth ih =>
    intro c on
    rw [statementWithin]
    refine reads_bind (reads_peek on fun keyword hkeyword => ?_)
    have here : ∀ {kind}, keyword.kind = kind → kind ≠ .eof → ∃ rest, c.rest = keyword :: rest :=
      fun hk hne => hkeyword.resolve_right fun e => hne (hk.symm.trans e)
    have mem : ∀ {rest}, c.rest = keyword :: rest → keyword ∈ ts :=
      fun hr => on.mem (by rw [hr]; exact List.mem_cons_self)
    split
    · next hk =>
      obtain ⟨rest, hr⟩ := here hk (by decide)
      refine reads_bind (reads_skip on hr ?_)
      refine reads_then (places_condition _ _ _ (on.tail hr).on) fun test c₂ lead ht => ?_
      refine reads_then (ih _ lead.on) fun yes c₃ lead₃ hy => ?_
      have first := (on.tail hr).trans lead
      refine reads_bind (reads_accept lead₃.on ?_ fun t rest' hr' _ on₄ => ?_)
      · exact reads_pure lead₃.on (.ifThen (mem hr) hk (ht.mono lead₃.nextId)
          (hy.widen first lead₃.on.refl))
      · refine reads_then (ih _ on₄) fun no c₅ lead₅ hn => ?_
        have between := (lead₃.on.tail hr').trans lead₅
        refine reads_pure lead₅.on (.ifElse (mem hr) hk ?_ (hy.widen first between) ?_)
        · exact ht.mono (Nat.le_trans lead₃.nextId lead₅.nextId)
        · exact hn.widen (first.trans (lead₃.trans (lead₃.on.tail hr'))) lead₅.on.refl
    · next hk =>
      obtain ⟨rest, hr⟩ := here hk (by decide)
      refine reads_bind (reads_skip on hr ?_)
      exact (shelled_returnStatement (on.tail hr).on (mem hr) hk).mono fun s c' lead h =>
        h.widen (on.tail hr) lead.on.refl
    · next hk =>
      obtain ⟨rest, hr⟩ := here hk (by decide)
      refine reads_bind (reads_skip on hr (reads_bind (reads_expect (on.tail hr).on ?_)))
      intro t rest _ _ on₂
      exact reads_pure on₂ (.plain .nil ⟨mem hr, hk⟩ rfl rfl)
    · next hk =>
      obtain ⟨rest, hr⟩ := here hk (by decide)
      refine reads_bind (reads_skip on hr (reads_bind (reads_expect (on.tail hr).on ?_)))
      intro t rest _ _ on₂
      exact reads_pure on₂ (.plain .nil ⟨mem hr, hk⟩ rfl rfl)
    · next hk =>
      obtain ⟨rest, hr⟩ := here hk (by decide)
      refine reads_bind (reads_skip on hr ?_)
      refine reads_then (places_condition _ _ _ (on.tail hr).on) fun test c₂ lead ht => ?_
      refine reads_then (ih _ lead.on) fun body c₃ lead₃ hy => ?_
      exact reads_pure lead₃.on (.loop (mem hr) hk (ht.mono lead₃.nextId)
        (hy.widen ((on.tail hr).trans lead) lead₃.on.refl))
    · next hk =>
      obtain ⟨rest, hr⟩ := here hk (by decide)
      refine reads_bind (reads_skip on hr ?_)
      refine reads_then (hblock _ (on.tail hr).on) fun body c₂ lead run => ?_
      refine reads_pure lead.on ⟨.nil, by simp [Stmt.shell, Stmt.Keyed], ?_⟩
      intro body' hb
      obtain rfl := List.mem_singleton.1 hb
      exact ⟨_, c₂, on.tail hr, run, lead.on.refl⟩
    · exact shelled_expressionStatement on

/-! ## Declarations -/

/-- The number of tokens of a function before its name: the keyword of its type, and brackets. -/
def nameOffset : Ty → Nat
  | .array _ => 3
  | _ => 1

/-- If the statement is a function then it is of this type, and its name stands behind `front` and
before its end. -/
def Titled (front : List Token) (type : Ty) (c : Cursor) (s : Stmt) (c' : Cursor) : Prop :=
  ∀ header body, s = .function header body → header.returnType = type ∧
    ∃ rest, c.rest = front ++ header.name :: rest ∧ c'.rest <:+ rest

theorem Titled.pass {front : List Token} {type : Ty} {c c' : Cursor} {s : Stmt} {t : Token}
    {rest : List Token} (hr : c.rest = t :: rest) (h : Titled front type { c with rest } s c') :
    Titled (t :: front) type c s c' := by
  intro header body hs
  obtain ⟨same, rest', hfront, last⟩ := h header body hs
  exact ⟨same, rest', hr.trans (congrArg (t :: ·) hfront), last⟩

theorem places_scalarInitializer : Places ts scalarInitializer Initializer.nodes := by
  intro c on
  refine reads_bind (reads_accept on (reads_pure on .nil) fun t rest _ _ on₁ => ?_)
  exact reads_then (places_expression _ on₁) fun e c₂ lead hb => reads_pure lead.on hb

theorem places_arrayInitializer : Places ts arrayInitializer Initializer.nodes := by
  intro c on
  refine reads_bind (reads_accept on (reads_pure on .nil) fun t rest _ _ on₁ => ?_)
  refine reads_bind (reads_accept on₁ ?_ fun t rest _ _ on₂ => ?_)
  · exact reads_then (places_expression _ on₁) fun e c₂ lead hb => reads_pure lead.on hb
  · exact reads_then (places_elements places_expression _ on₂) fun es c₃ lead hb =>
      reads_pure lead.on hb

theorem shelled_function (hblock : Stays ts block) (name : Token) (returnType : Ty) {c : Cursor}
    (on : c.On ts) : Reads ts (function block name returnType) c fun s c' =>
      Shelled ts block c s c' ∧
        ∃ parameters body, s = .function ⟨name, parameters, returnType⟩ body := by
  refine reads_then (reads_parameters on) fun ps c₁ lead _ => ?_
  refine reads_bind (reads_expect lead.on fun t rest hr _ on₂ => ?_)
  refine reads_bind (reads_expect on₂ fun t' rest' hr' _ on₃ => ?_)
  refine reads_then (hblock _ on₃) fun body c₄ lead₄ run => ?_
  have first := lead.trans ((lead.on.tail hr).trans (on₂.tail hr'))
  refine reads_pure lead₄.on ⟨⟨.nil, by simp [Stmt.shell, Stmt.Keyed], ?_⟩, ps, body, rfl⟩
  intro body' hb
  obtain rfl := List.mem_singleton.1 hb
  exact ⟨_, c₄, first, run, lead₄.on.refl⟩

theorem shelled_named (hblock : Stays ts block) (type : Ty) {initializer : Parser Initializer}
    (hi : Places ts initializer Initializer.nodes) {c : Cursor} (on : c.On ts) :
    Reads ts (named block type initializer) c fun s c' =>
      Shelled ts block c s c' ∧ Titled [] type c s c' := by
  refine reads_bind (reads_expect on fun name rest hr hk on₁ => ?_)
  refine reads_bind (reads_accept on₁ ?_ fun t rest' hr' _ on₂ => ?_)
  · dsimp only
    split
    · exact reads_bind (reads_reject on₁)
    · refine reads_then (hi _ on₁) fun start c₂ lead hb => ?_
      refine reads_bind (reads_expect lead.on fun t rest _ _ on₃ => reads_pure on₃ ⟨?_, ?_⟩)
      · exact .plain hb trivial rfl rfl
      · rintro header body ⟨⟩
  · refine (shelled_function hblock name type on₂).mono fun s c' lead h => ⟨?_, ?_⟩
    · exact h.1.widen ((on.tail hr).trans (on₁.tail hr')) lead.on.refl
    · obtain ⟨parameters, body, rfl⟩ := h.2
      rintro header body' ⟨⟩
      exact ⟨rfl, rest, hr, lead.rest.trans (on₁.tail hr').rest⟩

theorem nameOffset_type? {kind : TokenKind} {type : Ty} (h : kind.type? = some type) :
    nameOffset type = 1 ∧ (type ≠ .void → nameOffset type.arrayOf = 3) := by
  cases kind <;> cases h <;> decide

theorem shelled_declarationBody (stays : Stays ts block)
    (writes : Writes ts block stmtsNodes stmtsParts) {c : Cursor} (on : c.On ts) :
    Reads ts (declarationBody block) c fun s c' => Shelled ts block c s c' ∧
      ∃ front type, front.length = nameOffset type ∧ Titled front type c s c' := by
  refine reads_bind (reads_peek on fun token htoken => ?_)
  split
  · next type htype =>
    obtain ⟨scalar, array⟩ := nameOffset_type? htype
    obtain ⟨rest, hr⟩ := htoken.resolve_right (type?_eof htype)
    refine reads_bind (reads_skip on hr (reads_bind (reads_accept (on.tail hr).on ?_ ?_)))
    · refine (shelled_named stays type places_scalarInitializer (on.tail hr).on).mono ?_
      intro s c' lead h
      exact ⟨h.1.widen (on.tail hr) lead.on.refl, [token], type, scalar.symm, h.2.pass hr⟩
    · intro left rest₁ hl hkl on₁
      refine reads_bind (reads_expect on₁ fun right rest₂ hright hkr on₂ => ?_)
      dsimp only
      split
      · exact reads_bind (reads_reject on₂)
      · next hv =>
        refine (shelled_named stays type.arrayOf places_arrayInitializer on₂).mono ?_
        intro s c' lead h
        have first := (on.tail hr).trans (((on.tail hr).on.tail hl).trans (on₁.tail hright))
        exact ⟨h.1.widen first lead.on.refl, [token, left, right], type.arrayOf, (array hv).symm,
          ((h.2.pass hright).pass hl).pass hr⟩
  · -- No function is read as a statement.
    refine reads_bind (reads_remaining on ?_)
    refine ((shelled_statementWithin stays _ c on).and
      (reads_statementWithin writes _ c on)).mono ?_
    rintro s c' - ⟨h, plain⟩
    refine ⟨h, [token], .void, rfl, ?_⟩
    rintro header body rfl
    exact absurd plain.2 (by simp [Stmt.binds?])

end Rules

/-! ## Programs -/

/-- The parser answers statements whose expressions are placed and whose keywords are in the
list. -/
def Keeps {α : Type} (ts : List Token) (p : Parser α) (nodes : α → List Expr)
    (parts : α → List Stmt) : Prop :=
  ∀ c, c.On ts → Reads ts p c fun a c' =>
    AllPlaced ts c'.nextId (nodes a) ∧ ∀ part ∈ parts a, part.Keyed ts

theorem stays_of_writes {block : Parser (List Stmt)}
    (h : Writes ts block stmtsNodes stmtsParts) : Stays ts block := fun c on =>
  .intro (fun _ _ run => ⟨((h c on).of_ok run).1, run⟩) fun _ _ run => (h c on).of_error run

/-- What holds of the shell of a statement and of its blocks holds of the statement. -/
theorem keeps_declarationBody {block : Parser (List Stmt)}
    (writes : Writes ts block stmtsNodes stmtsParts)
    (keeps : Keeps ts block stmtsNodes stmtsParts) :
    Keeps ts (declarationBody block) Stmt.nodes Stmt.parts := by
  intro c on
  refine (shelled_declarationBody (stays_of_writes writes) writes on).mono fun s c' lead h => ?_
  have blocks : ∀ body ∈ s.inner,
      AllPlaced ts c'.nextId (stmtsNodes body) ∧ ∀ part ∈ stmtsParts body, part.Keyed ts := by
    intro body hb
    obtain ⟨c₁, c₂, lead₁, run, last⟩ := h.1.blocks body hb
    obtain ⟨-, placed, keyed⟩ := (keeps c₁ lead₁.on).of_ok run
    exact ⟨placed.mono last.nextId, keyed⟩
  constructor
  · intro node hn
    rcases Stmt.mem_nodes.1 hn with hn | ⟨body, hb, hn⟩
    · exact h.1.heads node hn
    · exact (blocks body hb).1 node hn
  · intro part hp
    rcases Stmt.mem_parts.1 hp with hp | ⟨body, hb, hp⟩
    · exact h.1.keyed part hp
    · exact (blocks body hb).2 part hp

theorem keeps_recover {p : Parser Stmt} (h : Keeps ts p Stmt.nodes Stmt.parts)
    (writes : Writes ts p Stmt.nodes Stmt.parts) :
    Keeps ts (recover p) optionNodes optionParts := by
  intro c on
  refine .intro (fun found c' run => ?_) fun r c' run => (writes_recover writes c on).of_error run
  refine ⟨((writes_recover writes c on).of_ok run).1, ?_⟩
  unfold recover at run
  split at run
  · next e =>
    cases run
    exact ((h c on).of_ok e).2
  · cases run
    exact ⟨.nil, by simp [optionParts]⟩

theorem keeps_declarations {inBlock : Bool} {declaration : Parser (Option Stmt)}
    (hd : Keeps ts declaration optionNodes optionParts) (limit : Nat) :
    ∀ (ss : List Stmt) (c : Cursor), c.On ts → AllPlaced ts c.nextId (stmtsNodes ss) →
      (∀ part ∈ stmtsParts ss, part.Keyed ts) →
      Reads ts (declarations inBlock declaration limit ss) c fun ss' c' =>
        AllPlaced ts c'.nextId (stmtsNodes ss') ∧ ∀ part ∈ stmtsParts ss', part.Keyed ts := by
  induction limit with
  | zero => exact fun ss c on hb hw => reads_pure on ⟨hb, hw⟩
  | succ limit ih =>
    intro ss c on hb hw
    rw [declarations]
    refine reads_bind (reads_check on fun b => ?_)
    split
    · exact reads_pure on ⟨hb, hw⟩
    · refine reads_bind (reads_remaining on ?_)
      split
      · exact reads_pure on ⟨hb, hw⟩
      · refine reads_then (hd c on) fun found c₁ lead hf => ?_
        have before := hb.mono lead.nextId
        cases found with
        | none => exact ih ss c₁ lead.on before hw
        | some s =>
          refine ih _ c₁ lead.on ?_ ?_
          · exact (before.append hf.1).subset (hoist_nodes ss s).symm.subset
          · intro part hp
            exact (hoist_parts hp).elim (hw part) (hf.2 part)

theorem keeps_blockOf {declaration : Parser (Option Stmt)}
    (hd : Keeps ts declaration optionNodes optionParts) :
    Keeps ts (blockOf declaration) stmtsNodes stmtsParts := by
  intro c on
  refine reads_bind (reads_remaining on ?_)
  refine reads_then (keeps_declarations hd _ [] c on .nil (by simp)) ?_
  intro body c₁ lead hb
  exact reads_bind (reads_expect lead.on fun t rest _ _ on₂ => reads_pure on₂ hb)

theorem keeps_declaration (depth : Nat) :
    Keeps ts (declaration depth) optionNodes optionParts := by
  induction depth with
  | zero => exact fun c on => reads_pure on ⟨.nil, by simp [optionParts]⟩
  | succ depth ih =>
    have writes : Writes ts (blockOf (declaration depth)) stmtsNodes stmtsParts :=
      writes_blockOf (writes_declaration depth)
    exact keeps_recover (keeps_declarationBody writes (keeps_blockOf ih))
      (writes_declarationBody writes)

theorem keeps_program : Keeps ts program stmtsNodes stmtsParts := by
  intro c on
  refine reads_bind (reads_remaining on ?_)
  exact keeps_declarations (keeps_declaration _) _ [] c on .nil (by simp)

end Parser

end TickScript
