import TickScript.Proofs.Grammar.Shells
import TickScript.Proofs.Progress.Positions

/-!
# What stands in a list of statements

A list of statements is read by asking for declarations one after another until the list ends
(`Parser.Attempts`). What was found is in the list once, and what was rejected is not: functions in
front, in the reverse of the order in which their names stand in the list of tokens, and everything
else behind them as it stands there (`Collected`). This is so at every depth, because every block in
a statement of such a list was itself read so (`Listed`).
-/

namespace TickScript

open Grammar

/-! ## Lists of statements -/

/-- The statements directly inside of a block or function. -/
def Stmt.body? : Stmt → Option (List Stmt)
  | .block body => some body
  | .function _ body => some body
  | _ => none

/-- No declaration stands directly behind a condition. -/
def Stmt.Guarded : Stmt → Prop
  | .ifThen _ _ yes => yes.binds? = none
  | .ifElse _ _ yes no => yes.binds? = none ∧ no.binds? = none
  | .while _ _ body => body.binds? = none
  | _ => True

theorem Stmt.Written.guarded {ts : List Token} {s : Stmt} (h : s.Written ts) : s.Guarded := by
  cases s <;> first | exact h | trivial

section Bodies

variable {Q : List Stmt → Prop} {body : List Stmt}

mutual

/-- What holds of the blocks of a statement, and with a list of the blocks of its statements, holds
of all lists in the statement. -/
theorem Stmt.each_body (closed : ∀ ss, Q ss → ∀ s ∈ ss, ∀ body ∈ s.inner, Q body) : (s : Stmt) →
    (∀ body ∈ s.inner, Q body) → ∀ part ∈ s.parts, part.body? = some body → Q body
  | .block ss, h, part, hp, hb => by
    have self : Q ss := h ss (List.mem_singleton_self ss)
    rcases List.mem_cons.1 hp with rfl | hp
    · cases hb
      exact self
    · exact stmts_each_body closed ss (closed ss self) part hp hb
  | .function header ss, h, part, hp, hb => by
    have self : Q ss := h ss (List.mem_singleton_self ss)
    rcases List.mem_cons.1 hp with rfl | hp
    · cases hb
      exact self
    · exact stmts_each_body closed ss (closed ss self) part hp hb
  | .ifThen keyword test yes, h, part, hp, hb => by
    rcases List.mem_cons.1 hp with rfl | hp
    · cases hb
    · exact yes.each_body closed h part hp hb
  | .ifElse keyword test yes no, h, part, hp, hb => by
    rcases List.mem_cons.1 hp with rfl | hp
    · cases hb
    rcases List.mem_append.1 hp with hp | hp
    · exact yes.each_body closed (fun b hb => h b (List.mem_append_left _ hb)) part hp hb
    · exact no.each_body closed (fun b hb => h b (List.mem_append_right _ hb)) part hp hb
  | .while keyword test inner, h, part, hp, hb => by
    rcases List.mem_cons.1 hp with rfl | hp
    · cases hb
    · exact inner.each_body closed h part hp hb
  | .expression _, _, part, hp, hb => by cases List.mem_singleton.1 hp; cases hb
  | .declare .., _, part, hp, hb => by cases List.mem_singleton.1 hp; cases hb
  | .return .., _, part, hp, hb => by cases List.mem_singleton.1 hp; cases hb
  | .break _, _, part, hp, hb => by cases List.mem_singleton.1 hp; cases hb
  | .continue _, _, part, hp, hb => by cases List.mem_singleton.1 hp; cases hb

theorem stmts_each_body (closed : ∀ ss, Q ss → ∀ s ∈ ss, ∀ body ∈ s.inner, Q body) :
    (ss : List Stmt) → (∀ s ∈ ss, ∀ body ∈ s.inner, Q body) → ∀ part ∈ stmtsParts ss,
      part.body? = some body → Q body
  | [], _, part, hp, _ => by simp at hp
  | s :: ss, h, part, hp, hb => by
    rcases List.mem_append.1 hp with hp | hp
    · exact s.each_body closed (h s List.mem_cons_self) part hp hb
    · exact stmts_each_body closed ss (fun s hs => h s (List.mem_cons_of_mem _ hs)) part hp hb

end

end Bodies

/-! ## Order -/

/-- A statement, and the position of its name if it is a function, or else of its first token. -/
structure Member where
  position : Nat
  statement : Stmt

/-- The order of a list: functions first, the last one foremost, and then everything else as it
stands in the list of tokens. -/
def Member.Precedes (a b : Member) : Prop :=
  match a.statement.isFunction, b.statement.isFunction with
  | true, true => b.position < a.position
  | true, false => True
  | false, true => False
  | false, false => a.position < b.position

/-- The members with the functions in front, the last one foremost. -/
def frontFunctions (members : List Member) : List Member :=
  (members.filter (·.statement.isFunction)).reverse ++
    members.filter fun m => !m.statement.isFunction

theorem frontFunctions_perm (members : List Member) : (frontFunctions members).Perm members :=
  ((List.reverse_perm _).append_right _).trans (List.filter_append_perm _ members)

theorem map_frontFunctions (members : List Member) :
    (frontFunctions members).map Member.statement =
      functionsFirst (members.map Member.statement) := by
  simp only [frontFunctions, functionsFirst, List.map_append, List.map_reverse, List.filter_map]
  rfl

theorem frontFunctions_pairwise {members : List Member}
    (ordered : members.Pairwise fun a b => a.position < b.position) :
    (frontFunctions members).Pairwise Member.Precedes := by
  have functions : ∀ m ∈ (members.filter (·.statement.isFunction)).reverse,
      m.statement.isFunction = true :=
    fun m hm => (List.mem_filter.1 (List.mem_reverse.1 hm)).2
  have others : ∀ m ∈ members.filter fun m => !m.statement.isFunction,
      m.statement.isFunction = false :=
    fun m hm => by simpa using (List.mem_filter.1 hm).2
  refine List.pairwise_append.2 ⟨?_, ?_, fun a ha b hb => ?_⟩
  · have reversed := List.pairwise_reverse.2 (ordered.filter (·.statement.isFunction))
    refine reversed.imp_of_mem fun ha hb lt => ?_
    rw [Member.Precedes, functions _ ha, functions _ hb]
    exact lt
  · refine (ordered.filter fun m => !m.statement.isFunction).imp_of_mem fun ha hb lt => ?_
    rw [Member.Precedes, others _ ha, others _ hb]
    exact lt
  · rw [Member.Precedes, functions _ ha, others _ hb]
    trivial

/-! ## Reading a list -/

/-- The position of the token ahead, if the cursor stands in the tokens before the first end
mark. -/
def Cursor.position (tokens : List Token) (c : Cursor) : Nat :=
  firstEnd tokens - c.rest.length

/-- A declaration that was asked for: where the parser stood before and after it, and what it
answered. Nothing is found where something was rejected. -/
structure Attempt where
  before : Cursor
  found : Option Stmt
  after : Cursor

/-- Where a statement stands that begins at `start`: a function where its name stands. -/
def Stmt.anchor (start : Nat) : Stmt → Nat
  | .function header _ => start + Parser.nameOffset header.returnType
  | _ => start

/-- What was found, and where it stands. -/
def Attempt.member? (tokens : List Token) (a : Attempt) : Option Member :=
  a.found.map fun s => ⟨s.anchor (a.before.position tokens), s⟩

/-- The list has every statement that was found, in its order, and the names of functions stand
where they are said to stand. -/
structure Collected (tokens : List Token) (attempts : List Attempt) (ss : List Stmt) : Prop where
  members : ∃ members : List Member, ss = members.map Member.statement ∧
    members.Perm (attempts.filterMap (Attempt.member? tokens)) ∧
    members.Pairwise Member.Precedes
  named : ∀ m ∈ attempts.filterMap (Attempt.member? tokens), ∀ header body,
    m.statement = .function header body → tokens[m.position]? = some header.name

namespace Parser

/-- Declarations are asked for one after another until the list ends. -/
inductive Attempts (inBlock : Bool) : Cursor → List Attempt → Cursor → Prop where
  | done {c : Cursor} (h : Closes inBlock c) : Attempts inBlock c [] c
  | next {c c' c'' : Cursor} {found : Option Stmt} {attempts : List Attempt}
      (h : ¬ Closes inBlock c) (call : anyDeclaration c = .ok found c')
      (more : Attempts inBlock c' attempts c'') :
      Attempts inBlock c (⟨c, found, c'⟩ :: attempts) c''

variable {inBlock : Bool} {c c' : Cursor} {ss ss' : List Stmt} {found : Option Stmt}
  {tokens ts : List Token}

/-- A list is read by attempts, and what is found is sorted into it. -/
theorem Loop.attempts (h : Loop inBlock c ss c' ss') : ∃ attempts, Attempts inBlock c attempts c' ∧
    ss' = (attempts.filterMap Attempt.found).foldl hoist ss := by
  induction h with
  | done h => exact ⟨[], .done h, rfl⟩
  | @next c c' c'' ss ss' found h call _ _ ih =>
    obtain ⟨attempts, run, hss⟩ := ih
    refine ⟨⟨c, found, c'⟩ :: attempts, .next h call run, ?_⟩
    cases found with
    | none => exact hss
    | some s => exact hss

/-- The tokens that are read, those before the first end mark. -/
abbrev inner (tokens : List Token) : List Token :=
  tokens.takeWhile (·.kind ≠ .eof)

theorem writes_anyDeclaration : Writes ts anyDeclaration optionNodes optionParts :=
  fun c on => writes_declaration (c.rest.length + 1) c on

theorem writes_anyBlock : Writes ts anyBlock stmtsNodes stmtsParts :=
  writes_blockOf writes_anyDeclaration

/-- A declaration in front of a token gets on in the list. -/
theorem leads_anyDeclaration (on : c.On ts) (ahead : c.rest ≠ [])
    (run : anyDeclaration c = .ok found c') :
    c.Leads ts c' ∧ c'.rest.length < c.rest.length := by
  refine ⟨((writes_anyDeclaration c on).of_ok run).1, ?_⟩
  obtain ⟨found', c'', run', advances⟩ := anyDeclaration_advances ⟨on.mark, ahead⟩
  rw [run] at run'
  cases run'
  exact advances.2

/-- What is found in front of a token is read up to its blocks, and its name stands behind its
type. -/
theorem shelled_anyDeclaration (on : c.On ts) (ahead : c.rest ≠ []) {s : Stmt}
    (run : anyDeclaration c = .ok (some s) c') : Shelled ts anyBlock c s c' ∧
      ∃ front type, front.length = nameOffset type ∧ Titled front type c s c' := by
  rw [anyDeclaration_eq ⟨on.mark, ahead⟩, recover] at run
  split at run
  · next body =>
    cases run
    exact ((shelled_declarationBody (stays_of_writes writes_anyBlock) writes_anyBlock on).of_ok
      body).2
  · cases run

/-- The block that is answered is the list that was read. -/
theorem loop_of_anyBlock (mark : Marked c) (run : anyBlock c = .ok ss c') :
    ∃ c'', Loop true c [] c'' ss := by
  obtain ⟨c'', ss', loop, body⟩ := loop_anyBlock mark
  rw [run] at body
  cases close : expect .rightBrace .blockEnd c'' with
  | ok t c₁ =>
    rw [bind_of_ok close] at body
    cases body
    exact ⟨c'', loop⟩
  | error r c₁ =>
    rw [bind_of_error close] at body
    cases body

/-- The attempts at a list follow one another in the tokens. -/
theorem Attempts.follow {attempts : List Attempt} (h : Attempts inBlock c attempts c') :
    c.On ts → (∀ a ∈ attempts, a.before.On ts ∧ a.before.rest ≠ [] ∧
        a.before.rest.length ≤ c.rest.length ∧ anyDeclaration a.before = .ok a.found a.after) ∧
      attempts.Pairwise fun a b => b.before.rest.length ≤ a.after.rest.length := by
  induction h with
  | done => exact fun _ => ⟨by simp, .nil⟩
  | @next c c' c'' found attempts h call more ih =>
    intro on
    have ahead : c.rest ≠ [] := fun e => h (.inl e)
    obtain ⟨lead, shorter⟩ := leads_anyDeclaration on ahead call
    obtain ⟨each, follow⟩ := ih lead.on
    refine ⟨List.forall_mem_cons.2 ⟨⟨on, ahead, Nat.le_refl _, call⟩, fun a ha => ?_⟩,
      List.pairwise_cons.2 ⟨fun a ha => (each a ha).2.2.1, follow⟩⟩
    obtain ⟨on', ahead', le, call'⟩ := each a ha
    exact ⟨on', ahead', by omega, call'⟩

end Parser

/-! ## Positions -/

section Positions

variable {tokens : List Token} {c : Cursor}

theorem Cursor.On.room (on : c.On (Parser.inner tokens)) : c.rest.length ≤ firstEnd tokens := by
  rw [firstEnd_eq]
  exact on.rest.length_le

/-- What is ahead of a cursor stands from its position on. -/
theorem Cursor.On.token (on : c.On (Parser.inner tokens)) {front rest : List Token} {t : Token}
    (hr : c.rest = front ++ t :: rest) : tokens[c.position tokens + front.length]? = some t := by
  obtain ⟨passed, split⟩ := on.rest
  have position : c.position tokens = passed.length := by
    rw [Cursor.position, firstEnd_eq]
    show (Parser.inner tokens).length - c.rest.length = passed.length
    rw [← split, List.length_append, Nat.add_sub_cancel]
  have whole : Parser.inner tokens ++ tokens.dropWhile (·.kind ≠ .eof) = tokens :=
    List.takeWhile_append_dropWhile
  rw [position, ← whole, ← split, hr]
  simp

/-- A member stands between the places where its attempt began and ended, and the name of a function
stands where the function is said to stand. -/
theorem Attempt.member_within {a : Attempt} {m : Member} (on : a.before.On (Parser.inner tokens))
    (ahead : a.before.rest ≠ []) (call : Parser.anyDeclaration a.before = .ok a.found a.after)
    (member : a.member? tokens = some m) :
    a.before.position tokens ≤ m.position ∧ m.position < a.after.position tokens ∧
      ∀ header body, m.statement = .function header body →
        tokens[m.position]? = some header.name := by
  obtain ⟨s, found, rfl⟩ := Option.map_eq_some_iff.1 member
  rw [found] at call
  have room := on.room
  have shorter := (Parser.leads_anyDeclaration on ahead call).2
  obtain ⟨-, front, type, offset, titled⟩ := Parser.shelled_anyDeclaration on ahead call
  cases s with
  | function header body =>
    obtain ⟨rfl, rest, hr, last⟩ := titled header body rfl
    have size : front.length + (rest.length + 1) = a.before.rest.length := by
      rw [hr, List.length_append, List.length_cons]
    have behind := last.length_le
    refine ⟨Nat.le_add_right _ _, ?_, ?_⟩
    · simp only [Stmt.anchor, Cursor.position, ← offset]
      omega
    · rintro _ _ ⟨⟩
      simp only [Stmt.anchor, ← offset]
      exact on.token hr
  | _ =>
    refine ⟨Nat.le_refl _, ?_, by rintro _ _ ⟨⟩⟩
    simp only [Stmt.anchor, Cursor.position]
    omega

end Positions

/-- A list that is read has what was found, in order. -/
theorem Parser.Attempts.collected {tokens : List Token} {inBlock : Bool} {c c' : Cursor}
    {attempts : List Attempt} (h : Attempts inBlock c attempts c')
    (on : c.On (Parser.inner tokens)) :
    Collected tokens attempts ((attempts.filterMap Attempt.found).foldl hoist []) := by
  obtain ⟨each, follow⟩ := h.follow on
  have within : ∀ a ∈ attempts, ∀ m, a.member? tokens = some m → _ := fun a ha m hm =>
    Attempt.member_within (each a ha).1 (each a ha).2.1 (each a ha).2.2.2 hm
  constructor
  · refine ⟨frontFunctions (attempts.filterMap (Attempt.member? tokens)), ?_,
      frontFunctions_perm _, frontFunctions_pairwise (List.pairwise_filterMap.2 ?_)⟩
    · rw [Parser.foldl_hoist, map_frontFunctions, List.map_filterMap]
      congr 2
      funext a
      cases ha : a.found <;> simp [Attempt.member?, ha]
    · refine follow.imp_of_mem fun {a b} ha hb later m hm m' hm' => ?_
      have before := (within a ha m hm).2.1
      have after := (within b hb m' hm').1
      unfold Cursor.position at before after
      omega
  · intro m hm
    obtain ⟨a, ha, hm⟩ := List.mem_filterMap.1 hm
    exact (within a ha m hm).2.2

/-! ## Programs -/

namespace Parser

/-- The lists of statements that are read in the course of parsing a list of tokens: the program,
and the blocks in what is found on the way. -/
inductive Listed (tokens : List Token) : (inBlock : Bool) → Cursor → List Stmt → Prop where
  | program {ss : List Stmt} {c : Cursor} (run : program (Cursor.start tokens) = .ok ss c) :
      Listed tokens false (Cursor.start tokens) ss
  | block {inBlock : Bool} {c c' c₁ c₂ : Cursor} {ss body : List Stmt} {attempts : List Attempt}
      {a : Attempt} {s : Stmt} (outer : Listed tokens inBlock c ss)
      (reading : Attempts inBlock c attempts c') (mem : a ∈ attempts) (found : a.found = some s)
      (inside : body ∈ s.inner) (before : a.before.Leads (inner tokens) c₁)
      (run : anyBlock c₁ = .ok body c₂) (after : c₂.Leads (inner tokens) a.after) :
      Listed tokens true c₁ body

variable {tokens : List Token} {inBlock : Bool} {c : Cursor} {ss : List Stmt}

/-- Every list was read by attempts. -/
theorem Listed.attempts (h : Listed tokens inBlock c ss) : c.On (inner tokens) ∧
    ∃ attempts c', Attempts inBlock c attempts c' ∧
      ss = (attempts.filterMap Attempt.found).foldl hoist [] := by
  have read : ∃ c', Loop inBlock c [] c' ss := by
    cases h with
    | @program ss c run =>
      obtain ⟨c', ss', loop, run'⟩ := loop_program (Cursor.start_on tokens).mark
      rw [run] at run'
      cases run'
      exact ⟨_, loop⟩
    | block _ _ _ _ _ before run _ => exact loop_of_anyBlock before.on.mark run
  constructor
  · cases h with
    | program => exact Cursor.start_on tokens
    | block _ _ _ _ _ before _ _ => exact before.on
  · obtain ⟨c', loop⟩ := read
    obtain ⟨attempts, reading, hss⟩ := loop.attempts
    exact ⟨attempts, c', reading, hss⟩

/-- The blocks of the statements of a list are lists that were read. -/
theorem Listed.inner (h : Listed tokens inBlock c ss) {s : Stmt} (hs : s ∈ ss) {body : List Stmt}
    (hb : body ∈ s.inner) : ∃ c₁, Listed tokens true c₁ body := by
  obtain ⟨on, attempts, c', reading, rfl⟩ := h.attempts
  have found : ∃ a ∈ attempts, a.found = some s := by
    have mem : s ∈ attempts.filterMap Attempt.found := by
      rw [foldl_hoist, functionsFirst, List.mem_append, List.mem_reverse] at hs
      exact hs.elim List.mem_of_mem_filter List.mem_of_mem_filter
    exact List.mem_filterMap.1 mem
  obtain ⟨a, ha, found⟩ := found
  obtain ⟨on', ahead, -, call⟩ := (reading.follow on).1 a ha
  rw [found] at call
  obtain ⟨c₁, c₂, before, run, after⟩ := (shelled_anyDeclaration on' ahead call).1.blocks body hb
  exact ⟨c₁, .block h reading ha found hb before run after⟩

end Parser

/-- Functions are moved to the front of their list, the last one foremost, and nothing else is moved
or lost. For every list of statements in the result, be it the program, a block or the body of a
function: it was read by attempts at declarations, one after another up to its end; it has
everything that was found in them once; of two functions the one whose name comes later is in front;
everything else is behind the functions, as it stands in the tokens. No declaration stands directly
behind a condition. -/
theorem parse_hoists (tokens : List Token) :
    (∀ ss, ss = (parse tokens).statements ∨
        (∃ part ∈ stmtsParts (parse tokens).statements, part.body? = some ss) →
      ∃ inBlock c attempts c', Parser.Listed tokens inBlock c ss ∧
        Parser.Attempts inBlock c attempts c' ∧ Collected tokens attempts ss) ∧
    ∀ part ∈ stmtsParts (parse tokens).statements, part.Guarded := by
  obtain ⟨c, ss, -, run⟩ := Parser.loop_program (Cursor.start_on tokens).mark
  have parsed : (parse tokens).statements = ss := by rw [parse, run]
  have top : Parser.Listed tokens false (Cursor.start tokens) ss := .program run
  have collected : ∀ {inBlock c ss}, Parser.Listed tokens inBlock c ss →
      ∃ attempts c', Parser.Attempts inBlock c attempts c' ∧ Collected tokens attempts ss := by
    intro inBlock c ss h
    obtain ⟨on, attempts, c', reading, rfl⟩ := h.attempts
    exact ⟨attempts, c', reading, reading.collected on⟩
  refine ⟨?_, fun part hp => ((parse_written tokens).2.2 part hp).guarded⟩
  rw [parsed]
  have all : ∀ ss', ss' = ss ∨ (∃ part ∈ stmtsParts ss, part.body? = some ss') →
      ∃ inBlock c, Parser.Listed tokens inBlock c ss' := by
    rintro ss' (rfl | ⟨part, hp, hb⟩)
    · exact ⟨_, _, top⟩
    · refine stmts_each_body (Q := fun ss => ∃ inBlock c, Parser.Listed tokens inBlock c ss) ?_ ss
        ?_ part hp hb
      · rintro ss ⟨_, _, h⟩ s hs body hb
        exact ⟨true, h.inner hs hb⟩
      · exact fun s hs body hb => ⟨true, top.inner hs hb⟩
  intro ss' h
  obtain ⟨inBlock, c, listed⟩ := all ss' h
  obtain ⟨attempts, c', reading, sorted⟩ := collected listed
  exact ⟨inBlock, c, attempts, c', listed, reading, sorted⟩

end TickScript
