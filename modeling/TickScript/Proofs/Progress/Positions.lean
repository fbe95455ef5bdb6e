import Mathlib.Data.List.TakeWhile
import Mathlib.Logic.Relation
import TickScript.Proofs.Progress.Programs

/-!
# Where the parser stands

A list of tokens is read as if it had an end mark at its end (`ended`), and up to the first end
mark in it (`firstEnd`). A cursor stands at a position of that list (`Cursor.StandsAt`): the token
ahead is the one at this position. Whatever the parsers are made of (`Cursor.Move`) leads from
positions to later positions that are not behind the first end mark, so that there always is a token
ahead (`parse_progresses`).
-/

namespace TickScript

/-- The tokens with an end mark at their end: if they do not end in one, it is added on the line of
the last token. -/
def ended (tokens : List Token) : List Token :=
  if tokens.getLast?.map Token.kind = some .eof then tokens
  else tokens ++ [Token.endMark ((tokens.getLast?.map Token.line).getD 1) 0]

/-- The position of the first end mark. -/
def firstEnd (tokens : List Token) : Nat :=
  (ended tokens).findIdx (·.kind = .eof)

/-- The cursor stands before the token at position `i`, and has the tokens from there to the first
end mark ahead. -/
structure Cursor.StandsAt (tokens : List Token) (i : Nat) (c : Cursor) : Prop where
  within : i ≤ firstEnd tokens
  rest : c.rest = ((ended tokens).take (firstEnd tokens)).drop i
  mark : (ended tokens)[firstEnd tokens]? = some c.endMark

/-- What can happen to a cursor in one step: expressions are numbered and problems reported, a token
is passed or taken, or the parser goes on to the next statement. -/
inductive Cursor.Move (c : Cursor) : Cursor → Prop where
  | note (nextId : ExprId) (log : List Diagnostic) : Move c { c with nextId, log }
  | skip : Move c (Parser.reached Parser.skip c)
  | accept (kinds : List TokenKind) : Move c (Parser.reached (Parser.acceptAny kinds) c)
  | synchronize : Move c c.synchronize

variable {tokens : List Token} {i : Nat} {c c' : Cursor}

/-! ## The first end mark -/

/-- The tokens without end marks in front, the mark, and what is never read. -/
theorem ended_split (tokens : List Token) : ∃ behind, ended tokens =
    tokens.takeWhile (·.kind ≠ .eof) ++ (Cursor.start tokens).endMark :: behind := by
  have split : tokens.takeWhile (·.kind ≠ .eof) ++ tokens.dropWhile (·.kind ≠ .eof) = tokens :=
    List.takeWhile_append_dropWhile
  unfold Cursor.start ended
  cases hd : tokens.dropWhile (·.kind ≠ .eof) with
  | cons mark behind =>
    rw [hd] at split
    split
    · exact ⟨behind, split.symm⟩
    · next added =>
      refine ⟨behind ++ [Token.endMark ((tokens.getLast?.map Token.line).getD 1) 0], ?_⟩
      rw [← List.cons_append, ← List.append_assoc, split]
  | nil =>
    rw [hd, List.append_nil] at split
    have unmarked : tokens.getLast?.map Token.kind ≠ some .eof := by
      intro e
      obtain ⟨last, hlast, hk⟩ := Option.map_eq_some_iff.1 e
      have inner := List.mem_of_getLast? hlast
      rw [← split] at inner
      have other := List.mem_takeWhile_imp inner
      exact of_decide_eq_true other hk
    exact ⟨[], by rw [if_neg unmarked, split]⟩

theorem firstEnd_eq (tokens : List Token) :
    firstEnd tokens = (tokens.takeWhile (·.kind ≠ .eof)).length := by
  obtain ⟨behind, split⟩ := ended_split tokens
  have mark : (Cursor.start tokens).endMark.kind = .eof := (Cursor.start_on tokens).mark
  have inner : (tokens.takeWhile (·.kind ≠ .eof)).findIdx (·.kind = .eof) =
      (tokens.takeWhile (·.kind ≠ .eof)).length := by
    refine List.findIdx_eq_length_of_false fun t ht => ?_
    simpa using List.mem_takeWhile_imp ht
  rw [firstEnd, split, List.findIdx_append, inner, if_neg (Nat.lt_irrefl _), List.findIdx_cons]
  simp [mark]

theorem start_standsAt (tokens : List Token) : (Cursor.start tokens).StandsAt tokens 0 := by
  obtain ⟨behind, split⟩ := ended_split tokens
  refine ⟨Nat.zero_le _, ?_, ?_⟩
  · rw [split, firstEnd_eq, List.take_left', List.drop_zero]
    · rfl
    · rfl
  · rw [split, firstEnd_eq, List.getElem?_append_right (Nat.le_refl _), Nat.sub_self]
    rfl

/-! ## Positions -/

namespace Cursor.StandsAt

theorem size (h : c.StandsAt tokens i) : c.rest.length + i = firstEnd tokens := by
  have within := h.within
  have room : firstEnd tokens < (ended tokens).length := (List.getElem?_eq_some_iff.1 h.mark).1
  rw [h.rest, List.length_drop, List.length_take]
  omega

theorem marked (h : c.StandsAt tokens i) : Parser.Marked c := by
  obtain ⟨room, mark⟩ := List.getElem?_eq_some_iff.1 h.mark
  have first := List.findIdx_getElem (w := room)
  rw [Parser.Marked, ← mark]
  exact of_decide_eq_true first

/-- The token ahead is the one at the position of the cursor. -/
theorem ahead (h : c.StandsAt tokens i) : (ended tokens)[i]? = some (c.rest.headD c.endMark) := by
  have front : c.rest.head? = if i < firstEnd tokens then (ended tokens)[i]? else none := by
    rw [h.rest, List.head?_drop, List.getElem?_take]
  rw [List.headD_eq_head?_getD, front]
  split
  · next inside =>
    have room : i < (ended tokens).length :=
      inside.trans (List.getElem?_eq_some_iff.1 h.mark).1
    rw [List.getElem?_eq_getElem room, Option.getD_some]
  · next outside =>
    rw [Nat.le_antisymm h.within (Nat.not_lt.1 outside), h.mark]
    rfl

/-- The token ahead is the first end mark exactly at its position. -/
theorem atEnd_iff (h : c.StandsAt tokens i) :
    i = firstEnd tokens ↔ (c.rest.headD c.endMark).kind = .eof := by
  have ahead := h.ahead
  constructor
  · rintro rfl
    rw [h.mark, Option.some_inj] at ahead
    rw [← ahead]
    exact h.marked
  · intro hk
    refine Nat.le_antisymm h.within (Nat.not_lt.1 fun before => ?_)
    obtain ⟨room, token⟩ := List.getElem?_eq_some_iff.1 ahead
    exact of_decide_eq_false (List.not_of_lt_findIdx before) ((congrArg Token.kind token).trans hk)

/-- A suffix of what is ahead is ahead at a later position. -/
theorem advance (h : c.StandsAt tokens i) (rest : c'.rest <:+ c.rest)
    (mark : c'.endMark = c.endMark) :
    ∃ j, i ≤ j ∧ j + c'.rest.length = firstEnd tokens ∧ c'.StandsAt tokens j := by
  have size := h.size
  have shorter := rest.length_le
  refine ⟨i + (c.rest.length - c'.rest.length), by omega, by omega, by omega, ?_, mark ▸ h.mark⟩
  rw [← List.drop_drop, ← h.rest]
  exact List.suffix_iff_eq_drop.1 rest

/-- No step leads back, or behind the first end mark. -/
theorem move (h : c.StandsAt tokens i) (move : c.Move c') : ∃ j, i ≤ j ∧ c'.StandsAt tokens j := by
  have ahead : c'.rest <:+ c.rest ∧ c'.endMark = c.endMark := by
    cases move with
    | note nextId log => exact ⟨List.suffix_refl _, rfl⟩
    | skip => exact ⟨List.tail_suffix _, rfl⟩
    | accept kinds =>
      have lead := (Parser.goes_acceptAny kinds _ c h.marked (Nat.lt_succ_self _)).2
      exact ⟨lead.rest, lead.mark⟩
    | synchronize =>
      obtain ⟨suffix, mark, -⟩ := Parser.synchronize_passes c
      exact ⟨suffix.trans (List.tail_suffix _), mark⟩
  obtain ⟨j, later, -, stands⟩ := h.advance ahead.1 ahead.2
  exact ⟨j, later, stands⟩

/-- No sequence of steps does. -/
theorem moves (h : c.StandsAt tokens i) (moves : Relation.ReflTransGen Cursor.Move c c') :
    ∃ j, i ≤ j ∧ c'.StandsAt tokens j := by
  induction moves with
  | refl => exact ⟨i, Nat.le_refl i, h⟩
  | tail _ step ih =>
    obtain ⟨j, later, stands⟩ := ih
    obtain ⟨k, later', stands'⟩ := stands.move step
    exact ⟨k, later.trans later', stands'⟩

end Cursor.StandsAt

/-! ## Parsing -/

namespace Parser

/-- A block is a list of declarations up to its closing brace. -/
theorem loop_anyBlock (mark : Marked c) : ∃ c' ss, Loop true c [] c' ss ∧
    anyBlock c = (expect .rightBrace .blockEnd >>= fun _ => pure ss) c' := by
  have size : remaining c = .ok c.rest.length c := rfl
  obtain ⟨c', ss, run, loop⟩ :=
    loop_declarations true c.rest.length c [] mark (Nat.le_refl _)
  refine ⟨c', ss, loop, ?_⟩
  rw [anyBlock, blockOf, bind_of_ok size, bind_of_ok run]

/-- A program is a list of declarations up to the end, however deep its blocks nest. -/
theorem loop_program (mark : Marked c) :
    ∃ c' ss, Loop false c [] c' ss ∧ program c = .ok ss c' := by
  have size : remaining c = .ok c.rest.length c := rfl
  obtain ⟨c', ss, run, loop⟩ :=
    loop_declarations false c.rest.length c [] mark (Nat.le_refl _)
  refine ⟨c', ss, loop, ?_⟩
  have settled : Agree (c.rest.length + 1) (declarations false anyDeclaration c.rest.length [])
      (declarations false (declaration (c.rest.length + 1)) c.rest.length []) :=
    agree_declarations (proceed_anyDeclaration (Nat.le_refl _)) _ []
  rw [program, bind_of_ok size, ← (settled c mark (Nat.lt_succ_self _)).1, run]

/-- What a declaration does in front of a token, however deep its blocks nest. -/
theorem anyDeclaration_eq (facing : Facing c) :
    anyDeclaration c = recover (declarationBody anyBlock) c :=
  (terminates.declaration c.rest.length _ (fun _ => proceeds_anyDeclaration _) () c facing
    (Nat.lt_succ_self _)).1

end Parser

/-- Parsing goes forward and comes to its end, whatever the tokens are. No recursion needs a bound.
When all declarations have been read, the parser stands before the first end mark and has reported
at most one problem for each token in front of it. Wherever it stands in between, the token ahead
and the one before it are in the list, and every declaration that is asked for, be it in a block or
not, takes it further. -/
theorem parse_progresses (tokens : List Token) :
    Parser.Terminates ∧
    (∃ c ss, Parser.Loop false (Cursor.start tokens) [] c ss ∧
      Parser.program (Cursor.start tokens) = .ok ss c ∧ parse tokens = ⟨ss, c.log⟩ ∧
      c.StandsAt tokens (firstEnd tokens) ∧
      ∃ rs : List Rejection, c.log = rs.map Rejection.diagnostic ∧ rs.length ≤ firstEnd tokens) ∧
    (∀ c, Relation.ReflTransGen Cursor.Move (Cursor.start tokens) c → ∃ i, c.StandsAt tokens i) ∧
    ∀ i c, c.StandsAt tokens i →
      (ended tokens)[i]? = some (c.rest.headD c.endMark) ∧ i - 1 < (ended tokens).length ∧
      (i = firstEnd tokens ↔ (c.rest.headD c.endMark).kind = .eof) ∧
      (∀ c', c.Move c' → ∃ j, i ≤ j ∧ c'.StandsAt tokens j) ∧
      (i < firstEnd tokens → ∃ found c' j, Parser.anyDeclaration c = .ok found c' ∧
        Parser.anyDeclaration c = Parser.recover (Parser.declarationBody Parser.anyBlock) c ∧
        i < j ∧ c'.StandsAt tokens j) ∧
      ∃ c' ss, Parser.Loop true c [] c' ss ∧
        Parser.anyBlock c = (Parser.expect .rightBrace .blockEnd >>= fun _ => pure ss) c' := by
  have start := start_standsAt tokens
  refine ⟨Parser.terminates, ?_, fun c moves => ?_, fun i c h => ?_⟩
  · obtain ⟨c, ss, loop, run⟩ := Parser.loop_program start.marked
    obtain ⟨closes, lead⟩ := loop.ends
    have done : c.rest = [] := closes.resolve_right (by simp)
    obtain ⟨j, -, position, stands⟩ := start.advance lead.rest lead.mark
    rw [done, List.length_nil, Nat.add_zero] at position
    obtain ⟨rs, log, paid⟩ := lead.reports
    have size := start.size
    refine ⟨c, ss, loop, run, by rw [parse, run], position ▸ stands, rs, log, by omega⟩
  · obtain ⟨i, -, stands⟩ := start.moves moves
    exact ⟨i, stands⟩
  · have room := (List.getElem?_eq_some_iff.1 h.ahead).1
    refine ⟨h.ahead, by omega, h.atEnd_iff, fun _ => h.move, fun inside => ?_,
      Parser.loop_anyBlock h.marked⟩
    have facing : Parser.Facing c := by
      refine ⟨h.marked, fun e => ?_⟩
      have size := h.size
      rw [e, List.length_nil] at size
      omega
    obtain ⟨found, c', run, lead, shorter⟩ := Parser.anyDeclaration_advances facing
    obtain ⟨j, -, position, stands⟩ := h.advance lead.rest lead.mark
    have size := h.size
    exact ⟨found, c', j, run, Parser.anyDeclaration_eq facing, by omega, stands⟩

end TickScript
