import TickScript.Proofs.Grammar.Accepted.Statements
import TickScript.Tree.Print

/-!
# The parser accepts its grammar

The main statement is `parse_grammar`: a token list is parsed without a diagnostic if and only if
the grammar derives it, and then the answer is the tree of a derivation.
-/

namespace TickScript

open Grammar

/-- If nothing is reported, the grammar derives the list and its tree. -/
theorem parse_derived {ts : List Token} {mark : Token} (inner : ∀ t ∈ ts, t.kind ≠ .eof)
    (last : mark.kind = .eof) (clean : (parse (ts ++ [mark])).diagnostics = []) :
    Program true (ts ++ [mark]) ((parse (ts ++ [mark])).statements.map Stmt.unnumbered) := by
  have taken : (ts ++ [mark]).takeWhile (·.kind ≠ .eof) = ts :=
    takeWhile_ended inner (.inr (.cons (List.mem_singleton.2 last)))
  obtain ⟨body, hbody, htree⟩ := parse_arranged clean
  rw [taken] at hbody
  rw [htree]
  exact .mk hbody last

/-- The tree of a derivation in which each `else` belongs to the nearest `if` is what the parser
answers. -/
theorem parse_accepted {ts : List Token} {mark : Token} (inner : ∀ t ∈ ts, t.kind ≠ .eof)
    {tree : List Stmt} (h : Program true (ts ++ [mark]) tree) :
    (parse (ts ++ [mark])).diagnostics = [] ∧
      (parse (ts ++ [mark])).statements.map Stmt.unnumbered = tree := by
  generalize hts : ts ++ [mark] = tokens at h
  cases h with
  | @mk us body mark' inside last' =>
    obtain ⟨rfl, hmark⟩ := List.append_inj' hts rfl
    exact parse_many inner (.inr (.cons (List.mem_singleton.2 last'))) inside

/-- The parser accepts its grammar. A token list ends with its only end mark.

It is parsed without a diagnostic if and only if the grammar derives it. The tree that the parser
answers, apart from numbers, is then the one tree of a derivation in which each `else` belongs to
the nearest `if`. -/
theorem parse_grammar {ts : List Token} {mark : Token} (inner : ∀ t ∈ ts, t.kind ≠ .eof)
    (last : mark.kind = .eof) :
    ((parse (ts ++ [mark])).diagnostics = [] ↔ ∃ tree, Program false (ts ++ [mark]) tree) ∧
      ∀ tree, Program true (ts ++ [mark]) tree ↔
        (parse (ts ++ [mark])).diagnostics = [] ∧
          (parse (ts ++ [mark])).statements.map Stmt.unnumbered = tree := by
  refine ⟨⟨?_, ?_⟩, fun tree => ⟨?_, ?_⟩⟩
  · intro clean
    exact (parse_derived inner last clean).reattach
  · rintro ⟨tree, h⟩
    obtain ⟨tree', h'⟩ := (h.reattach : ∃ tree, Program true _ tree)
    exact (parse_accepted inner h').1
  · exact parse_accepted inner
  · rintro ⟨clean, rfl⟩
    exact parse_derived inner last clean

/-- A token without a value. -/
def Token.bare (kind : TokenKind) (lexeme : String) : Token :=
  { kind, lexeme, line := 1, offset := 0 }

/-- The tokens of `if (a) if (b) break; else continue;`. -/
def danglingElse : List Token :=
  [.bare .if "if", .bare .leftParen "(", .bare .identifier "a", .bare .rightParen ")",
   .bare .if "if", .bare .leftParen "(", .bare .identifier "b", .bare .rightParen ")",
   .bare .break "break", .bare .semicolon ";", .bare .else "else", .bare .continue "continue",
   .bare .semicolon ";"]

/-- The grammar derives these tokens, and the `else` belongs to the second `if`. -/
theorem parse_grammar_dangling_else :
    (∃ tree, Program false (danglingElse ++ [.endMark 1 0]) tree) ∧
      ∃ tree, Program true (danglingElse ++ [.endMark 1 0]) tree ∧
        printStmts tree = ["(if a (if b (break) (continue)))"] := by
  obtain ⟨accepts, answers⟩ := @parse_grammar danglingElse (.endMark 1 0) (by decide) rfl
  have clean : (parse (danglingElse ++ [.endMark 1 0])).diagnostics = [] := by decide +kernel
  exact ⟨accepts.1 clean, _, (answers _).2 ⟨clean, rfl⟩, by decide +kernel⟩

end TickScript
