import TickScript.Token

/-!
# Cutting a source text into pieces

Scanning first cuts the text into pieces from left to right, each as long as its class
allows: a token, a gap that separates tokens, or a character that belongs to nothing. The
main statements say that nothing is lost (`text_cut`, `flatten_pieces`) and that no piece
is empty (`cut_text_ne_nil`).
-/

namespace TickScript

/-- A piece of a source text, with its characters. -/
inductive Piece where
  | token (kind : TokenKind) (text : List Char)
  | gap (text : List Char)
  | stray (c : Char)
deriving DecidableEq, Repr

namespace Piece

/-- The characters of a piece. -/
def text : Piece → List Char
  | .token _ text => text
  | .gap text => text
  | .stray c => [c]

/-- The characters that can start a word. -/
def startsWord (c : Char) : Bool :=
  c.isAlpha || c == '_'

/-- The characters that can continue a word. -/
def continuesWord (c : Char) : Bool :=
  c.isAlphanum || c == '_'

/-- The kind of a character that is a token by itself. -/
def single? : Char → Option TokenKind
  | '(' => some .leftParen
  | ')' => some .rightParen
  | '\x7b' => some .leftBrace
  | '\x7d' => some .rightBrace
  | '[' => some .leftBracket
  | ']' => some .rightBracket
  | ',' => some .comma
  | '.' => some .dot
  | '-' => some .minus
  | '+' => some .plus
  | ';' => some .semicolon
  | '*' => some .star
  | '%' => some .percent
  | '/' => some .slash
  | '!' => some .bang
  | '=' => some .equal
  | '<' => some .less
  | '>' => some .greater
  | _ => none

/-- The kind of two characters that make one token. -/
def double? : Char → Char → Option TokenKind
  | '!', '=' => some .bangEqual
  | '=', '=' => some .equalEqual
  | '<', '=' => some .lessEqual
  | '>', '=' => some .greaterEqual
  | '&', '&' => some .and
  | '|', '|' => some .or
  | _, _ => none

/-- A number with its first digit, and what follows it. A point belongs to the number only
if a digit comes after it. -/
def number (c : Char) (rest : List Char) : Piece × List Char :=
  let whole := c :: rest.takeWhile Char.isDigit
  let after := rest.dropWhile Char.isDigit
  match after with
  | '.' :: d :: more =>
    if d.isDigit then
      (.token .floatNumber (whole ++ '.' :: d :: more.takeWhile Char.isDigit),
        more.dropWhile Char.isDigit)
    else (.token .intNumber whole, after)
  | _ => (.token .intNumber whole, after)

/-- A word with its first character, and what follows it. -/
def word (c : Char) (rest : List Char) : Piece × List Char :=
  let letters := c :: rest.takeWhile continuesWord
  (.token (.ofWord (String.ofList letters)) letters, rest.dropWhile continuesWord)

/-- The piece that begins with `c` when no longer operator does. -/
def cutOne (c : Char) (rest : List Char) : Piece × List Char :=
  match single? c with
  | some kind => (.token kind [c], rest)
  | none =>
    if c == ' ' || c == '\r' || c == '\t' || c == '\n' then (.gap [c], rest)
    else if c.isDigit then number c rest
    else if startsWord c then word c rest
    else (.stray c, rest)

/-- The first piece of the text `c :: rest`, and what follows it. A comment runs up to the
end of its line and leaves the line break for the next piece. -/
def cut (c : Char) (rest : List Char) : Piece × List Char :=
  match rest with
  | d :: more =>
    if c = '/' ∧ d = '/' then
      (.gap (c :: d :: more.takeWhile (· ≠ '\n')), more.dropWhile (· ≠ '\n'))
    else
      match double? c d with
      | some kind => (.token kind [c, d], more)
      | none => cutOne c rest
  | [] => cutOne c rest

/-- Cuts a text, at most `limit` times. -/
def cutAll : (limit : Nat) → List Char → List Piece
  | 0, _ => []
  | _ + 1, [] => []
  | limit + 1, c :: rest => (cut c rest).1 :: cutAll limit (cut c rest).2

/-- The pieces of a text. There are at most as many as it has characters. -/
def pieces (source : List Char) : List Piece :=
  cutAll source.length source

theorem text_number (c : Char) (rest : List Char) :
    (number c rest).1.text ++ (number c rest).2 = c :: rest := by
  have split := List.takeWhile_append_dropWhile (p := Char.isDigit) (l := rest)
  unfold number
  dsimp only
  split
  · rename_i d more h
    split
    · have inner := List.takeWhile_append_dropWhile (p := Char.isDigit) (l := more)
      simp only [text, List.cons_append, List.append_assoc, inner, ← h, split]
    · simp only [text, List.cons_append, split]
  · simp only [text, List.cons_append, split]

theorem text_word (c : Char) (rest : List Char) :
    (word c rest).1.text ++ (word c rest).2 = c :: rest := by
  simp [word, text]

theorem text_cutOne (c : Char) (rest : List Char) :
    (cutOne c rest).1.text ++ (cutOne c rest).2 = c :: rest := by
  unfold cutOne
  split
  · rfl
  · split
    · rfl
    · split
      · exact text_number c rest
      · split
        · exact text_word c rest
        · rfl

/-- A piece and what follows it make up the text. -/
theorem text_cut (c : Char) (rest : List Char) :
    (cut c rest).1.text ++ (cut c rest).2 = c :: rest := by
  unfold cut
  split
  · split
    · simp [text]
    · split
      · rfl
      · exact text_cutOne c _
  · exact text_cutOne c _

theorem number_text_ne_nil (c : Char) (rest : List Char) : (number c rest).1.text ≠ [] := by
  unfold number
  dsimp only
  split
  · split <;> simp [text]
  · simp [text]

theorem cutOne_text_ne_nil (c : Char) (rest : List Char) : (cutOne c rest).1.text ≠ [] := by
  unfold cutOne
  split
  · simp [text]
  · split
    · simp [text]
    · split
      · exact number_text_ne_nil c rest
      · split <;> simp [text, word]

/-- No piece is empty. -/
theorem cut_text_ne_nil (c : Char) (rest : List Char) : (cut c rest).1.text ≠ [] := by
  unfold cut
  split
  · split
    · simp [text]
    · split
      · simp [text]
      · exact cutOne_text_ne_nil c _
  · exact cutOne_text_ne_nil c _

/-- Cutting leaves a shorter text. -/
theorem length_cut_lt (c : Char) (rest : List Char) :
    (cut c rest).2.length < (c :: rest).length := by
  have whole := congrArg List.length (text_cut c rest)
  have some_text := List.length_pos_iff.mpr (cut_text_ne_nil c rest)
  simp only [List.length_append] at whole
  omega

theorem flatten_cutAll : ∀ (limit : Nat) (source : List Char), source.length ≤ limit →
    ((cutAll limit source).map text).flatten = source
  | 0, [], _ => rfl
  | _ + 1, [], _ => rfl
  | limit + 1, c :: rest, h => by
    have shorter := length_cut_lt c rest
    have ih := flatten_cutAll limit (cut c rest).2 (by simp only [List.length_cons] at h shorter; omega)
    simp only [cutAll, List.map_cons, List.flatten_cons, ih, text_cut]

/-- The pieces of a text, put together again, are the text. -/
theorem flatten_pieces (source : List Char) : ((pieces source).map text).flatten = source :=
  flatten_cutAll _ source (Nat.le_refl _)

end Piece

end TickScript
