import TickScript.Proofs.Spacing

/-!
# Tokens and their texts

What a token is follows from its text, apart from its place and the type of a name: cut by itself,
the text is that token again (`legible_scan`). In the other direction, the text of a token is known
if its kind is neither a name nor a number (`TokenKind.text?`), and a name is a word that is no
keyword.
-/

namespace TickScript

/-- The text of all tokens of a kind, if they have the same. -/
def TokenKind.text? : TokenKind → Option String
  | .leftParen => some "("
  | .rightParen => some ")"
  | .leftBrace => some "\x7b"
  | .rightBrace => some "\x7d"
  | .leftBracket => some "["
  | .rightBracket => some "]"
  | .comma => some ","
  | .dot => some "."
  | .minus => some "-"
  | .plus => some "+"
  | .semicolon => some ";"
  | .slash => some "/"
  | .star => some "*"
  | .percent => some "%"
  | .bang => some "!"
  | .bangEqual => some "!="
  | .equal => some "="
  | .equalEqual => some "=="
  | .greater => some ">"
  | .greaterEqual => some ">="
  | .less => some "<"
  | .lessEqual => some "<="
  | .and => some "&&"
  | .or => some "||"
  | .else => some "else"
  | .false => some "false"
  | .if => some "if"
  | .break => some "break"
  | .continue => some "continue"
  | .return => some "return"
  | .true => some "true"
  | .int => some "int"
  | .float => some "float"
  | .bool => some "bool"
  | .void => some "void"
  | .while => some "while"
  | .identifier => none
  | .intNumber => none
  | .floatNumber => none
  | .eof => none

namespace Piece

/-! ## Texts of kinds -/

/-- Which texts are cut as a token of which kind. -/
inductive Shaped : TokenKind → List Char → Prop where
  | single {c : Char} {kind : TokenKind} (h : single? c = some kind) : Shaped kind [c]
  | double {c d : Char} {kind : TokenKind} (h : double? c d = some kind) : Shaped kind [c, d]
  | number {kind : TokenKind} (h : kind = .intNumber ∨ kind = .floatNumber) (text : List Char) :
      Shaped kind text
  | word {c : Char} {cs : List Char} (first : startsWord c = true)
      (others : ∀ d ∈ cs, continuesWord d = true) :
      Shaped (.ofWord (.ofList (c :: cs))) (c :: cs)

theorem cutOne_shaped {c : Char} {rest text : List Char} {kind : TokenKind}
    (h : (cutOne c rest).1 = .token kind text) : Shaped kind text := by
  unfold cutOne at h
  split at h
  · next single =>
    cases h
    exact .single single
  · split at h
    · cases h
    · split at h
      · unfold number at h
        dsimp only at h
        split at h
        · split at h
          · cases h
            exact .number (.inr rfl) _
          · cases h
            exact .number (.inl rfl) _
        · cases h
          exact .number (.inl rfl) _
      · split at h
        · next first =>
          cases h
          exact .word first fun d hd => List.mem_takeWhile_imp hd
        · cases h

theorem cut_shaped {c : Char} {rest text : List Char} {kind : TokenKind}
    (h : (cut c rest).1 = .token kind text) : Shaped kind text := by
  unfold cut at h
  split at h
  · split at h
    · cases h
    · split at h
      · next double =>
        cases h
        exact .double double
      · exact cutOne_shaped h
  · exact cutOne_shaped h

theorem text?_single {c : Char} {kind : TokenKind} (h : single? c = some kind) :
    kind.text? = some (.ofList [c]) := by
  unfold single? at h
  split at h <;> cases h <;> rfl

theorem text?_double {c d : Char} {kind : TokenKind} (h : double? c d = some kind) :
    kind.text? = some (.ofList [c, d]) := by
  unfold double? at h
  split at h <;> cases h <;> rfl

/-- A keyword has the text of its kind, and any other word is an identifier. -/
theorem text?_ofWord (word : String) :
    (TokenKind.ofWord word).text? = some word ∨ TokenKind.ofWord word = .identifier := by
  unfold TokenKind.ofWord
  cases h : TokenKind.keywords.lookup word with
  | none => exact .inr rfl
  | some kind =>
    have all : ∀ entry ∈ TokenKind.keywords, entry.2.text? = some entry.1 := by decide
    obtain ⟨before, after, e, -⟩ := List.lookup_eq_some_iff.1 h
    exact .inl (all (word, kind) (by rw [e]; simp))

theorem Shaped.text {kind : TokenKind} {text : List Char} {word : String} (h : Shaped kind text)
    (hk : kind.text? = some word) : String.ofList text = word := by
  cases h with
  | single single => exact Option.some.inj ((text?_single single).symm.trans hk)
  | double double => exact Option.some.inj ((text?_double double).symm.trans hk)
  | number number => rcases number with rfl | rfl <;> cases hk
  | @word c cs first others =>
    rcases text?_ofWord (.ofList (c :: cs)) with same | identifier
    · exact Option.some.inj (same.symm.trans hk)
    · rw [identifier] at hk
      cases hk

/-- A name is a word that is no keyword. -/
theorem Shaped.name {kind : TokenKind} {text : List Char} (h : Shaped kind text)
    (hk : kind = .identifier) : TokenKind.ofWord (.ofList text) = .identifier ∧
      ∃ c cs, text = c :: cs ∧ startsWord c = true ∧ ∀ d ∈ cs, continuesWord d = true := by
  cases h with
  | single single =>
    have := text?_single single
    rw [hk] at this
    cases this
  | double double =>
    have := text?_double double
    rw [hk] at this
    cases this
  | number number =>
    rw [hk] at number
    rcases number with e | e <;> cases e
  | @word c cs first others => exact ⟨hk, c, cs, rfl, first, others⟩

end Piece

/-! ## Tokens from their texts -/

namespace Token

/-- A token without its place and its type. -/
def bared (t : Token) : Token :=
  { t with line := 0, offset := 0, type := .unknown }

/-- The token that a text is by itself. -/
def ofText (text : String) : Option Token :=
  match text.toList with
  | [] => none
  | c :: rest =>
    match Piece.cut c rest with
    | (.token kind text, []) =>
      some { kind, lexeme := .ofList text, line := 0, offset := 0,
             literal := Piece.literal? text kind }
    | _ => none

/-- The text of the token is that token again. -/
def Legible (t : Token) : Prop :=
  ofText t.lexeme = some t.bared

variable {t : Token}

theorem Legible.read (h : t.Legible) : ofText t.lexeme = some t.bared := h

theorem Legible.shaped (h : t.Legible) : Piece.Shaped t.kind t.lexeme.toList := by
  unfold Legible ofText at h
  split at h
  · cases h
  · next c rest text =>
    split at h
    · next kind text' whole =>
      have cut := Piece.text_cut c rest
      rw [whole, List.append_nil] at cut
      have same := Option.some.inj h
      have kinds : kind = t.kind := congrArg Token.kind same
      rw [text, ← cut, ← kinds]
      exact Piece.cut_shaped (congrArg Prod.fst whole)
    · cases h

theorem Legible.lexeme {text : String} (h : t.Legible) (hk : t.kind.text? = some text) :
    t.lexeme = text :=
  String.ofList_toList.symm.trans (h.shaped.text hk)

/-- All tokens with this known text are the same. -/
theorem Legible.ofText {text : String} (h : t.Legible) (hk : t.kind.text? = some text) :
    Token.ofText text = some t.bared :=
  h.lexeme hk ▸ h

end Token

/-- The tokens of a text are what they are by themselves. -/
theorem legible_scan {source : String} {types : NameTypes} {t : Token}
    (ht : t ∈ (scan source types).tokens) (hk : t.kind ≠ .eof) : t.Legible := by
  have plain : t.plain ∈ spelled source := by
    rw [← scan_plain_tokens source types]
    exact List.mem_map_of_mem ht
  rcases List.mem_append.1 plain with inside | mark
  · obtain ⟨done, p, rest, pieces, token⟩ := Piece.mem_collect inside
    cases p with
    | token kind text =>
      have lasts : (Piece.token kind text).Lasts := by
        have here : Piece.token kind text ∈ Piece.pieces source.toList := by
          rw [pieces]
          exact List.mem_append_right _ List.mem_cons_self
        exact Piece.lasts_cutAll _ source.toList _ (List.mem_filter.2 ⟨here, rfl⟩)
      obtain ⟨c, cs, kind, e, again⟩ := lasts
      cases e
      have alone := again [] trivial
      rw [List.append_nil] at alone
      have same := (Option.some.inj token).symm
      have lexeme : t.lexeme = String.ofList (c :: cs) := congrArg Token.lexeme same
      have bared : t.bared = t.plain.bared := rfl
      rw [Token.Legible, bared, same, lexeme, Token.ofText, String.toList_ofList]
      simp only [alone]
      rfl
    | gap text => cases token
    | stray c => cases token
  · have := List.mem_singleton.1 mark
    exact absurd (congrArg Token.kind this) hk

end TickScript
