import TickScript.Proofs.Spelling

/-!
# Tokens tile the text

Cutting leaves nothing out: a text is made up of the texts of its tokens and of what stands
between them, which is blanks, comments and characters that belong to nothing. The tokens of a
scan are therefore found in the bytes of the text where they say they are, and all of the rest
is accounted for.
-/

namespace TickScript

namespace Piece

/-! ## What a text is made up of -/

/-- No token, blank or comment begins with the character `c` when the text `rest` follows it. -/
structure Unexpected (c : Char) (rest : List Char) : Prop where
  notBlank : c ∉ [' ', '\t', '\r', '\n']
  notWord : c.isAlphanum = false ∧ c ≠ '_'
  notSign : c ∉ ['(', ')', '[', ']', '\x7b', '\x7d', ',', '.', ';', '-', '+', '*', '%', '/', '!',
    '=', '<', '>']
  notDouble : c = '&' ∨ c = '|' → rest.head? ≠ some c

/-- What a piece is when the text `rest` follows it: a token, a blank, a comment up to the end
of its line, or a single unexpected character. -/
inductive Sound (rest : List Char) : Piece → Prop where
  | token {kind : TokenKind} {text : List Char} (hk : kind ≠ .eof) (ht : text ≠ []) :
      Sound rest (.token kind text)
  | blank {c : Char} (h : c ∈ [' ', '\t', '\r', '\n']) : Sound rest (.gap [c])
  | comment {body : List Char} (hb : '\n' ∉ body) (hr : rest = [] ∨ rest.head? = some '\n') :
      Sound rest (.gap ('/' :: '/' :: body))
  | stray {c : Char} (h : Unexpected c rest) : Sound rest (.stray c)

/-- Each piece is what it should be in front of the others. -/
def Tiles : List Piece → Prop
  | [] => True
  | p :: ps => Sound (textOf ps) p ∧ Tiles ps

/-! ## Cutting -/

theorem single?_ne_eof {c : Char} {kind : TokenKind} (h : single? c = some kind) : kind ≠ .eof := by
  unfold single? at h
  split at h <;> cases h <;> simp

theorem double?_ne_eof {c d : Char} {kind : TokenKind} (h : double? c d = some kind) :
    kind ≠ .eof := by
  unfold double? at h
  split at h <;> cases h <;> simp

theorem ofWord_ne_eof (word : String) : TokenKind.ofWord word ≠ .eof := by
  unfold TokenKind.ofWord
  cases h : TokenKind.keywords.lookup word with
  | none => simp
  | some kind =>
    have all : ∀ entry ∈ TokenKind.keywords, entry.2 ≠ .eof := by decide
    obtain ⟨word', hm⟩ : ∃ word', (word', kind) ∈ TokenKind.keywords := by
      obtain ⟨before, after, e, -⟩ := List.lookup_eq_some_iff.1 h
      exact ⟨word, by rw [e]; simp⟩
    exact all _ hm

/-- The signs that are a token by themselves. -/
theorem single?_eq_none {c : Char} (h : single? c = none) :
    c ∉ ['(', ')', '[', ']', '\x7b', '\x7d', ',', '.', ';', '-', '+', '*', '%', '/', '!', '=', '<',
      '>'] := by
  intro hm
  simp only [List.mem_cons, List.not_mem_nil, or_false] at hm
  rcases hm with rfl | rfl | rfl | rfl | rfl | rfl | rfl | rfl | rfl | rfl | rfl | rfl | rfl |
    rfl | rfl | rfl | rfl | rfl <;> cases h

theorem number_sound (c : Char) (rest : List Char) : Sound (number c rest).2 (number c rest).1 := by
  unfold number
  dsimp only
  split
  · split <;> exact .token (by simp) (by simp)
  · exact .token (by simp) (by simp)

theorem cutOne_sound {c : Char} {rest : List Char}
    (double : c = '&' ∨ c = '|' → rest.head? ≠ some c) :
    Sound (cutOne c rest).2 (cutOne c rest).1 := by
  unfold cutOne
  split
  · next kind h => exact .token (single?_ne_eof h) (by simp)
  · next hsingle =>
    split
    · next hblank =>
      refine .blank ?_
      simp only [Bool.or_eq_true, beq_iff_eq] at hblank
      simp only [List.mem_cons, List.not_mem_nil, or_false]
      tauto
    · next hblank =>
      split
      · exact number_sound c rest
      · next hdigit =>
        split
        · exact .token (ofWord_ne_eof _) (by simp)
        · next hword =>
          simp only [Bool.or_eq_true, beq_iff_eq, not_or] at hblank
          simp only [startsWord, Bool.or_eq_true, beq_iff_eq, not_or] at hword
          refine .stray ⟨?_, ⟨?_, hword.2⟩, single?_eq_none hsingle, double⟩
          · simp only [List.mem_cons, List.not_mem_nil, or_false]
            tauto
          · rw [Char.isAlphanum, Bool.or_eq_false_iff]
            exact ⟨Bool.eq_false_iff.2 hword.1, Bool.eq_false_iff.2 hdigit⟩

/-- The first piece of a text is what it should be in front of what follows it. -/
theorem cut_sound (c : Char) (rest : List Char) : Sound (cut c rest).2 (cut c rest).1 := by
  unfold cut
  split
  · next d more =>
    split
    · next h =>
      obtain ⟨rfl, rfl⟩ := h
      refine .comment ?_ ?_
      · intro hm
        simpa using List.all_eq_true.1 List.all_takeWhile _ hm
      · cases hd : more.dropWhile (· ≠ '\n') with
        | nil => exact .inl rfl
        | cons e after =>
          have := List.head?_dropWhile_not (· ≠ '\n') more
          rw [hd] at this
          exact .inr (by simpa using this)
    · split
      · next kind h => exact .token (double?_ne_eof h) (by simp)
      · next h =>
        -- A sign that is a token only if it is doubled is not doubled here.
        refine cutOne_sound fun hc => ?_
        rintro ⟨rfl⟩
        rcases hc with rfl | rfl <;> cases h
  · exact cutOne_sound fun _ => by simp

theorem tiles_cutAll : ∀ (limit : Nat) (source : List Char), source.length ≤ limit →
    Tiles (cutAll limit source)
  | 0, [], _ => trivial
  | _ + 1, [], _ => trivial
  | limit + 1, c :: rest, h => by
    have shorter := length_cut_lt c rest
    have fits : (cut c rest).2.length ≤ limit := by
      simp only [List.length_cons] at h shorter
      omega
    rw [cutAll, Tiles, textOf, flatten_cutAll limit _ fits]
    exact ⟨cut_sound c rest, tiles_cutAll limit _ fits⟩

theorem tiles_pieces (source : List Char) : Tiles (pieces source) :=
  tiles_cutAll _ source (Nat.le_refl _)

theorem Tiles.sound {done rest : List Piece} {p : Piece} (h : Tiles (done ++ p :: rest)) :
    Sound (textOf rest) p := by
  induction done with
  | nil => exact h.1
  | cons q done ih => exact ih h.2

/-! ## Places -/

/-- The tokens of pieces begin behind `before` and end with the text, one behind the other. -/
theorem collect_ordered (before : List Char) (ps : List Piece) :
    (collect token? before ps).Pairwise
        (fun t u => t.offset + t.lexeme.utf8ByteSize ≤ u.offset) ∧
      ∀ t ∈ collect token? before ps, (String.ofList before).utf8ByteSize ≤ t.offset ∧
        t.offset + t.lexeme.utf8ByteSize ≤
          (String.ofList (before ++ textOf ps)).utf8ByteSize := by
  induction ps generalizing before with
  | nil => simp [collect]
  | cons p ps ih =>
    obtain ⟨ordered, within⟩ := ih (before ++ p.text)
    have sizes : (String.ofList (before ++ p.text)).utf8ByteSize =
        (String.ofList before).utf8ByteSize + (String.ofList p.text).utf8ByteSize := by
      rw [String.ofList_append, String.utf8ByteSize_append]
    -- The tokens of the other pieces begin behind the text of this one.
    have later : ∀ t ∈ collect token? (before ++ p.text) ps,
        (String.ofList before).utf8ByteSize ≤ t.offset ∧ t.offset + t.lexeme.utf8ByteSize ≤
          (String.ofList (before ++ textOf (p :: ps))).utf8ByteSize := by
      intro t ht
      obtain ⟨lower, upper⟩ := within t ht
      rw [List.append_assoc] at upper
      exact ⟨by omega, upper⟩
    cases p with
    | token kind text =>
      have hsize : (String.ofList (before ++ textOf (.token kind text :: ps))).utf8ByteSize =
          (String.ofList before).utf8ByteSize + (String.ofList text).utf8ByteSize +
            (String.ofList (textOf ps)).utf8ByteSize := by
        rw [textOf_cons, String.ofList_append, String.ofList_append, String.utf8ByteSize_append,
          String.utf8ByteSize_append, Nat.add_assoc]
        rfl
      refine ⟨List.pairwise_cons.2 ⟨fun u hu => ?_, ordered⟩, fun t ht => ?_⟩
      · have := (within u hu).1
        rw [sizes] at this
        exact this
      · rcases List.mem_cons.1 ht with rfl | ht
        · refine ⟨Nat.le_refl _, ?_⟩
          rw [hsize]
          exact Nat.le_add_right _ _
        · exact later t ht
    | gap text => exact ⟨ordered, later⟩
    | stray c => exact ⟨ordered, later⟩

end Piece

/-! ## Bytes -/

/-- The number of line breaks in the bytes of a text before an offset. -/
def lineBreaksBefore (source : String) (offset : Nat) : Nat :=
  (source.toByteArray.extract 0 offset).data.count 10

/-- The bytes of the token stand in the text at its offset, between two characters each. -/
structure Token.StandsIn (t : Token) (source : String) : Prop where
  start : (String.Pos.Raw.mk t.offset).IsValid source
  finish : (String.Pos.Raw.mk (t.offset + t.lexeme.utf8ByteSize)).IsValid source
  bytes : source.toByteArray.extract t.offset (t.offset + t.lexeme.utf8ByteSize) =
    t.lexeme.toByteArray
  line : t.line = 1 + lineBreaksBefore source t.offset

/-- Only a line break has the byte of a line break in it. -/
theorem count_utf8EncodeChar (c : Char) :
    (String.utf8EncodeChar c).count 10 = if c = '\n' then 1 else 0 := by
  have newline : c = '\n' ↔ c.val.toNat = 10 := by
    rw [← Char.val_inj, ← UInt32.toNat_inj]
    rfl
  have byte : ∀ n, (UInt8.ofNat n == 10) = decide (n % 256 = 10) := by
    intro n
    rw [Bool.eq_iff_iff, beq_iff_eq, decide_eq_true_iff, ← UInt8.toNat_inj, UInt8.toNat_ofNat']
    rfl
  -- All bytes of a character that takes more than one are 128 or more.
  unfold String.utf8EncodeChar
  dsimp only
  simp only [newline]
  generalize c.val.toNat = v
  split
  · rw [List.count_singleton, byte]
    grind
  · split
    · simp only [List.count_cons, List.count_nil, byte, decide_eq_true_eq]
      grind
    · split <;>
      · simp only [List.count_cons, List.count_nil, byte, decide_eq_true_eq]
        grind

theorem count_utf8Encode (text : List Char) : text.utf8Encode.data.count 10 = text.count '\n' := by
  rw [List.utf8Encode, List.data_toByteArray, List.count_toArray]
  induction text with
  | nil => rfl
  | cons c text ih =>
    rw [List.flatMap_cons, List.count_append, ih, count_utf8EncodeChar, List.count_cons,
      Nat.add_comm]
    simp

/-- A token that stands between two parts of a text is found in its bytes. -/
theorem Token.standsIn {t : Token} {source : String} (before after : List Char)
    (h : source.toList = before ++ t.lexeme.toList ++ after)
    (hoffset : t.offset = (String.ofList before).utf8ByteSize)
    (hline : t.line = Piece.lineAfter before) : t.StandsIn source := by
  have parts : source = String.ofList before ++ t.lexeme ++ String.ofList after := by
    rw [← String.ofList_toList (s := source), h, String.ofList_append, String.ofList_append,
      String.ofList_toList]
  refine ⟨?_, ?_, ?_, ?_⟩
  · refine String.Pos.Raw.isValid_iff_exists_append.2
      ⟨String.ofList before, t.lexeme ++ String.ofList after, ?_, ?_⟩
    · rw [parts, String.append_assoc]
    · rw [hoffset]
      rfl
  · refine String.Pos.Raw.isValid_iff_exists_append.2
      ⟨String.ofList before ++ t.lexeme, String.ofList after, parts, ?_⟩
    rw [hoffset, ← String.utf8ByteSize_append]
    rfl
  · have hsize : (String.ofList before).utf8ByteSize + t.lexeme.utf8ByteSize =
        (String.ofList before ++ t.lexeme).toByteArray.size := by
      rw [String.size_toByteArray, String.utf8ByteSize_append]
    rw [parts, String.toByteArray_append, hoffset, hsize, ByteArray.extract_append_size_left,
      String.toByteArray_append]
    refine ByteArray.extract_append_eq_right String.size_toByteArray.symm ?_
    rw [ByteArray.size_append]
  · rw [hline, lineBreaksBefore, parts, String.append_assoc, String.toByteArray_append,
      ByteArray.extract_append_eq_left (by rw [hoffset, String.size_toByteArray]),
      String.toByteArray_ofList, count_utf8Encode]
    rfl

/-! ## Scanned texts -/

/-- Every token stands where it says. -/
theorem standsIn_spelled {source : String} {t : Token} (h : t ∈ spelled source) :
    t.StandsIn source := by
  rcases List.mem_append.1 h with h | h
  · obtain ⟨done, p, rest, hps, ht⟩ := Piece.mem_collect h
    have whole := Piece.textOf_pieces source.toList
    rw [hps, Piece.textOf_append, Piece.textOf_cons] at whole
    cases p with
    | token kind text =>
      cases ht
      refine Token.standsIn _ (Piece.textOf rest) ?_ rfl rfl
      simpa [Piece.text] using whole.symm
    | gap text => cases ht
    | stray c => cases ht
  · rw [List.mem_singleton.1 h]
    refine Token.standsIn source.toList [] ?_ ?_ rfl
    · simp [Token.endMark]
    · simp [Token.endMark]

/-- Scanning tiles the text. It comes to its end and gives tokens that end with one end mark
behind the last byte. All others are not empty, stand in the bytes of the text at their offsets
and on their lines, between whole characters, and none overlaps another. The text is cut into
the tokens and, between them, blanks, comments up to the end of their lines, and unexpected
characters, and it is these that are reported, in order and each with its line. -/
theorem scan_tiles (source : String) (types : NameTypes) :
    ∃ (tiles : List Piece) (tokens : List Token) (last : Token),
      (scan source types).tokens = tokens ++ [last] ∧
      last.kind = .eof ∧ last.offset = source.utf8ByteSize ∧
      (∀ t ∈ tokens, t.kind ≠ .eof ∧ t.lexeme ≠ "") ∧
      (∀ t ∈ tokens ++ [last], t.StandsIn source) ∧
      (tokens ++ [last]).Pairwise (fun t u => t.offset + t.lexeme.utf8ByteSize ≤ u.offset) ∧
      Piece.textOf tiles = source.toList ∧ Piece.Tiles tiles ∧
      tokens.map Token.plain = Piece.collect Piece.token? [] tiles ∧
      (scan source types).diagnostics.filter Diagnostic.isStray =
        Piece.collect Piece.report? [] tiles := by
  have end_spelled := Scan.spelled_foldl types (Piece.pieces source.toList)
  have plain := scan_plain_tokens source types
  rw [scan] at plain ⊢
  generalize (Piece.pieces source.toList).foldl Scan.step (Scan.start types) = s at *
  dsimp only at plain ⊢
  have tiles := Piece.tiles_pieces source.toList
  have whole := Piece.textOf_pieces source.toList
  have offset : s.offset = source.utf8ByteSize := by
    rw [end_spelled.offset, whole, String.ofList_toList]
  have mem_plain : ∀ t ∈ s.latest.reverse ++ [Token.endMark s.line s.offset],
      t.plain ∈ spelled source := by
    intro t ht
    rw [← plain]
    exact List.mem_map_of_mem ht
  refine ⟨Piece.pieces source.toList, s.latest.reverse, Token.endMark s.line s.offset, rfl, rfl,
    offset, fun t ht => ?_, fun t ht => ?_, ?_, whole, tiles, end_spelled.tokens,
    end_spelled.strays⟩
  · have hplain : t.plain ∈ Piece.collect Piece.token? [] (Piece.pieces source.toList) := by
      rw [← end_spelled.tokens]
      exact List.mem_map_of_mem ht
    obtain ⟨done, p, rest, hps, hp⟩ := Piece.mem_collect hplain
    rw [hps] at tiles
    cases tiles.sound with
    | @token kind text hk hne =>
      have hfields := Option.some.inj hp
      have hkind : kind = t.kind := congrArg Token.kind hfields
      have hlexeme : String.ofList text = t.lexeme := congrArg Token.lexeme hfields
      refine ⟨hkind ▸ hk, fun e => hne ?_⟩
      rw [e] at hlexeme
      simpa using congrArg String.toList hlexeme
    | blank => cases hp
    | comment => cases hp
    | stray => cases hp
  · obtain ⟨start, finish, bytes, line⟩ := standsIn_spelled (mem_plain t ht)
    exact ⟨start, finish, bytes, line⟩
  · obtain ⟨ordered, within⟩ := Piece.collect_ordered [] (Piece.pieces source.toList)
    rw [← end_spelled.tokens, List.pairwise_map] at ordered
    refine List.pairwise_append.2 ⟨ordered, List.pairwise_singleton _ _, fun t ht u hu => ?_⟩
    have hplain : t.plain ∈ Piece.collect Piece.token? [] (Piece.pieces source.toList) := by
      rw [← end_spelled.tokens]
      exact List.mem_map_of_mem ht
    have upper := (within _ hplain).2
    rw [List.nil_append, whole, String.ofList_toList] at upper
    rw [List.mem_singleton.1 hu]
    show _ ≤ s.offset
    rw [offset]
    exact upper

end TickScript
