import TickScript.Proofs.Stamps

/-!
# Tokens as they are spelled

Which tokens a text has, where they stand and what their literals mean follows from the pieces
of the text alone. Only the types of names depend on the table that a scan begins with. Here the
tokens without types are listed piece by piece, and a scan is shown to give these tokens, in
this order and at these places, and to report the stray characters among the pieces.
-/

namespace TickScript

namespace Piece

/-- The value of a token that is a literal. An integer beyond 64 bits counts as zero. -/
def literal? (text : List Char) : TokenKind → Option Literal
  | .intNumber =>
    some (.int (if Number.ofDigits text < signWeight then Int64.ofNat (Number.ofDigits text) else 0))
  | .floatNumber => some (.float (Scan.floatValue text))
  | .true => some (.bool true)
  | .false => some (.bool false)
  | _ => none

/-- The line on which the text behind `before` begins. -/
def lineAfter (before : List Char) : Nat :=
  1 + before.count '\n'

/-- The token of a piece that stands behind the text `before`. -/
def token? (before : List Char) : Piece → Option Token
  | .token kind text =>
    some { kind, lexeme := .ofList text, line := lineAfter before,
           offset := (String.ofList before).utf8ByteSize, literal := literal? text kind }
  | _ => none

/-- The report of a piece that stands behind the text `before`. -/
def report? (before : List Char) : Piece → Option Diagnostic
  | .stray c => some ⟨.lex (.unexpectedCharacter c), lineAfter before, .unplaced⟩
  | _ => none

/-- What `f` says of each of the pieces behind the text `before`, in order. -/
def collect {α : Type} (f : List Char → Piece → Option α) (before : List Char) :
    List Piece → List α
  | [] => []
  | p :: ps => (f before p).toList ++ collect f (before ++ p.text) ps

/-- The text of pieces. -/
def textOf (ps : List Piece) : List Char :=
  (ps.map text).flatten

@[simp]
theorem textOf_cons (p : Piece) (ps : List Piece) : textOf (p :: ps) = p.text ++ textOf ps := rfl

@[simp]
theorem textOf_append (ps qs : List Piece) : textOf (ps ++ qs) = textOf ps ++ textOf qs := by
  simp [textOf]

theorem collect_append {α : Type} (f : List Char → Piece → Option α) (before : List Char)
    (ps qs : List Piece) :
    collect f before (ps ++ qs) = collect f before ps ++ collect f (before ++ textOf ps) qs := by
  induction ps generalizing before with
  | nil => simp [collect, textOf]
  | cons p ps ih => simp [collect, ih]

theorem collect_concat {α : Type} (f : List Char → Piece → Option α) (ps : List Piece) (p : Piece) :
    collect f [] (ps ++ [p]) = collect f [] ps ++ (f (textOf ps) p).toList := by
  simp [collect_append, collect]

/-- What is collected from pieces was said of one of them at its place. -/
theorem mem_collect {α : Type} {f : List Char → Piece → Option α} {before : List Char}
    {ps : List Piece} {a : α} (h : a ∈ collect f before ps) :
    ∃ done p rest, ps = done ++ p :: rest ∧ f (before ++ textOf done) p = some a := by
  induction ps generalizing before with
  | nil => simp [collect] at h
  | cons p ps ih =>
    rcases List.mem_append.1 h with h | h
    · exact ⟨[], p, ps, rfl, by simpa [textOf] using h⟩
    · obtain ⟨done, q, rest, rfl, hq⟩ := ih h
      exact ⟨p :: done, q, rest, rfl, by simpa using hq⟩

end Piece

/-- A token without its type. -/
def Token.plain (t : Token) : Token :=
  { t with type := .unknown }

/-- The tokens of a text without the types of names, up to the end mark. -/
def spelled (source : String) : List Token :=
  Piece.collect Piece.token? [] (Piece.pieces source.toList) ++
    [.endMark (Piece.lineAfter source.toList) source.utf8ByteSize]

/-- Does the diagnostic report a stray character? -/
def Diagnostic.isStray (d : Diagnostic) : Bool :=
  match d.problem with
  | .lex (.unexpectedCharacter _) => true
  | _ => false

namespace Scan

theorem byteSize_eq (text : List Char) : byteSize text = (String.ofList text).utf8ByteSize := by
  have shifted : ∀ (text : List Char) (n : Nat),
      text.foldl (fun size c => size + c.utf8Size) n = n + (String.ofList text).utf8ByteSize := by
    intro text
    induction text with
    | nil => simp
    | cons c text ih =>
      intro n
      rw [List.foldl_cons, ih, String.ofList_cons, String.utf8ByteSize_append,
        String.utf8ByteSize_singleton]
      omega
  rw [byteSize, shifted, Nat.zero_add]

/-- A scan that has come past the pieces `done` has their tokens and has reported their stray
characters. -/
structure Spelled (done : List Piece) (s : Scan) : Prop where
  line : s.line = Piece.lineAfter (Piece.textOf done)
  offset : s.offset = (String.ofList (Piece.textOf done)).utf8ByteSize
  tokens : s.latest.reverse.map Token.plain = Piece.collect Piece.token? [] done
  strays : s.diagnostics.filter Diagnostic.isStray = Piece.collect Piece.report? [] done

theorem spelled_start (types : NameTypes) : Spelled [] (start types) where
  line := rfl
  offset := rfl
  tokens := rfl
  strays := rfl

/-- What the token of a name does to a scan, apart from types. -/
theorem typeName_plain (s : Scan) (name : String) :
    (s.typeName name).2.line = s.line ∧ (s.typeName name).2.offset = s.offset ∧
      (s.typeName name).2.latest.map Token.plain = s.latest.map Token.plain ∧
      (s.typeName name).2.diagnostics.filter Diagnostic.isStray =
        s.diagnostics.filter Diagnostic.isStray := by
  unfold typeName
  split
  · exact ⟨rfl, rfl, rfl, rfl⟩
  · exact ⟨rfl, rfl, rfl, rfl⟩
  · -- Tokens that came before are given a type, which is all that changes of them.
    refine ⟨rfl, rfl, ?_, rfl⟩
    rw [retype_eq, List.map_map]
    refine List.map_congr_left fun t _ => ?_
    rw [Function.comp_apply, retyped]
    split <;> rfl
  · split
    · exact ⟨rfl, rfl, rfl, rfl⟩
    · exact ⟨rfl, rfl, rfl, by simp [report, Diagnostic.isStray]⟩

/-- A token is added where the scan stands, and reports no stray character. -/
theorem addToken_plain (s : Scan) (kind : TokenKind) (text : List Char) :
    (s.addToken kind text).line = s.line ∧ (s.addToken kind text).offset = s.offset ∧
      (s.addToken kind text).latest.map Token.plain =
        { kind, lexeme := .ofList text, line := s.line, offset := s.offset,
          literal := Piece.literal? text kind } :: s.latest.map Token.plain ∧
      (s.addToken kind text).diagnostics.filter Diagnostic.isStray =
        s.diagnostics.filter Diagnostic.isStray := by
  unfold addToken
  dsimp only
  split
  · obtain ⟨hline, hoffset, hlatest, hstray⟩ := s.typeName_plain (String.ofList text)
    refine ⟨hline, hoffset, ?_, hstray⟩
    rw [emit, List.map_cons, hlatest]
    rfl
  · unfold integerValue
    dsimp only
    split
    · next h => exact ⟨rfl, rfl, by simp [emit, Token.plain, Piece.literal?, h], rfl⟩
    · next h =>
      refine ⟨rfl, rfl, by simp [emit, Token.plain, Piece.literal?, h, report], ?_⟩
      simp [emit, report, Diagnostic.isStray]
  · exact ⟨rfl, rfl, rfl, rfl⟩
  · exact ⟨rfl, rfl, rfl, rfl⟩
  · exact ⟨rfl, rfl, rfl, rfl⟩
  · next hid hint hfloat htrue hfalse =>
    refine ⟨rfl, rfl, ?_, rfl⟩
    have : Piece.literal? text kind = none := by
      unfold Piece.literal?
      split <;> first | contradiction | rfl
    rw [emit, List.map_cons, this]
    rfl

theorem Spelled.take {done : List Piece} {s : Scan} (h : Spelled done s) (p : Piece) :
    (s.take p).line = s.line ∧ (s.take p).offset = s.offset ∧
      (s.take p).latest.reverse.map Token.plain = Piece.collect Piece.token? [] (done ++ [p]) ∧
      (s.take p).diagnostics.filter Diagnostic.isStray =
        Piece.collect Piece.report? [] (done ++ [p]) := by
  rw [Piece.collect_concat, Piece.collect_concat, ← h.tokens, ← h.strays]
  cases p with
  | token kind text =>
    obtain ⟨hline, hoffset, hlatest, hstray⟩ := s.addToken_plain kind text
    refine ⟨hline, hoffset, ?_, ?_⟩
    · rw [Scan.take, List.map_reverse, hlatest, List.reverse_cons, ← List.map_reverse,
        h.line, h.offset]
      rfl
    · simpa [Scan.take, Piece.report?] using hstray
  | gap text =>
    exact ⟨rfl, rfl, by simp [Scan.take, Piece.token?], by simp [Scan.take, Piece.report?]⟩
  | stray c =>
    refine ⟨rfl, rfl, by simp [Scan.take, Piece.token?, report], ?_⟩
    simp [Scan.take, report, Diagnostic.isStray, Piece.report?, h.line]

theorem Spelled.step {done : List Piece} {s : Scan} (h : Spelled done s) (p : Piece) :
    Spelled (done ++ [p]) (s.step p) := by
  obtain ⟨hline, hoffset, htokens, hstrays⟩ := h.take p
  refine ⟨?_, ?_, htokens, hstrays⟩
  · rw [Scan.step, Scan.pass, hline, h.line]
    simp [Piece.lineAfter, Piece.textOf, Nat.add_assoc]
  · rw [Scan.step, Scan.pass, hoffset, h.offset, byteSize_eq, Piece.textOf_append,
      String.ofList_append, String.utf8ByteSize_append]
    simp [Piece.textOf]

/-- A scan comes past all pieces. -/
theorem spelled_foldl (types : NameTypes) (ps : List Piece) :
    Spelled ps (ps.foldl Scan.step (start types)) := by
  induction ps using List.reverseRecOn with
  | nil => exact spelled_start types
  | append_singleton ps p ih =>
    rw [List.foldl_append]
    exact ih.step p

end Scan

/-- The text of the pieces of a source is the source. -/
theorem Piece.textOf_pieces (source : List Char) : textOf (pieces source) = source :=
  flatten_pieces source

/-- The tokens of a scan are those that are spelled, whatever is known of names beforehand. -/
theorem scan_plain_tokens (source : String) (types : NameTypes) :
    (scan source types).tokens.map Token.plain = spelled source := by
  have h := Scan.spelled_foldl types (Piece.pieces source.toList)
  have hline := h.line
  have hoffset := h.offset
  rw [Piece.textOf_pieces] at hline hoffset
  rw [String.ofList_toList] at hoffset
  rw [scan, spelled, ← h.tokens, List.map_append, ← hline, ← hoffset]
  rfl

end TickScript
