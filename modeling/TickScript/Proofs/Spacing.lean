import Mathlib.Data.List.TakeWhile
import TickScript.Proofs.Tiling

/-!
# What stands between tokens

Blanks and comments only separate tokens. A text may be laid out anew, with other separators
between its tokens, and without the characters that belong to nothing: scanning gives the same
tokens with the same types, the same table of names, and the same reports apart from those about
such characters (`scan_spaced`).

Two facts make up the proof. A token in front of a blank is cut as the same token, whatever came
behind it before (`Piece.cut_again`): it is not shorter now, and no part of it was longer than the
blank allows. And what a scan makes of a token depends on the tokens before it and not on their
places (`Scan.Alike.step`).
-/

namespace TickScript

/-- A token without its place. -/
def Token.placeless (t : Token) : Token :=
  { t with line := 0, offset := 0 }

/-- A diagnostic without its line. -/
def Diagnostic.placeless (d : Diagnostic) : Diagnostic :=
  { d with line := 0 }

/-! ## Tokens and gaps -/

namespace Piece

def isToken : Piece → Bool
  | .token _ _ => true
  | _ => false

def isGap : Piece → Bool
  | .gap _ => true
  | _ => false

end Piece

/-! ## Scans that read the same -/

namespace Scan

/-- What has been reported apart from stray characters, on whatever line. -/
def reports (s : Scan) : List Diagnostic :=
  (s.diagnostics.filter fun d => !d.isStray).map Diagnostic.placeless

/-- Two scans have read the same tokens, though at other places, and know the same names. -/
structure Alike (s t : Scan) : Prop where
  latest : s.latest.map Token.placeless = t.latest.map Token.placeless
  types : s.types = t.types
  reports : s.reports = t.reports

variable {s t u : Scan}

theorem Alike.refl (s : Scan) : Alike s s := ⟨rfl, rfl, rfl⟩

theorem Alike.symm (h : Alike s t) : Alike t s :=
  ⟨h.latest.symm, h.types.symm, h.reports.symm⟩

theorem Alike.trans (h : Alike s t) (h' : Alike t u) : Alike s u :=
  ⟨h.latest.trans h'.latest, h.types.trans h'.types, h.reports.trans h'.reports⟩

theorem Alike.written (h : Alike s t) : writtenType? s.latest = writtenType? t.latest := by
  have kinds : ∀ v : Token, v.placeless.kind = v.kind := fun _ => rfl
  rw [← writtenType?_map kinds, h.latest, writtenType?_map kinds]

theorem Alike.emit (h : Alike s t) {a b : Token} (same : a.placeless = b.placeless) :
    Alike (s.emit a) (t.emit b) where
  latest := by rw [Scan.emit, Scan.emit, List.map_cons, List.map_cons, h.latest, same]
  types := h.types
  reports := h.reports

theorem reports_report (s : Scan) (problem : LexProblem) (location : Location) :
    (s.report problem location).reports =
      s.reports ++ [⟨.lex problem, 0, location⟩].filter fun d => !d.isStray := by
  rw [reports, Scan.report, List.filter_append, List.map_append]
  cases problem <;> rfl

theorem Alike.report (h : Alike s t) (problem : LexProblem) (location : Location) :
    Alike (s.report problem location) (t.report problem location) where
  latest := h.latest
  types := h.types
  reports := by rw [reports_report, reports_report, h.reports]

theorem retype_placeless (name : String) (type : Ty) (tokens : List Token) :
    (retype name type tokens).map Token.placeless =
      retype name type (tokens.map Token.placeless) := by
  rw [retype_eq, retype_eq, List.map_map, List.map_map]
  refine List.map_congr_left fun v _ => ?_
  by_cases named : v.kind = .identifier ∧ v.lexeme = name
  · simp [retyped, Token.placeless, named]
  · simp [retyped, Token.placeless, named]

theorem Alike.typeName (h : Alike s t) (name : String) :
    (s.typeName name).1 = (t.typeName name).1 ∧ Alike (s.typeName name).2 (t.typeName name).2 := by
  unfold Scan.typeName
  rw [h.types, h.written]
  split
  · exact ⟨rfl, h.latest, rfl, h.reports⟩
  · exact ⟨rfl, h⟩
  · next written _ _ =>
    refine ⟨rfl, ?_, rfl, h.reports⟩
    rw [retype_placeless, retype_placeless, h.latest]
  · split
    · exact ⟨rfl, h⟩
    · exact ⟨rfl, h.report _ _⟩

theorem Alike.integerValue (h : Alike s t) (digits : List Char) :
    (s.integerValue digits).1 = (t.integerValue digits).1 ∧
      Alike (s.integerValue digits).2 (t.integerValue digits).2 := by
  unfold Scan.integerValue
  dsimp only
  split
  · exact ⟨rfl, h⟩
  · exact ⟨rfl, h.report _ _⟩

theorem Alike.addToken (h : Alike s t) (kind : TokenKind) (text : List Char) :
    Alike (s.addToken kind text) (t.addToken kind text) := by
  unfold Scan.addToken
  dsimp only
  split
  · obtain ⟨same, after⟩ := h.typeName (String.ofList text)
    exact after.emit (by simp only [Token.placeless, same])
  · obtain ⟨same, after⟩ := h.integerValue text
    exact after.emit (by simp only [Token.placeless, same])
  all_goals exact h.emit rfl

theorem Alike.pass (h : Alike s t) (text text' : List Char) :
    Alike (s.pass text) (t.pass text') :=
  ⟨h.latest, h.types, h.reports⟩

/-- The same token is read the same. -/
theorem Alike.step (h : Alike s t) (kind : TokenKind) (text : List Char) :
    Alike (s.step (.token kind text)) (t.step (.token kind text)) :=
  (h.addToken kind text).pass text text

/-- What is no token leaves no trace but its report. -/
theorem alike_step_other {p : Piece} (h : p.isToken = false) (s : Scan) : Alike (s.step p) s := by
  cases p with
  | token kind text => cases h
  | gap text => exact ⟨rfl, rfl, rfl⟩
  | stray c =>
    exact ⟨rfl, rfl, (reports_report s _ _).trans (List.append_nil _)⟩

/-- A scan reads the tokens among the pieces as if there were no others. -/
theorem Alike.foldl (h : Alike s t) (ps : List Piece) :
    Alike (ps.foldl Scan.step s) ((ps.filter Piece.isToken).foldl Scan.step t) := by
  induction ps generalizing s t with
  | nil => exact h
  | cons p ps ih =>
    cases hp : p.isToken with
    | false =>
      rw [List.filter_cons_of_neg (by simp [hp])]
      exact ih ((alike_step_other hp s).trans h)
    | true =>
      rw [List.filter_cons_of_pos hp]
      cases p with
      | token kind text => exact ih (h.step kind text)
      | gap text => cases hp
      | stray c => cases hp

end Scan

namespace Piece

/-! ## Cutting once more -/

/-- A text that is cut off from what stands before it: it is empty or begins with a blank. -/
def Breaks : List Char → Prop
  | [] => True
  | c :: _ => c ∈ [' ', '\t', '\r', '\n']

/-- What is said of all characters of a class does not reach into a text that is cut off. -/
theorem takeWhile_append {p : Char → Bool} {word after : List Char} (breaks : Breaks after)
    (hp : ∀ c ∈ [' ', '\t', '\r', '\n'], p c = false) (hw : ∀ c ∈ word, p c = true) :
    (word ++ after).takeWhile p = word ∧ (word ++ after).dropWhile p = after := by
  rw [List.takeWhile_append_of_pos hw, List.dropWhile_append_of_pos hw]
  cases after with
  | nil => simp
  | cons c after => simp [hp c breaks]

/-- In front of a text that is cut off, no sign is doubled and no comment begins. -/
theorem cut_breaks {c : Char} {after : List Char} (breaks : Breaks after) :
    cut c after = cutOne c after := by
  cases after with
  | nil => rfl
  | cons b after =>
    have hb : b ≠ '/' ∧ double? c b = none := by
      simp only [Breaks, List.mem_cons, List.not_mem_nil, or_false] at breaks
      rcases breaks with rfl | rfl | rfl | rfl <;> exact ⟨by decide, by simp [double?]⟩
    rw [cut, if_neg fun h => hb.1 h.2, hb.2]

/-- No comment and no doubled sign begins with a letter or a digit. -/
theorem cut_word {c : Char} (h : c.isDigit = true ∨ startsWord c = true) (rest : List Char) :
    cut c rest = cutOne c rest := by
  have none : c ≠ '/' ∧ ∀ d, double? c d = none := by
    refine ⟨?_, fun d => ?_⟩
    · rintro rfl
      revert h
      decide
    · unfold double?
      split <;> first | rfl | (revert h; decide)
  cases rest with
  | nil => rfl
  | cons d more => rw [cut, if_neg fun hc => none.1 hc.1, none.2]

theorem not_blank {p : Char → Bool} (h : p ' ' = false ∧ p '\t' = false ∧ p '\r' = false ∧
    p '\n' = false) : ∀ c ∈ [' ', '\t', '\r', '\n'], p c = false := by
  simpa using h

/-- A whole number in front of a text that is cut off. -/
theorem number_whole (c : Char) {digits after : List Char} (breaks : Breaks after)
    (hd : ∀ d ∈ digits, d.isDigit = true) :
    number c (digits ++ after) = (.token .intNumber (c :: digits), after) := by
  obtain ⟨take, drop⟩ := takeWhile_append breaks (not_blank (by decide)) hd
  unfold number
  rw [take, drop]
  cases after with
  | nil => rfl
  | cons b after =>
    dsimp only
    split
    · next e =>
      cases e
      simp [Breaks] at breaks
    · rfl

/-- A number with a point in front of a text that is cut off. -/
theorem number_point (c : Char) {digits decimals after : List Char} {d : Char}
    (breaks : Breaks after) (hd : ∀ d ∈ digits, d.isDigit = true) (hp : d.isDigit = true)
    (hf : ∀ d ∈ decimals, d.isDigit = true) :
    number c ((digits ++ '.' :: d :: decimals) ++ after) =
      (.token .floatNumber (c :: (digits ++ '.' :: d :: decimals)), after) := by
  obtain ⟨take, drop⟩ := takeWhile_append breaks (not_blank (by decide)) hf
  have whole : ((digits ++ '.' :: d :: decimals) ++ after).takeWhile Char.isDigit = digits ∧
      ((digits ++ '.' :: d :: decimals) ++ after).dropWhile Char.isDigit =
        '.' :: d :: (decimals ++ after) := by
    rw [List.append_assoc, List.takeWhile_append_of_pos hd, List.dropWhile_append_of_pos hd]
    simp
  unfold number
  rw [whole.1, whole.2]
  simp only [hp, if_true, take, drop, List.cons_append]

/-- A number is cut as the same number in front of every text that is cut off. -/
theorem number_again (c : Char) (rest : List Char) {after : List Char} (breaks : Breaks after) :
    ∃ cs, (number c rest).1.text = c :: cs ∧
      number c (cs ++ after) = ((number c rest).1, after) := by
  rw [number]
  split
  · next d more _ =>
    split
    · next hp =>
      exact ⟨_, rfl, number_point c breaks (fun _ => List.mem_takeWhile_imp) hp
        fun _ => List.mem_takeWhile_imp⟩
    · exact ⟨_, rfl, number_whole c breaks fun _ => List.mem_takeWhile_imp⟩
  · exact ⟨_, rfl, number_whole c breaks fun _ => List.mem_takeWhile_imp⟩

theorem word_again (c : Char) (rest : List Char) {after : List Char} (breaks : Breaks after) :
    ∃ cs, (word c rest).1.text = c :: cs ∧ word c (cs ++ after) = ((word c rest).1, after) := by
  have inner : ∀ d ∈ rest.takeWhile continuesWord, continuesWord d = true :=
    fun _ => List.mem_takeWhile_imp
  refine ⟨rest.takeWhile continuesWord, rfl, ?_⟩
  obtain ⟨take, drop⟩ := takeWhile_append breaks (not_blank (by decide)) inner
  simp only [word, take, drop]

/-- A token is cut as the same token in front of every text that is cut off. -/
theorem cut_again {c : Char} {rest after : List Char} {kind : TokenKind} {text : List Char}
    (h : (cut c rest).1 = .token kind text) (breaks : Breaks after) :
    ∃ cs, text = c :: cs ∧ cut c (cs ++ after) = (.token kind text, after) := by
  have one : ∀ rest, (cutOne c rest).1 = .token kind text →
      ∃ cs, text = c :: cs ∧ cut c (cs ++ after) = (.token kind text, after) := by
    intro rest h
    unfold cutOne at h
    split at h
    · next single =>
      cases h
      exact ⟨[], rfl, (cut_breaks breaks).trans (by rw [cutOne, single])⟩
    · next single =>
      split at h
      · cases h
      · next blank =>
        split at h
        · next digit =>
          obtain ⟨cs, htext, again⟩ := number_again c rest breaks
          rw [h] at htext again
          refine ⟨cs, htext, ?_⟩
          rw [cut_word (.inl digit), cutOne, single]
          simp only [blank, digit, if_true, again]
          rfl
        · next digit =>
          split at h
          · next starts =>
            obtain ⟨cs, htext, again⟩ := word_again c rest breaks
            rw [h] at htext again
            refine ⟨cs, htext, ?_⟩
            rw [cut_word (.inr starts), cutOne, single]
            simp only [blank, digit, starts, if_true, again]
            rfl
          · cases h
  unfold cut at h
  split at h
  · next d more =>
    split at h
    · cases h
    · next comment =>
      split at h
      · next double =>
        cases h
        refine ⟨[d], rfl, ?_⟩
        rw [List.singleton_append, cut, if_neg comment, double]
      · exact one _ h
  · exact one _ h

/-! ## Pieces of a text put together -/

/-- Cutting does not depend on the limit, if there is one cut for each character. -/
theorem cutAll_limit (limit : Nat) : ∀ (limit' : Nat) (source : List Char), source.length ≤ limit →
    source.length ≤ limit' → cutAll limit source = cutAll limit' source := by
  induction limit with
  | zero =>
    intro limit' source h _
    obtain rfl := List.eq_nil_of_length_eq_zero (Nat.le_zero.1 h)
    cases limit' <;> rfl
  | succ limit ih =>
    intro limit' source h h'
    cases source with
    | nil => cases limit' <;> rfl
    | cons c rest =>
      cases limit' with
      | zero => cases h'
      | succ limit' =>
        have shorter := length_cut_lt c rest
        simp only [List.length_cons] at h h' shorter
        rw [cutAll, cutAll, ih limit' _ (by omega) (by omega)]

theorem pieces_cons (c : Char) (rest : List Char) :
    pieces (c :: rest) = (cut c rest).1 :: pieces (cut c rest).2 := by
  have shorter := length_cut_lt c rest
  simp only [List.length_cons] at shorter
  rw [pieces, List.length_cons, cutAll, pieces, cutAll_limit _ (cut c rest).2.length]
  · omega
  · exact Nat.le_refl _

end Piece

/-! ## Layouts -/

/-- Blanks and comments that end with their lines, in any order. -/
inductive Filler : List Char → Prop where
  | nil : Filler []
  | blank {c : Char} {rest : List Char} (hc : c ∈ [' ', '\t', '\r', '\n']) (h : Filler rest) :
      Filler (c :: rest)
  | comment {body rest : List Char} (hb : '\n' ∉ body) (h : Filler rest) :
      Filler ('/' :: '/' :: body ++ '\n' :: rest)

/-- What may stand between two words: it begins with a blank. -/
inductive Separator : List Char → Prop where
  | mk {c : Char} {rest : List Char} (hc : c ∈ [' ', '\t', '\r', '\n']) (h : Filler rest) :
      Separator (c :: rest)

/-- A text of words in this order, with a separator between any two of them. -/
inductive Spaced : List String → List Char → Prop where
  | nil : Spaced [] []
  | one (word : String) : Spaced [word] word.toList
  | more {word : String} {words : List String} {gap text : List Char} (hw : words ≠ [])
      (hg : Separator gap) (h : Spaced words text) :
      Spaced (word :: words) (word.toList ++ (gap ++ text))

namespace Piece

/-- A token whose text, in front of any text that is cut off, is cut as this token again. -/
def Lasts (p : Piece) : Prop :=
  ∃ c cs kind, p = .token kind (c :: cs) ∧
    ∀ after, Breaks after → cut c (cs ++ after) = (p, after)

theorem lasts_cutAll : ∀ (limit : Nat) (source : List Char),
    ∀ p ∈ (cutAll limit source).filter isToken, p.Lasts
  | 0, _, p, h => by simp [cutAll] at h
  | _ + 1, [], p, h => by simp [cutAll] at h
  | limit + 1, c :: rest, p, h => by
    obtain ⟨hm, ht⟩ := List.mem_filter.1 h
    rcases List.mem_cons.1 hm with rfl | hm
    · cases hcut : (cut c rest).1 with
      | token kind text =>
        obtain ⟨cs, rfl, -⟩ := cut_again hcut (show Breaks [] from trivial)
        refine ⟨c, cs, kind, rfl, fun after breaks => ?_⟩
        obtain ⟨cs', e, again⟩ := cut_again hcut breaks
        cases e
        exact again
      | gap text =>
        rw [hcut] at ht
        cases ht
      | stray c =>
        rw [hcut] at ht
        cases ht
    · exact lasts_cutAll limit _ p (List.mem_filter.2 ⟨hm, ht⟩)

/-- The pieces of a text that are no gaps. -/
def content (source : List Char) : List Piece :=
  (pieces source).filter fun p => !p.isGap

theorem content_nil : content [] = [] := rfl

theorem content_gap {c : Char} {rest after : List Char} (text : List Char)
    (h : cut c rest = (.gap text, after)) : content (c :: rest) = content after := by
  rw [content, pieces_cons, h]
  rfl

theorem content_blank {c : Char} (hc : c ∈ [' ', '\t', '\r', '\n']) (rest : List Char) :
    content (c :: rest) = content rest := by
  have none : c ≠ '/' ∧ single? c = none ∧ ∀ d, double? c d = none := by
    simp only [List.mem_cons, List.not_mem_nil, or_false] at hc
    rcases hc with rfl | rfl | rfl | rfl <;>
      exact ⟨by decide, rfl, fun d => by simp [double?]⟩
  have gap : cutOne c rest = (.gap [c], rest) := by
    have blank : (c == ' ' || c == '\r' || c == '\t' || c == '\n') = true := by
      simp only [List.mem_cons, List.not_mem_nil, or_false] at hc
      rcases hc with rfl | rfl | rfl | rfl <;> rfl
    rw [cutOne, none.2.1]
    simp only [blank, if_true]
  refine content_gap [c] ?_
  cases rest with
  | nil => exact gap
  | cons d more => rw [cut, if_neg fun h => none.1 h.1, none.2.2, gap]

/-- Blanks and comments have no content. -/
theorem content_filler {filler : List Char} (h : Filler filler) (rest : List Char) :
    content (filler ++ rest) = content rest := by
  induction h with
  | nil => rfl
  | blank hc _ ih => rw [List.cons_append, content_blank hc, ih]
  | @comment body filler hb _ ih =>
    have take : (body ++ '\n' :: (filler ++ rest)).takeWhile (· ≠ '\n') = body ∧
        (body ++ '\n' :: (filler ++ rest)).dropWhile (· ≠ '\n') = '\n' :: (filler ++ rest) := by
      have hb' : ∀ c ∈ body, decide (c ≠ '\n') = true := by
        intro c hc
        simp only [decide_eq_true_eq]
        rintro rfl
        exact hb hc
      rw [List.takeWhile_append_of_pos hb', List.dropWhile_append_of_pos hb']
      simp
    have comment : content ('/' :: '/' :: (body ++ '\n' :: (filler ++ rest))) =
        content ('\n' :: (filler ++ rest)) := by
      refine content_gap ('/' :: '/' :: body) ?_
      rw [cut, if_pos ⟨rfl, rfl⟩, take.1, take.2]
    -- The line break behind the comment is a blank of its own.
    simpa [content_blank (c := '\n') (by simp), ih] using comment

theorem content_separator {gap : List Char} (h : Separator gap) (rest : List Char) :
    content (gap ++ rest) = content rest := by
  cases h with
  | mk hc h => rw [List.cons_append, content_blank hc, content_filler h]

/-- Tokens that are laid out come out again, and nothing else does. An empty word may stand at the
end. -/
theorem content_spaced {ps : List Piece} (lasts : ∀ p ∈ ps, p.Lasts) {last : List String}
    (hl : last = [] ∨ last = [""]) {text : List Char}
    (h : Spaced (ps.map (fun p => String.ofList p.text) ++ last) text) : content text = ps := by
  induction ps generalizing text with
  | nil =>
    rcases hl with rfl | rfl
    · cases h
      rfl
    · cases h with
      | one => rfl
      | more hw => exact absurd rfl hw
  | cons p ps ih =>
    obtain ⟨c, cs, kind, rfl, again⟩ := lasts p List.mem_cons_self
    have rest : ∀ {text}, _ → content text = ps :=
      ih fun q hq => lasts q (List.mem_cons_of_mem _ hq)
    -- The token is cut off from what follows, which comes out by itself.
    have here : ∀ after, Breaks after → content (c :: (cs ++ after)) =
        .token kind (c :: cs) :: content after := by
      intro after breaks
      rw [content, pieces_cons, again after breaks]
      rfl
    generalize hwords : ps.map (fun p => String.ofList p.text) ++ last = words at rest
    rw [List.map_cons, List.cons_append, hwords] at h
    cases h with
    | one =>
      obtain ⟨hps, -⟩ := List.append_eq_nil_iff.1 hwords
      obtain rfl := List.map_eq_nil_iff.1 hps
      simpa [text, content_nil] using here [] trivial
    | @more _ _ gap after _ hg h =>
      have breaks : Breaks (gap ++ after) := by
        cases hg with
        | mk hc => exact hc
      have := here _ breaks
      rw [content_separator hg, rest h] at this
      simpa [text] using this

end Piece

/-! ## Scanning a new layout -/

theorem Piece.lexeme_collect (before : List Char) (ps : List Piece) :
    (collect token? before ps).map Token.lexeme =
      (ps.filter isToken).map fun p => String.ofList p.text := by
  induction ps generalizing before with
  | nil => rfl
  | cons p ps ih =>
    rw [collect, List.map_append, ih]
    cases p <;> rfl

theorem Piece.report_collect (before : List Char) {ps : List Piece}
    (h : ∀ p ∈ ps, p.isToken = true ∨ p.isGap = true) : collect report? before ps = [] := by
  induction ps generalizing before with
  | nil => rfl
  | cons p ps ih =>
    obtain ⟨hp, hps⟩ := List.forall_mem_cons.1 h
    rw [collect, ih _ hps]
    cases p with
    | token kind text => rfl
    | gap text => rfl
    | stray c => simp [isToken, isGap] at hp

/-- The lexemes of a scan are the texts of its token pieces, and the empty one of the end mark. -/
theorem lexemes_scan (source : String) (seed : NameTypes) :
    (scan source seed).tokens.map Token.lexeme =
      ((Piece.pieces source.toList).filter Piece.isToken).map (fun p => String.ofList p.text) ++
        [""] := by
  have spelled := Scan.spelled_foldl seed (Piece.pieces source.toList)
  have plain : ∀ ts : List Token, (ts.map Token.plain).map Token.lexeme = ts.map Token.lexeme :=
    fun ts => List.map_map
  rw [scan, ← Piece.lexeme_collect [], ← spelled.tokens, plain, List.map_append]
  rfl

/-- If the lexemes of a scan are laid out, its token pieces are all that the text contains. -/
theorem Piece.content_laid_out {source : String} {seed : NameTypes} {text : List Char}
    (h : Spaced ((scan source seed).tokens.map Token.lexeme) text ∨
      Spaced ((scan source seed).tokens.dropLast.map Token.lexeme) text) :
    content text = (pieces source.toList).filter isToken := by
  have lasts := lasts_cutAll source.toList.length source.toList
  rw [List.map_dropLast, lexemes_scan, List.dropLast_concat] at h
  rcases h with h | h
  · exact content_spaced lasts (.inr rfl) h
  · exact content_spaced lasts (.inl rfl) (by rwa [List.append_nil])

/-- A text that contains nothing but tokens is made of them and of gaps. -/
theorem Piece.tokens_of_content {text : List Char} {ps : List Piece}
    (h : content text = ps.filter isToken) : (pieces text).filter isToken = ps.filter isToken ∧
      ∀ p ∈ pieces text, p.isToken = true ∨ p.isGap = true := by
  constructor
  · calc (pieces text).filter isToken
        = (content text).filter isToken := by
          rw [content, List.filter_filter]
          refine List.filter_congr fun p _ => ?_
          cases p <;> rfl
      _ = ps.filter isToken := by
          rw [h, List.filter_filter]
          simp only [Bool.and_self]
  · intro p hp
    cases hg : p.isGap with
    | true => exact .inr rfl
    | false =>
      have hc : p ∈ content text := List.mem_filter.2 ⟨hp, by rw [hg]; rfl⟩
      rw [h] at hc
      exact .inl (List.mem_filter.1 hc).2

/-- What a scan comes to depends on the token pieces only. -/
theorem Scan.alike_of_tokens {ps qs : List Piece} (s : Scan)
    (h : ps.filter Piece.isToken = qs.filter Piece.isToken) :
    Alike (ps.foldl Scan.step s) (qs.foldl Scan.step s) := by
  have new := (Alike.refl s).foldl ps
  rw [h] at new
  exact new.trans ((Alike.refl s).foldl qs).symm

/-- Where no piece is stray, all that is reported remains. -/
theorem Scan.reports_clean (seed : NameTypes) {ps : List Piece}
    (h : ∀ p ∈ ps, p.isToken = true ∨ p.isGap = true) :
    (ps.foldl Scan.step (Scan.start seed)).reports =
      (ps.foldl Scan.step (Scan.start seed)).diagnostics.map Diagnostic.placeless := by
  have strays := (spelled_foldl seed ps).strays
  rw [Piece.report_collect [] h] at strays
  have none : ∀ d ∈ (ps.foldl Scan.step (Scan.start seed)).diagnostics, (!d.isStray) = true := by
    intro d hd
    rw [Bool.not_eq_true', Bool.eq_false_iff]
    exact List.filter_eq_nil_iff.1 strays d hd
  rw [reports, List.filter_eq_self.2 none]

/-- Layout does not matter. Let the lexemes of a scan be written with any separators between them,
the empty one of the end mark among them or not. Scanning this text with the same table gives the
same tokens, apart from their places, and the same table, and it reports the same, apart from
characters that belonged to nothing: they are gone. -/
theorem scan_spaced (source : String) (seed : NameTypes) {text : List Char}
    (h : Spaced ((scan source seed).tokens.map Token.lexeme) text ∨
      Spaced ((scan source seed).tokens.dropLast.map Token.lexeme) text) :
    (scan (String.ofList text) seed).tokens.map Token.placeless =
        (scan source seed).tokens.map Token.placeless ∧
      (scan (String.ofList text) seed).types = (scan source seed).types ∧
      (scan (String.ofList text) seed).diagnostics.map Diagnostic.placeless =
        ((scan source seed).diagnostics.filter fun d => !d.isStray).map Diagnostic.placeless := by
  obtain ⟨tokens, clean⟩ := Piece.tokens_of_content (Piece.content_laid_out h)
  have alike := Scan.alike_of_tokens (Scan.start seed) tokens
  refine ⟨?_, ?_, ?_⟩
  · rw [scan, scan, String.toList_ofList, List.map_append, List.map_append, List.map_reverse,
      List.map_reverse, alike.latest]
    rfl
  · rw [scan, scan, String.toList_ofList]
    exact alike.types
  · have same := alike.reports
    rw [Scan.reports_clean seed clean] at same
    rw [scan, String.toList_ofList]
    exact same

/-- A name with two types, and a character that belongs to nothing. -/
def crowded : String := "int x$<=1.5;float x"

/-- Its tokens on two lines. -/
def laidOut : List Char := "int\tx <= 1.5 // x\n; float x".toList

theorem crowded_spaced : Spaced ((scan crowded ⟨[]⟩).tokens.dropLast.map Token.lexeme) laidOut := by
  have words : (scan crowded ⟨[]⟩).tokens.dropLast.map Token.lexeme =
      ["int", "x", "<=", "1.5", ";", "float", "x"] := by decide +kernel
  have text : laidOut = "int".toList ++ (['\t'] ++ ("x".toList ++ ([' '] ++
      ("<=".toList ++ ([' '] ++ ("1.5".toList ++ ((' ' :: ('/' :: '/' :: [' ', 'x'] ++ '\n' :: [])) ++
      (";".toList ++ ([' '] ++ ("float".toList ++ ([' '] ++ "x".toList))))))))))) := by
    decide +kernel
  rw [words, text]
  have blank : Separator [' '] := .mk (by decide) .nil
  have comment : Separator (' ' :: ('/' :: '/' :: [' ', 'x'] ++ '\n' :: [])) :=
    .mk (by decide) (.comment (by decide) .nil)
  exact .more nofun (.mk (by decide) .nil) (.more nofun blank (.more nofun blank
    (.more nofun comment (.more nofun blank (.more nofun blank (.one "x"))))))

/-- Of its two reports, the one about the type remains. -/
theorem scan_spaced_crowded :
    (scan crowded ⟨[]⟩).diagnostics.length = 2 ∧
    (scan (String.ofList laidOut) ⟨[]⟩).diagnostics.map Diagnostic.placeless =
      [⟨.lex (.retyped "x" .int .float), 0, .near "x"⟩] ∧
    (scan (String.ofList laidOut) ⟨[]⟩).tokens.map Token.placeless =
      (scan crowded ⟨[]⟩).tokens.map Token.placeless := by
  obtain ⟨tokens, -, reports⟩ := scan_spaced crowded ⟨[]⟩ (.inr crowded_spaced)
  refine ⟨by decide +kernel, reports.trans ?_, tokens⟩
  decide +kernel

end TickScript
