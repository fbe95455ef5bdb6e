import TickScript.Proofs.Spelling

/-!
# The type of a name

A scan goes over a text once and gives earlier tokens of a name their type when it comes to know
it. Two passes would do the same. The first one finds the authoritative type of every name: the
one known beforehand, or else the first that is written before the name. The second one gives it
to all tokens of the name and reports every other type that is written before it. The main
statement says that a scan ends with the tokens, the table and the reports of the two passes.
-/

namespace TickScript

/-! ## Two passes -/

/-- The name behind a type at the beginning of a token list: behind a type keyword, or behind
one with brackets, and then of an array type. -/
def typedName? : List Token → Option (Token × Ty)
  | keyword :: name :: rest =>
    if name.kind = .identifier then keyword.kind.type?.map fun type => (name, type)
    else
      match rest with
      | bracket :: array :: _ =>
        if name.kind = .leftBracket ∧ bracket.kind = .rightBracket ∧ array.kind = .identifier then
          keyword.kind.type?.map fun type => (array, type.arrayOf)
        else none
      | _ => none
  | _ => none

/-- The names that stand behind a type, each with this type, in order. -/
def typedNames : List Token → List (Token × Ty)
  | [] => []
  | t :: ts => (typedName? (t :: ts)).toList ++ typedNames ts

/-- The type of a name: the one in the table, or else the first written before the name. -/
def authority (seed : NameTypes) (tokens : List Token) (name : String) : Ty :=
  (((seed.find? name).filter (· ≠ .unknown)).or
    (((typedNames tokens).find? (·.1.lexeme = name)).map (·.2))).getD .unknown

/-- A token with its type, which only names have. -/
def Token.stamp (types : String → Ty) (t : Token) : Token :=
  if t.kind = .identifier then { t with type := types t.lexeme } else t

/-- Does the name stand somewhere among the tokens? -/
def occurs (tokens : List Token) (name : String) : Bool :=
  tokens.any fun t => t.kind = .identifier ∧ t.lexeme = name

/-- The reports of names behind a type that is not theirs. -/
def conflicts (types : String → Ty) (tokens : List Token) : List Diagnostic :=
  ((typedNames tokens).filter fun p => p.2 ≠ types p.1.lexeme).map fun p =>
    ⟨.lex (.retyped p.1.lexeme (types p.1.lexeme) p.2), p.1.line, .near p.1.lexeme⟩

/-- Does the diagnostic report a name with a second type? -/
def Diagnostic.isRetyped (d : Diagnostic) : Bool :=
  match d.problem with
  | .lex (.retyped ..) => true
  | _ => false

/-! ## One more token -/

/-- Looking back reaches over at most three tokens. -/
theorem writtenType?_append {ts : List Token} (h : 3 ≤ ts.length) (t : Token) :
    Scan.writtenType? (ts ++ [t]) = Scan.writtenType? ts := by
  rcases ts with _ | ⟨x, _ | ⟨y, _ | ⟨z, rest⟩⟩⟩
  · simp at h
  · simp at h
  · simp at h
  · rfl

/-- Looking ahead from a type finds the name that finds the type when looking back. -/
theorem typedNames_concat (ts : List Token) (t : Token) :
    typedNames (ts ++ [t]) = typedNames ts ++
      if t.kind = .identifier then
        ((Scan.writtenType? ts.reverse).map fun type => (t, type)).toList
      else [] := by
  induction ts with
  | nil => simp [typedNames, typedName?, Scan.writtenType?]
  | cons a ts ih =>
    rw [List.cons_append, typedNames, typedNames, ih, ← List.append_assoc]
    -- both looks reach over at most two tokens between the type and the name
    rcases ts with _ | ⟨b, _ | ⟨c, _ | ⟨d, ts⟩⟩⟩
    · by_cases ht : t.kind = .identifier
      · cases hk : a.kind.type? with
        | none => simp [typedName?, typedNames, Scan.writtenType?, ht, hk]
        | some type =>
          have hb : a.kind ≠ .rightBracket := by
            intro e
            rw [e] at hk
            cases hk
          simp [typedName?, typedNames, Scan.writtenType?, ht, hk, hb]
      · simp [typedName?, typedNames, ht]
    · by_cases hb : b.kind = .identifier
      · simp [typedName?, typedNames, Scan.writtenType?, hb]
      · by_cases hr : b.kind = .rightBracket <;>
          simp [typedName?, typedNames, Scan.writtenType?, hb, hr]
    · by_cases brackets : b.kind = .leftBracket ∧ c.kind = .rightBracket ∧ t.kind = .identifier
      · obtain ⟨hb, hc, ht⟩ := brackets
        cases hk : a.kind.type? <;>
          simp [typedName?, typedNames, Scan.writtenType?, hb, hc, ht, hk]
      · have ahead : typedName? [a, b, c, t] = typedName? [a, b, c] := by
          simp [typedName?, brackets]
        have back : t.kind = .identifier →
            Scan.writtenType? [c, b, a] = Scan.writtenType? [c, b] := by
          intro ht
          by_cases hc : c.kind = .rightBracket
          · have hb : b.kind ≠ .leftBracket := fun hb => brackets ⟨hb, hc, ht⟩
            simp [Scan.writtenType?, hc, hb]
          · simp [Scan.writtenType?, hc]
        have ahead' : typedName? (a :: ([b, c] ++ [t])) = typedName? [a, b, c] := ahead
        rw [ahead']
        split
        · next ht =>
          have back' : Scan.writtenType? [a, b, c].reverse = Scan.writtenType? [b, c].reverse :=
            back ht
          rw [back']
        · rfl
    · have ahead : typedName? (a :: (b :: c :: d :: ts ++ [t])) =
          typedName? (a :: b :: c :: d :: ts) := rfl
      have back : Scan.writtenType? (a :: b :: c :: d :: ts).reverse =
          Scan.writtenType? (b :: c :: d :: ts).reverse := by
        rw [List.reverse_cons]
        exact writtenType?_append (by simp) a
      rw [ahead, back]

/-- A name behind a type is one of the tokens, and its type says something. -/
theorem mem_typedNames {ts : List Token} {p : Token × Ty} (h : p ∈ typedNames ts) :
    p.1 ∈ ts ∧ p.1.kind = .identifier ∧ p.2 ≠ .unknown := by
  induction ts using List.reverseRecOn with
  | nil => simp [typedNames] at h
  | append_singleton ts t ih =>
    rw [typedNames_concat, List.mem_append] at h
    rcases h with h | h
    · obtain ⟨hm, hk, hu⟩ := ih h
      exact ⟨List.mem_append_left _ hm, hk, hu⟩
    · split at h
      · next hk =>
        obtain ⟨type, hw, rfl⟩ := Option.map_eq_some_iff.1 (Option.mem_toList.1 h)
        refine ⟨by simp, hk, ?_⟩
        rintro rfl
        cases Scan.writtenType?_not_wild hw
      · cases h

/-- A name without a type gets the one that is written before its next token, and others keep
theirs. -/
theorem authority_concat (seed : NameTypes) (ts : List Token) (t : Token) (name : String) :
    authority seed (ts ++ [t]) name =
      if authority seed ts name = .unknown ∧ t.kind = .identifier ∧ t.lexeme = name then
        (Scan.writtenType? ts.reverse).getD .unknown
      else authority seed ts name := by
  unfold authority
  cases hs : (seed.find? name).filter (· ≠ .unknown) with
  | some type =>
    have hu : type ≠ .unknown := by simpa using Option.filter_eq_some_iff.1 hs |>.2
    simp [hu]
  | none =>
    rw [Option.none_or, Option.none_or, typedNames_concat, List.find?_append]
    cases hf : (typedNames ts).find? (·.1.lexeme = name) with
    | some p =>
      have hu := (mem_typedNames (List.mem_of_find?_eq_some hf)).2.2
      simp [hu]
    | none =>
      by_cases hk : t.kind = .identifier
      · by_cases hl : t.lexeme = name
        · cases hw : Scan.writtenType? ts.reverse <;> simp [hk, hl]
        · cases hw : Scan.writtenType? ts.reverse <;> simp [hk, hl]
      · simp [hk]

theorem authority_other {seed : NameTypes} {ts : List Token} {t : Token} {name : String}
    (h : t.kind = .identifier → t.lexeme ≠ name) :
    authority seed (ts ++ [t]) name = authority seed ts name := by
  rw [authority_concat, if_neg]
  rintro ⟨-, hk, hl⟩
  exact h hk hl

/-- A name that stands behind a type has one. -/
theorem authority_typed {seed : NameTypes} {ts : List Token} {p : Token × Ty}
    (h : p ∈ typedNames ts) : authority seed ts p.1.lexeme ≠ .unknown := by
  unfold authority
  cases hs : (seed.find? p.1.lexeme).filter (· ≠ .unknown) with
  | some type => simpa using Option.filter_eq_some_iff.1 hs |>.2
  | none =>
    cases hf : (typedNames ts).find? (·.1.lexeme = p.1.lexeme) with
    | some q => simpa using (mem_typedNames (List.mem_of_find?_eq_some hf)).2.2
    | none => exact absurd (List.find?_eq_none.1 hf p h) (by simp)

/-- The reports about earlier tokens stay the same. -/
theorem conflicts_concat (seed : NameTypes) (ts : List Token) (t : Token) :
    conflicts (authority seed (ts ++ [t])) (ts ++ [t]) = conflicts (authority seed ts) ts ++
      if t.kind = .identifier then
        ((Scan.writtenType? ts.reverse).toList.filter
          (· ≠ authority seed (ts ++ [t]) t.lexeme)).map fun type =>
            ⟨.lex (.retyped t.lexeme (authority seed (ts ++ [t]) t.lexeme) type), t.line,
              .near t.lexeme⟩
      else [] := by
  have same : ∀ p ∈ typedNames ts, authority seed (ts ++ [t]) p.1.lexeme =
      authority seed ts p.1.lexeme := by
    intro p hp
    rw [authority_concat, if_neg]
    exact fun h => authority_typed hp h.1
  unfold conflicts
  rw [typedNames_concat, List.filter_append, List.map_append]
  congr 1
  · have hf : (typedNames ts).filter (fun p => p.2 ≠ authority seed (ts ++ [t]) p.1.lexeme) =
        (typedNames ts).filter fun p => p.2 ≠ authority seed ts p.1.lexeme :=
      List.filter_congr fun p hp => by rw [same p hp]
    rw [hf]
    refine List.map_congr_left fun p hp => ?_
    rw [same p (List.mem_of_mem_filter hp)]
  · split
    · cases Scan.writtenType? ts.reverse with
      | none => rfl
      | some type => by_cases h : type = authority seed (ts ++ [t]) t.lexeme <;> simp [h]
    · rfl

theorem occurs_concat (ts : List Token) (t : Token) (name : String) :
    occurs (ts ++ [t]) name =
      (occurs ts name || decide (t.kind = .identifier ∧ t.lexeme = name)) := by
  simp [occurs]

theorem occurs_of_typed {ts : List Token} {p : Token × Ty} (h : p ∈ typedNames ts) :
    occurs ts p.1.lexeme = true := by
  obtain ⟨hm, hk, -⟩ := mem_typedNames h
  exact List.any_eq_true.2 ⟨p.1, hm, by simp [hk]⟩

/-- A name that does not stand among the tokens has the type of the table. -/
theorem authority_of_not_occurs {seed : NameTypes} {ts : List Token} {name : String}
    (h : occurs ts name = false) : authority seed ts name = (seed.find? name).getD .unknown := by
  have untyped : (typedNames ts).find? (·.1.lexeme = name) = none := by
    refine List.find?_eq_none.2 fun p hp => ?_
    simp only [decide_eq_true_eq]
    rintro rfl
    rw [occurs_of_typed hp] at h
    cases h
  unfold authority
  rw [untyped]
  cases seed.find? name with
  | none => rfl
  | some type => by_cases hu : type = .unknown <;> simp [Option.filter, hu]

theorem stamp_kind (types : String → Ty) (t : Token) : (t.stamp types).kind = t.kind := by
  unfold Token.stamp
  split <;> rfl

/-! ## The invariant of a scan -/

namespace Scan

variable {seed : NameTypes} {ts : List Token} {s : Scan}

/-- The state of a scan behind the tokens `ts` is that of two passes over them. -/
structure Typed (seed : NameTypes) (ts : List Token) (s : Scan) : Prop where
  tokens : s.latest.reverse = ts.map (Token.stamp (authority seed ts))
  types : ∀ name, s.types.find? name =
    if occurs ts name then some (authority seed ts name) else seed.find? name
  reports : s.diagnostics.filter Diagnostic.isRetyped = conflicts (authority seed ts) ts

theorem typed_start (seed : NameTypes) : Typed seed [] (start seed) where
  tokens := rfl
  types _ := rfl
  reports := rfl

/-- The type written before the next token does not depend on the types of names. -/
theorem Typed.writtenType? (h : Typed seed ts s) :
    Scan.writtenType? s.latest = Scan.writtenType? ts.reverse := by
  rw [← List.reverse_reverse s.latest, h.tokens, ← List.map_reverse,
    writtenType?_map (stamp_kind _)]

/-- What the table says of a name is its type. -/
theorem Typed.known (h : Typed seed ts s) {name : String} {type : Ty}
    (hf : s.types.find? name = some type) : type = authority seed ts name := by
  rw [h.types] at hf
  split at hf
  · exact (Option.some.inj hf).symm
  · next ho =>
    rw [authority_of_not_occurs (Bool.eq_false_iff.2 ho), hf]
    rfl

/-- The earlier tokens of other names keep their types. -/
theorem map_stamp_concat {t : Token} (h : ∀ u ∈ ts, u.kind = .identifier →
      u.lexeme = t.lexeme → authority seed (ts ++ [t]) u.lexeme = authority seed ts u.lexeme) :
    ts.map (Token.stamp (authority seed (ts ++ [t]))) =
      ts.map (Token.stamp (authority seed ts)) := by
  refine List.map_congr_left fun u hu => ?_
  unfold Token.stamp
  split
  · next hk =>
    by_cases hl : u.lexeme = t.lexeme
    · rw [h u hu hk hl]
    · rw [authority_other fun _ e => hl e.symm]
  · rfl

/-- A table that gives one more name its type. -/
theorem Typed.types_insert (h : Typed seed ts s) {t : Token} (hk : t.kind = .identifier)
    (name : String) :
    (s.types.insert t.lexeme (authority seed (ts ++ [t]) t.lexeme)).find? name =
      if occurs (ts ++ [t]) name then some (authority seed (ts ++ [t]) name)
      else seed.find? name := by
  rw [Table.find?_insert, occurs_concat]
  by_cases hl : name = t.lexeme
  · simp [hl, hk]
  · have hl' : ¬ t.lexeme = name := fun e => hl e.symm
    rw [if_neg hl, h.types, authority_other fun _ => hl']
    simp [hl']

/-- A table that has the type of the name already. -/
theorem Typed.types_known (h : Typed seed ts s) {t : Token} (hk : t.kind = .identifier)
    (hf : s.types.find? t.lexeme = some (authority seed (ts ++ [t]) t.lexeme)) (name : String) :
    s.types.find? name =
      if occurs (ts ++ [t]) name then some (authority seed (ts ++ [t]) name)
      else seed.find? name := by
  rw [← h.types_insert hk, Table.find?_insert]
  split
  · next hl => rw [hl, hf]
  · rfl

/-- The next token of a name gets its type, and the state is again that of two passes. -/
theorem Typed.typeName (h : Typed seed ts s) {t : Token} (hk : t.kind = .identifier)
    (hline : t.line = s.line) :
    (s.typeName t.lexeme).1 = authority seed (ts ++ [t]) t.lexeme ∧
      (s.typeName t.lexeme).2.latest.reverse =
        ts.map (Token.stamp (authority seed (ts ++ [t]))) ∧
      (∀ name, (s.typeName t.lexeme).2.types.find? name =
        if occurs (ts ++ [t]) name then some (authority seed (ts ++ [t]) name)
        else seed.find? name) ∧
      (s.typeName t.lexeme).2.diagnostics.filter Diagnostic.isRetyped =
        conflicts (authority seed (ts ++ [t])) (ts ++ [t]) := by
  have written := h.writtenType?
  rw [conflicts_concat, if_pos hk, ← h.reports]
  have now := authority_concat seed ts t t.lexeme
  simp only [hk, and_true] at now
  unfold Scan.typeName
  split
  · next hf =>
    -- A new name: none of its tokens is there yet.
    have absent : occurs ts t.lexeme = false := by
      rw [Bool.eq_false_iff]
      intro ho
      rw [h.types, ho] at hf
      cases hf
    have before : seed.find? t.lexeme = none := by
      rw [h.types, absent] at hf
      exact hf
    rw [authority_of_not_occurs absent, before, Option.getD_none, if_pos rfl, ← written] at now
    refine ⟨now.symm, ?_, ?_, ?_⟩
    · rw [map_stamp_concat, h.tokens]
      intro u hu huk hul
      exfalso
      have : occurs ts t.lexeme = true := List.any_eq_true.2 ⟨u, hu, by simp [huk, hul]⟩
      rw [absent] at this
      cases this
    · rw [← now]
      exact h.types_insert hk
    · cases hw : Scan.writtenType? s.latest with
      | none => simp [← written, hw]
      | some type =>
        rw [hw, Option.getD_some] at now
        simp [← written, hw, now]
  · next known hf hw =>
    -- Nothing new is known of the name.
    have hknown := h.known hf
    have same : authority seed (ts ++ [t]) t.lexeme = authority seed ts t.lexeme := by
      rw [now]
      split
      · next hu => rw [← written, hw, hu]; rfl
      · rfl
    refine ⟨by rw [same, hknown], ?_, h.types_known hk (by rw [same, ← hknown, hf]), ?_⟩
    · rw [map_stamp_concat fun u _ _ hl => by rw [hl, same], h.tokens]
    · simp [← written, hw]
  · next type hf hw =>
    -- The type of the name becomes known, and its earlier tokens get it as well.
    have hknown := h.known hf
    rw [if_pos hknown.symm, ← written, hw, Option.getD_some] at now
    refine ⟨now.symm, ?_, ?_, ?_⟩
    · rw [retype_eq, ← List.map_reverse, h.tokens, List.map_map]
      refine List.map_congr_left fun u hu => ?_
      rw [Function.comp_apply, retyped, stamp_kind]
      by_cases huk : u.kind = .identifier
      · have hul : (u.stamp (authority seed ts)).lexeme = u.lexeme := by
          rw [Token.stamp, if_pos huk]
        rw [hul]
        by_cases hl : u.lexeme = t.lexeme
        · rw [if_pos ⟨huk, hl⟩, Token.stamp, Token.stamp, if_pos huk, if_pos huk, hl, now]
        · rw [if_neg fun hc => hl hc.2, Token.stamp, Token.stamp, if_pos huk, if_pos huk,
            authority_other fun _ e => hl e.symm]
      · rw [if_neg fun hc => huk hc.1, Token.stamp, Token.stamp, if_neg huk, if_neg huk]
    · rw [← now]
      exact h.types_insert hk
    · simp [← written, hw, now]
  · next known type hnew hf hw =>
    -- The type of the name was known, and another one may be written.
    have hknown := h.known hf
    have hu : authority seed ts t.lexeme ≠ .unknown := by
      intro hu
      exact hnew (hknown.trans hu)
    rw [if_neg hu] at now
    have tokens : s.latest.reverse = ts.map (Token.stamp (authority seed (ts ++ [t]))) := by
      rw [map_stamp_concat fun u _ _ hl => by rw [hl, now], h.tokens]
    split
    · next he =>
      refine ⟨by rw [now, hknown], tokens, h.types_known hk (by rw [now, ← hknown, hf]), ?_⟩
      simp [← written, hw, now, ← he, hknown]
    · next he =>
      refine ⟨by rw [now, hknown], tokens, h.types_known hk (by rw [now, ← hknown, hf]), ?_⟩
      have he' : ¬ type = authority seed ts t.lexeme := fun e => he (hknown.trans e.symm)
      simp [Scan.report, Diagnostic.isRetyped, ← written, hw, now, he', hline, hknown]

/-- The next token of a name. -/
theorem Typed.emit_name (h : Typed seed ts s) {t : Token} (hk : t.kind = .identifier)
    (hline : t.line = s.line) :
    Typed seed (ts ++ [t])
      ((s.typeName t.lexeme).2.emit { t with type := (s.typeName t.lexeme).1 }) := by
  obtain ⟨htype, hlatest, htypes, hreports⟩ := h.typeName hk hline
  refine ⟨?_, htypes, hreports⟩
  rw [emit, List.reverse_cons, hlatest, List.map_append, htype]
  simp [Token.stamp, hk]

/-- A token that is no name changes no type. -/
theorem addToken_other (s : Scan) {kind : TokenKind} (text : List Char)
    (hk : kind ≠ .identifier) :
    (s.addToken kind text).latest =
        { kind, lexeme := .ofList text, line := s.line, offset := s.offset,
          literal := Piece.literal? text kind } :: s.latest ∧
      (s.addToken kind text).types = s.types ∧
      (s.addToken kind text).diagnostics.filter Diagnostic.isRetyped =
        s.diagnostics.filter Diagnostic.isRetyped := by
  unfold addToken
  dsimp only
  split
  · exact absurd rfl hk
  · unfold integerValue
    dsimp only
    split
    · next h => exact ⟨by simp [emit, Piece.literal?, h], rfl, rfl⟩
    · next h =>
      exact ⟨by simp [emit, Piece.literal?, h, report], rfl,
        by simp [emit, report, Diagnostic.isRetyped]⟩
  · exact ⟨rfl, rfl, rfl⟩
  · exact ⟨rfl, rfl, rfl⟩
  · exact ⟨rfl, rfl, rfl⟩
  · next hint hfloat htrue hfalse =>
    have : Piece.literal? text kind = none := by
      unfold Piece.literal?
      split <;> first | contradiction | rfl
    exact ⟨by rw [emit, this], rfl, rfl⟩

theorem Typed.emit_other (h : Typed seed ts s) {t : Token} {s' : Scan}
    (hk : t.kind ≠ .identifier) (hlatest : s'.latest = t :: s.latest) (htypes : s'.types = s.types)
    (hreports : s'.diagnostics.filter Diagnostic.isRetyped =
      s.diagnostics.filter Diagnostic.isRetyped) : Typed seed (ts ++ [t]) s' := by
  have same : authority seed (ts ++ [t]) = authority seed ts :=
    funext fun _ => authority_other fun e => absurd e hk
  refine ⟨?_, fun name => ?_, ?_⟩
  · rw [hlatest, List.reverse_cons, h.tokens, same, List.map_append]
    simp [Token.stamp, hk]
  · rw [htypes, h.types, same, occurs_concat]
    simp [hk]
  · rw [hreports, h.reports, conflicts_concat, if_neg hk, List.append_nil]

/-- A piece is taken in as two passes would. -/
theorem Typed.step {done : List Piece} (h : Typed seed (Piece.collect Piece.token? [] done) s)
    (place : Spelled done s) (p : Piece) :
    Typed seed (Piece.collect Piece.token? [] (done ++ [p])) (s.step p) := by
  rw [Piece.collect_concat]
  cases p with
  | gap text => simpa [Piece.token?] using ⟨h.tokens, h.types, h.reports⟩
  | stray c =>
    have reports : (s.report (.unexpectedCharacter c) .unplaced).diagnostics.filter
        Diagnostic.isRetyped = s.diagnostics.filter Diagnostic.isRetyped := by
      simp [report, Diagnostic.isRetyped]
    simpa [Piece.token?] using ⟨h.tokens, h.types, reports.trans h.reports⟩
  | token kind text =>
    have here : Piece.token? (Piece.textOf done) (.token kind text) =
        some { kind, lexeme := .ofList text, line := s.line, offset := s.offset,
               literal := Piece.literal? text kind } := by
      rw [place.line, place.offset]
      rfl
    rw [here, Option.toList_some]
    by_cases hk : kind = .identifier
    · subst hk
      have named := h.emit_name
        (t := ⟨.identifier, .ofList text, s.line, s.offset, none, .unknown⟩) rfl rfl
      exact ⟨named.tokens, named.types, named.reports⟩
    · obtain ⟨hlatest, htypes, hreports⟩ := s.addToken_other text hk
      exact h.emit_other hk hlatest htypes hreports

end Scan

/-! ## Scanned texts -/

/-- One pass does the work of two. The tokens of a scan are those that are spelled, and every
name among them has its authoritative type; the table has this type of every name of the text
and has not changed otherwise; and the reports of second types are, in the order of the text, one
for each name behind a type that is not its own. -/
theorem scan_authority (source : String) (seed : NameTypes) :
    (scan source seed).tokens =
        (spelled source).map (Token.stamp (authority seed (spelled source))) ∧
      (∀ name, (scan source seed).types.find? name =
        if occurs (spelled source) name then some (authority seed (spelled source) name)
        else seed.find? name) ∧
      (scan source seed).diagnostics.filter Diagnostic.isRetyped =
        conflicts (authority seed (spelled source)) (spelled source) := by
  have typed : ∀ ps : List Piece,
      Scan.Typed seed (Piece.collect Piece.token? [] ps) (ps.foldl Scan.step (Scan.start seed)) := by
    intro ps
    induction ps using List.reverseRecOn with
    | nil => exact Scan.typed_start seed
    | append_singleton ps p ih =>
      rw [List.foldl_append]
      exact ih.step (Scan.spelled_foldl seed ps) p
  have h := typed (Piece.pieces source.toList)
  have place := Scan.spelled_foldl seed (Piece.pieces source.toList)
  have marked : Scan.Typed seed (spelled source)
      (((Piece.pieces source.toList).foldl Scan.step (Scan.start seed)).emit
        (.endMark (Piece.lineAfter source.toList) source.utf8ByteSize)) :=
    h.emit_other (by simp [Token.endMark]) rfl rfl rfl
  refine ⟨?_, marked.types, marked.reports⟩
  rw [← marked.tokens, scan, place.line, place.offset, Piece.textOf_pieces, String.ofList_toList]
  simp [Scan.emit]

end TickScript
