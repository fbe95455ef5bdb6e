import TickScript.Proofs.Grammar
import TickScript.Token.Scan

/-!
# Types of names

Scanning gives all tokens of a name the same type, whatever scope they stand in. If it has
nothing to report then this is the type that stands before the name in each of its
declarations, and a name of the host has the type that the host gives it.
-/

namespace TickScript

namespace Scan

/-! ## Written types -/

/-- Only types that say something are written. -/
theorem writtenType?_not_wild {ts : List Token} {type : Ty} (h : writtenType? ts = some type) :
    type.isWild = false := by
  have plain : ∀ {kind : TokenKind} {t : Ty}, kind.type? = some t → t.isWild = false ∧
      t.arrayOf.isWild = false := by
    intro kind t ht
    unfold TokenKind.type? at ht
    split at ht <;> cases ht <;> exact ⟨rfl, rfl⟩
  unfold writtenType? at h
  split at h
  · cases h
  · split at h
    · split at h
      · split at h
        · obtain ⟨t, ht, rfl⟩ := Option.map_eq_some_iff.1 h
          exact (plain ht).2
        · cases h
      · cases h
    · exact (plain h).1

/-- Only the kinds of tokens matter for the type that is written. -/
theorem writtenType?_map {f : Token → Token} (hf : ∀ t, (f t).kind = t.kind) (ts : List Token) :
    writtenType? (ts.map f) = writtenType? ts := by
  match ts with
  | [] => rfl
  | [t] => simp [writtenType?, hf]
  | [t, u] => simp [writtenType?, hf]
  | t :: u :: v :: ts => simp [writtenType?, hf]

/-- The token of a name with its new type. -/
def retyped (name : String) (type : Ty) (t : Token) : Token :=
  if t.kind = .identifier ∧ t.lexeme = name then { t with type } else t

theorem retype_eq (name : String) (type : Ty) (tokens : List Token) :
    retype name type tokens = tokens.map (retyped name type) := rfl

theorem retyped_kind (name : String) (type : Ty) (t : Token) :
    (retyped name type t).kind = t.kind := by
  unfold retyped
  split <;> rfl

theorem retyped_line (name : String) (type : Ty) (t : Token) :
    (retyped name type t).line = t.line := by
  unfold retyped
  split <;> rfl

theorem retyped_lexeme (name : String) (type : Ty) (t : Token) :
    (retyped name type t).lexeme = t.lexeme := by
  unfold retyped
  split <;> rfl

/-! ## The invariant of a scan -/

/-- The types in the table are those of the tokens so far and keep those of `seed`. As long as
nothing is reported, a name has the type written before it. -/
structure Stamped (seed : NameTypes) (s : Scan) : Prop where
  line : 1 ≤ s.line
  lines : ∀ t ∈ s.latest, 1 ≤ t.line
  plain : ∀ n, s.types.find? n = some .any → seed.find? n = some .any
  names : ∀ t ∈ s.latest, t.kind = .identifier → s.types.find? t.lexeme = some t.type
  seeds : ∀ n type, seed.find? n = some type → type ≠ .unknown → s.types.find? n = some type
  declared : s.diagnostics = [] → ∀ later t before, s.latest = later ++ t :: before →
    t.kind = .identifier → ∀ type, writtenType? before = some type → t.type = type

variable {seed : NameTypes} {s : Scan}

theorem stamped_start (seed : NameTypes) : Stamped seed (start seed) where
  line := Nat.le_refl 1
  lines := by simp [start]
  plain _ h := h
  names := by simp [start]
  seeds _ _ h _ := h
  declared _ later t before h := by simp [start] at h

theorem Stamped.emit (h : Stamped seed s) {token : Token} (hline : token.line = s.line)
    (hname : token.kind = .identifier → s.types.find? token.lexeme = some token.type)
    (hdeclared : s.diagnostics = [] → token.kind = .identifier →
      ∀ type, writtenType? s.latest = some type → token.type = type) :
    Stamped seed (s.emit token) where
  line := h.line
  lines t ht := by
    rcases List.mem_cons.1 ht with rfl | ht
    · rw [hline]
      exact h.line
    · exact h.lines t ht
  plain := h.plain
  names t ht hk := by
    rcases List.mem_cons.1 ht with rfl | ht
    · exact hname hk
    · exact h.names t ht hk
  seeds := h.seeds
  declared hnone later t before heq hk type hw := by
    cases later with
    | nil =>
      obtain ⟨rfl, rfl⟩ := List.cons.inj heq
      exact hdeclared hnone hk type hw
    | cons u later => exact h.declared hnone later t before (List.cons.inj heq).2 hk type hw

/-- Other tokens than names have no type to keep. -/
theorem Stamped.emit_other (h : Stamped seed s) {token : Token} (hline : token.line = s.line)
    (hk : token.kind ≠ .identifier) : Stamped seed (s.emit token) :=
  h.emit hline (fun e => absurd e hk) fun _ e => absurd e hk

theorem Stamped.report (h : Stamped seed s) (problem : LexProblem) (location : Location) :
    Stamped seed (s.report problem location) :=
  { h with declared := fun hnone => by simp [Scan.report] at hnone }

theorem Stamped.plain_insert (h : Stamped seed s) {name : String} {type : Ty} (hany : type ≠ .any)
    (n : String) (hn : (s.types.insert name type).find? n = some .any) :
    seed.find? n = some .any := by
  rw [Table.find?_insert] at hn
  split at hn
  · cases hn
    exact absurd rfl hany
  · exact h.plain n hn

/-- A name that is seen for the first time. -/
theorem Stamped.insert_new (h : Stamped seed s) {name : String} (hn : s.types.find? name = none)
    {type : Ty} (hany : type ≠ .any) :
    Stamped seed { s with types := s.types.insert name type } where
  line := h.line
  lines := h.lines
  plain := h.plain_insert hany
  names t ht hk := by
    have hfound := h.names t ht hk
    rw [Table.find?_insert, if_neg]
    · exact hfound
    · rintro rfl
      rw [hn] at hfound
      cases hfound
  seeds n type' hs hu := by
    have hfound := h.seeds n type' hs hu
    rw [Table.find?_insert, if_neg]
    · exact hfound
    · rintro rfl
      rw [hn] at hfound
      cases hfound
  declared := h.declared

/-- A name whose type was not known gets one, and so do its earlier tokens. -/
theorem Stamped.insert_known (h : Stamped seed s) {name : String}
    (hn : s.types.find? name = some .unknown) {type : Ty} (hany : type ≠ .any) :
    Stamped seed { s with
      latest := retype name type s.latest
      types := s.types.insert name type } where
  line := h.line
  plain := h.plain_insert hany
  lines t ht := by
    rw [retype_eq] at ht
    obtain ⟨u, hu, rfl⟩ := List.mem_map.1 ht
    rw [retyped_line]
    exact h.lines u hu
  names t ht hk := by
    rw [retype_eq] at ht
    obtain ⟨u, hu, rfl⟩ := List.mem_map.1 ht
    rw [retyped_kind] at hk
    rw [Table.find?_insert, retyped_lexeme]
    unfold retyped
    by_cases e : u.lexeme = name
    · rw [if_pos e, if_pos ⟨hk, e⟩]
    · rw [if_neg e, if_neg fun hc => e hc.2]
      exact h.names u hu hk
  seeds n type' hs hu := by
    have hfound := h.seeds n type' hs hu
    rw [Table.find?_insert, if_neg]
    · exact hfound
    · rintro rfl
      rw [hn] at hfound
      cases hfound
      exact hu rfl
  declared hnone later t before heq hk type' hw := by
    rw [retype_eq] at heq
    obtain ⟨later', rest, hlatest, rfl, hrest⟩ := List.map_eq_append_iff.1 heq
    obtain ⟨t', before', rfl, rfl, rfl⟩ := List.map_eq_cons_iff.1 hrest
    rw [writtenType?_map (retyped_kind name type)] at hw
    rw [retyped_kind] at hk
    have hold := h.declared hnone later' t' before' hlatest hk type' hw
    have hfound := h.names t' (by rw [hlatest]; simp) hk
    -- A token with a written type does not belong to a name of unknown type.
    unfold retyped
    rw [if_neg]
    · exact hold
    · rintro ⟨-, rfl⟩
      rw [hn] at hfound
      have hunknown := hold.symm.trans (Option.some.inj hfound).symm
      have hwild := writtenType?_not_wild hw
      rw [hunknown] at hwild
      cases hwild

theorem Stamped.typeName (h : Stamped seed s) (name : String) :
    Stamped seed (s.typeName name).2 ∧ (s.typeName name).2.line = s.line ∧
      (s.typeName name).2.types.find? name = some (s.typeName name).1 ∧
      ((s.typeName name).2.diagnostics = [] →
        ∀ type, writtenType? (s.typeName name).2.latest = some type →
          (s.typeName name).1 = type) := by
  unfold Scan.typeName
  split
  · next hn =>
    have hany : (writtenType? s.latest).getD .unknown ≠ .any := by
      cases hw : writtenType? s.latest with
      | none => simp
      | some type =>
        rintro rfl
        cases writtenType?_not_wild hw
    refine ⟨h.insert_new hn hany, rfl, Table.find?_insert_self _ _ _, fun _ type hw => ?_⟩
    simp only [hw, Option.getD_some]
  · next known hn hw =>
    refine ⟨h, rfl, hn, fun _ type hw' => ?_⟩
    rw [hw] at hw'
    cases hw'
  · next written hn hw =>
    have hany : written ≠ .any := by
      rintro rfl
      cases writtenType?_not_wild hw
    refine ⟨h.insert_known hn hany, rfl, Table.find?_insert_self _ _ _, fun _ type hw' => ?_⟩
    rw [retype_eq, writtenType?_map (retyped_kind name written), hw] at hw'
    exact Option.some.inj hw'
  · next known written _ hn hw =>
    split
    · next e =>
      refine ⟨h, rfl, hn, fun _ type hw' => ?_⟩
      rw [hw] at hw'
      exact e.trans (Option.some.inj hw')
    · refine ⟨h.report _ _, rfl, hn, fun hnone => ?_⟩
      simp [Scan.report] at hnone

theorem Stamped.addToken (h : Stamped seed s) (kind : TokenKind) (text : List Char) :
    Stamped seed (s.addToken kind text) := by
  unfold Scan.addToken
  dsimp only
  split
  · obtain ⟨hs, hline, hfound, hdeclared⟩ := h.typeName (String.ofList text)
    exact hs.emit hline.symm (fun _ => hfound) fun hnone _ => hdeclared hnone
  · unfold Scan.integerValue
    dsimp only
    split
    · exact h.emit_other rfl (by simp)
    · exact (h.report _ _).emit_other rfl (by simp)
  · exact h.emit_other rfl (by simp)
  · exact h.emit_other rfl (by simp)
  · exact h.emit_other rfl (by simp)
  · next hk _ _ _ _ => exact h.emit_other rfl hk

theorem Stamped.step (h : Stamped seed s) (piece : Piece) : Stamped seed (s.step piece) := by
  have taken : Stamped seed (s.take piece) := by
    unfold Scan.take
    split
    · exact h.addToken _ _
    · exact h
    · exact h.report _ _
  unfold Scan.step Scan.pass
  exact { taken with line := Nat.le_trans taken.line (Nat.le_add_right _ _) }

end Scan

/-! ## The tokens of a source -/

variable {source : String} {types : NameTypes}

/-- The state at the end of a source. -/
theorem scan_stamped (source : String) (types : NameTypes) :
    Scan.Stamped types ((Piece.pieces source.toList).foldl Scan.step (Scan.start types)) :=
  List.foldlRecOn _ _ (Scan.stamped_start types) fun _ h piece _ => h.step piece

/-- No token stands on line zero. -/
theorem scan_line {t : Token} (h : t ∈ (scan source types).tokens) : 1 ≤ t.line := by
  have hs := scan_stamped source types
  rcases List.mem_append.1 h with h | h
  · exact hs.lines t (List.mem_reverse.1 h)
  · rw [List.mem_singleton.1 h]
    exact hs.line

/-- All tokens of a name have the type of the table. -/
theorem scan_type {t : Token} (h : t ∈ (scan source types).tokens) (hk : t.kind = .identifier) :
    (scan source types).types.find? t.lexeme = some t.type := by
  rcases List.mem_append.1 h with h | h
  · exact (scan_stamped source types).names t (List.mem_reverse.1 h) hk
  · rw [List.mem_singleton.1 h] at hk
    cases hk

/-- No name has the type `any` unless it had it beforehand. -/
theorem scan_plain {n : String} (h : types.find? n ≠ some .any) :
    (scan source types).types.find? n ≠ some .any :=
  fun e => h ((scan_stamped source types).plain n e)

/-- A name that was known beforehand keeps its type. -/
theorem scan_seed {n : String} {type : Ty} (h : types.find? n = some type) (hu : type ≠ .unknown) :
    (scan source types).types.find? n = some type :=
  (scan_stamped source types).seeds n type h hu

/-- A declared name has the type of its declaration, if nothing was reported. -/
theorem scan_declared {type : Ty} {name : Token} (hnone : (scan source types).diagnostics = [])
    (h : Declared (scan source types).tokens type name) : name.type = type := by
  have hs := scan_stamped source types
  generalize e : (Piece.pieces source.toList).foldl Scan.step (Scan.start types) = s at hs
  have hdiag : s.diagnostics = [] := by
    rw [← e]
    exact hnone
  have htokens : (scan source types).tokens = s.latest.reverse ++ [.endMark s.line s.offset] := by
    rw [← e]
    rfl
  rw [htokens] at h
  -- The end mark is no name, so it comes behind.
  have latest : ∀ (before : List Token) (kind : name.kind = .identifier),
      before ++ [name] <:+: s.latest.reverse ++ [.endMark s.line s.offset] →
      ∃ later rest, s.latest = later ++ name :: (before.reverse ++ rest) := by
    rintro before kind ⟨a, b, hab⟩
    rcases List.eq_nil_or_concat b with rfl | ⟨b, last, rfl⟩
    · rw [List.append_nil, ← List.append_assoc] at hab
      have := (List.append_inj' hab rfl).2
      rw [List.cons.inj this |>.1] at kind
      cases kind
    · rw [List.concat_eq_append, ← List.append_assoc] at hab
      have hlat := (List.append_inj' hab rfl).1
      refine ⟨b.reverse, a.reverse, ?_⟩
      rw [← List.reverse_reverse s.latest, ← hlat]
      simp
  cases h with
  | @plain keyword _ _ ht hn hi =>
    obtain ⟨later, rest, hl⟩ := latest [keyword] hn hi
    refine hs.declared hdiag later name _ hl hn type ?_
    have hb : keyword.kind ≠ .rightBracket := by
      intro hb
      rw [hb] at ht
      cases ht
    simp [Scan.writtenType?, hb, ht]
  | @array keyword left right _ element ht hv hleft hright hn hi =>
    obtain ⟨later, rest, hl⟩ := latest [keyword, left, right] hn hi
    refine hs.declared hdiag later name _ hl hn _ ?_
    simp [Scan.writtenType?, hleft, hright, ht]

end TickScript
