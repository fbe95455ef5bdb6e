import TickScript.Proofs.Grammar.Accepted
import TickScript.Proofs.Grammar.Derived.Statements

/-!
# Statements that are derived are parsed

A statement that could take one more `else` must not be followed by one. Apart from this a
statement or declaration ends with its last token, whatever follows.
-/

namespace TickScript

open Grammar

namespace Parser

/-- The closing tokens of statements do not go on with an expression. -/
theorem complete_expression_until {kind : TokenKind} (apart : kind ∉ expressionFollow)
    {ts : List Token} {e : Expr} (h : Expression ts e) {finish : Token}
    (hk : finish.kind = kind) {c : Cursor} {rest : List Token}
    (hr : c.rest = ts ++ finish :: rest) :
    Yields expression c fun a c' => a.unnumbered = e ∧ Past c (finish :: rest) c' :=
  complete_expression h hr (stops_of_kind hk apart)

theorem yields_condition {start finish : Expectation} {left right : Token} {ts : List Token}
    {e : Expr} (opens : left.kind = .leftParen) (h : Expression ts e)
    (closes : right.kind = .rightParen) {c : Cursor} {rest : List Token}
    (hr : c.rest = left :: (ts ++ right :: rest)) :
    Yields (condition start finish) c fun a c' => a.unnumbered = e ∧ Past c rest c' := by
  refine yields_bind (yields_expect hr opens ?_)
  refine yields_then (complete_expression_until (by decide) h closes rfl) ?_
  rintro a c₁ ⟨ha, hrest, hlog⟩
  exact yields_bind (yields_expect hrest closes (yields_pure ⟨ha, rfl, hlog⟩))

/-- A statement that begins as an expression does is read as one, at whatever depth. -/
theorem statementWithin_expression {block : Parser (List Stmt)} {c : Cursor}
    (h : Begins expressionKinds c.rest) (depth : Nat) {post : Stmt → Cursor → Prop}
    (hp : Yields expressionStatement c post) : Yields (statementWithin block depth) c post := by
  cases depth with
  | zero => exact hp
  | succ depth =>
    obtain ⟨t, us, hr, hk⟩ := h
    refine yields_bind (yields_peek hr ?_)
    split
    · next e => exact absurd (e ▸ hk) (by decide)
    · next e => exact absurd (e ▸ hk) (by decide)
    · next e => exact absurd (e ▸ hk) (by decide)
    · next e => exact absurd (e ▸ hk) (by decide)
    · next e => exact absurd (e ▸ hk) (by decide)
    · next e => exact absurd (e ▸ hk) (by decide)
    · exact hp

theorem complete_parameter {count : Nat} (hcount : count < maxArguments) (size : Nat) :
    Complete Grammar.Parameter id [] size (parameter count) := by
  intro ts p h _ c rest hr _
  cases h with
  | @mk ts type name typed filled kind =>
    cases typed with
    | @plain t type htype =>
      obtain ⟨s, rfl⟩ := type?_scalar htype filled
      refine yields_bind (yields_peek hr ?_)
      dsimp only
      rw [if_neg (Nat.not_le.2 hcount), htype]
      refine yields_bind (yields_skip hr (yields_bind (yields_bind (yields_leave ?_ ?_))))
      · exact stops_of_kind kind (by decide)
      · refine yields_pure (yields_bind (yields_expect rfl kind ?_))
        exact yields_pure ⟨rfl, rfl, rfl⟩
    | @array t left right type htype solid opens closes =>
      obtain ⟨s, rfl⟩ := type?_scalar htype solid
      refine yields_bind (yields_peek hr ?_)
      dsimp only
      rw [if_neg (Nat.not_le.2 hcount), htype]
      refine yields_bind (yields_skip hr (yields_bind (yields_bind (yields_accept rfl opens ?_))))
      refine yields_bind (yields_expect rfl closes (yields_pure ?_))
      exact yields_bind (yields_expect rfl kind (yields_pure ⟨rfl, rfl, rfl⟩))

theorem complete_scalarInitializer {type : Ty} (plain : ∀ element, type ≠ .array element)
    (size : Nat) :
    Complete (Start type) Initializer.unnumbered expressionFollow size scalarInitializer := by
  intro ts start h _ c rest hr stops
  cases h with
  | zero =>
    refine yields_bind (yields_leave ?_ (yields_pure ⟨rfl, hr, rfl⟩))
    rw [hr]
    exact stops.mono (by decide)
  | value sign h =>
    refine yields_bind (yields_accept hr sign ?_)
    refine yields_then (complete_expression h rfl stops) ?_
    rintro e c₁ ⟨he, hpast⟩
    exact yields_pure ⟨by rw [Initializer.unnumbered, he], hpast⟩
  | elements array sign opens inside closes => exact absurd array (plain _)

theorem complete_arrayInitializer (type : Ty) (size : Nat) :
    Complete (Start type) Initializer.unnumbered expressionFollow size arrayInitializer := by
  intro ts start h _ c rest hr stops
  cases h with
  | zero =>
    refine yields_bind (yields_leave ?_ (yields_pure ⟨rfl, hr, rfl⟩))
    rw [hr]
    exact stops.mono (by decide)
  | value sign h =>
    refine yields_bind (yields_accept hr sign (yields_bind (yields_leave ?_ ?_)))
    · exact stops_of_begins (h.begins.append rest) (by decide)
    refine yields_then (complete_expression h rfl stops) ?_
    rintro e c₁ ⟨he, hpast⟩
    exact yields_pure ⟨by rw [Initializer.unnumbered, he], hpast⟩
  | @elements equals left right ts items element array sign opens inside closes =>
    have hr' : c.rest = equals :: left :: (ts ++ right :: rest) := by simpa using hr
    refine yields_bind (yields_accept hr' sign (yields_bind (yields_accept rfl opens ?_)))
    have expression : Complete Expression Expr.unnumbered expressionFollow (ts.length + 1)
        Parser.expression := fun ts e h _ c rest hr stops => complete_expression h hr stops
    refine yields_then (yields_elements (fun _ _ h => h.begins) expression inside
      (Nat.lt_succ_self _) closes rfl) ?_
    rintro es c₁ ⟨hes, hpast⟩
    exact yields_pure ⟨by rw [Initializer.unnumbered, exprsUnnumbered_eq, hes], hpast⟩

/-- The tokens of a type lead to the name behind it, and with it to the initializers of this
type. -/
theorem yields_typed {block : Parser (List Stmt)} {ts us : List Token} {type : Ty} {name : Token}
    (typed : TypeName ts type) (kind : name.kind = .identifier) {c : Cursor}
    (hr : c.rest = ts ++ name :: us) {post : Stmt → Cursor → Prop}
    (go : ∀ initializer c',
      (∀ size, Complete (Start type) Initializer.unnumbered expressionFollow size initializer) →
      Past c (name :: us) c' → Yields (named block type initializer) c' post) :
    Yields (declarationBody block) c post := by
  cases typed with
  | @plain t type htype =>
    have plain : ∀ element, type ≠ .array element := by
      intro element e
      cases hk : t.kind <;> rw [hk, e] at htype <;> cases htype
    refine yields_bind (yields_peek hr ?_)
    rw [htype]
    refine yields_bind (yields_skip hr (yields_bind (yields_leave ?_ ?_)))
    · exact stops_of_kind kind (by decide)
    · exact go _ _ (complete_scalarInitializer plain) ⟨rfl, rfl⟩
  | @array t left right type htype solid opens closes =>
    refine yields_bind (yields_peek hr ?_)
    rw [htype]
    refine yields_bind (yields_skip hr (yields_bind (yields_accept rfl opens ?_)))
    refine yields_bind (yields_expect rfl closes ?_)
    dsimp only
    rw [if_neg solid]
    exact go _ _ (complete_arrayInitializer _) ⟨rfl, rfl⟩

theorem yields_variable {block : Parser (List Stmt)} {type : Ty} (filled : type ≠ .void)
    {initializer : Parser Initializer}
    (hi : ∀ size, Complete (Start type) Initializer.unnumbered expressionFollow size initializer)
    {name finish : Token} {us : List Token} {start : Initializer}
    (kind : name.kind = .identifier) (starts : Start type us start)
    (ends : finish.kind = .semicolon) {c : Cursor} {rest : List Token}
    (hr : c.rest = name :: (us ++ finish :: rest)) :
    Yields (named block type initializer) c fun s c' =>
      s.unnumbered = .declare name type start ∧ Past c rest c' := by
  refine yields_bind (yields_expect hr kind (yields_bind (yields_leave ?_ ?_)))
  · cases starts with
    | zero => exact stops_of_kind ends (by decide)
    | value sign h => exact stops_of_kind sign (by decide)
    | elements array sign opens inside closes => exact stops_of_kind sign (by decide)
  dsimp only
  rw [if_neg filled]
  refine yields_then (hi _ us start starts (Nat.lt_succ_self _) _ (finish :: rest) rfl
    (stops_of_kind ends (by decide))) ?_
  rintro start' c₁ ⟨hstart, hrest, hlog⟩
  refine yields_bind (yields_expect hrest ends (yields_pure ⟨?_, rfl, hlog⟩))
  rw [Stmt.unnumbered, hstart]

section

variable {block : Parser (List Stmt)} {B : Rule (List Stmt)} {size : Nat}
  (blocks : ∀ ts body, B ts body → ∃ left us, ts = left :: us ∧ left.kind = .leftBrace)
  (hblock : ∀ left us body, B (left :: us) body → us.length < size → ∀ c rest,
    c.rest = us ++ rest →
    Yields block c fun body' c' => body'.map Stmt.unnumbered = body ∧ Past c rest c')

include blocks hblock

/-- A statement of the grammar is read as it was derived. Every statement inside of it is shorter,
so that as many levels as it has tokens are enough. -/
theorem yields_statementWithin {ts : List Token} {s : Stmt} (h : Statement true B ts s) :
    ∀ (depth : Nat) (c : Cursor) (rest : List Token), ts.length ≤ size → ts.length ≤ depth →
      c.rest = ts ++ rest → (isOpen s = true → Stops [.else] rest) →
      Yields (statementWithin block depth) c fun s' c' => s'.unnumbered = s ∧ Past c rest c' := by
  induction h with
  | @expression ts e finish h ends =>
    intro depth c rest _ _ hr _
    have hr' : c.rest = ts ++ finish :: rest := by simpa using hr
    refine statementWithin_expression (hr' ▸ h.begins.append _) depth ?_
    refine yields_then (complete_expression_until (by decide) h ends hr') ?_
    rintro a c₁ ⟨ha, hrest, hlog⟩
    refine yields_bind (yields_expect hrest ends (yields_pure ⟨?_, rfl, hlog⟩))
    rw [Stmt.unnumbered, ha]
  | @returnValue keyword ts e finish kind h ends =>
    intro depth c rest _ hdepth hr _
    obtain ⟨depth, rfl⟩ := Nat.exists_eq_succ_of_ne_zero (Nat.ne_zero_of_lt hdepth)
    have hr' : c.rest = keyword :: (ts ++ finish :: rest) := by simpa using hr
    refine yields_bind (yields_peek hr' ?_)
    rw [kind]
    refine yields_bind (yields_skip hr' ?_)
    obtain ⟨t, us, rfl, ht⟩ := h.begins
    have other : t.kind ≠ .semicolon := fun e => absurd (e ▸ ht) (by decide)
    refine yields_bind (yields_check rfl ?_)
    rw [if_neg (mt of_decide_eq_true other)]
    refine yields_bind (yields_then (complete_expression_until (by decide) h ends rfl) ?_)
    rintro a c₁ ⟨ha, hrest, hlog⟩
    refine yields_pure (yields_bind (yields_expect hrest ends (yields_pure ⟨?_, rfl, hlog⟩)))
    rw [Stmt.unnumbered, Option.map_some, ha]
  | @returnNone keyword finish kind ends =>
    intro depth c rest _ hdepth hr _
    obtain ⟨depth, rfl⟩ := Nat.exists_eq_succ_of_ne_zero (Nat.ne_zero_of_lt hdepth)
    refine yields_bind (yields_peek hr ?_)
    rw [kind]
    refine yields_bind (yields_skip hr (yields_bind (yields_check rfl ?_)))
    rw [if_pos (decide_eq_true ends)]
    refine yields_bind (yields_pure ?_)
    exact yields_bind (yields_expect rfl ends (yields_pure ⟨rfl, rfl, rfl⟩))
  | @«break» keyword finish kind ends =>
    intro depth c rest _ hdepth hr _
    obtain ⟨depth, rfl⟩ := Nat.exists_eq_succ_of_ne_zero (Nat.ne_zero_of_lt hdepth)
    refine yields_bind (yields_peek hr ?_)
    rw [kind]
    refine yields_bind (yields_skip hr ?_)
    exact yields_bind (yields_expect rfl ends (yields_pure ⟨rfl, rfl, rfl⟩))
  | @«continue» keyword finish kind ends =>
    intro depth c rest _ hdepth hr _
    obtain ⟨depth, rfl⟩ := Nat.exists_eq_succ_of_ne_zero (Nat.ne_zero_of_lt hdepth)
    refine yields_bind (yields_peek hr ?_)
    rw [kind]
    refine yields_bind (yields_skip hr ?_)
    exact yields_bind (yields_expect rfl ends (yields_pure ⟨rfl, rfl, rfl⟩))
  | @block ts body h =>
    intro depth c rest hsize hdepth hr _
    obtain ⟨left, us, rfl, kind⟩ := blocks _ _ h
    obtain ⟨depth, rfl⟩ := Nat.exists_eq_succ_of_ne_zero (Nat.ne_zero_of_lt hdepth)
    refine yields_bind (yields_peek hr ?_)
    rw [kind]
    refine yields_bind (yields_skip hr ?_)
    refine yields_then (hblock left us body h hsize _ rest rfl) ?_
    rintro body' c₁ ⟨hbody, hpast⟩
    refine yields_pure ⟨?_, hpast⟩
    rw [Stmt.unnumbered, stmtsUnnumbered_eq, hbody]
  | @ifThen keyword left right ts us test yes kind opens condition closes h ih =>
    intro depth c rest hsize hdepth hr stops
    obtain ⟨depth, rfl⟩ := Nat.exists_eq_succ_of_ne_zero (Nat.ne_zero_of_lt hdepth)
    have hr' : c.rest = keyword :: left :: (ts ++ right :: (us ++ rest)) := by simpa using hr
    simp only [List.length_cons, List.length_append] at hsize hdepth
    refine yields_bind (yields_peek hr' ?_)
    rw [kind]
    refine yields_bind (yields_skip hr' ?_)
    refine yields_then (yields_condition opens condition closes rfl) ?_
    rintro test' c₁ ⟨htest, hrest₁, hlog₁⟩
    refine yields_then (ih depth c₁ rest (by omega) (by omega) hrest₁ fun _ => stops rfl) ?_
    rintro yes' c₂ ⟨hyes, hrest₂, hlog₂⟩
    -- Without an `else` the statement is open itself, and none comes.
    refine yields_bind (yields_leave (by rw [hrest₂]; exact stops rfl) ?_)
    refine yields_pure ⟨?_, hrest₂, hlog₂.trans hlog₁⟩
    rw [Stmt.unnumbered, htest, hyes]
  | @ifElse keyword left right turn ts us vs test yes no kind opens condition closes h takes hturn
      h' ih ih' =>
    intro depth c rest hsize hdepth hr stops
    obtain ⟨depth, rfl⟩ := Nat.exists_eq_succ_of_ne_zero (Nat.ne_zero_of_lt hdepth)
    have hr' : c.rest = keyword :: left :: (ts ++ right :: (us ++ turn :: (vs ++ rest))) := by
      simpa using hr
    simp only [List.length_cons, List.length_append] at hsize hdepth
    refine yields_bind (yields_peek hr' ?_)
    rw [kind]
    refine yields_bind (yields_skip hr' ?_)
    refine yields_then (yields_condition opens condition closes rfl) ?_
    rintro test' c₁ ⟨htest, hrest₁, hlog₁⟩
    -- What has an `else` behind it is not open, so the branch may stop in front of one.
    have closed := takes rfl
    refine yields_then (ih depth c₁ _ (by omega) (by omega) hrest₁ fun opened => ?_) ?_
    · rw [closed] at opened
      cases opened
    rintro yes' c₂ ⟨hyes, hrest₂, hlog₂⟩
    refine yields_bind (yields_accept hrest₂ hturn ?_)
    refine yields_then (ih' depth _ rest (by omega) (by omega) rfl stops) ?_
    rintro no' c₃ ⟨hno, hrest₃, hlog₃⟩
    refine yields_pure ⟨?_, hrest₃, hlog₃.trans (hlog₂.trans hlog₁)⟩
    rw [Stmt.unnumbered, htest, hyes, hno]
  | @«while» keyword left right ts us test body kind opens condition closes h ih =>
    intro depth c rest hsize hdepth hr stops
    obtain ⟨depth, rfl⟩ := Nat.exists_eq_succ_of_ne_zero (Nat.ne_zero_of_lt hdepth)
    have hr' : c.rest = keyword :: left :: (ts ++ right :: (us ++ rest)) := by simpa using hr
    simp only [List.length_cons, List.length_append] at hsize hdepth
    refine yields_bind (yields_peek hr' ?_)
    rw [kind]
    refine yields_bind (yields_skip hr' ?_)
    refine yields_then (yields_condition opens condition closes rfl) ?_
    rintro test' c₁ ⟨htest, hrest₁, hlog₁⟩
    refine yields_then (ih depth c₁ rest (by omega) (by omega) hrest₁ stops) ?_
    rintro body' c₂ ⟨hbody, hrest₂, hlog₂⟩
    refine yields_pure ⟨?_, hrest₂, hlog₂.trans hlog₁⟩
    rw [Stmt.unnumbered, htest, hbody]

omit blocks in
theorem yields_function {type : Ty} {initializer : Parser Initializer} {name left right : Token}
    {us vs : List Token} {parameters : List TickScript.Parameter} {body : List Stmt}
    (kind : name.kind = .identifier) (opens : left.kind = .leftParen)
    (inside : Listed Grammar.Parameter us parameters) (few : parameters.length ≤ 255)
    (closes : right.kind = .rightParen) {brace : Token} (hbrace : brace.kind = .leftBrace)
    (h : B (brace :: vs) body) (hsize : vs.length < size) {c : Cursor} {rest : List Token}
    (hr : c.rest = name :: left :: (us ++ right :: brace :: (vs ++ rest))) :
    Yields (named block type initializer) c fun s c' =>
      s.unnumbered = .function ⟨name, parameters, type⟩ body ∧ Past c rest c' := by
  refine yields_bind (yields_expect hr kind (yields_bind (yields_accept rfl opens ?_)))
  refine yields_then (yields_listUntil (· < maxArguments) (fun n hn => complete_parameter hn _)
    (by decide) (fun _ _ h => h.begins) (by decide) (by decide) inside (Nat.lt_succ_self _)
    (fun i hi => Nat.lt_of_lt_of_le hi few) closes rfl) ?_
  rintro ps c₁ ⟨hps, hrest, hlog⟩
  rw [List.map_id] at hps
  subst hps
  refine yields_bind (yields_expect hrest closes (yields_bind (yields_expect rfl hbrace ?_)))
  refine yields_then (hblock brace vs body h hsize _ rest rfl) ?_
  rintro body' c₂ ⟨hbody, hrest₂, hlog₂⟩
  refine yields_pure ⟨?_, hrest₂, hlog₂.trans hlog⟩
  rw [Stmt.unnumbered, stmtsUnnumbered_eq, hbody]

theorem yields_declarationBody {ts : List Token} {s : Stmt} (h : Declaration true B ts s)
    (hsize : ts.length ≤ size) {c : Cursor} {rest : List Token} (hr : c.rest = ts ++ rest)
    (stops : Stops [.else] rest) :
    Yields (declarationBody block) c fun s' c' => s'.unnumbered = s ∧ Past c rest c' := by
  cases h with
  | @function ts type name left us parameters right vs body typed kind opens inside few closes h =>
    obtain ⟨brace, vs, rfl, hbrace⟩ := blocks _ _ h
    simp only [List.length_append, List.length_cons] at hsize
    have hr' : c.rest = ts ++ name :: left :: (us ++ right :: brace :: (vs ++ rest)) := by
      simpa using hr
    refine yields_typed typed kind hr' ?_
    rintro initializer c₁ _ ⟨hrest, hlog⟩
    refine (yields_function hblock kind opens inside few closes hbrace h (by omega) hrest).mono ?_
    rintro s' c' ⟨hs, hpast⟩
    exact ⟨hs, hpast.1, hpast.2.trans hlog⟩
  | @«variable» ts type name us start finish typed filled kind starts ends =>
    have hr' : c.rest = ts ++ name :: (us ++ finish :: rest) := by simpa using hr
    refine yields_typed typed kind hr' ?_
    rintro initializer c₁ hi ⟨hrest, hlog⟩
    refine (yields_variable filled hi kind starts ends hrest).mono ?_
    rintro s' c' ⟨hs, hpast⟩
    exact ⟨hs, hpast.1, hpast.2.trans hlog⟩
  | statement h =>
    have first := h.begins fun ts body hb => by
      obtain ⟨left, us, rfl, hl⟩ := blocks ts body hb
      exact .cons (List.mem_singleton.2 hl)
    obtain ⟨t, us, rfl, ht⟩ := first
    refine yields_bind (yields_peek hr ?_)
    rw [(show ∀ k ∈ statementKinds, k.type? = none by decide) _ ht]
    refine yields_bind (yields_remaining ?_)
    refine yields_statementWithin blocks hblock h _ c rest hsize ?_ hr fun _ => stops
    rw [hr, List.length_append]
    omega

end

/-! ## Programs -/

/-- A list of declarations may be followed by its end, or in a block by the closing brace. -/
def Ends (inBlock : Bool) (rest : List Token) : Prop :=
  if inBlock then Begins [.rightBrace] rest else rest = []

theorem Ends.stops {inBlock : Bool} {rest : List Token} (h : Ends inBlock rest) :
    Stops [.else] rest := by
  cases inBlock with
  | true => exact stops_of_begins h (by decide)
  | false =>
    intro t us e
    rw [show rest = [] from h] at e
    cases e

/-- Declarations that are derived are read one after the other, and `keeps` holds as long as each
of them keeps it. Reading goes on behind the last of them, where no `else` may stand. -/
theorem yields_many {D : Rule Stmt} {inBlock : Bool} {declaration : Parser (Option Stmt)}
    {size : Nat} (keeps : Cursor → Prop) (begins : ∀ ts s, D ts s → Begins declarationKinds ts)
    (hd : ∀ ts s, D ts s → ts.length ≤ size → ∀ c rest, keeps c → c.rest = ts ++ rest →
      Stops [.else] rest → Yields declaration c fun found c' =>
        ∃ s', found = some s' ∧ s'.unnumbered = s ∧ Past c rest c' ∧ keeps c')
    {ts : List Token} {body : List Stmt} (h : Many D ts body) :
    ∀ (limit : Nat) (ss : List Stmt) (c : Cursor) (rest : List Token)
      (post : List Stmt → Cursor → Prop), ts.length ≤ size → ts.length ≤ limit → keeps c →
      c.rest = ts ++ rest → Stops [.else] rest →
      (∀ limit' ss' c', limit ≤ ts.length + limit' →
        ss'.map Stmt.unnumbered = body.foldl hoist (ss.map Stmt.unnumbered) → Past c rest c' →
        keeps c' → Yields (declarations inBlock declaration limit' ss') c' post) →
      Yields (declarations inBlock declaration limit ss) c post := by
  induction h with
  | nil =>
    intro limit ss c rest post _ _ kept hr _ next
    exact next limit ss c (Nat.le_add_left _ _) rfl ⟨hr, rfl⟩ kept
  | @cons ts us s body item others ih =>
    intro limit ss c rest post hsize hlimit kept hr stops next
    have first := begins _ _ item
    have some_token := first.length_pos
    rw [List.length_append] at hsize hlimit
    obtain ⟨limit, rfl⟩ := Nat.exists_eq_succ_of_ne_zero (Nat.ne_zero_of_lt (by omega : 0 < limit))
    rw [List.append_assoc] at hr
    have follow : Stops [.else] (us ++ rest) := by
      cases others with
      | nil => exact stops
      | cons item' others' =>
        exact stops_of_begins (((begins _ _ item').append _).append _) (by decide)
    rw [declarations]
    obtain ⟨t, vs, rfl, ht⟩ := first
    have other : t.kind ≠ .rightBrace := fun e => absurd (e ▸ ht) (by decide)
    refine yields_bind (yields_check hr ?_)
    rw [if_neg (by simp [other])]
    refine yields_bind (yields_remaining ?_)
    rw [if_neg (by rw [hr]; simp)]
    refine yields_then (hd _ s item (by omega) c _ kept hr follow) ?_
    rintro found c₁ ⟨s', rfl, hs, ⟨hrest, hlog⟩, kept₁⟩
    refine ih limit (hoist ss s') c₁ rest post (by omega) (by omega) kept₁ hrest stops ?_
    intro limit' ss' c₂ hlimit' hss past kept₂
    refine next limit' ss' c₂ ?_ ?_ ⟨past.1, past.2.trans hlog⟩ kept₂
    · rw [List.length_append]
      omega
    · rw [hss, hoist_unnumbered, hs, List.foldl_cons]

/-- At the end of a list of declarations nothing more is read. -/
theorem yields_end {inBlock : Bool} {declaration : Parser (Option Stmt)} {rest : List Token}
    (ends : Ends inBlock rest) (limit : Nat) (ss : List Stmt) {c : Cursor} (hr : c.rest = rest) :
    Yields (declarations inBlock declaration limit ss) c fun ss' c' =>
      ss' = ss ∧ Past c rest c' := by
  have done : Yields (pure ss : Parser (List Stmt)) c fun ss' c' => ss' = ss ∧ Past c rest c' :=
    yields_pure ⟨rfl, hr, rfl⟩
  cases limit with
  | zero => exact done
  | succ limit =>
    rw [declarations]
    cases inBlock with
    | true =>
      obtain ⟨t, us, rfl, ht⟩ := ends
      refine yields_bind (yields_check hr ?_)
      rw [if_pos (by simpa using ht)]
      exact done
    | false =>
      rw [show rest = [] from ends] at hr
      refine yields_bind ⟨false, c, ?_, ?_⟩
      · unfold check
        rw [hr]
      · dsimp only
        rw [if_neg (by simp)]
        refine yields_bind (yields_remaining ?_)
        rw [hr, if_pos List.length_nil]
        exact done

theorem yields_declarations {D : Rule Stmt} {inBlock : Bool} {declaration : Parser (Option Stmt)}
    {size : Nat} (begins : ∀ ts s, D ts s → Begins declarationKinds ts)
    (hd : ∀ ts s, D ts s → ts.length ≤ size → ∀ c rest, c.rest = ts ++ rest → Stops [.else] rest →
      Yields declaration c fun found c' =>
        ∃ s', found = some s' ∧ s'.unnumbered = s ∧ Past c rest c')
    {ts : List Token} {body : List Stmt} (h : Many D ts body) (limit : Nat) (ss : List Stmt)
    (c : Cursor) (rest : List Token) (hsize : ts.length ≤ size) (hlimit : ts.length ≤ limit)
    (hr : c.rest = ts ++ rest) (ends : Ends inBlock rest) :
    Yields (declarations inBlock declaration limit ss) c fun ss' c' =>
      ss'.map Stmt.unnumbered = body.foldl hoist (ss.map Stmt.unnumbered) ∧ Past c rest c' := by
  have each : ∀ ts s, D ts s → ts.length ≤ size → ∀ c rest, True → c.rest = ts ++ rest →
      Stops [.else] rest → Yields declaration c fun found c' =>
        ∃ s', found = some s' ∧ s'.unnumbered = s ∧ Past c rest c' ∧ True := by
    intro ts s h hts c rest _ hr stops
    refine (hd ts s h hts c rest hr stops).mono ?_
    rintro found c' ⟨s', rfl, hs, past⟩
    exact ⟨s', rfl, hs, past, trivial⟩
  refine yields_many (fun _ => True) begins each h limit ss c rest _ hsize hlimit trivial hr
    ends.stops ?_
  rintro limit' ss' c₁ - hss ⟨hrest, hlog⟩ -
  refine (yields_end ends limit' ss' hrest).mono ?_
  rintro ss'' c₂ ⟨rfl, hrest₂, hlog₂⟩
  exact ⟨hss, hrest₂, hlog₂.trans hlog⟩

theorem foldl_hoist (body : List Stmt) : body.foldl hoist [] = functionsFirst body := by
  induction body using List.reverseRecOn with
  | nil => rfl
  | append_singleton body s ih => rw [List.foldl_concat, ih, functionsFirst_snoc]

theorem block_opens {nearest : Bool} (ts : List Token) (body : List Stmt)
    (h : Block nearest ts body) : ∃ left us, ts = left :: us ∧ left.kind = .leftBrace := by
  cases h with
  | mk opens inside closes => exact ⟨_, _, rfl, opens⟩

theorem yields_declaration (depth : Nat) : ∀ ts s, Declaration true (Block true) ts s →
    ts.length < depth → ∀ c rest, c.rest = ts ++ rest → Stops [.else] rest →
    Yields (declaration depth) c fun found c' =>
      ∃ s', found = some s' ∧ s'.unnumbered = s ∧ Past c rest c' := by
  induction depth with
  | zero => exact fun ts s _ h => absurd h (Nat.not_lt_zero _)
  | succ depth ih =>
    intro ts s h hdepth c rest hr stops
    have hblock : ∀ left us body, Block true (left :: us) body → us.length < depth → ∀ c rest,
        c.rest = us ++ rest → Yields (blockOf (declaration depth)) c fun body' c' =>
          body'.map Stmt.unnumbered = body ∧ Past c rest c' := by
      intro left us body h hsize c rest hr
      cases h with
      | @mk _ right ts body opens inside closes =>
        have hr' : c.rest = ts ++ right :: rest := by simpa using hr
        rw [List.length_append] at hsize
        refine yields_bind (yields_remaining ?_)
        refine yields_then (yields_declarations (fun _ _ h => h.begins fun _ _ => Block.begins)
          (fun ts s h hts => ih ts s h (Nat.lt_of_le_of_lt hts (Nat.lt_of_le_of_lt
            (Nat.le_add_right _ _) hsize))) inside _ [] c (right :: rest) (Nat.le_refl _) ?_ hr'
          (.cons (List.mem_singleton.2 closes) : Begins [.rightBrace] _)) ?_
        · rw [hr', List.length_append]
          omega
        rintro body' c₁ ⟨hbody, hrest, hlog⟩
        refine yields_bind (yields_expect hrest closes (yields_pure ⟨?_, rfl, hlog⟩))
        rw [hbody]
        exact foldl_hoist body
    obtain ⟨s', c', hp, hs, hpast⟩ := yields_declarationBody block_opens hblock h
      (Nat.le_of_lt_succ hdepth) hr stops
    refine ⟨some s', c', ?_, s', rfl, hs, hpast⟩
    unfold declaration recover
    rw [hp]

end Parser

/-- The tokens up to the end mark, where a list that has none ends by itself. -/
theorem takeWhile_ended {ts ending : List Token} (inner : ∀ t ∈ ts, t.kind ≠ .eof)
    (ended : ending = [] ∨ Begins [.eof] ending) :
    (ts ++ ending).takeWhile (·.kind ≠ .eof) = ts := by
  rw [List.takeWhile_append_of_pos (by simpa using inner)]
  rcases ended with rfl | ⟨mark, us, rfl, hmark⟩
  · exact List.append_nil ts
  · simp [List.mem_singleton.1 hmark]

/-- Declarations that are derived are parsed without a diagnostic. -/
theorem parse_many {ts ending : List Token} {body : List Stmt} (inner : ∀ t ∈ ts, t.kind ≠ .eof)
    (ended : ending = [] ∨ Begins [.eof] ending)
    (h : Many (Declaration true (Block true)) ts body) :
    (parse (ts ++ ending)).diagnostics = [] ∧
      (parse (ts ++ ending)).statements.map Stmt.unnumbered = functionsFirst body := by
  have hrest : (Cursor.start (ts ++ ending)).rest = ts ++ [] :=
    (takeWhile_ended inner ended).trans (List.append_nil ts).symm
  have run : Parser.Yields Parser.program (Cursor.start (ts ++ ending)) fun ss c' =>
      ss.map Stmt.unnumbered = body.foldl Parser.hoist [] ∧
        Parser.Past (Cursor.start (ts ++ ending)) [] c' := by
    have whole : ts.length ≤ (Cursor.start (ts ++ ending)).rest.length :=
      Nat.le_of_eq (by rw [hrest, List.append_nil])
    refine Parser.yields_bind (Parser.yields_remaining ?_)
    exact Parser.yields_declarations (fun _ _ h => h.begins fun _ _ => Block.begins)
      (fun ts s h hts => Parser.yields_declaration _ ts s h (Nat.lt_succ_of_le hts)) h _ [] _ []
      whole whole hrest rfl
  obtain ⟨ss, c, hp, hss, hpast⟩ := run
  unfold parse
  rw [hp]
  refine ⟨hpast.2, ?_⟩
  rw [Parser.foldl_hoist] at hss
  exact hss

end TickScript
