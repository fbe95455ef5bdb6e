import TickScript.Proofs.Grammar.Derived
import TickScript.Proofs.Grammar.Statements

/-!
# Statements that are parsed are derived

A statement can hold declarations that were rejected and left out. The tokens that a parser passes
over are therefore derived by its rule if nothing has been reported in the end.
-/

namespace TickScript

open Grammar

/-- What was not reported in the end was never reported. -/
theorem Cursor.Leads.clean {all : List Token} {c c' : Cursor}
    (h : c.Leads all c') (clean : c'.log = []) : c.log = [] :=
  List.prefix_nil.1 (clean ▸ h.log)

theorem Grammar.Many.append {α : Type} {R : Rule α} {ts us : List Token} {as bs : List α}
    (h : Many R ts as) (h' : Many R us bs) : Many R (ts ++ us) (as ++ bs) := by
  induction h with
  | nil => exact h'
  | cons item others ih =>
    rw [List.append_assoc]
    exact .cons item ih

theorem Grammar.Many.snoc {α : Type} {R : Rule α} {ts us : List Token} {as : List α}
    {a : α} (h : Many R ts as) (h' : R us a) : Many R (ts ++ us) (as ++ [a]) := by
  have one := Many.cons h' .nil
  rw [List.append_nil] at one
  exact h.append one

namespace Parser

variable {all : List Token} {α β : Type}

/-- If nothing has been reported in the end, the rule derives the tokens between two cursors. -/
def Spans (R : Rule β) (c : Cursor) (b : β) (c' : Cursor) : Prop :=
  c'.log = [] → ∃ ts, c.rest = ts ++ c'.rest ∧ R ts b

/-- The rule without its opening brace. -/
def Behind (R : Rule α) : Rule α := fun ts a =>
  ∀ left : Token, left.kind = .leftBrace → R (left :: ts) a

theorem isOpen_unnumbered : (s : Stmt) → isOpen s.unnumbered = isOpen s
  | .ifElse _ _ _ no => isOpen_unnumbered no
  | .while _ _ body => isOpen_unnumbered body
  | .ifThen _ _ _ => rfl
  | .expression _ => rfl
  | .block _ => rfl
  | .declare _ _ _ => rfl
  | .return _ _ => rfl
  | .break _ => rfl
  | .continue _ => rfl
  | .function _ _ => rfl

theorem derives_condition {start finish : Expectation} {c : Cursor} (on : c.On all) :
    Reads all (condition start finish) c fun e c' => c'.log = c.log ∧
      ∃ left ts right, c.rest = left :: (ts ++ right :: c'.rest) ∧ left.kind = .leftParen ∧
        right.kind = .rightParen ∧ Expression ts e.unnumbered := by
  refine reads_bind (reads_expect on fun left rest hl hkl on₁ => ?_)
  refine reads_then (sound_expression _ on₁) fun e c₂ lead h => ?_
  obtain ⟨log, ts, e₂, h⟩ := h
  refine reads_bind (reads_expect lead.on fun right rest₃ hr hkr on₃ => reads_pure on₃ ?_)
  refine ⟨log, left, ts, right, ?_, hkl, hkr, h⟩
  rw [hl, show rest = ts ++ c₂.rest from e₂, hr]

section

variable {block : Parser (List Stmt)} {B : Rule (List Stmt)} {size : Nat}

theorem derives_expressionStatement {c : Cursor} (on : c.On all) :
    Reads all expressionStatement c fun s c' =>
      Spans (Statement true B) c s.unnumbered c' ∧ (isOpen s = true → Stops [.else] c'.rest) := by
  refine reads_then (sound_expression c on) fun e c₁ lead h => ?_
  obtain ⟨log, ts, e₁, h⟩ := h
  refine reads_bind (reads_expect lead.on fun finish rest hr hk on₂ => reads_pure on₂ ?_)
  refine ⟨fun _ => ⟨ts ++ [finish], ?_, .expression h hk⟩, fun opened => by cases opened⟩
  rw [e₁, hr]
  simp

theorem derives_returnStatement {keyword : Token} (kind : keyword.kind = .return) {c : Cursor}
    (on : c.On all) :
    Reads all (returnStatement keyword) c fun s c' => isOpen s = false ∧
      ∃ ts, c.rest = ts ++ c'.rest ∧ Statement true B (keyword :: ts) s.unnumbered := by
  refine reads_bind (reads_check on fun b => ?_)
  split
  · refine reads_bind (reads_pure on ?_)
    refine reads_bind (reads_expect on fun finish rest hr hk on₂ => reads_pure on₂ ?_)
    exact ⟨rfl, [finish], hr, .returnNone kind hk⟩
  · refine reads_bind (reads_then (sound_expression c on) fun e c₁ lead h => ?_)
    obtain ⟨log, ts, e₁, h⟩ := h
    refine reads_pure lead.on ?_
    refine reads_bind (reads_expect lead.on fun finish rest hr hk on₂ => reads_pure on₂ ?_)
    refine ⟨rfl, ts ++ [finish], ?_, .returnValue kind h hk⟩
    rw [e₁, hr]
    simp

variable (hblock : ∀ c, c.On all → c.rest.length < size → Reads all block c fun body c' =>
  Spans (Behind B) c (body.map Stmt.unnumbered) c')

include hblock

/-- A statement that can take one more `else` is not followed by one. -/
theorem derives_statementWithin (depth : Nat) : ∀ c, c.On all → c.rest.length ≤ size →
    Reads all (statementWithin block depth) c fun s c' =>
      Spans (Statement true B) c s.unnumbered c' ∧ (isOpen s = true → Stops [.else] c'.rest) := by
  induction depth with
  | zero => exact fun c on _ => derives_expressionStatement on
  | succ depth ih =>
    intro c on hsize
    rw [statementWithin]
    refine reads_bind (reads_peek on fun keyword hkeyword => ?_)
    have here : ∀ {kind}, keyword.kind = kind → kind ≠ .eof → ∃ rest, c.rest = keyword :: rest :=
      fun hk hne => hkeyword.resolve_right fun e => hne (hk.symm.trans e)
    have within : ∀ {c'}, c.Leads all c' → c'.rest.length ≤ size :=
      fun lead => Nat.le_trans lead.rest.length_le hsize
    split
    · next hk =>
      obtain ⟨rest, hr⟩ := here hk (by decide)
      refine reads_bind (reads_skip on hr ?_)
      refine reads_then (derives_condition (on.tail hr).on) fun test c₂ lead htest => ?_
      obtain ⟨log₂, left, ts, right, e₂, hkl, hkr, h₂⟩ := htest
      have lead₂ := (on.tail hr).trans lead
      refine reads_then (ih _ lead.on (within lead₂)) fun yes c₃ lead₃ hyes => ?_
      refine reads_bind (reads_acceptAny_stops lead₃.on (fun stops => ?_) fun turn rest₃ ht hkt on₄ => ?_)
      · refine reads_pure lead₃.on ⟨fun clean => ?_, fun _ => stops⟩
        obtain ⟨us, e₃, h₃⟩ := hyes.1 clean
        refine ⟨keyword :: left :: (ts ++ right :: us), ?_, .ifThen hk hkl h₂ hkr h₃⟩
        rw [hr, show rest = left :: (ts ++ right :: c₂.rest) from e₂, e₃]
        simp
      · -- An open branch would have taken the `else`.
        have closed : isOpen yes = false := by
          rw [Bool.eq_false_iff]
          exact fun opened => hyes.2 opened turn rest₃ ht hkt
        have lead₄ := (lead₂.trans lead₃).trans (lead₃.on.tail ht)
        refine reads_then (ih _ on₄ (within lead₄)) fun no c₅ lead₅ hno => ?_
        refine reads_pure lead₅.on ⟨fun clean => ?_, hno.2⟩
        obtain ⟨us, e₃, h₃⟩ := hyes.1 (lead₅.clean clean)
        obtain ⟨vs, e₅, h₅⟩ := hno.1 clean
        refine ⟨keyword :: left :: (ts ++ right :: (us ++ turn :: vs)), ?_,
          .ifElse hk hkl h₂ hkr h₃ (fun _ => (isOpen_unnumbered yes).trans closed)
            (List.mem_singleton.1 hkt) h₅⟩
        rw [hr, show rest = left :: (ts ++ right :: c₂.rest) from e₂, e₃, ht,
          show rest₃ = vs ++ c₅.rest from e₅]
        simp
    · next hk =>
      obtain ⟨rest, hr⟩ := here hk (by decide)
      refine reads_bind (reads_skip on hr ?_)
      refine (derives_returnStatement (B := B) hk (on.tail hr).on).mono fun s c' _ returned => ?_
      obtain ⟨closed, ts, e, h⟩ := returned
      refine ⟨fun _ => ⟨keyword :: ts, ?_, h⟩, fun opened => ?_⟩
      · rw [hr, show rest = ts ++ c'.rest from e, List.cons_append]
      · rw [closed] at opened
        cases opened
    · next hk =>
      obtain ⟨rest, hr⟩ := here hk (by decide)
      refine reads_bind (reads_skip on hr (reads_bind (reads_expect (on.tail hr).on ?_)))
      intro finish rest₂ hf hkf on₂
      refine reads_pure on₂ ⟨fun _ => ⟨[keyword, finish], ?_, .break hk hkf⟩,
        fun opened => by cases opened⟩
      rw [hr, show rest = finish :: rest₂ from hf]
      rfl
    · next hk =>
      obtain ⟨rest, hr⟩ := here hk (by decide)
      refine reads_bind (reads_skip on hr (reads_bind (reads_expect (on.tail hr).on ?_)))
      intro finish rest₂ hf hkf on₂
      refine reads_pure on₂ ⟨fun _ => ⟨[keyword, finish], ?_, .continue hk hkf⟩,
        fun opened => by cases opened⟩
      rw [hr, show rest = finish :: rest₂ from hf]
      rfl
    · next hk =>
      obtain ⟨rest, hr⟩ := here hk (by decide)
      refine reads_bind (reads_skip on hr ?_)
      refine reads_then (derives_condition (on.tail hr).on) fun test c₂ lead htest => ?_
      obtain ⟨log₂, left, ts, right, e₂, hkl, hkr, h₂⟩ := htest
      have lead₂ := (on.tail hr).trans lead
      refine reads_then (ih _ lead.on (within lead₂)) fun body c₃ lead₃ hbody => ?_
      refine reads_pure lead₃.on ⟨fun clean => ?_, hbody.2⟩
      obtain ⟨us, e₃, h₃⟩ := hbody.1 clean
      refine ⟨keyword :: left :: (ts ++ right :: us), ?_, .while hk hkl h₂ hkr h₃⟩
      rw [hr, show rest = left :: (ts ++ right :: c₂.rest) from e₂, e₃]
      simp
    · next hk =>
      obtain ⟨rest, hr⟩ := here hk (by decide)
      refine reads_bind (reads_skip on hr ?_)
      have shorter : rest.length < size := by
        rw [hr, List.length_cons] at hsize
        omega
      refine reads_then (hblock _ (on.tail hr).on shorter) fun body c₂ lead hbody => ?_
      refine reads_pure lead.on ⟨fun clean => ?_, fun opened => by cases opened⟩
      obtain ⟨ts, e₂, h₂⟩ := hbody clean
      refine ⟨keyword :: ts, ?_, ?_⟩
      · rw [hr, show rest = ts ++ c₂.rest from e₂, List.cons_append]
      · rw [Stmt.unnumbered, stmtsUnnumbered_eq]
        exact .block (h₂ keyword hk)
    · exact derives_expressionStatement on

end

/-! ## Declarations -/

theorem type?_scalar {kind : TokenKind} {type : Ty} (h : kind.type? = some type)
    (hv : type ≠ .void) : ∃ s, type = .scalar s := by
  cases kind <;> cases h <;> first | exact absurd rfl hv | exact ⟨_, rfl⟩

theorem sound_parameter (count : Nat) {c : Cursor} (on : c.On all) :
    Reads all (parameter count) c fun p c' =>
      Spells Grammar.Parameter c p c' ∧ count < maxArguments := by
  refine reads_bind (reads_peek on fun token htoken => ?_)
  dsimp only
  split
  · exact reads_bind (reads_reject on)
  next hcount =>
  split
  · exact reads_reject on
  · exact reads_reject on
  next type hvoid htype =>
  have hv : type ≠ .void := fun e => hvoid (e ▸ rfl)
  obtain ⟨rest, hr⟩ := htoken.resolve_right (type?_eof htype)
  refine reads_bind (reads_skip on hr (reads_bind (reads_bind (reads_accept (on.tail hr).on ?_ ?_))))
  · refine reads_pure (on.tail hr).on (reads_bind (reads_expect (on.tail hr).on ?_))
    intro name rest₁ hname hk on₁
    refine reads_pure on₁ ⟨⟨rfl, [token] ++ [name], ?_, .mk (.plain htype) hv hk⟩,
      Nat.lt_of_not_le hcount⟩
    rw [hr, show rest = name :: rest₁ from hname]
    rfl
  · intro left rest₁ hl hkl on₁
    refine reads_bind (reads_expect on₁ fun right rest₂ hright hkr on₂ => ?_)
    refine reads_pure on₂ (reads_bind (reads_expect on₂ ?_))
    intro name rest₃ hname hk on₃
    refine reads_pure on₃ ⟨⟨rfl, [token, left, right] ++ [name], ?_,
      .mk (.array htype hv hkl hkr) (type?_arrayOf htype hv) hk⟩, Nat.lt_of_not_le hcount⟩
    rw [hr, show rest = left :: rest₁ from hl, show rest₁ = right :: rest₂ from hright,
      show rest₂ = name :: rest₃ from hname]
    rfl

theorem sound_scalarInitializer (type : Ty) :
    Sound all (Start type) Initializer.unnumbered scalarInitializer := by
  intro c on
  refine reads_bind (reads_accept on ?_ fun equals rest hr hk on₁ => ?_)
  · exact reads_pure on ⟨rfl, [], rfl, .zero⟩
  · refine reads_then (sound_expression _ on₁) fun e c₂ lead h => reads_pure lead.on ?_
    obtain ⟨log, ts, e₂, h⟩ := h
    refine ⟨log, equals :: ts, ?_, .value hk h⟩
    rw [hr, show rest = ts ++ c₂.rest from e₂, List.cons_append]

theorem sound_arrayInitializer (element : Scalar) :
    Sound all (Start (.array element)) Initializer.unnumbered arrayInitializer := by
  intro c on
  refine reads_bind (reads_accept on ?_ fun equals rest hr hk on₁ => ?_)
  · exact reads_pure on ⟨rfl, [], rfl, .zero⟩
  refine reads_bind (reads_accept on₁ ?_ fun left rest₁ hl hkl on₂ => ?_)
  · refine reads_then (sound_expression _ on₁) fun e c₂ lead h => reads_pure lead.on ?_
    obtain ⟨log, ts, e₂, h⟩ := h
    refine ⟨log, equals :: ts, ?_, .value hk h⟩
    rw [hr, show rest = ts ++ c₂.rest from e₂, List.cons_append]
  · refine reads_then (derives_elements (fun _ _ h => h.begins.length_pos) sound_expression on₂)
      fun items c₃ lead h => reads_pure lead.on ?_
    obtain ⟨log, ts, right, e₃, hkr, h⟩ := h
    refine ⟨log, equals :: left :: (ts ++ [right]), ?_, ?_⟩
    · rw [hr, show rest = left :: rest₁ from hl, show rest₁ = ts ++ right :: c₃.rest from e₃]
      simp
    · rw [Initializer.unnumbered, exprsUnnumbered_eq]
      exact .elements rfl hk hkl h hkr

section

variable {block : Parser (List Stmt)} {B : Rule (List Stmt)} {size : Nat}
  (hblock : ∀ c, c.On all → c.rest.length < size → Reads all block c fun body c' =>
    Spans (Behind B) c (body.map Stmt.unnumbered) c')

include hblock

/-- A declaration behind the tokens `front` of its type. -/
theorem derives_named {front : List Token} {type : Ty} (htype : TypeName front type)
    {initializer : Parser Initializer}
    (hi : Sound all (Start type) Initializer.unnumbered initializer) {c : Cursor} (on : c.On all)
    (hsize : c.rest.length ≤ size) :
    Reads all (named block type initializer) c fun s c' =>
      Spans (fun ts => Declaration true B (front ++ ts)) c s.unnumbered c' := by
  refine reads_bind (reads_expect on fun name rest hr hk on₁ => ?_)
  refine reads_bind (reads_accept on₁ ?_ fun left rest₁ hl hkl on₂ => ?_)
  · dsimp only
    split
    · exact reads_bind (reads_reject on₁)
    next hv =>
    refine reads_then (hi _ on₁) fun start c₂ lead h => ?_
    obtain ⟨log, ts, e₂, h⟩ := h
    refine reads_bind (reads_expect lead.on fun finish rest₃ hf hkf on₃ => reads_pure on₃ ?_)
    refine fun _ => ⟨name :: (ts ++ [finish]), ?_, .variable htype hv hk h hkf⟩
    rw [hr, show rest = ts ++ c₂.rest from e₂, hf]
    simp
  · refine reads_then (derives_listUntil id (· < maxArguments) (fun _ _ h => h.begins.length_pos)
      (fun n c on => sound_parameter n on) on₂) fun ps c₃ lead hps => ?_
    rw [List.map_id] at hps
    obtain ⟨⟨log, ts, e₃, h₃⟩, few⟩ := hps
    refine reads_bind (reads_expect lead.on fun right rest₄ hright hkr on₄ => ?_)
    refine reads_bind (reads_expect on₄ fun brace rest₅ hb hkb on₅ => ?_)
    have shorter : rest₅.length < size := by
      have := lead.rest.length_le
      dsimp only at this
      rw [hr, List.length_cons, show rest = left :: rest₁ from hl, List.length_cons] at hsize
      rw [hright, List.length_cons, show rest₄ = brace :: rest₅ from hb, List.length_cons] at this
      omega
    refine reads_then (hblock _ on₅ shorter) fun body c₆ lead₆ hbody => ?_
    refine reads_pure lead₆.on fun clean => ?_
    obtain ⟨us, e₆, h₆⟩ := hbody clean
    refine ⟨name :: left :: (ts ++ right :: brace :: us), ?_, ?_⟩
    · rw [hr, show rest = left :: rest₁ from hl, show rest₁ = ts ++ c₃.rest from e₃, hright,
        show rest₄ = brace :: rest₅ from hb, show rest₅ = us ++ c₆.rest from e₆]
      simp
    · rw [Stmt.unnumbered, stmtsUnnumbered_eq]
      exact .function htype hk hkl h₃ (length_le_of_allowed few) hkr (h₆ brace hkb)

theorem derives_declarationBody {c : Cursor} (on : c.On all) (hsize : c.rest.length ≤ size) :
    Reads all (declarationBody block) c fun s c' =>
      Spans (Declaration true B) c s.unnumbered c' := by
  refine reads_bind (reads_peek on fun token htoken => ?_)
  split
  · next type htype =>
    obtain ⟨rest, hr⟩ := htoken.resolve_right (type?_eof htype)
    have within : rest.length ≤ size := by
      rw [hr, List.length_cons] at hsize
      omega
    refine reads_bind (reads_skip on hr (reads_bind (reads_accept (on.tail hr).on ?_ ?_)))
    · refine (derives_named hblock (.plain htype) (sound_scalarInitializer type) (on.tail hr).on
        within).mono fun s c' _ h clean => ?_
      obtain ⟨ts, e, h⟩ := h clean
      refine ⟨[token] ++ ts, ?_, h⟩
      rw [hr, show rest = ts ++ c'.rest from e]
      rfl
    · intro left rest₁ hl hkl on₁
      refine reads_bind (reads_expect on₁ fun right rest₂ hright hkr on₂ => ?_)
      dsimp only
      split
      · exact reads_bind (reads_reject on₂)
      next hv =>
      obtain ⟨element, rfl⟩ := type?_scalar htype hv
      have within₂ : rest₂.length ≤ size := by
        rw [show rest = left :: rest₁ from hl, List.length_cons,
          show rest₁ = right :: rest₂ from hright, List.length_cons] at within
        omega
      refine (derives_named hblock (.array htype hv hkl hkr) (sound_arrayInitializer element) on₂
        within₂).mono fun s c' _ h clean => ?_
      obtain ⟨ts, e, h⟩ := h clean
      refine ⟨[token, left, right] ++ ts, ?_, h⟩
      rw [hr, show rest = left :: rest₁ from hl, show rest₁ = right :: rest₂ from hright,
        show rest₂ = ts ++ c'.rest from e]
      rfl
  · refine reads_bind (reads_remaining on ?_)
    refine (derives_statementWithin hblock _ c on hsize).mono fun s c' _ h clean => ?_
    obtain ⟨ts, e, h⟩ := h.1 clean
    exact ⟨ts, e, .statement h⟩

end

/-! ## Programs -/

/-- A list of declarations as a program runs it. -/
def Arranged (D : Rule Stmt) : Rule (List Stmt) := fun ts tree =>
  ∃ body, Many D ts body ∧ tree = functionsFirst body

theorem functionsFirst_snoc (body : List Stmt) (s : Stmt) :
    functionsFirst (body ++ [s]) = hoist (functionsFirst body) s := by
  unfold functionsFirst hoist
  cases hs : s.isFunction <;> simp [hs]

theorem isFunction_unnumbered (s : Stmt) : s.unnumbered.isFunction = s.isFunction := by
  cases s <;> rfl

theorem hoist_unnumbered (ss : List Stmt) (s : Stmt) :
    (hoist ss s).map Stmt.unnumbered = hoist (ss.map Stmt.unnumbered) s.unnumbered := by
  unfold hoist
  rw [isFunction_unnumbered]
  split <;> simp

/-- The declarations behind `c₀` go on at `c`. If there are few enough of them, they go on to the
end. -/
theorem derives_declarations {D : Rule Stmt} {inBlock : Bool} {declaration : Parser (Option Stmt)}
    {size : Nat} (nonempty : ∀ ts s, D ts s → 0 < ts.length)
    (hd : ∀ c, c.On all → c.rest.length ≤ size → Reads all declaration c fun found c' =>
      c'.log = [] → ∃ s, found = some s ∧ Spans D c s.unnumbered c') (c₀ : Cursor)
    (limit : Nat) : ∀ (ss : List Stmt) (c : Cursor), c.On all → c.rest.length ≤ size →
      Spans (Arranged D) c₀ (ss.map Stmt.unnumbered) c → (c.log = [] → c.rest.length ≤ limit) →
      Reads all (declarations inBlock declaration limit ss) c fun ss' c' =>
        Spans (Arranged D) c₀ (ss'.map Stmt.unnumbered) c' ∧
          (c'.log = [] → inBlock = false → c'.rest = []) := by
  induction limit with
  | zero =>
    intro ss c on _ h few
    refine reads_pure on ⟨h, fun clean _ => ?_⟩
    exact List.eq_nil_of_length_eq_zero (Nat.le_zero.1 (few clean))
  | succ limit ih =>
    intro ss c on hsize h few
    rw [declarations]
    refine reads_bind (reads_check on fun b => ?_)
    split
    · next hb =>
      refine reads_pure on ⟨h, fun _ out => ?_⟩
      rw [out] at hb
      cases hb
    refine reads_bind (reads_remaining on ?_)
    split
    · next hzero => exact reads_pure on ⟨h, fun _ _ => List.eq_nil_of_length_eq_zero hzero⟩
    refine reads_then (hd c on hsize) fun found c₁ lead hfound => ?_
    have hsize₁ := Nat.le_trans lead.rest.length_le hsize
    cases found with
    | none =>
      have reported : c₁.log ≠ [] := fun clean => by
        obtain ⟨s, hs, -⟩ := hfound clean
        cases hs
      refine ih ss c₁ lead.on hsize₁ (fun clean => absurd clean reported)
        fun clean => absurd clean reported
    | some s =>
      have next : c₁.log = [] → ∃ ts, c.rest = ts ++ c₁.rest ∧ D ts s.unnumbered := by
        intro clean
        obtain ⟨s', hs, spans⟩ := hfound clean
        cases hs
        exact spans clean
      refine ih (hoist ss s) c₁ lead.on hsize₁ (fun clean => ?_) fun clean => ?_
      · obtain ⟨ts, e, body, hbody, htree⟩ := h (lead.clean clean)
        obtain ⟨us, e', hs⟩ := next clean
        refine ⟨ts ++ us, by rw [e, e', List.append_assoc], body ++ [s.unnumbered],
          hbody.snoc hs, ?_⟩
        rw [hoist_unnumbered, htree, functionsFirst_snoc]
      · obtain ⟨us, e, hs⟩ := next clean
        have := few (lead.clean clean)
        have := nonempty us _ hs
        rw [e, List.length_append] at *
        omega

theorem arranged_nil {D : Rule Stmt} (c : Cursor) : Spans (Arranged D) c [] c :=
  fun _ => ⟨[], rfl, [], .nil, rfl⟩

/-- The induction is on the bound that ties the knot. The blocks in a declaration are shorter than
the declaration. -/
theorem derives_declaration (depth : Nat) : ∀ c, c.On all → c.rest.length < depth →
    Reads all (declaration depth) c fun found c' => c'.log = [] →
      ∃ s, found = some s ∧ Spans (Declaration true (Block true)) c s.unnumbered c' := by
  induction depth with
  | zero => exact fun c on h => absurd h (Nat.not_lt_zero _)
  | succ depth ih =>
    intro c on hdepth
    have hblock : ∀ c, c.On all → c.rest.length < depth →
        Reads all (blockOf (declaration depth)) c fun body c' =>
          Spans (Behind (Block true)) c (body.map Stmt.unnumbered) c' := by
      intro c on hsize
      refine reads_bind (reads_remaining on ?_)
      refine reads_then (derives_declarations (fun _ _ h => (h.begins fun _ _ => Block.begins).length_pos)
        (fun c' on' h' => ih c' on' (Nat.lt_of_le_of_lt h' hsize)) c _ [] c on (Nat.le_refl _)
        (arranged_nil c) fun _ => Nat.le_refl _) fun body c₁ lead h => ?_
      refine reads_bind (reads_expect lead.on fun right rest hr hk on₂ => reads_pure on₂ ?_)
      intro clean
      obtain ⟨ts, e, inside, hinside, htree⟩ := h.1 clean
      refine ⟨ts ++ [right], ?_, fun left hl => ?_⟩
      · rw [e, hr]
        simp
      · rw [htree]
        exact .mk hl hinside hk
    have body := derives_declarationBody hblock on (Nat.le_of_lt_succ hdepth)
    unfold Reads declaration recover
    cases hp : declarationBody (blockOf (declaration depth)) c with
    | ok s c' =>
      obtain ⟨lead, h⟩ := body.of_ok hp
      exact ⟨lead, fun _ => ⟨s, rfl, h⟩⟩
    | error r c' =>
      have lead := body.of_error hp
      have logged : c.Leads all { c' with log := c'.log ++ [r.diagnostic] } :=
        ⟨⟨lead.on.rest, lead.on.mark⟩, lead.rest, lead.nextId,
          lead.log.trans (List.prefix_append _ _)⟩
      have behind := synchronize_leads logged.on
      refine ⟨logged.trans behind, fun clean => ?_⟩
      have : c'.log ++ [r.diagnostic] = [] := behind.clean clean
      exact absurd this (by simp)

end Parser

/-- If nothing is reported, the grammar derives the declarations up to the end mark, and the answer
is their tree. -/
theorem parse_arranged {tokens : List Token} (clean : (parse tokens).diagnostics = []) :
    Parser.Arranged (Declaration true (Block true)) (tokens.takeWhile (·.kind ≠ .eof))
      ((parse tokens).statements.map Stmt.unnumbered) := by
  have on := Cursor.start_on tokens
  have hrest : (Cursor.start tokens).rest = tokens.takeWhile (·.kind ≠ .eof) := rfl
  have run : Parser.Reads (tokens.takeWhile (·.kind ≠ .eof)) Parser.program (Cursor.start tokens)
      fun ss c' => Parser.Spans (Parser.Arranged (Declaration true (Block true)))
        (Cursor.start tokens) (ss.map Stmt.unnumbered) c' ∧
        (c'.log = [] → false = false → c'.rest = []) := by
    refine Parser.reads_bind (Parser.reads_remaining on ?_)
    exact Parser.derives_declarations (fun _ _ h => (h.begins fun _ _ => Block.begins).length_pos)
      (fun c' on' h' => Parser.derives_declaration _ c' on' (Nat.lt_succ_of_le h')) _ _ [] _ on
      (Nat.le_refl _) (Parser.arranged_nil _) fun _ => Nat.le_refl _
  unfold parse at clean ⊢
  cases hp : Parser.program (Cursor.start tokens) with
  | error r c =>
    rw [hp] at clean
    exact absurd clean (by simp)
  | ok ss c =>
    rw [hp] at clean
    obtain ⟨-, spans, finished⟩ := run.of_ok hp
    obtain ⟨us, e, arranged⟩ := spans clean
    rw [hrest, finished clean rfl, List.append_nil] at e
    rw [e]
    exact arranged

end TickScript
