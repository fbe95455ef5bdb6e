import TickScript.Proofs.Layout
import TickScript.Proofs.Resolver

/-!
# Statements without reports

The scopes of the resolver have the names that the layout of a place says, and a walk over
statements keeps it so: behind each statement they are those of the place behind it.
-/

namespace TickScript

/-- The numbers of the expressions of a statement. -/
def Stmt.ids (s : Stmt) : List ExprId :=
  s.nodes.map Expr.id

/-- The numbers of the expressions of statements. -/
def stmtsIds (ss : List Stmt) : List ExprId :=
  (stmtsNodes ss).map Expr.id

namespace Stmt

variable {keyword : Token} {test : Expr} {yes no body : Stmt}

theorem ids_ifThen : (ifThen keyword test yes).ids = test.ids ++ yes.ids := by
  simp [ids, Expr.ids]

theorem ids_ifElse : (ifElse keyword test yes no).ids = test.ids ++ yes.ids ++ no.ids := by
  simp [ids, Expr.ids]

theorem ids_while : (Stmt.while keyword test body).ids = test.ids ++ body.ids := by
  simp [ids, Expr.ids]

end Stmt

theorem stmtsIds_cons (s : Stmt) (ss : List Stmt) : stmtsIds (s :: ss) = s.ids ++ stmtsIds ss := by
  simp [Stmt.ids, stmtsIds]

/-- The place behind statements. -/
def Layout.afterAll (L : Layout) (ss : List Stmt) : Layout :=
  ss.foldl Layout.after L

namespace Layout

theorem after_cons (L : Layout) (f : Frame) (fs : List Frame) (h : L.own = f :: fs) (s : Stmt) :
    ∃ f', L.after s = { L with own := f' :: fs } := by
  unfold after
  cases s.binds? with
  | none => exact ⟨f, by rw [← h]⟩
  | some name => exact ⟨f.add name, by simp only [add, h]⟩

/-- In a block only the scope of the block itself gets new names. -/
theorem afterAll_cons (ss : List Stmt) : ∀ (L : Layout) (f : Frame) (fs : List Frame),
    L.own = f :: fs → ∃ f', L.afterAll ss = { L with own := f' :: fs } := by
  induction ss with
  | nil =>
    intro L f fs h
    exact ⟨f, by rw [← h]; rfl⟩
  | cons s ss ih =>
    intro L f fs h
    obtain ⟨f₁, h₁⟩ := L.after_cons f fs h s
    obtain ⟨f₂, h₂⟩ := ih (L.after s) f₁ fs (by rw [h₁])
    refine ⟨f₂, ?_⟩
    show (L.after s).afterAll ss = _
    rw [h₂, h₁]

theorem after_of_none {L : Layout} {s : Stmt} (h : s.binds? = none) : L.after s = L := by
  simp [after, h]

end Layout

namespace Table

variable {α : Type}

theorem contains_insert_eq (table : Table String α) (name : String) (value : α) :
    (table.insert name value).contains = Frame.add name table.contains := by
  funext n
  exact contains_insert table name n value

/-- A name that is there already changes nothing. -/
theorem contains_insert_of_contains {table : Table String α} {name : String} (value : α)
    (h : table.contains name = true) : (table.insert name value).contains = table.contains := by
  funext n
  rw [contains_insert]
  by_cases hn : n = name
  · simp [hn, h]
  · simp [hn]

end Table

namespace Resolve

/-- The state of the resolver belongs to the place `L`. -/
structure Fits (ctx : Context) (L : Layout) (r : Resolver) : Prop where
  frames : r.scopes.map Table.contains = L.frames
  top : r.globals.contains = L.top
  base : ctx.base = L.outer.length
  inFunction : L.inFunction = ctx.returnType.isSome
  whole : L.own = [] → L.outer = []

namespace Fits

variable {ctx : Context} {L : Layout} {r r' : Resolver}

theorem of_passed {ids : List ExprId} (h : Fits ctx L r) (hp : Passed ids r r') :
    Fits ctx L r' :=
  { h with frames := by rw [hp.scopes]; exact h.frames, top := by rw [hp.globals]; exact h.top }

theorem isEmpty (h : Fits ctx L r) : r.scopes.isEmpty = true ↔ L.own = [] := by
  have hl := congrArg List.length h.frames
  rw [List.isEmpty_iff, ← List.length_eq_zero_iff, ← List.length_eq_zero_iff]
  simp only [List.length_map, Layout.frames, List.length_append] at hl
  constructor
  · intro e
    omega
  · intro e
    rw [h.whole (List.length_eq_zero_iff.1 e)] at hl
    simp only [List.length_nil] at hl
    omega

end Fits

/-! ## Declarations -/

/-- A declaration in the outermost scope. -/
theorem declare_outermost (ctx : Context) (name : Token) {r : Resolver}
    (h : r.scopes.isEmpty = true) :
    declare ctx name r =
      if r.globals.contains name.lexeme then report (.alreadyDefined name.lexeme) name r
      else ((), { r with globals := r.globals.insert name.lexeme .declared }) := by
  show (if r.scopes.isEmpty = true then _ else _ : Resolve Unit) r = _
  rw [if_pos h]
  split <;> rfl

/-- A declaration in any other scope. -/
theorem declare_inner (ctx : Context) (name : Token) {r : Resolver}
    (h : ¬ r.scopes.isEmpty = true) :
    declare ctx name r = insert name.lexeme .declared
      (require (!(r.scopes.take (r.scopes.length - ctx.base)).any (·.contains name.lexeme))
        (.alreadyDeclared name.lexeme) name r).2 := by
  show (if r.scopes.isEmpty = true then _ else _ : Resolve Unit) r = _
  rw [if_neg h]
  rfl

theorem insert_eq (name : String) (binding : Binding) (r : Resolver) :
    insert name binding r = ((), match r.scopes with
      | [] => r
      | scope :: outer => { r with scopes := scope.insert name binding :: outer }) :=
  rfl

theorem insert_cons (name : String) (binding : Binding) {r : Resolver}
    {scope : Table String Binding} {outer : List (Table String Binding)}
    (h : r.scopes = scope :: outer) :
    insert name binding r = ((), { r with scopes := scope.insert name binding :: outer }) := by
  rw [insert_eq, h]

theorem insert_diagnostics (name : String) (binding : Binding) (r : Resolver) :
    (insert name binding r).2.diagnostics = r.diagnostics := by
  rw [insert_eq]
  split <;> rfl

/-- The scopes of the function around a place are its own ones. -/
theorem Fits.own {ctx : Context} {L : Layout} {r : Resolver} (fits : Fits ctx L r) :
    (r.scopes.take (r.scopes.length - ctx.base)).map Table.contains = L.own := by
  have hl := congrArg List.length fits.frames
  simp only [List.length_map, Layout.frames, List.length_append] at hl
  rw [List.map_take, fits.frames, fits.base, hl, Nat.add_sub_cancel, Layout.frames,
    List.take_left]

/-- Declaring a name that is new leads to the place with this name. -/
theorem declare_clean {ctx : Context} {L : Layout} {name : Token} {r : Resolver}
    (fits : Fits ctx L r) (h : (declare ctx name r).2.diagnostics = []) :
    r.diagnostics = [] ∧ L.declares name.lexeme = false ∧
      (declare ctx name r).2.distances = r.distances ∧
      Fits ctx (L.add name.lexeme) (declare ctx name r).2 := by
  by_cases he : r.scopes.isEmpty = true
  · have hown := fits.isEmpty.1 he
    rw [declare_outermost ctx name he] at h ⊢
    split at h
    · exact absurd h (report_ne_nil _ _ _)
    · next hc =>
      rw [if_neg hc]
      refine ⟨h, ?_, rfl, ?_⟩
      · simp only [Layout.declares, hown, ← fits.top]
        exact Bool.eq_false_iff.2 hc
      · have hadd : L.add name.lexeme = { L with top := L.top.add name.lexeme } := by
          simp only [Layout.add, hown]
        rw [hadd]
        exact { fits with top := by rw [← fits.top]; exact Table.contains_insert_eq _ _ _ }
  · have hown : L.own ≠ [] := fun e => he (fits.isEmpty.2 e)
    rw [declare_inner ctx name he] at h ⊢
    obtain ⟨scope, outer, hs⟩ : ∃ scope outer, r.scopes = scope :: outer :=
      List.exists_cons_of_ne_nil fun e => he (by rw [e]; rfl)
    obtain ⟨f, fs, hf⟩ := List.exists_cons_of_ne_nil hown
    have pass : (require (!(r.scopes.take (r.scopes.length - ctx.base)).any
        (·.contains name.lexeme)) (.alreadyDeclared name.lexeme) name r).2.diagnostics = [] := by
      rw [insert_diagnostics] at h
      exact h
    obtain ⟨hfresh, hreq⟩ := require_clean pass
    rw [hreq] at pass h ⊢
    rw [insert_cons _ _ hs]
    refine ⟨pass, ?_, rfl, ?_⟩
    · simp only [Layout.declares, hf]
      rw [← hf, ← fits.own, List.any_map]
      simpa using hfresh
    · have hframes := fits.frames
      simp only [hs, List.map_cons, Layout.frames, hf, List.cons_append, List.cons.injEq] at hframes
      have hadd : L.add name.lexeme = { L with own := f.add name.lexeme :: fs } := by
        simp only [Layout.add, hf]
      rw [hadd]
      refine ⟨?_, fits.top, fits.base, fits.inFunction, by simp⟩
      simp only [List.map_cons, Layout.frames, List.cons_append, hframes.2,
        Table.contains_insert_eq, hframes.1]

theorem bind_eq (name : Token) (binding : Binding) (r : Resolver) :
    bind name binding r =
      if r.scopes.isEmpty = true then
        if r.globals.find? name.lexeme = some .declared then
          ((), { r with globals := r.globals.insert name.lexeme binding })
        else ((), r)
      else insert name.lexeme binding r := by
  show (if r.scopes.isEmpty = true then _ else _ : Resolve Unit) r = _
  split
  · split <;> rfl
  · rfl

/-- Completing the declaration of a name changes no name. -/
theorem bind_fits {ctx : Context} {L : Layout} {name : Token} {r : Resolver} (binding : Binding)
    (fits : Fits ctx (L.add name.lexeme) r) :
    (bind name binding r).2.diagnostics = r.diagnostics ∧
      (bind name binding r).2.distances = r.distances ∧
      Fits ctx (L.add name.lexeme) (bind name binding r).2 := by
  rw [bind_eq]
  split
  · split
    · next hd =>
      have known : r.globals.contains name.lexeme = true := by
        rw [Table.contains, hd]
        rfl
      refine ⟨rfl, rfl, { fits with top := ?_ }⟩
      rw [← fits.top]
      exact Table.contains_insert_of_contains binding known
    · exact ⟨rfl, rfl, fits⟩
  · next he =>
    obtain ⟨scope, outer, hs⟩ : ∃ scope outer, r.scopes = scope :: outer :=
      List.exists_cons_of_ne_nil fun e => he (by rw [e]; rfl)
    rw [insert_cons _ _ hs]
    refine ⟨rfl, rfl, { fits with frames := ?_ }⟩
    have hframes := fits.frames
    have known : scope.contains name.lexeme = true := by
      have hown : L.own ≠ [] := by
        intro e
        refine he (fits.isEmpty.2 ?_)
        simp only [Layout.add, e]
      obtain ⟨f, fs, hf⟩ := List.exists_cons_of_ne_nil hown
      simp only [hs, List.map_cons, Layout.frames, Layout.add, hf, List.cons_append,
        List.cons.injEq] at hframes
      rw [hframes.1]
      exact Frame.add_self _ _
    rw [← hframes, hs, List.map_cons, List.map_cons,
      Table.contains_insert_of_contains binding known]

/-! ## Nothing is taken back

A walk that ends without a diagnostic began without one, whatever the scopes are. -/

theorem declare_grows {ctx : Context} {name : Token} {r : Resolver}
    (h : (declare ctx name r).2.diagnostics = []) : r.diagnostics = [] := by
  by_cases he : r.scopes.isEmpty = true
  · rw [declare_outermost ctx name he] at h
    split at h
    · exact absurd h (report_ne_nil _ _ _)
    · exact h
  · rw [declare_inner ctx name he, insert_diagnostics] at h
    have hr := require_clean h
    rw [hr.2] at h
    exact h

theorem bind_diagnostics (name : Token) (binding : Binding) (r : Resolver) :
    (bind name binding r).2.diagnostics = r.diagnostics := by
  show ((if r.scopes.isEmpty = true then _ else _ : Resolve Unit) r).2.diagnostics = _
  split
  · split <;> rfl
  · exact insert_diagnostics _ _ r

theorem parameters_grows {ctx : Context} : ∀ {ps : List Parameter} {r : Resolver},
    (parameters ctx ps r).2.diagnostics = [] → r.diagnostics = []
  | [], _, h => h
  | p :: ps, r, h => by
    have hb : (bind p.name .defined (declare ctx p.name r).2).2.diagnostics = [] :=
      @parameters_grows ctx ps _ h
    rw [bind_diagnostics] at hb
    exact declare_grows hb

theorem initializer_value_clean {ctx : Context} {name : Token} {type : Ty} {e : Expr}
    {r : Resolver} (h : (initializer ctx name type (.value e) r).2.diagnostics = []) :
    (expr ctx e r).2.diagnostics = [] ∧ type.compatible (expr ctx e r).1 = true ∧
      initializer ctx name type (.value e) r = ((), (expr ctx e r).2) := by
  have heq : initializer ctx name type (.value e) r =
      require (type.compatible (expr ctx e r).1)
        (.badInitializer name.lexeme type (expr ctx e r).1) name (expr ctx e r).2 := rfl
  obtain ⟨hc, hq⟩ := require_clean (heq ▸ h)
  rw [hq] at heq
  rw [heq] at h
  exact ⟨h, hc, heq⟩

theorem initializer_elements_clean {ctx : Context} {name : Token} {type : Ty} {es : List Expr}
    {r : Resolver} (htype : type ≠ .unknown)
    (h : (initializer ctx name type (.elements es) r).2.diagnostics = []) :
    (elementsOf ctx name type.element? es r).2.diagnostics = [] ∧
      (type.Indexable ∧ elementType name type r = (type.element?, r)) ∧
      initializer ctx name type (.elements es) r = elementsOf ctx name type.element? es r := by
  have heq : initializer ctx name type (.elements es) r =
      elementsOf ctx name (elementType name type r).1 es (elementType name type r).2 := rfl
  rw [heq] at h
  obtain ⟨hi, ht⟩ := elementType_clean (fun e => absurd e htype) (elements_grows h)
  rw [ht] at h heq
  exact ⟨h, ⟨hi, ht⟩, heq⟩

theorem initializer_grows {ctx : Context} {name : Token} {type : Ty} {start : Initializer}
    {r : Resolver} (h : (initializer ctx name type start r).2.diagnostics = []) :
    r.diagnostics = [] := by
  cases start with
  | zero => exact h
  | value e => exact expr_grows (initializer_value_clean h).1
  | elements es =>
    by_cases htype : type = .unknown
    · subst htype
      have hv : (variableType name r).2.diagnostics = [] := elements_grows
        (show (elementsOf ctx name none es (variableType name r).2).2.diagnostics = [] from h)
      rw [(variableType_clean hv).2] at hv
      exact hv
    · exact elements_grows (initializer_elements_clean htype h).1

/-- A condition over which the walk has nothing to report. -/
structure Tested (ctx : Context) (keyword : Token) (e : Expr) (r : Resolver) : Prop
    extends PassedExpr ctx e r where
  silent : (expr ctx e r).2.diagnostics = []
  boolean : boolean (e.type ctx.signatures) = true
  behind : (condition ctx keyword e r).2 = (expr ctx e r).2

theorem condition_clean {ctx : Context} {keyword : Token} {e : Expr} {r : Resolver}
    (h : (condition ctx keyword e r).2.diagnostics = []) : Tested ctx keyword e r := by
  have heq : condition ctx keyword e r =
      require (boolean (expr ctx e r).1) .conditionNotBool keyword (expr ctx e r).2 := rfl
  obtain ⟨hb, hq⟩ := require_clean (heq ▸ h)
  rw [heq, hq] at h
  have he := expr_clean e r h
  rw [he.type] at hb
  exact { he with silent := h, boolean := hb, behind := by rw [heq, hq] }

theorem checkReturn_clean {ctx : Context} {keyword : Token} {value : Ty} {r : Resolver}
    (h : (checkReturn ctx keyword value r).2.diagnostics = []) :
    (∃ t, ctx.returnType = some t ∧ matchesReturn t value = true) ∧
      checkReturn ctx keyword value r = ((), r) := by
  unfold checkReturn at h ⊢
  cases ht : ctx.returnType with
  | none =>
    rw [ht] at h
    exact absurd h (report_ne_nil _ _ _)
  | some t =>
    rw [ht] at h
    have hr := require_clean h
    exact ⟨⟨t, rfl, hr.1⟩, hr.2⟩

theorem return_none_clean {ctx : Context} {keyword : Token} {r : Resolver}
    (h : (stmt ctx (.return keyword none) r).2.diagnostics = []) :
    (∃ t, ctx.returnType = some t ∧ matchesReturn t .void = true) ∧
      stmt ctx (.return keyword none) r = ((), r) :=
  checkReturn_clean h

theorem return_some_clean {ctx : Context} {keyword : Token} {e : Expr} {r : Resolver}
    (h : (stmt ctx (.return keyword (some e)) r).2.diagnostics = []) :
    (expr ctx e r).2.diagnostics = [] ∧
      (∃ t, ctx.returnType = some t ∧ matchesReturn t (expr ctx e r).1 = true) ∧
      stmt ctx (.return keyword (some e)) r = ((), (expr ctx e r).2) := by
  have heq : stmt ctx (.return keyword (some e)) r =
      checkReturn ctx keyword (expr ctx e r).1 (expr ctx e r).2 := rfl
  obtain ⟨hc, hq⟩ := checkReturn_clean (heq ▸ h)
  rw [hq] at heq
  rw [heq] at h
  exact ⟨h, hc, heq⟩

theorem break_clean {ctx : Context} {keyword : Token} {r : Resolver}
    (h : (stmt ctx (.break keyword) r).2.diagnostics = []) :
    ctx.inLoop = true ∧ stmt ctx (.break keyword) r = ((), r) :=
  require_clean
    (show (require ctx.inLoop (.outsideLoop keyword.lexeme) keyword r).2.diagnostics = [] from h)

theorem continue_clean {ctx : Context} {keyword : Token} {r : Resolver}
    (h : (stmt ctx (.continue keyword) r).2.diagnostics = []) :
    ctx.inLoop = true ∧ stmt ctx (.continue keyword) r = ((), r) :=
  require_clean
    (show (require ctx.inLoop (.outsideLoop keyword.lexeme) keyword r).2.diagnostics = [] from h)

/-- A declaration is left as it was walked through up to the end of its initial value. -/
theorem declaration_clean {ctx : Context} {name : Token} {type : Ty} {start : Initializer}
    {r : Resolver} (h : (stmt ctx (.declare name type start) r).2.diagnostics = []) :
    (initializer ctx name type start (declare ctx name r).2).2.diagnostics = [] ∧
      (stmt ctx (.declare name type start) r).2 =
        (bind name .defined (initializer ctx name type start (declare ctx name r).2).2).2 := by
  have heq : (stmt ctx (.declare name type start) r).2 =
      (bind name .defined (initializer ctx name type start (declare ctx name r).2).2).2 := rfl
  rw [heq, bind_diagnostics] at h
  exact ⟨h, heq⟩

/-- What a declared function leads to, and the test at its end. -/
theorem function_eq (ctx : Context) (header : Header) (body : List Stmt) (r : Resolver) :
    stmt ctx (.function header body) r =
      let declared := functionDeclared ctx header r
      let inner := bodyContext ctx header declared
      let left := (stmts inner body (parameters inner header.parameters (entered declared)).2).2
      require (!mustReturn header.returnType || alwaysReturnsIn body)
        (.missingReturn header.name.lexeme header.returnType) header.name
        { left with scopes := left.scopes.tail } := rfl

theorem function_clean {ctx : Context} {header : Header} {body : List Stmt} {r : Resolver}
    (h : (stmt ctx (.function header body) r).2.diagnostics = []) :
    let declared := functionDeclared ctx header r
    let inner := bodyContext ctx header declared
    let left := (stmts inner body (parameters inner header.parameters (entered declared)).2).2
    left.diagnostics = [] ∧ (!mustReturn header.returnType || alwaysReturnsIn body) = true ∧
      (stmt ctx (.function header body) r).2 = { left with scopes := left.scopes.tail } := by
  have heq := function_eq ctx header body r
  dsimp only at heq ⊢
  obtain ⟨hret, hq⟩ := require_clean (heq ▸ h)
  rw [hq] at heq
  rw [heq] at h
  exact ⟨h, hret, by rw [heq]⟩

mutual

theorem stmt_grows {ctx : Context} : (s : Stmt) → {r : Resolver} →
    (stmt ctx s r).2.diagnostics = [] → r.diagnostics = []
  | .expression e, r, h => (expr_clean e r h).passed.before
  | .block body, r, h => by
    have hb : (entered r).diagnostics = [] := stmts_grows body h
    exact hb
  | .declare name type start, r, h => declare_grows (initializer_grows (declaration_clean h).1)
  | .ifThen keyword test yes, r, h => (condition_clean (stmt_grows yes h)).passed.before
  | .ifElse keyword test yes no, r, h =>
    (condition_clean (stmt_grows yes (stmt_grows no h))).passed.before
  | .while keyword test body, r, h => (condition_clean (stmt_grows body h)).passed.before
  | .return keyword none, r, h => by
    rw [(return_none_clean h).2] at h
    exact h
  | .return keyword (some e), r, h => expr_grows (return_some_clean h).1
  | .break keyword, r, h => by
    rw [(break_clean h).2] at h
    exact h
  | .continue keyword, r, h => by
    rw [(continue_clean h).2] at h
    exact h
  | .function header body, r, h => by
    have hd : (entered (functionDeclared ctx header r)).diagnostics = [] :=
      parameters_grows (stmts_grows body (function_clean h).1)
    replace hd : (functionDeclared ctx header r).diagnostics = [] := hd
    rw [functionDeclared, bind_diagnostics] at hd
    have hq := declare_grows hd
    rw [(require_clean hq).2] at hq
    exact hq

theorem stmts_grows {ctx : Context} : (ss : List Stmt) → {r : Resolver} →
    (stmts ctx ss r).2.diagnostics = [] → r.diagnostics = []
  | [], _, h => h
  | s :: ss, r, h =>
    stmt_grows s (stmts_grows ss (show (stmts ctx ss (stmt ctx s r).2).2.diagnostics = [] from h))

end

/-! ## Statements

A statement around others is left as they are, and so is a list of statements. -/

section Forms

variable {ctx : Context} {keyword : Token} {test : Expr} {yes no body s : Stmt} {ss : List Stmt}
  {r : Resolver}

theorem ifThen_clean (h : (stmt ctx (.ifThen keyword test yes) r).2.diagnostics = []) :
    Tested ctx keyword test r ∧ (stmt ctx yes (expr ctx test r).2).2.diagnostics = [] ∧
      (stmt ctx (.ifThen keyword test yes) r).2 = (stmt ctx yes (expr ctx test r).2).2 := by
  have heq : (stmt ctx (.ifThen keyword test yes) r).2 =
      (stmt ctx yes (condition ctx keyword test r).2).2 := rfl
  have tested := condition_clean (stmt_grows yes (heq ▸ h))
  rw [tested.behind] at heq
  rw [heq] at h
  exact ⟨tested, h, heq⟩

theorem ifElse_clean (h : (stmt ctx (.ifElse keyword test yes no) r).2.diagnostics = []) :
    Tested ctx keyword test r ∧ (stmt ctx yes (expr ctx test r).2).2.diagnostics = [] ∧
      (stmt ctx no (stmt ctx yes (expr ctx test r).2).2).2.diagnostics = [] ∧
      (stmt ctx (.ifElse keyword test yes no) r).2 =
        (stmt ctx no (stmt ctx yes (expr ctx test r).2).2).2 := by
  have heq : (stmt ctx (.ifElse keyword test yes no) r).2 =
      (stmt ctx no (stmt ctx yes (condition ctx keyword test r).2).2).2 := rfl
  have tested := condition_clean (stmt_grows yes (stmt_grows no (heq ▸ h)))
  rw [tested.behind] at heq
  rw [heq] at h
  exact ⟨tested, stmt_grows no h, h, heq⟩

theorem while_clean (h : (stmt ctx (.while keyword test body) r).2.diagnostics = []) :
    Tested ctx keyword test r ∧
      (stmt { ctx with inLoop := true } body (expr ctx test r).2).2.diagnostics = [] ∧
      (stmt ctx (.while keyword test body) r).2 =
        (stmt { ctx with inLoop := true } body (expr ctx test r).2).2 := by
  have heq : (stmt ctx (.while keyword test body) r).2 =
      (stmt { ctx with inLoop := true } body (condition ctx keyword test r).2).2 := rfl
  have tested := condition_clean (stmt_grows body (heq ▸ h))
  rw [tested.behind] at heq
  rw [heq] at h
  exact ⟨tested, h, heq⟩

theorem stmts_cons_clean (h : (stmts ctx (s :: ss) r).2.diagnostics = []) :
    (stmt ctx s r).2.diagnostics = [] ∧ (stmts ctx ss (stmt ctx s r).2).2.diagnostics = [] ∧
      (stmts ctx (s :: ss) r).2 = (stmts ctx ss (stmt ctx s r).2).2 :=
  ⟨stmts_grows ss h, h, rfl⟩

end Forms

/-- Declaring the parameters of a function leads into its body. -/
theorem parameters_clean {ctx : Context} {L : Layout} :
    ∀ (ps : List Parameter) (names : List String) (r : Resolver),
      names.Nodup → Fits ctx (L.body names) r → (parameters ctx ps r).2.diagnostics = [] →
      (names ++ ps.map (·.name.lexeme)).Nodup ∧
        (parameters ctx ps r).2.distances = r.distances ∧
        Fits ctx (L.body (names ++ ps.map (·.name.lexeme))) (parameters ctx ps r).2
  | [], names, r, hn, fits, _ => by
    rw [List.map_nil, List.append_nil]
    exact ⟨hn, rfl, fits⟩
  | p :: ps, names, r, hn, fits, h => by
    have heq : parameters ctx (p :: ps) r =
        parameters ctx ps (bind p.name .defined (declare ctx p.name r).2).2 := rfl
    rw [heq] at h ⊢
    have hb := parameters_grows h
    rw [bind_diagnostics] at hb
    obtain ⟨-, hnew, hd, fits₁⟩ := declare_clean fits hb
    obtain ⟨-, hd₁, fits₂⟩ := bind_fits .defined fits₁
    have fresh := Layout.declares_body.1 hnew
    rw [L.body_add] at fits₂
    have hn' : (names ++ [p.name.lexeme]).Nodup := by
      simp [List.nodup_append, hn]
      intro n hm e
      exact fresh (e ▸ hm)
    obtain ⟨hnodup, hd₂, fits₃⟩ := parameters_clean ps _ _ hn' fits₂ h
    rw [List.append_assoc] at hnodup fits₃
    exact ⟨hnodup, hd₂.trans (hd₁.trans hd), fits₃⟩

/-- What a walk over a statement without reports comes to. -/
structure PassedStmt (ctx : Context) (L : Layout) (s : Stmt) (r : Resolver) : Prop where
  distances : ∀ i, i ∉ s.ids → (stmt ctx s r).2.distances.find? i = r.distances.find? i
  fits : Fits ctx (L.after s) (stmt ctx s r).2
  checked : s.Checked ctx.signatures ctx.returnType ctx.inLoop

structure PassedStmts (ctx : Context) (L : Layout) (ss : List Stmt) (r : Resolver) : Prop where
  distances : ∀ i, i ∉ stmtsIds ss → (stmts ctx ss r).2.distances.find? i = r.distances.find? i
  fits : Fits ctx (L.afterAll ss) (stmts ctx ss r).2
  checked : StmtsChecked ctx.signatures ctx.returnType ctx.inLoop ss

theorem initializer_clean {ctx : Context} {name : Token} {type : Ty} (htype : type ≠ .unknown)
    (start : Initializer) {r : Resolver}
    (h : (initializer ctx name type start r).2.diagnostics = []) :
    Passed (start.nodes.map Expr.id) r (initializer ctx name type start r).2 ∧
      start.Checked ctx.signatures type := by
  cases start with
  | zero => exact ⟨Passed.refl h, trivial⟩
  | value e =>
    obtain ⟨h, hc, heq⟩ := initializer_value_clean h
    have he := expr_clean e r h
    rw [he.type] at hc
    refine ⟨?_, he.checked, hc⟩
    rw [heq]
    exact he.passed
  | elements es =>
    obtain ⟨h, ⟨hi, -⟩, heq⟩ := initializer_elements_clean htype h
    have he := elements_clean es _ r h
    refine ⟨?_, hi, he.checked⟩
    rw [heq]
    exact he.passed

theorem Fits.inBlock {ctx : Context} {L : Layout} {r : Resolver} (fits : Fits ctx L r) :
    Fits ctx L.block (entered r) := by
  refine ⟨?_, fits.top, fits.base, fits.inFunction, by simp [Layout.block]⟩
  show Table.contains Table.empty :: r.scopes.map Table.contains = _
  rw [fits.frames]
  rfl

/-- Behind a scope, the place is the one before it. -/
theorem Fits.leave {ctx inner : Context} {L L' : Layout} {r r' : Resolver} {f : Frame}
    (fits : Fits ctx L r) (fits' : Fits inner L' r') (hf : L'.frames = f :: L.frames)
    (ht : L'.top = L.top) : Fits ctx L { r' with scopes := r'.scopes.tail } := by
  refine ⟨?_, ?_, fits.base, fits.inFunction, fits.whole⟩
  · show (r'.scopes.tail).map Table.contains = _
    rw [List.map_tail, fits'.frames, hf, List.tail_cons]
  · rw [← ht]
    exact fits'.top

/-- The name of a function and its parameters are declared, and the walk is in its body. -/
structure Entered (ctx : Context) (L : Layout) (header : Header) (r : Resolver) : Prop where
  outside : ctx.returnType = none
  fresh : L.declares header.name.lexeme = false
  nodup : header.names.Nodup
  declared : Fits ctx (L.add header.name.lexeme) (functionDeclared ctx header r)
  fits : Fits (bodyContext ctx header (functionDeclared ctx header r))
    ((L.add header.name.lexeme).body header.names)
    (parameters (bodyContext ctx header (functionDeclared ctx header r)) header.parameters
      (entered (functionDeclared ctx header r))).2
  distances : (parameters (bodyContext ctx header (functionDeclared ctx header r))
    header.parameters (entered (functionDeclared ctx header r))).2.distances = r.distances

theorem function_entered {ctx : Context} {L : Layout} {header : Header} {r : Resolver}
    (fits : Fits ctx L r)
    (h : (parameters (bodyContext ctx header (functionDeclared ctx header r)) header.parameters
      (entered (functionDeclared ctx header r))).2.diagnostics = []) :
    Entered ctx L header r := by
  have hd : (entered (functionDeclared ctx header r)).diagnostics = [] := parameters_grows h
  have hb : (functionDeclared ctx header r).diagnostics = [] := hd
  rw [functionDeclared, bind_diagnostics] at hb
  obtain ⟨hout, hq⟩ := require_clean (declare_grows hb)
  rw [hq] at hb
  obtain ⟨-, hfresh, hdist, fits₁⟩ := declare_clean fits hb
  have heq : functionDeclared ctx header r =
      (bind header.name .function (declare ctx header.name r).2).2 := by
    rw [functionDeclared, hq]
  obtain ⟨-, hdist₂, fits₂⟩ := bind_fits .function fits₁
  rw [← heq] at fits₂ hdist₂
  have inside : Fits (bodyContext ctx header (functionDeclared ctx header r))
      ((L.add header.name.lexeme).body []) (entered (functionDeclared ctx header r)) := by
    refine ⟨?_, fits₂.top, ?_, rfl, by simp [Layout.body]⟩
    · show Table.contains Table.empty :: _ = _
      rw [fits₂.frames]
      rfl
    · show (functionDeclared ctx header r).scopes.length = _
      rw [← List.length_map (f := Table.contains), fits₂.frames]
      rfl
  obtain ⟨hnodup, hdist₃, fits₃⟩ := parameters_clean header.parameters [] _ .nil inside h
  exact ⟨Option.isNone_iff_eq_none.1 hout, hfresh, hnodup, fits₂, fits₃,
    hdist₃.trans (hdist₂.trans hdist)⟩

mutual

/-- A statement over which the walk has nothing to report is checked, and the walk goes on at
the place behind it. -/
theorem stmt_clean {ctx : Context} {L : Layout} : (s : Stmt) → s.Each (fun _ => True) Stmt.Regular →
    (r : Resolver) → Fits ctx L r → (stmt ctx s r).2.diagnostics = [] → PassedStmt ctx L s r
  | .expression e, _, r, fits, h => by
    have he := expr_clean e r h
    exact ⟨he.passed.distances, fits.of_passed he.passed, he.checked⟩
  | .block body, hr, r, fits, h => by
    have hb := stmts_clean body (Stmt.each_block.1 hr).2 (entered r) fits.inBlock h
    -- Only the innermost scope has new names behind the body, and the block takes it away.
    obtain ⟨f, hf⟩ := Layout.afterAll_cons body L.block .empty L.own rfl
    refine ⟨hb.distances, ?_, hb.checked⟩
    refine fits.leave hb.fits (f := f) ?_ ?_
    · rw [hf]
      rfl
    · rw [hf]
      rfl
  | .declare name type start, hr, r, fits, h => by
    obtain ⟨h, heq⟩ := declaration_clean h
    obtain ⟨hp, hc⟩ := initializer_clean (Stmt.each_declare.1 hr).1 start h
    obtain ⟨-, -, hd, fits₁⟩ := declare_clean fits hp.before
    obtain ⟨-, hd₂, fits₂⟩ := bind_fits .defined (fits₁.of_passed hp)
    refine ⟨fun i hi => ?_, fits₂, hc⟩
    rw [heq, hd₂, hp.distances i hi, hd]
  | .ifThen keyword test yes, hr, r, fits, h => by
    obtain ⟨hn, -, hy⟩ := Stmt.each_ifThen.1 hr
    obtain ⟨ht, h, heq⟩ := ifThen_clean h
    have hs := stmt_clean yes hy _ (fits.of_passed ht.passed) h
    refine ⟨fun i hi => ?_, ?_, ht.checked, ht.boolean, hs.checked⟩
    · rw [Stmt.ids_ifThen, List.mem_append, not_or] at hi
      rw [heq, hs.distances i hi.2, ht.passed.distances i hi.1]
    · have hf := hs.fits
      rw [Layout.after_of_none hn] at hf
      rw [heq]
      exact hf
  | .ifElse keyword test yes no, hr, r, fits, h => by
    obtain ⟨⟨hn, hn'⟩, -, hy, ho⟩ := Stmt.each_ifElse.1 hr
    obtain ⟨ht, hmid, h, heq⟩ := ifElse_clean h
    have hs := stmt_clean yes hy _ (fits.of_passed ht.passed) hmid
    have fits₁ := hs.fits
    rw [Layout.after_of_none hn] at fits₁
    have hs' := stmt_clean no ho _ fits₁ h
    refine ⟨fun i hi => ?_, ?_, ht.checked, ht.boolean, hs.checked, hs'.checked⟩
    · rw [Stmt.ids_ifElse, List.mem_append, List.mem_append, not_or, not_or] at hi
      rw [heq, hs'.distances i hi.2, hs.distances i hi.1.2, ht.passed.distances i hi.1.1]
    · have hf := hs'.fits
      rw [Layout.after_of_none hn'] at hf
      rw [heq]
      exact hf
  | .while keyword test body, hr, r, fits, h => by
    obtain ⟨hn, -, hy⟩ := Stmt.each_while.1 hr
    obtain ⟨ht, h, heq⟩ := while_clean h
    have fits₁ : Fits { ctx with inLoop := true } L (expr ctx test r).2 :=
      { fits.of_passed ht.passed with }
    have hs := stmt_clean body hy _ fits₁ h
    refine ⟨fun i hi => ?_, ?_, ht.checked, ht.boolean, hs.checked⟩
    · rw [Stmt.ids_while, List.mem_append, not_or] at hi
      rw [heq, hs.distances i hi.2, ht.passed.distances i hi.1]
    · have hf := hs.fits
      rw [Layout.after_of_none hn] at hf
      rw [heq]
      exact { hf with }
  | .return keyword none, _, r, fits, h => by
    obtain ⟨hc, heq⟩ := return_none_clean h
    exact ⟨fun i _ => by rw [heq], by rw [heq]; exact fits, hc⟩
  | .return keyword (some e), _, r, fits, h => by
    obtain ⟨h, hc, heq⟩ := return_some_clean h
    have he := expr_clean e r h
    rw [he.type] at hc
    refine ⟨fun i hi => ?_, ?_, he.checked, hc⟩
    · rw [heq]
      exact he.passed.distances i hi
    · rw [heq]
      exact fits.of_passed he.passed
  | .break keyword, _, r, fits, h => by
    obtain ⟨hc, heq⟩ := break_clean h
    exact ⟨fun i _ => by rw [heq], by rw [heq]; exact fits, hc⟩
  | .continue keyword, _, r, fits, h => by
    obtain ⟨hc, heq⟩ := continue_clean h
    exact ⟨fun i _ => by rw [heq], by rw [heq]; exact fits, hc⟩
  | .function header body, hr, r, fits, h => by
    obtain ⟨h, hret, heq⟩ := function_clean h
    have enter := function_entered fits (stmts_grows body h)
    have hb := stmts_clean body (Stmt.each_function.1 hr).2 _ enter.fits h
    -- The body has changed no scope but its own, which the walk leaves.
    obtain ⟨f, hf⟩ := Layout.afterAll_cons body ((L.add header.name.lexeme).body header.names)
      _ [] rfl
    refine ⟨fun i hi => ?_, ?_, enter.outside, hb.checked, ?_⟩
    · rw [heq]
      exact (hb.distances i hi).trans (by rw [enter.distances])
    · rw [heq]
      refine enter.declared.leave hb.fits (f := f) ?_ ?_
      · rw [hf]
        rfl
      · rw [hf]
        rfl
    · intro hm
      simpa [hm] using hret

theorem stmts_clean {ctx : Context} {L : Layout} : (ss : List Stmt) →
    EachStmt (fun _ => True) Stmt.Regular ss → (r : Resolver) → Fits ctx L r →
    (stmts ctx ss r).2.diagnostics = [] → PassedStmts ctx L ss r
  | [], _, r, fits, _ => ⟨fun _ _ => rfl, fits, trivial⟩
  | s :: ss, hr, r, fits, h => by
    obtain ⟨hs, hss⟩ := eachStmt_cons.1 hr
    obtain ⟨hfirst, hrest, heq⟩ := stmts_cons_clean h
    have first := stmt_clean s hs r fits hfirst
    have rest := stmts_clean ss hss _ first.fits hrest
    refine ⟨fun i hi => ?_, ?_, first.checked, rest.checked⟩
    · rw [stmtsIds_cons, List.mem_append, not_or] at hi
      rw [heq, rest.distances i hi.2, first.distances i hi.1]
    · rw [heq]
      exact rest.fits

end

end Resolve

end TickScript
