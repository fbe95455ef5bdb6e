import TickScript.Proofs.Checked
import TickScript.Proofs.Visits

/-!
# Resolution without reports

A walk that ends without a diagnostic had none before, and each of its tests went well. For
every rule of the resolver one statement says what this means; put together along a program
they say that the program is checked, and what the walk leaves alone.
-/

namespace TickScript

namespace Resolve

/-! ## Reports and tests -/

theorem report_ne_nil (problem : ResolveProblem) (token : Token) (r : Resolver) :
    (report problem token r).2.diagnostics ≠ [] := by
  show r.diagnostics ++ [_] ≠ []
  simp

theorem require_clean {test : Bool} {problem : ResolveProblem} {token : Token} {r : Resolver}
    (h : (require test problem token r).2.diagnostics = []) :
    test = true ∧ require test problem token r = ((), r) := by
  cases test with
  | true => exact ⟨rfl, rfl⟩
  | false => exact absurd h (report_ne_nil problem token r)

theorem checkReady_clean {name : Token} {r : Resolver}
    (h : (checkReady name r).2.diagnostics = []) :
    isPending r name.lexeme = false ∧ checkReady name r = ((), r) := by
  have heq : checkReady name r =
      require (!isPending r name.lexeme) .ownInitializer name r := rfl
  obtain ⟨ht, hq⟩ := require_clean (heq ▸ h)
  exact ⟨by simpa using ht, heq.trans hq⟩

/-! ## Types -/

theorem variableType_clean {name : Token} {r : Resolver}
    (h : (variableType name r).2.diagnostics = []) :
    name.type ≠ .unknown ∧ variableType name r = (name.type, r) := by
  have hr := require_clean (show (require (decide (name.type ≠ .unknown))
    (.undefinedVariable name.lexeme) name r).2.diagnostics = [] from h)
  refine ⟨of_decide_eq_true hr.1, ?_⟩
  show (name.type, (require (decide (name.type ≠ .unknown)) _ name r).2) = _
  rw [hr.2]

theorem unaryType_clean {operator : Token} {t : Ty} {r : Resolver}
    (h : (unaryType operator t r).2.diagnostics = []) :
    (if operator.kind = .bang then boolean t else numeric t) = true ∧
      unaryType operator t r = (if operator.kind = .bang then .bool else t, r) := by
  unfold unaryType at h ⊢
  by_cases hk : operator.kind = .bang
  · simp only [if_pos hk] at h ⊢
    have hr := require_clean h
    refine ⟨hr.1, ?_⟩
    show (Ty.bool, (require (boolean t) _ operator r).2) = _
    rw [hr.2]
  · simp only [if_neg hk] at h ⊢
    have hr := require_clean h
    refine ⟨hr.1, ?_⟩
    show (t, (require (numeric t) _ operator r).2) = _
    rw [hr.2]

/-- The type of a binary operation. -/
def binaryResult (operator : Token) (l r : Ty) : Ty :=
  match operator.kind with
  | .equalEqual | .bangEqual | .greater | .greaterEqual | .less | .lessEqual => .bool
  | _ => arithmeticType l r

/-- A comparison is a test and then the type of a truth value. -/
theorem compare_clean {test : Bool} {problem : ResolveProblem} {token : Token} {r : Resolver}
    (h : ((do require test problem token; return .bool : Resolve Ty) r).2.diagnostics = []) :
    test = true ∧ (do require test problem token; return .bool : Resolve Ty) r = (.bool, r) := by
  have hr := require_clean h
  refine ⟨hr.1, ?_⟩
  show (Ty.bool, (require test problem token r).2) = _
  rw [hr.2]

theorem arithmetic_clean {l r : Ty} {token : Token} {state : Resolver}
    (h : ((if numeric l && numeric r then pure (arithmeticType l r) else do
      report .operandsNotNumbers token
      return .unknown : Resolve Ty) state).2.diagnostics = []) :
    (numeric l && numeric r) = true ∧
      (if numeric l && numeric r then pure (arithmeticType l r) else do
        report .operandsNotNumbers token
        return .unknown : Resolve Ty) state = (arithmeticType l r, state) := by
  by_cases hn : (numeric l && numeric r) = true
  · rw [if_pos hn]
    exact ⟨hn, rfl⟩
  · rw [if_neg hn] at h
    exact absurd h (report_ne_nil _ _ _)

theorem binaryType_clean {operator : Token} {l r : Ty} {state : Resolver}
    (h : (binaryType operator l r state).2.diagnostics = []) :
    operands operator l r = true ∧
      binaryType operator l r state = (binaryResult operator l r, state) := by
  unfold binaryType at h ⊢
  unfold operands binaryResult
  generalize operator.kind = kind at h ⊢
  cases kind <;> first | exact compare_clean h | exact arithmetic_clean h

theorem logicalType_clean {operator : Token} {l r : Ty} {state : Resolver}
    (h : (logicalType operator l r state).2.diagnostics = []) :
    (boolean l = true ∧ boolean r = true) ∧ logicalType operator l r state = (.bool, state) := by
  have hr := compare_clean h
  exact ⟨Bool.and_eq_true_iff.1 hr.1, hr.2⟩

/-- What comes behind a test. -/
theorem require_bind_clean {α : Type} {test : Bool} {problem : ResolveProblem} {token : Token}
    {next : Resolve α} {r : Resolver}
    (grows : ∀ r, (next r).2.diagnostics = [] → r.diagnostics = [])
    (h : ((do require test problem token; next : Resolve α) r).2.diagnostics = []) :
    test = true ∧ (do require test problem token; next : Resolve α) r = next r := by
  have hr := require_clean (grows (require test problem token r).2 h)
  refine ⟨hr.1, ?_⟩
  show next (require test problem token r).2 = next r
  rw [hr.2]

theorem itemType_clean {name : Token} {index : Ty} {r : Resolver}
    (h : (itemType name index r).2.diagnostics = []) :
    (index.indexes = true ∧ name.type.Indexable) ∧
      itemType name index r = (name.type.element?.getD .any, r) := by
  unfold itemType at h ⊢
  cases ht : name.type with
  | any =>
    rw [ht] at h
    have hr := require_bind_clean (fun _ hn => hn) h
    exact ⟨⟨hr.1, .inl rfl⟩, hr.2⟩
  | array element =>
    rw [ht] at h
    have hr := require_bind_clean (fun _ hn => hn) h
    exact ⟨⟨hr.1, .inr ⟨element, rfl⟩⟩, hr.2⟩
  | unknown =>
    rw [ht] at h
    exact absurd ht (variableType_clean h).1
  | scalar s =>
    rw [ht] at h
    exact absurd h (report_ne_nil _ _ _)
  | void =>
    rw [ht] at h
    exact absurd h (report_ne_nil _ _ _)

theorem elementType_clean {name : Token} {target : Ty} {r : Resolver}
    (hname : target = .unknown → name.type = .unknown)
    (h : (elementType name target r).2.diagnostics = []) :
    target.Indexable ∧ elementType name target r = (target.element?, r) := by
  cases target with
  | any => exact ⟨.inl rfl, rfl⟩
  | array element => exact ⟨.inr ⟨element, rfl⟩, rfl⟩
  | unknown => exact absurd (hname rfl) (variableType_clean h).1
  | scalar s => exact absurd h (report_ne_nil _ _ _)
  | void => exact absurd h (report_ne_nil _ _ _)

theorem checkElement_clean {name : Token} {element : Option Ty} {value : Ty} {r : Resolver}
    (h : (checkElement name element value r).2.diagnostics = []) :
    (element.getD .any).compatible value = true ∧ checkElement name element value r = ((), r) := by
  cases element with
  | none => exact ⟨rfl, rfl⟩
  | some t => exact require_clean h

theorem checkArguments_clean {name : Token} :
    ∀ {position : Nat} {parameters values : List Ty} {r : Resolver},
      parameters.length = values.length →
      (checkArguments name position parameters values r).2.diagnostics = [] →
      List.Forall₂ (fun p v => Ty.compatible p v = true) parameters values ∧
        checkArguments name position parameters values r = ((), r)
  | _, [], [], _, _, _ => ⟨.nil, rfl⟩
  | position, p :: ps, v :: vs, r, hl, h => by
    have hrest := fun r => @checkArguments_clean name (position + 1) ps vs r (Nat.succ.inj hl)
    have hr := require_bind_clean (fun r hn => by
      have he := (hrest r hn).2
      rw [he] at hn
      exact hn) h
    rw [checkArguments, hr.2] at h
    rw [checkArguments, hr.2]
    exact ⟨.cons hr.1 (hrest r h).1, (hrest r h).2⟩

theorem callType_clean {ctx : Context} {name : Token} {arguments : List Ty} {r : Resolver}
    (h : (callType ctx name arguments r).2.diagnostics = []) :
    ∃ signature, ctx.signatures.find? name.lexeme = some signature ∧
      List.Forall₂ (fun p v => Ty.compatible p v = true) signature.parameters arguments ∧
      callType ctx name arguments r = (signature.returnType, r) := by
  unfold callType at h ⊢
  cases hs : ctx.signatures.find? name.lexeme with
  | none =>
    rw [hs] at h
    exact absurd h (report_ne_nil _ _ _)
  | some signature =>
    rw [hs] at h
    by_cases hl : signature.parameters.length = arguments.length
    · simp only [if_pos hl] at h ⊢
      have hc := checkArguments_clean hl h
      refine ⟨signature, rfl, hc.1, ?_⟩
      show (signature.returnType, (checkArguments name 1 _ arguments r).2) = _
      rw [hc.2]
    · simp only [if_neg hl] at h
      exact absurd h (report_ne_nil _ _ _)

end Resolve

/-! ## Expressions -/

/-- The numbers of an expression and its parts. -/
def Expr.ids (e : Expr) : List ExprId :=
  e.nodes.map Expr.id

/-- The numbers of expressions and their parts. -/
def exprsIds (es : List Expr) : List ExprId :=
  (exprsNodes es).map Expr.id

namespace Expr

variable {id calleeId : ExprId} {left right position value : Expr} {operator name paren : Token}
  {arguments : List Expr}

theorem ids_binary : (binary id left operator right).ids = id :: (left.ids ++ right.ids) := by
  simp [ids, Expr.id]

theorem ids_logical : (logical id left operator right).ids = id :: (left.ids ++ right.ids) := by
  simp [ids, Expr.id]

theorem ids_assignIndex :
    (assignIndex id name position value).ids = id :: (position.ids ++ value.ids) := by
  simp [ids, Expr.id]

theorem ids_call : (call id (.var calleeId name) paren arguments).ids =
    id :: (calleeId :: exprsIds arguments) := by
  simp [ids, Expr.id, exprsIds]

end Expr

theorem exprsIds_cons (e : Expr) (es : List Expr) : exprsIds (e :: es) = e.ids ++ exprsIds es := by
  simp [Expr.ids, exprsIds]

namespace Resolve

/-- A walk from `r` to `r'` without reports that has entered distances only for the expressions
with the numbers `ids`. -/
structure Passed (ids : List ExprId) (r r' : Resolver) : Prop where
  before : r.diagnostics = []
  scopes : r'.scopes = r.scopes
  globals : r'.globals = r.globals
  distances : ∀ i, i ∉ ids → r'.distances.find? i = r.distances.find? i

namespace Passed

variable {ids ids' : List ExprId} {r r' r'' : Resolver}

theorem refl (h : r.diagnostics = []) : Passed ids r r :=
  ⟨h, rfl, rfl, fun _ _ => rfl⟩

theorem mono (h : Passed ids r r') (hs : ids ⊆ ids') : Passed ids' r r' :=
  { h with distances := fun i hi => h.distances i fun hm => hi (hs hm) }

theorem trans (h : Passed ids r r') (h' : Passed ids r' r'') : Passed ids r r'' where
  before := h.before
  scopes := h'.scopes.trans h.scopes
  globals := h'.globals.trans h.globals
  distances i hi := (h'.distances i hi).trans (h.distances i hi)

/-- The walks over two parts, one after the other. -/
theorem append (h : Passed ids r r') (h' : Passed ids' r' r'') : Passed (ids ++ ids') r r'' :=
  .trans (h.mono (List.subset_append_left _ _)) (h'.mono (List.subset_append_right _ _))

theorem cons (h : Passed ids r r') {id : ExprId} : Passed (id :: ids) r r' :=
  h.mono (List.subset_cons_self _ _)

end Passed

theorem locate_eq (id : ExprId) (name : Token) (r : Resolver) :
    (locate id name r).2 =
      match distance? r name.lexeme with
      | some d => { r with distances := r.distances.insert id d }
      | none => r :=
  rfl

theorem locate_diagnostics (id : ExprId) (name : Token) (r : Resolver) :
    (locate id name r).2.diagnostics = r.diagnostics := by
  rw [locate_eq]
  split <;> rfl

theorem locate_passed {id : ExprId} {name : Token} {r : Resolver} (h : r.diagnostics = []) :
    Passed [id] r (locate id name r).2 := by
  rw [locate_eq]
  split
  · refine ⟨h, rfl, rfl, fun i hi => ?_⟩
    rw [Table.find?_insert, if_neg (by simpa using hi)]
  · exact Passed.refl h

/-- What a walk over an expression without reports comes to. -/
structure PassedExpr (ctx : Context) (e : Expr) (r : Resolver) : Prop where
  passed : Passed e.ids r (expr ctx e r).2
  type : (expr ctx e r).1 = e.type ctx.signatures
  checked : e.Checked ctx.signatures

structure PassedExprs (ctx : Context) (es : List Expr) (r : Resolver) : Prop where
  passed : Passed (exprsIds es) r (exprs ctx es r).2
  types : (exprs ctx es r).1 = es.map (Expr.type ctx.signatures)
  checked : ExprsChecked ctx.signatures es

structure PassedElements (ctx : Context) (name : Token) (element : Option Ty) (es : List Expr)
    (r : Resolver) : Prop where
  passed : Passed (exprsIds es) r (elementsOf ctx name element es r).2
  checked : ElementsChecked ctx.signatures (element.getD .any) es

theorem PassedExpr.of_eq {ctx : Context} {e : Expr} {r r' : Resolver} {t : Ty}
    (heq : expr ctx e r = (t, r')) (hp : Passed e.ids r r') (ht : t = e.type ctx.signatures)
    (hc : e.Checked ctx.signatures) : PassedExpr ctx e r :=
  ⟨by rw [heq]; exact hp, by rw [heq]; exact ht, hc⟩

theorem var_eq (ctx : Context) (id : ExprId) (name : Token) (r : Resolver) :
    expr ctx (.var id name) r =
      if bindingOf (checkReady name r).2 name.lexeme = some .function then
        (.unknown, (locate id name
          (report (.functionAsValue name.lexeme) name (checkReady name r).2).2).2)
      else variableType name (locate id name (checkReady name r).2).2 := by
  show (if bindingOf (checkReady name r).2 name.lexeme = some .function then _ else _ :
    Resolve Ty) _ = _
  split <;> rfl

/-! ### One form after the other

For every form of expressions one statement says what is left of the walk if nothing was
reported: its tests went well, and it did no more than walk over the parts and locate the name. -/

section Forms

variable {ctx : Context} {id calleeId : ExprId} {name operator paren : Token} {r : Resolver}
  {left right position value e : Expr} {elements arguments es : List Expr}

theorem unary_clean (h : (expr ctx (.unary id operator right) r).2.diagnostics = []) :
    (expr ctx right r).2.diagnostics = [] ∧
      (if operator.kind = .bang then boolean (expr ctx right r).1
        else numeric (expr ctx right r).1) = true ∧
      expr ctx (.unary id operator right) r =
        (if operator.kind = .bang then .bool else (expr ctx right r).1, (expr ctx right r).2) := by
  have heq : expr ctx (.unary id operator right) r =
      unaryType operator (expr ctx right r).1 (expr ctx right r).2 := rfl
  obtain ⟨ht, hu⟩ := unaryType_clean (heq ▸ h)
  rw [hu] at heq
  rw [heq] at h
  exact ⟨h, ht, heq⟩

theorem binary_clean (h : (expr ctx (.binary id left operator right) r).2.diagnostics = []) :
    (expr ctx right (expr ctx left r).2).2.diagnostics = [] ∧
      operands operator (expr ctx left r).1 (expr ctx right (expr ctx left r).2).1 = true ∧
      expr ctx (.binary id left operator right) r =
        (binaryResult operator (expr ctx left r).1 (expr ctx right (expr ctx left r).2).1,
          (expr ctx right (expr ctx left r).2).2) := by
  have heq : expr ctx (.binary id left operator right) r =
      binaryType operator (expr ctx left r).1 (expr ctx right (expr ctx left r).2).1
        (expr ctx right (expr ctx left r).2).2 := rfl
  obtain ⟨ht, hb⟩ := binaryType_clean (heq ▸ h)
  rw [hb] at heq
  rw [heq] at h
  exact ⟨h, ht, heq⟩

theorem logical_clean (h : (expr ctx (.logical id left operator right) r).2.diagnostics = []) :
    (expr ctx right (expr ctx left r).2).2.diagnostics = [] ∧
      (boolean (expr ctx left r).1 = true ∧
        boolean (expr ctx right (expr ctx left r).2).1 = true) ∧
      expr ctx (.logical id left operator right) r =
        (.bool, (expr ctx right (expr ctx left r).2).2) := by
  have heq : expr ctx (.logical id left operator right) r =
      logicalType operator (expr ctx left r).1 (expr ctx right (expr ctx left r).2).1
        (expr ctx right (expr ctx left r).2).2 := rfl
  obtain ⟨ht, hl⟩ := logicalType_clean (heq ▸ h)
  rw [hl] at heq
  rw [heq] at h
  exact ⟨h, ht, heq⟩

theorem var_clean (h : (expr ctx (.var id name) r).2.diagnostics = []) :
    r.diagnostics = [] ∧
      (name.type ≠ .unknown ∧ bindingOf r name.lexeme ≠ some .function ∧
        isPending r name.lexeme = false) ∧
      expr ctx (.var id name) r = (name.type, (locate id name r).2) := by
  have heq := var_eq ctx id name r
  split at heq
  · rw [heq, locate_diagnostics] at h
    exact absurd h (report_ne_nil _ _ _)
  · next hf =>
    obtain ⟨ht, hv⟩ := variableType_clean (heq ▸ h)
    rw [heq, hv, locate_diagnostics] at h
    obtain ⟨settled, ready⟩ := checkReady_clean h
    rw [ready] at h heq hv hf
    exact ⟨h, ⟨ht, hf, settled⟩, heq.trans hv⟩

theorem index_clean
    (grows : ∀ r, (expr ctx position r).2.diagnostics = [] → r.diagnostics = [])
    (h : (expr ctx (.index id name position) r).2.diagnostics = []) :
    (expr ctx position r).2.diagnostics = [] ∧
      (((expr ctx position r).1.indexes = true ∧ name.type.Indexable) ∧
        isPending r name.lexeme = false ∧ checkReady name r = ((), r)) ∧
      expr ctx (.index id name position) r =
        (name.type.element?.getD .any, (locate id name (expr ctx position r).2).2) := by
  have heq : expr ctx (.index id name position) r =
      itemType name (expr ctx position (checkReady name r).2).1
        (locate id name (expr ctx position (checkReady name r).2).2).2 := rfl
  obtain ⟨ht, hi⟩ := itemType_clean (heq ▸ h)
  rw [hi] at heq
  rw [heq, locate_diagnostics] at h
  obtain ⟨settled, ready⟩ := checkReady_clean (grows _ h)
  rw [ready] at h ht heq
  exact ⟨h, ⟨ht, settled, ready⟩, heq⟩

theorem assign_clean (h : (expr ctx (.assign id name value) r).2.diagnostics = []) :
    (expr ctx value r).2.diagnostics = [] ∧
      (name.type ≠ .unknown ∧ name.type.compatible (expr ctx value r).1 = true) ∧
      expr ctx (.assign id name value) r =
        (name.type, (locate id name (expr ctx value r).2).2) := by
  have heq : expr ctx (.assign id name value) r =
      let valued := expr ctx value r
      let target := variableType name (locate id name valued.2).2
      (target.1, (require (target.1.compatible valued.1)
        (.badAssignment valued.1 name.lexeme target.1) name target.2).2) := rfl
  dsimp only at heq
  rw [heq] at h
  obtain ⟨hc, hq⟩ := require_clean h
  rw [hq] at h heq
  obtain ⟨hu, hv⟩ := variableType_clean h
  rw [hv] at h hc heq
  rw [locate_diagnostics] at h
  exact ⟨h, ⟨hu, hc⟩, heq⟩

theorem assignIndex_clean
    (h : (expr ctx (.assignIndex id name position value) r).2.diagnostics = []) :
    (expr ctx value (expr ctx position r).2).2.diagnostics = [] ∧
      (((expr ctx position r).1.indexes = true ∧ name.type.Indexable) ∧
        (name.type.element?.getD .any).compatible
          (expr ctx value (expr ctx position r).2).1 = true) ∧
      expr ctx (.assignIndex id name position value) r =
        (name.type.element?.getD .any,
          (locate id name (expr ctx value (expr ctx position r).2).2).2) := by
  have heq : expr ctx (.assignIndex id name position value) r =
      let indexed := expr ctx position r
      let valued := expr ctx value indexed.2
      let target := itemType name indexed.1 (locate id name valued.2).2
      (target.1, (require (target.1.compatible valued.1)
        (.badAssignment valued.1 name.lexeme target.1) name target.2).2) := rfl
  dsimp only at heq
  rw [heq] at h
  obtain ⟨hc, hq⟩ := require_clean h
  rw [hq] at h heq
  obtain ⟨hi, ht⟩ := itemType_clean h
  rw [ht] at h hc heq
  rw [locate_diagnostics] at h
  exact ⟨h, ⟨hi, hc⟩, heq⟩

theorem assignElements_clean
    (grows : ∀ element r, (elementsOf ctx name element elements r).2.diagnostics = [] →
      r.diagnostics = [])
    (h : (expr ctx (.assignElements id name elements) r).2.diagnostics = []) :
    (elementsOf ctx name name.type.element? elements (locate id name r).2).2.diagnostics = [] ∧
      (name.type.Indexable ∧
        variableType name (locate id name r).2 = (name.type, (locate id name r).2) ∧
        elementType name name.type (locate id name r).2 =
          (name.type.element?, (locate id name r).2)) ∧
      expr ctx (.assignElements id name elements) r =
        (name.type,
          (elementsOf ctx name name.type.element? elements (locate id name r).2).2) := by
  have heq : expr ctx (.assignElements id name elements) r =
      let target := variableType name (locate id name r).2
      let element := elementType name target.1 target.2
      (target.1, (elementsOf ctx name element.1 elements element.2).2) := rfl
  dsimp only at heq
  rw [heq] at h
  have before := grows _ _ h
  have unclear : (variableType name (locate id name r).2).1 = .unknown → name.type = .unknown :=
    fun e => e
  obtain ⟨hi, ht⟩ := elementType_clean unclear before
  rw [ht] at h before heq
  have hv := (variableType_clean before).2
  rw [hv] at h hi ht heq
  exact ⟨h, ⟨hi, hv, ht⟩, heq⟩

theorem call_clean
    (h : (expr ctx (.call id (.var calleeId name) paren arguments) r).2.diagnostics = []) :
    (exprs ctx arguments r).2.diagnostics = [] ∧
      ∃ signature, ctx.signatures.find? name.lexeme = some signature ∧
        List.Forall₂ (fun p v => Ty.compatible p v = true) signature.parameters
          (exprs ctx arguments r).1 ∧
        expr ctx (.call id (.var calleeId name) paren arguments) r =
          (signature.returnType, (locate calleeId name (exprs ctx arguments r).2).2) := by
  have heq : expr ctx (.call id (.var calleeId name) paren arguments) r =
      callType ctx name (exprs ctx arguments r).1
        (locate calleeId name (exprs ctx arguments r).2).2 := rfl
  obtain ⟨signature, hs, hf, hc⟩ := callType_clean (heq ▸ h)
  rw [hc] at heq
  rw [heq, locate_diagnostics] at h
  exact ⟨h, signature, hs, hf, heq⟩

/-- The first of the elements given to an array, and the rest of them. -/
theorem elementsOf_cons_clean {element : Option Ty}
    (grows : ∀ r, (elementsOf ctx name element es r).2.diagnostics = [] → r.diagnostics = [])
    (h : (elementsOf ctx name element (e :: es) r).2.diagnostics = []) :
    (elementsOf ctx name element es (expr ctx e r).2).2.diagnostics = [] ∧
      ((element.getD .any).compatible (expr ctx e r).1 = true ∧
        checkElement name element (expr ctx e r).1 (expr ctx e r).2 = ((), (expr ctx e r).2)) ∧
      elementsOf ctx name element (e :: es) r =
        elementsOf ctx name element es (expr ctx e r).2 := by
  have heq : elementsOf ctx name element (e :: es) r =
      elementsOf ctx name element es
        (checkElement name element (expr ctx e r).1 (expr ctx e r).2).2 := rfl
  obtain ⟨hc, hk⟩ := checkElement_clean (grows _ (heq ▸ h))
  rw [hk] at heq
  rw [heq] at h
  exact ⟨h, ⟨hc, hk⟩, heq⟩

end Forms

mutual

/-- An expression over which the walk has nothing to report is checked. -/
theorem expr_clean {ctx : Context} : (e : Expr) → (r : Resolver) →
    (expr ctx e r).2.diagnostics = [] → PassedExpr ctx e r
  | .literal id value line, r, h => ⟨Passed.refl h, rfl, trivial⟩
  | .grouping id inner, r, h => by
    have hi := expr_clean inner r h
    exact ⟨hi.passed.mono (by simp [Expr.ids]), hi.type, hi.checked⟩
  | .unary id operator right, r, h => by
    obtain ⟨h, ht, heq⟩ := unary_clean h
    have hr := expr_clean right r h
    rw [hr.type] at ht
    exact .of_eq heq (hr.passed.mono (by simp [Expr.ids])) (by rw [hr.type]; rfl) ⟨hr.checked, ht⟩
  | .binary id left operator right, r, h => by
    obtain ⟨h, ht, heq⟩ := binary_clean h
    have hr := expr_clean right _ h
    have hl := expr_clean left r hr.passed.before
    rw [hl.type, hr.type] at ht
    refine .of_eq heq ?_ (by rw [hl.type, hr.type]; rfl) ⟨hl.checked, hr.checked, ht⟩
    rw [Expr.ids_binary]
    exact (hl.passed.append hr.passed).cons
  | .logical id left operator right, r, h => by
    obtain ⟨h, ht, heq⟩ := logical_clean h
    have hr := expr_clean right _ h
    have hl := expr_clean left r hr.passed.before
    rw [hl.type, hr.type] at ht
    refine .of_eq heq ?_ rfl ⟨hl.checked, hr.checked, ht⟩
    rw [Expr.ids_logical]
    exact (hl.passed.append hr.passed).cons
  | .var id name, r, h => by
    obtain ⟨h, ⟨hu, -⟩, heq⟩ := var_clean h
    exact .of_eq heq (locate_passed h) rfl hu
  | .index id name position, r, h => by
    obtain ⟨h, ⟨⟨hi, hn⟩, -⟩, heq⟩ :=
      index_clean (fun r h => (expr_clean position r h).passed.before) h
    have hp := expr_clean position r h
    rw [hp.type] at hi
    refine .of_eq heq (.trans (hp.passed.mono ?_) ((locate_passed h).mono ?_)) rfl
      ⟨hp.checked, hi, hn⟩
    all_goals simp [Expr.ids, Expr.id]
  | .assign id name value, r, h => by
    obtain ⟨h, ⟨hu, hc⟩, heq⟩ := assign_clean h
    have hv := expr_clean value r h
    rw [hv.type] at hc
    refine .of_eq heq (.trans (hv.passed.mono ?_) ((locate_passed h).mono ?_)) rfl
      ⟨hv.checked, hu, hc⟩
    all_goals simp [Expr.ids, Expr.id]
  | .assignIndex id name position value, r, h => by
    obtain ⟨h, ⟨⟨hi, hn⟩, hc⟩, heq⟩ := assignIndex_clean h
    have hv := expr_clean value _ h
    have hp := expr_clean position r hv.passed.before
    rw [hv.type] at hc
    rw [hp.type] at hi
    refine .of_eq heq ?_ rfl ⟨hp.checked, hv.checked, hi, hn, hc⟩
    rw [Expr.ids_assignIndex]
    exact .trans (hp.passed.append hv.passed).cons ((locate_passed h).mono (by simp))
  | .assignElements id name elements, r, h => by
    obtain ⟨h, ⟨hn, -⟩, heq⟩ :=
      assignElements_clean (fun element r h => (elements_clean elements element r h).passed.before) h
    have he := elements_clean elements _ _ h
    have hl := he.passed.before
    rw [locate_diagnostics] at hl
    refine .of_eq heq (.trans ((locate_passed hl).mono ?_) (he.passed.mono ?_)) rfl ⟨hn, he.checked⟩
    all_goals simp [Expr.ids, exprsIds, Expr.id]
  | .call id (.var calleeId name) paren arguments, r, h => by
    obtain ⟨h, signature, hs, hf, heq⟩ := call_clean h
    have ha := exprs_clean arguments r h
    rw [ha.types] at hf
    refine .of_eq heq ?_ (by simp [Expr.type, hs])
      ⟨ha.checked, calleeId, name, signature, rfl, hs, hf⟩
    rw [Expr.ids_call]
    exact .trans ha.passed.cons.cons ((locate_passed h).mono (by simp))
  | .call id (.literal ..) paren arguments, r, h => absurd h (report_ne_nil _ _ _)
  | .call id (.grouping ..) paren arguments, r, h => absurd h (report_ne_nil _ _ _)
  | .call id (.unary ..) paren arguments, r, h => absurd h (report_ne_nil _ _ _)
  | .call id (.binary ..) paren arguments, r, h => absurd h (report_ne_nil _ _ _)
  | .call id (.logical ..) paren arguments, r, h => absurd h (report_ne_nil _ _ _)
  | .call id (.index ..) paren arguments, r, h => absurd h (report_ne_nil _ _ _)
  | .call id (.assign ..) paren arguments, r, h => absurd h (report_ne_nil _ _ _)
  | .call id (.assignIndex ..) paren arguments, r, h => absurd h (report_ne_nil _ _ _)
  | .call id (.assignElements ..) paren arguments, r, h => absurd h (report_ne_nil _ _ _)
  | .call id (.call ..) paren arguments, r, h => absurd h (report_ne_nil _ _ _)

theorem exprs_clean {ctx : Context} : (es : List Expr) → (r : Resolver) →
    (exprs ctx es r).2.diagnostics = [] → PassedExprs ctx es r
  | [], r, h => ⟨Passed.refl h, rfl, trivial⟩
  | e :: es, r, h => by
    have heq : exprs ctx (e :: es) r =
        ((expr ctx e r).1 :: (exprs ctx es (expr ctx e r).2).1,
          (exprs ctx es (expr ctx e r).2).2) := rfl
    rw [heq] at h
    have hs := exprs_clean es _ h
    have he := expr_clean e r hs.passed.before
    refine ⟨?_, ?_, he.checked, hs.checked⟩
    · rw [heq, exprsIds_cons]
      exact he.passed.append hs.passed
    · rw [heq, he.type, hs.types]
      rfl

theorem elements_clean {ctx : Context} {name : Token} : (es : List Expr) →
    (element : Option Ty) → (r : Resolver) →
    (elementsOf ctx name element es r).2.diagnostics = [] → PassedElements ctx name element es r
  | [], element, r, h => ⟨Passed.refl h, trivial⟩
  | e :: es, element, r, h => by
    obtain ⟨h, ⟨hc, -⟩, heq⟩ :=
      elementsOf_cons_clean (fun r h => (elements_clean es element r h).passed.before) h
    have hs := elements_clean es element _ h
    have he := expr_clean e r hs.passed.before
    rw [he.type] at hc
    refine ⟨?_, he.checked, hc, hs.checked⟩
    rw [heq, exprsIds_cons]
    exact he.passed.append hs.passed

end

section Grows

variable {ctx : Context} {name : Token} {element : Option Ty} {e : Expr} {es : List Expr}
  {r : Resolver}

/-- A walk that ends without a report began without one. -/
theorem expr_grows (h : (expr ctx e r).2.diagnostics = []) : r.diagnostics = [] :=
  (expr_clean e r h).passed.before

theorem elements_grows (h : (elementsOf ctx name element es r).2.diagnostics = []) :
    r.diagnostics = [] :=
  (elements_clean es element r h).passed.before

end Grows

end Resolve

end TickScript
