import TickScript.Proofs.Resolver.Statements

/-!
# Distances and visits

At the end of resolution the table of distances answers for every expression what the scopes
were when the walk came to it: no later entry has replaced it, because no two expressions have
the same number. So an accepted program is scoped, and `Located` holds of its expressions.
-/

namespace TickScript

/-- The walk came to the expression with as many scopes as there are frames, and the table of
distances holds what these frames say about its name. -/
structure Located (D : Table ExprId Nat) (V : List Visit) (fs : List Frame) (node : Expr) :
    Prop where
  visited : ∃ v ∈ V, v.expr = node ∧ v.state.scopes.length = fs.length
  distance : D.find? node.id = node.name?.bind fun name => fs.findIdx? (· name.lexeme)

namespace Resolve

/-- A walk from `r` to `r'` over expressions with the numbers `ids`, all of them new, after
which the final table `D` has their distances and the list `V` their visits. -/
structure Known (D : Table ExprId Nat) (V : List Visit) (ids : List ExprId) (r r' : Resolver)
    (visits : List Visit) : Prop where
  nodup : ids.Nodup
  final : ∀ i ∈ ids, D.find? i = r'.distances.find? i
  fresh : ∀ i ∈ ids, r.distances.find? i = none
  visits : visits ⊆ V

theorem distance?_eq {r : Resolver} {fs : List Frame} (h : r.scopes.map Table.contains = fs)
    (name : String) : distance? r name = fs.findIdx? (· name) := by
  rw [distance?, ← h, List.findIdx?_map]
  rfl

namespace Known

variable {D : Table ExprId Nat} {V : List Visit} {fs : List Frame} {ids sub : List ExprId} {id : ExprId}
  {r r' r₁ r₂ : Resolver} {visits own : List Visit}

/-- A part of a walk. -/
theorem part (k : Known D V ids r r' visits) (hp : sub.Sublist ids) (hv : own ⊆ visits)
    (before : ∀ i ∈ sub, r₁.distances.find? i = r.distances.find? i)
    (after : ∀ i ∈ sub, r'.distances.find? i = r₂.distances.find? i) :
    Known D V sub r₁ r₂ own where
  nodup := hp.nodup k.nodup
  final i hi := (k.final i (hp.subset hi)).trans (after i hi)
  fresh i hi := (before i hi).trans (k.fresh i (hp.subset hi))
  visits _ hv' := k.visits (hv hv')

/-- An expression without a name has no distance. -/
theorem unnamed (k : Known D V (id :: ids) r r' visits) (h : Passed ids r r') :
    D.find? id = none := by
  rw [k.final id List.mem_cons_self, h.distances id (List.nodup_cons.1 k.nodup).1,
    k.fresh id List.mem_cons_self]

/-- A name has the distance that the scopes in front of its expression say. -/
theorem named {name : Token} (k : Known D V (id :: ids) r r' visits) (h : Passed ids r r₁)
    (h' : Passed ids (locate id name r₁).2 r') (hs : r.scopes.map Table.contains = fs) :
    D.find? id = fs.findIdx? (· name.lexeme) := by
  have out := (List.nodup_cons.1 k.nodup).1
  have old : r₁.distances.find? id = none := by
    rw [h.distances id out, k.fresh id List.mem_cons_self]
  have same : distance? r₁ name.lexeme = distance? r name.lexeme := by
    rw [distance?, distance?, h.scopes]
  rw [k.final id List.mem_cons_self, h'.distances id out, ← distance?_eq hs, ← same]
  rw [locate_eq]
  cases distance? r₁ name.lexeme with
  | none => exact old
  | some d => exact Table.find?_insert_self _ _ _

/-- A name that is located behind the parts of its expression. -/
theorem named_last {name : Token} (k : Known D V (id :: ids) r (locate id name r₁).2 visits)
    (h : Passed ids r r₁) (h₁ : r₁.diagnostics = []) (hs : r.scopes.map Table.contains = fs) :
    D.find? id = fs.findIdx? (· name.lexeme) :=
  k.named h (Passed.refl (by rw [locate_diagnostics]; exact h₁)) hs

end Known

variable {D : Table ExprId Nat} {V : List Visit} {fs : List Frame} {ctx : Context}

/-- The visit of an expression with a type is among the visits. -/
theorem Known.visited {e : Expr} {r r' : Resolver} {ids : List ExprId} {visits : List Visit}
    (k : Known D V ids r r' (visit ctx e r :: visits)) (hs : r.scopes.map Table.contains = fs) :
    ∃ v ∈ V, v.expr = e ∧ v.state.scopes.length = fs.length := by
  refine ⟨visit ctx e r, k.visits List.mem_cons_self, rfl, ?_⟩
  show r.scopes.length = _
  rw [← hs, List.length_map]

/-- Behind a walk the scopes are the same. -/
theorem Passed.frames {ids : List ExprId} {r r' : Resolver} (h : Passed ids r r')
    (hs : r.scopes.map Table.contains = fs) : r'.scopes.map Table.contains = fs := by
  rw [h.scopes]
  exact hs

/-- The walks over two parts, one after the other. -/
theorem Known.split {a b : List ExprId} {r r₁ r' : Resolver} {first second : List Visit}
    (k : Known D V (a ++ b) r r' (first ++ second))
    (ha : ∀ i, i ∉ a → r₁.distances.find? i = r.distances.find? i)
    (hb : ∀ i, i ∉ b → r'.distances.find? i = r₁.distances.find? i) :
    Known D V a r r₁ first ∧ Known D V b r₁ r' second := by
  -- What one of the walks enters has no number of the other part.
  have apart := List.nodup_append.1 k.nodup
  constructor
  · refine k.part (List.sublist_append_left a b) (List.subset_append_left _ _) (fun _ _ => rfl) ?_
    exact fun i hi => hb i fun h => apart.2.2 i hi i h rfl
  · refine k.part (List.sublist_append_right a b) (List.subset_append_right _ _) ?_
      (fun _ _ => rfl)
    exact fun i hi => ha i fun h => apart.2.2 i h i hi rfl

/-- The walk over the only part. -/
theorem Known.only {id : ExprId} {a : List ExprId} {r r' : Resolver} {visits own : List Visit}
    (k : Known D V (id :: a) r r' visits) (hv : own ⊆ visits) : Known D V a r r' own :=
  k.part (List.sublist_cons_self id a) hv (fun _ _ => rfl) (fun _ _ => rfl)

/-- The walk over the only part, before the name is located. -/
theorem Known.unlocated {id : ExprId} {a : List ExprId} {r r₁ r' : Resolver}
    {visits own : List Visit} (k : Known D V (id :: a) r r' visits) (hv : own ⊆ visits)
    (h : Passed [id] r₁ r') : Known D V a r r₁ own := by
  refine k.part (List.sublist_cons_self id a) hv (fun _ _ => rfl) fun i hi => ?_
  refine h.distances i fun hm => (List.nodup_cons.1 k.nodup).1 ?_
  rw [← List.mem_singleton.1 hm]
  exact hi

/-- The walk over the only part, after the name is located. -/
theorem Known.relocated {id : ExprId} {a : List ExprId} {r r₁ r' : Resolver}
    {visits own : List Visit} (k : Known D V (id :: a) r r' visits) (hv : own ⊆ visits)
    (h : Passed [id] r r₁) : Known D V a r₁ r' own := by
  refine k.part (List.sublist_cons_self id a) hv (fun i hi => ?_) fun _ _ => rfl
  refine h.distances i fun hm => (List.nodup_cons.1 k.nodup).1 ?_
  rw [← List.mem_singleton.1 hm]
  exact hi

mutual

/-- The distance of every expression is the one with which the walk came by. -/
theorem expr_located : (e : Expr) → (r : Resolver) → (expr ctx e r).2.diagnostics = [] →
    Known D V e.ids r (expr ctx e r).2 (exprVisits ctx e r) →
    r.scopes.map Table.contains = fs → e.Each (Located D V fs)
  | .literal id value line, r, h, k, hs =>
    Expr.each_literal.2 ⟨k.visited hs, k.unnamed (Passed.refl h)⟩
  | .grouping id inner, r, h, k, hs => by
    have hi := expr_clean inner r h
    refine Expr.each_grouping.2 ⟨⟨k.visited hs, k.unnamed hi.passed⟩, ?_⟩
    exact expr_located inner r h (k.only (List.subset_cons_self _ _)) hs
  | .unary id operator right, r, h, k, hs => by
    obtain ⟨h, -, heq⟩ := unary_clean h
    rw [heq] at k
    have hi := expr_clean right r h
    refine Expr.each_unary.2 ⟨⟨k.visited hs, k.unnamed hi.passed⟩, ?_⟩
    exact expr_located right r h (k.only (List.subset_cons_self _ _)) hs
  | .binary id left operator right, r, h, k, hs => by
    obtain ⟨h, -, heq⟩ := binary_clean h
    rw [heq, Expr.ids_binary] at k
    have hr := expr_clean right _ h
    have hl := expr_clean left r hr.passed.before
    obtain ⟨kl, kr⟩ := (k.only (List.subset_cons_self _ _)).split hl.passed.distances
      hr.passed.distances
    refine Expr.each_binary.2 ⟨⟨k.visited hs, k.unnamed (hl.passed.append hr.passed)⟩, ?_, ?_⟩
    · exact expr_located left r hr.passed.before kl hs
    · exact expr_located right _ h kr (hl.passed.frames hs)
  | .logical id left operator right, r, h, k, hs => by
    obtain ⟨h, -, heq⟩ := logical_clean h
    rw [heq, Expr.ids_logical] at k
    have hr := expr_clean right _ h
    have hl := expr_clean left r hr.passed.before
    obtain ⟨kl, kr⟩ := (k.only (List.subset_cons_self _ _)).split hl.passed.distances
      hr.passed.distances
    refine Expr.each_logical.2 ⟨⟨k.visited hs, k.unnamed (hl.passed.append hr.passed)⟩, ?_, ?_⟩
    · exact expr_located left r hr.passed.before kl hs
    · exact expr_located right _ h kr (hl.passed.frames hs)
  | .var id name, r, h, k, hs => by
    obtain ⟨h, -, heq⟩ := var_clean h
    rw [heq] at k
    exact Expr.each_var.2 ⟨k.visited hs, k.named_last (Passed.refl h) h hs⟩
  | .index id name position, r, h, k, hs => by
    obtain ⟨h, ⟨-, -, ready⟩, heq⟩ := index_clean (fun _ => expr_grows) h
    rw [heq, exprVisits, ready] at k
    have hp := expr_clean position r h
    refine Expr.each_index.2 ⟨⟨k.visited hs, k.named_last hp.passed h hs⟩, ?_⟩
    exact expr_located position r h (k.unlocated (List.subset_cons_self _ _) (locate_passed h)) hs
  | .assign id name value, r, h, k, hs => by
    obtain ⟨h, -, heq⟩ := assign_clean h
    rw [heq] at k
    have hv := expr_clean value r h
    refine Expr.each_assign.2 ⟨⟨k.visited hs, k.named_last hv.passed h hs⟩, ?_⟩
    exact expr_located value r h (k.unlocated (List.subset_cons_self _ _) (locate_passed h)) hs
  | .assignIndex id name position value, r, h, k, hs => by
    obtain ⟨h, -, heq⟩ := assignIndex_clean h
    rw [heq, Expr.ids_assignIndex] at k
    have hv := expr_clean value _ h
    have hp := expr_clean position r hv.passed.before
    obtain ⟨kp, kv⟩ := (k.unlocated (List.subset_cons_self _ _) (locate_passed h)).split
      hp.passed.distances hv.passed.distances
    refine Expr.each_assignIndex.2
      ⟨⟨k.visited hs, k.named_last (hp.passed.append hv.passed) h hs⟩, ?_, ?_⟩
    · exact expr_located position r hv.passed.before kp hs
    · exact expr_located value _ h kv (hp.passed.frames hs)
  | .assignElements id name elements, r, h, k, hs => by
    obtain ⟨h, ⟨-, hv, ht⟩, heq⟩ := assignElements_clean (fun _ _ => elements_grows) h
    rw [heq, exprVisits, hv, ht] at k
    have he := elements_clean elements _ _ h
    have hl := he.passed.before
    rw [locate_diagnostics] at hl
    have passed := @locate_passed id name r hl
    refine Expr.each_assignElements.2 ⟨⟨k.visited hs, k.named (Passed.refl hl) he.passed hs⟩, ?_⟩
    exact elements_located elements _ _ h (k.relocated (List.subset_cons_self _ _) passed)
      (passed.frames hs)
  | .call id (.var calleeId name) paren arguments, r, h, k, hs => by
    obtain ⟨h, signature, -, -, heq⟩ := call_clean h
    rw [heq, Expr.ids_call] at k
    have ha := exprs_clean arguments r h
    have hl := @locate_passed calleeId name _ h
    have own := k.unnamed (.trans ha.passed.cons (hl.mono (by simp)))
    have inner := k.only (List.subset_cons_self _ _)
    refine Expr.each_call.2 ⟨⟨k.visited hs, own⟩,
      Expr.each_var.2 ⟨?_, inner.named_last ha.passed h hs⟩, ?_⟩
    · -- The callee is only looked up, behind the arguments.
      refine ⟨_, inner.visits (List.mem_append_right _ (List.mem_singleton.2 rfl)), rfl, ?_⟩
      show (exprs ctx arguments r).2.scopes.length = _
      rw [ha.passed.scopes, ← hs, List.length_map]
    · exact exprs_located arguments r h (inner.unlocated (List.subset_append_left _ _) hl) hs
  | .call id (.literal ..) paren arguments, r, h, _, _ => absurd h (report_ne_nil _ _ _)
  | .call id (.grouping ..) paren arguments, r, h, _, _ => absurd h (report_ne_nil _ _ _)
  | .call id (.unary ..) paren arguments, r, h, _, _ => absurd h (report_ne_nil _ _ _)
  | .call id (.binary ..) paren arguments, r, h, _, _ => absurd h (report_ne_nil _ _ _)
  | .call id (.logical ..) paren arguments, r, h, _, _ => absurd h (report_ne_nil _ _ _)
  | .call id (.index ..) paren arguments, r, h, _, _ => absurd h (report_ne_nil _ _ _)
  | .call id (.assign ..) paren arguments, r, h, _, _ => absurd h (report_ne_nil _ _ _)
  | .call id (.assignIndex ..) paren arguments, r, h, _, _ => absurd h (report_ne_nil _ _ _)
  | .call id (.assignElements ..) paren arguments, r, h, _, _ => absurd h (report_ne_nil _ _ _)
  | .call id (.call ..) paren arguments, r, h, _, _ => absurd h (report_ne_nil _ _ _)

theorem exprs_located : (es : List Expr) → (r : Resolver) →
    (exprs ctx es r).2.diagnostics = [] →
    Known D V (exprsIds es) r (exprs ctx es r).2 (exprsVisits ctx es r) →
    r.scopes.map Table.contains = fs → EachExpr (Located D V fs) es
  | [], _, _, _, _ => eachExpr_nil
  | e :: es, r, h, k, hs => by
    have heq : (exprs ctx (e :: es) r).2 = (exprs ctx es (expr ctx e r).2).2 := rfl
    rw [heq] at h k
    rw [exprsIds_cons] at k
    have rest := exprs_clean es _ h
    have first := expr_clean e r rest.passed.before
    obtain ⟨ke, kes⟩ := k.split first.passed.distances rest.passed.distances
    exact eachExpr_cons.2 ⟨expr_located e r rest.passed.before ke hs,
      exprs_located es _ h kes (first.passed.frames hs)⟩

theorem elements_located {name : Token} : (es : List Expr) → (element : Option Ty) →
    (r : Resolver) → (elementsOf ctx name element es r).2.diagnostics = [] →
    Known D V (exprsIds es) r (elementsOf ctx name element es r).2
      (elementsVisits ctx name element es r) →
    r.scopes.map Table.contains = fs → EachExpr (Located D V fs) es
  | [], _, _, _, _, _ => eachExpr_nil
  | e :: es, element, r, h, k, hs => by
    obtain ⟨h, ⟨-, hk⟩, heq⟩ := elementsOf_cons_clean (fun _ => elements_grows) h
    rw [heq, elementsVisits, hk, exprsIds_cons] at k
    have rest := elements_clean es element _ h
    have first := expr_clean e r rest.passed.before
    obtain ⟨ke, kes⟩ := k.split first.passed.distances rest.passed.distances
    exact eachExpr_cons.2 ⟨expr_located e r rest.passed.before ke hs,
      elements_located es element _ h kes (first.passed.frames hs)⟩

end

/-! ## Statements -/

theorem initializer_located {name : Token} {type : Ty} (htype : type ≠ .unknown)
    (start : Initializer) {r : Resolver}
    (h : (initializer ctx name type start r).2.diagnostics = [])
    (k : Known D V (start.nodes.map Expr.id) r (initializer ctx name type start r).2
      (initializerVisits ctx name type start r))
    (hs : r.scopes.map Table.contains = fs) : start.Each (Located D V fs) := by
  cases start with
  | zero => trivial
  | value e =>
    obtain ⟨h, -, heq⟩ := initializer_value_clean h
    rw [heq] at k
    exact expr_located e r h k hs
  | elements es =>
    obtain ⟨h, ⟨-, ht⟩, heq⟩ := initializer_elements_clean htype h
    rw [heq, initializerVisits, ht] at k
    exact elements_located es _ r h k hs

mutual

/-- A statement over which the walk has nothing to report is scoped. -/
theorem stmt_scoped {ctx : Context} {L : Layout} : (s : Stmt) →
    s.Each (fun _ => True) Stmt.Regular → (r : Resolver) → Fits ctx L r →
    (stmt ctx s r).2.diagnostics = [] →
    Known D V s.ids r (stmt ctx s r).2 (stmtVisits ctx s r) → s.Scoped (fun fs _ => Located D V fs) L
  | .expression e, _, r, fits, h, k => expr_located e r h k fits.frames
  | .block body, hr, r, fits, h, k => by
    exact stmts_scoped body (Stmt.each_block.1 hr).2 (entered r) fits.inBlock h
      ⟨k.nodup, k.final, k.fresh, k.visits⟩
  | .declare name type start, hr, r, fits, h, k => by
    obtain ⟨h, heq⟩ := declaration_clean h
    rw [heq] at k
    have htype := (Stmt.each_declare.1 hr).1
    obtain ⟨hp, -⟩ := initializer_clean htype start h
    obtain ⟨-, hnew, hd, fits₁⟩ := declare_clean fits hp.before
    obtain ⟨-, hd₂, -⟩ := bind_fits .defined (fits₁.of_passed hp)
    refine ⟨hnew, initializer_located htype start h ?_ fits₁.frames⟩
    exact k.part (List.Sublist.refl _) (List.Subset.refl _) (fun _ _ => by rw [hd])
      (fun _ _ => by rw [hd₂])
  | .ifThen keyword test yes, hr, r, fits, h, k => by
    obtain ⟨hn, -, hy⟩ := Stmt.each_ifThen.1 hr
    obtain ⟨ht, h, heq⟩ := ifThen_clean h
    rw [heq, stmtVisits, ht.behind, Stmt.ids_ifThen] at k
    have fits₁ := fits.of_passed ht.passed
    have hs := stmt_clean yes hy _ fits₁ h
    obtain ⟨kt, ky⟩ := k.split ht.passed.distances hs.distances
    exact ⟨expr_located test r ht.silent kt fits.frames, hn, stmt_scoped yes hy _ fits₁ h ky⟩
  | .ifElse keyword test yes no, hr, r, fits, h, k => by
    obtain ⟨⟨hn, hn'⟩, -, hy, ho⟩ := Stmt.each_ifElse.1 hr
    obtain ⟨ht, hmid, h, heq⟩ := ifElse_clean h
    rw [heq, stmtVisits, ht.behind, Stmt.ids_ifElse] at k
    have fits₁ := fits.of_passed ht.passed
    have hs := stmt_clean yes hy _ fits₁ hmid
    have fits₂ := hs.fits
    rw [Layout.after_of_none hn] at fits₂
    have hs' := stmt_clean no ho _ fits₂ h
    have before : ∀ i, i ∉ test.ids ++ yes.ids →
        (stmt ctx yes (expr ctx test r).2).2.distances.find? i = r.distances.find? i := by
      intro i hi
      rw [List.mem_append, not_or] at hi
      rw [hs.distances i hi.2, ht.passed.distances i hi.1]
    obtain ⟨kty, kn⟩ := k.split before hs'.distances
    obtain ⟨kt, ky⟩ := kty.split ht.passed.distances hs.distances
    exact ⟨expr_located test r ht.silent kt fits.frames, ⟨hn, stmt_scoped yes hy _ fits₁ hmid ky⟩,
      hn', stmt_scoped no ho _ fits₂ h kn⟩
  | .while keyword test body, hr, r, fits, h, k => by
    obtain ⟨hn, -, hy⟩ := Stmt.each_while.1 hr
    obtain ⟨ht, h, heq⟩ := while_clean h
    rw [heq, stmtVisits, ht.behind, Stmt.ids_while] at k
    have fits₁ : Fits { ctx with inLoop := true } L (expr ctx test r).2 :=
      { fits.of_passed ht.passed with }
    have hs := stmt_clean body hy _ fits₁ h
    obtain ⟨kt, kb⟩ := k.split ht.passed.distances hs.distances
    exact ⟨expr_located test r ht.silent kt fits.frames, hn, stmt_scoped body hy _ fits₁ h kb⟩
  | .return keyword none, _, r, _, _, _ => by
    intro e he
    cases he
  | .return keyword (some e), _, r, fits, h, k => by
    obtain ⟨h, -, heq⟩ := return_some_clean h
    rw [heq] at k
    intro e' he
    cases he
    exact expr_located e r h k fits.frames
  | .break keyword, _, _, _, _, _ => trivial
  | .continue keyword, _, _, _, _, _ => trivial
  | .function header body, hr, r, fits, h, k => by
    obtain ⟨h, -, heq⟩ := function_clean h
    rw [heq] at k
    have enter := function_entered fits (stmts_grows body h)
    refine ⟨?_, enter.fresh, enter.nodup, ?_⟩
    · rw [fits.inFunction, enter.outside]
      rfl
    · refine stmts_scoped body (Stmt.each_function.1 hr).2 _ enter.fits h ?_
      exact ⟨k.nodup, k.final, fun i hi => by rw [enter.distances]; exact k.fresh i hi, k.visits⟩

theorem stmts_scoped {ctx : Context} {L : Layout} : (ss : List Stmt) →
    EachStmt (fun _ => True) Stmt.Regular ss → (r : Resolver) → Fits ctx L r →
    (stmts ctx ss r).2.diagnostics = [] →
    Known D V (stmtsIds ss) r (stmts ctx ss r).2 (stmtsVisits ctx ss r) →
    StmtsScoped (fun fs _ => Located D V fs) L ss
  | [], _, _, _, _, _ => trivial
  | s :: ss, hr, r, fits, h, k => by
    obtain ⟨hs, hss⟩ := eachStmt_cons.1 hr
    obtain ⟨hfirst, hrest, heq⟩ := stmts_cons_clean h
    rw [heq, stmtsIds_cons] at k
    have first := stmt_clean s hs r fits hfirst
    have rest := stmts_clean ss hss _ first.fits hrest
    obtain ⟨ks, kss⟩ := k.split first.distances rest.distances
    exact ⟨stmt_scoped s hs r fits hfirst ks, stmts_scoped ss hss _ first.fits hrest kss⟩

end

end Resolve

end TickScript
