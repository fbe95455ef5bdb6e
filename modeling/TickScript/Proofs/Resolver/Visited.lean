import TickScript.Proofs.Resolver.Statements

/-!
# What resolution has seen

Where resolution has nothing to report, each of its visits is one of two kinds. Either the
expression was given its static type, without a report; or it is the name of a called function,
which is only looked up. While resolution is inside an expression, no name is declared.
-/

namespace TickScript

/-- A visit on the way through the expressions `nodes`, which use the names `uses`. The way began
in the state `r`. -/
structure Visit.Seen (σ : Signatures) (r : Resolver) (nodes : List Expr) (uses : List Token)
    (v : Visit) : Prop where
  scopes : v.state.scopes = r.scopes
  globals : v.state.globals = r.globals
  kind : (v.type = none ∧ ∃ id paren arguments, .call id v.expr paren arguments ∈ nodes) ∨
    ∃ ctx : Context, ctx.signatures = σ ∧ v.type = some (Resolve.expr ctx v.expr v.state).1 ∧
      (Resolve.expr ctx v.expr v.state).2.diagnostics = [] ∧
      ∀ name, v.expr.name? = some name → name ∈ uses

namespace Visit.Seen

variable {σ : Signatures} {r r' : Resolver} {nodes nodes' : List Expr} {uses uses' : List Token}
  {v : Visit}

theorem mono (h : v.Seen σ r' nodes uses) (hn : nodes ⊆ nodes') (hu : uses ⊆ uses')
    (hs : r'.scopes = r.scopes) (hg : r'.globals = r.globals) : v.Seen σ r nodes' uses' where
  scopes := h.scopes.trans hs
  globals := h.globals.trans hg
  kind := by
    rcases h.kind with ⟨ht, id, paren, arguments, hc⟩ | ⟨ctx, hσ, ht, hd, hname⟩
    · exact .inl ⟨ht, id, paren, arguments, hn hc⟩
    · exact .inr ⟨ctx, hσ, ht, hd, fun name h => hu (hname name h)⟩

/-- The type of a visit is the static type of its expression. -/
theorem type (h : v.Seen σ r nodes uses) {τ : Ty} (ht : v.type = some τ) :
    τ = v.expr.type σ ∧ ∀ name, v.expr.name? = some name → name ∈ uses := by
  rcases h.kind with ⟨hn, -⟩ | ⟨ctx, rfl, ht', hd, hname⟩
  · rw [hn] at ht
    cases ht
  · rw [ht'] at ht
    cases ht
    exact ⟨(Resolve.expr_clean v.expr v.state hd).type, hname⟩

end Visit.Seen

namespace Resolve

/-- All of the visits are. -/
def Sees (σ : Signatures) (r : Resolver) (nodes : List Expr) (uses : List Token)
    (visits : List Visit) : Prop :=
  ∀ v ∈ visits, v.Seen σ r nodes uses

section Expressions

variable {ctx : Context} {σ : Signatures} {r r' : Resolver} {nodes nodes' : List Expr}
  {uses uses' : List Token} {visits others : List Visit}

theorem Sees.mono (h : Sees σ r' nodes uses visits) (hn : nodes ⊆ nodes') (hu : uses ⊆ uses')
    (hs : r'.scopes = r.scopes) (hg : r'.globals = r.globals) : Sees σ r nodes' uses' visits :=
  fun v hv => (h v hv).mono hn hu hs hg

theorem Sees.append (h : Sees σ r nodes uses visits) (h' : Sees σ r nodes uses others) :
    Sees σ r nodes uses (visits ++ others) := by
  intro v hv
  rcases List.mem_append.1 hv with hv | hv
  · exact h v hv
  · exact h' v hv

/-- An expression is given its type, and then come the visits in it. -/
theorem sees_visit {e : Expr} (h : (expr ctx e r).2.diagnostics = [])
    (hn : ∀ name, e.name? = some name → name ∈ uses)
    (inner : Sees ctx.signatures r nodes uses visits) :
    Sees ctx.signatures r nodes uses (visit ctx e r :: visits) := by
  intro v hv
  rcases List.mem_cons.1 hv with rfl | hv
  · exact ⟨rfl, rfl, .inr ⟨ctx, rfl, rfl, h, hn⟩⟩
  · exact inner v hv

mutual

theorem expr_seen : (e : Expr) → (r : Resolver) → (expr ctx e r).2.diagnostics = [] →
    Sees ctx.signatures r e.nodes e.uses (exprVisits ctx e r)
  | .literal id value line, r, h => by
    rw [exprVisits]
    exact sees_visit h (by simp [Expr.name?]) (by simp [Sees])
  | .grouping id inner, r, h => by
    rw [exprVisits]
    refine sees_visit h (by simp [Expr.name?]) ?_
    exact (expr_seen inner r h).mono (by simp) (by simp [Expr.uses]) rfl rfl
  | .unary id operator right, r, h => by
    rw [exprVisits]
    refine sees_visit h (by simp [Expr.name?]) ?_
    exact (expr_seen right r (unary_clean h).1).mono (by simp) (by simp [Expr.uses]) rfl rfl
  | .binary id left operator right, r, h => by
    rw [exprVisits]
    refine sees_visit h (by simp [Expr.name?]) ?_
    have hr := (binary_clean h).1
    have hl := expr_grows hr
    have passed := (expr_clean left r hl).passed
    refine .append ?_ ?_
    · exact (expr_seen left r hl).mono (by simp) (by simp [Expr.uses]) rfl rfl
    · exact (expr_seen right _ hr).mono (by simp) (by simp [Expr.uses]) passed.scopes passed.globals
  | .logical id left operator right, r, h => by
    rw [exprVisits]
    refine sees_visit h (by simp [Expr.name?]) ?_
    have hr := (logical_clean h).1
    have hl := expr_grows hr
    have passed := (expr_clean left r hl).passed
    refine .append ?_ ?_
    · exact (expr_seen left r hl).mono (by simp) (by simp [Expr.uses]) rfl rfl
    · exact (expr_seen right _ hr).mono (by simp) (by simp [Expr.uses]) passed.scopes passed.globals
  | .var id name, r, h => by
    rw [exprVisits]
    refine sees_visit h ?_ (by simp [Sees])
    rintro _ ⟨⟩
    simp [Expr.uses]
  | .index id name position, r, h => by
    rw [exprVisits]
    refine sees_visit h ?_ ?_
    · rintro _ ⟨⟩
      simp [Expr.uses]
    · obtain ⟨hp, ⟨-, -, ready⟩, -⟩ := index_clean (fun _ => expr_grows) h
      rw [ready]
      exact (expr_seen position r hp).mono (by simp) (by simp [Expr.uses]) rfl rfl
  | .assign id name value, r, h => by
    rw [exprVisits]
    refine sees_visit h ?_ ?_
    · rintro _ ⟨⟩
      simp [Expr.uses]
    · exact (expr_seen value r (assign_clean h).1).mono (by simp) (by simp [Expr.uses]) rfl rfl
  | .assignIndex id name position value, r, h => by
    rw [exprVisits]
    refine sees_visit h ?_ ?_
    · rintro _ ⟨⟩
      simp [Expr.uses]
    · have hv := (assignIndex_clean h).1
      have hp := expr_grows hv
      have passed := (expr_clean position r hp).passed
      refine .append ?_ ?_
      · exact (expr_seen position r hp).mono (by simp) (by simp [Expr.uses]) rfl rfl
      · exact (expr_seen value _ hv).mono (by simp) (by simp [Expr.uses]) passed.scopes
          passed.globals
  | .assignElements id name elements, r, h => by
    rw [exprVisits]
    refine sees_visit h ?_ ?_
    · rintro _ ⟨⟩
      simp [Expr.uses]
    · obtain ⟨he, ⟨-, hv, ht⟩, -⟩ := assignElements_clean (fun _ _ => elements_grows) h
      rw [hv, ht]
      have before := elements_grows he
      rw [locate_diagnostics] at before
      have located := @locate_passed id name r before
      exact (elements_seen elements _ _ he).mono (by simp) (by simp [Expr.uses]) located.scopes
        located.globals
  | .call id (.var calleeId name) paren arguments, r, h => by
    rw [exprVisits]
    refine sees_visit h (by simp [Expr.name?]) ?_
    have ha := (call_clean h).1
    have passed := (exprs_clean arguments r ha).passed
    refine .append ?_ ?_
    · exact (exprs_seen arguments r ha).mono (by simp) (by simp [Expr.uses]) rfl rfl
    · intro v hv
      rw [List.mem_singleton.1 hv]
      exact ⟨passed.scopes, passed.globals,
        .inl ⟨rfl, id, paren, arguments, Expr.mem_nodes_self _⟩⟩
  | .call id (.literal ..) paren arguments, r, h => absurd h (report_ne_nil _ _ _)
  | .call id (.grouping ..) paren arguments, r, h => absurd h (report_ne_nil _ _ _)
  | .call id (.unary ..) paren arguments, r, h => absurd h (report_ne_nil _ _ _)
  | .call id (.binary ..) paren arguments, r, h => absurd h (report_ne_nil _ _ _)
  | .call id (.logical ..) paren arguments, r, h => absurd h (report_ne_nil _ _ _)
  | .call id (.index ..) paren arguments, r, h => absurd h (report_ne_nil _ _ _)
  | .call id (.assign ..) paren arguments, r, h => absurd h (report_ne_nil _ _ _)
  | .call id (.assignIndex ..) paren arguments, r, h => absurd h (report_ne_nil _ _ _)
  | .call id (.assignElements ..) paren arguments, r, h => absurd h (report_ne_nil _ _ _)
  | .call id (.call ..) paren arguments, r, h => absurd h (report_ne_nil _ _ _)

theorem exprs_seen : (es : List Expr) → (r : Resolver) → (exprs ctx es r).2.diagnostics = [] →
    Sees ctx.signatures r (exprsNodes es) (exprsUses es) (exprsVisits ctx es r)
  | [], _, _ => by simp [Sees, exprsVisits]
  | e :: es, r, h => by
    have heq : (exprs ctx (e :: es) r).2 = (exprs ctx es (expr ctx e r).2).2 := rfl
    rw [heq] at h
    rw [exprsVisits]
    have he := (exprs_clean es _ h).passed.before
    have passed := (expr_clean e r he).passed
    refine .append ?_ ?_
    · exact (expr_seen e r he).mono (by simp) (by simp [exprsUses]) rfl rfl
    · exact (exprs_seen es _ h).mono (by simp) (by simp [exprsUses]) passed.scopes passed.globals

theorem elements_seen {name : Token} : (es : List Expr) → (element : Option Ty) →
    (r : Resolver) → (elementsOf ctx name element es r).2.diagnostics = [] →
    Sees ctx.signatures r (exprsNodes es) (exprsUses es) (elementsVisits ctx name element es r)
  | [], _, _, _ => by simp [Sees, elementsVisits]
  | e :: es, element, r, h => by
    obtain ⟨hes, ⟨-, hk⟩, -⟩ := elementsOf_cons_clean (fun _ => elements_grows) h
    rw [elementsVisits, hk]
    have he := elements_grows hes
    have passed := (expr_clean e r he).passed
    refine .append ?_ ?_
    · exact (expr_seen e r he).mono (by simp) (by simp [exprsUses]) rfl rfl
    · exact (elements_seen es element _ hes).mono (by simp) (by simp [exprsUses]) passed.scopes
        passed.globals

end

theorem initializer_seen {name : Token} {type : Ty} (htype : type ≠ .unknown)
    (start : Initializer) (h : (initializer ctx name type start r).2.diagnostics = []) :
    Sees ctx.signatures r start.nodes start.uses (initializerVisits ctx name type start r) := by
  cases start with
  | zero => simp [Sees, initializerVisits]
  | value e => exact expr_seen e r (initializer_value_clean h).1
  | elements es =>
    obtain ⟨he, ⟨-, ht⟩, -⟩ := initializer_elements_clean htype h
    rw [initializerVisits, ht]
    exact elements_seen es _ r he

end Expressions

/-! ## Names in their own initial values -/

/-- While a name is being declared, it is pending. -/
theorem declare_pending {ctx : Context} {name : Token} {r : Resolver}
    (h : (declare ctx name r).2.diagnostics = []) :
    isPending (declare ctx name r).2 name.lexeme = true := by
  by_cases he : r.scopes.isEmpty = true
  · rw [declare_outermost ctx name he] at h ⊢
    split at h
    · exact absurd h (report_ne_nil _ _ _)
    · next hc =>
      rw [if_neg hc]
      simp [isPending, List.isEmpty_iff.1 he]
  · obtain ⟨scope, outer, hs⟩ : ∃ scope outer, r.scopes = scope :: outer :=
      List.exists_cons_of_ne_nil fun e => he (by rw [e]; rfl)
    rw [declare_inner ctx name he] at h ⊢
    rw [insert_diagnostics] at h
    rw [(require_clean h).2, insert_cons _ _ hs]
    simp [isPending]

theorem isPending_congr {r r' : Resolver} (hs : r'.scopes = r.scopes)
    (hg : r'.globals = r.globals) (name : String) : isPending r' name = isPending r name := by
  rw [isPending, isPending, hs, hg]

/-- What is read without a report is not pending. -/
theorem read_ready {ctx : Context} {e : Expr} {name : Token} {r : Resolver}
    (h : (expr ctx e r).2.diagnostics = []) (hn : e.name? = some name)
    (hw : e.assigns = false) : isPending r name.lexeme = false := by
  cases e with
  | var id t =>
    cases hn
    obtain ⟨-, ⟨-, -, settled⟩, -⟩ := var_clean h
    exact settled
  | index id t position =>
    cases hn
    obtain ⟨-, ⟨-, settled, -⟩, -⟩ := index_clean (fun _ => expr_grows) h
    exact settled
  | assign => cases hw
  | assignIndex => cases hw
  | assignElements => cases hw
  | _ => cases hn

end Resolve

/-- The name of a declaration is not read in its initial value, but it may be assigned to and
called there. -/
def Stmt.Ready : Stmt → Prop
  | .declare name _ start => ∀ e ∈ start.nodes, ∀ t, e.name? = some t → t.lexeme = name.lexeme →
      e.assigns = true ∨ ∃ id paren arguments, .call id e paren arguments ∈ start.nodes
  | _ => True

namespace Resolve

/-- Initial values that were walked through without a report do not read the name they are
for. -/
theorem declare_ready {ctx : Context} {name : Token} {type : Ty} (htype : type ≠ .unknown)
    {start : Initializer} {r : Resolver}
    (h : (initializer ctx name type start (declare ctx name r).2).2.diagnostics = []) :
    (Stmt.declare name type start).Ready := by
  intro e he t hname hlex
  have pending := declare_pending (initializer_grows h)
  -- The expression was visited while the name was pending.
  obtain ⟨v, hv, rfl⟩ : ∃ v ∈ initializerVisits ctx name type start (declare ctx name r).2,
      v.expr = e := List.mem_map.1 ((initializerVisits_perm ctx name type start _).mem_iff.2 he)
  have seen := initializer_seen htype start h v hv
  rcases seen.kind with ⟨-, called⟩ | ⟨ctx', -, -, hd, -⟩
  · exact .inr called
  · refine .inl (Bool.of_not_eq_false fun hw => ?_)
    have ready := read_ready hd hname hw
    rw [hlex, isPending_congr seen.scopes seen.globals, pending] at ready
    cases ready

/-! ## Statements -/

/-- What the visits of a program and its parts come to. -/
structure Surveyed (σ : Signatures) (uses : List Token) (parts : List Stmt)
    (visits : List Visit) : Prop where
  types : ∀ v ∈ visits, ∀ τ, v.type = some τ →
    τ = v.expr.type σ ∧ ∀ name, v.expr.name? = some name → name ∈ uses
  ready : ∀ part ∈ parts, part.Ready

section Statements

variable {σ : Signatures} {uses uses' : List Token} {parts parts' : List Stmt}
  {visits visits' : List Visit}

theorem Surveyed.mono (h : Surveyed σ uses parts visits) (hu : uses ⊆ uses') :
    Surveyed σ uses' parts visits where
  types v hv τ ht := ⟨(h.types v hv τ ht).1, fun name hn => hu ((h.types v hv τ ht).2 name hn)⟩
  ready := h.ready

theorem Surveyed.append (h : Surveyed σ uses parts visits)
    (h' : Surveyed σ uses' parts' visits') :
    Surveyed σ (uses ++ uses') (parts ++ parts') (visits ++ visits') where
  types v hv := by
    rcases List.mem_append.1 hv with hv | hv
    · exact (h.mono (List.subset_append_left _ _)).types v hv
    · exact (h'.mono (List.subset_append_right _ _)).types v hv
  ready part hp := by
    rcases List.mem_append.1 hp with hp | hp
    · exact h.ready part hp
    · exact h'.ready part hp

/-- A statement around others. -/
theorem Surveyed.around (h : Surveyed σ uses parts visits) {s : Stmt} (hs : s.Ready) :
    Surveyed σ uses (s :: parts) visits where
  types := h.types
  ready := List.forall_mem_cons.2 ⟨hs, h.ready⟩

theorem Sees.surveyed {r : Resolver} {nodes : List Expr} (h : Sees σ r nodes uses visits) :
    Surveyed σ uses [] visits where
  types v hv _ ht := (h v hv).type ht
  ready := by simp

theorem surveyed_nil : Surveyed σ [] [] [] :=
  ⟨by simp, by simp⟩

mutual

theorem stmt_surveyed {ctx : Context} : (s : Stmt) → s.Each (fun _ => True) Stmt.Regular →
    (r : Resolver) → (stmt ctx s r).2.diagnostics = [] →
    Surveyed ctx.signatures s.uses s.parts (stmtVisits ctx s r)
  | .expression e, _, r, h => by
    rw [stmtVisits, Stmt.uses, Stmt.parts]
    exact (expr_seen e r h).surveyed.around trivial
  | .block body, hr, r, h => by
    rw [stmtVisits, Stmt.uses, Stmt.parts]
    exact (stmts_surveyed body (Stmt.each_block.1 hr).2 (entered r) h).around trivial
  | .declare name type start, hr, r, h => by
    have hi := (declaration_clean h).1
    have htype := (Stmt.each_declare.1 hr).1
    rw [stmtVisits, Stmt.uses, Stmt.parts]
    refine ((initializer_seen htype start hi).surveyed.mono ?_).around (declare_ready htype hi)
    exact List.subset_cons_self _ _
  | .ifThen keyword test yes, hr, r, h => by
    obtain ⟨ht, hyes, -⟩ := ifThen_clean h
    rw [stmtVisits, Stmt.uses, Stmt.parts, ht.behind]
    have hy := stmt_surveyed yes (Stmt.each_ifThen.1 hr).2.2 _ hyes
    exact ((expr_seen test r ht.silent).surveyed.append hy).around trivial
  | .ifElse keyword test yes no, hr, r, h => by
    obtain ⟨ht, hyes, hno, -⟩ := ifElse_clean h
    rw [stmtVisits, Stmt.uses, Stmt.parts, ht.behind, ← List.append_assoc]
    have hy := stmt_surveyed yes (Stmt.each_ifElse.1 hr).2.2.1 _ hyes
    have hn := stmt_surveyed no (Stmt.each_ifElse.1 hr).2.2.2 _ hno
    exact (((expr_seen test r ht.silent).surveyed.append hy).append hn).around trivial
  | .while keyword test body, hr, r, h => by
    obtain ⟨ht, hbody, -⟩ := while_clean h
    rw [stmtVisits, Stmt.uses, Stmt.parts, ht.behind]
    have hb := stmt_surveyed body (Stmt.each_while.1 hr).2.2 _ hbody
    exact ((expr_seen test r ht.silent).surveyed.append hb).around trivial
  | .return keyword none, _, r, h => by
    rw [stmtVisits, Stmt.uses, Stmt.parts]
    exact surveyed_nil.around trivial
  | .return keyword (some e), _, r, h => by
    rw [stmtVisits, Stmt.uses, Stmt.parts]
    exact (expr_seen e r (return_some_clean h).1).surveyed.around trivial
  | .break keyword, _, r, h => by
    rw [stmtVisits, Stmt.uses, Stmt.parts]
    exact surveyed_nil.around trivial
  | .continue keyword, _, r, h => by
    rw [stmtVisits, Stmt.uses, Stmt.parts]
    exact surveyed_nil.around trivial
  | .function header body, hr, r, h => by
    rw [stmtVisits, Stmt.uses, Stmt.parts]
    have hb := stmts_surveyed body (Stmt.each_function.1 hr).2 _ (function_clean h).1
    exact (hb.mono (List.subset_append_right _ _)).around trivial

theorem stmts_surveyed {ctx : Context} : (ss : List Stmt) →
    EachStmt (fun _ => True) Stmt.Regular ss → (r : Resolver) →
    (stmts ctx ss r).2.diagnostics = [] →
    Surveyed ctx.signatures (stmtsUses ss) (stmtsParts ss) (stmtsVisits ctx ss r)
  | [], _, _, _ => by
    rw [stmtsVisits, stmtsUses, stmtsParts]
    exact surveyed_nil
  | s :: ss, hr, r, h => by
    obtain ⟨hs, hss⟩ := eachStmt_cons.1 hr
    obtain ⟨hfirst, hrest, -⟩ := stmts_cons_clean h
    rw [stmtsVisits, stmtsUses, stmtsParts]
    exact (stmt_surveyed s hs r hfirst).append (stmts_surveyed ss hss _ hrest)

end

end Statements

end Resolve

end TickScript
