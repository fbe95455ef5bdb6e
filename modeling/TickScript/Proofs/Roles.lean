import TickScript.Proofs.Compiled
import TickScript.Proofs.Grammar.Hoisted
import TickScript.Proofs.Simulation.Run
import TickScript.Proofs.Typing.Start

/-!
# Which names are functions

In a scope a name is declared once, as a function or as a variable. So each scope has its
functions, and they are known beforehand: those of a block are the functions that stand directly
in it, whatever has been run of it so far.

Resolution keeps a table of the names of each scope and of what they are. As far as a table goes,
it agrees with the functions of its scope: a name that is a variable in the table is none of them.
Names that are not in a table yet, such as functions that come later, are what resolution does not
know of.
-/

namespace TickScript

variable {ω : Type}

/-! ## The functions of a scope -/

/-- The functions that are declared directly among statements. -/
def functionsOf (ss : List Stmt) : Frame :=
  fun n => ss.any fun s => s.isFunction && s.binds? == some n

theorem functionsOf_iff {ss : List Stmt} {n : String} :
    functionsOf ss n = true ↔
      ∃ header body, .function header body ∈ ss ∧ header.name.lexeme = n := by
  simp only [functionsOf, List.any_eq_true, Bool.and_eq_true, beq_iff_eq]
  constructor
  · rintro ⟨s, hs, hf, hn⟩
    cases s with
    | function header body => exact ⟨header, body, hs, Option.some.inj hn⟩
    | _ => cases hf
  · rintro ⟨header, body, hs, rfl⟩
    exact ⟨_, hs, rfl, rfl⟩

/-- The functions of the outermost scope: the built-in ones, those of the host, and those that a
program declares outside of all blocks. -/
def outermostFunctions (host : Host ω) (statements : List Stmt) : Frame :=
  fun n => (Builtin.all.map Builtin.name ++ host.functions.map HostFunction.name).contains n ||
    functionsOf statements n

theorem outermostFunctions_iff {host : Host ω} {statements : List Stmt} {n : String} :
    outermostFunctions host statements n = true ↔
      (∃ b : Builtin, b.name = n) ∨ (∃ f ∈ host.functions, f.name = n) ∨
        functionsOf statements n = true := by
  simp only [outermostFunctions, Bool.or_eq_true, List.contains_iff_mem, List.mem_append,
    List.mem_map, or_assoc]
  constructor
  · rintro (⟨b, -, hb⟩ | h)
    · exact .inl ⟨b, hb⟩
    · exact .inr h
  · rintro (⟨b, hb⟩ | h)
    · exact .inl ⟨b, b.mem_all, hb⟩
    · exact .inr h

mutual

/-- A statement stands among scopes with the functions `Fs`, innermost first and without the
outermost scope, whose functions are `top`. Functions are declared where they belong, variables
and parameters have types that say something, and every expression satisfies `Q` with the
functions around it. -/
def Stmt.Stands (Q : List Frame → Expr → Prop) (top : Frame) (Fs : List Frame) : Stmt → Prop
  | .expression e => e.Each (Q Fs)
  | .block body => StmtsStand Q top (functionsOf body :: Fs) body
  | .declare _ type start => type.isWild = false ∧ start.Each (Q Fs)
  | .ifThen _ test yes => test.Each (Q Fs) ∧ yes.Stands Q top Fs
  | .ifElse _ test yes no => test.Each (Q Fs) ∧ yes.Stands Q top Fs ∧ no.Stands Q top Fs
  | .while _ test body => test.Each (Q Fs) ∧ body.Stands Q top Fs
  | .return _ value => ∀ e, value = some e → e.Each (Q Fs)
  | .break _ => True
  | .continue _ => True
  | .function header body =>
    Fs.headD top header.name.lexeme = true ∧ (∀ p ∈ header.parameters, p.type.isWild = false) ∧
      StmtsStand Q top (functionsOf body :: Fs) body

def StmtsStand (Q : List Frame → Expr → Prop) (top : Frame) (Fs : List Frame) : List Stmt → Prop
  | [] => True
  | s :: ss => s.Stands Q top Fs ∧ StmtsStand Q top Fs ss

end

mutual

/-- What holds of every expression, wherever it stands, holds of each. -/
theorem Stmt.Stands.node {Q : List Frame → Expr → Prop} {top : Frame} {e : Expr} : (s : Stmt) →
    ∀ {Fs : List Frame}, s.Stands Q top Fs → e ∈ s.nodes → ∃ Fs', Q Fs' e
  | .expression _, Fs, h, he => ⟨Fs, h e he⟩
  | .block body, _, h, he => StmtsStand.node body h he
  | .declare _ _ start, Fs, h, he => ⟨Fs, Initializer.each_iff.1 h.2 e he⟩
  | .ifThen _ test yes, Fs, h, he => by
    rcases List.mem_append.1 he with he | he
    · exact ⟨Fs, h.1 e he⟩
    · exact Stmt.Stands.node yes h.2 he
  | .ifElse _ test yes no, Fs, h, he => by
    rcases List.mem_append.1 he with he | he
    · rcases List.mem_append.1 he with he | he
      · exact ⟨Fs, h.1 e he⟩
      · exact Stmt.Stands.node yes h.2.1 he
    · exact Stmt.Stands.node no h.2.2 he
  | .while _ test body, Fs, h, he => by
    rcases List.mem_append.1 he with he | he
    · exact ⟨Fs, h.1 e he⟩
    · exact Stmt.Stands.node body h.2 he
  | .return _ none, _, _, he => by simp at he
  | .return _ (some value), Fs, h, he => ⟨Fs, h value rfl e he⟩
  | .break _, _, _, he => by simp at he
  | .continue _, _, _, he => by simp at he
  | .function _ body, _, h, he => StmtsStand.node body h.2.2 he

theorem StmtsStand.node {Q : List Frame → Expr → Prop} {top : Frame} {e : Expr} :
    (ss : List Stmt) → ∀ {Fs : List Frame}, StmtsStand Q top Fs ss → e ∈ stmtsNodes ss →
    ∃ Fs', Q Fs' e
  | [], _, _, he => by simp at he
  | s :: ss, _, h, he => by
    rcases List.mem_append.1 he with he | he
    · exact Stmt.Stands.node s h.1 he
    · exact StmtsStand.node ss h.2 he

end

/-! ## Declared once -/

section Once

variable {P : List Frame → List Frame → Expr → Prop} {n : String}

theorem Stmt.Scoped.fresh {L : Layout} {s : Stmt} (h : s.Scoped P L) (hn : s.binds? = some n) :
    L.declares n = false := by
  cases s with
  | declare name type start =>
    cases hn
    exact h.1
  | function header body =>
    cases hn
    exact h.2.1
  | _ => cases hn

theorem StmtsScoped.fresh {ss : List Stmt} : ∀ {L : Layout}, StmtsScoped P L ss → ∀ {s : Stmt},
    s ∈ ss → s.binds? = some n → L.declares n = false := by
  induction ss with
  | nil => exact fun _ _ hs => absurd hs List.not_mem_nil
  | cons first ss ih =>
    intro L h s hs hn
    rcases List.mem_cons.1 hs with rfl | hs
    · exact h.1.fresh hn
    · rw [Bool.eq_false_iff]
      intro hd
      have hfresh := ih h.2 hs hn
      rw [Layout.declares_after hd first] at hfresh
      cases hfresh

/-- Among statements of one scope, a name is declared only once. -/
theorem StmtsScoped.once {ss : List Stmt} : ∀ {L : Layout}, StmtsScoped P L ss → ∀ {s t : Stmt},
    s ∈ ss → t ∈ ss → s.binds? = some n → t.binds? = some n → s = t := by
  have later : ∀ {L : Layout} {first : Stmt} {ss : List Stmt}, StmtsScoped P L (first :: ss) →
      ∀ {t : Stmt}, t ∈ ss → first.binds? = some n → t.binds? ≠ some n := by
    intro L first ss h t ht hfirst hn
    have hfresh := StmtsScoped.fresh h.2 ht hn
    rw [Layout.after, hfirst, L.declares_add_self] at hfresh
    cases hfresh
  induction ss with
  | nil => exact fun _ _ _ hs => absurd hs List.not_mem_nil
  | cons first ss ih =>
    intro L h s t hs ht hsn htn
    rcases List.mem_cons.1 hs with rfl | hs'
    · rcases List.mem_cons.1 ht with rfl | ht'
      · rfl
      · exact absurd htn (later h ht' hsn)
    · rcases List.mem_cons.1 ht with rfl | ht'
      · exact absurd hsn (later h hs' htn)
      · exact ih h.2 hs' ht' hsn htn

/-- A variable of a scope is none of its functions. -/
theorem StmtsScoped.not_function {L : Layout} {ss : List Stmt} (h : StmtsScoped P L ss)
    {name : Token} {type : Ty} {start : Initializer} (hs : .declare name type start ∈ ss) :
    functionsOf ss name.lexeme = false := by
  rw [Bool.eq_false_iff]
  intro hf
  obtain ⟨header, body, hm, hn⟩ := functionsOf_iff.1 hf
  cases h.once hs hm rfl (congrArg some hn)

/-- The body of a function has no functions. -/
theorem StmtsScoped.no_functions {L : Layout} {ss : List Stmt} (h : StmtsScoped P L ss)
    (hin : L.inFunction = true) (n : String) : functionsOf ss n = false := by
  rw [Bool.eq_false_iff]
  intro hf
  obtain ⟨header, body, hm, -⟩ := functionsOf_iff.1 hf
  have part : (Stmt.function header body) ∈ stmtsParts ss :=
    mem_stmtsParts.2 ⟨_, hm, Stmt.mem_parts_self _⟩
  have plain : EachStmt (Permits.bodies fun _ => False).Node (Permits.bodies fun _ => False).Part
      ss := StmtsScoped.plain hin ss h
  exact (plain.2 _ part).1

end Once

/-! ## What resolution knows -/

/-- A table of names agrees with the functions of its scope: names that are functions there are
none but functions in the table, and all its names are good ones. -/
def Table.Agrees (good : String → Prop) (table : Table String Binding) (F : Frame) : Prop :=
  ∀ n b, table.find? n = some b → good n ∧ (F n = true → b = .function)

theorem Table.Agrees.insert {good : String → Prop} {table : Table String Binding} {F : Frame}
    (h : table.Agrees good F) {name : String} {binding : Binding} (hgood : good name)
    (hb : F name = true → binding = .function) : (table.insert name binding).Agrees good F := by
  intro n b hn
  rw [Table.find?_insert] at hn
  split at hn
  · next e =>
    cases hn
    rw [e]
    exact ⟨hgood, hb⟩
  · exact h n b hn

namespace Resolve

/-- What resolution knows of names is right. -/
structure Kinds (good : String → Prop) (top : Frame) (Fs : List Frame) (r : Resolver) : Prop where
  scopes : List.Forall₂ (Table.Agrees good) r.scopes Fs
  globals : r.globals.Agrees (fun _ => True) top

section Steps

variable {good : String → Prop} {top F : Frame} {Fs : List Frame} {r r' : Resolver}
  {ctx : Context} {name : Token} {binding : Binding}

theorem Kinds.same (h : Kinds good top Fs r) (hs : r'.scopes = r.scopes)
    (hg : r'.globals = r.globals) : Kinds good top Fs r' :=
  ⟨by rw [hs]; exact h.scopes, by rw [hg]; exact h.globals⟩

theorem Kinds.enter (h : Kinds good top Fs r) (F : Frame) :
    Kinds good top (F :: Fs) (entered r) :=
  ⟨.cons (fun n b hn => by cases hn) h.scopes, h.globals⟩

theorem Kinds.leave (h : Kinds good top (F :: Fs) r) :
    Kinds good top Fs { r with scopes := r.scopes.tail } := by
  obtain ⟨table, tables, -, ht, hs⟩ := List.forall₂_cons_right_iff.1 h.scopes
  refine ⟨?_, h.globals⟩
  rw [hs]
  exact ht

theorem Kinds.outermost (h : Kinds good top Fs r) (he : r.scopes.isEmpty = true) : Fs = [] :=
  List.forall₂_nil_left_iff.1 (List.isEmpty_iff.1 he ▸ h.scopes)

/-- Inside of a block the innermost table is that of the innermost scope. -/
theorem Kinds.inner (h : Kinds good top Fs r) (he : ¬ r.scopes.isEmpty = true) :
    ∃ table tables F Fs', r.scopes = table :: tables ∧ Fs = F :: Fs' ∧ table.Agrees good F ∧
      List.Forall₂ (Table.Agrees good) tables Fs' := by
  obtain ⟨table, tables, hs⟩ := List.exists_cons_of_ne_nil (mt List.isEmpty_iff.2 he)
  obtain ⟨F, Fs', agrees, rest, rfl⟩ := List.forall₂_cons_left_iff.1 (hs ▸ h.scopes)
  exact ⟨table, tables, F, Fs', hs, rfl, agrees, rest⟩

theorem declare_kinds (h : Kinds good top Fs r) (hgood : good name.lexeme)
    (hF : Fs.headD top name.lexeme = false)
    (clean : (declare ctx name r).2.diagnostics = []) :
    Kinds good top Fs (declare ctx name r).2 := by
  by_cases he : r.scopes.isEmpty = true
  · rw [declare_outermost ctx name he] at clean ⊢
    obtain rfl := h.outermost he
    split at clean
    · exact absurd clean (report_ne_nil _ _ _)
    · next hc =>
      rw [if_neg hc]
      refine ⟨h.scopes, h.globals.insert trivial fun ht => ?_⟩
      rw [show top _ = false from hF] at ht
      cases ht
  · rw [declare_inner ctx name he] at clean ⊢
    obtain ⟨table, tables, F, Fs', hs, rfl, agrees, rest⟩ := h.inner he
    rw [insert_diagnostics] at clean
    rw [(require_clean clean).2, insert_cons _ _ hs]
    refine ⟨.cons (agrees.insert hgood fun ht => ?_) rest, h.globals⟩
    rw [show F _ = false from hF] at ht
    cases ht

theorem bind_kinds (h : Kinds good top Fs r) (hgood : good name.lexeme)
    (hF : Fs.headD top name.lexeme = true → binding = .function) :
    Kinds good top Fs (bind name binding r).2 := by
  rw [bind_eq]
  split
  · next he =>
    obtain rfl := h.outermost he
    split
    · exact ⟨h.scopes, h.globals.insert trivial hF⟩
    · exact h
  · next he =>
    obtain ⟨table, tables, F, Fs', hs, rfl, agrees, rest⟩ := h.inner he
    rw [insert_cons _ _ hs]
    exact ⟨.cons (agrees.insert hgood hF) rest, h.globals⟩

/-- The name of a function is in the table as a function. -/
theorem declare_function_kinds (h : Kinds good top Fs r) (hgood : good name.lexeme)
    (clean : (declare ctx name r).2.diagnostics = []) :
    Kinds good top Fs (bind name .function (declare ctx name r).2).2 := by
  have twice : ∀ {good : String → Prop} {table : Table String Binding} {F : Frame},
      table.Agrees good F → good name.lexeme →
      ((table.insert name.lexeme .declared).insert name.lexeme .function).Agrees good F := by
    intro good table F hagrees hgood n b hn
    rw [Table.find?_insert] at hn
    split at hn
    · next e =>
      cases hn
      rw [e]
      exact ⟨hgood, fun _ => rfl⟩
    · next e =>
      rw [Table.find?_insert, if_neg e] at hn
      exact hagrees n b hn
  by_cases he : r.scopes.isEmpty = true
  · rw [declare_outermost ctx name he] at clean ⊢
    split at clean
    · exact absurd clean (report_ne_nil _ _ _)
    · next hc =>
      rw [if_neg hc, bind_eq, if_pos he, if_pos (Table.find?_insert_self _ _ _)]
      exact ⟨h.scopes, twice h.globals trivial⟩
  · rw [declare_inner ctx name he] at clean ⊢
    obtain ⟨table, tables, F, Fs', hs, rfl, agrees, rest⟩ := h.inner he
    rw [insert_diagnostics] at clean
    rw [(require_clean clean).2, insert_cons _ _ hs, bind_eq, if_neg (by simp), insert_cons _ _ rfl]
    exact ⟨.cons (twice agrees hgood) rest, h.globals⟩

theorem parameters_kinds {ps : List Parameter} : ∀ {r : Resolver}, Kinds good top Fs r →
    (∀ p ∈ ps, good p.name.lexeme ∧ Fs.headD top p.name.lexeme = false) →
    (parameters ctx ps r).2.diagnostics = [] → Kinds good top Fs (parameters ctx ps r).2 := by
  induction ps with
  | nil => exact fun h _ _ => h
  | cons p ps ih =>
    intro r h hp clean
    obtain ⟨⟨hgood, hF⟩, hps⟩ := List.forall_mem_cons.1 hp
    have declared := parameters_grows
      (show (parameters ctx ps (bind p.name .defined (declare ctx p.name r).2).2).2.diagnostics = []
        from clean)
    rw [bind_diagnostics] at declared
    refine ih (bind_kinds (declare_kinds h hgood hF declared) hgood fun ht => ?_) hps clean
    rw [hF] at ht
    cases ht

end Steps

end Resolve

/-- Resolution came to an expression with the functions `Fs` around it: what it knew of names was
right, and the distance that it recorded was the one it saw. A name that is assigned to has a type,
and a name that was known as a function is called. -/
structure Visit.Sighted (D : Table ExprId Nat) (V : List Visit) (good : String → Prop)
    (top : Frame) (Fs : List Frame) (v : Visit) : Prop where
  kinds : Resolve.Kinds good top Fs v.state
  distance : D.find? v.expr.id = v.expr.name?.bind fun name => Resolve.distance? v.state name.lexeme
  typed : ∀ name, v.expr.target? = some name → name.type ≠ .unknown
  called : ∀ id name, v.expr = .var id name →
    Resolve.bindingOf v.state name.lexeme = some .function →
    ∃ u ∈ V, ∃ i paren arguments, u.expr = .call i v.expr paren arguments

/-- Resolution came to this expression with the functions `Fs` around it. -/
def Sight (D : Table ExprId Nat) (V : List Visit) (good : String → Prop) (top : Frame)
    (Fs : List Frame) (e : Expr) : Prop :=
  ∃ v ∈ V, v.expr = e ∧ v.Sighted D V good top Fs

namespace Resolve

section Walk

variable {D : Table ExprId Nat} {V : List Visit} {good : String → Prop} {top : Frame}
  {Fs : List Frame} {ctx : Context} {r : Resolver} {L : Layout}

/-- What is known of an expression that is visited without a report. -/
theorem sighted_of_clean {v : Visit} (kinds : Kinds good top Fs v.state)
    (distance : D.find? v.expr.id = v.expr.name?.bind fun name => distance? v.state name.lexeme)
    (clean : (expr ctx v.expr v.state).2.diagnostics = []) : v.Sighted D V good top Fs := by
  have checked := (expr_clean v.expr v.state clean).checked
  refine ⟨kinds, distance, fun name hn => ?_, fun id name hv hf => ?_⟩
  · generalize v.expr = e at checked hn
    cases e with
    | assign id t value =>
      cases hn
      rw [Expr.Checked] at checked
      exact checked.2.1
    | assignElements id t elements =>
      cases hn
      rw [Expr.Checked] at checked
      rcases checked.1 with ht | ⟨element, ht⟩ <;> simp [ht]
    | _ => cases hn
  · -- A name that is known as a function and resolved as a value is reported.
    rw [hv] at clean
    obtain ⟨-, ⟨-, unbound, -⟩, -⟩ := var_clean clean
    exact absurd hf unbound

/-- All expressions of a list are sighted whose visits have nothing to report. -/
theorem Sees.sight {nodes : List Expr} {uses : List Token} {visits : List Visit}
    (seen : Sees ctx.signatures r nodes uses visits) (perm : (visits.map Visit.expr).Perm nodes)
    (called : ∀ id callee paren arguments, .call id callee paren arguments ∈ nodes →
      ∃ i name, callee = .var i name)
    (hV : visits ⊆ V) (kinds : Kinds good top Fs r) {fs : List Frame}
    (hs : r.scopes.map Table.contains = fs) {node : Expr} (hn : node ∈ nodes)
    (located : Located D V fs node) : Sight D V good top Fs node := by
  obtain ⟨v, hv, rfl⟩ : ∃ v ∈ visits, v.expr = node := List.mem_map.1 (perm.mem_iff.2 hn)
  have sees := seen v hv
  refine ⟨v, hV hv, rfl, ?_⟩
  have kinds' : Kinds good top Fs v.state := kinds.same sees.scopes sees.globals
  have distance : D.find? v.expr.id =
      v.expr.name?.bind fun name => distance? v.state name.lexeme := by
    rw [located.distance]
    congr 1
    funext name
    exact (distance?_eq (by rw [sees.scopes]; exact hs) name.lexeme).symm
  -- A callee is not resolved as a value, so nothing is known of it but its call.
  rcases sees.kind with ⟨-, id, paren, arguments, hcall⟩ | ⟨ctx', -, -, clean, -⟩
  · obtain ⟨i, name, hvar⟩ := called _ _ _ _ hcall
    refine ⟨kinds', distance, fun t ht => ?_, fun _ _ _ _ => ?_⟩
    · rw [hvar] at ht
      cases ht
    · obtain ⟨u, hu, he⟩ := List.mem_map.1 (perm.mem_iff.2 hcall)
      exact ⟨u, hV hu, id, paren, arguments, he⟩
  · exact sighted_of_clean kinds' distance clean

theorem expr_stands {e : Expr} (clean : (expr ctx e r).2.diagnostics = [])
    (located : e.Each (Located D V L.frames)) (fits : Fits ctx L r)
    (kinds : Kinds good top Fs r) (hV : exprVisits ctx e r ⊆ V) :
    e.Each (Sight D V good top Fs) := by
  have checked := (expr_clean e r clean).checked
  intro node hn
  refine (expr_seen e r clean).sight (exprVisits_perm ctx e r) ?_ hV kinds fits.frames hn
    (located node hn)
  exact fun _ _ _ _ hm => (Expr.Checked.call e checked hm).callee

end Walk

end Resolve

/-! ## Statements -/

/-- The names that a statement declares are good ones, and its variables and parameters have types
that say something. -/
def Stmt.Named (good : String → Prop) : Stmt → Prop
  | .declare name type _ => good name.lexeme ∧ type.isWild = false
  | .function header _ =>
    good header.name.lexeme ∧ ∀ p ∈ header.parameters, good p.name.lexeme ∧ p.type.isWild = false
  | _ => True

/-- What a statement declares is a function of the scope just if it is a function. -/
def Stmt.Suits (F : Frame) : Stmt → Prop
  | .declare name _ _ => F name.lexeme = false
  | .function header _ => F header.name.lexeme = true
  | _ => True

theorem Stmt.suits_of_none {F : Frame} {s : Stmt} (h : s.binds? = none) : s.Suits F := by
  cases s with
  | declare => cases h
  | function => cases h
  | _ => trivial

/-- Statements suit the functions among them. -/
theorem StmtsScoped.suits {P : List Frame → List Frame → Expr → Prop} {L : Layout} {ss : List Stmt}
    (h : StmtsScoped P L ss) : ∀ s ∈ ss, s.Suits (functionsOf ss) := by
  intro s hs
  cases s with
  | declare name type start => exact h.not_function hs
  | function header body => exact functionsOf_iff.2 ⟨header, body, hs, rfl⟩
  | _ => trivial

namespace Resolve

section Statements

variable {D : Table ExprId Nat} {V : List Visit} {good : String → Prop} {top : Frame}

mutual

/-- A statement over which resolution has nothing to report stands among the functions of its
scopes, and what resolution knows behind it is right again. -/
theorem stmt_stands : (s : Stmt) → ∀ {ctx : Context} {L : Layout} {Fs : List Frame} {r : Resolver},
    s.Each (fun _ => True) Stmt.Regular → (∀ part ∈ s.parts, part.Named good) →
    s.Scoped (fun fs _ => Located D V fs) L → Fits ctx L r → Kinds good top Fs r →
    s.Suits (Fs.headD top) → stmtVisits ctx s r ⊆ V → (stmt ctx s r).2.diagnostics = [] →
    s.Stands (Sight D V good top) top Fs ∧ Kinds good top Fs (stmt ctx s r).2
  | .expression e, _, _, _, r, _, _, placed, fits, kinds, _, hV, h => by
    have passed := (expr_clean e r h).passed
    exact ⟨expr_stands h placed fits kinds hV, kinds.same passed.scopes passed.globals⟩
  | .block body, _, _, Fs, r, hr, hn, placed, fits, kinds, _, hV, h => by
    -- The new table is empty, so it agrees with the functions of the whole body.
    obtain ⟨hbody, kinds'⟩ := stmts_stands body (Stmt.each_block.1 hr).2
      (fun part hp => hn part (by simp [hp])) placed fits.inBlock (kinds.enter (functionsOf body))
      placed.suits hV h
    exact ⟨hbody, kinds'.leave⟩
  | .declare name type start, ctx, L, Fs, r, hr, hn, placed, fits, kinds, hF, hV, h => by
    obtain ⟨h, heq⟩ := declaration_clean h
    obtain ⟨hgood, hwild⟩ := hn (.declare name type start) (by simp)
    have htype := (Stmt.each_declare.1 hr).1
    obtain ⟨passed, checked⟩ := initializer_clean htype start h
    have declared := declare_kinds kinds hgood hF passed.before
    obtain ⟨-, -, -, fits'⟩ := declare_clean fits passed.before
    refine ⟨⟨hwild, Initializer.each_iff.2 fun node hm => ?_⟩, ?_⟩
    · refine (initializer_seen htype start h).sight (initializerVisits_perm _ _ _ _ _) ?_ hV
        declared fits'.frames hm (Initializer.each_iff.1 placed.2 node hm)
      exact fun _ _ _ _ hc => (Initializer.Checked.call start checked hc).callee
    · rw [heq]
      refine bind_kinds (declared.same passed.scopes passed.globals) hgood fun ht => ?_
      rw [show Fs.headD top name.lexeme = false from hF] at ht
      cases ht
  | .ifThen keyword test yes, ctx, _, _, r, hr, hn, placed, fits, kinds, _, hV, h => by
    obtain ⟨htest, hnone, hyes⟩ := placed
    obtain ⟨ht, h, heq⟩ := ifThen_clean h
    rw [stmtVisits, ht.behind] at hV
    have stest := expr_stands ht.silent htest fits kinds fun v hv => hV (List.mem_append_left _ hv)
    obtain ⟨syes, kyes⟩ := stmt_stands yes (Stmt.each_ifThen.1 hr).2.2
      (fun part hp => hn part (by simp [hp])) hyes (fits.of_passed ht.passed)
      (kinds.same ht.passed.scopes ht.passed.globals) (Stmt.suits_of_none hnone)
      (fun v hv => hV (List.mem_append_right _ hv)) h
    rw [heq]
    exact ⟨⟨stest, syes⟩, kyes⟩
  | .ifElse keyword test yes no, ctx, L, _, r, hr, hn, placed, fits, kinds, _, hV, h => by
    obtain ⟨htest, ⟨hnone, hyes⟩, hnone', hno⟩ := placed
    obtain ⟨ht, hm, h, heq⟩ := ifElse_clean h
    rw [stmtVisits, ht.behind] at hV
    have stest := expr_stands ht.silent htest fits kinds fun v hv =>
      hV (List.mem_append_left _ (List.mem_append_left _ hv))
    have fits' := fits.of_passed ht.passed
    obtain ⟨syes, kyes⟩ := stmt_stands yes (Stmt.each_ifElse.1 hr).2.2.1
      (fun part hp => hn part (by simp [hp])) hyes fits'
      (kinds.same ht.passed.scopes ht.passed.globals) (Stmt.suits_of_none hnone)
      (fun v hv => hV (List.mem_append_left _ (List.mem_append_right _ hv))) hm
    have fits'' := (stmt_clean yes (Stmt.each_ifElse.1 hr).2.2.1 _ fits' hm).fits
    rw [Layout.after_of_none hnone] at fits''
    obtain ⟨sno, kno⟩ := stmt_stands no (Stmt.each_ifElse.1 hr).2.2.2
      (fun part hp => hn part (by simp [hp])) hno fits'' kyes (Stmt.suits_of_none hnone')
      (fun v hv => hV (List.mem_append_right _ hv)) h
    rw [heq]
    exact ⟨⟨stest, syes, sno⟩, kno⟩
  | .while keyword test body, ctx, _, _, r, hr, hn, placed, fits, kinds, _, hV, h => by
    obtain ⟨htest, hnone, hbody⟩ := placed
    obtain ⟨ht, h, heq⟩ := while_clean h
    rw [stmtVisits, ht.behind] at hV
    have stest := expr_stands ht.silent htest fits kinds fun v hv => hV (List.mem_append_left _ hv)
    obtain ⟨sbody, kbody⟩ := stmt_stands body (Stmt.each_while.1 hr).2.2
      (fun part hp => hn part (by simp [hp])) hbody
      (show Fits { ctx with inLoop := true } _ _ from { fits.of_passed ht.passed with })
      (kinds.same ht.passed.scopes ht.passed.globals) (Stmt.suits_of_none hnone)
      (fun v hv => hV (List.mem_append_right _ hv)) h
    rw [heq]
    exact ⟨⟨stest, sbody⟩, kbody⟩
  | .return keyword none, ctx, _, _, r, _, _, _, _, kinds, _, _, h => by
    rw [(return_none_clean h).2]
    exact ⟨fun e he => (nomatch he), kinds⟩
  | .return keyword (some e), ctx, _, _, r, _, _, placed, fits, kinds, _, hV, h => by
    obtain ⟨h, -, heq⟩ := return_some_clean h
    have passed := (expr_clean e r h).passed
    rw [heq]
    refine ⟨fun e' he => ?_, kinds.same passed.scopes passed.globals⟩
    cases he
    exact expr_stands h (placed e rfl) fits kinds hV
  | .break keyword, ctx, _, _, r, _, _, _, _, kinds, _, _, h => by
    rw [(break_clean h).2]
    exact ⟨trivial, kinds⟩
  | .continue keyword, ctx, _, _, r, _, _, _, _, kinds, _, _, h => by
    rw [(continue_clean h).2]
    exact ⟨trivial, kinds⟩
  | .function header body, ctx, L, Fs, r, hr, hn, placed, fits, kinds, hF, hV, h => by
    obtain ⟨-, -, -, hbody⟩ := placed
    obtain ⟨hgood, hparameters⟩ := hn (.function header body) (by simp)
    obtain ⟨h, -, heq⟩ := function_clean h
    have enter := function_entered fits (stmts_grows body h)
    -- Before its parameters the name of the function is declared.
    have declared : Kinds good top Fs (functionDeclared ctx header r) := by
      have hb : (entered (functionDeclared ctx header r)).diagnostics = [] :=
        parameters_grows (stmts_grows body h)
      rw [show (entered (functionDeclared ctx header r)).diagnostics =
        (functionDeclared ctx header r).diagnostics from rfl, functionDeclared,
        bind_diagnostics] at hb
      rw [functionDeclared, (require_clean (declare_grows hb)).2]
      rw [(require_clean (declare_grows hb)).2] at hb
      exact declare_function_kinds kinds hgood hb
    have inside := parameters_kinds (declared.enter (functionsOf body))
      (fun p hp => ⟨(hparameters p hp).1, hbody.no_functions rfl _⟩) (stmts_grows body h)
    obtain ⟨sbody, kbody⟩ := stmts_stands body (Stmt.each_function.1 hr).2
      (fun part hp => hn part (by simp [hp])) hbody enter.fits inside hbody.suits hV h
    rw [heq]
    exact ⟨⟨hF, fun p hp => (hparameters p hp).2, sbody⟩, kbody.leave⟩

theorem stmts_stands : (ss : List Stmt) → ∀ {ctx : Context} {L : Layout} {Fs : List Frame}
    {r : Resolver}, EachStmt (fun _ => True) Stmt.Regular ss →
    (∀ part ∈ stmtsParts ss, part.Named good) → StmtsScoped (fun fs _ => Located D V fs) L ss →
    Fits ctx L r → Kinds good top Fs r → (∀ s ∈ ss, s.Suits (Fs.headD top)) →
    stmtsVisits ctx ss r ⊆ V → (stmts ctx ss r).2.diagnostics = [] →
    StmtsStand (Sight D V good top) top Fs ss ∧ Kinds good top Fs (stmts ctx ss r).2
  | [], _, _, _, _, _, _, _, _, kinds, _, _, _ => ⟨trivial, kinds⟩
  | s :: ss, ctx, L, Fs, r, hr, hn, placed, fits, kinds, hF, hV, h => by
    obtain ⟨hs, hss⟩ := eachStmt_cons.1 hr
    obtain ⟨hfirst, h, -⟩ := stmts_cons_clean h
    obtain ⟨first, kinds'⟩ := stmt_stands s hs (fun part hp => hn part (by simp [hp])) placed.1
      fits kinds (hF s List.mem_cons_self) (fun v hv => hV (List.mem_append_left _ hv)) hfirst
    obtain ⟨rest, kinds''⟩ := stmts_stands ss hss (fun part hp => hn part (by simp [hp])) placed.2
      (stmt_clean s hs r fits hfirst).fits kinds' (fun t ht => hF t (List.mem_cons_of_mem _ ht))
      (fun v hv => hV (List.mem_append_right _ hv)) h
    exact ⟨⟨first, rest⟩, kinds''⟩

end

end Statements

end Resolve

/-! ## Accepted programs -/

/-- The name is not known to the scanner as one of no type in particular. Only functions of the
host are. -/
def Definite (source : String) (host : Host ω) (n : String) : Prop :=
  (scan source host.seedTypes).types.find? n ≠ some .any

/-- Resolution came to this expression of a program with the functions `Fs` around it. -/
def Compilation.Sees (c : Compilation) (source : String) (host : Host ω) (Fs : List Frame)
    (e : Expr) : Prop :=
  Sight c.distances (c.visits host) (Definite source host) (outermostFunctions host c.statements)
    Fs e

section Accepted

variable {source : String} {host : Host ω} {c : Compilation}

theorem Stmt.Written.named (scanned : (scan source host.seedTypes).diagnostics = []) {s : Stmt}
    (h : s.Written (tokensOf source host)) : s.Named (Definite source host) := by
  have definite : ∀ {type : Ty} {name : Token}, Declared (tokensOf source host) type name →
      Definite source host name.lexeme := by
    intro type name hd
    have hn : (scan source host.seedTypes).types.find? name.lexeme = some name.type :=
      scan_type hd.mem.1 hd.mem.2
    have ht : name.type = type := scan_declared scanned hd
    rw [Definite, hn, ht]
    rcases hd.cases with rfl | ⟨k, rfl⟩ | ⟨k, rfl⟩ <;> simp
  have tame : ∀ {type : Ty} {name : Token}, Declared (tokensOf source host) type name →
      type.isWild = false := by
    intro type name hd
    rcases hd.cases with rfl | ⟨k, rfl⟩ | ⟨k, rfl⟩ <;> rfl
  cases s with
  | declare name type start => exact ⟨definite h.1, tame h.1⟩
  | function header body =>
    exact ⟨definite h.1, fun p hp => ⟨definite (h.2 p hp).1, tame (h.2 p hp).1⟩⟩
  | _ => trivial

/-- The functions of the outermost scope have signatures. -/
theorem outermostFunctions_contains {statements : List Stmt} {n : String}
    (h : outermostFunctions host statements n = true) :
    (Signatures.collect statements host).contains n = true := by
  have listed : ∃ signature, (n, signature) ∈ signatureEntries host statements := by
    unfold signatureEntries
    rcases outermostFunctions_iff.1 h with ⟨b, rfl⟩ | ⟨f, hf, rfl⟩ | hf
    · exact ⟨b.signature, List.mem_append_left _ (List.mem_append_left _
        (List.mem_map_of_mem (f := fun b => (b.name, b.signature)) b.mem_all))⟩
    · exact ⟨f.signature, List.mem_append_left _ (List.mem_append_right _
        (List.mem_map_of_mem (f := fun f => (f.name, f.signature)) hf))⟩
    · obtain ⟨header, body, hm, rfl⟩ := functionsOf_iff.1 hf
      refine ⟨header.signature, List.mem_append_right _ ((mem_declaredIn _).2 ?_)⟩
      exact ⟨_, mem_stmtsParts.2 ⟨_, hm, Stmt.mem_parts_self _⟩, header, rfl, rfl, rfl⟩
  obtain ⟨signature, hm⟩ := listed
  exact Table.contains_of_mem_ofList hm

/-- Resolution starts with what is right. -/
theorem kinds_start (statements : List Stmt) :
    Resolve.Kinds (Definite source host) (outermostFunctions host statements) []
      (Resolve.start (Signatures.collect statements host) host.reservedNames) := by
  refine ⟨.nil, fun n b hn => ⟨trivial, fun ht => ?_⟩⟩
  obtain ⟨name, -, e⟩ := List.mem_map.1 (Table.mem_of_find?_ofList hn)
  cases e
  rw [if_pos (outermostFunctions_contains ht)]

/-- The declarations of the outermost scope suit its functions. -/
theorem Compiled.suits (hc : Compiled source host c) :
    ∀ s ∈ c.statements, s.Suits (outermostFunctions host c.statements) := by
  intro s hs
  cases s with
  | declare name type start =>
    show outermostFunctions host c.statements name.lexeme = false
    have fresh : host.top name.lexeme = false := hc.placed.fresh hs rfl
    have reserved : name.lexeme ∉ host.reservedNames := fun hm => by
      rw [Host.top, Frame.ofNames_iff.2 hm] at fresh
      cases fresh
    simp only [Host.reservedNames, List.mem_append, not_or] at reserved
    rw [Bool.eq_false_iff]
    intro ht
    rcases outermostFunctions_iff.1 ht with ⟨b, hb⟩ | ⟨f, hf, hn⟩ | hf
    · exact reserved.1.1 (hb ▸ List.mem_map_of_mem b.mem_all)
    · exact reserved.2 (hn ▸ List.mem_map_of_mem hf)
    · rw [hc.placed.not_function hs] at hf
      cases hf
  | function header body =>
    exact outermostFunctions_iff.2 (.inr (.inr (functionsOf_iff.2 ⟨header, body, hs, rfl⟩)))
  | _ => trivial

/-- An accepted program stands in its outermost scope. -/
theorem accepted_stands (accepted : (compile source host).accepted = true) :
    StmtsStand ((compile source host).Sees source host)
      (outermostFunctions host (compile source host).statements) []
      (compile source host).statements := by
  have hc := compiled accepted
  rw [compile_eq, Compilation.accepted, List.isEmpty_iff, List.append_eq_nil_iff,
    Resolve.resolve_eq] at accepted
  generalize compile source host = c at *
  rw [← hc.statements] at accepted
  have fits : Resolve.Fits (Resolve.outermost (Signatures.collect c.statements host))
      (.outermost host.top)
      (Resolve.start (Signatures.collect c.statements host) host.reservedNames) :=
    ⟨rfl, Table.contains_ofList _ _, rfl, rfl, fun _ => rfl⟩
  exact (Resolve.stmts_stands c.statements
    ⟨fun _ _ => trivial, fun part hp => (hc.written.2 part hp).regular⟩
    (fun part hp => (hc.written.2 part hp).named hc.scanned) hc.placed fits
    (kinds_start c.statements) hc.suits (fun _ hv => hv) accepted.2).1

end Accepted

end TickScript
