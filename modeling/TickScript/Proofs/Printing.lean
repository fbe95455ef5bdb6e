import TickScript.Proofs.Closures
import TickScript.Proofs.Printing.Reading

/-!
# Printed programs can be told apart

Two statements that were parsed from scanned texts and that are printed alike are the same, apart
from numbers, places and the types of names (`print_unambiguous`): their forms are the same, since
every word in them can be told from what stands around it, and a tree is read from its form.
-/

namespace TickScript

open Form

/-! ## Proper forms -/

section

variable {ts : List Token} {leaf : String → Expr}

theorem proper_word {text : String} (h : IsWord text) : (Form.word text).Proper := h

theorem proper_name (legible : ∀ t ∈ ts, t.Legible) {name : Token}
    (h : name ∈ ts ∧ name.kind = .identifier) : (Form.word name.lexeme).Proper :=
  Token.isWord_name (legible name h.1) h.2

theorem proper_operator (legible : ∀ t ∈ ts, t.Legible) {operator : Token}
    {kinds : List TokenKind} (h : operator ∈ ts ∧ operator.kind ∈ kinds)
    (known : kinds ⊆ Token.operatorKinds) : (Form.word operator.lexeme).Proper :=
  (Token.operator_word (legible operator h.1) (known h.2)).1

mutual

theorem Expr.proper_toForm (legible : ∀ t ∈ ts, t.Legible) : (e : Expr) →
    e.Each (Expr.Tokens ts) → e.toForm.Proper
  | .literal _ value _, _ => value.isWord_display
  | .grouping _ inner, h => by
    obtain ⟨-, inside⟩ := Expr.each_grouping.1 h
    exact ⟨proper_word (by decide), inner.proper_toForm legible inside, trivial⟩
  | .unary _ operator right, h => by
    obtain ⟨self, operand⟩ := Expr.each_unary.1 h
    exact ⟨proper_operator legible self (by decide), right.proper_toForm legible operand, trivial⟩
  | .binary _ left operator right, h => by
    obtain ⟨self, first, second⟩ := Expr.each_binary.1 h
    exact ⟨proper_operator legible self (by decide), left.proper_toForm legible first,
      right.proper_toForm legible second, trivial⟩
  | .logical _ left operator right, h => by
    obtain ⟨self, first, second⟩ := Expr.each_logical.1 h
    exact ⟨proper_operator legible self (by decide), left.proper_toForm legible first,
      right.proper_toForm legible second, trivial⟩
  | .var _ name, h => proper_name legible h.self
  | .index _ name position, h => by
    obtain ⟨self, inside⟩ := Expr.each_index.1 h
    exact ⟨proper_word (by decide), proper_name legible self, position.proper_toForm legible inside,
      trivial⟩
  | .assign _ name value, h => by
    obtain ⟨self, assigned⟩ := Expr.each_assign.1 h
    exact ⟨proper_word (by decide), proper_name legible self, value.proper_toForm legible assigned,
      trivial⟩
  | .assignIndex _ name position value, h => by
    obtain ⟨self, inside, assigned⟩ := Expr.each_assignIndex.1 h
    exact ⟨proper_word (by decide), ⟨proper_word (by decide), proper_name legible self,
      position.proper_toForm legible inside, trivial⟩, value.proper_toForm legible assigned, trivial⟩
  | .assignElements _ name elements, h => by
    obtain ⟨self, inside⟩ := Expr.each_assignElements.1 h
    exact ⟨proper_word (by decide), proper_name legible self,
      exprs_proper legible elements inside, trivial⟩
  | .call _ callee _ arguments, h => by
    obtain ⟨-, called, inside⟩ := Expr.each_call.1 h
    exact ⟨proper_word (by decide), callee.proper_toForm legible called,
      exprs_proper legible arguments inside⟩

theorem exprs_proper (legible : ∀ t ∈ ts, t.Legible) : (es : List Expr) →
    EachExpr (Expr.Tokens ts) es → AllProper (exprForms es)
  | [], _ => trivial
  | e :: es, h => by
    obtain ⟨first, others⟩ := eachExpr_cons.1 h
    exact ⟨e.proper_toForm legible first, exprs_proper legible es others⟩

end

theorem Initializer.proper_forms (legible : ∀ t ∈ ts, t.Legible) (start : Initializer)
    (h : start.Each (Expr.Tokens ts)) : AllProper start.forms := by
  cases start with
  | zero => trivial
  | value e => exact ⟨e.proper_toForm legible h, trivial⟩
  | elements es => exact ⟨exprs_proper legible es h, trivial⟩

theorem parameters_proper (legible : ∀ t ∈ ts, t.Legible) : (ps : List Parameter) →
    (∀ p ∈ ps, p.name ∈ ts ∧ p.name.kind = .identifier) → AllProper (parameterForms ps)
  | [], _ => trivial
  | [p], h => ⟨p.type.isWord_display, proper_name legible (h p List.mem_cons_self), trivial⟩
  | p :: q :: ps, h => by
    have name : IsWord p.name.lexeme := proper_name legible (h p List.mem_cons_self)
    have comma : IsWord (p.name.lexeme ++ ",") := by
      refine ⟨by simp, fun c hc => ?_⟩
      rw [String.toList_append] at hc
      rcases List.mem_append.1 hc with hc | hc
      · exact name.plain c hc
      · rw [List.mem_singleton.1 hc]
        decide
    exact ⟨p.type.isWord_display, comma,
      parameters_proper legible (q :: ps) fun r hr => h r (List.mem_cons_of_mem _ hr)⟩

mutual

theorem Stmt.proper_toForm (legible : ∀ t ∈ ts, t.Legible) : (s : Stmt) →
    s.Each (Expr.Tokens ts) (Stmt.Tokens ts) → s.toForm.Proper
  | .expression e, h => by
    obtain ⟨-, inside⟩ := Stmt.each_expression.1 h
    exact ⟨proper_word (by decide), e.proper_toForm legible inside, trivial⟩
  | .block body, h => by
    obtain ⟨-, inside⟩ := Stmt.each_block.1 h
    exact ⟨proper_word (by decide), stmts_proper legible body inside⟩
  | .declare name type start, h => by
    obtain ⟨⟨-, written, -⟩, inside⟩ := Stmt.each_declare.1 h
    exact ⟨proper_word (by decide), type.isWord_display, proper_name legible written.mem,
      start.proper_forms legible inside⟩
  | .ifThen _ test yes, h => by
    obtain ⟨-, tested, first⟩ := Stmt.each_ifThen.1 h
    exact ⟨proper_word (by decide), test.proper_toForm legible tested,
      yes.proper_toForm legible first, trivial⟩
  | .ifElse _ test yes no, h => by
    obtain ⟨-, tested, first, second⟩ := Stmt.each_ifElse.1 h
    exact ⟨proper_word (by decide), test.proper_toForm legible tested,
      yes.proper_toForm legible first, no.proper_toForm legible second, trivial⟩
  | .while _ test body, h => by
    obtain ⟨-, tested, inside⟩ := Stmt.each_while.1 h
    exact ⟨proper_word (by decide), test.proper_toForm legible tested,
      body.proper_toForm legible inside, trivial⟩
  | .return _ none, _ => ⟨proper_word (by decide), trivial⟩
  | .return _ (some e), h => by
    obtain ⟨-, inside⟩ := Stmt.each_return.1 h
    exact ⟨proper_word (by decide), e.proper_toForm legible (inside e rfl), trivial⟩
  | .break _, _ => ⟨proper_word (by decide), trivial⟩
  | .continue _, _ => ⟨proper_word (by decide), trivial⟩
  | .function header body, h => by
    obtain ⟨⟨-, written, parameters⟩, inside⟩ := Stmt.each_function.1 h
    exact ⟨proper_word (by decide), header.returnType.isWord_display,
      proper_name legible written.mem,
      parameters_proper legible header.parameters fun p hp => (parameters p hp).1.mem,
      stmts_proper legible body inside⟩

theorem stmts_proper (legible : ∀ t ∈ ts, t.Legible) : (ss : List Stmt) →
    EachStmt (Expr.Tokens ts) (Stmt.Tokens ts) ss → AllProper (stmtForms ss)
  | [], _ => trivial
  | s :: ss, h => by
    obtain ⟨first, others⟩ := eachStmt_cons.1 h
    exact ⟨s.proper_toForm legible first, stmts_proper legible ss others⟩

end

end

/-! ## Parsed statements -/

/-- The tokens of which a parsed tree consists come before the end mark. -/
theorem parse_tokens (tokens : List Token) : ∃ ts : List Token, ts ⊆ tokens ∧
    (∀ t ∈ ts, t.kind ≠ .eof) ∧
      EachStmt (Expr.Tokens ts) (Stmt.Tokens ts) (parse tokens).statements := by
  have on := Cursor.start_on tokens
  refine ⟨tokens.takeWhile (·.kind ≠ .eof), (List.takeWhile_prefix _).subset, fun t ht => ?_, ?_⟩
  · have := List.mem_takeWhile_imp ht
    simpa using this
  · unfold parse
    cases run : Parser.program (Cursor.start tokens) with
    | ok ss c =>
      obtain ⟨-, placed, keyed⟩ := (Parser.keeps_program _ on).of_ok run
      obtain ⟨-, -, written⟩ := (Parser.writes_program _ on).of_ok run
      exact ⟨fun node hn => (placed node hn).1.tokens,
        fun part hp => ⟨keyed part hp, written part hp⟩⟩
    | error r c => exact eachStmt_nil

theorem EachStmt.part {Q : Expr → Prop} {P : Stmt → Prop} {ss : List Stmt} (h : EachStmt Q P ss)
    {part : Stmt} (hp : part ∈ stmtsParts ss) : part.Each Q P := by
  have inside := stmtsParts_subset ss hp
  refine ⟨fun node hn => h.1 node ?_, fun p hpp => h.2 p (inside hpp)⟩
  rw [Stmt.nodes_eq_direct] at hn
  rw [stmtsNodes_eq_direct]
  obtain ⟨p, hpp, direct⟩ := List.mem_flatMap.1 hn
  exact List.mem_flatMap.2 ⟨p, inside hpp, direct⟩

/-- What the parser makes of a scanned text consists of tokens that are what their texts are. -/
theorem parsed_each {source : String} {types : NameTypes} {s : Stmt}
    (hs : s ∈ stmtsParts (parse (scan source types).tokens).statements) :
    ∃ ts : List Token, (∀ t ∈ ts, t.Legible) ∧ s.Each (Expr.Tokens ts) (Stmt.Tokens ts) := by
  obtain ⟨ts, subset, inside, each⟩ := parse_tokens (scan source types).tokens
  exact ⟨ts, fun t ht => legible_scan (subset ht) (inside t ht), each.part hs⟩

/-! ## Literals and variables -/

/-- The doubles among the literals of a statement. -/
def Stmt.doubles (s : Stmt) : List Float :=
  s.nodes.filterMap fun node =>
    match node with
    | .literal _ (.float x) _ => some x
    | _ => none

theorem Stmt.mem_doubles {s : Stmt} {id : ExprId} {x : Float} {line : Nat}
    (h : Expr.literal id (.float x) line ∈ s.nodes) : x ∈ s.doubles :=
  List.mem_filterMap.2 ⟨_, h, rfl⟩

/-- The expression itself consists of tokens that are what their texts are, and is no infinite
double. -/
structure Expr.Legible (e : Expr) : Prop where
  tokens : ∃ ts : List Token, (∀ t ∈ ts, t.Legible) ∧ e.Tokens ts
  finite : ∀ id v line, e = .literal id v line → v.Finite

/-- Literals and variables that are printed alike are the same. -/
theorem leaf_alike {a b : Expr} (ha : a.Legible) (hb : b.Legible) (la : a.isLeaf = true)
    (lb : b.isLeaf = true) (same : a.print = b.print) : a.bared = b.bared := by
  obtain ⟨ts, legible, ta⟩ := ha.tokens
  obtain ⟨ts', legible', tb⟩ := hb.tokens
  cases a with
  | literal id v line =>
    have finite := ha.finite _ _ _ rfl
    cases b with
    | literal id' w line' =>
      have values : v = w := Literal.display_inj finite (hb.finite _ _ _ rfl) same
      rw [Expr.bared, Expr.bared, values]
    | var id' name =>
      exact absurd same.symm (Token.name_ne_display (legible' _ tb.1) tb.2 finite)
    | _ => cases lb
  | var id name =>
    cases b with
    | literal id' w line' =>
      have finite := hb.finite _ _ _ rfl
      exact absurd same (Token.name_ne_display (legible _ ta.1) ta.2 finite)
    | var id' name' =>
      have lexemes : name.lexeme = name'.lexeme := same
      have names := (legible _ ta.1).read
      rw [lexemes, (legible' _ tb.1).read] at names
      rw [Expr.bared, Expr.bared, Option.some.inj names]
    | _ => cases lb
  | _ => cases la

/-- The literal or variable among the nodes that is printed so. -/
def leafOf (nodes : List Expr) (text : String) : Expr :=
  ((nodes.find? fun node => node.isLeaf && node.print == text).map Expr.bared).getD default

theorem leafOf_print {nodes : List Expr} (legible : ∀ node ∈ nodes, node.Legible) {node : Expr}
    (mem : node ∈ nodes) (leaf : node.isLeaf = true) : leafOf nodes node.print = node.bared := by
  have found : (nodes.find? fun a => a.isLeaf && a.print == node.print).isSome = true :=
    List.find?_isSome.2 ⟨node, mem, by simp [leaf]⟩
  obtain ⟨a, e⟩ := Option.isSome_iff_exists.1 found
  have holds := List.find?_some e
  rw [Bool.and_eq_true, beq_iff_eq] at holds
  rw [leafOf, e]
  exact leaf_alike (legible a (List.mem_of_find?_eq_some e)) (legible node mem) holds.1 leaf holds.2

/-! ## Telling statements apart -/

/-- What is needed of a statement to print it and to read it back. -/
structure Stmt.Legible (s : Stmt) : Prop where
  nodes : ∀ node ∈ s.nodes, node.Legible
  tokens : ∃ ts : List Token, (∀ t ∈ ts, t.Legible) ∧ s.Each (Expr.Tokens ts) (Stmt.Tokens ts)

theorem legible_parsed {source : String} {types : NameTypes} {s : Stmt}
    (hs : s ∈ stmtsParts (parse (scan source types).tokens).statements)
    (finite : ∀ x ∈ s.doubles, (Binary.ofFloat? x).isSome = true) : s.Legible := by
  obtain ⟨ts, legible, each⟩ := parsed_each hs
  refine ⟨fun node hn => ⟨⟨ts, legible, each.1 node hn⟩, ?_⟩, ts, legible, each⟩
  rintro id v line rfl x rfl
  exact finite x (Stmt.mem_doubles hn)

theorem Stmt.Legible.proper {s : Stmt} (h : s.Legible) : s.toForm.Proper := by
  obtain ⟨ts, legible, each⟩ := h.tokens
  exact s.proper_toForm legible each

theorem Stmt.Legible.read {s : Stmt} (h : s.Legible) {nodes : List Expr}
    (all : ∀ node ∈ nodes, node.Legible) (inside : s.nodes ⊆ nodes) :
    s.toForm.stmt? (leafOf nodes) = some s.bared := by
  obtain ⟨ts, legible, each⟩ := h.tokens
  exact s.read_toForm legible
    ⟨fun node hn => ⟨each.1 node hn, leafOf_print all (inside hn)⟩, each.2⟩

/-- Statements from scanned texts without infinite doubles that are printed alike are the same,
apart from numbers, places and the types of names. -/
theorem print_unambiguous {source source' : String} {types types' : NameTypes} {s s' : Stmt}
    (hs : s ∈ stmtsParts (parse (scan source types).tokens).statements)
    (hs' : s' ∈ stmtsParts (parse (scan source' types').tokens).statements)
    (finite : ∀ x ∈ s.doubles ++ s'.doubles, (Binary.ofFloat? x).isSome = true)
    (same : s.print = s'.print) : s.bared = s'.bared := by
  obtain ⟨finite, finite'⟩ := List.forall_mem_append.1 finite
  have h := legible_parsed hs finite
  have h' := legible_parsed hs' finite'
  have forms : s.toForm = s'.toForm := by
    refine Form.chars_injective h.proper h'.proper ?_
    rw [s.chars_toForm, s'.chars_toForm, same]
  have all : ∀ node ∈ s.nodes ++ s'.nodes, node.Legible :=
    List.forall_mem_append.2 ⟨h.nodes, h'.nodes⟩
  have read := h.read all (List.subset_append_left _ _)
  rw [forms, h'.read all (List.subset_append_right _ _)] at read
  exact (Option.some.inj read).symm

/-- The first statement of a text. -/
def firstOf (source : String) : Stmt :=
  (parse (scan source ⟨[]⟩).tokens).statements.headD default

theorem firstOf_mem {source : String}
    (h : (parse (scan source ⟨[]⟩).tokens).statements.isEmpty = false) :
    firstOf source ∈ stmtsParts (parse (scan source ⟨[]⟩).tokens).statements := by
  unfold firstOf
  cases e : (parse (scan source ⟨[]⟩).tokens).statements with
  | nil => simp [e] at h
  | cons s ss => exact mem_stmtsParts.2 ⟨s, List.mem_cons_self, s.mem_parts_self⟩

/-- Names that are spelled like the words for nodes. -/
def disguised : String :=
  "while (group < 2.5) \x7b call = -index[1]; float[] block = \x7bgroup(call), (2.5)\x7d; \x7d"

/-- The same on two lines, and with other digits. -/
def disguisedAgain : String :=
  "while(group<2.50)\x7bcall=- index [ 1 ];\nfloat[] block = \x7bgroup(call),(02.5)\x7d;\x7d"

/-- What both are printed as. -/
def disguisedPrint : String :=
  "(while (< group 2.5) (block (; (= call (- (index index 1)))) " ++
    "(var float[] block \x7b(call group call) (group 2.5)\x7d)))"

theorem print_unambiguous_disguised :
    (firstOf disguised).print = disguisedPrint ∧ (firstOf disguisedAgain).print = disguisedPrint ∧
      (∀ x ∈ (firstOf disguised).doubles ++ (firstOf disguisedAgain).doubles,
        (Binary.ofFloat? x).isSome = true) ∧
      (firstOf disguised).bared = (firstOf disguisedAgain).bared := by
  have one : (parse (scan disguised ⟨[]⟩).tokens).statements.isEmpty = false ∧
      (firstOf disguised).print = disguisedPrint ∧
      ∀ x ∈ (firstOf disguised).doubles, (Binary.ofFloat? x).isSome = true := by decide +kernel
  have two : (parse (scan disguisedAgain ⟨[]⟩).tokens).statements.isEmpty = false ∧
      (firstOf disguisedAgain).print = disguisedPrint ∧
      ∀ x ∈ (firstOf disguisedAgain).doubles, (Binary.ofFloat? x).isSome = true := by decide +kernel
  obtain ⟨parsed, print, finite⟩ := one
  obtain ⟨parsed', print', finite'⟩ := two
  have both := List.forall_mem_append.2 ⟨finite, finite'⟩
  exact ⟨print, print', both, print_unambiguous (firstOf_mem parsed) (firstOf_mem parsed') both
    (print.trans print'.symm)⟩

end TickScript
