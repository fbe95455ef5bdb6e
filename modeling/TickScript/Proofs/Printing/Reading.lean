import TickScript.Proofs.Grammar.Shells
import TickScript.Proofs.Printing.Trees
import TickScript.Proofs.Printing.Words

/-!
# Reading trees from forms

A form of a tree is read back: the words for the kinds of nodes tell which of the brackets is which,
and a token is cut from its text again. What a word by itself stands for, a literal or a variable,
is looked up in a dictionary, since the text of a double does not give it back by computation. The
tree that is read is the one whose form it was (`Stmt.read_toForm`).
-/

namespace TickScript

open Form

/-! ## The reader -/

/-- The type that is displayed so. -/
def Ty.ofDisplay? (text : String) : Option Ty :=
  Ty.all.find? (·.display == text)

/-- A text without its commas. -/
def withoutCommas (text : String) : String :=
  .ofList (text.toList.filter (· ≠ ','))

namespace Form

mutual

/-- The expression with this form. Words by themselves are looked up. -/
def expr? (leaf : String → Expr) : Form → Option Expr
  | .word text => some (leaf text)
  | .round [.word "group", f] => do return .grouping 0 (← f.expr? leaf)
  | .round [.word "index", .word name, f] =>
    do return .index 0 (← Token.ofText name) (← f.expr? leaf)
  | .round [.word "=", .word name, .curly fs] =>
    do return .assignElements 0 (← Token.ofText name) (← exprs? leaf fs)
  | .round [.word "=", .word name, f] =>
    do return .assign 0 (← Token.ofText name) (← f.expr? leaf)
  | .round [.word "=", .round [.word "index", .word name, f], g] =>
    do return .assignIndex 0 (← Token.ofText name) (← f.expr? leaf) (← g.expr? leaf)
  | .round (.word "call" :: f :: fs) =>
    do return .call 0 (← f.expr? leaf) (← Token.ofText ")") (← exprs? leaf fs)
  | .round [.word operator, f] =>
    do return .unary 0 (← Token.ofText operator) (← f.expr? leaf)
  | .round [.word operator, f, g] => do
    let operator ← Token.ofText operator
    let node := if operator.kind ∈ [.and, .or] then Expr.logical else Expr.binary
    return node 0 (← f.expr? leaf) operator (← g.expr? leaf)
  | _ => none

def exprs? (leaf : String → Expr) : List Form → Option (List Expr)
  | [] => some []
  | f :: fs => do return (← f.expr? leaf) :: (← exprs? leaf fs)

end

/-- The parameters with these forms. -/
def parameters? : List Form → Option (List Parameter)
  | [] => some []
  | .word type :: .word name :: fs => do
    return ⟨← Token.ofText (withoutCommas name), ← Ty.ofDisplay? type⟩ :: (← parameters? fs)
  | _ => none

/-- What a declared variable with these forms behind its name starts with. -/
def initializer? (leaf : String → Expr) : List Form → Option Initializer
  | [] => some .zero
  | [.curly fs] => do return .elements (← exprs? leaf fs)
  | [f] => do return .value (← f.expr? leaf)
  | _ => none

mutual

/-- The statement with this form. -/
def stmt? (leaf : String → Expr) : Form → Option Stmt
  | .round [.word ";", f] => do return .expression (← f.expr? leaf)
  | .round (.word "block" :: fs) => do return .block (← stmts? leaf fs)
  | .round (.word "var" :: .word type :: .word name :: fs) =>
    do return .declare (← Token.ofText name) (← Ty.ofDisplay? type) (← initializer? leaf fs)
  | .round [.word "if", f, g] =>
    do return .ifThen (← Token.ofText "if") (← f.expr? leaf) (← g.stmt? leaf)
  | .round [.word "if", f, g, h] =>
    do return .ifElse (← Token.ofText "if") (← f.expr? leaf) (← g.stmt? leaf) (← h.stmt? leaf)
  | .round [.word "while", f, g] =>
    do return .while (← Token.ofText "while") (← f.expr? leaf) (← g.stmt? leaf)
  | .round [.word "return"] => do return .return (← Token.ofText "return") none
  | .round [.word "return", f] => do return .return (← Token.ofText "return") (← f.expr? leaf)
  | .round [.word "break"] => do return .break (← Token.ofText "break")
  | .round [.word "continue"] => do return .continue (← Token.ofText "continue")
  | .round (.word "fun" :: .word type :: .word name :: .round ps :: fs) => do
    let header : Header := ⟨← Token.ofText name, ← parameters? ps, ← Ty.ofDisplay? type⟩
    return .function header (← stmts? leaf fs)
  | _ => none

def stmts? (leaf : String → Expr) : List Form → Option (List Stmt)
  | [] => some []
  | f :: fs => do return (← f.stmt? leaf) :: (← stmts? leaf fs)

end

end Form

/-! ## Types and names -/

theorem Ty.ofDisplay?_display (t : Ty) : ofDisplay? t.display = some t := by
  cases t with
  | scalar s => cases s <;> decide
  | array s => cases s <;> decide
  | void => decide
  | any => decide
  | unknown => decide

/-! ## Expressions -/

/-- Is the expression printed as one word? -/
def Expr.isLeaf : Expr → Bool
  | .literal .. => true
  | .var .. => true
  | _ => false

/-- The expression itself consists of tokens of the list, and if it is printed as one word then the
dictionary has it. -/
def Expr.Readable (ts : List Token) (leaf : String → Expr) (e : Expr) : Prop :=
  e.Tokens ts ∧ (e.isLeaf = true → leaf e.print = e.bared)

section

variable {ts : List Token} {leaf : String → Expr}

theorem Expr.toForm_ne_curly (e : Expr) (fs : List Form) : e.toForm ≠ .curly fs := by
  cases e <;> simp [Expr.toForm]

theorem ne_reserved {text : String} (h : text ∉ Token.reserved) :
    text ≠ "group" ∧ text ≠ "index" ∧ text ≠ "=" ∧ text ≠ "call" := by
  simpa [Token.reserved] using h

/-- Brackets that begin with none of the words for nodes begin with an operator. -/
theorem Form.expr?_one {text : String} (h : text ∉ Token.reserved) (f : Form) :
    expr? leaf (.round [.word text, f]) =
      do return .unary 0 (← Token.ofText text) (← f.expr? leaf) := by
  have := ne_reserved h
  rw [expr?] <;> simp [this]

theorem Form.expr?_two {text : String} (h : text ∉ Token.reserved) (f g : Form) :
    expr? leaf (.round [.word text, f, g]) = do
      let operator ← Token.ofText text
      let node := if operator.kind ∈ [.and, .or] then Expr.logical else Expr.binary
      return node 0 (← f.expr? leaf) operator (← g.expr? leaf) := by
  have := ne_reserved h
  rw [expr?] <;> simp [this]

/-- A bracket or a keyword is the token of its text. -/
theorem Token.read_known (legible : ∀ t ∈ ts, t.Legible) {t : Token} {kind : TokenKind}
    (h : t ∈ ts ∧ t.kind = kind) {text : String} (hk : kind.text? = some text) :
    Token.ofText text = some t.bared :=
  (legible t h.1).ofText (h.2 ▸ hk)

theorem not_reserved (legible : ∀ t ∈ ts, t.Legible) {t : Token} (mem : t ∈ ts)
    {kinds : List TokenKind} (hk : t.kind ∈ kinds) (known : kinds ⊆ Token.operatorKinds) :
    t.lexeme ∉ Token.reserved :=
  (Token.operator_word (legible t mem) (known hk)).2

mutual

/-- An expression is read from its form. -/
theorem Expr.read_toForm (legible : ∀ t ∈ ts, t.Legible) : (e : Expr) →
    e.Each (Expr.Readable ts leaf) → e.toForm.expr? leaf = some e.bared
  | .literal id value line, h => by
    obtain ⟨-, known⟩ := Expr.each_literal.1 h
    exact congrArg some (known rfl)
  | .grouping id inner, h => by
    obtain ⟨-, inside⟩ := Expr.each_grouping.1 h
    rw [Expr.toForm, expr?, inner.read_toForm legible inside]
    rfl
  | .unary id operator right, h => by
    obtain ⟨⟨⟨mem, kind⟩, -⟩, operand⟩ := Expr.each_unary.1 h
    have own := not_reserved legible mem kind (by decide)
    rw [Expr.toForm, expr?_one own, (legible operator mem).read, right.read_toForm legible operand]
    rfl
  | .binary id left operator right, h => by
    obtain ⟨⟨⟨mem, kind⟩, -⟩, first, second⟩ := Expr.each_binary.1 h
    have own := not_reserved legible mem kind (by decide)
    have apart : ∀ k ∈ binaryKinds, k ∉ [TokenKind.and, .or] := by decide
    have node : operator.bared.kind ∉ [TokenKind.and, .or] := apart _ kind
    rw [Expr.toForm, expr?_two own, (legible operator mem).read, left.read_toForm legible first,
      right.read_toForm legible second]
    simp only [Option.bind_eq_bind, Option.bind_some, if_neg node]
    rfl
  | .logical id left operator right, h => by
    obtain ⟨⟨⟨mem, kind⟩, -⟩, first, second⟩ := Expr.each_logical.1 h
    have own := not_reserved legible mem kind (by decide)
    have node : operator.bared.kind ∈ [TokenKind.and, .or] := kind
    rw [Expr.toForm, expr?_two own, (legible operator mem).read, left.read_toForm legible first,
      right.read_toForm legible second]
    simp only [Option.bind_eq_bind, Option.bind_some, if_pos node]
    rfl
  | .var id name, h => by
    obtain ⟨-, known⟩ := Expr.each_var.1 h
    exact congrArg some (known rfl)
  | .index id name position, h => by
    obtain ⟨⟨⟨mem, -⟩, -⟩, inside⟩ := Expr.each_index.1 h
    rw [Expr.toForm, expr?, (legible name mem).read, position.read_toForm legible inside]
    rfl
  | .assign id name value, h => by
    obtain ⟨⟨⟨mem, -⟩, -⟩, assigned⟩ := Expr.each_assign.1 h
    rw [Expr.toForm, expr?, (legible name mem).read, value.read_toForm legible assigned]
    · rfl
    · exact value.toForm_ne_curly
  | .assignIndex id name position value, h => by
    obtain ⟨⟨⟨mem, -⟩, -⟩, inside, assigned⟩ := Expr.each_assignIndex.1 h
    rw [Expr.toForm, expr?, (legible name mem).read, position.read_toForm legible inside,
      value.read_toForm legible assigned]
    rfl
  | .assignElements id name elements, h => by
    obtain ⟨⟨⟨mem, -⟩, -⟩, inside⟩ := Expr.each_assignElements.1 h
    rw [Expr.toForm, expr?, (legible name mem).read, exprs_read legible elements inside]
    rfl
  | .call id callee paren arguments, h => by
    obtain ⟨⟨⟨mem, kind⟩, -⟩, called, inside⟩ := Expr.each_call.1 h
    rw [Expr.toForm, expr?, Token.read_known legible ⟨mem, kind⟩ rfl,
      callee.read_toForm legible called, exprs_read legible arguments inside]
    rfl

theorem exprs_read (legible : ∀ t ∈ ts, t.Legible) : (es : List Expr) →
    EachExpr (Expr.Readable ts leaf) es → exprs? leaf (exprForms es) = some (exprsBared es)
  | [], _ => rfl
  | e :: es, h => by
    obtain ⟨first, others⟩ := eachExpr_cons.1 h
    rw [exprForms, exprs?, e.read_toForm legible first, exprs_read legible es others]
    rfl

end

/-! ## Statements -/

/-- No comma is part of a name. -/
theorem withoutCommas_name {t : Token} (h : t.Legible) (hk : t.kind = .identifier) :
    withoutCommas t.lexeme = t.lexeme ∧ withoutCommas (t.lexeme ++ ",") = t.lexeme := by
  have chars : t.lexeme.toList.filter (· ≠ ',') = t.lexeme.toList := by
    refine List.filter_eq_self.2 fun c hc => ?_
    have word := Token.name_chars h hk c hc
    rw [decide_eq_true_eq]
    rintro rfl
    cases word
  constructor
  · rw [withoutCommas, chars, String.ofList_toList]
  · rw [withoutCommas, String.toList_append, List.filter_append, chars, ← String.toList_inj]
    simp

theorem parameters_read (legible : ∀ t ∈ ts, t.Legible) : (ps : List Parameter) →
    (∀ p ∈ ps, p.name ∈ ts ∧ p.name.kind = .identifier) →
    parameters? (parameterForms ps) = some (ps.map Parameter.bared)
  | [], _ => rfl
  | [p], h => by
    obtain ⟨mem, kind⟩ := h p List.mem_cons_self
    rw [parameterForms, parameters?, (withoutCommas_name (legible _ mem) kind).1,
      (legible _ mem).read, Ty.ofDisplay?_display]
    rfl
  | p :: q :: ps, h => by
    obtain ⟨mem, kind⟩ := h p List.mem_cons_self
    have ih := parameters_read legible (q :: ps) fun r hr => h r (List.mem_cons_of_mem _ hr)
    rw [parameterForms, parameters?, (withoutCommas_name (legible _ mem) kind).2,
      (legible _ mem).read, Ty.ofDisplay?_display, ih]
    rfl

theorem Initializer.read_forms (legible : ∀ t ∈ ts, t.Legible) (start : Initializer)
    (h : start.Each (Expr.Readable ts leaf)) :
    initializer? leaf start.forms = some start.bared := by
  cases start with
  | zero => rfl
  | value e =>
    rw [Initializer.forms, initializer?, e.read_toForm legible h]
    · rfl
    · exact e.toForm_ne_curly
  | elements es =>
    rw [Initializer.forms, initializer?, exprs_read legible es h]
    rfl

/-- The tokens of a statement itself are in the list. -/
def Stmt.Tokens (ts : List Token) (s : Stmt) : Prop :=
  s.Keyed ts ∧ s.Written ts

mutual

/-- A statement is read from its form. -/
theorem Stmt.read_toForm (legible : ∀ t ∈ ts, t.Legible) : (s : Stmt) →
    s.Each (Expr.Readable ts leaf) (Stmt.Tokens ts) → s.toForm.stmt? leaf = some s.bared
  | .expression e, h => by
    obtain ⟨-, inside⟩ := Stmt.each_expression.1 h
    rw [Stmt.toForm, stmt?, e.read_toForm legible inside]
    rfl
  | .block body, h => by
    obtain ⟨-, inside⟩ := Stmt.each_block.1 h
    rw [Stmt.toForm, stmt?, stmts_read legible body inside]
    rfl
  | .declare name type start, h => by
    obtain ⟨⟨-, written, -⟩, inside⟩ := Stmt.each_declare.1 h
    rw [Stmt.toForm, stmt?, (legible name written.mem.1).read, Ty.ofDisplay?_display,
      start.read_forms legible inside]
    rfl
  | .ifThen keyword test yes, h => by
    obtain ⟨⟨keyed, -⟩, tested, first⟩ := Stmt.each_ifThen.1 h
    rw [Stmt.toForm, stmt?, Token.read_known legible keyed rfl, test.read_toForm legible tested,
      yes.read_toForm legible first]
    rfl
  | .ifElse keyword test yes no, h => by
    obtain ⟨⟨keyed, -⟩, tested, first, second⟩ := Stmt.each_ifElse.1 h
    rw [Stmt.toForm, stmt?, Token.read_known legible keyed rfl, test.read_toForm legible tested,
      yes.read_toForm legible first, no.read_toForm legible second]
    rfl
  | .while keyword test body, h => by
    obtain ⟨⟨keyed, -⟩, tested, inside⟩ := Stmt.each_while.1 h
    rw [Stmt.toForm, stmt?, Token.read_known legible keyed rfl, test.read_toForm legible tested,
      body.read_toForm legible inside]
    rfl
  | .return keyword none, h => by
    obtain ⟨⟨keyed, -⟩, -⟩ := Stmt.each_return.1 h
    rw [Stmt.toForm, stmt?, Token.read_known legible keyed rfl]
    rfl
  | .return keyword (some e), h => by
    obtain ⟨⟨keyed, -⟩, inside⟩ := Stmt.each_return.1 h
    rw [Stmt.toForm, stmt?, Token.read_known legible keyed rfl,
      e.read_toForm legible (inside e rfl)]
    rfl
  | .break keyword, h => by
    obtain ⟨keyed, -⟩ := h.self
    rw [Stmt.toForm, stmt?, Token.read_known legible keyed rfl]
    rfl
  | .continue keyword, h => by
    obtain ⟨keyed, -⟩ := h.self
    rw [Stmt.toForm, stmt?, Token.read_known legible keyed rfl]
    rfl
  | .function header body, h => by
    obtain ⟨⟨-, written, parameters⟩, inside⟩ := Stmt.each_function.1 h
    rw [Stmt.toForm, stmt?, (legible header.name written.mem.1).read, Ty.ofDisplay?_display,
      parameters_read legible header.parameters fun p hp => (parameters p hp).1.mem,
      stmts_read legible body inside]
    rfl

theorem stmts_read (legible : ∀ t ∈ ts, t.Legible) : (ss : List Stmt) →
    EachStmt (Expr.Readable ts leaf) (Stmt.Tokens ts) ss →
    stmts? leaf (stmtForms ss) = some (stmtsBared ss)
  | [], _ => rfl
  | s :: ss, h => by
    obtain ⟨first, others⟩ := eachStmt_cons.1 h
    rw [stmtForms, stmts?, s.read_toForm legible first, stmts_read legible ss others]
    rfl

end

end

end TickScript
