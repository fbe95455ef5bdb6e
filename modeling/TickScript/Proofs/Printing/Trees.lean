import TickScript.Proofs.Printing.Forms
import TickScript.Proofs.Printing.Lexemes
import TickScript.Tree.Print

/-!
# Trees as forms

A tree is printed as a form: a literal or a variable is a word, and all else is in brackets behind a
word for its kind. The text of the form is what is printed (`Stmt.chars_toForm`).
-/

namespace TickScript

/-! ## Trees without places -/

mutual

/-- An expression without numbers, places and types of names. -/
def Expr.bared : Expr → Expr
  | .literal _ value _ => .literal 0 value 0
  | .grouping _ inner => .grouping 0 inner.bared
  | .unary _ operator right => .unary 0 operator.bared right.bared
  | .binary _ left operator right => .binary 0 left.bared operator.bared right.bared
  | .logical _ left operator right => .logical 0 left.bared operator.bared right.bared
  | .var _ name => .var 0 name.bared
  | .index _ name position => .index 0 name.bared position.bared
  | .assign _ name value => .assign 0 name.bared value.bared
  | .assignIndex _ name position value => .assignIndex 0 name.bared position.bared value.bared
  | .assignElements _ name elements => .assignElements 0 name.bared (exprsBared elements)
  | .call _ callee paren arguments => .call 0 callee.bared paren.bared (exprsBared arguments)

def exprsBared : List Expr → List Expr
  | [] => []
  | e :: es => e.bared :: exprsBared es

end

def Initializer.bared : Initializer → Initializer
  | .zero => .zero
  | .value e => .value e.bared
  | .elements es => .elements (exprsBared es)

def Parameter.bared (p : Parameter) : Parameter :=
  { p with name := p.name.bared }

def Header.bared (h : Header) : Header :=
  { h with name := h.name.bared, parameters := h.parameters.map Parameter.bared }

mutual

/-- A statement without numbers, places and types of names. The types that it declares stay. -/
def Stmt.bared : Stmt → Stmt
  | .expression e => .expression e.bared
  | .block body => .block (stmtsBared body)
  | .declare name type start => .declare name.bared type start.bared
  | .ifThen keyword test yes => .ifThen keyword.bared test.bared yes.bared
  | .ifElse keyword test yes no => .ifElse keyword.bared test.bared yes.bared no.bared
  | .while keyword test body => .while keyword.bared test.bared body.bared
  | .return keyword value => .return keyword.bared (value.map Expr.bared)
  | .break keyword => .break keyword.bared
  | .continue keyword => .continue keyword.bared
  | .function header body => .function header.bared (stmtsBared body)

def stmtsBared : List Stmt → List Stmt
  | [] => []
  | s :: ss => s.bared :: stmtsBared ss

end

/-! ## Forms of trees -/

mutual

/-- The form as which an expression is printed. -/
def Expr.toForm : Expr → Form
  | .literal _ value _ => .word value.display
  | .grouping _ inner => .round [.word "group", inner.toForm]
  | .unary _ operator right => .round [.word operator.lexeme, right.toForm]
  | .binary _ left operator right => .round [.word operator.lexeme, left.toForm, right.toForm]
  | .logical _ left operator right => .round [.word operator.lexeme, left.toForm, right.toForm]
  | .var _ name => .word name.lexeme
  | .index _ name position => .round [.word "index", .word name.lexeme, position.toForm]
  | .assign _ name value => .round [.word "=", .word name.lexeme, value.toForm]
  | .assignIndex _ name position value =>
    .round [.word "=", .round [.word "index", .word name.lexeme, position.toForm], value.toForm]
  | .assignElements _ name elements =>
    .round [.word "=", .word name.lexeme, .curly (exprForms elements)]
  | .call _ callee _ arguments => .round (.word "call" :: callee.toForm :: exprForms arguments)

def exprForms : List Expr → List Form
  | [] => []
  | e :: es => e.toForm :: exprForms es

end

def Initializer.forms : Initializer → List Form
  | .zero => []
  | .value e => [e.toForm]
  | .elements es => [.curly (exprForms es)]

/-- Types and names of parameters. The comma between two parameters is part of a word. -/
def parameterForms : List Parameter → List Form
  | [] => []
  | [p] => [.word p.type.display, .word p.name.lexeme]
  | p :: q :: ps =>
    .word p.type.display :: .word (p.name.lexeme ++ ",") :: parameterForms (q :: ps)

mutual

/-- The form as which a statement is printed. -/
def Stmt.toForm : Stmt → Form
  | .expression e => .round [.word ";", e.toForm]
  | .block body => .round (.word "block" :: stmtForms body)
  | .declare name type start =>
    .round (.word "var" :: .word type.display :: .word name.lexeme :: start.forms)
  | .ifThen _ test yes => .round [.word "if", test.toForm, yes.toForm]
  | .ifElse _ test yes no => .round [.word "if", test.toForm, yes.toForm, no.toForm]
  | .while _ test body => .round [.word "while", test.toForm, body.toForm]
  | .return _ none => .round [.word "return"]
  | .return _ (some e) => .round [.word "return", e.toForm]
  | .break _ => .round [.word "break"]
  | .continue _ => .round [.word "continue"]
  | .function header body =>
    .round (.word "fun" :: .word header.returnType.display :: .word header.name.lexeme ::
      .round (parameterForms header.parameters) :: stmtForms body)

def stmtForms : List Stmt → List Form
  | [] => []
  | s :: ss => s.toForm :: stmtForms ss

end

/-! ## What is printed -/

attribute [simp] Form.chars Form.eachSpaced

/-- A text that is put into another one is itself. -/
@[simp]
theorem toString_text (text : String) : toString text = text := rfl

namespace Form

/-- The forms have these texts. -/
def Spells (fs : List Form) (texts : List String) : Prop :=
  fs.map chars = texts.map String.toList

theorem Spells.spaced {texts : List String} : ∀ {fs : List Form}, Spells fs texts →
    eachSpaced fs = (TickScript.spaced texts).toList := by
  induction texts with
  | nil =>
    intro fs h
    obtain rfl := List.map_eq_nil_iff.1 h
    rfl
  | cons text texts ih =>
    intro fs h
    obtain ⟨f, fs, rfl, first, others⟩ := List.map_eq_cons_iff.1 h
    rw [eachSpaced, first, ih others]
    simp [TickScript.spaced]

/-- Without the first space, the spaces are between the texts. -/
theorem Spells.intercalate {texts : List String} : ∀ {fs : List Form}, Spells fs texts →
    (eachSpaced fs).tail = (" ".intercalate texts).toList := by
  induction texts with
  | nil =>
    intro fs h
    obtain rfl := List.map_eq_nil_iff.1 h
    rfl
  | cons text texts ih =>
    intro fs h
    obtain ⟨f, fs, rfl, first, others⟩ := List.map_eq_cons_iff.1 h
    cases texts with
    | nil =>
      obtain rfl := List.map_eq_nil_iff.1 others
      simp [eachSpaced, first]
    | cons text' texts =>
      obtain ⟨g, gs, rfl, -, -⟩ := List.map_eq_cons_iff.1 others
      have rest := ih others
      rw [String.toList_intercalate] at rest ⊢
      rw [eachSpaced, List.tail_cons, first, List.map_cons, List.map_cons,
        List.intercalate_cons_cons, ← List.map_cons, ← rest]
      simp [eachSpaced]

theorem eachSpaced_cons {fs : List Form} (h : fs ≠ []) :
    eachSpaced fs = ' ' :: (eachSpaced fs).tail := by
  cases fs with
  | nil => exact absurd rfl h
  | cons f fs => simp

theorem Spells.braced {fs : List Form} {texts : List String} (h : Spells fs texts) :
    (curly fs).chars = (TickScript.braced texts).toList := by
  rw [chars, h.intercalate]
  simp [TickScript.braced]

end Form

mutual

theorem Expr.chars_toForm : (e : Expr) → e.toForm.chars = e.print.toList
  | .literal .. => rfl
  | .grouping _ inner => by simp [Expr.toForm, Expr.print, inner.chars_toForm]
  | .unary _ operator right => by simp [Expr.toForm, Expr.print, right.chars_toForm]
  | .binary _ left operator right => by
    simp [Expr.toForm, Expr.print, left.chars_toForm, right.chars_toForm]
  | .logical _ left operator right => by
    simp [Expr.toForm, Expr.print, left.chars_toForm, right.chars_toForm]
  | .var .. => rfl
  | .index _ name position => by simp [Expr.toForm, Expr.print, position.chars_toForm]
  | .assign _ name value => by simp [Expr.toForm, Expr.print, value.chars_toForm]
  | .assignIndex _ name position value => by
    simp [Expr.toForm, Expr.print, position.chars_toForm, value.chars_toForm]
  | .assignElements _ name elements => by
    have braced := (spells_exprs elements).braced
    rw [Expr.toForm, Expr.print, Form.chars, Form.eachSpaced, Form.eachSpaced, Form.eachSpaced,
      braced]
    simp
  | .call _ callee _ arguments => by
    simp [Expr.toForm, Expr.print, callee.chars_toForm, (spells_exprs arguments).spaced]

theorem spells_exprs : (es : List Expr) → Form.Spells (exprForms es) (printExprs es)
  | [] => rfl
  | e :: es => List.cons_eq_cons.2 ⟨e.chars_toForm, spells_exprs es⟩

end

theorem Initializer.eachSpaced_forms (start : Initializer) :
    Form.eachSpaced start.forms = start.print.toList := by
  cases start with
  | zero => rfl
  | value e => simp [Initializer.forms, Initializer.print, e.chars_toForm]
  | elements es =>
    rw [Initializer.forms, Initializer.print, Form.eachSpaced, (spells_exprs es).braced]
    simp

/-- The commas between parameters are behind all names but the last. -/
theorem eachSpaced_parameterForms : (ps : List Parameter) →
    (Form.eachSpaced (parameterForms ps)).tail =
      (", ".intercalate (ps.map Parameter.print)).toList
  | [] => rfl
  | [p] => by simp [parameterForms, Parameter.print]
  | p :: q :: ps => by
    have rest := eachSpaced_parameterForms (q :: ps)
    have some : parameterForms (q :: ps) ≠ [] := by cases ps <;> simp [parameterForms]
    rw [String.toList_intercalate] at rest ⊢
    rw [parameterForms, Form.eachSpaced, Form.eachSpaced, Form.eachSpaced_cons some, rest]
    simp [Parameter.print, List.intercalate_cons_cons]

theorem Header.toList_print (h : Header) :
    h.print.toList = "fun ".toList ++ (h.returnType.display.toList ++ (' ' ::
      (h.name.lexeme.toList ++ ' ' :: (Form.round (parameterForms h.parameters)).chars))) := by
  rw [Form.chars, eachSpaced_parameterForms]
  simp [Header.print, -String.toList_intercalate]

mutual

theorem Stmt.chars_toForm : (s : Stmt) → s.toForm.chars = s.print.toList
  | .expression e => by simp [Stmt.toForm, Stmt.print, e.chars_toForm]
  | .block body => by simp [Stmt.toForm, Stmt.print, (spells_stmts body).spaced]
  | .declare name type start => by simp [Stmt.toForm, Stmt.print, start.eachSpaced_forms]
  | .ifThen _ test yes => by
    simp [Stmt.toForm, Stmt.print, test.chars_toForm, yes.chars_toForm]
  | .ifElse _ test yes no => by
    simp [Stmt.toForm, Stmt.print, test.chars_toForm, yes.chars_toForm, no.chars_toForm]
  | .while _ test body => by
    simp [Stmt.toForm, Stmt.print, test.chars_toForm, body.chars_toForm]
  | .return _ none => by simp [Stmt.toForm, Stmt.print]
  | .return _ (some e) => by simp [Stmt.toForm, Stmt.print, e.chars_toForm]
  | .break _ => by simp [Stmt.toForm, Stmt.print]
  | .continue _ => by simp [Stmt.toForm, Stmt.print]
  | .function header body => by
    simp [Stmt.toForm, Stmt.print, header.toList_print, (spells_stmts body).spaced]

theorem spells_stmts : (ss : List Stmt) → Form.Spells (stmtForms ss) (printStmts ss)
  | [] => rfl
  | s :: ss => List.cons_eq_cons.2 ⟨s.chars_toForm, spells_stmts ss⟩

end

end TickScript
