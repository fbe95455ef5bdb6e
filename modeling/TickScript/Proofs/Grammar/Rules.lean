import TickScript.Tree.Parse

/-!
# The rules of the grammar

The grammar as relations between token lists and trees, without a parser. A rule derives a list
of tokens and says what tree the list stands for: operators of one precedence group from the
left, assignments from the right, and in a list of declarations the functions come first, the
last one foremost.

The grammar is ambiguous in one point: an `else` can belong to each `if` before it that has none.
The rules take a flag for this. With it, an `else` belongs to the nearest `if`. The same token
lists are derived with and without it (`Program.reattach`).
-/

namespace TickScript

namespace Grammar

/-- A rule of the grammar: the token lists that it derives, each with the tree that it stands
for. The expressions of such a tree are not numbered, all of them have the number 0. -/
abbrev Rule (α : Type) := List Token → α → Prop

variable {α : Type}

/-! ## Repetition -/

/-- item ( "," item )* -/
inductive Separated (Item : Rule α) : Rule (List α) where
  | last {ts a} (item : Item ts a) : Separated Item ts [a]
  | more {ts us a as comma} (item : Item ts a) (separator : comma.kind = .comma)
      (others : Separated Item us as) : Separated Item (ts ++ comma :: us) (a :: as)

/-- ( item ( "," item )* )? -/
inductive Listed (Item : Rule α) : Rule (List α) where
  | none : Listed Item [] []
  | some {ts as} (items : Separated Item ts as) : Listed Item ts as

/-- item* -/
inductive Many (Item : Rule α) : Rule (List α) where
  | nil : Many Item [] []
  | cons {ts us a as} (item : Item ts a) (others : Many Item us as) :
      Many Item (ts ++ us) (a :: as)

/-! ## Expressions -/

/-- The tokens that are an expression by themselves, names apart. -/
def literals : List TokenKind :=
  [.intNumber, .floatNumber, .true, .false]

/-- primary → INT | FLOAT | "true" | "false" | IDENT ( "[" expression "]" )?
| "(" expression ")". A number or truth value stands for the literal that it carries. -/
inductive Primary (Expression : Rule Expr) : Rule Expr where
  | literal {t value} (kind : t.kind ∈ literals) (carries : t.literal = some value) :
      Primary Expression [t] (.literal 0 value t.line)
  | name {t} (kind : t.kind = .identifier) : Primary Expression [t] (.var 0 t)
  | index {t left right ts position} (kind : t.kind = .identifier)
      (opens : left.kind = .leftBracket) (inside : Expression ts position)
      (closes : right.kind = .rightBracket) :
      Primary Expression (t :: left :: (ts ++ [right])) (.index 0 t position)
  | grouping {left right ts inner} (opens : left.kind = .leftParen) (inside : Expression ts inner)
      (closes : right.kind = .rightParen) :
      Primary Expression (left :: (ts ++ [right])) (.grouping 0 inner)

/-- call → primary ( "(" arguments? ")" )*, where arguments → expression ( "," expression )*
and there are at most 255 of them. -/
inductive Call (Expression : Rule Expr) : Rule Expr where
  | primary {ts e} (h : Primary Expression ts e) : Call Expression ts e
  | arguments {ts us callee items left right} (h : Call Expression ts callee)
      (opens : left.kind = .leftParen) (inside : Listed Expression us items)
      (few : items.length ≤ 255) (closes : right.kind = .rightParen) :
      Call Expression (ts ++ left :: (us ++ [right])) (.call 0 callee right items)

/-- unary → ( "!" | "-" ) unary | call -/
inductive Unary (Expression : Rule Expr) : Rule Expr where
  | call {ts e} (h : Call Expression ts e) : Unary Expression ts e
  | sign {sign ts e} (kind : sign.kind ∈ [.bang, .minus]) (h : Unary Expression ts e) :
      Unary Expression (sign :: ts) (.unary 0 sign e)

/-- Operators of one precedence. -/
structure Level where
  kinds : List TokenKind
  logical : Bool

/-- The expression with an operator of this level. -/
def Level.node (l : Level) : ExprId → Expr → Token → Expr → Expr :=
  bif l.logical then .logical else .binary

/-- The operators between two operands, the loosest first. These are the rules logic_or,
logic_and, equality, comparison, term and factor. -/
def precedence : List Level :=
  [⟨[.or], true⟩,
   ⟨[.and], true⟩,
   ⟨[.bangEqual, .equalEqual], false⟩,
   ⟨[.greater, .greaterEqual, .less, .lessEqual], false⟩,
   ⟨[.minus, .plus], false⟩,
   ⟨[.slash, .star, .percent], false⟩]

/-- operation → operand ( operator operand )*, where the operators are of the first level and
the operands are operations with the levels behind it, or behind the last level unary. -/
inductive Operation (Expression : Rule Expr) : List Level → Rule Expr where
  | unary {ts e} (h : Unary Expression ts e) : Operation Expression [] ts e
  | operand {l levels ts e} (h : Operation Expression levels ts e) :
      Operation Expression (l :: levels) ts e
  | more {l levels ts us left operator right} (h : Operation Expression (l :: levels) ts left)
      (kind : operator.kind ∈ l.kinds) (h' : Operation Expression levels us right) :
      Operation Expression (l :: levels) (ts ++ operator :: us) (l.node 0 left operator right)

/-- assignment → IDENT ( "[" expression "]" )? "=" assignment
| IDENT "=" "{" ( assignment ( "," assignment )* )? "}" | logic_or -/
inductive Assignment (Expression : Rule Expr) : Rule Expr where
  | name {t equals ts value} (kind : t.kind = .identifier) (sign : equals.kind = .equal)
      (h : Expression ts value) : Assignment Expression (t :: equals :: ts) (.assign 0 t value)
  | index {t left right equals ts us position value} (kind : t.kind = .identifier)
      (opens : left.kind = .leftBracket) (inside : Expression ts position)
      (closes : right.kind = .rightBracket) (sign : equals.kind = .equal)
      (h : Expression us value) :
      Assignment Expression (t :: left :: (ts ++ right :: equals :: us))
        (.assignIndex 0 t position value)
  | elements {t equals left right ts items} (kind : t.kind = .identifier)
      (sign : equals.kind = .equal) (opens : left.kind = .leftBrace)
      (inside : Listed Expression ts items) (closes : right.kind = .rightBrace) :
      Assignment Expression (t :: equals :: left :: (ts ++ [right])) (.assignElements 0 t items)
  | operation {ts e} (h : Operation Expression precedence ts e) : Assignment Expression ts e

/-- expression → assignment -/
inductive Expression : Rule Expr where
  | assignment {ts e} (h : Assignment Expression ts e) : Expression ts e

/-! ## Statements -/

/-- Can the statement take one more `else`? -/
def isOpen : Stmt → Bool
  | .ifThen _ _ _ => true
  | .ifElse _ _ _ no => isOpen no
  | .while _ _ body => isOpen body
  | _ => false

/-- statement → expression ";" | "return" expression? ";" | "break" ";" | "continue" ";" | block
| "if" "(" expression ")" statement ( "else" statement )? | "while" "(" expression ")" statement.
If `nearest` is set then an `else` belongs to the nearest `if`. -/
inductive Statement (nearest : Bool) (Block : Rule (List Stmt)) : Rule Stmt where
  | expression {ts e finish} (h : Expression ts e) (ends : finish.kind = .semicolon) :
      Statement nearest Block (ts ++ [finish]) (.expression e)
  | returnValue {keyword ts e finish} (kind : keyword.kind = .return) (h : Expression ts e)
      (ends : finish.kind = .semicolon) :
      Statement nearest Block (keyword :: (ts ++ [finish])) (.return keyword (some e))
  | returnNone {keyword finish} (kind : keyword.kind = .return) (ends : finish.kind = .semicolon) :
      Statement nearest Block [keyword, finish] (.return keyword none)
  | break {keyword finish} (kind : keyword.kind = .break) (ends : finish.kind = .semicolon) :
      Statement nearest Block [keyword, finish] (.break keyword)
  | continue {keyword finish} (kind : keyword.kind = .continue)
      (ends : finish.kind = .semicolon) :
      Statement nearest Block [keyword, finish] (.continue keyword)
  | block {ts body} (h : Block ts body) : Statement nearest Block ts (.block body)
  | ifThen {keyword left right ts us test yes} (kind : keyword.kind = .if)
      (opens : left.kind = .leftParen) (condition : Expression ts test)
      (closes : right.kind = .rightParen) (h : Statement nearest Block us yes) :
      Statement nearest Block (keyword :: left :: (ts ++ right :: us)) (.ifThen keyword test yes)
  | ifElse {keyword left right other ts us vs test yes no} (kind : keyword.kind = .if)
      (opens : left.kind = .leftParen) (condition : Expression ts test)
      (closes : right.kind = .rightParen) (h : Statement nearest Block us yes)
      (takes : nearest = true → isOpen yes = false) (turn : other.kind = .else)
      (h' : Statement nearest Block vs no) :
      Statement nearest Block (keyword :: left :: (ts ++ right :: (us ++ other :: vs)))
        (.ifElse keyword test yes no)
  | while {keyword left right ts us test body} (kind : keyword.kind = .while)
      (opens : left.kind = .leftParen) (condition : Expression ts test)
      (closes : right.kind = .rightParen) (h : Statement nearest Block us body) :
      Statement nearest Block (keyword :: left :: (ts ++ right :: us)) (.while keyword test body)

/-- TYPE ( "[" "]" )?, but there are no arrays of void. -/
inductive TypeName : Rule Ty where
  | plain {t type} (kind : t.kind.type? = some type) : TypeName [t] type
  | array {t left right type} (kind : t.kind.type? = some type) (filled : type ≠ .void)
      (opens : left.kind = .leftBracket) (closes : right.kind = .rightBracket) :
      TypeName [t, left, right] type.arrayOf

/-- One parameter: TYPE ( "[" "]" )? IDENT. Its type is not void. -/
inductive Parameter : Rule TickScript.Parameter where
  | mk {ts type name} (typed : TypeName ts type) (filled : type ≠ .void)
      (kind : name.kind = .identifier) : Parameter (ts ++ [name]) ⟨name, type⟩

/-- ( "=" initializer )? for a variable of some type. The initializer is an expression, or for an
array also a list of expressions in braces. -/
inductive Start (type : Ty) : Rule Initializer where
  | zero : Start type [] .zero
  | value {equals ts e} (sign : equals.kind = .equal) (h : Expression ts e) :
      Start type (equals :: ts) (.value e)
  | elements {equals left right ts items element} (array : type = .array element)
      (sign : equals.kind = .equal) (opens : left.kind = .leftBrace)
      (inside : Listed Expression ts items) (closes : right.kind = .rightBrace) :
      Start type (equals :: left :: (ts ++ [right])) (.elements items)

/-- declaration → typedDecl | statement, where typedDecl → TYPE ( "[" "]" )? IDENT
( "(" parameters? ")" block | ( "=" initializer )? ";" ). A function has at most 255 parameters,
and no variable is void. -/
inductive Declaration (nearest : Bool) (Block : Rule (List Stmt)) : Rule Stmt where
  | function {ts type name left us parameters right vs body} (typed : TypeName ts type)
      (kind : name.kind = .identifier) (opens : left.kind = .leftParen)
      (inside : Listed Parameter us parameters) (few : parameters.length ≤ 255)
      (closes : right.kind = .rightParen) (h : Block vs body) :
      Declaration nearest Block (ts ++ name :: left :: (us ++ right :: vs))
        (.function ⟨name, parameters, type⟩ body)
  | variable {ts type name us start finish} (typed : TypeName ts type) (filled : type ≠ .void)
      (kind : name.kind = .identifier) (starts : Start type us start)
      (ends : finish.kind = .semicolon) :
      Declaration nearest Block (ts ++ name :: (us ++ [finish])) (.declare name type start)
  | statement {ts s} (h : Statement nearest Block ts s) : Declaration nearest Block ts s

/-- A list of declarations as a program runs them: the functions first, the last one foremost,
and then everything else in order. -/
def functionsFirst (ss : List Stmt) : List Stmt :=
  (ss.filter Stmt.isFunction).reverse ++ ss.filter fun s => !s.isFunction

/-- block → "{" declaration* "}" -/
inductive Block (nearest : Bool) : Rule (List Stmt) where
  | mk {left right ts body} (opens : left.kind = .leftBrace)
      (inside : Many (Declaration nearest (Block nearest)) ts body)
      (closes : right.kind = .rightBrace) :
      Block nearest (left :: (ts ++ [right])) (functionsFirst body)

/-- program → declaration* EOF -/
inductive Program (nearest : Bool) : Rule (List Stmt) where
  | mk {ts body mark} (inside : Many (Declaration nearest (Block nearest)) ts body)
      (last : mark.kind = .eof) : Program nearest (ts ++ [mark]) (functionsFirst body)

/-! ## First tokens -/

/-- The list begins with a token of one of these kinds. -/
def Begins (kinds : List TokenKind) (ts : List Token) : Prop :=
  ∃ t us, ts = t :: us ∧ t.kind ∈ kinds

namespace Begins

variable {kinds kinds' : List TokenKind} {ts : List Token}

theorem cons {t : Token} {us : List Token} (h : t.kind ∈ kinds) : Begins kinds (t :: us) :=
  ⟨t, us, rfl, h⟩

theorem append (h : Begins kinds ts) (us : List Token) : Begins kinds (ts ++ us) := by
  obtain ⟨t, rest, rfl, hk⟩ := h
  exact .cons hk

theorem mono (h : Begins kinds ts) (hs : kinds ⊆ kinds') : Begins kinds' ts := by
  obtain ⟨t, rest, rfl, hk⟩ := h
  exact .cons (hs hk)

theorem length_pos (h : Begins kinds ts) : 0 < ts.length := by
  obtain ⟨t, rest, rfl, hk⟩ := h
  exact Nat.succ_pos _

end Begins

/-- The tokens with which an operand without signs begins. -/
def operandKinds : List TokenKind :=
  [.intNumber, .floatNumber, .true, .false, .identifier, .leftParen]

/-- The tokens with which an expression begins. -/
def expressionKinds : List TokenKind :=
  operandKinds ++ [.bang, .minus]

/-- The tokens with which a statement begins. -/
def statementKinds : List TokenKind :=
  expressionKinds ++ [.return, .break, .continue, .leftBrace, .if, .while]

/-- The tokens with which a type begins. -/
def typeKinds : List TokenKind :=
  [.int, .float, .bool, .void]

/-- The tokens with which a declaration begins. -/
def declarationKinds : List TokenKind :=
  statementKinds ++ typeKinds

section

variable {X : Rule Expr} {ts : List Token} {e : Expr}

theorem Primary.begins (h : Primary X ts e) : Begins operandKinds ts := by
  cases h with
  | literal kind carries => exact .cons ((show literals ⊆ operandKinds by decide) kind)
  | name kind => exact .cons (kind ▸ by decide)
  | index kind opens inside closes => exact .cons (kind ▸ by decide)
  | grouping opens inside closes => exact .cons (opens ▸ by decide)

theorem Call.begins (h : Call X ts e) : Begins operandKinds ts := by
  induction h with
  | primary h => exact h.begins
  | arguments h opens inside few closes ih => exact ih.append _

theorem Unary.begins (h : Unary X ts e) : Begins expressionKinds ts := by
  cases h with
  | call h => exact h.begins.mono (by decide)
  | sign kind h => exact .cons ((show [TokenKind.bang, .minus] ⊆ expressionKinds by decide) kind)

theorem Operation.begins {levels : List Level} (h : Operation X levels ts e) :
    Begins expressionKinds ts := by
  induction h with
  | unary h => exact h.begins
  | operand h ih => exact ih
  | more h kind h' ih ih' => exact ih.append _

theorem Expression.begins (h : Expression ts e) : Begins expressionKinds ts := by
  cases h with
  | assignment h =>
    cases h with
    | name kind sign h => exact .cons (kind ▸ by decide)
    | index kind opens inside closes sign h => exact .cons (kind ▸ by decide)
    | elements kind sign opens inside closes => exact .cons (kind ▸ by decide)
    | operation h => exact h.begins

end

section

variable {nearest : Bool} {B : Rule (List Stmt)} {ts : List Token} {s : Stmt}

theorem Statement.begins (blocks : ∀ ts body, B ts body → Begins [.leftBrace] ts)
    (h : Statement nearest B ts s) : Begins statementKinds ts := by
  cases h with
  | expression h ends => exact (h.begins.append _).mono (by decide)
  | returnValue kind h ends => exact .cons (kind ▸ by decide)
  | returnNone kind ends => exact .cons (kind ▸ by decide)
  | «break» kind ends => exact .cons (kind ▸ by decide)
  | «continue» kind ends => exact .cons (kind ▸ by decide)
  | block h => exact (blocks _ _ h).mono (by decide)
  | ifThen kind opens condition closes h => exact .cons (kind ▸ by decide)
  | ifElse kind opens condition closes h takes turn h' => exact .cons (kind ▸ by decide)
  | «while» kind opens condition closes h => exact .cons (kind ▸ by decide)

theorem TypeName.begins {type : Ty} (h : TypeName ts type) : Begins typeKinds ts := by
  have keyword : ∀ {k : TokenKind} {type : Ty}, k.type? = some type → k ∈ typeKinds := by
    intro k type hk
    cases k <;> first | decide | cases hk
  cases h with
  | plain kind => exact .cons (keyword kind)
  | array kind filled opens closes => exact .cons (keyword kind)

theorem Parameter.begins {p : TickScript.Parameter} (h : Parameter ts p) : Begins typeKinds ts := by
  cases h with
  | mk typed filled kind => exact typed.begins.append _

theorem Declaration.begins (blocks : ∀ ts body, B ts body → Begins [.leftBrace] ts)
    (h : Declaration nearest B ts s) : Begins declarationKinds ts := by
  cases h with
  | function typed kind opens inside few closes h => exact (typed.begins.append _).mono (by decide)
  | «variable» typed filled kind starts ends => exact (typed.begins.append _).mono (by decide)
  | statement h => exact (h.begins blocks).mono (by decide)

theorem Block.begins {body : List Stmt} (h : Block nearest ts body) : Begins [.leftBrace] ts := by
  cases h with
  | mk opens inside closes => exact .cons (List.mem_singleton.2 opens)

end

/-! ## The nearest `if` -/

section

variable {nearest other : Bool} {B C : Rule (List Stmt)} {ts us : List Token} {s no : Stmt}

/-- A statement that can take one more `else` takes it at its last `if` without one. -/
theorem Statement.take {turn : Token} (h : Statement nearest B ts s) (opened : isOpen s = true)
    (kind : turn.kind = .else) (h' : Statement nearest B us no) :
    ∃ s', Statement nearest B (ts ++ turn :: us) s' := by
  induction h with
  | @ifThen keyword left right ts vs test yes hk opens condition closes h ih =>
    have same : keyword :: left :: (ts ++ right :: vs) ++ turn :: us =
        keyword :: left :: (ts ++ right :: (vs ++ turn :: us)) := by simp
    rw [same]
    cases hy : isOpen yes with
    | true =>
      obtain ⟨yes', hyes⟩ := ih hy
      exact ⟨_, .ifThen hk opens condition closes hyes⟩
    | false => exact ⟨_, .ifElse hk opens condition closes h (fun _ => hy) kind h'⟩
  | @ifElse keyword left right turn' ts vs ws test yes no hk opens condition closes h takes hturn
      h₂ ih ih₂ =>
    obtain ⟨no', hno⟩ := ih₂ opened
    have same : keyword :: left :: (ts ++ right :: (vs ++ turn' :: ws)) ++ turn :: us =
        keyword :: left :: (ts ++ right :: (vs ++ turn' :: (ws ++ turn :: us))) := by simp
    rw [same]
    exact ⟨_, .ifElse hk opens condition closes h takes hturn hno⟩
  | @«while» keyword left right ts vs test body hk opens condition closes h ih =>
    obtain ⟨body', hbody⟩ := ih opened
    have same : keyword :: left :: (ts ++ right :: vs) ++ turn :: us =
        keyword :: left :: (ts ++ right :: (vs ++ turn :: us)) := by simp
    rw [same]
    exact ⟨_, .while hk opens condition closes hbody⟩
  | _ => cases opened

/-- If blocks can be derived with another flag, so can statements. -/
theorem Statement.reattach (blocks : ∀ us body, us.length ≤ ts.length → B us body →
    ∃ body', C us body') (h : Statement nearest B ts s) : ∃ s', Statement other C ts s' := by
  induction h with
  | expression h ends => exact ⟨_, .expression h ends⟩
  | returnValue kind h ends => exact ⟨_, .returnValue kind h ends⟩
  | returnNone kind ends => exact ⟨_, .returnNone kind ends⟩
  | «break» kind ends => exact ⟨_, .break kind ends⟩
  | «continue» kind ends => exact ⟨_, .continue kind ends⟩
  | block h =>
    obtain ⟨body', hbody⟩ := blocks _ _ (Nat.le_refl _) h
    exact ⟨_, .block hbody⟩
  | ifThen kind opens condition closes h ih =>
    obtain ⟨yes', hyes⟩ := ih fun us body hus => blocks us body (by simp; omega)
    exact ⟨_, .ifThen kind opens condition closes hyes⟩
  | @ifElse keyword left right turn ts vs ws test yes no kind opens condition closes h takes hturn
      h₂ ih ih₂ =>
    obtain ⟨yes', hyes⟩ := ih fun us body hus => blocks us body (by simp; omega)
    obtain ⟨no', hno⟩ := ih₂ fun us body hus => blocks us body (by simp; omega)
    cases hy : isOpen yes' with
    | false => exact ⟨_, .ifElse kind opens condition closes hyes (fun _ => hy) hturn hno⟩
    | true =>
      obtain ⟨s', hs⟩ := hyes.take hy hturn hno
      exact ⟨_, .ifThen kind opens condition closes hs⟩
  | «while» kind opens condition closes h ih =>
    obtain ⟨body', hbody⟩ := ih fun us body hus => blocks us body (by simp; omega)
    exact ⟨_, .while kind opens condition closes hbody⟩

theorem Declaration.reattach (blocks : ∀ us body, us.length ≤ ts.length → B us body →
    ∃ body', C us body') (h : Declaration nearest B ts s) :
    ∃ s', Declaration other C ts s' := by
  cases h with
  | function typed kind opens inside few closes h =>
    obtain ⟨body', hbody⟩ := blocks _ _ (by simp; omega) h
    exact ⟨_, .function typed kind opens inside few closes hbody⟩
  | «variable» typed filled kind starts ends =>
    exact ⟨_, .variable typed filled kind starts ends⟩
  | statement h =>
    obtain ⟨s', hs⟩ := h.reattach blocks
    exact ⟨_, .statement hs⟩

theorem Many.reattach {ss : List Stmt} (blocks : ∀ us body, us.length ≤ ts.length → B us body →
    ∃ body', C us body') (h : Many (Declaration nearest B) ts ss) :
    ∃ ss', Many (Declaration other C) ts ss' := by
  induction h with
  | nil => exact ⟨_, .nil⟩
  | cons item others ih =>
    obtain ⟨s', hs⟩ := item.reattach fun us body hus => blocks us body (by simp; omega)
    obtain ⟨ss', hss⟩ := ih fun us body hus => blocks us body (by simp; omega)
    exact ⟨_, .cons hs hss⟩

/-- The induction is on the number of tokens: the blocks in a block are shorter. -/
theorem Block.reattach (n : Nat) : ∀ {ts : List Token} {body : List Stmt}, ts.length ≤ n →
    Block nearest ts body → ∃ body', Block other ts body' := by
  induction n with
  | zero =>
    intro ts body hn h
    exact absurd h.begins.length_pos (Nat.not_lt.2 hn)
  | succ n ih =>
    intro ts body hn h
    cases h with
    | @mk left right us body opens inside closes =>
      have short : us.length ≤ n := by
        simp only [List.length_cons, List.length_append, List.length_nil] at hn
        omega
      obtain ⟨body', hbody⟩ := inside.reattach (C := Block other)
        fun vs body hvs => ih (Nat.le_trans hvs short)
      exact ⟨_, .mk opens hbody closes⟩

/-- The grammar derives the same programs wherever an `else` belongs. -/
theorem Program.reattach {tree : List Stmt} (h : Program nearest ts tree) :
    ∃ tree', Program other ts tree' := by
  cases h with
  | mk inside last =>
    obtain ⟨body', hbody⟩ := inside.reattach (C := Block other)
      fun us body _ => Block.reattach us.length (Nat.le_refl _)
    exact ⟨_, .mk hbody last⟩

end

end Grammar

/-! ## Trees without numbers -/

mutual

/-- The expression with all numbers set to 0. -/
def Expr.unnumbered : Expr → Expr
  | .literal _ value line => .literal 0 value line
  | .grouping _ inner => .grouping 0 inner.unnumbered
  | .unary _ operator right => .unary 0 operator right.unnumbered
  | .binary _ left operator right => .binary 0 left.unnumbered operator right.unnumbered
  | .logical _ left operator right => .logical 0 left.unnumbered operator right.unnumbered
  | .var _ name => .var 0 name
  | .index _ name position => .index 0 name position.unnumbered
  | .assign _ name value => .assign 0 name value.unnumbered
  | .assignIndex _ name position value =>
    .assignIndex 0 name position.unnumbered value.unnumbered
  | .assignElements _ name elements => .assignElements 0 name (exprsUnnumbered elements)
  | .call _ callee paren arguments =>
    .call 0 callee.unnumbered paren (exprsUnnumbered arguments)

def exprsUnnumbered : List Expr → List Expr
  | [] => []
  | e :: es => e.unnumbered :: exprsUnnumbered es

end

def Initializer.unnumbered : Initializer → Initializer
  | .zero => .zero
  | .value e => .value e.unnumbered
  | .elements es => .elements (exprsUnnumbered es)

mutual

/-- The statement with the numbers of all its expressions set to 0. -/
def Stmt.unnumbered : Stmt → Stmt
  | .expression e => .expression e.unnumbered
  | .block body => .block (stmtsUnnumbered body)
  | .declare name type start => .declare name type start.unnumbered
  | .ifThen keyword test yes => .ifThen keyword test.unnumbered yes.unnumbered
  | .ifElse keyword test yes no =>
    .ifElse keyword test.unnumbered yes.unnumbered no.unnumbered
  | .while keyword test body => .while keyword test.unnumbered body.unnumbered
  | .return keyword value => .return keyword (value.map Expr.unnumbered)
  | .break keyword => .break keyword
  | .continue keyword => .continue keyword
  | .function header body => .function header (stmtsUnnumbered body)

def stmtsUnnumbered : List Stmt → List Stmt
  | [] => []
  | s :: ss => s.unnumbered :: stmtsUnnumbered ss

end

end TickScript
