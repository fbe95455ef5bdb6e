import Mathlib.Data.List.Induction
import TickScript.Proofs.Parts

/-!
# Where names are declared

A layout describes the scopes around a place in a program by the names that have been declared
in each of them so far. A program is scoped if every declaration brings a new name and every
expression satisfies a condition on the scopes around it.
-/

namespace TickScript

/-- The names of one scope. -/
abbrev Frame := String → Bool

namespace Frame

/-- A scope without names. -/
def empty : Frame := fun _ => false

/-- A scope with one more name. -/
def add (name : String) (f : Frame) : Frame := fun n => decide (n = name) || f n

/-- A scope with these names. -/
def ofNames (names : List String) : Frame :=
  names.foldl (fun f n => f.add n) empty

theorem add_iff {name n : String} {f : Frame} : f.add name n = true ↔ n = name ∨ f n = true := by
  simp [add]

theorem add_self (name : String) (f : Frame) : f.add name name = true := by
  simp [add]

theorem ofNames_append (names : List String) (name : String) :
    ofNames (names ++ [name]) = (ofNames names).add name := by
  simp [ofNames]

theorem ofNames_iff {names : List String} {n : String} : ofNames names n = true ↔ n ∈ names := by
  induction names using List.reverseRecOn with
  | nil => simp [ofNames, empty]
  | append_singleton names name ih => rw [ofNames_append, add_iff, ih]; simp [or_comm]

end Frame

/-- The scopes around a place, innermost first: those of the function around it, and then those
around this function. Outside of functions all are `own`. -/
structure Layout where
  own : List Frame
  outer : List Frame
  top : Frame
  inFunction : Bool

namespace Layout

/-- All scopes but the outermost one. -/
def frames (L : Layout) : List Frame :=
  L.own ++ L.outer

/-- A name is declared in the innermost scope. -/
def add (name : String) (L : Layout) : Layout :=
  match L.own with
  | [] => { L with top := L.top.add name }
  | f :: fs => { L with own := f.add name :: fs }

/-- Would a declaration of this name be one too many? -/
def declares (L : Layout) (name : String) : Bool :=
  match L.own with
  | [] => L.top name
  | f :: fs => (f :: fs).any fun f => f name

/-- The place in a new block. -/
def block (L : Layout) : Layout :=
  { L with own := .empty :: L.own }

/-- The place in the body of a function, once its parameters are declared. -/
def body (names : List String) (L : Layout) : Layout :=
  { own := [.ofNames names], outer := L.frames, top := L.top, inFunction := true }

/-- One more parameter. -/
theorem body_add (L : Layout) (names : List String) (name : String) :
    (L.body names).add name = L.body (names ++ [name]) := by
  simp only [body, add, Frame.ofNames_append]

theorem declares_add {L : Layout} {n : String} (h : L.declares n = true) (name : String) :
    (L.add name).declares n = true := by
  unfold declares at h
  unfold declares add
  cases hown : L.own with
  | nil =>
    rw [hown] at h
    exact Frame.add_iff.2 (.inr h)
  | cons f fs =>
    rw [hown] at h
    simp only [List.any_cons, Bool.or_eq_true] at h ⊢
    exact h.imp_left fun hn => Frame.add_iff.2 (.inr hn)

theorem declares_add_self (L : Layout) (name : String) : (L.add name).declares name = true := by
  unfold declares add
  cases L.own with
  | nil => exact Frame.add_self _ _
  | cons f fs => simp [Frame.add_self]

theorem declares_body {L : Layout} {names : List String} {name : String} :
    (L.body names).declares name = false ↔ name ∉ names := by
  rw [Bool.eq_false_iff, not_iff_not]
  simp [declares, body, Frame.ofNames_iff]

end Layout

/-- The name that a statement declares where it stands. -/
def Stmt.binds? : Stmt → Option String
  | .declare name _ _ => some name.lexeme
  | .function header _ => some header.name.lexeme
  | _ => none

/-- What the grammar grants about a statement by itself: a declaration has a type, and none
stands directly behind a condition. -/
def Stmt.Regular : Stmt → Prop
  | .declare _ type _ => type ≠ .unknown
  | .ifThen _ _ yes => yes.binds? = none
  | .ifElse _ _ yes no => yes.binds? = none ∧ no.binds? = none
  | .while _ _ body => body.binds? = none
  | _ => True

/-- The names of the parameters of a function. -/
def Header.names (header : Header) : List String :=
  header.parameters.map (·.name.lexeme)

/-- The place behind a statement. -/
def Layout.after (L : Layout) (s : Stmt) : Layout :=
  match s.binds? with
  | some name => L.add name
  | none => L

theorem Layout.declares_after {L : Layout} {n : String} (h : L.declares n = true) (s : Stmt) :
    (L.after s).declares n = true := by
  unfold Layout.after
  split
  · exact declares_add h _
  · exact h

mutual

/-- Every declaration in a statement brings a new name, and every expression satisfies `P` with
the names that are declared and with those that are bound in the scopes around it. The name of a
declaration is declared but not bound in its initial value. -/
def Stmt.Scoped (P : List Frame → List Frame → Expr → Prop) (L : Layout) : Stmt → Prop
  | .expression e => e.Each (P L.frames L.frames)
  | .block body => StmtsScoped P L.block body
  | .declare name _ start =>
    L.declares name.lexeme = false ∧ start.Each (P (L.add name.lexeme).frames L.frames)
  | .ifThen _ test yes => test.Each (P L.frames L.frames) ∧ yes.binds? = none ∧ yes.Scoped P L
  | .ifElse _ test yes no =>
    test.Each (P L.frames L.frames) ∧ (yes.binds? = none ∧ yes.Scoped P L) ∧
      no.binds? = none ∧ no.Scoped P L
  | .while _ test body => test.Each (P L.frames L.frames) ∧ body.binds? = none ∧ body.Scoped P L
  | .return _ value => ∀ e, value = some e → e.Each (P L.frames L.frames)
  | .break _ => True
  | .continue _ => True
  | .function header body =>
    L.inFunction = false ∧ L.declares header.name.lexeme = false ∧ header.names.Nodup ∧
      StmtsScoped P ((L.add header.name.lexeme).body header.names) body

/-- Statements in order, each behind those before it. -/
def StmtsScoped (P : List Frame → List Frame → Expr → Prop) (L : Layout) : List Stmt → Prop
  | [] => True
  | s :: ss => s.Scoped P L ∧ StmtsScoped P (L.after s) ss

end

end TickScript
