import TickScript.Proofs.Grammar.Statements
import TickScript.Proofs.Stamps
import TickScript.Signature

/-!
# Types of declarations

The type of a declaration is found out twice. Scanning takes it from the two or four tokens that
end with a name and stamps it on every token of this name; parsing takes it from the rule for the
declaration and keeps it in the tree. Checks read the tree and conversions read the tokens.
`declared_types` says that the two are never at odds in a source on which scanning has nothing to
report, whether or not parsing has.
-/

namespace TickScript

/-! ## Names of a tree -/

/-- The names that a statement itself declares, each with the type of its declaration. -/
def Stmt.declarations : Stmt → List (Token × Ty)
  | .declare name type _ => [(name, type)]
  | .function header _ =>
    (header.name, header.returnType) :: header.parameters.map fun p => (p.name, p.type)
  | _ => []

/-- The names that statements and the statements in them declare. -/
def stmtsDeclarations (ss : List Stmt) : List (Token × Ty) :=
  (stmtsParts ss).flatMap Stmt.declarations

/-- All names in statements, whether they are declared, read, written or called. -/
def stmtsNames (ss : List Stmt) : List Token :=
  (stmtsNodes ss).filterMap Expr.name? ++ (stmtsDeclarations ss).map Prod.fst

/-- What a statement itself declares has the types that its tokens say. -/
def Stmt.Stamped : Stmt → Prop
  | .declare name type _ => name.type = type
  | .function header _ =>
    header.name.type = header.returnType ∧
      header.signature.parameters.length = header.parameters.length ∧
      header.signature.parameters = header.parameters.map fun p => p.name.type
  | _ => True

section Written

variable {ts : List Token} {ss : List Stmt}

theorem Stmt.Written.declared {s : Stmt} (h : s.Written ts) {name : Token} {type : Ty}
    (hd : (name, type) ∈ s.declarations) : Declared ts type name := by
  cases s with
  | declare name' type' start =>
    cases List.mem_singleton.1 hd
    exact h.1
  | function header body =>
    rcases List.mem_cons.1 hd with hname | hparameter
    · cases hname
      exact h.1
    · obtain ⟨p, hp, hpair⟩ := List.mem_map.1 hparameter
      cases hpair
      exact (h.2 p hp).1
  | _ => cases hd

theorem declared_of_written (written : EachStmt (Expr.Written ts) (Stmt.Written ts) ss)
    {name : Token} {type : Ty} (hd : (name, type) ∈ stmtsDeclarations ss) :
    Declared ts type name := by
  obtain ⟨part, hpart, hd⟩ := List.mem_flatMap.1 hd
  exact (written.2 part hpart).declared hd

/-- Every name of a tree is a name among its tokens. -/
theorem name_of_written (written : EachStmt (Expr.Written ts) (Stmt.Written ts) ss) {name : Token}
    (hn : name ∈ stmtsNames ss) : name ∈ ts ∧ name.kind = .identifier := by
  rcases List.mem_append.1 hn with hused | hdeclared
  · obtain ⟨node, hnode, hname⟩ := List.mem_filterMap.1 hused
    exact (written.1 node hnode).name hname
  · obtain ⟨⟨name', type⟩, hd, rfl⟩ := List.mem_map.1 hdeclared
    exact (declared_of_written written hd).mem

/-- If the names that are declared have the types of their declarations, then all declarations
have the types that their tokens say. -/
theorem stamped_of_declarations {s : Stmt}
    (h : ∀ name type, (name, type) ∈ s.declarations → name.type = type) : s.Stamped := by
  cases s with
  | declare name type start => exact h name type (List.mem_singleton.2 rfl)
  | function header body =>
    refine ⟨h _ _ List.mem_cons_self, List.length_map _, ?_⟩
    refine List.map_congr_left fun p hp => (h p.name p.type ?_).symm
    exact List.mem_cons_of_mem _ (List.mem_map_of_mem hp)
  | _ => trivial

end Written

/-! ## The tree of a source -/

/-- Scanning and parsing agree on declared types. In the tree of a source on which scanning has
nothing to report, every declaration has the types that are stamped on its names, and every name
that is declared anywhere has the type of this declaration wherever it stands. -/
theorem declared_types (source : String) (seed : NameTypes)
    (clean : (scan source seed).diagnostics = []) :
    (∀ part ∈ stmtsParts (parse (scan source seed).tokens).statements, part.Stamped) ∧
    ∀ name ∈ stmtsNames (parse (scan source seed).tokens).statements, ∀ declared type,
      (declared, type) ∈ stmtsDeclarations (parse (scan source seed).tokens).statements →
      name.lexeme = declared.lexeme → name.type = type := by
  have written := (parse_written (scan source seed).tokens).2
  constructor
  · intro part hpart
    apply stamped_of_declarations
    intro name type hd
    exact scan_declared clean ((written.2 part hpart).declared hd)
  · intro name hname declared type hdeclared same
    have here := name_of_written written hname
    have there := declared_of_written written hdeclared
    -- The table of types has one entry for both tokens.
    have stamps : some name.type = some declared.type := by
      rw [← scan_type here.1 here.2, ← scan_type there.mem.1 there.mem.2, same]
    rw [Option.some.inj stamps]
    exact scan_declared clean there

/-- Declarations of all kinds, one of them behind a use of its name and behind a statement that
cannot be parsed. -/
def lateDeclaration : String :=
  "size = 3; int f(float[] xs, bool on) { int[] ys = {1}; return size; } f(; int size;"

/-- Parsing reports an error here, and still all five declarations agree with their tokens and
the name that is declared last is an `int` from the start. -/
theorem declared_types_late :
    (parse (scan lateDeclaration ⟨[("size", .unknown)]⟩).tokens).diagnostics ≠ [] ∧
    (stmtsDeclarations
      (parse (scan lateDeclaration ⟨[("size", .unknown)]⟩).tokens).statements).length = 5 ∧
    (∀ part ∈ stmtsParts (parse (scan lateDeclaration ⟨[("size", .unknown)]⟩).tokens).statements,
      part.Stamped) ∧
    ∀ name ∈ stmtsNames (parse (scan lateDeclaration ⟨[("size", .unknown)]⟩).tokens).statements,
      name.lexeme = "size" → name.type = .int := by
  have agree := declared_types lateDeclaration ⟨[("size", .unknown)]⟩ (by decide +kernel)
  refine ⟨by decide +kernel, by decide +kernel, agree.1, ?_⟩
  intro name hname same
  exact agree.2 name hname ⟨.identifier, "size", 1, 78, none, .int⟩ .int (by decide +kernel) same

end TickScript
