import Mathlib.Data.List.Nodup
import TickScript.Proofs.Grammar.Statements
import TickScript.Proofs.Resolver.Scoped
import TickScript.Proofs.Resolver.Visited

/-!
# Accepted programs

What the three stages of compilation grant, put together: an accepted program is written in the
tokens of its source, no two of its expressions have the same number, its types fit, and the
distances of its names are those of the scopes in which it was resolved.
-/

namespace TickScript

variable {ω : Type}

/-- The tokens of a source for a host. -/
def tokensOf (source : String) (host : Host ω) : List Token :=
  (scan source host.seedTypes).tokens

/-- The place before the first statement of a program. -/
def Layout.outermost (top : Frame) : Layout :=
  ⟨[], [], top, false⟩

/-- The names that a program finds in the outermost scope. -/
def Host.top (host : Host ω) : Frame :=
  .ofNames host.reservedNames

/-- A declared name has a type that can be written. -/
theorem Declared.cases {ts : List Token} {type : Ty} {name : Token} (h : Declared ts type name) :
    type = .void ∨ (∃ s, type = .scalar s) ∨ ∃ s, type = .array s := by
  have written : ∀ {kind : TokenKind} {t : Ty}, kind.type? = some t →
      t = .void ∨ ∃ s, t = .scalar s := by
    intro kind t ht
    unfold TokenKind.type? at ht
    split at ht <;> cases ht <;> simp
  cases h with
  | plain ht hn hi =>
    rcases written ht with rfl | ⟨s, rfl⟩
    · exact .inl rfl
    · exact .inr (.inl ⟨s, rfl⟩)
  | array ht hv hl hr hn hi =>
    rcases written ht with rfl | ⟨s, rfl⟩
    · exact absurd rfl hv
    · exact .inr (.inr ⟨s, rfl⟩)

theorem Declared.ne_unknown {ts : List Token} {type : Ty} {name : Token}
    (h : Declared ts type name) : type ≠ .unknown := by
  rcases h.cases with rfl | ⟨s, rfl⟩ | ⟨s, rfl⟩ <;> simp

theorem Stmt.Written.regular {ts : List Token} {s : Stmt} (h : s.Written ts) : s.Regular := by
  cases s with
  | declare name type start => exact h.1.ne_unknown
  | ifThen keyword test yes => exact h
  | ifElse keyword test yes no => exact h
  | «while» keyword test body => exact h
  | _ => trivial

theorem Table.contains_ofList {α : Type} (names : List String) (value : String → α) :
    (Table.ofList (names.map fun name => (name, value name))).contains = Frame.ofNames names := by
  induction names using List.reverseRecOn with
  | nil => rfl
  | append_singleton names name ih =>
    rw [Frame.ofNames_append, ← ih, ← contains_insert_eq _ name (value name)]
    simp [Table.ofList]

/-- What is known of an accepted program. -/
structure Compiled (source : String) (host : Host ω) (c : Compilation) : Prop where
  statements : c.statements = (parse (tokensOf source host)).statements
  scanned : (scan source host.seedTypes).diagnostics = []
  numbers : (stmtsIds c.statements).Nodup
  written : EachStmt (Expr.Written (tokensOf source host)) (Stmt.Written (tokensOf source host))
    c.statements
  placed : StmtsScoped (fun fs _ => Located c.distances (c.visits host) fs) (.outermost host.top)
    c.statements
  checked : StmtsChecked (Signatures.collect c.statements host) none false c.statements
  surveyed : Resolve.Surveyed (Signatures.collect c.statements host) (stmtsUses c.statements)
    (stmtsParts c.statements) (c.visits host)

/-- What a resolution without reports comes to. -/
theorem resolved {statements : List Stmt} {host : Host ω}
    (regular : EachStmt (fun _ => True) Stmt.Regular statements)
    (numbers : (stmtsIds statements).Nodup)
    (h : (resolve (Signatures.collect statements host) host.reservedNames
      statements).diagnostics = []) :
    StmtsScoped
        (fun fs _ => Located (resolve (Signatures.collect statements host) host.reservedNames
            statements).distances
          (Resolve.stmtsVisits (Resolve.outermost (Signatures.collect statements host)) statements
            (Resolve.start (Signatures.collect statements host) host.reservedNames)) fs)
        (.outermost host.top) statements ∧
      StmtsChecked (Signatures.collect statements host) none false statements ∧
      Resolve.Surveyed (Signatures.collect statements host) (stmtsUses statements)
        (stmtsParts statements)
        (Resolve.stmtsVisits (Resolve.outermost (Signatures.collect statements host)) statements
          (Resolve.start (Signatures.collect statements host) host.reservedNames)) := by
  rw [Resolve.resolve_eq] at h ⊢
  have fits : Resolve.Fits (Resolve.outermost (Signatures.collect statements host))
      (.outermost host.top)
      (Resolve.start (Signatures.collect statements host) host.reservedNames) :=
    ⟨rfl, Table.contains_ofList _ _, rfl, rfl, fun _ => rfl⟩
  refine ⟨?_, (Resolve.stmts_clean _ regular _ fits h).checked,
    Resolve.stmts_surveyed _ regular _ h⟩
  refine Resolve.stmts_scoped _ regular _ fits h ⟨numbers, fun _ _ => rfl, ?_, fun _ hv => hv⟩
  exact fun i _ => Table.find?_empty i

theorem compile_eq (source : String) (host : Host ω) :
    compile source host =
      { statements := (parse (tokensOf source host)).statements
        distances :=
          (resolve (Signatures.collect (parse (tokensOf source host)).statements host)
            host.reservedNames (parse (tokensOf source host)).statements).distances
        diagnostics :=
          (scan source host.seedTypes).diagnostics ++ (parse (tokensOf source host)).diagnostics ++
            (resolve (Signatures.collect (parse (tokensOf source host)).statements host)
              host.reservedNames (parse (tokensOf source host)).statements).diagnostics } := by
  rw [compile, tokensOf]

theorem compiled {source : String} {host : Host ω} (h : (compile source host).accepted = true) :
    Compiled source host (compile source host) := by
  obtain ⟨numbers, written⟩ := parse_written (tokensOf source host)
  have regular : EachStmt (fun _ => True) Stmt.Regular (parse (tokensOf source host)).statements :=
    ⟨fun _ _ => trivial, fun stmt hs => (written.2 stmt hs).regular⟩
  rw [compile_eq, Compilation.accepted, List.isEmpty_iff, List.append_eq_nil_iff,
    List.append_eq_nil_iff] at h
  rw [compile_eq]
  -- From here on it does not matter what the statements are.
  generalize e : (parse (tokensOf source host)).statements = statements at *
  obtain ⟨placed, checked, surveyed⟩ := resolved regular numbers h.2
  exact ⟨e.symm, h.1.1, numbers, written, placed, checked, surveyed⟩

/-- Each expression of an accepted program is visited once. -/
theorem Compiled.visit_unique {source : String} {host : Host ω} {c : Compilation}
    (h : Compiled source host c) {u v : Visit} (hu : u ∈ c.visits host) (hv : v ∈ c.visits host)
    (he : u.expr.id = v.expr.id) : u = v := by
  have hperm := Resolve.stmtsVisits_perm
    (Resolve.outermost (Signatures.collect c.statements host)) c.statements
    (Resolve.start (Signatures.collect c.statements host) host.reservedNames)
  have hnodup : ((c.visits host).map fun v => v.expr.id).Nodup := by
    have := (hperm.map Expr.id).nodup_iff.2 h.numbers
    rwa [List.map_map] at this
  exact List.inj_on_of_nodup_map hnodup hu hv he

theorem Compiled.mem_nodes {source : String} {host : Host ω} {c : Compilation}
    (_ : Compiled source host c) {v : Visit} (hv : v ∈ c.visits host) :
    v.expr ∈ stmtsNodes c.statements :=
  (Resolve.stmtsVisits_perm _ c.statements _).mem_iff.1 (List.mem_map_of_mem hv)

theorem Compiled.visited {source : String} {host : Host ω} {c : Compilation}
    (_ : Compiled source host c) {e : Expr} (he : e ∈ stmtsNodes c.statements) :
    ∃ v ∈ c.visits host, v.expr = e :=
  List.mem_map.1 ((Resolve.stmtsVisits_perm _ c.statements _).mem_iff.2 he)

end TickScript
