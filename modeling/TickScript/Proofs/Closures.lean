import Mathlib.Data.List.Pairwise
import TickScript.Proofs.Bound
import TickScript.Proofs.Grammar.Hoisted

/-!
# What functions close over

A function can use the variables of the blocks around its own block: they are declared before the
statement in which the function stands, so resolution finds them, and a call finds them bound. The
variables of its own block are another matter. In a block the functions come first, and when their
bodies are resolved no variable of the block has been declared, even if it is written before them.
Such a name is taken for a global one.
-/

namespace TickScript

variable {ω : Type}

/-! ## Uses of names -/

/-- The function has no parameter of this name and declares it nowhere in its body. -/
def Free (n : String) (header : Header) (body : List Stmt) : Prop :=
  n ∉ header.names ∧ ∀ part ∈ stmtsParts body, part.binds? ≠ some n

/-- An expression where it stands in a statement: behind how many scopes, and in which functions
of the statement. -/
structure Occurrence where
  expr : Expr
  depth : Nat
  functions : List (Header × List Stmt)

namespace Occurrence

/-- The expression stands in the statement itself. -/
def here (e : Expr) : Occurrence := ⟨e, 0, []⟩

/-- Seen from outside of a block around it. -/
def inBlock (o : Occurrence) : Occurrence :=
  { o with depth := o.depth + 1 }

/-- Seen from outside of a function around it. -/
def inFunction (header : Header) (body : List Stmt) (o : Occurrence) : Occurrence :=
  { o with depth := o.depth + 1, functions := (header, body) :: o.functions }

end Occurrence

mutual

/-- The expressions of a statement where they stand. -/
def Stmt.occurrences : Stmt → List Occurrence
  | .expression e => e.nodes.map .here
  | .block body => (stmtsOccurrences body).map .inBlock
  | .declare _ _ start => start.nodes.map .here
  | .ifThen _ test yes => test.nodes.map .here ++ yes.occurrences
  | .ifElse _ test yes no => test.nodes.map .here ++ (yes.occurrences ++ no.occurrences)
  | .while _ test body => test.nodes.map .here ++ body.occurrences
  | .return _ none => []
  | .return _ (some e) => e.nodes.map .here
  | .break _ => []
  | .continue _ => []
  | .function header body => (stmtsOccurrences body).map (.inFunction header body)

def stmtsOccurrences : List Stmt → List Occurrence
  | [] => []
  | s :: ss => s.occurrences ++ stmtsOccurrences ss

end

mutual

/-- Every expression of a statement stands somewhere in it. -/
theorem Stmt.occurrences_expr : (s : Stmt) → s.occurrences.map Occurrence.expr = s.nodes
  | .expression e => by simp [Stmt.occurrences, Function.comp_def, Occurrence.here]
  | .block body => by
    rw [Stmt.nodes, ← stmtsOccurrences_expr body]
    simp [Stmt.occurrences, Function.comp_def, Occurrence.inBlock]
  | .declare name type start => by simp [Stmt.occurrences, Function.comp_def, Occurrence.here]
  | .ifThen keyword test yes => by
    simp [Stmt.occurrences, Function.comp_def, Occurrence.here, Stmt.occurrences_expr yes]
  | .ifElse keyword test yes no => by
    simp [Stmt.occurrences, Function.comp_def, Occurrence.here, Stmt.occurrences_expr yes,
      Stmt.occurrences_expr no]
  | .while keyword test body => by
    simp [Stmt.occurrences, Function.comp_def, Occurrence.here, Stmt.occurrences_expr body]
  | .return keyword none => rfl
  | .return keyword (some e) => by simp [Stmt.occurrences, Function.comp_def, Occurrence.here]
  | .break keyword => rfl
  | .continue keyword => rfl
  | .function header body => by
    rw [Stmt.nodes, ← stmtsOccurrences_expr body]
    simp [Stmt.occurrences, Function.comp_def, Occurrence.inFunction]

theorem stmtsOccurrences_expr : (ss : List Stmt) →
    (stmtsOccurrences ss).map Occurrence.expr = stmtsNodes ss
  | [] => rfl
  | s :: ss => by
    simp [stmtsOccurrences, Stmt.occurrences_expr s, stmtsOccurrences_expr ss]

end

/-- The expression uses, in a function that does not declare it, the variable `n` of the block in
which the function is declared. -/
def UsesOwnBlock (statements : List Stmt) (n : String) (e : Expr) : Prop :=
  ∃ block header body x type start t,
    .block block ∈ stmtsParts statements ∧ .function header body ∈ block ∧
    .declare x type start ∈ block ∧ x.lexeme = n ∧ Free n header body ∧
    e ∈ stmtsNodes body ∧ e.name? = some t ∧ t.lexeme = n

/-- The expression uses, in a function that does not declare it, the variable `n` of a block around
the statement in which the function is declared. From the scope of this block it is `depth` scopes
away. -/
def UsesOuterBlock (statements : List Stmt) (n : String) (depth : Nat) (e : Expr) : Prop :=
  ∃ before s after x type start functions t,
    .block (before ++ s :: after) ∈ stmtsParts statements ∧ .declare x type start ∈ before ∧
    x.lexeme = n ∧ ⟨e, depth, functions⟩ ∈ s.occurrences ∧ functions ≠ [] ∧
    (∀ f ∈ functions, Free n f.1 f.2) ∧ e.name? = some t ∧ t.lexeme = n

/-! ## Distances in a layout -/

namespace Layout

variable {L : Layout} {n name : String}

/-- The number of scopes between a place and the nearest scope around it with this name. -/
def distance? (L : Layout) (n : String) : Option Nat :=
  L.frames.findIdx? (· n)

theorem distance?_add (h : name ≠ n) : (L.add name).distance? n = L.distance? n := by
  unfold distance? add frames
  cases hown : L.own with
  | nil => rfl
  | cons f fs =>
    have same : f.add name n = f n := by simp [Frame.add, h.symm]
    simp [List.findIdx?_cons, same]

/-- A name that is declared in a block or a function is found there. -/
theorem distance?_add_self (h : L.own ≠ []) : (L.add n).distance? n = some 0 := by
  unfold distance? add frames
  cases hown : L.own with
  | nil => exact absurd hown h
  | cons f fs => simp [List.findIdx?_cons, Frame.add_self]

theorem distance?_block : L.block.distance? n = (L.distance? n).map (· + 1) := by
  simp [distance?, block, frames, List.findIdx?_cons, Frame.empty]

theorem distance?_body {names : List String} (h : n ∉ names) :
    (L.body names).distance? n = (L.distance? n).map (· + 1) := by
  have absent : Frame.ofNames names n = false := by
    rw [Bool.eq_false_iff]
    exact fun hn => h (Frame.ofNames_iff.1 hn)
  simp [distance?, body, frames, List.findIdx?_cons, absent]

theorem distance?_after {s : Stmt} (h : s.binds? ≠ some n) :
    (L.after s).distance? n = L.distance? n := by
  unfold after
  split
  · next name hs => exact distance?_add fun e => h (e ▸ hs)
  · rfl

/-- A place inside a block or a function. -/
def Inner (L : Layout) : Prop :=
  L.own ≠ []

theorem Inner.after (h : L.Inner) (s : Stmt) : (L.after s).Inner := by
  obtain ⟨f, fs, hown⟩ := List.exists_cons_of_ne_nil h
  obtain ⟨f', hafter⟩ := L.after_cons f fs hown s
  simp [hafter, Inner]

/-- The place is inside a block or a function and has the name in scope there, so that no
declaration of it is accepted. -/
def Guards (L : Layout) (n : String) : Prop :=
  L.Inner ∧ L.declares n = true

theorem Guards.after (h : L.Guards n) (s : Stmt) : (L.after s).Guards n :=
  ⟨h.1.after s, declares_after h.2 s⟩

theorem Guards.block (h : L.Guards n) : L.block.Guards n := by
  obtain ⟨hown, hd⟩ := h
  refine ⟨by simp [Inner, Layout.block], ?_⟩
  revert hd
  unfold declares Layout.block
  cases hf : L.own with
  | nil => exact absurd hf hown
  | cons f fs =>
    intro hd
    simp only [List.any_cons, Bool.or_eq_true] at hd ⊢
    exact .inr hd

theorem Guards.ne (h : L.Guards n) (hfresh : L.declares name = false) : name ≠ n := by
  rintro rfl
  rw [h.2] at hfresh
  cases hfresh

/-- A name that is found in a scope of the place itself is guarded. -/
theorem guards_of_distance? {d : Nat} (hd : d < L.own.length) (h : L.distance? n = some d) :
    L.Guards n := by
  obtain ⟨hlt, hn, -⟩ := List.findIdx?_eq_some_iff_getElem.1 h
  have found : L.own[d] n = true := by
    rwa [show L.frames[d] = L.own[d] from List.getElem_append_left hd] at hn
  have any : L.own.any (· n) = true := List.any_eq_true.2 ⟨_, List.getElem_mem hd, found⟩
  unfold Guards declares
  cases hf : L.own with
  | nil => simp [hf] at hd
  | cons f fs =>
    rw [hf] at any
    exact ⟨by simp [Inner, hf], any⟩

end Layout

/-! ## Uses and places -/

/-- The expressions of a statement itself, apart from those of the statements in it. -/
def Stmt.direct : Stmt → List Expr
  | .expression e => e.nodes
  | .declare _ _ start => start.nodes
  | .ifThen _ test _ => test.nodes
  | .ifElse _ test _ _ => test.nodes
  | .while _ test _ => test.nodes
  | .return _ (some e) => e.nodes
  | _ => []

mutual

theorem Stmt.nodes_eq_direct : (s : Stmt) → s.nodes = s.parts.flatMap Stmt.direct
  | .expression e => by simp [Stmt.direct]
  | .block body => by simp [Stmt.direct, stmtsNodes_eq_direct body]
  | .declare name type start => by simp [Stmt.direct]
  | .ifThen keyword test yes => by simp [Stmt.direct, Stmt.nodes_eq_direct yes]
  | .ifElse keyword test yes no => by
    simp [Stmt.direct, Stmt.nodes_eq_direct yes, Stmt.nodes_eq_direct no]
  | .while keyword test body => by simp [Stmt.direct, Stmt.nodes_eq_direct body]
  | .return keyword none => rfl
  | .return keyword (some e) => by simp [Stmt.direct]
  | .break keyword => rfl
  | .continue keyword => rfl
  | .function header body => by simp [Stmt.direct, stmtsNodes_eq_direct body]

theorem stmtsNodes_eq_direct : (ss : List Stmt) →
    stmtsNodes ss = (stmtsParts ss).flatMap Stmt.direct
  | [] => rfl
  | s :: ss => by simp [Stmt.nodes_eq_direct s, stmtsNodes_eq_direct ss]

end

mutual

/-- The parts of a part are parts. -/
theorem Stmt.parts_subset {part : Stmt} : (s : Stmt) → part ∈ s.parts → part.parts ⊆ s.parts
  | .expression e, hp => List.mem_singleton.1 hp ▸ List.Subset.refl _
  | .block body, hp => by
    rcases List.mem_cons.1 hp with rfl | hp
    · exact List.Subset.refl _
    · exact List.subset_cons_of_subset _ (stmtsParts_subset body hp)
  | .declare name type start, hp => List.mem_singleton.1 hp ▸ List.Subset.refl _
  | .ifThen keyword test yes, hp => by
    rcases List.mem_cons.1 hp with rfl | hp
    · exact List.Subset.refl _
    · exact List.subset_cons_of_subset _ (Stmt.parts_subset yes hp)
  | .ifElse keyword test yes no, hp => by
    rcases List.mem_cons.1 hp with rfl | hp
    · exact List.Subset.refl _
    · refine List.subset_cons_of_subset _ ?_
      rcases List.mem_append.1 hp with hp | hp
      · exact List.subset_append_of_subset_left _ (Stmt.parts_subset yes hp)
      · exact List.subset_append_of_subset_right _ (Stmt.parts_subset no hp)
  | .while keyword test body, hp => by
    rcases List.mem_cons.1 hp with rfl | hp
    · exact List.Subset.refl _
    · exact List.subset_cons_of_subset _ (Stmt.parts_subset body hp)
  | .return keyword value, hp => List.mem_singleton.1 hp ▸ List.Subset.refl _
  | .break keyword, hp => List.mem_singleton.1 hp ▸ List.Subset.refl _
  | .continue keyword, hp => List.mem_singleton.1 hp ▸ List.Subset.refl _
  | .function header body, hp => by
    rcases List.mem_cons.1 hp with rfl | hp
    · exact List.Subset.refl _
    · exact List.subset_cons_of_subset _ (stmtsParts_subset body hp)

theorem stmtsParts_subset {part : Stmt} : (ss : List Stmt) → part ∈ stmtsParts ss →
    part.parts ⊆ stmtsParts ss
  | [], hp => by simp at hp
  | s :: ss, hp => by
    rcases List.mem_append.1 hp with hp | hp
    · exact List.subset_append_of_subset_left _ (Stmt.parts_subset s hp)
    · exact List.subset_append_of_subset_right _ (stmtsParts_subset ss hp)

end

/-- An expression belongs to one statement only. -/
theorem direct_unique {ss : List Stmt} (numbers : (stmtsIds ss).Nodup) {p q : Stmt} {e : Expr}
    (hp : p ∈ stmtsParts ss) (hq : q ∈ stmtsParts ss) (ep : e ∈ p.direct) (eq : e ∈ q.direct) :
    p = q := by
  have nodup : (stmtsNodes ss).Nodup := .of_map _ numbers
  rw [stmtsNodes_eq_direct, List.nodup_flatMap] at nodup
  have symm : Std.Symm (Function.onFun List.Disjoint Stmt.direct) := ⟨fun _ _ h _ hp hq => h hq hp⟩
  by_contra hne
  exact nodup.2.forall hp hq hne ep eq

section Places

variable {P : List Frame → List Frame → Expr → Prop} {n : String}

/-- At an expression of one of the parts the condition `P` holds with frames in which the name `n`
has this distance, and the part is no declaration of `n`. -/
structure Shifted (P : List Frame → List Frame → Expr → Prop) (n : String) (parts : List Stmt)
    (e : Expr) (distance : Option Nat) : Prop where
  place : ∃ fs gs, P fs gs e ∧ fs.findIdx? (· n) = distance
  part : ∃ part ∈ parts, e ∈ part.direct ∧ part.binds? ≠ some n

theorem Shifted.mono {parts parts' : List Stmt} {e : Expr} {d : Option Nat}
    (h : Shifted P n parts e d) (hs : parts ⊆ parts') : Shifted P n parts' e d := by
  obtain ⟨part, hp, he⟩ := h.part
  exact ⟨h.place, part, hs hp, he⟩

theorem map_succ_map (d : Option Nat) (k : Nat) :
    (d.map (· + 1)).map (· + k) = d.map (· + (k + 1)) := by
  cases d with
  | none => rfl
  | some d =>
    rw [Option.map_some, Option.map_some, Option.map_some]
    exact congrArg some (by omega)

/-- An expression of the statement itself. -/
theorem shifted_here (s : Stmt) {fs gs : List Frame} {o : Occurrence}
    (h : ∀ node ∈ s.direct, P fs gs node) (hb : s.binds? ≠ some n)
    (ho : o ∈ s.direct.map Occurrence.here) :
    Shifted P n s.parts o.expr ((fs.findIdx? (· n)).map (· + o.depth)) := by
  obtain ⟨e, he, rfl⟩ := List.mem_map.1 ho
  refine ⟨⟨fs, gs, h e he, ?_⟩, s, s.mem_parts_self, he, hb⟩
  simp [Occurrence.here]

mutual

/-- From outside of a statement to an expression in it, the distance of a name grows by the scopes
between the two, if no declaration of the name lies between. There is none where the name is
guarded, or where nothing declares it; and none in functions without it. -/
theorem Stmt.Scoped.shifted : (s : Stmt) → ∀ {L : Layout} {o : Occurrence}, s.Scoped P L →
    (L.Guards n ∨ ∀ part ∈ s.parts, part.binds? ≠ some n) → o ∈ s.occurrences →
    (L.inFunction = false → ∀ f ∈ o.functions, Free n f.1 f.2) →
    Shifted P n s.parts o.expr ((L.distance? n).map (· + o.depth))
  | .expression e, L, o, h, _, ho, _ => shifted_here (.expression e) h (by simp [Stmt.binds?]) ho
  | .block body, L, _, h, guard, ho', free => by
    obtain ⟨o, ho, rfl⟩ := List.mem_map.1 ho'
    have inner := StmtsScoped.shifted body h
      (guard.imp Layout.Guards.block fun none part hp => none part (by simp [hp])) ho free
    rw [Layout.distance?_block, map_succ_map] at inner
    exact inner.mono (List.subset_cons_self _ _)
  | .declare name type start, L, o, h, guard, ho, _ => by
    have other : name.lexeme ≠ n := by
      rcases guard with guard | none
      · exact guard.ne h.1
      · exact fun e => none _ (Stmt.mem_parts_self _) (congrArg some e)
    have shifted := shifted_here (n := n) (.declare name type start)
      (Initializer.each_iff.1 h.2) (by simp [Stmt.binds?, other]) ho
    rwa [← Layout.distance?, Layout.distance?_add other] at shifted
  | .ifThen keyword test yes, L, o, h, guard, ho, free => by
    rcases List.mem_append.1 ho with ho | ho
    · exact shifted_here (.ifThen keyword test yes) h.1 (by simp [Stmt.binds?]) ho
    · refine (Stmt.Scoped.shifted yes h.2.2 ?_ ho free).mono (List.subset_cons_self _ _)
      exact guard.imp_right fun none part hp => none part (by simp [hp])
  | .ifElse keyword test yes no, L, o, h, guard, ho, free => by
    rcases List.mem_append.1 ho with ho | ho
    · exact shifted_here (.ifElse keyword test yes no) h.1 (by simp [Stmt.binds?]) ho
    · rcases List.mem_append.1 ho with ho | ho
      · refine (Stmt.Scoped.shifted yes h.2.1.2 ?_ ho free).mono fun part hp => by simp [hp]
        exact guard.imp_right fun none part hp => none part (by simp [hp])
      · refine (Stmt.Scoped.shifted no h.2.2.2 ?_ ho free).mono fun part hp => by simp [hp]
        exact guard.imp_right fun none part hp => none part (by simp [hp])
  | .while keyword test body, L, o, h, guard, ho, free => by
    rcases List.mem_append.1 ho with ho | ho
    · exact shifted_here (.while keyword test body) h.1 (by simp [Stmt.binds?]) ho
    · refine (Stmt.Scoped.shifted body h.2.2 ?_ ho free).mono (List.subset_cons_self _ _)
      exact guard.imp_right fun none part hp => none part (by simp [hp])
  | .return keyword none, _, _, _, _, ho, _ => by simp [Stmt.occurrences] at ho
  | .return keyword (some e), L, o, h, _, ho, _ =>
    shifted_here (.return keyword (some e)) (h e rfl) (by simp [Stmt.binds?]) ho
  | .break keyword, _, _, _, _, ho, _ => by simp [Stmt.occurrences] at ho
  | .continue keyword, _, _, _, _, ho, _ => by simp [Stmt.occurrences] at ho
  | .function header body, L, _, h, guard, ho', free => by
    obtain ⟨o, ho, rfl⟩ := List.mem_map.1 ho'
    obtain ⟨hout, hfresh, -, hbody⟩ := h
    have other : header.name.lexeme ≠ n := by
      rcases guard with guard | none
      · exact guard.ne hfresh
      · exact fun e => none _ (Stmt.mem_parts_self _) (congrArg some e)
    obtain ⟨names, none⟩ := free hout (header, body) List.mem_cons_self
    -- The body is in a function, and there are no functions in it.
    have inner := StmtsScoped.shifted body hbody (.inr none) ho fun h => Bool.noConfusion h
    rw [Layout.distance?_body names, Layout.distance?_add other, map_succ_map] at inner
    exact inner.mono (List.subset_cons_self _ _)

theorem StmtsScoped.shifted : (ss : List Stmt) → ∀ {L : Layout} {o : Occurrence},
    StmtsScoped P L ss → (L.Guards n ∨ ∀ part ∈ stmtsParts ss, part.binds? ≠ some n) →
    o ∈ stmtsOccurrences ss → (L.inFunction = false → ∀ f ∈ o.functions, Free n f.1 f.2) →
    Shifted P n (stmtsParts ss) o.expr ((L.distance? n).map (· + o.depth))
  | [], _, _, _, _, ho, _ => by simp [stmtsOccurrences] at ho
  | s :: ss, L, o, h, guard, ho, free => by
    rcases List.mem_append.1 ho with ho | ho
    · refine (Stmt.Scoped.shifted s h.1 ?_ ho free).mono fun part hp => by simp [hp]
      exact guard.imp_right fun none part hp => none part (by simp [hp])
    · have other : s.binds? ≠ some n := by
        rcases guard with guard | none
        · cases s with
          | declare name type start =>
            exact fun e => guard.ne h.1.1 (Option.some.inj e)
          | function header body =>
            exact fun e => guard.ne h.1.2.1 (Option.some.inj e)
          | _ => simp [Stmt.binds?]
        · exact none s (by simp [Stmt.mem_parts_self])
      have rest := StmtsScoped.shifted ss h.2
        (guard.imp (fun g => g.after s) fun none part hp => none part (by simp [hp])) ho
        (by rw [Layout.inFunction_after]; exact free)
      rw [Layout.distance?_after other] at rest
      exact rest.mono fun part hp => by simp [hp]

end

end Places

/-! ## Blocks -/

section Blocks

variable {P : List Frame → List Frame → Expr → Prop} {n : String} {L : Layout}

/-- Outside of functions all scopes belong to the place itself. -/
def Layout.Plain (L : Layout) : Prop :=
  L.inFunction = false → L.outer = []

theorem Layout.Plain.after (h : L.Plain) (s : Stmt) : (L.after s).Plain := by
  unfold Layout.after
  split
  · unfold Layout.add
    split <;> exact h
  · exact h

theorem stmtsScoped_append {as bs : List Stmt} :
    StmtsScoped P L (as ++ bs) ↔ StmtsScoped P L as ∧ StmtsScoped P (L.afterAll as) bs := by
  induction as generalizing L with
  | nil => simp [StmtsScoped, Layout.afterAll]
  | cons s as ih => simp [StmtsScoped, Layout.afterAll, ih, and_assoc]

mutual

/-- Every part of a scoped program is scoped at its own place. -/
theorem Stmt.Scoped.part {part : Stmt} : (s : Stmt) → ∀ {L : Layout}, s.Scoped P L → L.Plain →
    part ∈ s.parts → ∃ L' : Layout, part.Scoped P L' ∧ L'.Plain
  | .expression e, L, h, plain, hp => by
    obtain rfl := List.mem_singleton.1 hp
    exact ⟨L, h, plain⟩
  | .block body, L, h, plain, hp => by
    rcases List.mem_cons.1 hp with rfl | hp
    · exact ⟨L, h, plain⟩
    · exact StmtsScoped.part body (L := L.block) h plain hp
  | .declare name type start, L, h, plain, hp => by
    obtain rfl := List.mem_singleton.1 hp
    exact ⟨L, h, plain⟩
  | .ifThen keyword test yes, L, h, plain, hp => by
    rcases List.mem_cons.1 hp with rfl | hp
    · exact ⟨L, h, plain⟩
    · exact Stmt.Scoped.part yes h.2.2 plain hp
  | .ifElse keyword test yes no, L, h, plain, hp => by
    rcases List.mem_cons.1 hp with rfl | hp
    · exact ⟨L, h, plain⟩
    · rcases List.mem_append.1 hp with hp | hp
      · exact Stmt.Scoped.part yes h.2.1.2 plain hp
      · exact Stmt.Scoped.part no h.2.2.2 plain hp
  | .while keyword test body, L, h, plain, hp => by
    rcases List.mem_cons.1 hp with rfl | hp
    · exact ⟨L, h, plain⟩
    · exact Stmt.Scoped.part body h.2.2 plain hp
  | .return keyword value, L, h, plain, hp => by
    obtain rfl := List.mem_singleton.1 hp
    exact ⟨L, h, plain⟩
  | .break keyword, L, h, plain, hp => by
    obtain rfl := List.mem_singleton.1 hp
    exact ⟨L, h, plain⟩
  | .continue keyword, L, h, plain, hp => by
    obtain rfl := List.mem_singleton.1 hp
    exact ⟨L, h, plain⟩
  | .function header body, L, h, plain, hp => by
    rcases List.mem_cons.1 hp with rfl | hp
    · exact ⟨L, h, plain⟩
    · exact StmtsScoped.part body h.2.2.2 (fun hin => Bool.noConfusion hin) hp

theorem StmtsScoped.part {part : Stmt} : (ss : List Stmt) → ∀ {L : Layout}, StmtsScoped P L ss →
    L.Plain → part ∈ stmtsParts ss → ∃ L' : Layout, part.Scoped P L' ∧ L'.Plain
  | [], _, _, _, hp => by simp at hp
  | s :: ss, L, h, plain, hp => by
    rcases List.mem_append.1 hp with hp | hp
    · exact Stmt.Scoped.part s h.1 plain hp
    · exact StmtsScoped.part ss h.2 (plain.after s) hp

end

/-- What every statement keeps is kept by all of them. -/
theorem Layout.afterAll_induct {Q : Layout → Prop} (step : ∀ L s, Q L → Q (L.after s))
    (ss : List Stmt) : ∀ {L : Layout}, Q L → Q (L.afterAll ss) := by
  induction ss with
  | nil => exact fun h => h
  | cons s ss ih => exact fun h => ih (step _ s h)

/-- Once a name is declared in the innermost scope, it stays there. -/
theorem Layout.distance?_kept (s : Stmt) (h : L.Inner ∧ L.distance? n = some 0) :
    (L.after s).Inner ∧ (L.after s).distance? n = some 0 := by
  refine ⟨h.1.after s, ?_⟩
  by_cases hs : s.binds? = some n
  · rw [Layout.after, hs]
    exact Layout.distance?_add_self h.1
  · rw [Layout.distance?_after hs]
    exact h.2

/-- In a function that does not declare it, a variable of the function's own block is found in no
scope around: the function is resolved before the variable is declared, and no scope further out
has the name. -/
theorem own_block {block : List Stmt} {header : Header} {body : List Stmt} {x : Token} {type : Ty}
    {start : Initializer} (hblock : (Stmt.block block).Scoped P L) (plain : L.Plain)
    (first : FunctionsFirst block) (hf : .function header body ∈ block)
    (hx : .declare x type start ∈ block) (free : Free x.lexeme header body) {e : Expr}
    (he : e ∈ stmtsNodes body) : ∃ fs gs, P fs gs e ∧ fs.findIdx? (· x.lexeme) = none := by
  obtain ⟨before, between, after, rfl⟩ := first.split hf hx rfl rfl
  rw [Stmt.Scoped, List.append_assoc, stmtsScoped_append, List.cons_append, StmtsScoped,
    stmtsScoped_append] at hblock
  obtain ⟨-, ⟨hout, -, -, hbody⟩, -, ⟨hfresh, -⟩, -⟩ := hblock
  have plain' := (Layout.afterAll_induct (Q := Layout.Plain) (fun _ s h => h.after s) before
    (L := L.block) plain).after (.function header body)
  have absent : ((L.block.afterAll before).after (.function header body)).distance? x.lexeme =
      none := by
    cases hd : ((L.block.afterAll before).after (.function header body)).distance? x.lexeme with
    | none => rfl
    | some d =>
      -- All scopes around are the place's own, so the declaration of `x` would be refused.
      have outer := plain' (by rw [Layout.inFunction_after]; exact hout)
      have near := (List.findIdx?_eq_some_iff_getElem.1 hd).1
      rw [Layout.frames, outer, List.append_nil] at near
      have guards := Layout.afterAll_induct (Q := (·.Guards x.lexeme)) (fun _ s h => h.after s)
        between (Layout.guards_of_distance? near hd)
      exact absurd rfl (guards.ne hfresh)
  rw [← stmtsOccurrences_expr] at he
  obtain ⟨o, ho, rfl⟩ := List.mem_map.1 he
  have shifted :=
    (StmtsScoped.shifted body hbody (.inr free.2) ho fun h => Bool.noConfusion h).place
  rw [Layout.distance?_body free.1] at shifted
  rw [show (L.block.afterAll before).add header.name.lexeme =
    (L.block.afterAll before).after (.function header body) from rfl, absent] at shifted
  exact shifted

/-- In a function that does not declare it, a variable that is declared in a block before the
statement with the function is found as many scopes further out as lie between. -/
theorem outer_block {before after : List Stmt} {s : Stmt} {x : Token} {type : Ty}
    {start : Initializer} (hblock : (Stmt.block (before ++ s :: after)).Scoped P L)
    (hx : .declare x type start ∈ before) {o : Occurrence} (ho : o ∈ s.occurrences)
    (free : ∀ f ∈ o.functions, Free x.lexeme f.1 f.2) :
    Shifted P x.lexeme s.parts o.expr (some o.depth) := by
  obtain ⟨front, rest, rfl⟩ := List.append_of_mem hx
  rw [Stmt.Scoped, stmtsScoped_append] at hblock
  obtain ⟨-, hs, -⟩ := hblock
  have inner : L.block.Inner := by simp [Layout.Inner, Layout.block]
  have inner' := Layout.afterAll_induct (fun _ s h => h.after s) front inner
  have joined : L.block.afterAll (front ++ .declare x type start :: rest) =
      ((L.block.afterAll front).after (.declare x type start)).afterAll rest := by
    simp [Layout.afterAll]
  -- From its declaration on the variable is in the innermost scope of the block.
  obtain ⟨inside, near⟩ := Layout.afterAll_induct
    (Q := fun L => L.Inner ∧ L.distance? x.lexeme = some 0) (fun _ => Layout.distance?_kept) rest
    ⟨inner'.after (.declare x type start), Layout.distance?_add_self inner'⟩
  rw [← joined] at inside near
  have guards := Layout.guards_of_distance? (List.length_pos_iff.2 inside) near
  have shifted := Stmt.Scoped.shifted s hs (.inl guards) ho fun _ => free
  rwa [near, Option.map_some, Nat.zero_add] at shifted

end Blocks

/-! ## Accepted programs -/

theorem compile_hoisted {source : String} {host : Host ω}
    (accepted : (compile source host).accepted = true) :
    ∀ part ∈ stmtsParts (compile source host).statements, part.Hoisted := by
  rw [compile_eq, Compilation.accepted, List.isEmpty_iff, List.append_eq_nil_iff,
    List.append_eq_nil_iff] at accepted
  rw [compile_eq]
  exact parse_hoisted accepted.1.2

section Accepted

variable {source : String} {host : Host ω} {n : String} {e : Expr}

/-- A use of a variable of the function's own block has no distance. -/
theorem UsesOwnBlock.distance (accepted : (compile source host).accepted = true)
    (use : UsesOwnBlock (compile source host).statements n e) :
    (compile source host).distances.find? e.id = none := by
  obtain ⟨block, header, body, x, type, start, t, hblock, hf, hx, rfl, free, he, hname, hlex⟩ := use
  have placed := (compiled accepted).placed
  obtain ⟨L, around, plain⟩ := StmtsScoped.part _ placed (fun _ => rfl) hblock
  obtain ⟨fs, gs, located, absent⟩ :=
    own_block around plain (compile_hoisted accepted _ hblock) hf hx free he
  rw [located.distance, hname, Option.bind_some, hlex]
  exact absent

/-- A use of a variable of a block further out has the distance of this block. It stands in the
program, but not in the initial value of a variable of the same name. -/
theorem UsesOuterBlock.distance {depth : Nat} (accepted : (compile source host).accepted = true)
    (use : UsesOuterBlock (compile source host).statements n depth e) :
    (compile source host).distances.find? e.id = some depth ∧
      e ∈ stmtsNodes (compile source host).statements ∧
      ¬ e.Hasty (compile source host).statements := by
  obtain ⟨before, s, after, x, type, start, functions, t, hblock, hx, rfl, ho, -, free, hname,
    hlex⟩ := use
  have hc := compiled accepted
  obtain ⟨L, around, -⟩ := StmtsScoped.part _ hc.placed (fun _ => rfl) hblock
  obtain ⟨⟨fs, gs, located, hidx⟩, part, hpart, direct, other⟩ := outer_block around hx ho free
  have inProgram : part ∈ stmtsParts (compile source host).statements :=
    stmtsParts_subset _ hblock (List.mem_cons_of_mem _ (mem_stmtsParts.2 ⟨s, by simp, hpart⟩))
  refine ⟨?_, ?_, ?_⟩
  · rw [located.distance, hname, Option.bind_some, hlex]
    exact hidx
  · rw [stmtsNodes_eq_direct]
    exact List.mem_flatMap.2 ⟨part, inProgram, direct⟩
  · rintro ⟨name, type', start', t', hdeclare, hin, hname', hlex', -⟩
    rw [hname] at hname'
    cases hname'
    rw [direct_unique hc.numbers inProgram hdeclare direct hin] at other
    exact other (congrArg some (hlex'.symm.trans hlex))

end Accepted

/-! ## Runs -/

/-- The expression looks for its name in the outermost scope only, and finds what is bound there or
nothing. -/
def LooksOutermost (c : Compilation) (host : Host ω) (globals : ScopeId) (fuel : Nat)
    (scope : ScopeId) (e : Expr) (run : Run ω) (name : Token) : Prop :=
  ∀ setting : Setting ω, setting.host = host → setting.globals = globals →
    setting.distances = c.distances →
    ∀ r, Eval.approach setting (Eval.call setting fuel) scope e run = .ok () r →
      Eval.found setting scope e.id name r.store =
        if r.store.binds globals name.lexeme then some globals else none

/-- The expression finds its name bound in the scope at this distance, which is not the outermost
one, and no scope before it has the name. -/
def FindsAt (c : Compilation) (host : Host ω) (globals : ScopeId) (fuel : Nat) (scope : ScopeId)
    (e : Expr) (run : Run ω) (name : Token) (distance : Nat) : Prop :=
  ∃ b, run.store.ancestor? distance scope = some b ∧ b ≠ globals ∧
    (∀ i < distance, ∀ a, run.store.ancestor? i scope = some a →
      run.store.binds a name.lexeme = false) ∧
    ∀ setting : Setting ω, setting.host = host → setting.globals = globals →
      setting.distances = c.distances →
      ∀ r, Eval.approach setting (Eval.call setting fuel) scope e run = .ok () r →
        Eval.found setting scope e.id name r.store = some b ∧ r.store.BoundAt distance scope name

theorem looksOutermost {c : Compilation} {host : Host ω}
    (outside : ∀ f ∈ host.functions, f.Outside) {globals scope : ScopeId} {fuel : Nat} {e : Expr}
    {run : Run ω} (there : globals < run.store.scopes.size)
    (root : run.store.parent? globals = none) (hd : c.distances.find? e.id = none) (name : Token) :
    LooksOutermost c host globals fuel scope e run name := by
  intro setting hs hg hdist r hr
  have kept : Store.Kept .everything none run.store r.store :=
    (Eval.approach_kept (by rw [hs]; exact outside) fuel scope e run).of_ok hr
  rw [Eval.found, hdist, hd, hg]
  exact Store.nearest?_root ((kept.parent _ there).trans root) name.lexeme

theorem Compiled.findsAt {source : String} {host : Host ω} {c : Compilation}
    (hc : Compiled source host c) (outside : ∀ f ∈ host.functions, f.Outside)
    {globals scope : ScopeId} {fuel : Nat} {e : Expr} {run : Run ω} {cs : List ScopeId}
    {fs gs : List Frame} (root : run.store.parent? globals = none)
    (chain : run.store.Chain globals scope cs) (clear : run.store.Clear cs fs)
    (lower : run.store.Lower cs gs) (located : Located c.distances (c.visits host) fs e)
    (backed : Backed fs gs e) {distance : Nat} (hd : c.distances.find? e.id = some distance)
    {name : Token} (hname : e.name? = some name) :
    FindsAt c host globals fuel scope e run name distance := by
  obtain ⟨name', b, hname', hb, outer, before, -⟩ :=
    (hc.mirrors root chain clear located).distance distance hd
  rw [hname] at hname'
  cases hname'
  have hidx : fs.findIdx? (· name.lexeme) = some distance := by
    rw [← hd, located.distance, hname, Option.bind_some]
  obtain ⟨hlt, bound⟩ := lower.binds_at (backed name distance hname hidx)
  refine ⟨b, hb, outer, before, fun setting hs hg hdist r hr => ?_⟩
  have kept : Store.Kept .everything none run.store r.store :=
    (Eval.approach_kept (by rw [hs]; exact outside) fuel scope e run).of_ok hr
  have chain' := Store.chain_congr chain fun c hm => kept.parent c (Store.chain_lt chain c hm)
  have same : cs[distance] = b := by
    rw [Store.chain_ancestor_lt hlt chain] at hb
    exact Option.some.inj hb
  have at' : r.store.ancestor? distance scope = some b := same ▸ Store.chain_ancestor_lt hlt chain'
  have still : r.store.binds b name.lexeme = true := kept.still _ _ (same ▸ bound)
  refine ⟨?_, Store.boundAt at' still⟩
  rw [Eval.found, hdist, hd]
  show r.store.bindingAt? name.lexeme distance scope = some b
  rw [Store.bindingAt?, at', Option.filter_some, if_pos still]

/-- What functions close over. A machine takes up an accepted program, which cannot get at what
earlier ones have left there. It runs the program and calls its functions in any order, and in
between the host writes its variables and time goes by.

* If a function uses a variable of the block in which it is declared, resolution records no distance
  for the use, and every run looks for the name in the outermost scope only.
* If it uses a variable of a block further out, resolution records the distance of this block, and
  every run finds the variable bound in the scope at this distance. -/
theorem functions_close_over {source : String} {host : Host ω}
    (outside : ∀ f ∈ host.functions, f.Outside) (accepted : (compile source host).accepted = true)
    (m : Machine ω) (forgets : m.Forgets host (compile source host))
    (requests : List (Nat × Request ω)) :
    (∀ n e, UsesOwnBlock (compile source host).statements n e →
      (compile source host).distances.find? e.id = none ∧
      ∀ fuel scope run, Event.evaluates fuel scope e run ∈
          (m.reset host (compile source host).distances).eventsAll host
            (compile source host).statements requests →
        ∃ t, e.name? = some t ∧ t.lexeme = n ∧ LooksOutermost (compile source host) host
          (m.reset host (compile source host).distances).globals fuel scope e run t) ∧
    ∀ n depth e, UsesOuterBlock (compile source host).statements n depth e →
      (compile source host).distances.find? e.id = some depth ∧
      ∀ fuel scope run, Event.evaluates fuel scope e run ∈
          (m.reset host (compile source host).distances).eventsAll host
            (compile source host).statements requests →
        ∃ t, e.name? = some t ∧ t.lexeme = n ∧ FindsAt (compile source host) host
          (m.reset host (compile source host).distances).globals fuel scope e run t depth := by
  have hc := compiled accepted
  have placed : StmtsScoped (Bounded _ (compile source host).statements) _ _ :=
    StmtsScoped.bounded _ hc.placed fun part hm => ⟨hc.surveyed.ready part hm, hm⟩
  have events := Machine.Ready.eventsAll outside placed requests (Machine.ready_reset host m _)
    (forgets.sparing outside accepted requests)
  refine ⟨fun n e use => ⟨use.distance accepted, fun fuel scope run h => ?_⟩,
    fun n depth e use => ⟨(use.distance accepted).1, fun fuel scope run h => ?_⟩⟩
  · have there := (Machine.ready_reset (P := fun _ _ _ => True) host m
      (compile source host).distances).there
    have kept := Machine.keeps_eventsAll (steady_kept outside .everything)
      (Permits.each_everything _) (fun _ _ => trivial) requests (Store.bodies_everything _)
      (Machine.sparing_of_none (fun _ => id) requests _) _ h
    have global := use.distance accepted
    obtain ⟨-, -, -, -, -, -, t, -, -, -, -, -, -, hname, hlex⟩ := use
    exact ⟨t, hname, hlex, looksOutermost outside (Nat.lt_of_lt_of_le there kept.size)
      (events _ h).2 global t⟩
  · obtain ⟨hd, written, settled⟩ := use.distance accepted
    obtain ⟨-, -, -, -, -, -, -, t, -, -, -, -, -, -, hname, hlex⟩ := use
    refine ⟨t, hname, hlex, ?_⟩
    obtain ⟨hev, root⟩ := events _ h
    rcases hev with ⟨cs, fs, gs, chain, clear, lower, located, backed⟩ | ⟨asked, hasked⟩
    · exact hc.findsAt outside root chain clear lower located (backed.resolve_right settled) hd
        hname
    · exact absurd written (hc.not_asked hasked)

instance (n : String) (header : Header) (body : List Stmt) : Decidable (Free n header body) :=
  inferInstanceAs (Decidable (_ ∧ _))

/-- A function that uses its parameter, a variable of its own block, a global variable of the same
name, and a variable of the block around. -/
def closingSource : String :=
  "int k = 7; int r; { int base = 10; { int k = 1; int add(int n) { return base + n + k; } r = add(5); } }"

/-- The program of `closingSource`. -/
abbrev closing : Compilation :=
  compile closingSource (Host.empty : Host Unit)

/-- A machine that has run it, and is given it again. -/
abbrev closingMachine : Machine Unit :=
  (((Machine.start Host.empty .empty ()).reset Host.empty closing.distances).serveAll Host.empty
    closing.statements [(5, .interpret)]).reset Host.empty closing.distances

/-- Does the expression itself have this name? -/
def Expr.named (n : String) (e : Expr) : Bool :=
  e.name?.any (·.lexeme == n)

theorem Expr.named_iff {n : String} {e : Expr} :
    e.named n = true ↔ ∃ t, e.name? = some t ∧ t.lexeme = n := by
  unfold Expr.named
  cases e.name? <;> simp

/-- A block with a function in which a variable `n` of the block is used. -/
def Stmt.ownsUse (n : String) : Stmt → Bool
  | .block (.function header body :: .declare x _ _ :: _) =>
    x.lexeme == n && decide (Free n header body) && (stmtsNodes body).any (Expr.named n)
  | _ => false

/-- A block with a variable `n` that is used in a function of the next statement. -/
def Stmt.surroundsUse (n : String) (depth : Nat) : Stmt → Bool
  | .block (.declare x _ _ :: s :: _) =>
    x.lexeme == n && s.occurrences.any fun o =>
      o.depth == depth && !o.functions.isEmpty &&
        o.functions.all (fun f => decide (Free n f.1 f.2)) && o.expr.named n
  | _ => false

theorem Stmt.ownsUse_spec {n : String} {s : Stmt} {ss : List Stmt} (hs : s ∈ stmtsParts ss)
    (h : s.ownsUse n = true) : ∃ e, UsesOwnBlock ss n e := by
  unfold ownsUse at h
  split at h
  · next header body x type start rest =>
    simp only [Bool.and_eq_true, beq_iff_eq, decide_eq_true_eq] at h
    obtain ⟨⟨hx, free⟩, hany⟩ := h
    obtain ⟨e, he, hn⟩ := List.any_eq_true.1 hany
    obtain ⟨t, ht, hlex⟩ := Expr.named_iff.1 hn
    exact ⟨e, _, header, body, x, type, start, t, hs, by simp, by simp, hx, free, he, ht, hlex⟩
  · cases h

theorem Stmt.surroundsUse_spec {n : String} {depth : Nat} {s : Stmt} {ss : List Stmt}
    (hs : s ∈ stmtsParts ss) (h : s.surroundsUse n depth = true) :
    ∃ e, UsesOuterBlock ss n depth e := by
  unfold surroundsUse at h
  split at h
  · next x type start s rest =>
    simp only [Bool.and_eq_true, beq_iff_eq] at h
    obtain ⟨hx, hany⟩ := h
    obtain ⟨⟨e, d, functions⟩, ho, htest⟩ := List.any_eq_true.1 hany
    simp only [Bool.and_eq_true, beq_iff_eq, Bool.not_eq_true', List.isEmpty_eq_false_iff,
      List.all_eq_true, decide_eq_true_eq] at htest
    obtain ⟨⟨⟨rfl, hne⟩, free⟩, hn⟩ := htest
    obtain ⟨t, ht, hlex⟩ := Expr.named_iff.1 hn
    exact ⟨e, [.declare x type start], s, rest, x, type, start, functions, t, hs, by simp, hx, ho,
      hne, free, ht, hlex⟩
  · cases h

/-- The use of `base` is evaluated. -/
def Event.usesBase : Event Unit → Bool
  | .evaluates _ _ e _ => e.named "base" && e.line == 1
  | .binds .. => false

theorem functions_close_over_nested :
    (∃ e, UsesOwnBlock closing.statements "k" e ∧ closing.distances.find? e.id = none) ∧
    ∃ e, UsesOuterBlock closing.statements "base" 2 e ∧ closing.distances.find? e.id = some 2 ∧
      ∃ fuel scope run t, Event.evaluates fuel scope e run ∈
          closingMachine.eventsAll Host.empty closing.statements
            [(0, .wait .start), (5, .interpret)] ∧
        FindsAt closing Host.empty closingMachine.globals fuel scope e run t 2 := by
  have outside : ∀ f ∈ (Host.empty : Host Unit).functions, f.Outside := by simp [Host.empty]
  have accepted : closing.accepted = true := by decide +kernel
  have forgets : ∀ m : Machine Unit, m.Forgets Host.empty closing := fun _ =>
    .spared (.empty Store.closed_empty) fun _ _ _ _ _ hf => absurd hf List.not_mem_nil
  obtain ⟨own, outer⟩ := functions_close_over outside accepted _ (forgets _)
    [(0, .wait .start), (5, .interpret)]
  have owns : (stmtsParts closing.statements).any (Stmt.ownsUse "k") = true := by decide +kernel
  have surrounds : (stmtsParts closing.statements).any (Stmt.surroundsUse "base" 2) = true := by
    decide +kernel
  have happens : (closingMachine.eventsAll Host.empty closing.statements
      [(0, .wait .start), (5, .interpret)]).any Event.usesBase = true := by decide +kernel
  have once : ((stmtsNodes closing.statements).filter (Expr.named "base")).length = 1 := by
    decide +kernel
  obtain ⟨s, hs, hown⟩ := List.any_eq_true.1 owns
  obtain ⟨e, use⟩ := Stmt.ownsUse_spec hs hown
  obtain ⟨s', hs', houter⟩ := List.any_eq_true.1 surrounds
  obtain ⟨e', use'⟩ := Stmt.surroundsUse_spec hs' houter
  obtain ⟨hd, written, -⟩ := use'.distance accepted
  obtain ⟨t, hname, hlex⟩ : ∃ t, e'.name? = some t ∧ t.lexeme = "base" := by
    obtain ⟨-, -, -, -, -, -, -, t, -, -, -, -, -, -, hname, hlex⟩ := use'
    exact ⟨t, hname, hlex⟩
  refine ⟨⟨e, use, (own "k" e use).1⟩, e', use', hd, ?_⟩
  obtain ⟨ev, hev, ht⟩ := List.any_eq_true.1 happens
  cases ev with
  | binds => cases ht
  | evaluates fuel scope e'' run =>
    simp only [Event.usesBase, Bool.and_eq_true, beq_iff_eq] at ht
    have written' : e'' ∈ stmtsNodes closing.statements :=
      evaluates_written outside accepted (forgets _) hev (by simp [ht.2])
    -- There is only one use of the name.
    obtain ⟨only, honly⟩ := List.length_eq_one_iff.1 once
    have same : ∀ node ∈ stmtsNodes closing.statements, node.named "base" = true → node = only := by
      intro node hn hb
      have := List.mem_filter.2 ⟨hn, hb⟩
      rw [honly] at this
      exact List.mem_singleton.1 this
    have : e'' = e' := (same e'' written' ht.1).trans
      (same e' written (Expr.named_iff.2 ⟨t, hname, hlex⟩)).symm
    subst this
    obtain ⟨t', -, -, finds⟩ := (outer "base" 2 e'' use').2 fuel scope run hev
    exact ⟨fuel, scope, run, t', hev, finds⟩

/-- A function uses a variable of its own block, which is declared before it. -/
def ownBlockSource : String :=
  "int r = 0; { int base = 10; int add(int n) { return base + n; } r = add(5); }"

/-- A function uses a variable of its own block that hides a global one. -/
def ownHidingSource : String :=
  "int k = 7; int r; { int k = 1; int f() { return k; } r = f(); }"

/-- No expression with this name has a distance. -/
def allGlobal (source name : String) : Bool :=
  (stmtsNodes (compile source (Host.empty : Host Unit)).statements).all fun e =>
    !e.named name ||
      (compile source (Host.empty : Host Unit)).distances.find? e.id == none

/-- A function does not find the variables of its own block: it finds none, or a global one. -/
theorem own_block_missed :
    ((compile ownBlockSource (Host.empty : Host Unit)).accepted = true ∧
      (stmtsParts (compile ownBlockSource (Host.empty : Host Unit)).statements).any
        (Stmt.ownsUse "base") = true ∧
      allGlobal ownBlockSource "base" = true ∧
      firstRun ownBlockSource = .error (.error ⟨1, .undefinedVariable "base"⟩)) ∧
    (compile ownHidingSource (Host.empty : Host Unit)).accepted = true ∧
      (stmtsParts (compile ownHidingSource (Host.empty : Host Unit)).statements).any
        (Stmt.ownsUse "k") = true ∧
      allGlobal ownHidingSource "k" = true ∧
      firstRun ownHidingSource = .ok () ∧ firstValue ownHidingSource "r" = some (.int 7) := by
  decide +kernel

end TickScript
