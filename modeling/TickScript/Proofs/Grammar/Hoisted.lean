import TickScript.Proofs.Grammar.Derived.Statements

/-!
# Functions come first

A list of declarations is kept in the order in which a program runs it: functions first, and then
everything else as it was written. So in every block of a tree the functions stand before the
variables, wherever they stood in the source.
-/

namespace TickScript

open Grammar

/-- In a list of statements no function stands behind anything else. -/
def FunctionsFirst (ss : List Stmt) : Prop :=
  ss.Pairwise fun before after => after.isFunction = true → before.isFunction = true

/-- A block begins with its functions. -/
def Stmt.Hoisted : Stmt → Prop
  | .block body => FunctionsFirst body
  | _ => True

theorem functionsFirst_pairwise (body : List Stmt) : FunctionsFirst (functionsFirst body) := by
  unfold FunctionsFirst functionsFirst
  have front : ∀ s ∈ (body.filter Stmt.isFunction).reverse, s.isFunction = true := by
    intro s hs
    exact (List.mem_filter.1 (List.mem_reverse.1 hs)).2
  have rest : ∀ s ∈ body.filter fun s => !s.isFunction, s.isFunction = false := by
    intro s hs
    simpa using (List.mem_filter.1 hs).2
  refine List.pairwise_append.2 ⟨?_, ?_, fun s hs _ _ _ => front s hs⟩
  · exact List.pairwise_of_forall_mem_list fun s hs _ _ _ => front s hs
  · refine List.pairwise_of_forall_mem_list fun _ _ s hs h => ?_
    rw [rest s hs] at h
    cases h

/-- Behind a variable there is no function. -/
theorem FunctionsFirst.split {block : List Stmt} {f s : Stmt} (h : FunctionsFirst block)
    (hf : f ∈ block) (hs : s ∈ block) (function : f.isFunction = true)
    (other : s.isFunction = false) :
    ∃ before between after, block = before ++ f :: between ++ s :: after := by
  obtain ⟨before, rest, rfl⟩ := List.append_of_mem hf
  rcases List.mem_append.1 hs with hs | hs
  · have := (List.pairwise_append.1 h).2.2 s hs f List.mem_cons_self function
    rw [other] at this
    cases this
  · rcases List.mem_cons.1 hs with rfl | hs
    · rw [function] at other
      cases other
    · obtain ⟨between, after, rfl⟩ := List.append_of_mem hs
      exact ⟨before, between, after, by simp⟩

/-! ## Parts -/

theorem mem_stmtsParts {ss : List Stmt} {part : Stmt} :
    part ∈ stmtsParts ss ↔ ∃ s ∈ ss, part ∈ s.parts := by
  induction ss with
  | nil => simp
  | cons s ss ih => simp [ih]

mutual

/-- Numbers do not matter to the parts of a statement. -/
theorem Stmt.parts_unnumbered : (s : Stmt) → s.unnumbered.parts = s.parts.map Stmt.unnumbered
  | .expression e => rfl
  | .block body => by simp [Stmt.unnumbered, stmtsParts_unnumbered body]
  | .declare name type start => rfl
  | .ifThen keyword test yes => by simp [Stmt.unnumbered, Stmt.parts_unnumbered yes]
  | .ifElse keyword test yes no => by
    simp [Stmt.unnumbered, Stmt.parts_unnumbered yes, Stmt.parts_unnumbered no]
  | .while keyword test body => by simp [Stmt.unnumbered, Stmt.parts_unnumbered body]
  | .return keyword value => rfl
  | .break keyword => rfl
  | .continue keyword => rfl
  | .function header body => by simp [Stmt.unnumbered, stmtsParts_unnumbered body]

theorem stmtsParts_unnumbered : (ss : List Stmt) →
    stmtsParts (ss.map Stmt.unnumbered) = (stmtsParts ss).map Stmt.unnumbered
  | [] => rfl
  | s :: ss => by
    simp [Stmt.parts_unnumbered s, stmtsParts_unnumbered ss]

end

theorem Stmt.hoisted_unnumbered {s : Stmt} (h : s.unnumbered.Hoisted) : s.Hoisted := by
  cases s with
  | block body =>
    rw [Stmt.unnumbered, stmtsUnnumbered_eq] at h
    refine (List.pairwise_map.1 h).imp ?_
    intro a b hab
    rwa [Parser.isFunction_unnumbered, Parser.isFunction_unnumbered] at hab
  | _ => trivial

/-! ## Derivations -/

namespace Grammar

variable {nearest : Bool} {B : Rule (List Stmt)} {ts : List Token}

/-- All blocks in a list of statements, and the list itself, begin with their functions. -/
def Sorted (ss : List Stmt) : Prop :=
  FunctionsFirst ss ∧ ∀ part ∈ stmtsParts ss, part.Hoisted

theorem Statement.hoisted {s : Stmt}
    (blocks : ∀ us body, us.length ≤ ts.length → B us body → Sorted body)
    (h : Statement nearest B ts s) : ∀ part ∈ s.parts, part.Hoisted := by
  induction h with
  | block h =>
    intro part hp
    rcases List.mem_cons.1 hp with rfl | hp
    · exact (blocks _ _ (Nat.le_refl _) h).1
    · exact (blocks _ _ (Nat.le_refl _) h).2 part hp
  | ifThen kind opens condition closes h ih =>
    intro part hp
    rcases List.mem_cons.1 hp with rfl | hp
    · trivial
    · exact ih (fun us body hus => blocks us body (by simp; omega)) part hp
  | ifElse kind opens condition closes h takes turn h' ih ih' =>
    intro part hp
    rcases List.mem_cons.1 hp with rfl | hp
    · trivial
    · rcases List.mem_append.1 hp with hp | hp
      · exact ih (fun us body hus => blocks us body (by simp; omega)) part hp
      · exact ih' (fun us body hus => blocks us body (by simp; omega)) part hp
  | «while» kind opens condition closes h ih =>
    intro part hp
    rcases List.mem_cons.1 hp with rfl | hp
    · trivial
    · exact ih (fun us body hus => blocks us body (by simp; omega)) part hp
  | _ => simp [Stmt.Hoisted]

theorem Declaration.hoisted {s : Stmt}
    (blocks : ∀ us body, us.length ≤ ts.length → B us body → Sorted body)
    (h : Declaration nearest B ts s) : ∀ part ∈ s.parts, part.Hoisted := by
  cases h with
  | function typed kind opens inside few closes h =>
    intro part hp
    rcases List.mem_cons.1 hp with rfl | hp
    · trivial
    · exact (blocks _ _ (by simp; omega) h).2 part hp
  | «variable» typed filled kind starts ends => simp [Stmt.Hoisted]
  | statement h => exact h.hoisted blocks

theorem Many.hoisted {ss : List Stmt}
    (blocks : ∀ us body, us.length ≤ ts.length → B us body → Sorted body)
    (h : Many (Declaration nearest B) ts ss) : Sorted (functionsFirst ss) := by
  have items : ∀ s ∈ ss, ∀ part ∈ s.parts, part.Hoisted := by
    induction h with
    | nil => simp
    | cons item others ih =>
      intro s hs
      rcases List.mem_cons.1 hs with rfl | hs
      · exact item.hoisted fun us body hus => blocks us body (by simp; omega)
      · exact ih (fun us body hus => blocks us body (by simp; omega)) s hs
  refine ⟨functionsFirst_pairwise ss, fun part hp => ?_⟩
  obtain ⟨s, hs, hp⟩ := mem_stmtsParts.1 hp
  refine items s ?_ part hp
  unfold functionsFirst at hs
  rcases List.mem_append.1 hs with hs | hs
  · exact (List.mem_filter.1 (List.mem_reverse.1 hs)).1
  · exact (List.mem_filter.1 hs).1

/-- The induction is on the number of tokens: the blocks in a block are shorter. -/
theorem Block.hoisted (n : Nat) : ∀ {ts : List Token} {body : List Stmt}, ts.length ≤ n →
    Block nearest ts body → Sorted body := by
  induction n with
  | zero =>
    intro ts body hn h
    exact absurd h.begins.length_pos (Nat.not_lt.2 hn)
  | succ n ih =>
    intro ts body hn h
    cases h with
    | @mk left right us body opens inside closes =>
      have short : us.length ≤ n := by
        simp only [List.length_cons, List.length_append, List.length_nil] at hn
        omega
      exact inside.hoisted fun vs body hvs => ih (Nat.le_trans hvs short)

end Grammar

/-- In an accepted tree every block begins with its functions. -/
theorem parse_hoisted {tokens : List Token} (clean : (parse tokens).diagnostics = []) :
    ∀ part ∈ stmtsParts (parse tokens).statements, part.Hoisted := by
  obtain ⟨body, hbody, htree⟩ := parse_arranged clean
  have sorted := hbody.hoisted fun us body _ => Block.hoisted us.length (Nat.le_refl _)
  intro part hp
  refine Stmt.hoisted_unnumbered (sorted.2 _ ?_)
  rw [← htree, stmtsParts_unnumbered]
  exact List.mem_map_of_mem hp

end TickScript
