import TickScript.Proofs.Calculus

/-!
# Names at run time

Whichever way a name is looked up, it is found in a scope that can be reached outward from the
current or from the outermost one, and that binds it; or else it is undefined. The rules below
say so for reading, assigning and writing an element, and keep the two ways of looking up out of
later proofs.
-/

namespace TickScript

namespace Store

/-- The scope `c` can be reached outward from `start`. -/
def Within (s : Store) (c start : ScopeId) : Prop :=
  ∃ distance, s.ancestor? distance start = some c

theorem within_refl (s : Store) (c : ScopeId) : s.Within c c :=
  ⟨0, rfl⟩

theorem within_parent {s : Store} {c p start : ScopeId} (hp : s.parent? start = some p)
    (h : s.Within c p) : s.Within c start := by
  obtain ⟨d, hd⟩ := h
  exact ⟨d + 1, by simp [ancestor?, hp, hd]⟩

theorem binds_iff {s : Store} {c : ScopeId} {name : String} :
    s.binds c name = true ↔ ∃ v, s.lookup c name = some v := by
  rw [binds, Option.isSome_iff_exists]

theorem binds_false_iff {s : Store} {c : ScopeId} {name : String} :
    s.binds c name = false ↔ s.lookup c name = none := by
  rw [binds, Option.isSome_eq_false_iff, Option.isNone_iff_eq_none]

/-- A name is bound only in a scope that is there. -/
theorem lt_of_lookup {s : Store} {c : ScopeId} {name : String} {v : Value}
    (h : s.lookup c name = some v) : c < s.scopes.size := by
  rw [lookup] at h
  by_contra hc
  rw [Array.getElem?_eq_none (Nat.le_of_not_lt hc)] at h
  simp at h

theorem lt_of_binds {s : Store} {c : ScopeId} {name : String} (h : s.binds c name = true) :
    c < s.scopes.size := by
  obtain ⟨v, hv⟩ := binds_iff.1 h
  exact lt_of_lookup hv

theorem lt_of_parent? {s : Store} {c p : ScopeId} (h : s.parent? c = some p) :
    c < s.scopes.size := by
  rw [parent?] at h
  by_contra hc
  rw [Array.getElem?_eq_none (Nat.le_of_not_lt hc)] at h
  simp at h

theorem nearestWithin?_spec {s : Store} {name : String} {limit : Nat} {start c : ScopeId}
    (h : s.nearestWithin? name limit start = some c) : s.Within c start ∧ s.binds c name := by
  induction limit generalizing start with
  | zero =>
    rw [nearestWithin?] at h
    split at h
    · next hb =>
      cases h
      exact ⟨s.within_refl c, hb⟩
    · cases h
  | succ limit ih =>
    rw [nearestWithin?] at h
    split at h
    · next hb =>
      cases h
      exact ⟨s.within_refl c, hb⟩
    · obtain ⟨p, hp, hn⟩ := Option.bind_eq_some_iff.1 h
      obtain ⟨hw, hb⟩ := ih hn
      exact ⟨within_parent hp hw, hb⟩

/-- A scope that binds the name is itself the nearest one. -/
theorem nearest?_of_binds {s : Store} {name : String} {c : ScopeId} (h : s.binds c name = true) :
    s.nearest? name c = some c := by
  unfold nearest?
  cases s.scopes.size <;> rw [nearestWithin?, if_pos h]

/-- From a scope without another around it, only this scope is searched. -/
theorem nearest?_root {s : Store} {g : ScopeId} (h : s.parent? g = none) (n : String) :
    s.nearest? n g = if s.binds g n then some g else none := by
  unfold nearest?
  cases s.scopes.size with
  | zero => rfl
  | succ limit => rw [nearestWithin?, h, Option.bind_none]

theorem nearest?_spec {s : Store} {name : String} {start c : ScopeId}
    (h : s.nearest? name start = some c) : s.Within c start ∧ s.binds c name :=
  nearestWithin?_spec h

theorem bindingAt?_spec {s : Store} {name : String} {distance : Nat} {start c : ScopeId}
    (h : s.bindingAt? name distance start = some c) : s.Within c start ∧ s.binds c name := by
  rw [bindingAt?, Option.filter_eq_some_iff] at h
  exact ⟨⟨distance, h.1⟩, h.2⟩

end Store

namespace Eval

variable {ω : Type} {setting : Setting ω} {scope : ScopeId} {run : Run ω}
  {ok : Value → Run ω → Prop} {bad : Interrupt → Run ω → Prop}

/-- The scope `c` binds the name and is one in which a program in `scope` looks for it. -/
structure Finds (setting : Setting ω) (scope : ScopeId) (s : Store) (name : String)
    (c : ScopeId) : Prop where
  within : s.Within c scope ∨ s.Within c setting.globals
  binds : s.binds c name = true

/-- Where the name of the expression `id` is looked for. -/
def found (setting : Setting ω) (scope : ScopeId) (id : ExprId) (name : Token) (s : Store) :
    Option ScopeId :=
  match setting.distances.find? id with
  | some distance => s.bindingAt? name.lexeme distance scope
  | none => s.nearest? name.lexeme setting.globals

theorem finds_of_found {id : ExprId} {name : Token} {s : Store} {c : ScopeId}
    (h : found setting scope id name s = some c) : Finds setting scope s name.lexeme c := by
  unfold found at h
  split at h
  · obtain ⟨hw, hb⟩ := Store.bindingAt?_spec h
    exact ⟨.inl hw, hb⟩
  · obtain ⟨hw, hb⟩ := Store.nearest?_spec h
    exact ⟨.inr hw, hb⟩

theorem ends_read_found (id : ExprId) (name : Token) :
    (read setting scope id name).Ends run ok bad ↔
      match Store.readIn (found setting scope id name run.store) name run.store with
      | .ok v => ok v run
      | .error e => bad (.error e) run := by
  have hact : read setting scope id name =
      demand fun s => Store.readIn (found setting scope id name s) name s := by
    unfold read found
    cases setting.distances.find? id <;> rfl
  rw [hact, ends_demand]
  cases Store.readIn (found setting scope id name run.store) name run.store <;> exact Iff.rfl

/-- The value of a name that is read is what it is bound to where it is found. -/
theorem read_ok {id : ExprId} {name : Token} {r : Run ω} {v : Value}
    (h : read setting scope id name run = .ok v r) :
    ∃ c, found setting scope id name run.store = some c ∧
      run.store.lookup c name.lexeme = some v := by
  have ends : (read setting scope id name).Ends run
      (fun v _ => ∃ c, found setting scope id name run.store = some c ∧
        run.store.lookup c name.lexeme = some v) (fun _ _ => True) := by
    rw [ends_read_found]
    cases hf : found setting scope id name run.store with
    | none => trivial
    | some c =>
      obtain ⟨v, hv⟩ := Store.binds_iff.1 (finds_of_found hf).binds
      simp only [Store.readIn, Option.bind_some, hv]
      exact ⟨c, rfl, hv⟩
  exact ends.of_ok h

/-- A name that is read is undefined or found. -/
theorem ends_read {id : ExprId} {name : Token}
    (hbad : bad (.error ⟨name.line, .undefinedVariable name.lexeme⟩) run)
    (hok : ∀ c v, Finds setting scope run.store name.lexeme c →
      run.store.lookup c name.lexeme = some v → ok v run) :
    (read setting scope id name).Ends run ok bad := by
  rw [ends_read_found]
  cases hf : found setting scope id name run.store with
  | none => exact hbad
  | some c =>
    have hfind := finds_of_found hf
    obtain ⟨v, hv⟩ := Store.binds_iff.1 hfind.binds
    simp only [Store.readIn, Option.bind_some, hv]
    exact hok c v hfind hv

/-- A name that is assigned to is undefined or found. -/
theorem ends_assign_found {id : ExprId} {name : Token} {v : Value}
    (hbad : bad (.error ⟨name.line, .undefinedVariable name.lexeme⟩) run)
    (hok : ∀ c, found setting scope id name run.store = some c →
      match Store.coerce name.type v run.store with
      | .ok w s => ok w { run with store := s.bind c name.lexeme w }
      | .error m s =>
        bad (.error ⟨name.line, .badAssignment name.lexeme m⟩) { run with store := s }) :
    (assign setting scope id name v).Ends run ok bad := by
  have hact : assign setting scope id name v =
      onStore fun s => Store.assignIn (found setting scope id name s) name v s := by
    unfold assign found
    cases setting.distances.find? id <;> rfl
  rw [hact]
  refine (ends_onStore _).2 ?_
  cases hf : found setting scope id name run.store with
  | none => exact hbad
  | some c =>
    have h := hok c hf
    unfold Store.assignIn
    dsimp only
    revert h
    cases Store.coerce name.type v run.store <;> exact fun h => h

theorem ends_assign {id : ExprId} {name : Token} {v : Value}
    (hbad : bad (.error ⟨name.line, .undefinedVariable name.lexeme⟩) run)
    (hok : ∀ c, Finds setting scope run.store name.lexeme c →
      match Store.coerce name.type v run.store with
      | .ok w s => ok w { run with store := s.bind c name.lexeme w }
      | .error m s =>
        bad (.error ⟨name.line, .badAssignment name.lexeme m⟩) { run with store := s }) :
    (assign setting scope id name v).Ends run ok bad :=
  ends_assign_found hbad fun c hf => hok c (finds_of_found hf)

/-- An element that is written belongs to an array found under the name. -/
theorem ends_assignItem {id : ExprId} {name : Token} {index v : Value}
    (hbad : bad (.error ⟨name.line, .undefinedVariable name.lexeme⟩) run)
    (hok : ∀ c, Finds setting scope run.store name.lexeme c →
      match run.store.lookup c name.lexeme with
      | some (.array a) =>
        match Store.slot (run.store.items a).size index with
        | .error fault => bad (.error ⟨name.line, fault⟩) run
        | .ok i =>
          match Store.coerce (name.type.element?.getD .any) v run.store with
          | .ok w s => ok w { run with store := s.setItem a i w }
          | .error m s => bad (.error ⟨name.line, .badElement m⟩) { run with store := s }
      | _ => bad (.error ⟨name.line, .notArray⟩) run) :
    (assignItem setting scope id name index v).Ends run ok bad := by
  have hact : assignItem setting scope id name index v =
      onStore fun s => Store.assignItemIn (found setting scope id name s) name index v s := by
    unfold assignItem found
    cases setting.distances.find? id <;> rfl
  rw [hact]
  refine (ends_onStore _).2 ?_
  cases hf : found setting scope id name run.store with
  | none => exact hbad
  | some c =>
    have h := hok c (finds_of_found hf)
    unfold Store.assignItemIn
    dsimp only
    cases hl : run.store.lookup c name.lexeme with
    | none =>
      rw [hl] at h
      exact h
    | some target =>
      rw [hl] at h
      cases target with
      | array a =>
        revert h
        dsimp only
        cases Store.slot (run.store.items a).size index with
        | error fault => exact fun h => h
        | ok i =>
          dsimp only
          cases Store.coerce (name.type.element?.getD .any) v run.store <;> exact fun h => h
      | _ => exact h

/-- An element that is read belongs to an array. -/
theorem ends_item {name : Token} {target index : Value}
    (hbad : (∀ a, target ≠ .array a) → bad (.error ⟨name.line, .notArray⟩) run)
    (hok : ∀ a, target = .array a →
      match Store.slot (run.store.items a).size index with
      | .ok i => ok ((run.store.items a).getD i .nil) run
      | .error fault => bad (.error ⟨name.line, fault⟩) run) :
    (item name target index).Ends run ok bad := by
  unfold item
  rw [ends_demand]
  cases target with
  | array a =>
    have h := hok a rfl
    revert h
    dsimp only
    cases Store.slot (run.store.items a).size index <;> exact fun h => h
  | _ => exact hbad (by simp)

end Eval

end TickScript
