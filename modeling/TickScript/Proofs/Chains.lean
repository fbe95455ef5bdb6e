import Mathlib.Data.List.Forall2
import TickScript.Proofs.Frames
import TickScript.Proofs.Layout

/-!
# Chains of scopes

The scopes from a place outward form a chain that ends at the outermost scope. Such a chain is
compared with the frames of a layout: a scope has at most, or at least, the names of its frame;
and no scope hides a name that a frame further out has, unless its own frame has it too.
-/

namespace TickScript

namespace Store

/-- The scopes from `scope` outward, up to the outermost one and without it. -/
def Chain (s : Store) (globals : ScopeId) : ScopeId → List ScopeId → Prop
  | scope, [] => scope = globals
  | scope, c :: cs =>
    scope = c ∧ globals < c ∧ ∃ p, s.parent? c = some p ∧ s.Chain globals p cs

variable {s t : Store} {globals scope : ScopeId} {cs : List ScopeId}

theorem chain_unique : ∀ {cs cs' : List ScopeId} {scope : ScopeId}, s.Chain globals scope cs →
    s.Chain globals scope cs' → cs = cs'
  | [], [], _, _, _ => rfl
  | [], _ :: _, _, h, h' => absurd (h'.1.symm.trans h) (Nat.ne_of_gt h'.2.1)
  | _ :: _, [], _, h, h' => absurd (h.1.symm.trans h') (Nat.ne_of_gt h.2.1)
  | c :: cs, c' :: cs', scope, h, h' => by
    obtain ⟨rfl, -, p, hp, hc⟩ := h
    obtain ⟨rfl, -, p', hp', hc'⟩ := h'
    rw [hp] at hp'
    cases hp'
    rw [chain_unique hc hc']

/-- The scopes of a chain are there. -/
theorem chain_lt : ∀ {cs : List ScopeId} {scope : ScopeId}, s.Chain globals scope cs →
    ∀ c ∈ cs, c < s.scopes.size
  | [], _, _ => by simp
  | c :: cs, _, h => by
    obtain ⟨rfl, -, p, hp, hc⟩ := h
    intro c' hm
    rcases List.mem_cons.1 hm with rfl | hm
    · exact lt_of_parent? hp
    · exact chain_lt hc c' hm

theorem chain_congr : ∀ {cs : List ScopeId} {scope : ScopeId}, s.Chain globals scope cs →
    (∀ c ∈ cs, t.parent? c = s.parent? c) → t.Chain globals scope cs
  | [], _, h, _ => h
  | c :: cs, _, h, hp => by
    obtain ⟨rfl, hg, p, hpar, hc⟩ := h
    refine ⟨rfl, hg, p, ?_, chain_congr hc fun c' hm => hp c' (List.mem_cons_of_mem _ hm)⟩
    rw [hp _ List.mem_cons_self, hpar]

/-- From each scope of a chain the rest of it is a chain. -/
theorem chain_suffix {c : ScopeId} : ∀ {cs after : List ScopeId} {scope : ScopeId},
    s.Chain globals scope (cs ++ c :: after) → s.Chain globals c (c :: after)
  | [], _, _, h => by
    obtain ⟨rfl, hrest⟩ := h
    exact ⟨rfl, hrest⟩
  | _ :: cs, _, _, h => by
    obtain ⟨-, -, p, -, hc⟩ := h
    exact chain_suffix hc

/-- No scope comes twice in a chain. -/
theorem chain_nodup : ∀ {cs : List ScopeId} {scope : ScopeId}, s.Chain globals scope cs → cs.Nodup
  | [], _, _ => .nil
  | c :: cs, _, h => by
    have hc := h
    obtain ⟨rfl, hg, p, hp, hrest⟩ := h
    refine List.nodup_cons.2 ⟨fun hm => ?_, chain_nodup hrest⟩
    obtain ⟨before, after, rfl⟩ := List.append_of_mem hm
    -- The scope would begin two chains of different length.
    have short := chain_unique hc (chain_suffix hrest)
    have hl := congrArg List.length short
    simp only [List.length_cons, List.length_append] at hl
    omega

/-- The scopes of a chain were made later than the outermost one. -/
theorem chain_gt : ∀ {cs : List ScopeId} {scope : ScopeId}, s.Chain globals scope cs →
    ∀ c ∈ cs, globals < c
  | [], _, _ => by simp
  | c :: cs, _, h => by
    obtain ⟨-, hg, p, -, hrest⟩ := h
    intro c' hm
    rcases List.mem_cons.1 hm with rfl | hm
    · exact hg
    · exact chain_gt hrest c' hm

theorem chain_globals_not_mem (h : s.Chain globals scope cs) : globals ∉ cs :=
  fun hm => Nat.lt_irrefl _ (chain_gt h _ hm)

theorem chain_ancestor : ∀ {cs : List ScopeId} {scope : ScopeId}, s.Chain globals scope cs →
    s.ancestor? cs.length scope = some globals
  | [], _, h => congrArg some h
  | c :: cs, _, h => by
    obtain ⟨rfl, -, p, hp, hrest⟩ := h
    rw [List.length_cons, ancestor?, hp, Option.bind_some, chain_ancestor hrest]

theorem chain_ancestor_lt : ∀ {cs : List ScopeId} {scope : ScopeId} {i : Nat} (h : i < cs.length),
    s.Chain globals scope cs → s.ancestor? i scope = some cs[i]
  | [], _, _, h, _ => absurd h (by simp)
  | c :: cs, _, 0, _, h => congrArg some h.1
  | c :: cs, _, i + 1, hi, h => by
    obtain ⟨rfl, -, p, hp, hrest⟩ := h
    rw [ancestor?, hp, Option.bind_some, chain_ancestor_lt (Nat.lt_of_succ_lt_succ hi) hrest]
    rfl

/-- From a place outward there are only scopes of the program. -/
theorem chain_within {c : ScopeId} (root : s.parent? globals = none) :
    ∀ {cs : List ScopeId} {scope : ScopeId}, s.Chain globals scope cs → s.Within c scope →
    globals ≤ c
  | [], _, h, ⟨d, hd⟩ => by
    obtain rfl : _ = globals := h
    cases d with
    | zero => exact Nat.le_of_eq (Option.some.inj hd)
    | succ d =>
      rw [ancestor?, root] at hd
      cases hd
  | _ :: cs, _, h, ⟨d, hd⟩ => by
    obtain ⟨rfl, hg, p, hp, hrest⟩ := h
    cases d with
    | zero =>
      cases hd
      exact Nat.le_of_lt hg
    | succ d =>
      rw [ancestor?, hp, Option.bind_some] at hd
      exact chain_within root hrest ⟨d, hd⟩

/-! ## Names in chains -/

/-- Each scope has at most the names of its frame. -/
def Upper (s : Store) (cs : List ScopeId) (fs : List Frame) : Prop :=
  List.Forall₂ (fun c f => ∀ n, s.binds c n = true → f n = true) cs fs

/-- Each scope has at least the names of its frame. -/
def Lower (s : Store) (cs : List ScopeId) (fs : List Frame) : Prop :=
  List.Forall₂ (fun c f => ∀ n, f n = true → s.binds c n = true) cs fs

/-- No scope has a name of a frame further out, unless its own frame has it. -/
def Clear (s : Store) : List ScopeId → List Frame → Prop
  | [], [] => True
  | c :: cs, f :: fs =>
    (∀ n, s.binds c n = true → (∃ g ∈ fs, g n = true) → f n = true) ∧ s.Clear cs fs
  | _, _ => False

theorem clear_append : ∀ {cs cs' : List ScopeId} {fs fs' : List Frame}, s.Upper cs fs →
    s.Clear cs' fs' → s.Clear (cs ++ cs') (fs ++ fs')
  | [], _, [], _, _, h => h
  | _ :: _, _, _ :: _, _, .cons hc hcs, h =>
    ⟨fun n hb _ => hc n hb, clear_append hcs h⟩

theorem clear_of_upper {fs : List Frame} (h : s.Upper cs fs) : s.Clear cs fs := by
  have := clear_append h (show s.Clear [] [] from trivial)
  rwa [List.append_nil, List.append_nil] at this

theorem clear_length : ∀ {cs : List ScopeId} {fs : List Frame}, s.Clear cs fs →
    cs.length = fs.length
  | [], [], _ => rfl
  | _ :: _, _ :: _, h => congrArg Nat.succ (clear_length h.2)

/-- Before the nearest frame with a name, no scope has it. -/
theorem clear_findIdx? : ∀ {cs : List ScopeId} {fs : List Frame} {n : String} {d : Nat},
    s.Clear cs fs → fs.findIdx? (fun f => f n) = some d →
    d < cs.length ∧ ∀ i (h : i < cs.length), i < d → s.binds cs[i] n = false
  | [], [], _, _, _, hd => by simp at hd
  | c :: cs, f :: fs, n, d, h, hd => by
    rw [List.findIdx?_cons] at hd
    split at hd
    · cases hd
      exact ⟨by simp, fun i _ hi => absurd hi (Nat.not_lt_zero i)⟩
    · next hf =>
      obtain ⟨d', hd', rfl⟩ := Option.map_eq_some_iff.1 hd
      obtain ⟨hlen, hbefore⟩ := clear_findIdx? h.2 hd'
      refine ⟨Nat.succ_lt_succ hlen, ?_⟩
      intro i hi hid
      cases i with
      | zero =>
        rw [Bool.eq_false_iff]
        intro hb
        refine hf (h.1 n hb ?_)
        obtain ⟨hlt, hg, -⟩ := List.findIdx?_eq_some_iff_getElem.1 hd'
        exact ⟨_, List.getElem_mem hlt, hg⟩
      | succ i => exact hbefore i (Nat.lt_of_succ_lt_succ hi) (Nat.lt_of_succ_lt_succ hid)

theorem upper_congr {fs : List Frame} (h : s.Upper cs fs)
    (hn : ∀ c ∈ cs, ∀ n, t.binds c n = s.binds c n) : t.Upper cs fs := by
  induction h with
  | nil => exact .nil
  | cons hc _ ih =>
    refine .cons (fun n hb => hc n ?_) (ih fun c hm => hn c (List.mem_cons_of_mem _ hm))
    rw [← hn _ List.mem_cons_self]
    exact hb

theorem lower_mono {fs : List Frame} (h : s.Lower cs fs)
    (hn : ∀ c ∈ cs, ∀ n, s.binds c n = true → t.binds c n = true) : t.Lower cs fs := by
  induction h with
  | nil => exact .nil
  | cons hc _ ih =>
    exact .cons (fun n hf => hn _ List.mem_cons_self n (hc n hf))
      (ih fun c hm => hn c (List.mem_cons_of_mem _ hm))

theorem clear_congr : ∀ {cs : List ScopeId} {fs : List Frame}, s.Clear cs fs →
    (∀ c ∈ cs, ∀ n, t.binds c n = s.binds c n) → t.Clear cs fs
  | [], [], h, _ => h
  | c :: cs, f :: fs, h, hn => by
    refine ⟨fun n hb hex => h.1 n ?_ hex, clear_congr h.2 fun c hm => hn c (List.mem_cons_of_mem _ hm)⟩
    rw [← hn _ List.mem_cons_self]
    exact hb

/-- A frame with a name has its scope bind it. -/
theorem Lower.binds {fs : List Frame} (h : s.Lower cs fs) {n : String}
    (hex : ∃ f ∈ fs, f n = true) : ∃ c ∈ cs, s.binds c n = true := by
  induction h with
  | nil => simp at hex
  | cons hc _ ih =>
    obtain ⟨f, hf, hn⟩ := hex
    rcases List.mem_cons.1 hf with rfl | hf
    · exact ⟨_, List.mem_cons_self, hc n hn⟩
    · obtain ⟨c, hm, hb⟩ := ih ⟨f, hf, hn⟩
      exact ⟨c, List.mem_cons_of_mem _ hm, hb⟩

theorem Upper.frame {fs : List Frame} (h : s.Upper cs fs) {n : String}
    (hex : ∃ c ∈ cs, s.binds c n = true) : ∃ f ∈ fs, f n = true := by
  induction h with
  | nil => simp at hex
  | cons hc _ ih =>
    obtain ⟨c, hm, hb⟩ := hex
    rcases List.mem_cons.1 hm with rfl | hm
    · exact ⟨_, List.mem_cons_self, hc n hb⟩
    · obtain ⟨f, hf, hn⟩ := ih ⟨c, hm, hb⟩
      exact ⟨f, List.mem_cons_of_mem _ hf, hn⟩

/-- Binding a name in a scope leaves a chain clear, if no scope further out has the name. -/
theorem clear_bind {name : String} {v : Value} (hs : scope < s.scopes.size) :
    ∀ {cs : List ScopeId} {fs : List Frame} {start : ScopeId}, s.Chain globals start cs →
      s.Clear cs fs → s.Lower cs fs →
      (scope ∈ cs → ∀ after, s.Chain globals scope (scope :: after) →
        ∀ c ∈ after, s.binds c name = false) →
      (s.bind scope name v).Clear cs fs
  | [], [], _, _, h, _, _ => h
  | c :: cs, f :: fs, start, hchain, h, .cons hl hls, hnew => by
    obtain ⟨rfl, hg, p, hp, hrest⟩ := id hchain
    refine ⟨fun n hb hex => ?_, ?_⟩
    · rcases (binds_bind hs).1 hb with ⟨rfl, rfl⟩ | hb
      · obtain ⟨c', hm, hb'⟩ := Lower.binds hls hex
        rw [hnew List.mem_cons_self cs hchain c' hm] at hb'
        exact Bool.noConfusion hb'
      · exact h.1 n hb hex
    · exact clear_bind hs hrest h.2 hls fun hm => hnew (List.mem_cons_of_mem _ hm)

end Store

end TickScript
