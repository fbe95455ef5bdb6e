import Mathlib.Data.List.Basic

/-!
# Texts in brackets

A form is a word, or forms in round or curly brackets. It is written with a space between any two
forms next to each other. If no word is empty or has a space or a bracket in it then the text of a
form can be read in one way only (`Form.chars_injective`): where a form ends is seen from what
stands behind it.
-/

namespace TickScript

/-- A word, or forms in brackets. -/
inductive Form where
  | word (text : String)
  | round (items : List Form)
  | curly (items : List Form)

namespace Form

mutual

/-- The text of a form. -/
def chars : Form → List Char
  | .word text => text.toList
  | .round items => '(' :: ((eachSpaced items).tail ++ [')'])
  | .curly items => '\x7b' :: ((eachSpaced items).tail ++ ['\x7d'])

/-- The texts of some forms, each after a space. -/
def eachSpaced : List Form → List Char
  | [] => []
  | f :: fs => ' ' :: (f.chars ++ eachSpaced fs)

end

/-- The characters that are not part of a word. -/
def marks : List Char := [' ', '(', ')', '\x7b', '\x7d']

/-- A word that can be told from what stands around it. -/
structure IsWord (text : String) : Prop where
  nonempty : text.toList ≠ []
  plain : ∀ c ∈ text.toList, c ∉ marks

instance (text : String) : Decidable (IsWord text) :=
  decidable_of_iff (text.toList ≠ [] ∧ text.toList.all (fun c => !marks.contains c) = true)
    ⟨fun h => ⟨h.1, by simpa using h.2⟩, fun h => ⟨h.nonempty, by simpa using h.plain⟩⟩

mutual

/-- All words in the form can be told from what stands around them. -/
def Proper : Form → Prop
  | .word text => IsWord text
  | .round items => AllProper items
  | .curly items => AllProper items

def AllProper : List Form → Prop
  | [] => True
  | f :: fs => f.Proper ∧ AllProper fs

end

/-- What may stand behind a form. -/
def Delimited (rest : List Char) : Prop :=
  ∀ c ∈ rest.head?, c ∈ [' ', ')', '\x7d']

theorem delimited_cons {c : Char} (h : c ∈ [' ', ')', '\x7d']) (rest : List Char) :
    Delimited (c :: rest) := by
  rintro d hd
  cases hd
  exact h

theorem delimited_eachSpaced (fs : List Form) {c : Char} (h : c ∈ [')', '\x7d'])
    (rest : List Char) : Delimited (eachSpaced fs ++ c :: rest) := by
  cases fs with
  | nil => exact delimited_cons (List.mem_cons_of_mem _ h) rest
  | cons f fs => exact delimited_cons List.mem_cons_self _

/-- A word ends at the first mark behind it. -/
theorem word_end {xs ys rest rest' : List Char} (hx : ∀ c ∈ xs, c ∉ marks)
    (hy : ∀ c ∈ ys, c ∉ marks) (delimited : Delimited rest) (delimited' : Delimited rest')
    (same : xs ++ rest = ys ++ rest') : xs = ys ∧ rest = rest' := by
  have ends : ∀ {c : Char} {zs rest : List Char}, Delimited rest → c ∉ marks →
      rest ≠ c :: zs := by
    rintro c zs rest delimited hc rfl
    have := delimited c rfl
    refine hc ?_
    simp only [List.mem_cons, List.not_mem_nil, or_false] at this
    rcases this with rfl | rfl | rfl <;> decide
  induction xs generalizing ys with
  | nil =>
    cases ys with
    | nil => exact ⟨rfl, same⟩
    | cons y ys => exact absurd same (ends delimited (hy y List.mem_cons_self))
  | cons x xs ih =>
    cases ys with
    | nil => exact absurd same.symm (ends delimited' (hx x List.mem_cons_self))
    | cons y ys =>
      obtain ⟨rfl, tails⟩ := List.cons.inj same
      obtain ⟨rfl, rest_eq⟩ := ih (fun c hc => hx c (List.mem_cons_of_mem _ hc))
        (fun c hc => hy c (List.mem_cons_of_mem _ hc)) tails
      exact ⟨rfl, rest_eq⟩

/-- A proper form does not begin with a space or a closing bracket. -/
theorem Proper.head {f : Form} (h : f.Proper) : ∃ c rest, f.chars = c :: rest ∧
    c ∉ [' ', ')', '\x7d'] := by
  cases f with
  | word text =>
    obtain ⟨c, rest, hc⟩ := List.exists_cons_of_ne_nil h.nonempty
    have plain := h.plain c (by rw [hc]; exact List.mem_cons_self)
    refine ⟨c, rest, hc, fun mem => plain ?_⟩
    simp only [List.mem_cons, List.not_mem_nil, or_false] at mem
    rcases mem with rfl | rfl | rfl <;> decide
  | round items => exact ⟨'(', _, rfl, by decide⟩
  | curly items => exact ⟨'\x7b', _, rfl, by decide⟩

theorem IsWord.ne_bracket {text : String} (h : IsWord text) {c : Char} (hc : c ∈ marks)
    {rest rest' : List Char} : text.toList ++ rest ≠ c :: rest' := by
  obtain ⟨d, more, hd⟩ := List.exists_cons_of_ne_nil h.nonempty
  intro same
  rw [hd] at same
  obtain ⟨rfl, -⟩ := List.cons.inj same
  exact h.plain d (by rw [hd]; exact List.mem_cons_self) hc

/-- A form does not begin as its bracket is closed. -/
theorem Proper.ne_close {f : Form} (h : f.Proper) {c : Char} (hc : c ∈ [')', '\x7d'])
    {rest rest' : List Char} : f.chars ++ rest ≠ c :: rest' := by
  obtain ⟨d, more, hd, open_⟩ := h.head
  intro same
  rw [hd] at same
  obtain ⟨rfl, -⟩ := List.cons.inj same
  exact open_ (List.mem_cons_of_mem _ hc)

/-- In brackets there is no space before the first form. -/
theorem tail_append {fs gs : List Form} {c : Char} {rest rest' : List Char} (hf : AllProper fs)
    (hg : AllProper gs) (hc : c ∈ [')', '\x7d'])
    (spaced : eachSpaced fs ++ c :: rest = eachSpaced gs ++ c :: rest' → fs = gs ∧ rest = rest')
    (same : (eachSpaced fs).tail ++ [c] ++ rest = (eachSpaced gs).tail ++ [c] ++ rest') :
    fs = gs ∧ rest = rest' := by
  cases fs with
  | nil =>
    cases gs with
    | nil => exact spaced (by simpa using same)
    | cons g gs =>
      have first : g.chars ++ (eachSpaced gs ++ c :: rest') = c :: rest := by
        simpa [eachSpaced] using same.symm
      exact absurd first (hg.1.ne_close hc)
  | cons f fs =>
    cases gs with
    | nil =>
      have first : f.chars ++ (eachSpaced fs ++ c :: rest) = c :: rest' := by
        simpa [eachSpaced] using same
      exact absurd first (hf.1.ne_close hc)
    | cons g gs => exact spaced (by simpa [eachSpaced] using same)

mutual

/-- In front of what may stand behind a form, the form is read in one way only. -/
theorem chars_append : (f : Form) → ∀ {g : Form} {rest rest' : List Char}, f.Proper → g.Proper →
    Delimited rest → Delimited rest' → f.chars ++ rest = g.chars ++ rest' → f = g ∧ rest = rest'
  | .word text, g, rest, rest', hf, hg, delimited, delimited', same => by
    cases g with
    | word text' =>
      obtain ⟨texts, rests⟩ := word_end hf.plain hg.plain delimited delimited' same
      exact ⟨congrArg Form.word (String.toList_inj.1 texts), rests⟩
    | round items => exact absurd same (IsWord.ne_bracket hf (by decide))
    | curly items => exact absurd same (IsWord.ne_bracket hf (by decide))
  | .round items, g, rest, rest', hf, hg, _, _, same => by
    cases g with
    | word text' => exact absurd same.symm (IsWord.ne_bracket hg (by decide))
    | round items' =>
      obtain ⟨rfl, rests⟩ := tail_append hf hg (by decide)
        (eachSpaced_append items hf hg (by decide)) (List.cons.inj same).2
      exact ⟨rfl, rests⟩
    | curly items' => exact absurd (List.cons.inj same).1 (by decide)
  | .curly items, g, rest, rest', hf, hg, _, _, same => by
    cases g with
    | word text' => exact absurd same.symm (IsWord.ne_bracket hg (by decide))
    | round items' => exact absurd (List.cons.inj same).1 (by decide)
    | curly items' =>
      obtain ⟨rfl, rests⟩ := tail_append hf hg (by decide)
        (eachSpaced_append items hf hg (by decide)) (List.cons.inj same).2
      exact ⟨rfl, rests⟩

/-- So are forms up to a closing bracket. -/
theorem eachSpaced_append : (fs : List Form) → ∀ {gs : List Form} {c : Char}
    {rest rest' : List Char}, AllProper fs → AllProper gs → c ∈ [')', '\x7d'] →
    eachSpaced fs ++ c :: rest = eachSpaced gs ++ c :: rest' → fs = gs ∧ rest = rest'
  | [], [], c, rest, rest', _, _, _, same => ⟨rfl, (List.cons.inj same).2⟩
  | [], g :: gs, c, rest, rest', _, _, hc, same => by
    obtain ⟨rfl, -⟩ := List.cons.inj same
    exact absurd hc (by decide)
  | f :: fs, [], c, rest, rest', _, _, hc, same => by
    obtain ⟨rfl, -⟩ := List.cons.inj same
    exact absurd hc (by decide)
  | f :: fs, g :: gs, c, rest, rest', hf, hg, hc, same => by
    have behind : f.chars ++ (eachSpaced fs ++ c :: rest) =
        g.chars ++ (eachSpaced gs ++ c :: rest') := by
      simpa [eachSpaced] using same
    obtain ⟨rfl, rests⟩ := chars_append f hf.1 hg.1 (delimited_eachSpaced fs hc rest)
      (delimited_eachSpaced gs hc rest') behind
    obtain ⟨rfl, rest_eq⟩ := eachSpaced_append fs hf.2 hg.2 hc rests
    exact ⟨rfl, rest_eq⟩

end

theorem chars_injective {f g : Form} (hf : f.Proper) (hg : g.Proper) (same : f.chars = g.chars) :
    f = g := by
  have ended : Delimited [] := by simp [Delimited]
  exact (chars_append f hf hg ended ended (congrArg (· ++ []) same)).1

end Form

end TickScript
