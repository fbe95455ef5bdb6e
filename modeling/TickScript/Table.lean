/-!
# Tables

A table keeps one value per key. Entries stay in the order in which their keys were
first inserted; a later insertion under the same key replaces the value where it
stands. The main statements say what a look-up answers after an insertion.
-/

namespace TickScript

variable {κ α : Type} [DecidableEq κ]

/-- A finite map that remembers the order in which its keys came. -/
structure Table (κ α : Type) where
  entries : List (κ × α)
deriving DecidableEq, Repr

namespace Table

def empty : Table κ α := ⟨[]⟩

instance : Inhabited (Table κ α) := ⟨⟨[]⟩⟩

/-- The value under `key`. -/
def find? (table : Table κ α) (key : κ) : Option α :=
  (table.entries.find? (·.1 = key)).map (·.2)

/-- Does the table hold a value under `key`? -/
def contains (table : Table κ α) (key : κ) : Bool :=
  (table.find? key).isSome

/-- The entries after `key` has been given `value`. -/
def insertEntry (key : κ) (value : α) : List (κ × α) → List (κ × α)
  | [] => [(key, value)]
  | entry :: rest =>
    if entry.1 = key then (key, value) :: rest
    else entry :: insertEntry key value rest

/-- Puts `value` under `key`. -/
def insert (table : Table κ α) (key : κ) (value : α) : Table κ α :=
  ⟨insertEntry key value table.entries⟩

/-- The table of a list of entries, where the last entry of a key counts. -/
def ofList (entries : List (κ × α)) : Table κ α :=
  entries.foldl (fun table entry => table.insert entry.1 entry.2) empty

@[simp]
theorem find?_empty (key : κ) : (empty : Table κ α).find? key = none := rfl

theorem find?_insert (table : Table κ α) (key probe : κ) (value : α) :
    (table.insert key value).find? probe = if probe = key then some value else table.find? probe := by
  obtain ⟨entries⟩ := table
  simp only [insert, find?]
  induction entries with
  | nil => by_cases h : key = probe <;> simp [insertEntry, h, eq_comm]
  | cons entry rest ih =>
    by_cases hk : entry.1 = key
    · by_cases hp : key = probe
      · simp [insertEntry, hk, hp]
      · have hp' : ¬ probe = key := fun h => hp h.symm
        simp [insertEntry, hk, hp, hp']
    · by_cases hp : entry.1 = probe
      · have : ¬ probe = key := fun h => hk (hp.trans h)
        simp [insertEntry, hp, this]
      · simpa [insertEntry, hk, hp] using ih

@[simp]
theorem find?_insert_self (table : Table κ α) (key : κ) (value : α) :
    (table.insert key value).find? key = some value := by
  simp [find?_insert]

theorem contains_insert (table : Table κ α) (key probe : κ) (value : α) :
    (table.insert key value).contains probe = (decide (probe = key) || table.contains probe) := by
  by_cases h : probe = key <;> simp [contains, find?_insert, h]

end Table

end TickScript
