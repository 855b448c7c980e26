import Mathlib.Data.Finset.Card
import Mathlib.Data.List.FinRange

/-!
# Count-min sketches

A row is a table from hash values to counts with the times of their last use.  A
sketch has several rows, each with its own hash value of the current key.  A key
is counted in every row, and its count is the least one of the rows that hold
it.
-/

namespace CountMin

open Function

variable {H : Type u} [DecidableEq H]

/-- A table of counts.  Counts and times of values that are not held mean
nothing. -/
structure Row (H : Type u) where
  held : Finset H
  count : H → ℕ
  time : H → ℤ

namespace Row

/-- A row without entries. -/
def empty : Row H :=
  { held := ∅
    count := fun _ => 0
    time := fun _ => 0 }

/-- The count of a value. -/
def find
    (value : H)
    (row : Row H) : Option ℕ :=
  if value ∈ row.held then some (row.count value) else none

/-- Start counting a value at zero, or count it once more.  A row of full size
does not start counting. -/
def touch
    (capacity : ℕ)
    (now : ℤ)
    (value : H)
    (row : Row H) : Bool × Row H :=
  if value ∈ row.held then
    (true,
      { row with
        count := update row.count value (row.count value + 1)
        time := update row.time value now })
  else if row.held.card < capacity then
    (true,
      { held := insert value row.held
        count := update row.count value 0
        time := update row.time value now })
  else (false, row)

/-- Use a value without counting it. -/
def refresh
    (now : ℤ)
    (value : H)
    (row : Row H) : Row H :=
  if value ∈ row.held then { row with time := update row.time value now } else row

/-- Forget the values that were last used before the limit. -/
def expire
    (limit : ℤ)
    (row : Row H) : Row H :=
  { row with held := row.held.filter fun value => limit ≤ row.time value }

@[simp] theorem held_refresh
    (now : ℤ)
    (value : H)
    (row : Row H) :
    (row.refresh now value).held = row.held := by
  rw [refresh]
  split_ifs <;> rfl

theorem touch_of_mem
    {row : Row H}
    (isHeld : value ∈ row.held)
    (capacity : ℕ)
    (now : ℤ) :
    row.touch capacity now value =
      (true,
        Row.refresh now value
          { row with
            count := update row.count value (row.count value + 1) }) := by
  rw [touch, refresh, if_pos isHeld, if_pos isHeld]

theorem touch_of_not_mem
    {row : Row H}
    (subset : row.held ⊆ values)
    (isValue : value ∈ values)
    (absent : value ∉ row.held)
    (now : ℤ) :
    row.touch values.card now value =
      (true,
        { held := insert value row.held
          count := update row.count value 0
          time := update row.time value now }) := by
  have room : row.held.card < values.card :=
    Finset.card_lt_card ⟨subset, fun all => absent (all isValue)⟩
  rw [touch, if_neg absent, if_pos room]

theorem touch_of_subset
    {row : Row H}
    (subset : row.held ⊆ values)
    (isValue : value ∈ values)
    (now : ℤ) :
    (row.touch values.card now value).1 = true ∧
      (row.touch values.card now value).2.held = insert value row.held := by
  by_cases isHeld : value ∈ row.held
  · rw [touch_of_mem isHeld, held_refresh]
    exact ⟨rfl, (Finset.insert_eq_of_mem isHeld).symm⟩
  · rw [touch_of_not_mem subset isValue isHeld]
    exact ⟨rfl, rfl⟩

end Row

/-- The rows, and the value of the current key in each of them. -/
structure Sketch (n : ℕ) (H : Type u) where
  rows : Fin n → Row H
  hashes : Fin n → H

namespace Sketch

variable {n : ℕ}

/-- Touch the value of the current key in every row. -/
def touch
    (capacity : ℕ)
    (now : ℤ)
    (sketch : Sketch n H) : Bool × Sketch n H :=
  (decide (∀ row, ((sketch.rows row).touch capacity now (sketch.hashes row)).1 = true),
    { sketch with
      rows := fun row => ((sketch.rows row).touch capacity now (sketch.hashes row)).2 })

/-- The counts of the current key in the rows that hold it. -/
def counts (sketch : Sketch n H) : List ℕ :=
  (List.finRange n).filterMap fun row => (sketch.rows row).find (sketch.hashes row)

/-- The least count of the current key exceeds the threshold. -/
def fetch
    (threshold : ℕ)
    (sketch : Sketch n H) : Bool :=
  sketch.counts.min?.any fun least => threshold < least

/-- Refresh the value of the current key in every row. -/
def refresh
    (now : ℤ)
    (sketch : Sketch n H) : Sketch n H :=
  { sketch with rows := fun row => (sketch.rows row).refresh now (sketch.hashes row) }

/-- Expire every row. -/
def expire
    (limit : ℤ)
    (sketch : Sketch n H) : Sketch n H :=
  { sketch with rows := fun row => (sketch.rows row).expire limit }

/-- Make another key the current one. -/
def compute
    (hashes : Fin n → H)
    (sketch : Sketch n H) : Sketch n H :=
  { sketch with hashes := hashes }

/-- The least element of a list exceeds a bound when the list has elements and
all of them do. -/
theorem any_min?_iff
    {values : List ℕ}
    {bound : ℕ} :
    (values.min?.any fun least => bound < least) = true ↔
      (∃ value, value ∈ values) ∧ ∀ value ∈ values, bound < value := by
  cases isLeast : values.min? with
  | none =>
      rw [List.min?_eq_none_iff.mp isLeast]
      simp
  | some least =>
      obtain ⟨member, below⟩ := List.min?_eq_some_iff.mp isLeast
      rw [Option.any_some, decide_eq_true_iff]
      constructor
      · intro exceeds
        exact ⟨⟨least, member⟩, fun value isValue => exceeds.trans_le (below value isValue)⟩
      · rintro ⟨_, every⟩
        exact every least member

end Sketch
end CountMin
