import Mathlib.Tactic.Ring

/-!
# Moving overlapping ranges of a memory

A range of cells is moved by one loop that copies cell by cell.  The loop goes
upwards to move a range down and downwards to move it up, so that no cell is
overwritten before it is read.
-/

namespace ByteMoves

open Function

variable {α : Type*}

/-! ## Ranges -/

/-- The contents of consecutive cells. -/
def cells
    (memory : ℤ → α)
    (start : ℤ)
    (length : ℕ) : List α :=
  (List.range length).map fun i : ℕ => memory (start + i)

@[simp] theorem length_cells
    (memory : ℤ → α)
    (start : ℤ)
    (length : ℕ) :
    (cells memory start length).length = length := by
  unfold cells
  rw [List.length_map, List.length_range]

theorem cells_add
    (memory : ℤ → α)
    (start : ℤ)
    (first second : ℕ) :
    cells memory start (first + second) =
      cells memory start first ++ cells memory (start + first) second := by
  have shifted : (List.range second).map ((fun i : ℕ => memory (start + i)) ∘ (first + ·)) =
      cells memory (start + first) second := by
    apply List.map_congr_left
    intro i _
    rw [comp_apply, Nat.cast_add, add_assoc]
  rw [← shifted, cells, List.range_add, List.map_append, List.map_map]
  rfl

theorem cells_eq_append_iff
    {memory : ℤ → α}
    {start : ℤ}
    {first second : List α} :
    cells memory start (first ++ second).length = first ++ second ↔
      cells memory start first.length = first ∧
        cells memory (start + first.length) second.length = second := by
  rw [List.length_append, cells_add]
  constructor
  · intro both
    exact List.append_inj both (length_cells memory start first.length)
  · rintro ⟨isFirst, isSecond⟩
    rw [isFirst, isSecond]

theorem cells_congr
    {memory memory' : ℤ → α}
    {start start' : ℤ}
    {length : ℕ}
    (agree : ∀ i : ℕ, i < length → memory (start + i) = memory' (start' + i)) :
    cells memory start length = cells memory' start' length := by
  unfold cells
  apply List.map_congr_left
  intro i member
  exact agree i (List.mem_range.mp member)

/-! ## Moved ranges -/

/-- The cells of a range hold what lay `offset` places later before, and no
other cell has changed. -/
def Moves
    (low high offset : ℤ)
    (memory memory' : ℤ → α) : Prop :=
  ∀ address, memory' address =
    if low ≤ address ∧ address < high then memory (address + offset) else memory address

namespace Moves

variable {low high offset : ℤ} {memory memory' : ℤ → α}

section

variable (moves : Moves low high offset memory memory')

include moves

theorem outside
    (isOutside : address < low ∨ high ≤ address) :
    memory' address = memory address := by
  rw [moves, if_neg (by omega)]

/-- A part of the range that was written. -/
theorem cells_eq
    {length : ℕ}
    (after : low ≤ start)
    (before : start + length ≤ high)
    (isOrigin : start + offset = origin) :
    cells memory' start length = cells memory origin length := by
  apply cells_congr
  intro i inside
  rw [moves, if_pos (by omega), ← isOrigin, add_right_comm]

theorem cells_after
    (length : ℕ)
    (after : high ≤ start) :
    cells memory' start length = cells memory start length := by
  apply cells_congr
  intro i _
  exact moves.outside (.inr (by omega))

end

end Moves

/-! ## Loops -/

/-- Copy each cell from `offset` places later, `rounds` times from `current`
upwards. -/
def moveDown (offset : ℕ) : ℕ → ℤ → (ℤ → α) → (ℤ → α)
  | 0, _, memory => memory
  | rounds + 1, current, memory =>
      moveDown offset rounds (current + 1)
        (update memory current (memory (current + offset)))

/-- Copy each cell from `offset` places earlier, `rounds` times from `current`
downwards. -/
def moveUp (offset : ℕ) : ℕ → ℤ → (ℤ → α) → (ℤ → α)
  | 0, _, memory => memory
  | rounds + 1, current, memory =>
      moveUp offset rounds (current - 1)
        (update memory current (memory (current - offset)))

/-- Cells are read before they are written. -/
theorem moveDown_moves
    (offset rounds : ℕ)
    (current : ℤ)
    (memory : ℤ → α) :
    Moves current (current + rounds) offset memory
      (moveDown offset rounds current memory) := by
  intro address
  induction rounds generalizing current memory with
  | zero => rw [moveDown, if_neg (by omega)]
  | succ rounds ih =>
      rw [moveDown, ih]
      by_cases later : current + 1 ≤ address ∧ address < current + 1 + rounds
      · rw [if_pos later, if_pos (by omega), update_of_ne (by omega)]
      · rw [if_neg later]
        by_cases first : address = current
        · rw [first, update_self, if_pos (by omega)]
        · rw [update_of_ne first, if_neg (by omega)]

theorem moveUp_moves
    (offset rounds : ℕ)
    (current : ℤ)
    (memory : ℤ → α) :
    Moves (current + 1 - rounds) (current + 1) (-offset) memory
      (moveUp offset rounds current memory) := by
  intro address
  induction rounds generalizing current memory with
  | zero => rw [moveUp, if_neg (by omega)]
  | succ rounds ih =>
      rw [moveUp, ih]
      by_cases later : current - 1 + 1 - rounds ≤ address ∧ address < current - 1 + 1
      · rw [if_pos later, if_pos (by omega), update_of_ne (by omega)]
      · rw [if_neg later]
        by_cases first : address = current
        · rw [first, update_self, if_pos (by omega), sub_eq_add_neg]
        · rw [update_of_ne first, if_neg (by omega)]

end ByteMoves
