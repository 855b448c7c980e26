import Mathlib.Data.List.Nodup
import Mathlib.Data.List.Range

/-!
# Filling the rows of a flat array

Rows of equal width lie one after the other in an array.  Each item goes to the
next free cell of its row.  A slot is a row and a rank in it.
-/

namespace Vigor
namespace RowFill

open Function

variable {α : Type u}

/-- The number of filled cells of each row, and the cells of all rows. -/
structure Rows (α : Type u) where
  next : ℕ → ℕ
  cells : ℕ → α

/-- Put an item into the next cell of a row. -/
def place
    (width : ℕ)
    (rows : Rows α)
    (placement : ℕ × α) : Rows α :=
  let rank := rows.next placement.1
  { next := update rows.next placement.1 (rank + 1)
    cells := update rows.cells (width * placement.1 + rank) placement.2 }

theorem next_place
    (width : ℕ)
    (rows : Rows α)
    (placement : ℕ × α) :
    (place width rows placement).next =
      update rows.next placement.1 (rows.next placement.1 + 1) :=
  rfl

theorem cells_place
    (width : ℕ)
    (rows : Rows α)
    (placement : ℕ × α) :
    (place width rows placement).cells =
      update rows.cells (width * placement.1 + rows.next placement.1)
        placement.2 :=
  rfl

/-- Put items into rows, one after the other. -/
def fill
    (width : ℕ)
    (placements : List (ℕ × α))
    (rows : Rows α) : Rows α :=
  placements.foldl (place width) rows

/-- The items for a row. -/
def items
    (row : ℕ)
    (placements : List (ℕ × α)) : List α :=
  (placements.filter fun placement => placement.1 = row).map Prod.snd

/-- The slots that are written, in order. -/
def slots (next : ℕ → ℕ) : List (ℕ × α) → List (ℕ × ℕ)
  | [] => []
  | placement :: placements =>
      (placement.1, next placement.1) ::
        slots (update next placement.1 (next placement.1 + 1)) placements

@[simp] theorem items_nil (row : ℕ) : items row ([] : List (ℕ × α)) = [] :=
  rfl

theorem items_cons
    (row : ℕ)
    (placement : ℕ × α)
    (placements : List (ℕ × α)) :
    items row (placement :: placements) =
      if placement.1 = row then placement.2 :: items row placements
      else items row placements := by
  unfold items
  rw [List.filter_cons]
  by_cases same : placement.1 = row <;> simp [same]

theorem items_append
    (row : ℕ)
    (placements others : List (ℕ × α)) :
    items row (placements ++ others) =
      items row placements ++ items row others := by
  simp [items]

theorem length_items_cons
    (row : ℕ)
    (placement : ℕ × α)
    (placements : List (ℕ × α)) :
    (items row (placement :: placements)).length =
      (if placement.1 = row then 1 else 0) + (items row placements).length := by
  rw [items_cons]
  split
  · rw [List.length_cons, Nat.add_comm]
  · rw [Nat.zero_add]

/-! ## Slots -/

variable {next : ℕ → ℕ} {placements : List (ℕ × α)}

/-- The slots of a row have consecutive ranks. -/
theorem mem_slots {row rank : ℕ} :
    (row, rank) ∈ slots next placements ↔
      next row ≤ rank ∧ rank < next row + (items row placements).length := by
  induction placements generalizing next with
  | nil =>
      simp only [slots, List.not_mem_nil, items_nil, List.length_nil, false_iff]
      omega
  | cons placement placements ih =>
      rw [slots, List.mem_cons, ih, length_items_cons, Prod.mk.injEq, update_apply]
      by_cases same : row = placement.1
      · subst same
        simp only [true_and, ↓reduceIte]
        omega
      · simp only [same, Ne.symm same, false_and, false_or, ↓reduceIte]
        omega

theorem nodup_slots : (slots next placements).Nodup := by
  induction placements generalizing next with
  | nil => exact List.nodup_nil
  | cons placement placements ih =>
      refine List.nodup_cons.mpr ⟨?_, ih⟩
      rw [mem_slots, update_self]
      omega

/-! ## Cells -/

theorem next_fill
    (width row : ℕ)
    (placements : List (ℕ × α))
    (rows : Rows α) :
    (fill width placements rows).next row =
      rows.next row + (items row placements).length := by
  induction placements generalizing rows with
  | nil => rfl
  | cons placement placements ih =>
      change (fill width placements (place width rows placement)).next row = _
      rw [ih, length_items_cons, next_place, update_apply]
      by_cases same : row = placement.1
      · subst same
        simp only [↓reduceIte]
        omega
      · simp [same, Ne.symm same]

theorem slot_unique
    {width row rank otherRow otherRank : ℕ}
    (inside : rank < width)
    (otherInside : otherRank < width)
    (same : width * row + rank = width * otherRow + otherRank) :
    row = otherRow ∧ rank = otherRank := by
  have positive : 0 < width := Nat.zero_lt_of_lt inside
  have rows := congrArg (· / width) same
  have ranks := congrArg (· % width) same
  simp only [Nat.mul_add_div positive, Nat.div_eq_of_lt inside,
    Nat.div_eq_of_lt otherInside, Nat.add_zero] at rows
  simp only [Nat.mul_add_mod, Nat.mod_eq_of_lt inside, Nat.mod_eq_of_lt otherInside] at ranks
  exact ⟨rows, ranks⟩

theorem cells_fill
    (fits : ∀ row, (items row placements).length ≤ width)
    (cells : ℕ → α)
    (held : (items row placements)[rank]? = some item) :
    (fill width placements { next := fun _ => 0, cells := cells }).cells
      (width * row + rank) = item := by
  induction placements using List.reverseRecOn generalizing row rank item with
  | nil => simp at held
  | append_singleton placements placement ih =>
      have shorter (row : ℕ) : (items row placements).length ≤ width := by
        refine le_trans ?_ (fits row)
        rw [items_append, List.length_append]
        exact Nat.le_add_right ..
      have room : (items placement.1 placements).length < width := by
        refine lt_of_lt_of_le ?_ (fits placement.1)
        rw [items_append, List.length_append, items_cons, if_pos rfl]
        simp
      rw [fill, List.foldl_append, List.foldl_cons, List.foldl_nil]
      change (place width (fill width placements _) placement).cells _ = _
      rw [cells_place, next_fill, Nat.zero_add, update_apply]
      have small : rank < width := lt_of_lt_of_le (List.getElem?_eq_some_iff.mp held).1 (fits row)
      rw [items_append, items_cons] at held
      split
      · -- The cell is the one of the last item.
        rename_i sameCell
        obtain ⟨rfl, rfl⟩ := slot_unique small room sameCell
        simpa using held
      · rename_i otherCell
        refine ih shorter ?_
        by_cases same : placement.1 = row
        · subst same
          rw [List.getElem?_append] at held
          split at held
          · exact held
          · rename_i beyond
            have notLast : rank ≠ (items placement.1 placements).length :=
              fun last => otherCell (by rw [last])
            have positive : rank - (items placement.1 placements).length ≠ 0 := by
              omega
            obtain ⟨before, isSucc⟩ := Nat.exists_eq_succ_of_ne_zero positive
            simp [isSucc] at held
        · simpa [same] using held

theorem row_fill
    (fits : ∀ row, (items row placements).length ≤ width)
    (cells : ℕ → α)
    (full : (items row placements).length = width) :
    ((List.range width).map fun rank =>
      (fill width placements { next := fun _ => 0, cells := cells }).cells
        (width * row + rank)) = items row placements := by
  refine List.ext_getElem (by simp [full]) fun rank inside inItems => ?_
  rw [List.getElem_map, List.getElem_range]
  exact cells_fill fits cells (List.getElem?_eq_getElem inItems)

theorem perm_slots
    {width height : ℕ}
    (inside : ∀ placement ∈ placements, placement.1 < height)
    (full : ∀ row < height, (items row placements).length = width) :
    ((slots (fun _ => 0) placements).map fun slot =>
      width * slot.1 + slot.2).Perm (List.range (height * width)) := by
  have bounds {row rank : ℕ} (member : (row, rank) ∈ slots (fun _ => 0) placements) :
      row < height ∧ rank < width := by
    obtain ⟨_, counted⟩ := mem_slots.mp member
    have nonempty : items row placements ≠ [] := by
      rintro empty
      simp [empty] at counted
    obtain ⟨item, held⟩ := List.exists_mem_of_ne_nil _ nonempty
    obtain ⟨placement, kept, _⟩ := List.mem_map.mp held
    obtain ⟨placed, isRow⟩ := List.mem_filter.mp kept
    have small : row < height := of_decide_eq_true isRow ▸ inside placement placed
    rw [full row small] at counted
    exact ⟨small, by omega⟩
  refine (List.perm_ext_iff_of_nodup ?_ List.nodup_range).mpr fun cell => ?_
  · refine nodup_slots.map_on fun slot member other otherMember same => ?_
    obtain ⟨sameRow, sameRank⟩ := slot_unique (bounds member).2 (bounds otherMember).2 same
    exact Prod.ext sameRow sameRank
  · rw [List.mem_map, List.mem_range]
    constructor
    · rintro ⟨⟨row, rank⟩, member, rfl⟩
      obtain ⟨rowSmall, rankSmall⟩ := bounds member
      calc width * row + rank < width * row + width := Nat.add_lt_add_left rankSmall _
        _ = width * (row + 1) := (Nat.mul_succ ..).symm
        _ ≤ width * height := Nat.mul_le_mul_left _ rowSmall
        _ = height * width := Nat.mul_comm ..
    · intro small
      have positive : 0 < width := by
        rcases Nat.eq_zero_or_pos width with rfl | positive
        · simp at small
        · exact positive
      have rowSmall : cell / width < height := Nat.div_lt_of_lt_mul (by
        rwa [Nat.mul_comm])
      refine ⟨(cell / width, cell % width), mem_slots.mpr ⟨Nat.zero_le _, ?_⟩, Nat.div_add_mod ..⟩
      rw [full _ rowSmall, Nat.zero_add]
      exact Nat.mod_lt _ positive

end RowFill
end Vigor
