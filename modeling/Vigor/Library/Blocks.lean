import Mathlib.Data.List.Nodup
import Mathlib.Data.List.Range
import Mathlib.Tactic.Linarith

/-!
# Blocks of cells in one array

An array of `width * count` cells is cut into blocks of equal width.  Each block
is a list that grows from its first cell.  Of a block, the cells below its
length are in use.
-/

namespace Blocks

open Function

variable {width count : ℕ} {used : ℤ → ℕ}

theorem mem_flatMap_range
    {α : Type*}
    {count : ℕ}
    {list : ℤ → List α}
    {a : α} :
    a ∈ ((List.range count).flatMap fun index : ℕ => list index) ↔
      ∃ index : ℤ, (0 ≤ index ∧ index < count) ∧ a ∈ list index := by
  simp only [List.mem_flatMap, List.mem_range]
  constructor
  · rintro ⟨index, inside, member⟩
    exact ⟨index, ⟨by omega, by omega⟩, member⟩
  · rintro ⟨index, ⟨nonnegative, inside⟩, member⟩
    refine ⟨index.toNat, by omega, ?_⟩
    rwa [Int.toNat_of_nonneg nonnegative]

/-- The cells of a block that are in use. -/
def block
    (width : ℕ)
    (used : ℤ → ℕ)
    (index : ℤ) : List ℤ :=
  (List.range (used index)).map fun offset : ℕ => width * index + (offset : ℤ)

/-- The cells in use of all blocks. -/
def cells
    (width count : ℕ)
    (used : ℤ → ℕ) : List ℤ :=
  (List.range count).flatMap fun index : ℕ => block width used index

theorem mem_block {index cell : ℤ} :
    cell ∈ block width used index ↔
      ∃ offset : ℕ, offset < used index ∧ cell = width * index + offset := by
  simp only [block, List.mem_map, List.mem_range, eq_comm]

theorem mem_cells {cell : ℤ} :
    cell ∈ cells width count used ↔
      ∃ index : ℤ, (0 ≤ index ∧ index < count) ∧
        cell ∈ block width used index :=
  mem_flatMap_range

/-- A position determines its block and its offset. -/
theorem position_inj
    (inside : offset < width)
    (otherInside : otherOffset < width)
    (same : (width : ℤ) * index + offset = width * other + otherOffset) :
    index = other ∧ offset = otherOffset := by
  have blocks : index = other := by
    rcases lt_trichotomy index other with less | equal | greater
    · nlinarith
    · exact equal
    · nlinarith
  subst blocks
  exact ⟨rfl, by omega⟩

section Bounded

variable (bounded : ∀ index, used index ≤ width)

include bounded

theorem index_unique
    (member : cell ∈ block width used index)
    (otherMember : cell ∈ block width used other) :
    index = other := by
  obtain ⟨offset, inUse, rfl⟩ := mem_block.mp member
  obtain ⟨otherOffset, otherInUse, same⟩ := mem_block.mp otherMember
  exact (position_inj (inUse.trans_le (bounded index)) (otherInUse.trans_le (bounded other)) same).1

omit bounded in
theorem nodup_block (index : ℤ) : (block width used index).Nodup := by
  refine (List.nodup_range).map fun offset other same => ?_
  simpa using same

theorem nodup_cells : (cells width count used).Nodup := by
  refine List.nodup_flatMap.mpr ⟨fun index _ => nodup_block _, ?_⟩
  refine List.nodup_range.imp fun {index other} different => ?_
  intro cell member otherMember
  exact different (by exact_mod_cast index_unique bounded member otherMember)

end Bounded

/-! ## Growing and clearing a block -/

variable {index : ℤ}

theorem bounded_update
    (bounded : ∀ index, used index ≤ width)
    (fits : length ≤ width)
    (other : ℤ) :
    update used index length other ≤ width := by
  rw [update_apply]
  split
  · exact fits
  · exact bounded other

theorem block_update_of_ne
    (different : other ≠ index)
    (length : ℕ) :
    block width (update used index length) other = block width used other := by
  rw [block, update_of_ne different, block]

theorem block_push :
    block width (update used index (used index + 1)) index =
      block width used index ++ [width * index + (used index : ℤ)] := by
  rw [block, update_self, List.range_succ, List.map_append]
  rfl

@[simp] theorem block_clear :
    block width (update used index 0) index = [] := by
  rw [block, update_self]
  rfl

section Updates

variable (bounded : ∀ index, used index ≤ width)
  (inside : 0 ≤ index ∧ index < count)

include bounded inside

omit inside in
theorem next_not_mem (room : used index < width) :
    (width * index + (used index : ℤ)) ∉ cells width count used := by
  intro member
  obtain ⟨other, _, inOther⟩ := mem_cells.mp member
  obtain ⟨offset, inUse, same⟩ := mem_block.mp inOther
  obtain ⟨rfl, isOffset⟩ := position_inj room (inUse.trans_le (bounded other)) same
  omega

theorem perm_push (room : used index < width) :
    (cells width count (update used index (used index + 1))).Perm
      (cells width count used ++ [width * index + (used index : ℤ)]) := by
  refine (List.perm_ext_iff_of_nodup
    (nodup_cells (bounded_update bounded room))
    ((nodup_cells bounded).append (List.nodup_singleton _)
      (by simpa using next_not_mem bounded room))).mpr fun cell => ?_
  rw [List.mem_append, mem_cells, mem_cells]
  constructor
  · rintro ⟨other, otherInside, member⟩
    by_cases same : other = index
    · rw [same, block_push, List.mem_append] at member
      exact member.imp_left fun old => ⟨index, inside, old⟩
    · rw [block_update_of_ne same] at member
      exact .inl ⟨other, otherInside, member⟩
  · rintro (⟨other, otherInside, member⟩ | isLast)
    · refine ⟨other, otherInside, ?_⟩
      by_cases same : other = index
      · rw [same, block_push]
        exact List.mem_append_left _ (same ▸ member)
      · rwa [block_update_of_ne same]
    · refine ⟨index, inside, ?_⟩
      rw [block_push]
      exact List.mem_append_right _ isLast

theorem perm_clear :
    (cells width count used).Perm
      (cells width count (update used index 0) ++ block width used index) := by
  refine (List.perm_ext_iff_of_nodup (nodup_cells bounded)
    ((nodup_cells (bounded_update bounded (Nat.zero_le _))).append
      (nodup_block index) ?_)).mpr fun cell => ?_
  · intro cell member inBlock
    obtain ⟨other, _, inOther⟩ := mem_cells.mp member
    by_cases same : other = index
    · rw [same, block_clear] at inOther
      cases inOther
    · rw [block_update_of_ne same] at inOther
      exact same (index_unique bounded inOther inBlock)
  · rw [List.mem_append, mem_cells, mem_cells]
    constructor
    · rintro ⟨other, otherInside, member⟩
      by_cases same : other = index
      · exact .inr (same ▸ member)
      · exact .inl ⟨other, otherInside, by rwa [block_update_of_ne same]⟩
    · rintro (⟨other, otherInside, member⟩ | inBlock)
      · by_cases same : other = index
        · rw [same, block_clear] at member
          cases member
        · rw [block_update_of_ne same] at member
          exact ⟨other, otherInside, member⟩
      · exact ⟨index, inside, inBlock⟩

end Updates

/-! ## Counting -/

section

variable (bounded : ∀ index, used index ≤ width)

include bounded

theorem length_cells_le :
    (cells width count used).length ≤ width * count := by
  induction count with
  | zero => simp [cells]
  | succ count ih =>
      have last := bounded count
      rw [cells, List.range_succ, List.flatMap_append, List.length_append]
      change (cells width count used).length + _ ≤ _
      simp only [List.flatMap_cons, List.flatMap_nil, List.append_nil, block,
        List.length_map, List.length_range]
      rw [Nat.mul_succ]
      omega

theorem length_cells_lt
    (inside : 0 ≤ index ∧ index < count)
    (room : used index < width) :
    (cells width count used).length < width * count := by
  have grown := (perm_push bounded inside room).length_eq
  have most : (cells width count
      (update used index (used index + 1))).length ≤ width * count :=
    length_cells_le (bounded_update bounded (Nat.succ_le_of_lt room))
  rw [grown, List.length_append, List.length_singleton] at most
  omega

theorem length_cells_update
    (inside : 0 ≤ index ∧ index < count)
    (fits : length ≤ width) :
    (cells width count (update used index length)).length + used index =
      (cells width count used).length + length := by
  have stillBounded : ∀ other, update used index length other ≤ width :=
    bounded_update bounded fits
  have before := (perm_clear bounded inside).length_eq
  have after := (perm_clear stillBounded inside).length_eq
  rw [update_idem] at after
  simp only [List.length_append, block, List.length_map, List.length_range,
    update_self] at before after
  omega

end

/-! ## Contents -/

theorem length_cells (content : ℤ → List α) :
    (cells width count fun index => (content index).length).length =
      ((List.range count).flatMap fun index : ℕ => content index).length := by
  simp [cells, block, List.length_flatMap]

theorem map_cells
    {content : ℤ → List α}
    (stored : ∀ index : ℤ, 0 ≤ index ∧ index < count →
      (block width (fun index => (content index).length) index).map vector =
        content index) :
    (cells width count fun index => (content index).length).map vector =
      (List.range count).flatMap fun index : ℕ => content index := by
  rw [cells, List.map_flatMap]
  refine List.flatMap_congr fun index member => ?_
  exact stored index ⟨by omega, by exact_mod_cast List.mem_range.mp member⟩

end Blocks
