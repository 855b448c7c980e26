import Vigor.FlowTable.Lists
import Vigor.Library.Blocks
import Vigor.Vigpsd.Impl

/-!
# The ports map

One map over the cells of a flat vector, in which every slot has a block of
cells.  The map refers to the used cells of all blocks.  A key is added to a
slot in the next cell of its block, and the keys of a slot are erased together.
-/

namespace Vigor

open Function

namespace KeyedMap

variable {K : Type u} {build : Map.Build} {ops : Map.KeyOps K} {label : ℤ → ℤ}
  {keys : KeyedMap K} {cells : List ℤ}

theorem expireItemsSingleMapIteratively_eq
    (start nElems : ℤ)
    (keys : KeyedMap K) :
    keys.expireItemsSingleMapIteratively build ops start nElems =
      ((List.range (nElems - start).toNat).map fun round : ℕ =>
        start + round).foldl
        (fun keys cell => keys.erase build ops (.cell cell)) keys := by
  rw [expireItemsSingleMapIteratively, List.foldl_map]

@[simp] theorem vector_foldl_erase
    (erased : List ℤ)
    (keys : KeyedMap K) :
    (erased.foldl (fun keys cell => keys.erase build ops (.cell cell))
      keys).vector = keys.vector := by
  induction erased generalizing keys with
  | nil => rfl
  | cons cell erased ih => exact ih _

@[simp] theorem capacity_foldl_erase
    (erased : List ℤ)
    (keys : KeyedMap K) :
    (erased.foldl (fun keys cell => keys.erase build ops (.cell cell))
      keys).map.capacity = keys.map.capacity := by
  induction erased generalizing keys with
  | nil => rfl
  | cons cell erased ih => exact ih _

theorem size_foldl_erase
    {erased : List ℤ}
    (enough : erased.length ≤ keys.map.size)
    (bounded : keys.map.size < 2 ^ 32) :
    (erased.foldl (fun keys cell => keys.erase build ops (.cell cell))
      keys).map.size = keys.map.size - erased.length := by
  induction erased generalizing keys with
  | nil => rfl
  | cons cell erased ih =>
      rw [List.length_cons] at enough ⊢
      have shrunk : (keys.erase build ops (.cell cell)).map.size =
          keys.map.size - 1 := by
        change (keys.map.size + 2 ^ 32 - 1) % 2 ^ 32 = keys.map.size - 1
        omega
      rw [List.foldl_cons, ih (by omega) (by omega), shrunk]
      omega

/-! ## Slots -/

/-- The keys of all slots. -/
def contents
    (capacity : ℕ)
    (slot : ℤ → List K) : List K :=
  (List.range capacity).flatMap fun index : ℕ => slot index

theorem mem_contents
    {capacity : ℕ}
    {slot : ℤ → List K}
    {key : K} :
    key ∈ contents capacity slot ↔ ∃ index : ℤ,
      (0 ≤ index ∧ index < capacity) ∧ key ∈ slot index :=
  Blocks.mem_flatMap_range

variable {slot : ℤ → List K}

/-- The map and the vector hold the keys of the slots, each slot in its
block. -/
structure Stores
    [DecidableEq K]
    (build : Map.Build)
    (hash : K → ℕ)
    (width capacity : ℕ)
    (keys : KeyedMap K)
    (slot : ℤ → List K) : Prop where
  bounded : ∀ index, (slot index).length ≤ width
  /-- The map refers to the used cells of all blocks, by their offsets. -/
  lists : keys.Lists build (.ofHash hash) (fun cell => cell % width)
    (Blocks.cells width capacity fun index => (slot index).length)
  /-- The used cells of a block hold the keys of its slot. -/
  stored : ∀ index : ℤ, 0 ≤ index ∧ index < capacity →
    (Blocks.block width (fun index => (slot index).length) index).map keys.vector =
      slot index
  capacity_eq : keys.map.capacity = capacity * width

theorem length_update
    (slot : ℤ → List K)
    (index : ℤ)
    (keys : List K) :
    (fun other => (update slot index keys other).length) =
      update (fun other => (slot other).length) index keys.length := by
  funext other
  exact apply_update (fun _ => List.length) slot index keys other

section

variable (bounded : ∀ index, (slot index).length ≤ width)

include bounded

theorem length_update_le
    {keys : List K}
    (fits : keys.length ≤ width)
    (index other : ℤ) :
    (update slot index keys other).length ≤ width := by
  rw [update_apply]
  split
  · exact fits
  · exact bounded other

theorem length_contents_update
    {capacity : ℕ}
    {index : ℤ}
    (inside : 0 ≤ index ∧ index < capacity)
    {keys : List K}
    (fits : keys.length ≤ width) :
    (contents capacity (update slot index keys)).length +
        (slot index).length =
          (contents capacity slot).length + keys.length := by
  have counted (slot : ℤ → List K) : (contents capacity slot).length =
      (Blocks.cells width capacity fun index => (slot index).length).length :=
    (Blocks.length_cells slot).symm
  rw [counted, counted, length_update]
  exact Blocks.length_cells_update bounded inside fits

theorem length_contents_add_le
    {capacity : ℕ}
    {less : ℤ → List K}
    (fewer : ∀ index, (less index).length ≤ (slot index).length)
    {index : ℤ}
    (inside : 0 ≤ index ∧ index < capacity)
    (empty : less index = []) :
    (contents capacity less).length + (slot index).length ≤
      (contents capacity slot).length := by
  have emptied := length_contents_update bounded inside
    (show ([] : List K).length ≤ width from Nat.zero_le _)
  have le : (contents capacity less).length ≤
      (contents capacity (update slot index [])).length := by
    simp only [contents, List.length_flatMap]
    refine List.sum_le_sum fun other _ => ?_
    rw [update_apply]
    split_ifs with same
    · simp [same, empty]
    · exact fewer other
  rw [List.length_nil] at emptied
  omega

end

namespace Stores

variable [DecidableEq K] {hash : K → ℕ} {width capacity : ℕ} {slot : ℤ → List K}
  {index : ℤ}

section

variable (stores : keys.Stores build hash width capacity slot)

include stores

theorem contents_eq :
    contents capacity slot =
      (Blocks.cells width capacity fun index => (slot index).length).map
        keys.vector :=
  (Blocks.map_cells stores.stored).symm

theorem nodup_contents :
    (contents capacity slot).Nodup := by
  rw [stores.contents_eq]
  refine (Blocks.nodup_cells stores.bounded).map_on fun cell listed other otherListed same => ?_
  exact stores.lists.refers.cell_unique listed otherListed (decide_eq_true same)

theorem size_eq :
    keys.map.size = (contents capacity slot).length := by
  rw [stores.contents_eq, List.length_map]
  exact stores.lists.refers.size_eq

theorem get_eq_none_iff :
    keys.get build (.ofHash hash) (.own key) = none ↔
      key ∉ contents capacity slot := by
  rw [KeyedMap.get, stores.lists.refers.mapGet_eq_none_iff, stores.contents_eq, List.mem_map]
  constructor
  · rintro different ⟨cell, listed, same⟩
    exact of_decide_eq_false (different cell listed) same
  · intro absent cell listed
    exact decide_eq_false fun same => absent ⟨cell, listed, same⟩

theorem clear
    (inside : 0 ≤ index ∧ index < capacity) :
    ((Blocks.block width (fun index => (slot index).length) index).foldl
      (fun keys cell => keys.erase build (.ofHash hash) (.cell cell))
        keys).Stores build hash width capacity (update slot index []) := by
  have permuted := Blocks.perm_clear stores.bounded inside
  refine ⟨length_update_le stores.bounded (Nat.zero_le _) index, ?_,
    fun other otherInside => ?_, ?_⟩
  · rw [length_update]
    exact (stores.lists.of_perm permuted.symm).foldl_erase
      (permuted.nodup_iff.mp (Blocks.nodup_cells stores.bounded))
  · rw [length_update, vector_foldl_erase]
    by_cases same : other = index
    · rw [same, update_self]
      simp
    · rw [Blocks.block_update_of_ne same, update_of_ne same]
      exact stores.stored other otherInside
  · rw [capacity_foldl_erase]
    exact stores.capacity_eq

theorem push
    (inside : 0 ≤ index ∧ index < capacity)
    (room : (slot index).length < width)
    (absent : key ∉ contents capacity slot) :
    ((keys.write (width * index + ((slot index).length : ℤ)) key).put build
      (.ofHash hash) (.cell (width * index + ((slot index).length : ℤ)))
        (slot index).length).Stores build hash width capacity
          (update slot index (slot index ++ [key])) := by
  have grown : (slot index ++ [key]).length = (slot index).length + 1 := by simp
  have unused : (width * index + ((slot index).length : ℤ)) ∉
      Blocks.cells width capacity fun index => (slot index).length :=
    Blocks.next_not_mem stores.bounded room
  have unlabelled : (width * index + ((slot index).length : ℤ)) % width =
      (slot index).length := by
    rw [Int.mul_add_emod_self_left]
    exact Int.emod_eq_of_lt (by omega) (by exact_mod_cast room)
  have kept : ∀ other : ℤ, 0 ≤ other ∧ other < capacity →
      (Blocks.block width (fun index => (slot index).length) other).map
        (update keys.vector (width * index + ((slot index).length : ℤ)) key) =
          slot other := by
    intro other otherInside
    refine Eq.trans (List.map_congr_left fun cell inBlock => ?_) (stores.stored other otherInside)
    refine update_of_ne ?_ ..
    rintro rfl
    exact unused (Blocks.mem_cells.mpr ⟨other, otherInside, inBlock⟩)
  refine ⟨length_update_le stores.bounded (by omega) index, ?_,
    fun other otherInside => ?_, stores.capacity_eq⟩
  · rw [length_update, grown]
    refine KeyedMap.Lists.of_perm ?_ (Blocks.perm_push stores.bounded inside room)
    have put := stores.lists.write_put unused key (fun cell listed => ?_) ?_
    · rw [unlabelled] at put
      exact put
    · refine decide_eq_false fun same => absent ?_
      rw [stores.contents_eq]
      exact List.mem_map.mpr ⟨cell, listed, same⟩
    · rw [stores.capacity_eq, Nat.mul_comm]
      exact Blocks.length_cells_lt stores.bounded inside room
  · rw [length_update, grown]
    by_cases same : other = index
    · rw [same, Blocks.block_push, List.map_append, update_self]
      exact congrArg₂ (· ++ ·) (kept index inside)
        (congrArg (fun key => [key]) (update_self ..))
    · rw [Blocks.block_update_of_ne same, update_of_ne same]
      exact kept other otherInside

end

end Stores

end KeyedMap
end Vigor
