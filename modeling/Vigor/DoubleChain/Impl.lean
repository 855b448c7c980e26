import Vigor.Library.LinkedRing
import Mathlib.Data.Int.Basic

/-!
# The cell array of the double chain

`double-chain-impl.c` threads two lists through one array of cells: the ring
of allocated indexes behind cell 0 and the stack of free indexes behind cell
1.  Index `i` lives in cell `i + 2`.  An index is known to be free only by the
equality of its two links.

The array is modelled as a table over all integers, as `cells + i` reads
memory for any `i`.  A function that reports an index through an out parameter
returns `some index` for the return code 1 and `none` for 0; the other return
codes are Booleans.
-/

namespace Vigor
namespace DoubleChain

open LinkedRing

/-- The memory behind a `struct dchain_cell` pointer. -/
abbrev Cells := Links ℤ

/-- Cell at the head of the ring of allocated indexes. -/
@[simp, reducible] def allocListHead : ℤ := 0

/-- Cell at the head of the stack of free indexes. -/
@[simp, reducible] def freeListHead : ℤ := 1

/-- Number of reserved cells, hence the cell of index 0. -/
@[simp, reducible] def indexShift : ℤ := 2

/-- The `while` loop of `dchain_impl_init`, with the number of its rounds. -/
def dchainImplInitLoop : Nat → Cells → ℤ → Cells × ℤ
  | 0, cells, i => (cells, i)
  | rounds + 1, cells, i =>
      let cells := cells.setNext i (i + 1)
      let cells := cells.setPrev i (cells i).next
      dchainImplInitLoop rounds cells (i + 1)

/-- Empty ring, and a stack of all cells in increasing order. -/
def dchainImplInit
    (cells : Cells)
    (size : ℤ) : Cells :=
  let cells := cells.setPrev allocListHead 0
  let cells := cells.setNext allocListHead 0
  let i := indexShift
  let cells := cells.setNext freeListHead i
  let cells := cells.setPrev freeListHead (cells freeListHead).next
  let (cells, i) :=
    dchainImplInitLoop (size + indexShift - 1 - i).toNat cells i
  let cells := cells.setNext i freeListHead
  cells.setPrev i (cells i).next

/-- Move the top of the free stack to the end of the ring. -/
def dchainImplAllocateNewIndex (cells : Cells) : Option ℤ × Cells :=
  let allocated := (cells freeListHead).next
  if allocated = freeListHead then (none, cells)
  else
    -- Extract the link from the "empty" chain.
    let cells := cells.setNext freeListHead (cells allocated).next
    let cells := cells.setPrev freeListHead (cells freeListHead).next
    -- Add the link to the "new"-end "alloc" chain.
    let cells := cells.setNext allocated allocListHead
    let cells := cells.setPrev allocated (cells allocListHead).prev
    let cells := cells.setNext (cells allocListHead).prev allocated
    let cells := cells.setPrev allocListHead allocated
    (some (allocated - indexShift), cells)

/-- Take an allocated index out of the ring and push it on the free stack. -/
def dchainImplFreeIndex
    (cells : Cells)
    (index : ℤ) : Bool × Cells :=
  let freed := index + indexShift
  let freedPrev := (cells freed).prev
  let freedNext := (cells freed).next
  -- The index is already free.
  if freedNext = freedPrev ∧ freedPrev ≠ allocListHead then (false, cells)
  else
    -- Extract the link from the "alloc" chain.
    let cells := cells.setNext freedPrev freedNext
    let cells := cells.setPrev freedNext freedPrev
    -- Add the link to the "free" chain.
    let cells := cells.setNext freed (cells freeListHead).next
    let cells := cells.setPrev freed (cells freed).next
    let cells := cells.setNext freeListHead freed
    let cells := cells.setPrev freeListHead (cells freeListHead).next
    (true, cells)

/-- The first index of the ring. -/
def dchainImplGetOldestIndex (cells : Cells) : Option ℤ :=
  -- No allocated indexes.
  if (cells allocListHead).next = allocListHead then none
  else some ((cells allocListHead).next - indexShift)

/-- Move an allocated index to the end of the ring. -/
def dchainImplRejuvenateIndex
    (cells : Cells)
    (index : ℤ) : Bool × Cells :=
  let lifted := index + indexShift
  let liftedNext := (cells lifted).next
  let liftedPrev := (cells lifted).prev
  if liftedNext = liftedPrev then
    -- The index is not allocated, or it is the only one.
    if liftedNext ≠ allocListHead then (false, cells) else (true, cells)
  else
    -- Unlink it from the middle of the "alloc" chain.
    let cells := cells.setNext liftedPrev liftedNext
    let cells := cells.setPrev liftedNext liftedPrev
    let alHeadPrev := (cells allocListHead).prev
    -- Link it at the very end - right before the special link.
    let cells := cells.setNext lifted allocListHead
    let cells := cells.setPrev lifted alHeadPrev
    let cells := cells.setNext alHeadPrev lifted
    let cells := cells.setPrev allocListHead lifted
    (true, cells)

/-- Free cells have equal links that do not lead to the ring head. -/
def dchainImplIsIndexAllocated
    (cells : Cells)
    (index : ℤ) : Bool :=
  let lifted := index + indexShift
  let liftedNext := (cells lifted).next
  let liftedPrev := (cells lifted).prev
  if liftedNext = liftedPrev then
    if liftedNext ≠ allocListHead then false else true
  else true

/-! ## The abstract allocator -/

/-- What the cells are for: every index of the range is either allocated, in
order of age, or free, in order of reuse. -/
structure Allocator (range : Nat) where
  /-- Allocated indexes, oldest first. -/
  alloc : List ℤ
  /-- Free indexes, next to be allocated first. -/
  free : List ℤ
  /-- No index occurs twice. -/
  nodup : (alloc ++ free).Nodup
  /-- Exactly the indexes of the range occur. -/
  covers : ∀ index, index ∈ alloc ++ free ↔ 0 ≤ index ∧ index < range

namespace Allocator

variable {range : Nat}

@[ext] theorem ext
    {first second : Allocator range}
    (sameAlloc : first.alloc = second.alloc)
    (sameFree : first.free = second.free) :
    first = second := by
  cases first
  cases second
  simp_all

variable {index : ℤ}

section

variable (allocator : Allocator range)

theorem not_mem_free
    (allocated : index ∈ allocator.alloc) :
    index ∉ allocator.free := by
  intro free
  exact (List.nodup_append.mp allocator.nodup).2.2 index allocated index free rfl

theorem mem_alloc_or_mem_free
    (nonnegative : 0 ≤ index)
    (bounded : index < range) :
    index ∈ allocator.alloc ∨ index ∈ allocator.free :=
  List.mem_append.mp ((allocator.covers index).mpr ⟨nonnegative, bounded⟩)

theorem inRange_of_mem_alloc
    (allocated : index ∈ allocator.alloc) :
    0 ≤ index ∧ index < range :=
  (allocator.covers index).mp (List.mem_append_left _ allocated)

theorem inRange_of_mem_free
    (free : index ∈ allocator.free) :
    0 ≤ index ∧ index < range :=
  (allocator.covers index).mp (List.mem_append_right _ free)

theorem length_add_length :
    allocator.alloc.length + allocator.free.length = range := by
  have permuted : (allocator.alloc ++ allocator.free).Perm
      ((List.range range).map Int.ofNat) := by
    rw [List.perm_ext_iff_of_nodup allocator.nodup (List.nodup_range.map Int.ofNat_injective)]
    intro index
    rw [allocator.covers]
    simp only [List.mem_map, List.mem_range]
    constructor
    · intro inside
      exact ⟨index.toNat, by omega, Int.toNat_of_nonneg inside.1⟩
    · intro natural
      obtain ⟨value, bound, same⟩ := natural
      subst same
      simpa using bound
  simpa using permuted.length_eq

end

/-- Everything is free, in increasing order. -/
def initial (range : Nat) : Allocator range where
  alloc := []
  free := (List.range range).map Int.ofNat
  nodup := by
    simpa using List.nodup_range.map Int.ofNat_injective
  covers index := by
    simp only [List.nil_append, List.mem_map, List.mem_range]
    constructor
    · rintro ⟨natural, bound, rfl⟩
      simpa using bound
    · rintro ⟨nonnegative, bound⟩
      exact ⟨index.toNat, by omega, Int.toNat_of_nonneg nonnegative⟩

/-- Hand out the first free index, or nothing when there is none. -/
def allocateNewIndex (allocator : Allocator range) :
    Option ℤ × Allocator range :=
  match shape : allocator.free with
  | [] => (none, allocator)
  | index :: rest =>
      (some index,
        { alloc := allocator.alloc ++ [index]
          free := rest
          nodup := by simpa [shape] using allocator.nodup
          covers := by simpa [shape] using allocator.covers })

/-- Free an index if it is allocated. -/
def freeIndex
    (allocator : Allocator range)
    (index : ℤ) :
    Bool × Allocator range :=
  if allocated : index ∈ allocator.alloc then
    (true,
      { alloc := allocator.alloc.erase index
        free := index :: allocator.free
        nodup := by
          refine (List.Perm.nodup_iff ?_).mp allocator.nodup
          exact ((List.perm_cons_erase allocated).append_right _).trans
            List.perm_middle.symm
        covers other := by
          rw [← allocator.covers other]
          refine List.Perm.mem_iff ?_
          exact (((List.perm_cons_erase allocated).append_right _).trans
            List.perm_middle.symm).symm })
  else (false, allocator)

/-- Make an index the youngest one if it is allocated. -/
def rejuvenateIndex
    (allocator : Allocator range)
    (index : ℤ) :
    Bool × Allocator range :=
  if allocated : index ∈ allocator.alloc then
    (true,
      { alloc := allocator.alloc.erase index ++ [index]
        free := allocator.free
        nodup := by
          refine (List.Perm.nodup_iff ?_).mp allocator.nodup
          refine List.Perm.append_right _ ?_
          exact (List.perm_cons_erase allocated).trans
            (List.perm_append_singleton index _).symm
        covers other := by
          rw [← allocator.covers other]
          refine List.Perm.mem_iff (List.Perm.append_right _ ?_)
          exact ((List.perm_cons_erase allocated).trans
            (List.perm_append_singleton index _).symm).symm })
  else (false, allocator)

/-- The index that was allocated or rejuvenated the longest ago. -/
def getOldestIndex (allocator : Allocator range) : Option ℤ :=
  allocator.alloc.head?

/-- Whether an index is allocated. -/
def isIndexAllocated
    (allocator : Allocator range)
    (index : ℤ) : Bool :=
  index ∈ allocator.alloc

theorem allocateNewIndex_of_nil
    {allocator : Allocator range}
    (full : allocator.free = []) :
    allocator.allocateNewIndex = (none, allocator) := by
  unfold allocateNewIndex
  split
  · rfl
  · rename_i shape
    simp [full] at shape

theorem allocateNewIndex_of_cons
    {allocator : Allocator range}
    (available : allocator.free = index :: rest) :
    allocator.allocateNewIndex.1 = some index ∧
      allocator.allocateNewIndex.2.alloc = allocator.alloc ++ [index] ∧
      allocator.allocateNewIndex.2.free = rest := by
  unfold allocateNewIndex
  split
  · rename_i shape
    simp [available] at shape
  · rename_i first others shape
    rw [available] at shape
    obtain ⟨rfl, rfl⟩ := List.cons.inj shape
    simp

end Allocator

end DoubleChain
end Vigor
