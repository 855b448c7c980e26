import Vigor.DoubleChain.Impl

/-!
# The cells encode the abstract allocator

The invariant of the cell array: the ring behind cell 0 visits the allocated
indexes in order and the stack behind cell 1 visits the free ones.  Every
operation of the code keeps it and does to the lists what the abstract
operation does.
-/

namespace Vigor
namespace DoubleChain

open LinkedRing

namespace Allocator

variable {range : Nat}

/-- Cells of the allocated indexes, in ring order. -/
def ringCells (allocator : Allocator range) : List ℤ :=
  allocator.alloc.map (· + indexShift)

/-- Cells of the free indexes, in stack order. -/
def stackCells (allocator : Allocator range) : List ℤ :=
  allocator.free.map (· + indexShift)

theorem shift_mem_iff
    {index : ℤ}
    {indexes : List ℤ} :
    index + indexShift ∈ indexes.map (· + indexShift) ↔ index ∈ indexes := by
  simp

/-- Neither a free cell nor the stack head is on the ring. -/
theorem not_mem_ring
    (allocator : Allocator range)
    (member : cell ∈ freeListHead :: allocator.stackCells) :
    cell ∉ allocListHead :: allocator.ringCells := by
  intro onRing
  simp only [ringCells, stackCells, List.mem_cons, List.mem_map, indexShift,
    allocListHead, freeListHead] at member onRing
  rcases member with rfl | ⟨free, freeMember, rfl⟩
  · rcases onRing with impossible | ⟨index, allocated, equality⟩
    · omega
    · have := allocator.inRange_of_mem_alloc allocated
      omega
  · have := allocator.inRange_of_mem_free freeMember
    rcases onRing with impossible | ⟨index, allocated, equality⟩
    · omega
    · have same : index = free := by omega
      exact allocator.not_mem_free (same ▸ allocated) freeMember

theorem not_mem_stack
    (allocator : Allocator range)
    (member : cell ∈ allocListHead :: allocator.ringCells) :
    cell ∉ freeListHead :: allocator.stackCells :=
  fun onStack => allocator.not_mem_ring onStack member

end Allocator

/-- The cells hold the two lists of an allocator. -/
structure Encodes (cells : Cells) {range : Nat} (allocator : Allocator range) :
    Prop where
  /-- The ring visits the allocated indexes. -/
  ring : IsRing cells allocListHead allocator.ringCells
  /-- The stack visits the free indexes. -/
  stack : IsStack cells freeListHead allocator.stackCells

namespace Encodes

variable {range : Nat} {cells : Cells} {allocator : Allocator range}

variable {index : ℤ}

section

variable (encodes : Encodes cells allocator)

include encodes

/-- Both links of a free cell lead to a free cell or to the stack head. -/
theorem links_of_free
    (free : index ∈ allocator.free) :
    ∃ successor, successor ≠ allocListHead ∧
      cells (index + indexShift) = ⟨successor, successor⟩ := by
  obtain ⟨successor, member, links⟩ :=
    encodes.stack.links_of_mem (Allocator.shift_mem_iff.mpr free)
  refine ⟨successor, ?_, links⟩
  rintro rfl
  exact allocator.not_mem_ring member (by simp)

theorem ring_around
    (allocated : index ∈ allocator.alloc) :
    ∃ before after, allocator.alloc = before ++ index :: after ∧
      allocator.alloc.erase index = before ++ after ∧
      IsRing cells allocListHead (before.map (· + indexShift) ++
        (index + indexShift) :: after.map (· + indexShift)) ∧
      ∀ cell ∈ freeListHead :: allocator.stackCells,
        cell ∉ allocListHead :: (before.map (· + indexShift) ++
          (index + indexShift) :: after.map (· + indexShift)) := by
  obtain ⟨before, after, _, shape, erased⟩ := List.exists_erase_eq allocated
  have sameCells : allocator.ringCells = before.map (· + indexShift) ++
      (index + indexShift) :: after.map (· + indexShift) := by
    rw [Allocator.ringCells, shape, List.map_append, List.map_cons]
  refine ⟨before, after, shape, erased, ?_⟩
  rw [← sameCells]
  exact ⟨encodes.ring, fun _ member => allocator.not_mem_ring member⟩

theorem links_of_allocated
    (allocated : index ∈ allocator.alloc)
    (equal : (cells (index + indexShift)).next =
      (cells (index + indexShift)).prev) :
    (cells (index + indexShift)).next = allocListHead := by
  obtain ⟨_, _, _, _, ring, _⟩ := encodes.ring_around allocated
  exact ring.next_eq_head_of_links_eq equal

theorem free_test_iff
    (nonnegative : 0 ≤ index)
    (bounded : index < range) :
    ((cells (index + indexShift)).next = (cells (index + indexShift)).prev ∧
        (cells (index + indexShift)).next ≠ allocListHead) ↔
      index ∉ allocator.alloc := by
  constructor
  · rintro ⟨equal, notHead⟩ allocated
    exact notHead (encodes.links_of_allocated allocated equal)
  · intro notAllocated
    have free : index ∈ allocator.free :=
      (allocator.mem_alloc_or_mem_free nonnegative bounded).resolve_left notAllocated
    obtain ⟨successor, notHead, links⟩ := encodes.links_of_free free
    rw [links]
    exact ⟨rfl, notHead⟩

end

/-! ## Initialisation -/

theorem setNext_setPrev_cell
    (cells : Cells)
    (written value cell : ℤ) :
    ((cells.setNext written value).setPrev written
        (cells.setNext written value written).next) cell =
      if cell = written then ⟨value, value⟩ else cells cell := by
  by_cases here : cell = written
  · rw [if_pos here, here]
    apply Node.eq_of_links <;> simp
  · rw [if_neg here]
    apply Node.eq_of_links <;> simp [here]

theorem dchainImplInitLoop_spec
    (rounds : Nat)
    (memory : Cells)
    (start : ℤ) :
    (dchainImplInitLoop rounds memory start).2 = start + rounds ∧
      ∀ cell, (dchainImplInitLoop rounds memory start).1 cell =
        if start ≤ cell ∧ cell < start + rounds then ⟨cell + 1, cell + 1⟩
        else memory cell := by
  induction rounds generalizing memory start with
  | zero =>
      refine ⟨by simp [dchainImplInitLoop], fun cell => ?_⟩
      have outside : ¬(start ≤ cell ∧ cell < start + ((0 : Nat) : ℤ)) := by
        omega
      rw [if_neg outside]
      rfl
  | succ rounds ih =>
      simp only [dchainImplInitLoop]
      obtain ⟨index, written⟩ := ih
        ((memory.setNext start (start + 1)).setPrev start
          (memory.setNext start (start + 1) start).next) (start + 1)
      refine ⟨by rw [index]; push_cast; omega, fun cell => ?_⟩
      rw [written, setNext_setPrev_cell]
      by_cases later : start + 1 ≤ cell ∧ cell < start + 1 + (rounds : ℤ)
      · rw [if_pos later, if_pos (by omega)]
      · rw [if_neg later]
        by_cases first : cell = start
        · rw [if_pos first, if_pos (by omega), first]
        · rw [if_neg first, if_neg (by push_cast; omega)]

theorem dchainImplInit_cell
    (memory : Cells)
    (positive : 0 < range)
    (cell : ℤ) :
    dchainImplInit memory range cell =
      if cell = 0 then ⟨0, 0⟩
      else if 1 ≤ cell ∧ cell ≤ range then ⟨cell + 1, cell + 1⟩
      else if cell = range + 1 then ⟨1, 1⟩ else memory cell := by
  have rounds : ((range : ℤ) + indexShift - 1 - indexShift).toNat =
      range - 1 := by
    simp only [indexShift]
    omega
  have lastCell : indexShift + ((range - 1 : Nat) : ℤ) = range + 1 := by
    simp only [indexShift]
    omega
  have heads : ((memory.setPrev allocListHead 0).setNext allocListHead 0) cell =
      if cell = 0 then ⟨0, 0⟩ else memory cell := by
    by_cases here : cell = 0
    · rw [if_pos here, here]
      apply Node.eq_of_links <;> simp
    · rw [if_neg here]
      apply Node.eq_of_links <;> simp [here]
  unfold dchainImplInit
  simp only [rounds]
  obtain ⟨last, looped⟩ := dchainImplInitLoop_spec (range - 1)
    ((((memory.setPrev allocListHead 0).setNext allocListHead 0).setNext
      freeListHead indexShift).setPrev freeListHead
        (((memory.setPrev allocListHead 0).setNext allocListHead 0).setNext
          freeListHead indexShift freeListHead).next) indexShift
  rw [last, setNext_setPrev_cell, looped, setNext_setPrev_cell, heads, lastCell]
  simp only [freeListHead, indexShift]
  by_cases isLast : cell = range + 1
  · rw [if_pos isLast, if_neg (by omega), if_neg (by omega), if_pos isLast]
  · rw [if_neg isLast, if_neg isLast]
    by_cases inLoop : 2 ≤ cell ∧ cell < (range : ℤ) + 1
    · rw [if_pos inLoop, if_neg (by omega), if_pos (by omega)]
    · rw [if_neg inLoop]
      by_cases isFree : cell = 1
      · rw [if_pos isFree, if_neg (by omega), if_pos (by omega), isFree]
        rfl
      · rw [if_neg isFree]
        by_cases isAlloc : cell = 0
        · rw [if_pos isAlloc, if_pos isAlloc]
        · rw [if_neg isAlloc, if_neg isAlloc, if_neg (by omega)]

theorem init
    (memory : Cells)
    (positive : 0 < range) :
    Encodes (dchainImplInit memory range) (Allocator.initial range) where
  ring := by
    apply IsRing.empty <;> simp [dchainImplInit_cell memory positive]
  stack := by
    have shape : (Allocator.initial range).stackCells =
        (List.range range).map fun index : Nat => (index : ℤ) + 2 := by
      simp [Allocator.stackCells, Allocator.initial]
    rw [shape]
    constructor
    · rw [List.isChain_iff_getElem]
      intro position bound
      simp only [List.length_cons, List.length_append, List.length_map,
        List.length_range, List.length_nil] at bound
      have firstCell : (freeListHead :: ((List.range range).map
          (fun index : Nat => (index : ℤ) + 2) ++ [freeListHead])).get
            ⟨position, by simp; omega⟩ = (position : ℤ) + 1 := by
        cases position with
        | zero => rfl
        | succ earlier =>
            have inside : earlier < range := by omega
            simp [List.getElem_append_left, inside]
            omega
      have secondCell : (freeListHead :: ((List.range range).map
          (fun index : Nat => (index : ℤ) + 2) ++ [freeListHead])).get
            ⟨position + 1, by simp; omega⟩ =
          if position < range then (position : ℤ) + 2 else 1 := by
        by_cases inside : position < range
        · simp [List.getElem_append_left, inside]
        · have last : position = range := by omega
          subst last
          simp
      rw [List.get_eq_getElem] at firstCell secondCell
      simp only [Stacked, firstCell, secondCell, dchainImplInit_cell memory positive]
      split_ifs <;> simp_all <;> omega
    · refine List.nodup_cons.mpr ⟨?_, ?_⟩
      · simp
        omega
      · apply List.nodup_range.map
        intro first second equality
        have shifted : (first : ℤ) + 2 = second + 2 := equality
        omega

/-! ## Allocation -/

theorem allocateNewIndex_of_full
    (encodes : Encodes cells allocator)
    (full : allocator.free = []) :
    dchainImplAllocateNewIndex cells = (none, cells) := by
  have head := encodes.stack.links_head
  rw [Allocator.stackCells, full] at head
  simp [dchainImplAllocateNewIndex, head]

theorem dchainImplAllocateNewIndex_eq_linkLast
    (top : (cells freeListHead).next = allocated)
    (notFree : allocated ≠ freeListHead)
    (notAlloc : allocated ≠ allocListHead) :
    dchainImplAllocateNewIndex cells =
      (some (allocated - indexShift),
        ((cells.setNext freeListHead (cells allocated).next).setPrev
          freeListHead (cells allocated).next).linkLast allocListHead
            allocated) := by
  have different : allocListHead ≠ allocated := notAlloc.symm
  simp only [dchainImplAllocateNewIndex, top, if_neg notFree, Links.linkLast,
    Links.setNext_next, Links.setNext_prev, Links.setPrev_prev,
    if_neg different, if_true]

theorem allocateNewIndex_of_available
    (encodes : Encodes cells allocator)
    (available : allocator.free = index :: rest) :
    (dchainImplAllocateNewIndex cells).1 = some index ∧
      Encodes (dchainImplAllocateNewIndex cells).2
        allocator.allocateNewIndex.2 := by
  obtain ⟨_, newAlloc, newFree⟩ :=
    Allocator.allocateNewIndex_of_cons available
  have free : index ∈ allocator.free := by simp [available]
  have inRange := allocator.inRange_of_mem_free free
  have stack := encodes.stack
  rw [Allocator.stackCells, available, List.map_cons] at stack
  have top : (cells freeListHead).next = index + indexShift := by
    rw [stack.links_head]
    rfl
  have notFree : index + indexShift ≠ freeListHead := by
    simp only [indexShift, freeListHead]
    omega
  have notAlloc : index + indexShift ≠ allocListHead := by
    simp only [indexShift, allocListHead]
    omega
  have freshCell : index + indexShift ∉ allocListHead :: allocator.ringCells :=
    allocator.not_mem_ring (by simp [Allocator.stackCells, available])
  rw [dchainImplAllocateNewIndex_eq_linkLast top notFree notAlloc]
  generalize popped_eq : Links.setPrev _ freeListHead _ = popped
  have same : ∀ other, other ≠ freeListHead → popped other = cells other := by
    intro other different
    subst popped_eq
    apply Node.eq_of_links <;> simp_all
  have poppedRing : IsRing popped allocListHead allocator.ringCells := by
    apply encodes.ring.congr
    intro node member
    apply same
    rintro rfl
    exact allocator.not_mem_ring (by simp) member
  have poppedStack : IsStack popped freeListHead
      (rest.map (· + indexShift)) := by
    apply stack.pop
    · subst popped_eq
      apply Node.eq_of_links <;> simp
    · intro other member
      apply same
      rintro rfl
      have nodup := stack.nodup
      simp_all
  refine ⟨by simp, ?_, ?_⟩
  · rw [Allocator.ringCells, newAlloc, List.map_append, List.map_singleton]
    exact poppedRing.linkLast freshCell
  · rw [Allocator.stackCells, newFree]
    apply poppedStack.congr
    intro node member
    apply poppedRing.linkLast_of_not_mem
    · apply allocator.not_mem_ring
      simp only [Allocator.stackCells, available, List.map_cons, List.mem_cons] at member ⊢
      tauto
    · rintro rfl
      have nodup := stack.nodup
      simp_all

theorem allocateNewIndex (encodes : Encodes cells allocator) :
    (dchainImplAllocateNewIndex cells).1 = allocator.allocateNewIndex.1 ∧
      Encodes (dchainImplAllocateNewIndex cells).2
        allocator.allocateNewIndex.2 := by
  cases shape : allocator.free with
  | nil =>
      rw [encodes.allocateNewIndex_of_full shape, Allocator.allocateNewIndex_of_nil shape]
      exact ⟨rfl, encodes⟩
  | cons index rest =>
      rw [(Allocator.allocateNewIndex_of_cons shape).1]
      exact encodes.allocateNewIndex_of_available shape

/-! ## Freeing -/

theorem freeIndex_of_not_allocated
    (encodes : Encodes cells allocator)
    (nonnegative : 0 ≤ index)
    (bounded : index < range)
    (notAllocated : index ∉ allocator.alloc) :
    dchainImplFreeIndex cells index = (false, cells) := by
  obtain ⟨equal, notHead⟩ :=
    (encodes.free_test_iff nonnegative bounded).mpr notAllocated
  rw [dchainImplFreeIndex]
  exact if_pos ⟨equal, equal ▸ notHead⟩

theorem dchainImplFreeIndex_eq_unlink
    (used : ¬((cells (index + indexShift)).next =
        (cells (index + indexShift)).prev ∧
      (cells (index + indexShift)).next ≠ allocListHead))
    (notFree : index + indexShift ≠ freeListHead) :
    ∃ cells', dchainImplFreeIndex cells index = (true, cells') ∧
      cells' freeListHead = ⟨index + indexShift, index + indexShift⟩ ∧
      cells' (index + indexShift) =
        ⟨(cells.unlink (index + indexShift) freeListHead).next,
          (cells.unlink (index + indexShift) freeListHead).next⟩ ∧
      ∀ other, other ≠ freeListHead → other ≠ index + indexShift →
        cells' other = cells.unlink (index + indexShift) other := by
  have test : ¬((cells (index + indexShift)).next =
        (cells (index + indexShift)).prev ∧
      (cells (index + indexShift)).prev ≠ allocListHead) := by
    rintro ⟨equal, notHead⟩
    exact used ⟨equal, equal ▸ notHead⟩
  rw [dchainImplFreeIndex, if_neg test]
  refine ⟨_, rfl, ?_, ?_, ?_⟩
  · apply Node.eq_of_links <;> simp
  · apply Node.eq_of_links <;> simp [Links.unlink, notFree]
  · intro other notHead different
    apply Node.eq_of_links <;> simp [Links.unlink, notHead, different]

section

variable (encodes : Encodes cells allocator)

include encodes

variable {index : ℤ}

theorem freeIndex_of_allocated (allocated : index ∈ allocator.alloc) :
    (dchainImplFreeIndex cells index).1 = true ∧
      Encodes (dchainImplFreeIndex cells index).2
        (allocator.freeIndex index).2 := by
  obtain ⟨nonnegative, bounded⟩ := allocator.inRange_of_mem_alloc allocated
  obtain ⟨before, after, _, erased, ring, outside⟩ :=
    encodes.ring_around allocated
  have notFree : index + indexShift ≠ freeListHead := by
    simp only [indexShift, freeListHead]
    omega
  obtain ⟨cells', freed, newHead, newNode, same⟩ :=
    dchainImplFreeIndex_eq_unlink
      (fun test => (encodes.free_test_iff nonnegative bounded).mp test allocated) notFree
  have unlinkedStack : IsStack (cells.unlink (index + indexShift))
      freeListHead allocator.stackCells := by
    apply encodes.stack.congr
    intro node member
    exact ring.unlink_of_not_mem (not_mem_others_of_not_mem (outside node member)).1
  have freshCell : index + indexShift ∉ freeListHead :: allocator.stackCells :=
    allocator.not_mem_stack (List.mem_cons_of_mem _ (Allocator.shift_mem_iff.mpr allocated))
  rw [freed]
  refine ⟨rfl, ?_, ?_⟩
  · have newAlloc : (allocator.freeIndex index).2.alloc = before ++ after := by
      simp [Allocator.freeIndex, allocated, erased]
    rw [Allocator.ringCells, newAlloc, List.map_append]
    apply ring.unlink.congr
    intro node member
    apply same
    · rintro rfl
      exact (not_mem_others_of_not_mem (outside freeListHead List.mem_cons_self)).1 member
    · rintro rfl
      exact ring.not_mem_others member
  · have newFree : (allocator.freeIndex index).2.free =
        index :: allocator.free := by
      simp [Allocator.freeIndex, allocated]
    rw [Allocator.stackCells, newFree, List.map_cons]
    apply unlinkedStack.push freshCell newHead newNode
    intro other member
    apply same
    · rintro rfl
      exact (List.nodup_cons.mp encodes.stack.nodup).1 member
    · rintro rfl
      exact freshCell (List.mem_cons_of_mem _ member)

theorem freeIndex
    (nonnegative : 0 ≤ index)
    (bounded : index < range) :
    (dchainImplFreeIndex cells index).1 = (allocator.freeIndex index).1 ∧
      Encodes (dchainImplFreeIndex cells index).2
        (allocator.freeIndex index).2 := by
  by_cases allocated : index ∈ allocator.alloc
  · have result : (allocator.freeIndex index).1 = true := by
      simp [Allocator.freeIndex, allocated]
    rw [result]
    exact encodes.freeIndex_of_allocated allocated
  · rw [encodes.freeIndex_of_not_allocated nonnegative bounded allocated]
    simpa [Allocator.freeIndex, allocated] using encodes

/-! ## Rejuvenation -/

theorem rejuvenateIndex_of_not_allocated
    (nonnegative : 0 ≤ index)
    (bounded : index < range)
    (notAllocated : index ∉ allocator.alloc) :
    dchainImplRejuvenateIndex cells index = (false, cells) := by
  obtain ⟨equal, notHead⟩ :=
    (encodes.free_test_iff nonnegative bounded).mpr notAllocated
  rw [dchainImplRejuvenateIndex, if_pos equal, if_pos notHead]

theorem rejuvenateIndex_of_allocated (allocated : index ∈ allocator.alloc) :
    (dchainImplRejuvenateIndex cells index).1 = true ∧
      Encodes (dchainImplRejuvenateIndex cells index).2
        (allocator.rejuvenateIndex index).2 := by
  obtain ⟨before, after, _, erased, ring, outside⟩ :=
    encodes.ring_around allocated
  have newAlloc : (allocator.rejuvenateIndex index).2.alloc =
      before ++ after ++ [index] := by
    simp [Allocator.rejuvenateIndex, allocated, erased]
  have newFree : (allocator.rejuvenateIndex index).2.free =
      allocator.free := by
    simp [Allocator.rejuvenateIndex, allocated]
  by_cases equal : (cells (index + indexShift)).next = (cells (index + indexShift)).prev
  · -- The index is alone on the ring, so nothing has to move.
    have next := encodes.links_of_allocated allocated equal
    obtain ⟨noneBefore, noneAfter⟩ :=
      ring.eq_nil_of_links_eq_head (equal ▸ next) next
    rw [dchainImplRejuvenateIndex, if_pos equal, if_neg (not_not.mpr next)]
    refine ⟨rfl, ?_, ?_⟩
    · rw [Allocator.ringCells, newAlloc]
      rw [noneBefore, noneAfter] at ring
      simp only [List.map_eq_nil_iff] at noneBefore noneAfter
      subst noneBefore noneAfter
      simpa using ring
    · rw [Allocator.stackCells, newFree]
      exact encodes.stack
  · have moved : dchainImplRejuvenateIndex cells index =
        (true, (cells.unlink (index + indexShift)).linkLast allocListHead
          (index + indexShift)) := by
      rw [dchainImplRejuvenateIndex, if_neg equal]
      rfl
    rw [moved]
    refine ⟨rfl, ?_, ?_⟩
    · rw [Allocator.ringCells, newAlloc, List.map_append, List.map_append]
      exact ring.moveLast
    · rw [Allocator.stackCells, newFree]
      apply encodes.stack.congr
      intro node member
      exact ring.moveLast_of_not_mem (outside node member)

theorem rejuvenateIndex
    (nonnegative : 0 ≤ index)
    (bounded : index < range) :
    (dchainImplRejuvenateIndex cells index).1 =
        (allocator.rejuvenateIndex index).1 ∧
      Encodes (dchainImplRejuvenateIndex cells index).2
        (allocator.rejuvenateIndex index).2 := by
  by_cases allocated : index ∈ allocator.alloc
  · have result : (allocator.rejuvenateIndex index).1 = true := by
      simp [Allocator.rejuvenateIndex, allocated]
    rw [result]
    exact encodes.rejuvenateIndex_of_allocated allocated
  · rw [encodes.rejuvenateIndex_of_not_allocated nonnegative bounded allocated]
    simpa [Allocator.rejuvenateIndex, allocated] using encodes

/-! ## Queries -/

theorem getOldestIndex :
    dchainImplGetOldestIndex cells = allocator.getOldestIndex := by
  have next := encodes.ring.next_head
  rw [Allocator.ringCells] at next
  rw [dchainImplGetOldestIndex, next, Allocator.getOldestIndex]
  cases shape : allocator.alloc with
  | nil => simp
  | cons oldest younger =>
      have allocated : oldest ∈ allocator.alloc := by simp [shape]
      have inRange := allocator.inRange_of_mem_alloc allocated
      have notHead : oldest + 2 ≠ 0 := by omega
      simp [notHead]

theorem isIndexAllocated
    (nonnegative : 0 ≤ index)
    (bounded : index < range) :
    dchainImplIsIndexAllocated cells index =
      allocator.isIndexAllocated index := by
  have test := encodes.free_test_iff nonnegative bounded
  rw [dchainImplIsIndexAllocated, Allocator.isIndexAllocated]
  split_ifs with equal notHead
  · simpa using test.mp ⟨equal, notHead⟩
  · simpa using mt test.mpr fun both => notHead both.2
  · simpa using mt test.mpr fun both => equal both.1

theorem links_stackHead :
    ∃ successor,
      successor ≠ allocListHead ∧
        cells (-1 + indexShift) = ⟨successor, successor⟩ := by
  refine ⟨firstOr freeListHead allocator.stackCells, ?_, encodes.stack.links_head⟩
  intro same
  have member := firstOr_mem freeListHead allocator.stackCells
  rw [same] at member
  exact allocator.not_mem_ring member (by simp)

theorem isIndexAllocated_stackHead :
    dchainImplIsIndexAllocated cells (-1) = false := by
  obtain ⟨successor, notHead, links⟩ := encodes.links_stackHead
  rw [dchainImplIsIndexAllocated, links]
  exact (if_pos rfl).trans (if_pos notHead)

theorem rejuvenateIndex_stackHead :
    dchainImplRejuvenateIndex cells (-1) = (false, cells) := by
  obtain ⟨successor, notHead, links⟩ := encodes.links_stackHead
  rw [dchainImplRejuvenateIndex, links]
  exact (if_pos rfl).trans (if_pos notHead)

theorem isIndexAllocated_ringHead :
    dchainImplIsIndexAllocated cells (-2) = true ↔
      allocator.alloc.length ≠ 1 := by
  have cell : (-2 : ℤ) + indexShift = allocListHead := rfl
  have nodup := encodes.ring.nodup
  have same := firstOr_eq_lastOr_iff allocListHead nodup.of_cons
  have length : allocator.ringCells.length = allocator.alloc.length := List.length_map _
  rw [dchainImplIsIndexAllocated, cell, encodes.ring.next_head, encodes.ring.prev_head]
  simp only [same, length]
  cases shape : allocator.ringCells with
  | nil => simp [← length, shape]
  | cons first rest =>
      have notHead : first ≠ allocListHead := by
        rintro rfl
        simp [shape] at nodup
      rw [shape, List.length_cons] at length
      simp [notHead]
      omega

end

end Encodes

end DoubleChain
end Vigor
