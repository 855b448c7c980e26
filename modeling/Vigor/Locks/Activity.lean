import Vigor.DoubleChain.Encoding
import Vigor.Locks.Chain

/-!
# Lists of the lock-based chain

What the cells of one core hold: a ring of the active indexes, whose other cells
are marked as inactive, and an encoded allocator, whose allocated indexes can be
moved around without a change to the free ones.
-/

namespace Vigor

open LinkedRing DoubleChain

/-! ## Active indexes -/

/-- The cells hold the list of active indexes. -/
structure ActiveRing (cells : Cells) (range : ℕ) (active : List ℤ) : Prop where
  /-- The ring visits the active indexes. -/
  ring : IsRing cells allocListHead (active.map (· + indexShift))
  /-- Active indexes lie in the range. -/
  inRange : ∀ index ∈ active, 0 ≤ index ∧ index < range
  /-- Cells of other indexes are marked. -/
  inactive : ∀ index : ℤ, 0 ≤ index → index < range → index ∉ active →
    (cells (index + indexShift)).next = freeListHead

namespace ActiveRing

variable {cells : Cells} {range : ℕ} {active : List ℤ}

theorem nodup (holds : ActiveRing cells range active) : active.Nodup :=
  List.Nodup.of_map _ (List.nodup_cons.mp holds.ring.nodup).2

theorem not_mem_ring
    (nonnegative : 0 ≤ index)
    (notActive : index ∉ active) :
    index + indexShift ∉ allocListHead :: active.map (· + indexShift) := by
  simp only [List.mem_cons, Allocator.shift_mem_iff, not_or]
  refine ⟨?_, notActive⟩
  simp only [indexShift, allocListHead]
  omega

section

variable (holds : ActiveRing cells range active)
  {index : ℤ}
  (nonnegative : 0 ≤ index)
  (bounded : index < range)

include holds nonnegative bounded

theorem next_eq_mark_iff :
    (cells (index + indexShift)).next = freeListHead ↔ index ∉ active := by
  refine ⟨?_, holds.inactive index nonnegative bounded⟩
  intro mark member
  obtain ⟨before, after, rfl⟩ := List.append_of_mem member
  have ring := holds.ring
  rw [List.map_append, List.map_cons] at ring
  rw [ring.links_of_mem.2] at mark
  cases after with
  | nil => simp at mark
  | cons following others =>
      have := holds.inRange following (by simp)
      simp only [List.map_cons, firstOr_cons, indexShift, freeListHead] at mark
      omega

theorem isIndexActive :
    dchainLocksImplIsIndexActive cells index = true ↔ index ∈ active := by
  have mark := holds.next_eq_mark_iff nonnegative bounded
  rw [dchainLocksImplIsIndexActive, decide_eq_true_iff, Ne, mark, not_not]

end

theorem getOldestIndex (holds : ActiveRing cells range active) :
    dchainLocksImplGetOldestIndex cells = active.head? := by
  have next := holds.ring.next_head
  rw [dchainLocksImplGetOldestIndex]
  cases shape : active with
  | nil =>
      have prev := holds.ring.prev_head
      rw [shape] at next prev
      simp only [List.map_nil, firstOr_nil, lastOr_nil] at next prev
      simp [next, prev]
  | cons oldest younger =>
      have := holds.inRange oldest (by simp [shape])
      rw [shape] at next
      simp only [List.map_cons, firstOr_cons, indexShift] at next
      have notHead : oldest + 2 ≠ 0 := by omega
      simp [next, notHead]

/-! ### Initialisation -/

theorem dchainLocksImplActivityInitLoop_cell
    (rounds : ℕ)
    (memory : Cells)
    (start cell : ℤ) :
    dchainLocksImplActivityInitLoop rounds memory start cell =
      if start ≤ cell ∧ cell < start + rounds then ⟨freeListHead, freeListHead⟩
      else memory cell := by
  induction rounds generalizing memory start with
  | zero => rw [dchainLocksImplActivityInitLoop, if_neg (by push_cast; omega)]
  | succ rounds ih =>
      rw [dchainLocksImplActivityInitLoop, ih, Encodes.setNext_setPrev_cell]
      by_cases later : start + 1 ≤ cell ∧ cell < start + 1 + (rounds : ℤ)
      · rw [if_pos later, if_pos (by push_cast; omega)]
      · rw [if_neg later]
        by_cases first : cell = start
        · rw [if_pos first, if_pos (by push_cast; omega)]
        · rw [if_neg first, if_neg (by push_cast; omega)]

theorem init
    (memory : Cells)
    (range : ℕ) :
    ActiveRing (dchainLocksImplActivityInit memory range) range [] where
  ring := by
    apply IsRing.empty <;> simp [dchainLocksImplActivityInit, dchainLocksImplActivityInitLoop_cell]
  inRange := by simp
  inactive index nonnegative bounded _ := by
    simp only [dchainLocksImplActivityInit, dchainLocksImplActivityInitLoop_cell]
    rw [if_pos (by simp only [indexShift]; omega)]

/-! ### Activation -/

section

variable (holds : ActiveRing cells range active)

include holds

theorem of_ring
    {cells' : Cells}
    {active' : List ℤ}
    (ring : IsRing cells' allocListHead (active'.map (· + indexShift)))
    (inRange : ∀ index ∈ active', 0 ≤ index ∧ index < range)
    (inactive : ∀ index : ℤ, 0 ≤ index → index < range → index ∉ active' →
      index ∈ active → (cells' (index + indexShift)).next = freeListHead)
    (kept : ∀ index, 0 ≤ index → index ∉ active' → index ∉ active →
      cells' (index + indexShift) = cells (index + indexShift)) :
    ActiveRing cells' range active' where
  ring := ring
  inRange := inRange
  inactive index nonnegative bounded notActive := by
    by_cases before : index ∈ active
    · exact inactive index nonnegative bounded notActive before
    · rw [kept index nonnegative notActive before]
      exact holds.inactive index nonnegative bounded before

variable {index : ℤ}

theorem activateIndex_of_mem (member : index ∈ active) :
    ActiveRing (dchainLocksImplActivateIndex cells index).2 range
      (active.erase index ++ [index]) := by
  obtain ⟨nonnegative, bounded⟩ := holds.inRange index member
  have notMarked : (cells (index + indexShift)).next ≠ freeListHead :=
    fun mark =>
      (holds.next_eq_mark_iff nonnegative bounded).mp mark member
  obtain ⟨before, after, _, shape, erased⟩ := List.exists_erase_eq member
  have ring := holds.ring
  rw [shape, List.map_append, List.map_cons] at ring
  by_cases last : (cells (index + indexShift)).next = allocListHead
  · -- Already the youngest one.
    have unchanged :
        dchainLocksImplActivateIndex cells index = (false, cells) := by
      rw [dchainLocksImplActivateIndex]
      exact if_pos ⟨notMarked, last⟩
    have noneAfter : after = [] := by
      cases after with
      | nil => rfl
      | cons following others =>
          have := holds.inRange following (by simp [shape])
          rw [ring.links_of_mem.2] at last
          simp only [List.map_cons, firstOr_cons, indexShift, allocListHead] at last
          omega
    have same : active.erase index ++ [index] = active := by
      rw [erased, shape, noneAfter, List.append_nil]
    rw [unchanged, same]
    exact holds
  · have moved : dchainLocksImplActivateIndex cells index =
        (true, (cells.unlink (index + indexShift)).linkLast allocListHead
          (index + indexShift)) := by
      rw [dchainLocksImplActivateIndex]
      simp only [ne_eq, notMarked, last, not_false_eq_true, and_false, if_false, if_true]
      rfl
    rw [moved, erased]
    have mem_iff : ∀ other, other ∈ before ++ after ++ [index] ↔
        other ∈ active := by
      intro other
      simp only [shape, List.mem_append, List.mem_cons, List.not_mem_nil, or_false]
      tauto
    apply holds.of_ring
    · simpa using ring.moveLast
    · intro other otherMember
      exact holds.inRange other ((mem_iff other).mp otherMember)
    · intro other _ _ notActive wasActive
      exact absurd ((mem_iff other).mpr wasActive) notActive
    · intro other otherNonnegative _ notActive
      apply ring.moveLast_of_not_mem
      have outside := not_mem_ring otherNonnegative notActive
      rwa [shape, List.map_append, List.map_cons] at outside

variable (nonnegative : 0 ≤ index)
  (bounded : index < range)

include nonnegative bounded

theorem activateIndex_of_not_mem
    (notMember : index ∉ active) :
    ActiveRing (dchainLocksImplActivateIndex cells index).2 range
      (active.erase index ++ [index]) := by
  have mark := holds.inactive index nonnegative bounded notMember
  have linked : dchainLocksImplActivateIndex cells index =
      (true, cells.linkLast allocListHead (index + indexShift)) := by
    rw [dchainLocksImplActivateIndex]
    simp only [ne_eq, mark, not_true_eq_false, false_and, if_false]
    rfl
  rw [linked, List.erase_of_not_mem notMember]
  apply holds.of_ring
  · simpa using holds.ring.linkLast (not_mem_ring nonnegative notMember)
  · intro other otherMember
    rcases List.mem_append.mp otherMember with old | new
    · exact holds.inRange other old
    · rw [List.mem_singleton.mp new]
      exact ⟨nonnegative, bounded⟩
  · intro other _ _ notActive wasActive
    exact absurd (List.mem_append_left _ wasActive) notActive
  · intro other otherNonnegative notActive notBefore
    apply holds.ring.linkLast_of_not_mem (not_mem_ring otherNonnegative notBefore)
    intro same
    have equal : other = index := by omega
    simp [equal] at notActive

theorem activateIndex :
    ActiveRing (dchainLocksImplActivateIndex cells index).2 range
      (active.erase index ++ [index]) := by
  by_cases member : index ∈ active
  · exact holds.activateIndex_of_mem member
  · exact holds.activateIndex_of_not_mem nonnegative bounded member

theorem deactivateIndex :
    ActiveRing (dchainLocksImplDeactivateIndex cells index).2 range
      (active.erase index) := by
  have mark := holds.next_eq_mark_iff nonnegative bounded
  by_cases member : index ∈ active
  · obtain ⟨before, after, _, shape, erased⟩ := List.exists_erase_eq member
    have ring := holds.ring
    rw [shape, List.map_append, List.map_cons] at ring
    have written : ∀ cell,
        (dchainLocksImplDeactivateIndex cells index).2 cell =
          if cell = index + indexShift then ⟨freeListHead, freeListHead⟩
          else cells.unlink (index + indexShift) cell := by
      intro cell
      rw [dchainLocksImplDeactivateIndex, if_neg (mt mark.mp (not_not.mpr member))]
      exact Encodes.setNext_setPrev_cell _ _ _ _
    rw [erased]
    apply holds.of_ring
    · rw [List.map_append]
      apply ring.unlink.congr
      intro node onRing
      rw [written, if_neg]
      rintro rfl
      exact ring.not_mem_others onRing
    · intro other otherMember
      apply holds.inRange other
      rw [shape]
      simp only [List.mem_append, List.mem_cons] at otherMember ⊢
      tauto
    · intro other _ _ notActive wasActive
      have same : other = index := by
        rw [shape] at wasActive
        simp only [List.mem_append, List.mem_cons] at wasActive notActive
        tauto
      rw [written, same, if_pos rfl]
    · intro other otherNonnegative _ notBefore
      have outside := not_mem_ring otherNonnegative notBefore
      rw [shape, List.map_append, List.map_cons] at outside
      obtain ⟨notOther, different⟩ := not_mem_others_of_not_mem outside
      rw [written, if_neg different]
      exact ring.unlink_of_not_mem notOther
  · rw [dchainLocksImplDeactivateIndex, if_pos (mark.mpr member), List.erase_of_not_mem member]
    exact holds

end

end ActiveRing

/-! ## Allocated indexes -/

namespace DoubleChain

variable {range : ℕ} {cells : Cells} {allocator : Allocator range}

theorem Allocator.mem_alloc_iff
    (allocator : Allocator range)
    (index : ℤ) :
    index ∈ allocator.alloc ↔
      (0 ≤ index ∧ index < range) ∧ index ∉ allocator.free := by
  constructor
  · intro allocated
    exact ⟨allocator.inRange_of_mem_alloc allocated, allocator.not_mem_free allocated⟩
  · rintro ⟨⟨nonnegative, bounded⟩, notFree⟩
    exact (allocator.mem_alloc_or_mem_free nonnegative bounded).resolve_right notFree

/-- The same indexes, allocated in another order. -/
def Allocator.reorder
    (allocator : Allocator range)
    (alloc : List ℤ)
    (permuted : alloc.Perm allocator.alloc) : Allocator range where
  alloc := alloc
  free := allocator.free
  nodup := (permuted.append_right _).nodup_iff.mpr allocator.nodup
  covers index := by
    rw [← allocator.covers index]
    exact (permuted.append_right _).mem_iff

/-- The cells encode an allocator with the given free list; the order of the
allocated indexes is left open. -/
def EncodesFree
    (cells : Cells)
    (range : ℕ)
    (free : List ℤ) : Prop :=
  ∃ allocator : Allocator range, Encodes cells allocator ∧
    allocator.free = free

namespace Encodes

theorem dchainLocksImplNext_eq
    (encodes : Encodes cells allocator)
    (shape : allocator.alloc = before ++ index :: after) :
    dchainLocksImplNext cells index = after.head? := by
  have ring := encodes.ring
  rw [Allocator.ringCells, shape, List.map_append, List.map_cons] at ring
  rw [dchainLocksImplNext, ring.links_of_mem.2]
  cases after with
  | nil => simp
  | cons following others =>
      have allocated : following ∈ allocator.alloc := by simp [shape]
      have := allocator.inRange_of_mem_alloc allocated
      have notHead : following + 2 ≠ 0 := by omega
      simp [notHead]

theorem repositionIndex
    (encodes : Encodes cells allocator)
    (allocated : index ∈ allocator.alloc)
    (prevAllocated : newPrev ∈ allocator.alloc)
    (different : newPrev ≠ index) :
    (dchainLocksImplRepositionIndex cells index newPrev).1 = true ∧
      EncodesFree (dchainLocksImplRepositionIndex cells index newPrev).2 range
        allocator.free := by
  obtain ⟨nonnegative, bounded⟩ := allocator.inRange_of_mem_alloc allocated
  have used := mt (encodes.free_test_iff nonnegative bounded).mp (not_not.mpr allocated)
  have moved : dchainLocksImplRepositionIndex cells index newPrev =
      (true, (cells.unlink (index + indexShift)).linkAfter
        (newPrev + indexShift) (index + indexShift)) := by
    rw [dchainLocksImplRepositionIndex, if_neg used]
    rfl
  obtain ⟨before, after, _, erased, ring, outside⟩ :=
    encodes.ring_around allocated
  obtain ⟨lower, upper, rest⟩ :=
    List.append_of_mem ((List.mem_erase_of_ne different).mpr prevAllocated)
  have permuted : (lower ++ newPrev :: index :: upper).Perm
      allocator.alloc := by
    have middle : (lower ++ [newPrev] ++ index :: upper).Perm
        (index :: (lower ++ [newPrev] ++ upper)) := List.perm_middle
    rw [List.append_assoc, List.append_assoc, List.singleton_append,
      List.singleton_append, ← rest] at middle
    exact middle.trans (List.perm_cons_erase allocated).symm
  have cellsRest : before.map (· + indexShift) ++ after.map (· + indexShift) =
      lower.map (· + indexShift) ++ (newPrev + indexShift) :: upper.map (· + indexShift) := by
    rw [← List.map_append, ← erased, rest, List.map_append, List.map_cons]
  rw [moved]
  refine ⟨rfl, allocator.reorder _ permuted, ⟨?_, ?_⟩, rfl⟩
  · simpa [Allocator.ringCells, Allocator.reorder] using ring.moveAfter cellsRest
  · apply encodes.stack.congr
    intro node member
    exact ring.moveAfter_of_not_mem cellsRest (outside node member)

theorem search_returns
    (encodes : Encodes cells allocator)
    (timestamps : ℤ → ℤ)
    (index time : ℤ)
    (shape : allocator.alloc = before ++ prev :: after) :
    ∃ newPrev,
      (Fuelled.loop (DoubleChainLocks.searchRound cells timestamps index time)
        (prev, prevTime)).Returns newPrev ∧
      (newPrev = -1 ∨ newPrev ∈ allocator.alloc ∧ newPrev ≠ index) := by
  have next := encodes.dchainLocksImplNext_eq shape
  induction after generalizing before prev prevTime with
  | nil =>
      refine ⟨-1, Fuelled.loop_returns_of_done ?_, .inl rfl⟩
      simp only [DoubleChainLocks.searchRound, next, List.head?_nil]
      exact Fuelled.returns_pure _
  | cons following others ih =>
      by_cases found : prevTime ≤ time ∧ time ≤ timestamps following ∧ index ≠ prev
      · refine ⟨prev, Fuelled.loop_returns_of_done ?_, .inr ⟨by simp [shape], found.2.2.symm⟩⟩
        simp only [DoubleChainLocks.searchRound, next, List.head?_cons, if_pos found]
        exact Fuelled.returns_pure _
      · have moved : allocator.alloc =
            (before ++ [prev]) ++ following :: others := by
          simpa using shape
        obtain ⟨newPrev, returns, proposal⟩ := ih moved (encodes.dchainLocksImplNext_eq moved)
        refine ⟨newPrev, Fuelled.loop_returns_of_next ?_ returns, proposal⟩
        simp only [DoubleChainLocks.searchRound, next, List.head?_cons, if_neg found]
        exact Fuelled.returns_pure _

end Encodes

end DoubleChain

theorem DoubleChainLocks.dchainLocksUpdateTimestamp_returns
    {cores range : ℕ}
    {core : Fin cores}
    {chain : DoubleChainLocks cores}
    {allocator : Allocator range}
    (encodes : Encodes (chain.cells core) allocator)
    {index : ℤ}
    (allocated : index ∈ allocator.alloc)
    (time : ℤ) :
    ∃ cells,
      (dchainLocksUpdateTimestamp core chain index time).Returns
        (true, { chain with
          cells := Function.update chain.cells core cells }) ∧
      EncodesFree cells range allocator.free := by
  obtain ⟨before, after, shape⟩ := List.append_of_mem allocated
  obtain ⟨newPrev, returns, proposal⟩ := encodes.search_returns
    (chain.timestamps core) index time shape
  have finish {result : Bool × Cells}
      (outcome : (if newPrev = -1 then
          dchainLocksImplRejuvenateIndex (chain.cells core) index
        else dchainLocksImplRepositionIndex (chain.cells core) index newPrev) = result)
      (success : result.1 = true) :
      (dchainLocksUpdateTimestamp core chain index time).Returns
        (true, { chain with
          cells := Function.update chain.cells core result.2 }) := by
    obtain ⟨ret, cells⟩ := result
    dsimp only at success
    subst success
    refine returns.bind ?_
    rw [outcome]
    exact Fuelled.returns_pure _
  rcases proposal with last | ⟨prevAllocated, different⟩
  · obtain ⟨success, encoded⟩ := encodes.rejuvenateIndex_of_allocated allocated
    refine ⟨_, finish (if_pos last) success, _, encoded, ?_⟩
    simp [Allocator.rejuvenateIndex, allocated]
  · obtain ⟨success, encoded⟩ :=
      encodes.repositionIndex allocated prevAllocated different
    have prevInRange := allocator.inRange_of_mem_alloc prevAllocated
    exact ⟨_, finish (if_neg (by omega)) success, encoded⟩

end Vigor
