import Vigor.DoubleChain.Impl
import Vigor.Library.Fuelled
import Vigor.Locks.Worker

/-!
# The double chain of the lock-based build

`double-chain-locks.c` keeps one replica of the cells for each core, together
with a list of the indexes that the core used itself (the active cells) and the
times of its own uses.  An allocation or a release goes to all replicas and
needs the write lock; a rejuvenation only touches the replica of the calling
core.

The loops over all cores touch the memory of one core in each round, so their
effect on the replicas is written per core.  A return code stands for whether
it is nonzero.
-/

namespace Vigor

open LinkedRing DoubleChain Worker Function

/-! ## Cells -/

/-- The loop of `dchain_locks_impl_activity_init`. -/
def dchainLocksImplActivityInitLoop : ℕ → Cells → ℤ → Cells
  | 0, cells, _ => cells
  | rounds + 1, cells, i =>
      let cells := cells.setNext i freeListHead
      let cells := cells.setPrev i (cells i).next
      dchainLocksImplActivityInitLoop rounds cells (i + 1)

/-- No index is active. -/
def dchainLocksImplActivityInit
    (cells : Cells)
    (size : ℤ) : Cells :=
  let cells := cells.setPrev allocListHead allocListHead
  let cells := cells.setNext allocListHead allocListHead
  let i := indexShift
  dchainLocksImplActivityInitLoop (size + indexShift - i).toNat cells i

/-- Make an index the youngest active one. -/
def dchainLocksImplActivateIndex
    (cells : Cells)
    (index : ℤ) : Bool × Cells :=
  let lifted := index + indexShift
  let liftedNext := (cells lifted).next
  let liftedPrev := (cells lifted).prev
  if liftedNext ≠ freeListHead ∧ liftedNext = allocListHead then (false, cells)
  else
    -- The index is already active: unlink it.
    let cells :=
      if liftedNext ≠ freeListHead then
        let cells := cells.setNext liftedPrev liftedNext
        cells.setPrev liftedNext liftedPrev
      else cells
    let alHeadPrev := (cells allocListHead).prev
    -- Link it at the very end - right before the special link.
    let cells := cells.setNext lifted allocListHead
    let cells := cells.setPrev lifted alHeadPrev
    let cells := cells.setNext alHeadPrev lifted
    let cells := cells.setPrev allocListHead lifted
    (true, cells)

/-- Make an index inactive. -/
def dchainLocksImplDeactivateIndex
    (cells : Cells)
    (index : ℤ) : Bool × Cells :=
  let freed := index + indexShift
  let freedPrev := (cells freed).prev
  let freedNext := (cells freed).next
  if freedNext = freeListHead then (false, cells)
  else
    let cells := cells.setNext freedPrev freedNext
    let cells := cells.setPrev freedNext freedPrev
    let cells := cells.setNext freed freeListHead
    let cells := cells.setPrev freed (cells freed).next
    (true, cells)

/-- Whether an index is active. -/
def dchainLocksImplIsIndexActive
    (cells : Cells)
    (index : ℤ) : Bool :=
  (cells (index + indexShift)).next ≠ freeListHead

/-- `dchain_locks_impl_init` is `dchain_impl_init`. -/
abbrev dchainLocksImplInit (cells : Cells) (size : ℤ) : Cells :=
  dchainImplInit cells size

/-- `dchain_locks_impl_allocate_new_index` is
`dchain_impl_allocate_new_index`. -/
abbrev dchainLocksImplAllocateNewIndex (cells : Cells) : Option ℤ × Cells :=
  dchainImplAllocateNewIndex cells

/-- `dchain_locks_impl_free_index` is `dchain_impl_free_index`. -/
abbrev dchainLocksImplFreeIndex (cells : Cells) (index : ℤ) : Bool × Cells :=
  dchainImplFreeIndex cells index

/-- `dchain_locks_impl_rejuvenate_index` is `dchain_impl_rejuvenate_index`. -/
abbrev dchainLocksImplRejuvenateIndex (cells : Cells) (index : ℤ) :
    Bool × Cells :=
  dchainImplRejuvenateIndex cells index

/-- `dchain_locks_impl_is_index_allocated` is
`dchain_impl_is_index_allocated`. -/
abbrev dchainLocksImplIsIndexAllocated (cells : Cells) (index : ℤ) : Bool :=
  dchainImplIsIndexAllocated cells index

/-- The index after another one. -/
def dchainLocksImplNext
    (cells : Cells)
    (index : ℤ) : Option ℤ :=
  let cell := cells (index + indexShift)
  if cell.next = allocListHead then none else some (cell.next - indexShift)

/-- The first index of a list. -/
def dchainLocksImplGetOldestIndex (cells : Cells) : Option ℤ :=
  let alHead := cells allocListHead
  if alHead.next = alHead.prev ∧ alHead.next = allocListHead then none
  else some (alHead.next - indexShift)

/-- Move an index right behind another one. -/
def dchainLocksImplRepositionIndex
    (cells : Cells)
    (index newPrevIndex : ℤ) :
    Bool × Cells :=
  let lifted := index + indexShift
  let liftedNext := (cells lifted).next
  let liftedPrev := (cells lifted).prev
  -- The index is not allocated.
  if liftedNext = liftedPrev ∧ liftedNext ≠ allocListHead then (false, cells)
  else
    let cells := cells.setNext liftedPrev liftedNext
    let cells := cells.setPrev liftedNext liftedPrev
    let newPrev := newPrevIndex + indexShift
    let newPrevNext := (cells newPrev).next
    let cells := cells.setPrev lifted newPrev
    let cells := cells.setNext lifted newPrevNext
    let cells := cells.setPrev newPrevNext lifted
    let cells := cells.setNext newPrev lifted
    (true, cells)

/-! ## Replicas -/

/-- `struct DoubleChainLocks` without `range`, which no function reads. -/
structure DoubleChainLocks (cores : ℕ) where
  cells : Fin cores → Cells
  activeCells : Fin cores → Cells
  timestamps : Fin cores → ℤ → ℤ

namespace DoubleChainLocks

variable {cores : ℕ}

/-- `dchain_locks_allocate` on fresh memory.  Allocation failures of the system
are left out. -/
def dchainLocksAllocate
    (memory : DoubleChainLocks cores)
    (indexRange : ℤ) :
    DoubleChainLocks cores :=
  { cells := fun core => dchainLocksImplInit (memory.cells core) indexRange
    activeCells := fun core =>
      dchainLocksImplActivityInit (memory.activeCells core) indexRange
    timestamps := fun core index =>
      if 0 ≤ index ∧ index < indexRange then -1
      else memory.timestamps core index }

/-- Write-mode part of `dchain_locks_allocate_new_index`: the return code, the
index and the replicas after the loop over all cores. -/
def allocateOnAllCores
    (chain : DoubleChainLocks cores)
    (indexOut time : ℤ) : Bool × ℤ × DoubleChainLocks cores :=
  let result := fun core => dchainLocksImplAllocateNewIndex (chain.cells core)
  let (ret, indexOut) := (List.finRange cores).foldl
    (fun (_, indexOut) core =>
      match (result core).1 with
      | some index => (true, index)
      | none => (false, indexOut))
    (true, indexOut)
  (ret, indexOut,
    { chain with
      cells := fun core => (result core).2
      timestamps := fun core =>
        match (result core).1 with
        | some index => update (chain.timestamps core) index time
        | none => chain.timestamps core })

/-- `dchain_locks_allocate_new_index`. -/
def dchainLocksAllocateNewIndex
    (core : Fin cores)
    (flags : Flags)
    (chain : DoubleChainLocks cores)
    (indexOut time : ℤ) : Bool × ℤ × Flags × DoubleChainLocks cores :=
  if flags.writeState = false then
    (true, indexOut, { flags with writeAttempt := true }, chain)
  else
    let (ret, indexOut, chain) := allocateOnAllCores chain indexOut time
    if ret then
      let (_, active) :=
        dchainLocksImplActivateIndex (chain.activeCells core) indexOut
      (ret, indexOut, flags,
        { chain with
          activeCells := update chain.activeCells core active })
    else (ret, indexOut, flags, chain)

/-- `dchain_locks_rejuvenate_index`. -/
def dchainLocksRejuvenateIndex
    (core : Fin cores)
    (chain : DoubleChainLocks cores)
    (index time : ℤ) : Bool × DoubleChainLocks cores :=
  let (ret, cells) := dchainLocksImplRejuvenateIndex (chain.cells core) index
  let chain := { chain with cells := update chain.cells core cells }
  if ret then
    let (_, active) :=
      dchainLocksImplActivateIndex (chain.activeCells core) index
    (ret,
      { chain with
        timestamps := update chain.timestamps core
          (update (chain.timestamps core) index time)
        activeCells := update chain.activeCells core active })
  else (ret, chain)

/-- One round of the search in `dchain_locks_update_timestamp`. -/
def searchRound
    (cells : Cells)
    (timestamps : ℤ → ℤ)
    (index time : ℤ)
    (state : ℤ × ℤ) : Fuelled (Fuelled.Round (ℤ × ℤ) ℤ) :=
  let (prev, prevTime) := state
  match dchainLocksImplNext cells prev with
  | none => pure (.done (-1))
  | some next =>
      let nextTime := timestamps next
      if prevTime ≤ time ∧ time ≤ nextTime ∧ index ≠ prev then
        pure (.done prev)
      else pure (.next (next, nextTime))

/-- `dchain_locks_update_timestamp`: move an index of the calling core's replica
to where the time belongs. -/
def dchainLocksUpdateTimestamp
    (core : Fin cores)
    (chain : DoubleChainLocks cores)
    (index time : ℤ) : Fuelled (Bool × DoubleChainLocks cores) := do
  let newPrev ← Fuelled.loop
    (searchRound (chain.cells core) (chain.timestamps core) index time)
    (index, chain.timestamps core index)
  let (ret, cells) :=
    if newPrev = -1 then
      dchainLocksImplRejuvenateIndex (chain.cells core) index
    else dchainLocksImplRepositionIndex (chain.cells core) index newPrev
  pure (ret, { chain with cells := update chain.cells core cells })

/-- `dchain_locks_free_index`. -/
def dchainLocksFreeIndex
    (flags : Flags)
    (chain : DoubleChainLocks cores)
    (index : ℤ) : Bool × Flags × DoubleChainLocks cores :=
  if flags.writeState = false then
    (true, { flags with writeAttempt := true }, chain)
  else
    let result := fun core =>
      dchainLocksImplFreeIndex (chain.cells core) index
    let rez := (List.finRange cores).foldl (fun _ core => (result core).1) true
    (rez, flags,
      { cells := fun core => (result core).2
        activeCells := fun core =>
          (dchainLocksImplDeactivateIndex (chain.activeCells core) index).2
        timestamps := fun core =>
          update (chain.timestamps core) index (-1) })

/-- The latest time of an index over all cores, as the loop in
`dchain_locks_expire_one_index` computes it. -/
def mostRecent
    (chain : DoubleChainLocks cores)
    (index : ℤ) : ℤ :=
  (List.finRange cores).foldl
    (fun recent core =>
      if chain.timestamps core index > recent then chain.timestamps core index
      else recent)
    (-1)

/-- `dchain_locks_expire_one_index`. -/
def dchainLocksExpireOneIndex
    (core : Fin cores)
    (flags : Flags)
    (chain : DoubleChainLocks cores)
    (indexOut time : ℤ) : Fuelled (Bool × ℤ × Flags × DoubleChainLocks cores) :=
  match dchainLocksImplGetOldestIndex (chain.activeCells core) with
  | none => pure (false, indexOut, flags, chain)
  | some index =>
      if chain.timestamps core index > -1 ∧
          chain.timestamps core index < time then
        if flags.writeState = false then
          pure (true, index, { flags with writeAttempt := true }, chain)
        else if mostRecent chain index ≥ time then do
          let (ret, chain) ← dchainLocksUpdateTimestamp core chain index
            (mostRecent chain index)
          pure (ret, index, flags, chain)
        else
          let (rez, flags, chain) := dchainLocksFreeIndex flags chain index
          pure (rez, index, flags, chain)
      else pure (false, index, flags, chain)

/-- `dchain_locks_is_index_allocated`. -/
def dchainLocksIsIndexAllocated
    (core : Fin cores)
    (chain : DoubleChainLocks cores)
    (index : ℤ) : Bool :=
  dchainLocksImplIsIndexAllocated (chain.cells core) index

end DoubleChainLocks
end Vigor
