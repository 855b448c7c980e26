import Vigor.DoubleChain.Encoding
import Vigor.IndexTable

/-!
# The double chain of `double-chain.c`

The cells of `double-chain-impl.c` together with one timestamp per index.
Times are integers; nothing in these functions computes with them.  Each
function has one contract, stated on the table of entries that the chain
tracks.
-/

namespace Vigor

/-- `struct DoubleChain`. -/
structure DoubleChain where
  /-- The linked cells. -/
  cells : DoubleChain.Cells
  /-- Time of the last allocation or rejuvenation of each index. -/
  timestamps : ℤ → ℤ

namespace DoubleChain

/-- `dchain_allocate` on fresh memory.  Allocation failures of the system are
left out. -/
def dchainAllocate
    (memory : DoubleChain)
    (indexRange : ℤ) : DoubleChain :=
  { memory with cells := dchainImplInit memory.cells indexRange }

/-- `dchain_allocate_new_index`. -/
def dchainAllocateNewIndex
    (chain : DoubleChain)
    (time : ℤ) :
    Option ℤ × DoubleChain :=
  match dchainImplAllocateNewIndex chain.cells with
  | (some index, cells) =>
      (some index,
        { cells := cells
          timestamps := Function.update chain.timestamps index time })
  | (none, cells) => (none, { chain with cells := cells })

/-- `dchain_rejuvenate_index`. -/
def dchainRejuvenateIndex
    (chain : DoubleChain)
    (index time : ℤ) :
    Bool × DoubleChain :=
  let (ret, cells) := dchainImplRejuvenateIndex chain.cells index
  if ret then
    (ret,
      { cells := cells
        timestamps := Function.update chain.timestamps index time })
  else (ret, { chain with cells := cells })

/-- `dchain_expire_one_index`: free the oldest index if it is older than the
given time. -/
def dchainExpireOneIndex
    (chain : DoubleChain)
    (time : ℤ) :
    Option ℤ × DoubleChain :=
  match dchainImplGetOldestIndex chain.cells with
  | some index =>
      if chain.timestamps index < time then
        let (rez, cells) := dchainImplFreeIndex chain.cells index
        (if rez then some index else none, { chain with cells := cells })
      else (none, chain)
  | none => (none, chain)

/-- `dchain_is_index_allocated`. -/
def dchainIsIndexAllocated
    (chain : DoubleChain)
    (index : ℤ) : Bool :=
  dchainImplIsIndexAllocated chain.cells index

/-- `dchain_free_index`. -/
def dchainFreeIndex
    (chain : DoubleChain)
    (index : ℤ) : Bool × DoubleChain :=
  let (ret, cells) := dchainImplFreeIndex chain.cells index
  (ret, { chain with cells := cells })

/-! ## Contracts -/

/-- The chain keeps the allocator and the times of a table. -/
structure Tracks
    {capacity : Nat}
    {V : Type u}
    (chain : DoubleChain)
    (table : IndexTable capacity V) : Prop where
  encodes : Encodes chain.cells table.allocator
  times : chain.timestamps = table.time

namespace Tracks

variable {capacity : Nat} {V : Type u} {chain : DoubleChain}
  {table : IndexTable capacity V}

section

variable (tracks : chain.Tracks table)

include tracks

variable {index : ℤ}

theorem dchainIsIndexAllocated_iff
    (nonnegative : 0 ≤ index)
    (bounded : index < capacity) :
    dchainIsIndexAllocated chain index = true ↔ index ∈ table.alloc := by
  rw [dchainIsIndexAllocated, tracks.encodes.isIndexAllocated nonnegative bounded]
  exact decide_eq_true_iff

theorem dchainAllocateNewIndex_of_full
    (full : table.allocator.free = [])
    (time : ℤ) :
    dchainAllocateNewIndex chain time = (none, chain) := by
  rw [dchainAllocateNewIndex, tracks.encodes.allocateNewIndex_of_full full]

theorem dchainAllocateNewIndex_of_available
    (available : table.allocator.free = index :: rest)
    (value : V)
    (time : ℤ) :
    (dchainAllocateNewIndex chain time).1 = some index ∧
      (dchainAllocateNewIndex chain time).2.Tracks
        (table.insert value time).2 := by
  obtain ⟨reply, kept⟩ := tracks.encodes.allocateNewIndex_of_available available
  rw [IndexTable.insert_of_cons available, dchainAllocateNewIndex]
  generalize dchainImplAllocateNewIndex chain.cells = result at *
  obtain ⟨found, cells⟩ := result
  dsimp only at reply
  subst reply
  exact ⟨rfl, kept, by rw [← tracks.times]⟩

theorem dchainRejuvenateIndex
    (inUse : index ∈ table.alloc)
    (time : ℤ) :
    (dchainRejuvenateIndex chain index time).1 = true ∧
      (dchainRejuvenateIndex chain index time).2.Tracks
        (table.refresh index time) := by
  obtain ⟨reply, kept⟩ := tracks.encodes.rejuvenateIndex_of_allocated inUse
  rw [DoubleChain.dchainRejuvenateIndex]
  generalize dchainImplRejuvenateIndex chain.cells index = result at *
  obtain ⟨ret, cells⟩ := result
  dsimp only at reply
  subst reply
  exact ⟨rfl, kept, by rw [IndexTable.refresh, ← tracks.times]; rfl⟩

theorem dchainRejuvenateIndex_of_not_mem
    (isIndex : index = -1 ∨ 0 ≤ index ∧ index < capacity)
    (notInUse : index ∉ table.alloc)
    (time : ℤ) :
    DoubleChain.dchainRejuvenateIndex chain index time = (false, chain) := by
  have fails : dchainImplRejuvenateIndex chain.cells index = (false, chain.cells) := by
    rcases isIndex with rfl | ⟨nonnegative, bounded⟩
    · exact tracks.encodes.rejuvenateIndex_stackHead
    · exact tracks.encodes.rejuvenateIndex_of_not_allocated nonnegative bounded notInUse
  rw [DoubleChain.dchainRejuvenateIndex, fails]
  rfl

theorem dchainFreeIndex (inUse : index ∈ table.alloc) :
    (dchainFreeIndex chain index).1 = true ∧
      (dchainFreeIndex chain index).2.Tracks (table.remove index) := by
  obtain ⟨reply, kept⟩ := tracks.encodes.freeIndex_of_allocated inUse
  exact ⟨reply, kept, tracks.times⟩

theorem dchainExpireOneIndex_of_old
    (oldest : table.alloc = index :: rest)
    (old : table.time index < time) :
    dchainExpireOneIndex chain time =
      (some index, (DoubleChain.dchainFreeIndex chain index).2) := by
  have allocated : index ∈ table.alloc := by simp [oldest]
  have first : dchainImplGetOldestIndex chain.cells = some index := by
    rw [tracks.encodes.getOldestIndex]
    exact congrArg List.head? oldest
  have freed := (tracks.encodes.freeIndex_of_allocated allocated).1
  rw [← tracks.times] at old
  simp only [dchainExpireOneIndex, first, old, if_true, freed]
  rfl

theorem dchainExpireOneIndex_of_fresh
    (fresh : ∀ index ∈ table.alloc.head?, time ≤ table.time index) :
    dchainExpireOneIndex chain time = (none, chain) := by
  have first : dchainImplGetOldestIndex chain.cells = table.alloc.head? :=
    tracks.encodes.getOldestIndex
  rw [dchainExpireOneIndex, first]
  cases oldest : table.alloc.head? with
  | none => rfl
  | some index =>
      have notOld : ¬chain.timestamps index < time := by
        rw [tracks.times]
        exact Int.not_lt.mpr (fresh index (by simp [oldest]))
      simp only [notOld, if_false]

end

end Tracks

theorem dchainAllocate_tracks
    {V : Type u}
    (memory : DoubleChain)
    {capacity : Nat}
    (positive : 0 < capacity)
    (value : ℤ → V) :
    (dchainAllocate memory capacity).Tracks
      (IndexTable.initial capacity value memory.timestamps) :=
  ⟨Encodes.init memory.cells positive, rfl⟩

end DoubleChain
end Vigor
