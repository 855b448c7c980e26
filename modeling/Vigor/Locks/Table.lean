import Vigor.FlowTable.Coherence
import Vigor.Locks.Expirator

/-!
# Flow tables of the lock-based build

A map, a vector and a lock-based chain, used by several cores under the write
lock.  The three structures stay coherent, with one table of entries behind
them, as long as the operations complete.
-/

namespace Vigor

open DoubleChain DoubleChainLocks ExpiratorLocks
open Worker (Flags)

/-- The three structures of a flow table. -/
structure LockTable (cores : ℕ) (K : Type) where
  chain : DoubleChainLocks cores
  keys : KeyedMap K

namespace LockTable

variable {cores : ℕ} {K : Type}

/-- A flow table over freshly allocated structures. -/
def allocate
    (build : Map.Build)
    (mapMemory : Map.Arrays (KeyRef K))
    (vector : ℤ → K)
    (chainMemory : DoubleChainLocks cores)
    (capacity : ℕ) : Option (LockTable cores K) :=
  match Map.mapAllocate build mapMemory capacity with
  | none => none
  | some map =>
      some
        { chain := dchainLocksAllocate chainMemory capacity
          keys := { map := map, vector := vector, calls := [] } }

section Functions

variable (build : Map.Build) (ops : Map.KeyOps K)

/-- `map_locks_put`. -/
def mapLocksPut
    (flags : Flags)
    (keys : KeyedMap K)
    (key : KeyRef K)
    (value : ℤ) : Flags × KeyedMap K :=
  if flags.writeState = false then
    ({ flags with writeAttempt := true }, keys)
  else (flags, keys.put build ops key value)

/-- `dchain_locks_rejuvenate_index`. -/
def rejuvenate
    (core : Fin cores)
    (index time : ℤ)
    (table : LockTable cores K) : LockTable cores K :=
  let (_, chain) := dchainLocksRejuvenateIndex core table.chain index time
  { table with chain := chain }

/-- `dchain_locks_allocate_new_index`, followed by writing the key into the cell
of the new index and `map_locks_put` of that cell. -/
def allocateFlow
    (core : Fin cores)
    (key : K)
    (time : ℤ)
    (table : LockTable cores K) : LockTable cores K :=
  let (allocated, index, flags, chain) :=
    dchainLocksAllocateNewIndex core writeMode table.chain (-1) time
  if allocated then
    let keys := table.keys.write index key
    let (_, keys) := mapLocksPut build ops flags keys (.cell index) index
    { chain := chain, keys := keys }
  else { table with chain := chain }

/-- `map_locks_get`, followed by a rejuvenation on a hit and by an allocation on
a miss. -/
def ensure
    (core : Fin cores)
    (key : K)
    (time : ℤ)
    (table : LockTable cores K) : LockTable cores K :=
  match table.keys.get build ops (.own key) with
  | some index => table.rejuvenate core index time
  | none => allocateFlow build ops core key time table

/-- Look a key up and, on a hit, `map_locks_erase` it and
`dchain_locks_free_index` its index. -/
def removeFlow
    (key : K)
    (table : LockTable cores K) : LockTable cores K :=
  match table.keys.get build ops (.own key) with
  | none => table
  | some index =>
      let (flags, keys) :=
        mapLocksErase build ops writeMode table.keys (.own key)
      let (_, _, chain) := dchainLocksFreeIndex flags table.chain index
      { chain := chain, keys := keys }

/-- `expire_items_single_map_locks`. -/
def expire
    (core : Fin cores)
    (time : ℤ)
    (table : LockTable cores K) : Fuelled (LockTable cores K) := do
  let (_, _, chain, keys) ← expireItemsSingleMapLocks core build ops writeMode
    table.chain table.keys time
  pure { chain := chain, keys := keys }

end Functions

/-- A complete operation of one core under the write lock. -/
inductive Operation (cores : ℕ) (K : Type)
  | ensure (core : Fin cores) (key : K) (time : ℤ)
  | rejuvenate (core : Fin cores) (index time : ℤ)
  | remove (core : Fin cores) (key : K)
  | expire (core : Fin cores) (time : ℤ)

/-- An operation as the code executes it. -/
def Operation.exec
    (build : Map.Build)
    (ops : Map.KeyOps K)
    (table : LockTable cores K) :
    Operation cores K → Fuelled (LockTable cores K)
  | .ensure core key time => pure (table.ensure build ops core key time)
  | .rejuvenate core index time => pure (table.rejuvenate core index time)
  | .remove _ key => pure (table.removeFlow build ops key)
  | .expire core time => table.expire build ops core time

/-- The time that an operation passes on as the time of a use. -/
def Operation.useTime : Operation cores K → Option ℤ
  | .ensure _ _ time | .rejuvenate _ _ time => some time
  | .remove .. | .expire .. => none

/-- The index that is passed to an operation lies in the range. -/
def Operation.InRange (capacity : ℕ) : Operation cores K → Prop
  | .rejuvenate _ index _ => 0 ≤ index ∧ index < capacity
  | .ensure .. | .remove .. | .expire .. => True

/-- A run of operations. -/
def run
    (build : Map.Build)
    (ops : Map.KeyOps K)
    (operations : List (Operation cores K))
    (table : LockTable cores K) : Fuelled (LockTable cores K) :=
  operations.foldlM (Operation.exec build ops) table

/-! ## Coherence -/

/-- The chain and the map represent one table of entries: replicas are in
lockstep, with nonnegative times in order, none of them after `now`, and the map
refers exactly to the cells of the allocated indexes. -/
structure Coherent
    (build : Map.Build)
    (ops : Map.KeyOps K)
    {capacity : ℕ}
    (now : ℤ)
    (table : LockTable cores K)
    (replicas : Replicas cores)
    (entries : IndexTable capacity K) : Prop where
  lockstep : Lockstep table.chain capacity replicas
  timed : replicas.Timed now
  free_eq : entries.allocator.free = replicas.free
  represents : table.keys.Represents build ops entries

namespace Coherent

variable
  {build : Map.Build}
  {ops : Map.KeyOps K}
  {capacity : ℕ}
  {now : ℤ}
  {table : LockTable cores K}
  {replicas : Replicas cores}
  {entries : IndexTable capacity K}

theorem allocate
    (positive : 0 < capacity)
    (bounded : capacity < 2 ^ 31)
    (allocated : LockTable.allocate build mapMemory vector chainMemory
      capacity = some table) :
    Coherent build ops 0 table
      (Replicas.initial capacity table.chain.timestamps)
      (IndexTable.initial capacity vector fun _ => 0) := by
  rw [LockTable.allocate] at allocated
  cases mapAllocated : Map.mapAllocate build mapMemory capacity with
  | none => simp [mapAllocated] at allocated
  | some map =>
      simp only [mapAllocated, Option.some.injEq] at allocated
      subst allocated
      exact ⟨Lockstep.dchainLocksAllocate chainMemory positive,
        Replicas.Timed.initial 0 capacity _, rfl,
        KeyedMap.Represents.allocate positive bounded mapAllocated _⟩

section

variable (coherent : Coherent build ops now table replicas entries)

include coherent

theorem mem_alloc_iff (index : ℤ) :
    index ∈ entries.alloc ↔
      (0 ≤ index ∧ index < capacity) ∧ index ∉ replicas.free := by
  rw [IndexTable.alloc, Allocator.mem_alloc_iff, coherent.free_eq]

theorem mono (le : now ≤ later) :
    Coherent build ops later table replicas entries :=
  ⟨coherent.lockstep, coherent.timed.mono le, coherent.free_eq, coherent.represents⟩

section

variable (nonnegativeTime : 0 ≤ now)
  (core : Fin cores)

include nonnegativeTime

theorem rejuvenate
    {index : ℤ}
    (nonnegative : 0 ≤ index)
    (bounded : index < capacity) :
    Coherent build ops now (table.rejuvenate core index now)
      (replicas.rejuvenate core index now).2 entries := by
  obtain ⟨chain, outcome, lockstep⟩ :=
    coherent.lockstep.dchainLocksRejuvenateIndex core nonnegative bounded now
  have keptFree : (replicas.rejuvenate core index now).2.free =
      replicas.free := by
    rw [Replicas.rejuvenate]
    split <;> rfl
  rw [LockTable.rejuvenate, outcome]
  exact ⟨lockstep, coherent.timed.rejuvenate nonnegativeTime core index,
    coherent.free_eq.trans keptFree.symm, coherent.represents⟩

theorem allocateFlow
    (absent : entries.find (fun stored => ops.eq stored key) = none) :
    Coherent build ops now (table.allocateFlow build ops core key now)
      (replicas.allocate core now).2 (entries.insert key now).2 := by
  obtain ⟨chain, outcome, lockstep⟩ :=
    coherent.lockstep.dchainLocksAllocateNewIndex core writeMode_writing (-1) now
  have timed := coherent.timed.allocate nonnegativeTime core
  rw [LockTable.allocateFlow, outcome]
  cases shape : replicas.free with
  | nil =>
      have full := coherent.free_eq.trans shape
      rw [Replicas.allocate_of_nil shape] at lockstep ⊢
      rw [IndexTable.insert_of_nil full]
      exact ⟨lockstep, coherent.timed, coherent.free_eq, coherent.represents⟩
  | cons index rest =>
      have available := coherent.free_eq.trans shape
      obtain ⟨reply, newFree, _, _⟩ :=
        Replicas.allocate_of_cons shape core now
      have added := coherent.represents.write_put absent available now
      rw [reply]
      refine ⟨lockstep, timed, ?_, added⟩
      rw [newFree, IndexTable.insert_of_cons available]
      exact (Allocator.allocateNewIndex_of_cons available).2.2

theorem ensure
    (key : K) :
    ∃ (replicas' : Replicas cores) (entries' : IndexTable capacity K),
      Coherent build ops now (table.ensure build ops core key now) replicas'
        entries' := by
  rw [LockTable.ensure, coherent.represents.get_eq_find key]
  cases found : entries.find fun stored => ops.eq stored key with
  | none => exact ⟨_, _, coherent.allocateFlow nonnegativeTime core found⟩
  | some index =>
      have inUse := (IndexTable.find_eq_some found).1
      obtain ⟨⟨nonnegative, bounded⟩, _⟩ :=
        (coherent.mem_alloc_iff index).mp inUse
      exact ⟨_, _, coherent.rejuvenate nonnegativeTime core nonnegative bounded⟩

end

theorem release
    (found : table.keys.get build ops ref = some index)
    {chain : DoubleChainLocks cores}
    (lockstep : Lockstep chain capacity (replicas.release index).2) :
    Coherent build ops now
      { chain := chain, keys := table.keys.erase build ops ref }
      (replicas.release index).2 (entries.remove index) := by
  have inUse := (coherent.represents.indexes.mapGet_eq_some_iff.mp found).1
  obtain ⟨_, allocated⟩ := (coherent.mem_alloc_iff index).mp inUse
  refine ⟨lockstep, coherent.timed.release index, ?_, coherent.represents.erase found⟩
  have newFree : (entries.remove index).allocator.free =
      index :: entries.allocator.free := by
    have member : index ∈ entries.allocator.alloc := inUse
    simp [IndexTable.remove, Allocator.freeIndex, member]
  rw [newFree, (Replicas.release_of_allocated allocated).2.1, coherent.free_eq]

theorem removeFlow
    (core : Fin cores)
    (key : K) :
    ∃ (replicas' : Replicas cores) (entries' : IndexTable capacity K),
      Coherent build ops now (table.removeFlow build ops key) replicas'
        entries' := by
  rw [LockTable.removeFlow]
  cases found : table.keys.get build ops (.own key) with
  | none => exact ⟨_, _, coherent⟩
  | some index =>
      have inUse := (coherent.represents.indexes.mapGet_eq_some_iff.mp found).1
      obtain ⟨⟨nonnegative, bounded⟩, _⟩ :=
        (coherent.mem_alloc_iff index).mp inUse
      obtain ⟨chain, outcome, lockstep⟩ :=
        coherent.lockstep.dchainLocksFreeIndex core writeMode_writing nonnegative bounded
      have erased : mapLocksErase build ops writeMode table.keys (.own key) =
          (writeMode, table.keys.erase build ops (.own key)) := rfl
      simp only [erased, outcome]
      exact ⟨_, _, coherent.release found lockstep⟩

end

end Coherent

end LockTable
end Vigor
