import Vigor.FlowTable.Impl

/-!
# Coherence of flow tables

The map, the vector and the chain of a flow table stay coherent: the map refers
exactly to the vector cells of the allocated indexes, so that the three
structures together represent one table of entries.  Each operation is proved
once against its abstract counterpart; runs follow.
-/

namespace Vigor

open DoubleChain

variable {K : Type u} {build : Map.Build} {ops : Map.KeyOps K}

namespace KeyedMap

/-- The map indexes the cells of the indexes in use. -/
structure Represents
    (build : Map.Build)
    (ops : Map.KeyOps K)
    {capacity : ℕ}
    (keys : KeyedMap K)
    (table : IndexTable capacity K) : Prop where
  indexes : keys.map.Indexes build ops keys.vector table.alloc
  capacity_eq : keys.map.capacity = capacity
  vector_eq : keys.vector = table.value
  /-- All calls so far met their preconditions. -/
  safe : ∀ call ∈ keys.calls, call.Safe build ops

namespace Represents

variable {capacity : ℕ} {keys : KeyedMap K} {table : IndexTable capacity K}

theorem allocate
    {vector : ℤ → K}
    {map : Map (KeyRef K)}
    (positive : 0 < capacity)
    (bounded : capacity < 2 ^ 31)
    (allocated : Map.mapAllocate build mapMemory capacity = some map)
    (time : ℤ → ℤ) :
    Represents build ops { map := map, vector := vector, calls := [] }
      (IndexTable.initial capacity vector time) where
  indexes := Map.Refers.allocate positive bounded allocated
  capacity_eq := (Map.mapAllocate_valid (ops.onRefs vector) positive bounded allocated).2.1
  vector_eq := rfl
  safe := by simp

section

variable (represents : Represents build ops keys table)

include represents

theorem get_eq_find
    (key : K) :
    keys.get build ops (.own key) = table.find fun stored =>
      ops.eq stored key := by
  rw [IndexTable.find, ← represents.vector_eq]
  exact represents.indexes.mapGet_eq_find key

theorem erase
    (found : keys.get build ops ref = some index) :
    Represents build ops (keys.erase build ops ref) (table.remove index) := by
  have inUse := (represents.indexes.mapGet_eq_some_iff.mp found).1
  refine ⟨?_, represents.capacity_eq, represents.vector_eq, ?_⟩
  · rw [IndexTable.alloc_remove inUse]
    exact (represents.indexes.mapErase table.nodup_alloc found).2
  · intro call member
    rcases List.mem_cons.mp member with new | earlier
    · subst new
      intro missing
      exact Option.some_ne_none index (found.symm.trans missing)
    · exact represents.safe call earlier

theorem write_put
    (absent : table.find (fun stored => ops.eq stored key) = none)
    (available : table.allocator.free = index :: rest)
    (time : ℤ) :
    Represents build ops
      ((keys.write index key).put build ops (.cell index) index)
      (table.insert key time).2 := by
  have unused : ∀ other ∈ table.alloc, other ≠ index :=
    fun _ inUse => IndexTable.ne_of_available available inUse
  have room : table.alloc.length < keys.map.capacity := by
    rw [represents.capacity_eq]
    exact IndexTable.length_lt_of_available available
  obtain ⟨stillAbsent, indexes⟩ := represents.indexes.mapPut_written
    (fun other inUse =>
      Function.update_of_ne (unused other inUse) key keys.vector)
    (fun other inUse => by
      rw [Function.update_self, represents.vector_eq]
      exact Bool.eq_false_iff.mpr (List.find?_eq_none.mp absent other inUse))
    room
  refine ⟨?_, represents.capacity_eq, ?_, ?_⟩
  · rw [IndexTable.alloc_insert available]
    exact indexes
  · rw [IndexTable.value_insert available, ← represents.vector_eq]
    rfl
  · intro call member
    rcases List.mem_cons.mp member with put | earlier
    · subst put
      exact ⟨stillAbsent, represents.indexes.size_eq.trans_lt room⟩
    rcases List.mem_cons.mp earlier with write | earlier
    · subst write
      intro value held
      obtain ⟨cell, inUse, isCell, _⟩ := (represents.indexes.holds_iff _ value).mp held
      exact unused cell inUse (KeyRef.cell.inj isCell).symm
    · exact represents.safe call earlier

end

end Represents
end KeyedMap

namespace FlowTable

/-- The chain and the map represent one table of entries. -/
structure Coherent
    (build : Map.Build)
    (ops : Map.KeyOps K)
    {capacity : ℕ}
    (chain : DoubleChain)
    (keys : KeyedMap K)
    (entries : IndexTable capacity K) : Prop where
  tracks : chain.Tracks entries
  represents : keys.Represents build ops entries

namespace Coherent

variable {capacity : ℕ} {table : FlowTable K} {entries : IndexTable capacity K}

theorem allocate
    (positive : 0 < capacity)
    (bounded : capacity < 2 ^ 31)
    (allocated : FlowTable.allocate build mapMemory vector chainMemory
      capacity = some table) :
    Coherent build ops table.chain table.keys
      (IndexTable.initial capacity vector chainMemory.timestamps) := by
  rw [FlowTable.allocate] at allocated
  cases mapAllocated : Map.mapAllocate build mapMemory capacity with
  | none => simp [mapAllocated] at allocated
  | some map =>
      rw [mapAllocated] at allocated
      have built := Option.some.inj allocated
      subst built
      exact ⟨dchainAllocate_tracks chainMemory positive vector,
        KeyedMap.Represents.allocate positive bounded mapAllocated _⟩

theorem erases
    (build : Map.Build)
    (ops : Map.KeyOps K)
    (capacity : ℕ) :
    Expirator.Erases
      (fun index keys => KeyedMap.erase build ops (.cell index) keys)
      (fun chain keys (entries : IndexTable capacity K) =>
        Coherent build ops chain keys entries) := by
  constructor
  · intro chain keys entries coherent
    exact coherent.tracks
  · intro chain keys entries index rest coherent oldest
    have inUse : index ∈ entries.alloc := by simp [oldest]
    have found : keys.get build ops (.cell index) = some index :=
      coherent.represents.indexes.mapGet_eq_some_iff.mpr ⟨inUse, ops.eq_refl _⟩
    exact ⟨(coherent.tracks.dchainFreeIndex inUse).2, coherent.represents.erase found⟩

section

variable (coherent : Coherent build ops table.chain table.keys entries)

include coherent

theorem expireItemsSingleMap (time : ℤ) :
    ∃ table', (expireItemsSingleMap build ops time table).Returns
        ((entries.expired time).length, table') ∧
      Coherent build ops table'.chain table'.keys (entries.expire time) := by
  obtain ⟨chain, keys, returns, kept⟩ :=
    (erases build ops capacity).expireLoop_returns time coherent
  exact ⟨⟨chain, keys⟩, returns.bind (Fuelled.returns_pure _), kept⟩

theorem refresh
    (inUse : index ∈ entries.alloc)
    (time : ℤ) :
    Coherent build ops (dchainRejuvenateIndex table.chain index time).2
      table.keys (entries.refresh index time) := by
  refine ⟨(coherent.tracks.dchainRejuvenateIndex inUse time).2, ?_,
    coherent.represents.capacity_eq, coherent.represents.vector_eq,
    coherent.represents.safe⟩
  exact coherent.represents.indexes.of_perm (IndexTable.alloc_refresh_perm inUse time)

theorem lookup
    (key : K)
    (time : ℤ) :
    (lookup build ops key time table).1 =
        (entries.lookup (fun stored => ops.eq stored key) time).1 ∧
      Coherent build ops (lookup build ops key time table).2.chain
        (lookup build ops key time table).2.keys
        (entries.lookup (fun stored => ops.eq stored key) time).2 := by
  rw [FlowTable.lookup, IndexTable.lookup, coherent.represents.get_eq_find key]
  cases found : entries.find fun stored => ops.eq stored key with
  | none => exact ⟨rfl, coherent⟩
  | some index => exact ⟨rfl, coherent.refresh (IndexTable.find_eq_some found).1 time⟩

theorem allocateFlow
    (absent : entries.find (fun stored => ops.eq stored key) = none)
    (time : ℤ) :
    (allocateFlow build ops key time table).1 = (entries.insert key time).1 ∧
      Coherent build ops (allocateFlow build ops key time table).2.chain
        (allocateFlow build ops key time table).2.keys
        (entries.insert key time).2 := by
  cases shape : entries.allocator.free with
  | nil =>
      rw [FlowTable.allocateFlow,
        coherent.tracks.dchainAllocateNewIndex_of_full shape,
        IndexTable.insert_of_nil shape]
      exact ⟨rfl, coherent⟩
  | cons index rest =>
      obtain ⟨reply, tracks⟩ :=
        coherent.tracks.dchainAllocateNewIndex_of_available shape key time
      have added := coherent.represents.write_put absent shape time
      rw [FlowTable.allocateFlow]
      generalize dchainAllocateNewIndex table.chain time = outcome at *
      obtain ⟨found, chain⟩ := outcome
      dsimp only at reply
      subst reply
      rw [IndexTable.insert_of_cons shape] at *
      exact ⟨rfl, tracks, added⟩

theorem ensure
    (key : K)
    (time : ℤ) :
    (ensure build ops key time table).1 =
        (entries.ensure (fun stored => ops.eq stored key) key time).1 ∧
      Coherent build ops (ensure build ops key time table).2.chain
        (ensure build ops key time table).2.keys
        (entries.ensure (fun stored => ops.eq stored key) key time).2 := by
  rw [FlowTable.ensure, FlowTable.lookup, IndexTable.ensure, coherent.represents.get_eq_find key]
  cases found : entries.find fun stored => ops.eq stored key with
  | none => exact coherent.allocateFlow found time
  | some index => exact ⟨rfl, coherent.refresh (IndexTable.find_eq_some found).1 time⟩

theorem removeFlow (key : K) :
    (removeFlow build ops key table).1 =
        (entries.removeFound fun stored => ops.eq stored key).1 ∧
      Coherent build ops (removeFlow build ops key table).2.chain
        (removeFlow build ops key table).2.keys
        (entries.removeFound fun stored => ops.eq stored key).2 := by
  have same := coherent.represents.get_eq_find key
  rw [FlowTable.removeFlow, IndexTable.removeFound, same]
  cases found : entries.find fun stored => ops.eq stored key with
  | none => exact ⟨rfl, coherent⟩
  | some index =>
      have inUse := (IndexTable.find_eq_some found).1
      exact ⟨rfl, (coherent.tracks.dchainFreeIndex inUse).2,
        coherent.represents.erase (same.trans found)⟩

end

end Coherent

/-! ## Runs -/

/-- An operation on the abstract table. -/
def Operation.spec
    {capacity : ℕ}
    (ops : Map.KeyOps K)
    (operation : Operation K)
    (entries : IndexTable capacity K) : IndexTable capacity K :=
  match operation with
  | .expire time => entries.expire time
  | .lookup key time => (entries.lookup (fun stored => ops.eq stored key) time).2
  | .ensure key time =>
      (entries.ensure (fun stored => ops.eq stored key) key time).2
  | .remove key => (entries.removeFound fun stored => ops.eq stored key).2

/-- Every operation returns and keeps the tables coherent. -/
theorem Coherent.exec
    {capacity : ℕ}
    {table : FlowTable K}
    {entries : IndexTable capacity K}
    (coherent : Coherent build ops table.chain table.keys entries)
    (operation : Operation K) :
    ∃ table', (operation.exec build ops table).Returns table' ∧
      Coherent build ops table'.chain table'.keys
        (operation.spec ops entries) := by
  cases operation with
  | expire time =>
      obtain ⟨table', returns, kept⟩ := coherent.expireItemsSingleMap time
      exact ⟨table', returns.bind (Fuelled.returns_pure _), kept⟩
  | lookup key time => exact ⟨_, Fuelled.returns_pure _, (coherent.lookup key time).2⟩
  | ensure key time => exact ⟨_, Fuelled.returns_pure _, (coherent.ensure key time).2⟩
  | remove key => exact ⟨_, Fuelled.returns_pure _, (coherent.removeFlow key).2⟩

theorem run_coherent
    (positive : 0 < capacity)
    (bounded : capacity < 2 ^ 31)
    (allocated : FlowTable.allocate build mapMemory vector chainMemory
      capacity = some table)
    (operations : List (Operation K)) :
    ∃ final, (run build ops operations table).Returns final ∧
      Coherent build ops final.chain final.keys
        (operations.foldl (fun entries operation => operation.spec ops entries)
          (IndexTable.initial capacity vector chainMemory.timestamps)) := by
  refine Fuelled.foldlM_returns
    (fun (table : FlowTable K) (entries : IndexTable capacity K) =>
      Coherent build ops table.chain table.keys entries) ?_
    (Coherent.allocate positive bounded allocated)
  intro operation _ table entries coherent
  exact coherent.exec operation

/-- The number of allocated indexes, by the test that the code offers. -/
def allocatedCount
    (chain : DoubleChain)
    (capacity : ℕ) : ℕ :=
  ((List.range capacity).filter fun (index : ℕ) =>
    dchainIsIndexAllocated chain index).length

theorem Coherent.allocatedCount_eq
    {chain : DoubleChain}
    {keys : KeyedMap K}
    {entries : IndexTable capacity K}
    (coherent : Coherent build ops chain keys entries) :
    allocatedCount chain capacity = entries.alloc.length := by
  have permuted : (((List.range capacity).filter fun (index : ℕ) =>
      dchainIsIndexAllocated chain index).map Int.ofNat).Perm entries.alloc := by
    rw [List.perm_ext_iff_of_nodup
      ((List.nodup_range.filter _).map Int.ofNat_injective)
      entries.nodup_alloc]
    intro index
    simp only [List.mem_map, List.mem_filter, List.mem_range]
    constructor
    · intro listed
      obtain ⟨natural, ⟨inside, allocated⟩, same⟩ := listed
      subst same
      exact (coherent.tracks.dchainIsIndexAllocated_iff (Int.natCast_nonneg _)
        (Int.ofNat_lt.mpr inside)).mp allocated
    · intro inUse
      obtain ⟨nonnegative, inside⟩ :=
        entries.allocator.inRange_of_mem_alloc inUse
      have natural := Int.toNat_of_nonneg nonnegative
      refine ⟨index.toNat, ⟨by omega, ?_⟩, natural⟩
      rw [natural]
      exact (coherent.tracks.dchainIsIndexAllocated_iff nonnegative inside).mpr inUse
  simpa [allocatedCount] using permuted.length_eq

/-- In every run from fresh structures, and so after every operation: `map_get`
yields an index exactly when the index is allocated and its cell holds the key;
the map has as many entries as there are allocated indexes; and no call broke
its precondition.  The run never gets stuck in the expiry loop. -/
theorem run_keeps_structures_coherent
    (build : Map.Build)
    (ops : Map.KeyOps K)
    (mapMemory : Map.Arrays (KeyRef K))
    (vector : ℤ → K)
    (chainMemory : DoubleChain)
    {capacity : ℕ}
    {table : FlowTable K}
    (positive : 0 < capacity)
    (bounded : capacity < 2 ^ 31)
    (allocated : FlowTable.allocate build mapMemory vector chainMemory
      capacity = some table)
    (operations : List (Operation K)) :
    ∃ final, (run build ops operations table).Returns final ∧
      (∀ key index, final.keys.get build ops (.own key) = some index ↔
        (0 ≤ index ∧ index < capacity) ∧
          dchainIsIndexAllocated final.chain index = true ∧
            ops.eq (final.keys.vector index) key = true) ∧
      Map.mapSize final.keys.map = allocatedCount final.chain capacity ∧
      ∀ call ∈ final.keys.calls, call.Safe build ops := by
  obtain ⟨final, returns, coherent⟩ :=
    run_coherent positive bounded allocated operations
  refine ⟨final, returns, ?_, ?_, coherent.represents.safe⟩
  · intro key index
    rw [KeyedMap.get, coherent.represents.indexes.mapGet_eq_some_iff]
    constructor
    · intro found
      have inRange :=
        (IndexTable.allocator _).inRange_of_mem_alloc found.1
      exact ⟨inRange, (coherent.tracks.dchainIsIndexAllocated_iff inRange.1
        inRange.2).mpr found.1, found.2⟩
    · intro found
      exact ⟨(coherent.tracks.dchainIsIndexAllocated_iff found.1.1
        found.1.2).mp found.2.1, found.2.2⟩
  · rw [coherent.allocatedCount_eq]
    exact coherent.represents.indexes.size_eq

/-- Two entries, a third key that finds no room, and the same key again once the
oldest entry has expired: it gets the cell of the expired key. -/
theorem run_keeps_structures_coherent_reuse :
    let ops : Map.KeyOps ℕ := Map.KeyOps.ofHash id
    let memory : Map.Arrays (KeyRef ℕ) := ⟨fun _ => 1, fun _ => .own 0,
      fun _ => 0, fun _ => 1, fun _ => 0⟩
    let chainMemory : DoubleChain := ⟨fun _ => ⟨0, 0⟩, fun _ => 0⟩
    let table : FlowTable ℕ := ⟨dchainAllocate chainMemory 2,
      ⟨⟨Map.mapImplInit memory 2, 2, 0⟩, fun _ => 0, []⟩⟩
    let operations : List (Operation ℕ) := [.ensure 5 1, .ensure 6 2, .ensure 7 3,
      .expire 2, .ensure 7 4]
    allocate .modulo memory (fun _ => 0) chainMemory 2 = some table ∧
      ∃ final, (run .modulo ops operations table).Returns final ∧
        final.keys.get .modulo ops (.own 7) = some 0 ∧
        final.keys.get .modulo ops (.own 5) = none ∧
        ∀ call ∈ final.keys.calls, call.Safe .modulo ops := by
  intro ops memory chainMemory table operations
  refine ⟨rfl, ?_⟩
  obtain ⟨final, returns, _, _, safe⟩ := run_keeps_structures_coherent .modulo
    ops memory (fun _ => 0) chainMemory (by decide : 0 < 2) (by decide) rfl
    operations
  have computed : ((run .modulo ops operations table).run 9).map
      (fun table : FlowTable ℕ => (table.keys.get .modulo ops (.own 7),
        table.keys.get .modulo ops (.own 5))) = some (some 0, none) := by
    decide
  have values := returns.view_eq 9 computed
  exact ⟨final, returns, congrArg Prod.fst values, congrArg Prod.snd values,
    safe⟩

end FlowTable
end Vigor
