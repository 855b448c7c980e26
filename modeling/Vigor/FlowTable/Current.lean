import Vigor.FlowTable.Coherence

/-!
# Flow tables in time

When the times that a network function passes to its flow table never decrease,
the entries stay in the order of their times.  The structures then represent a
sorted table, in which every key has one entry, expiry is exact, and each
operation has one contract.
-/

namespace Vigor
namespace FlowTable

open DoubleChain

variable {K : Type u} [DecidableEq K]

/-- The structures represent the entries, which are sorted and not in the
future. -/
structure Current
    (build : Map.Build)
    (hash : K → ℕ)
    {capacity : ℕ}
    (now : ℤ)
    (table : FlowTable K)
    (entries : IndexTable capacity K) : Prop where
  coherent : Coherent build (.ofHash hash) table.chain table.keys entries
  sorted : entries.Sorted
  notAfter : entries.NotAfter now

namespace Current

variable
  {build : Map.Build}
  {hash : K → ℕ}
  {capacity : ℕ}
  {now : ℤ}
  {table : FlowTable K}
  {entries : IndexTable capacity K}

theorem mono
    (current : Current build hash now table entries)
    (le : now ≤ later) :
    Current build hash later table entries :=
  { current with notAfter := current.notAfter.mono le }

theorem allocate
    (positive : 0 < capacity)
    (bounded : capacity < 2 ^ 31)
    (allocated : FlowTable.allocate build mapMemory vector chainMemory
      capacity = some table)
    (now : ℤ) :
    Current build hash now table
      (IndexTable.initial capacity vector chainMemory.timestamps) where
  coherent := Coherent.allocate positive bounded allocated
  sorted := List.Pairwise.nil
  notAfter _ member := absurd member List.not_mem_nil

/-! ## Searching -/

section

variable (current : Current build hash now table entries)

include current

theorem get_eq_some_iff :
    table.keys.get build (.ofHash hash) (.own key) = some index ↔
      index ∈ entries.alloc ∧ entries.value index = key := by
  rw [KeyedMap.get, current.coherent.represents.indexes.mapGet_eq_some_iff,
    current.coherent.represents.vector_eq]
  exact and_congr_right fun _ => decide_eq_true_iff

theorem get_eq_none_iff :
    table.keys.get build (.ofHash hash) (.own key) = none ↔
      ∀ index ∈ entries.alloc, entries.value index ≠ key := by
  rw [Option.eq_none_iff_forall_ne_some]
  simp only [ne_eq, current.get_eq_some_iff, not_and]

theorem index_unique
    (inUse : index ∈ entries.alloc)
    (otherInUse : other ∈ entries.alloc)
    (same : entries.value index = entries.value other) :
    index = other :=
  Option.some.inj ((current.get_eq_some_iff.mpr ⟨inUse, same⟩).symm.trans
    (current.get_eq_some_iff.mpr ⟨otherInUse, rfl⟩))

theorem get_eq_find (key : K) :
    table.keys.get build (.ofHash hash) (.own key) = entries.find fun stored =>
      stored = key :=
  current.coherent.represents.get_eq_find key

theorem find_eq_none
    (absent : table.keys.get build (.ofHash hash) (.own key) = none) :
    entries.find (fun stored =>
      (Map.KeyOps.ofHash hash).eq stored key) = none :=
  (current.get_eq_find key).symm.trans absent

/-! ## Operations -/

theorem expireItemsSingleMap (limit : ℤ) :
    ∃ table', (expireItemsSingleMap build (.ofHash hash) limit table).Returns
        ((entries.expired limit).length, table') ∧
      Current build hash now table' (entries.expire limit) := by
  obtain ⟨table', returns, coherent⟩ :=
    current.coherent.expireItemsSingleMap limit
  refine ⟨table', returns, coherent, current.sorted.expire limit, ?_⟩
  exact (IndexTable.Steps.expire entries limit).notAfter now current.notAfter (by simp)

theorem refresh (inUse : index ∈ entries.alloc) :
    Current build hash now
      { table with chain := (dchainRejuvenateIndex table.chain index now).2 }
      (entries.refresh index now) :=
  ⟨current.coherent.refresh inUse now,
    current.sorted.refresh current.notAfter inUse,
    (IndexTable.Steps.refresh inUse).notAfter now current.notAfter (by simp)⟩

theorem remove
    (found : table.keys.get build (.ofHash hash) (.own key) = some index) :
    Current build hash now
      { chain := (dchainFreeIndex table.chain index).2
        keys := table.keys.erase build (.ofHash hash) (.own key) }
      (entries.remove index) := by
  have inUse := (current.get_eq_some_iff.mp found).1
  exact ⟨⟨(current.coherent.tracks.dchainFreeIndex inUse).2,
      current.coherent.represents.erase found⟩,
    current.sorted.remove inUse,
    (IndexTable.Steps.remove inUse).notAfter now current.notAfter (by simp)⟩

theorem allocateFlow_of_full
    (full : entries.allocator.free = [])
    (key : K) :
    allocateFlow build (.ofHash hash) key now table = (none, table) := by
  rw [FlowTable.allocateFlow, current.coherent.tracks.dchainAllocateNewIndex_of_full full]

theorem allocateFlow_of_available
    (absent : table.keys.get build (.ofHash hash) (.own key) = none)
    (available : entries.allocator.free = index :: rest) :
    ∃ table', allocateFlow build (.ofHash hash) key now table =
        (some index, table') ∧
      Current build hash now table' (entries.insert key now).2 := by
  obtain ⟨reply, coherent⟩ :=
    current.coherent.allocateFlow (current.find_eq_none absent) now
  rw [IndexTable.insert_of_cons available] at reply
  exact ⟨_, Prod.ext reply rfl, coherent,
    current.sorted.insert current.notAfter key,
    (IndexTable.Steps.insert key).notAfter now current.notAfter (by simp)⟩

end

end Current
end FlowTable
end Vigor
