import Vigor.FlowTable.Current
import Vigor.Library.Ledger

/-!
# Flow tables as ledgers

A network function keeps more than the keys of its flows: a second vector holds
data for every index.  Seen from outside, where indexes do not show, such a
table is a ledger: the entries of the indexes in use, each with its key, its
data and the time of its last use.
-/

namespace Vigor

open DoubleChain

/-- The entry of an index. -/
def IndexTable.record
    {capacity : ℕ}
    {K : Type u}
    {D : Type v}
    (entries : IndexTable capacity K)
    (data : ℤ → D)
    (index : ℤ) : Ledger.Entry K D where
  key := entries.value index
  data := data index
  time := entries.time index

namespace FlowTable

variable {K : Type u} [DecidableEq K] {D : Type v}

/-- The table and the data of its indexes keep the entries of the ledger. -/
def Keeps
    (build : Map.Build)
    (hash : K → ℕ)
    (capacity : ℕ)
    (now : ℤ)
    (table : FlowTable K)
    (data : ℤ → D)
    (ledger : Ledger K D) : Prop :=
  ∃ entries : IndexTable capacity K,
    Current build hash now table entries ∧
      ledger.entries.Perm (entries.alloc.map (entries.record data))

namespace Keeps

variable
  {build : Map.Build}
  {hash : K → ℕ}
  {capacity : ℕ}
  {now : ℤ}
  {table : FlowTable K}
  {data : ℤ → D}
  {ledger : Ledger K D}

theorem mono
    (keeps : Keeps build hash capacity now table data ledger)
    (le : now ≤ later) :
    Keeps build hash capacity later table data ledger := by
  obtain ⟨entries, current, recorded⟩ := keeps
  exact ⟨entries, current.mono le, recorded⟩

theorem allocate
    (positive : 0 < capacity)
    (bounded : capacity < 2 ^ 31)
    (allocated : FlowTable.allocate build mapMemory vector chainMemory
      capacity = some table)
    (data : ℤ → D)
    (now : ℤ) :
    Keeps build hash capacity now table data .empty :=
  ⟨_, Current.allocate positive bounded allocated now, List.Perm.refl _⟩

section

variable (keeps : Keeps build hash capacity now table data ledger)

include keeps

theorem find_of_get
    (found : table.keys.get build (.ofHash hash) (.own key) = some index) :
    ∃ time, ledger.find key = some ⟨key, data index, time⟩ := by
  obtain ⟨entries, current, recorded⟩ := keeps
  obtain ⟨inUse, rfl⟩ := current.get_eq_some_iff.mp found
  refine ⟨entries.time index, Ledger.find_eq_some_iff.mpr ⟨?_, rfl⟩⟩
  exact recorded.mem_iff.mpr (List.mem_map_of_mem inUse)

theorem find_eq_none
    (absent : table.keys.get build (.ofHash hash) (.own key) = none) :
    ledger.find key = none := by
  obtain ⟨entries, current, recorded⟩ := keeps
  refine Ledger.find_eq_none_iff.mpr fun entry member => ?_
  obtain ⟨index, inUse, rfl⟩ := List.mem_map.mp (recorded.mem_iff.mp member)
  exact current.get_eq_none_iff.mp absent index inUse

theorem allocatedCount_eq :
    allocatedCount table.chain capacity = ledger.size := by
  obtain ⟨entries, current, recorded⟩ := keeps
  rw [current.coherent.allocatedCount_eq, Ledger.size, recorded.length_eq, List.length_map]

theorem expireItemsSingleMap (limit : ℤ) :
    ∃ count table',
      (expireItemsSingleMap build (.ofHash hash) limit table).Returns
        (count, table') ∧
      Keeps build hash capacity now table' data (ledger.expire limit) := by
  obtain ⟨entries, current, recorded⟩ := keeps
  obtain ⟨table', returns, current'⟩ := current.expireItemsSingleMap limit
  refine ⟨_, table', returns, _, current', ?_⟩
  have outcome := current.sorted.expire_exact limit
  have sameRecords : (entries.expire limit).record data = entries.record data := by
    funext index
    simp only [IndexTable.record, outcome.values, outcome.times]
  rw [sameRecords, outcome.kept]
  have filtered := recorded.filter fun entry => decide (limit ≤ entry.time)
  rw [List.filter_map] at filtered
  exact filtered

theorem rejuvenate
    (found : table.keys.get build (.ofHash hash) (.own key) = some index)
    (value : D) :
    Keeps build hash capacity now
      { table with chain := (dchainRejuvenateIndex table.chain index now).2 }
      (Function.update data index value) (ledger.put key value now) := by
  obtain ⟨time, isFound⟩ := keeps.find_of_get found
  obtain ⟨entries, current, recorded⟩ := keeps
  obtain ⟨inUse, rfl⟩ := current.get_eq_some_iff.mp found
  refine ⟨_, current.refresh inUse, ?_⟩
  rw [Ledger.entries_put_of_present (by simp [isFound])]
  refine (recorded.map _).trans (.trans (.of_eq ?_)
    ((IndexTable.alloc_refresh_perm inUse now).map _).symm)
  rw [List.map_map]
  refine List.map_congr_left fun other otherInUse => ?_
  by_cases same : other = index
  · subst same
    simp [Ledger.overwrite, IndexTable.record, IndexTable.refresh]
  · have otherKey : entries.value other ≠ entries.value index :=
      fun equal => same (current.index_unique otherInUse inUse equal)
    simp [Ledger.overwrite, IndexTable.record, IndexTable.refresh, same, otherKey]

theorem lookup_cases (key : K) :
    (ledger.find key = none ∧
        table.lookup build (.ofHash hash) key now = (none, table)) ∨
      ∃ index time table',
        ledger.find key = some ⟨key, data index, time⟩ ∧
        table.lookup build (.ofHash hash) key now = (some index, table') ∧
        ∀ value, Keeps build hash capacity now table'
          (Function.update data index value) (ledger.put key value now) := by
  cases found : table.keys.get build (.ofHash hash) (.own key) with
  | none =>
      refine .inl ⟨keeps.find_eq_none found, ?_⟩
      rw [FlowTable.lookup, found]
  | some index =>
      obtain ⟨time, isFound⟩ := keeps.find_of_get found
      refine .inr ⟨index, time, _, isFound, ?_, keeps.rejuvenate found⟩
      rw [FlowTable.lookup, found]

theorem allocateFlow_cases (absent : ledger.find key = none) :
    (capacity ≤ ledger.size ∧
        table.allocateFlow build (.ofHash hash) key now = (none, table)) ∨
      ∃ index table',
        ledger.size < capacity ∧
        table.allocateFlow build (.ofHash hash) key now = (some index, table') ∧
        ∀ value, Keeps build hash capacity now table'
          (Function.update data index value) (ledger.put key value now) := by
  have notFound : table.keys.get build (.ofHash hash) (.own key) = none := by
    cases found : table.keys.get build (.ofHash hash) (.own key) with
    | none => rfl
    | some index =>
        obtain ⟨time, isFound⟩ := keeps.find_of_get found
        simp [absent] at isFound
  obtain ⟨entries, current, recorded⟩ := keeps
  have total := entries.allocator.length_add_length
  have size : ledger.size = entries.allocator.alloc.length := by
    rw [Ledger.size, recorded.length_eq, List.length_map, IndexTable.alloc]
  cases shape : entries.allocator.free with
  | nil =>
      rw [shape, List.length_nil] at total
      exact .inl ⟨by omega, current.allocateFlow_of_full shape key⟩
  | cons index rest =>
      rw [shape, List.length_cons] at total
      obtain ⟨table', allocated, current'⟩ :=
        current.allocateFlow_of_available notFound shape
      refine .inr ⟨index, table', by omega, allocated, fun value =>
        ⟨_, current', ?_⟩⟩
      rw [Ledger.entries_put_of_absent absent, IndexTable.alloc_insert shape,
        IndexTable.insert_of_cons shape, List.map_append]
      refine .append (recorded.trans (.of_eq ?_)) (.of_eq ?_)
      · refine List.map_congr_left fun other inUse => ?_
        have different := IndexTable.ne_of_available shape inUse
        simp [IndexTable.record, different]
      · simp [IndexTable.record]

end

end Keeps
end FlowTable
end Vigor
