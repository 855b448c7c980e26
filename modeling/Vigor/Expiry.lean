import Vigor.FlowTable.Coherence
import Vigor.DoubleMap.Coherence

/-!
# Expiry is exact

When the times passed to allocations and rejuvenations never decrease, the
chain stays sorted by time.  The expiry loops only look at the oldest index,
yet they free exactly the old indexes and erase exactly their keys.  This holds
for a map over a key vector and for a double map.
-/

namespace Vigor

open DoubleChain

variable {K : Type u}

namespace FlowTable

section Abstract

variable {capacity : ℕ}

/-- The time that an operation passes to the chain. -/
def Operation.touch
    (ops : Map.KeyOps K)
    (operation : Operation K)
    (entries : IndexTable capacity K) : Option ℤ :=
  match operation with
  | .expire _ | .remove _ => none
  | .lookup key time =>
      (entries.find fun stored => ops.eq stored key).map fun _ => time
  | .ensure _ time => some time

theorem Operation.steps
    (ops : Map.KeyOps K)
    (operation : Operation K)
    (entries : IndexTable capacity K) :
    IndexTable.Steps entries (operation.spec ops entries)
      (operation.touch ops entries) := by
  cases operation with
  | expire time => exact .expire entries time
  | lookup key time => exact .lookup _ time
  | ensure key time => exact .ensure _ key time
  | remove key => exact .removeFound _

/-- The entries after a run from the empty table. -/
def entriesAfter
    (ops : Map.KeyOps K)
    (operations : List (Operation K))
    (initially : IndexTable capacity K) : IndexTable capacity K :=
  operations.foldl (fun entries operation => operation.spec ops entries)
    initially

end Abstract

/-- The entries are sorted, and `expire_items_single_map` with any time stops,
returns the number of old entries, frees exactly their indexes and erases
exactly their keys. -/
def ExpiresExactly
    (build : Map.Build)
    (ops : Map.KeyOps K)
    {capacity : ℕ}
    (table : FlowTable K)
    (entries : IndexTable capacity K) : Prop :=
  entries.Sorted ∧ ∀ time, ∃ (after : FlowTable K)
      (remaining : IndexTable capacity K),
    (expireItemsSingleMap build ops time table).Returns
      ((entries.alloc.filter fun index => entries.time index < time).length,
        after) ∧
    Coherent build ops after.chain after.keys remaining ∧
    IndexTable.ExpiredExactly time entries remaining ∧
    ∀ key index, after.keys.get build ops (.own key) = some index ↔
      table.keys.get build ops (.own key) = some index ∧
        time ≤ entries.time index

/-- Expiry of a coherent table with sorted entries is exact. -/
theorem Coherent.expiresExactly
    {build : Map.Build}
    {ops : Map.KeyOps K}
    {capacity : ℕ}
    {table : FlowTable K}
    {entries : IndexTable capacity K}
    (coherent : Coherent build ops table.chain table.keys entries)
    (sorted : entries.Sorted) :
    ExpiresExactly build ops table entries := by
  refine ⟨sorted, fun time => ?_⟩
  obtain ⟨after, returns, kept⟩ := coherent.expireItemsSingleMap time
  have exactly := sorted.expire_exact time
  rw [sorted.expired_eq] at returns
  refine ⟨after, entries.expire time, returns, kept, exactly, ?_⟩
  intro key index
  rw [KeyedMap.get, KeyedMap.get, kept.represents.indexes.mapGet_eq_some_iff,
    coherent.represents.indexes.mapGet_eq_some_iff, exactly.kept,
    List.mem_filter, decide_eq_true_iff, kept.represents.vector_eq,
    coherent.represents.vector_eq, exactly.values]
  exact and_right_comm

end FlowTable

namespace ValueTable

variable {V : Type u} {A : Type v} {B : Type w}

/-- The entries are sorted, and `expire_items` with any time stops, returns the
number of old entries, frees exactly their indexes and erases exactly their
keys; the other values stay. -/
def ExpiresExactly
    (build : Map.Build)
    (ops : ValueOps V A B)
    {capacity : ℕ}
    (table : ValueTable V A B)
    (entries : IndexTable capacity V) : Prop :=
  entries.Sorted ∧ ∀ time, ∃ (after : ValueTable V A B)
      (remaining : IndexTable capacity V),
    (expireItems build ops time table).Returns
      ((entries.alloc.filter fun index => entries.time index < time).length,
        after) ∧
    Coherent build ops after.chain after.map remaining ∧
    IndexTable.ExpiredExactly time entries remaining ∧
    (∀ key index, DoubleMap.dmapGetA build ops after.map (.own key) = some index ↔
      DoubleMap.dmapGetA build ops table.map (.own key) = some index ∧
        time ≤ entries.time index) ∧
    (∀ key index, DoubleMap.dmapGetB build ops after.map (.own key) = some index ↔
      DoubleMap.dmapGetB build ops table.map (.own key) = some index ∧
        time ≤ entries.time index) ∧
    ∀ index ∈ remaining.alloc, DoubleMap.dmapGetValue after.map index =
      DoubleMap.dmapGetValue table.map index

/-- The entries after a run from the empty table. -/
def entriesAfter
    {capacity : ℕ}
    (ops : ValueOps V A B)
    (operations : List (Operation V A B))
    (initially : IndexTable capacity V) : IndexTable capacity V :=
  operations.foldl (fun entries operation => operation.spec ops entries)
    initially

/-- Expiry of coherent structures with sorted entries is exact. -/
theorem Coherent.expiresExactly
    {build : Map.Build}
    {ops : ValueOps V A B}
    {capacity : ℕ}
    {table : ValueTable V A B}
    {entries : IndexTable capacity V}
    (coherent : Coherent build ops table.chain table.map entries)
    (sorted : entries.Sorted) :
    ExpiresExactly build ops table entries := by
  refine ⟨sorted, fun time => ?_⟩
  obtain ⟨after, returns, kept⟩ := coherent.expireItems time
  have exactly := sorted.expire_exact time
  have keptIff : ∀ index, index ∈ (entries.expire time).alloc ↔
      index ∈ entries.alloc ∧ time ≤ entries.time index := by
    intro index
    rw [exactly.kept, List.mem_filter, decide_eq_true_iff]
  rw [sorted.expired_eq] at returns
  refine ⟨after, entries.expire time, returns, kept, exactly, ?_, ?_, ?_⟩
  · intro key index
    rw [kept.stores.dmapGetA_eq_some_iff, coherent.stores.dmapGetA_eq_some_iff,
      keptIff, exactly.values]
    exact and_right_comm
  · intro key index
    rw [kept.stores.dmapGetB_eq_some_iff, coherent.stores.dmapGetB_eq_some_iff,
      keptIff, exactly.values]
    exact and_right_comm
  · intro index inUse
    have before := ((keptIff index).mp inUse).1
    rw [DoubleMap.dmapGetValue, DoubleMap.dmapGetValue,
      kept.stores.values_eq index inUse,
      coherent.stores.values_eq index before, exactly.values]

theorem run_coherent
    (positive : 0 < capacity)
    (enough : capacity ≤ keysCapacity)
    (bounded : keysCapacity < 2 ^ 31)
    (allocated : ValueTable.allocate build mapMemory chainMemory capacity
      keysCapacity = some table)
    (operations : List (Operation V A B)) :
    ∃ final, (run build ops operations table).Returns final ∧
      Coherent build ops final.chain final.map
        (entriesAfter ops operations
          (IndexTable.initial capacity mapMemory.values
            chainMemory.timestamps)) := by
  refine Fuelled.foldlM_returns
    (fun (table : ValueTable V A B) (entries : IndexTable capacity V) =>
      Coherent build ops table.chain table.map entries) ?_
    (Coherent.allocate positive enough bounded allocated)
  intro operation _ table entries coherent
  exact coherent.exec operation

end ValueTable

/-- Exact expiry.  After every run from fresh structures in which the times
passed to `dchain_allocate_new_index` and `dchain_rejuvenate_index` never
decrease, the entries are sorted by time, and `expire_items_single_map` on the
map, the vector and the chain, or `expire_items` on the double map and the
chain, is exact for every time. -/
theorem expiry_is_exact
    {V : Type u}
    {A : Type v}
    {B : Type w}
    (build : Map.Build)
    (ops : Map.KeyOps K)
    (valueOps : ValueOps V A B)
    (mapMemory : Map.Arrays (KeyRef K))
    (vector : ℤ → K)
    (doubleMapMemory : DoubleMap V A B)
    (chainMemory : DoubleChain)
    {capacity keysCapacity : ℕ}
    (positive : 0 < capacity)
    (enough : capacity ≤ keysCapacity)
    (bounded : keysCapacity < 2 ^ 31) :
    (∀ (table : FlowTable K) (operations : List (FlowTable.Operation K)),
      FlowTable.allocate build mapMemory vector chainMemory capacity =
          some table →
        let initially : IndexTable capacity K :=
          IndexTable.initial capacity vector chainMemory.timestamps
        (IndexTable.passedTimes (FlowTable.Operation.spec ops)
            (FlowTable.Operation.touch ops) operations initially).Pairwise
            (· ≤ ·) →
          ∃ final, (FlowTable.run build ops operations table).Returns final ∧
            FlowTable.Coherent build ops final.chain final.keys
              (FlowTable.entriesAfter ops operations initially) ∧
            FlowTable.ExpiresExactly build ops final
              (FlowTable.entriesAfter ops operations initially)) ∧
    ∀ (table : ValueTable V A B) (operations : List (ValueTable.Operation V A B)),
      ValueTable.allocate build doubleMapMemory chainMemory capacity
          keysCapacity = some table →
        let initially : IndexTable capacity V :=
          IndexTable.initial capacity doubleMapMemory.values
            chainMemory.timestamps
        (IndexTable.passedTimes (ValueTable.Operation.spec valueOps)
            (ValueTable.Operation.touch valueOps) operations
            initially).Pairwise (· ≤ ·) →
          ∃ final,
            (ValueTable.run build valueOps operations table).Returns final ∧
            ValueTable.Coherent build valueOps final.chain final.map
              (ValueTable.entriesAfter valueOps operations initially) ∧
            ValueTable.ExpiresExactly build valueOps final
              (ValueTable.entriesAfter valueOps operations initially) := by
  constructor
  · intro table operations allocated initially monotone
    obtain ⟨final, returns, coherent⟩ := FlowTable.run_coherent positive
      (Nat.lt_of_le_of_lt enough bounded) allocated operations
    have sorted : (FlowTable.entriesAfter ops operations initially).Sorted :=
      IndexTable.sorted_foldl_initial _ _ (FlowTable.Operation.steps ops)
        operations vector chainMemory.timestamps monotone
    exact ⟨final, returns, coherent, coherent.expiresExactly sorted⟩
  · intro table operations allocated initially monotone
    obtain ⟨final, returns, coherent⟩ := ValueTable.run_coherent positive enough
      bounded allocated operations
    have sorted :
        (ValueTable.entriesAfter valueOps operations initially).Sorted :=
      IndexTable.sorted_foldl_initial _ _
        (ValueTable.Operation.steps valueOps) operations
        doubleMapMemory.values chainMemory.timestamps monotone
    exact ⟨final, returns, coherent, coherent.expiresExactly sorted⟩

/-- Two entries of which the older one is used again, in both kinds of table.
-/
theorem expiry_is_exact_two :
    let ops : Map.KeyOps ℕ := Map.KeyOps.ofHash id
    let valueOps : ValueOps ℕ ℕ ℕ := ⟨ops, ops, id, id, fun value _ _ => value,
      fun _ => 0, fun _ => rfl⟩
    let arrays : Map.Arrays (KeyRef ℕ) := ⟨fun _ => 1, fun _ => .own 0,
      fun _ => 0, fun _ => 1, fun _ => 0⟩
    let chain : DoubleChain := ⟨fun _ => ⟨0, 0⟩, fun _ => 0⟩
    let initially : IndexTable 2 ℕ := IndexTable.initial 2 (fun _ => 0) fun _ => 0
    (∃ table final, FlowTable.allocate .pow2 arrays (fun _ => 0) chain 2 =
        some table ∧
      (FlowTable.run .pow2 ops [.ensure 5 1, .ensure 6 2, .lookup 5 3]
        table).Returns final ∧
      FlowTable.ExpiresExactly .pow2 ops final
        (FlowTable.entriesAfter ops [.ensure 5 1, .ensure 6 2, .lookup 5 3]
          initially)) ∧
    ∃ table final, ValueTable.allocate .pow2
        (⟨fun _ => 0, arrays, arrays, 0, 0⟩ : DoubleMap ℕ ℕ ℕ) chain 2 4 =
        some table ∧
      (ValueTable.run .pow2 valueOps [.insert 5 1, .insert 6 2, .lookupA 5 3]
        table).Returns final ∧
      ValueTable.ExpiresExactly .pow2 valueOps final
        (ValueTable.entriesAfter valueOps
          [.insert 5 1, .insert 6 2, .lookupA 5 3] initially) := by
  intro ops valueOps arrays chain initially
  obtain ⟨single, double⟩ := expiry_is_exact .pow2 ops valueOps arrays
    (fun _ => 0) ⟨fun _ => 0, arrays, arrays, 0, 0⟩ chain
    (by decide : 0 < 2) (by decide : 2 ≤ 4) (by decide)
  constructor
  · obtain ⟨final, returns, _, exactly⟩ := single _
      [.ensure 5 1, .ensure 6 2, .lookup 5 3] rfl (by decide)
    exact ⟨_, final, rfl, returns, exactly⟩
  · obtain ⟨final, returns, _, exactly⟩ := double _
      [.insert 5 1, .insert 6 2, .lookupA 5 3] rfl (by decide)
    exact ⟨_, final, rfl, returns, exactly⟩

end Vigor
