import Vigor.DoubleMap.Contract
import Vigor.Expirator

/-!
# Double maps whose slots come from a double chain

The slots of a double map are the indexes of a chain: a value is stored at a
new index, and `expire_items` erases the values of old indexes.  The two
structures represent one table of entries.
-/

namespace Vigor

open DoubleChain

variable {V : Type u} {A : Type v} {B : Type w}

/-- A double map and the chain of its slots. -/
structure ValueTable (V : Type u) (A : Type v) (B : Type w) where
  chain : DoubleChain
  map : DoubleMap V A B

namespace ValueTable

section Functions

variable (build : Map.Build) (ops : ValueOps V A B)

/-- `expire_items`. -/
def expireItems
    (time : ℤ)
    (table : ValueTable V A B) :
    Fuelled (ℤ × ValueTable V A B) := do
  let (count, chain, map) ← Expirator.expireLoop
    (fun index map => DoubleMap.dmapErase build ops map index) time
    table.chain table.map
  pure (count, { chain := chain, map := map })

/-- `dchain_rejuvenate_index` of the slot that a lookup found. -/
def rejuvenate
    (found : Option ℤ)
    (time : ℤ)
    (table : ValueTable V A B) :
    ValueTable V A B :=
  match found with
  | none => table
  | some index =>
      { table with chain := (dchainRejuvenateIndex table.chain index time).2 }

/-- Store a value at a new index when both of its keys are unknown. -/
def insert
    (value : V)
    (time : ℤ)
    (table : ValueTable V A B) :
    ValueTable V A B :=
  match DoubleMap.dmapGetA build ops table.map (.own (ops.exkA value)),
      DoubleMap.dmapGetB build ops table.map (.own (ops.exkB value)) with
  | none, none =>
      match dchainAllocateNewIndex table.chain time with
      | (none, chain) => { table with chain := chain }
      | (some index, chain) =>
          { chain := chain
            map := DoubleMap.dmapPut build ops table.map value index }
  | _, _ => table

/-- Erase the value with a first key and free its index. -/
def remove
    (key : A)
    (table : ValueTable V A B) : ValueTable V A B :=
  match DoubleMap.dmapGetA build ops table.map (.own key) with
  | none => table
  | some index =>
      { chain := (dchainFreeIndex table.chain index).2
        map := DoubleMap.dmapErase build ops table.map index }

/-- What a program does to the two structures. -/
inductive Operation (V : Type u) (A : Type v) (B : Type w)
  | expire (time : ℤ)
  | lookupA (key : A) (time : ℤ)
  | lookupB (key : B) (time : ℤ)
  | insert (value : V) (time : ℤ)
  | remove (key : A)

/-- An operation as the code executes it. -/
def Operation.exec
    (operation : Operation V A B)
    (table : ValueTable V A B) :
    Fuelled (ValueTable V A B) :=
  match operation with
  | .expire time => do
      let (_, table) ← expireItems build ops time table
      pure table
  | .lookupA key time =>
      pure (table.rejuvenate (DoubleMap.dmapGetA build ops table.map (.own key))
        time)
  | .lookupB key time =>
      pure (table.rejuvenate (DoubleMap.dmapGetB build ops table.map (.own key))
        time)
  | .insert value time => pure (ValueTable.insert build ops value time table)
  | .remove key => pure (ValueTable.remove build ops key table)

/-- A run of operations. -/
def run
    (operations : List (Operation V A B))
    (table : ValueTable V A B) :
    Fuelled (ValueTable V A B) :=
  operations.foldlM (fun table operation => operation.exec build ops table)
    table

/-- Freshly allocated structures. -/
def allocate
    (mapMemory : DoubleMap V A B)
    (chainMemory : DoubleChain)
    (capacity keysCapacity : ℕ) : Option (ValueTable V A B) :=
  match DoubleMap.dmapAllocate build mapMemory keysCapacity with
  | none => none
  | some map =>
      some { chain := dchainAllocate chainMemory capacity, map := map }

end Functions

/-! ## The abstract operations -/

section Abstract

variable {capacity : ℕ} (ops : ValueOps V A B)

/-- A value has the given first key. -/
def hasA
    (key : A)
    (stored : V) : Bool :=
  ops.opsA.eq (ops.exkA stored) key

/-- A value has the given second key. -/
def hasB
    (key : B)
    (stored : V) : Bool :=
  ops.opsB.eq (ops.exkB stored) key

/-- No entry has a key of the value. -/
def bothAbsent
    (value : V)
    (entries : IndexTable capacity V) : Bool :=
  (entries.find (hasA ops (ops.exkA value))).isNone &&
    (entries.find (hasB ops (ops.exkB value))).isNone

/-- An operation on the abstract table. -/
def Operation.spec
    (operation : Operation V A B)
    (entries : IndexTable capacity V) : IndexTable capacity V :=
  match operation with
  | .expire time => entries.expire time
  | .lookupA key time => (entries.lookup (hasA ops key) time).2
  | .lookupB key time => (entries.lookup (hasB ops key) time).2
  | .insert value time =>
      if bothAbsent ops value entries then (entries.insert value time).2
      else entries
  | .remove key => (entries.removeFound (hasA ops key)).2

/-- The time that an operation passes to the chain. -/
def Operation.touch
    (operation : Operation V A B)
    (entries : IndexTable capacity V) : Option ℤ :=
  match operation with
  | .expire _ | .remove _ => none
  | .lookupA key time => (entries.find (hasA ops key)).map fun _ => time
  | .lookupB key time => (entries.find (hasB ops key)).map fun _ => time
  | .insert value time => if bothAbsent ops value entries then some time else none

theorem Operation.steps
    (operation : Operation V A B)
    (entries : IndexTable capacity V) :
    IndexTable.Steps entries (operation.spec ops entries)
      (operation.touch ops entries) := by
  cases operation with
  | expire time => exact .expire entries time
  | lookupA key time => exact .lookup _ time
  | lookupB key time => exact .lookup _ time
  | insert value time =>
      rw [Operation.spec, Operation.touch]
      split
      · exact .insert value
      · exact .stay entries none
  | remove key => exact .removeFound _

end Abstract

/-! ## Coherence -/

/-- The chain and the double map represent one table of entries. -/
structure Coherent
    (build : Map.Build)
    (ops : ValueOps V A B)
    {capacity : ℕ}
    (chain : DoubleChain)
    (map : DoubleMap V A B)
    (entries : IndexTable capacity V) : Prop where
  tracks : chain.Tracks entries
  stores : map.Stores build ops entries.alloc entries.value
  capacity_le : capacity ≤ map.keysCapacity

namespace Coherent

variable {build : Map.Build} {ops : ValueOps V A B} {capacity : ℕ}
  {table : ValueTable V A B} {entries : IndexTable capacity V}

theorem allocate
    (positive : 0 < capacity)
    (enough : capacity ≤ keysCapacity)
    (bounded : keysCapacity < 2 ^ 31)
    (allocated : ValueTable.allocate build mapMemory chainMemory capacity
      keysCapacity = some table) :
    Coherent build ops table.chain table.map
      (IndexTable.initial capacity mapMemory.values
        chainMemory.timestamps) := by
  rw [ValueTable.allocate] at allocated
  cases mapAllocated : DoubleMap.dmapAllocate build mapMemory keysCapacity with
  | none => simp [mapAllocated] at allocated
  | some map =>
      rw [mapAllocated] at allocated
      have built := Option.some.inj allocated
      subst built
      obtain ⟨stores, kept⟩ := DoubleMap.Stores.allocate
        (Nat.lt_of_lt_of_le positive enough) bounded mapAllocated
        mapMemory.values
      exact ⟨dchainAllocate_tracks chainMemory positive
        mapMemory.values, stores, kept.symm ▸ enough⟩

theorem erases
    (build : Map.Build)
    (ops : ValueOps V A B)
    (capacity : ℕ) :
    Expirator.Erases
      (fun index map => DoubleMap.dmapErase build ops map index)
      (fun chain map (entries : IndexTable capacity V) =>
        Coherent build ops chain map entries) := by
  constructor
  · intro chain map entries coherent
    exact coherent.tracks
  · intro chain map entries index rest coherent oldest
    have inUse : index ∈ entries.alloc := by simp [oldest]
    refine ⟨(coherent.tracks.dchainFreeIndex inUse).2, ?_, coherent.capacity_le⟩
    rw [IndexTable.alloc_remove inUse]
    exact coherent.stores.dmapErase inUse

section

variable (coherent : Coherent build ops table.chain table.map entries)

include coherent

theorem expireItems (time : ℤ) :
    ∃ table', (expireItems build ops time table).Returns
        ((entries.expired time).length, table') ∧
      Coherent build ops table'.chain table'.map (entries.expire time) := by
  obtain ⟨chain, map, returns, kept⟩ :=
    (erases build ops capacity).expireLoop_returns time coherent
  exact ⟨⟨chain, map⟩, returns.bind (Fuelled.returns_pure _), kept⟩

theorem rejuvenate
    (test : V → Bool)
    (time : ℤ) :
    Coherent build ops (table.rejuvenate (entries.find test) time).chain
      (table.rejuvenate (entries.find test) time).map
      (entries.lookup test time).2 := by
  rw [IndexTable.lookup]
  cases found : entries.find test with
  | none => exact coherent
  | some index =>
      have inUse := (IndexTable.find_eq_some found).1
      exact ⟨(coherent.tracks.dchainRejuvenateIndex inUse time).2,
        coherent.stores.of_perm (IndexTable.alloc_refresh_perm inUse time),
        coherent.capacity_le⟩

theorem allocate_put
    (absentA : entries.find (hasA ops (ops.exkA value)) = none)
    (absentB : entries.find (hasB ops (ops.exkB value)) = none)
    (available : entries.allocator.free = index :: rest)
    (time : ℤ) :
    Coherent build ops (dchainAllocateNewIndex table.chain time).2
      (DoubleMap.dmapPut build ops table.map value index)
      (entries.insert value time).2 := by
  have tracks := (coherent.tracks.dchainAllocateNewIndex_of_available available value time).2
  have free : index ∉ entries.alloc := fun inUse =>
    IndexTable.ne_of_available available inUse rfl
  have room : entries.alloc.length < table.map.keysCapacity :=
    (IndexTable.length_lt_of_available available).trans_le coherent.capacity_le
  have stored := coherent.stores.dmapPut value free
    (fun other inUse => Bool.eq_false_iff.mpr (List.find?_eq_none.mp absentA other inUse))
    (fun other inUse => Bool.eq_false_iff.mpr (List.find?_eq_none.mp absentB other inUse)) room
  refine ⟨tracks, ?_, coherent.capacity_le⟩
  rw [IndexTable.alloc_insert available, IndexTable.insert_of_cons available]
  exact stored

theorem insert
    (value : V)
    (time : ℤ) :
    Coherent build ops (insert build ops value time table).chain
      (insert build ops value time table).map
      ((Operation.insert value time).spec ops entries) := by
  have sameA : DoubleMap.dmapGetA build ops table.map (.own (ops.exkA value)) =
      entries.find (hasA ops (ops.exkA value)) :=
    coherent.stores.dmapGetA_eq_find _
  have sameB : DoubleMap.dmapGetB build ops table.map (.own (ops.exkB value)) =
      entries.find (hasB ops (ops.exkB value)) :=
    coherent.stores.dmapGetB_eq_find _
  rw [ValueTable.insert, Operation.spec, bothAbsent, sameA, sameB]
  cases absentA : entries.find (hasA ops (ops.exkA value)) with
  | some index => exact coherent
  | none =>
      cases absentB : entries.find (hasB ops (ops.exkB value)) with
      | some index => exact coherent
      | none =>
          cases shape : entries.allocator.free with
          | nil =>
              rw [coherent.tracks.dchainAllocateNewIndex_of_full shape,
                IndexTable.insert_of_nil shape]
              exact coherent
          | cons index rest =>
              have kept := coherent.allocate_put absentA absentB shape time
              have reply := (coherent.tracks.dchainAllocateNewIndex_of_available shape value time).1
              generalize dchainAllocateNewIndex table.chain time = outcome at *
              obtain ⟨found, chain⟩ := outcome
              dsimp only at reply
              subst reply
              exact kept

theorem remove (key : A) :
    Coherent build ops (remove build ops key table).chain
      (remove build ops key table).map
      (entries.removeFound (hasA ops key)).2 := by
  have same : DoubleMap.dmapGetA build ops table.map (.own key) =
      entries.find (hasA ops key) := coherent.stores.dmapGetA_eq_find key
  rw [ValueTable.remove, IndexTable.removeFound, same]
  cases found : entries.find (hasA ops key) with
  | none => exact coherent
  | some index =>
      have inUse := (IndexTable.find_eq_some found).1
      refine ⟨(coherent.tracks.dchainFreeIndex inUse).2, ?_, coherent.capacity_le⟩
      rw [IndexTable.alloc_remove inUse]
      exact coherent.stores.dmapErase inUse

theorem exec (operation : Operation V A B) :
    ∃ table', (operation.exec build ops table).Returns table' ∧
      Coherent build ops table'.chain table'.map
        (operation.spec ops entries) := by
  cases operation with
  | expire time =>
      obtain ⟨table', returns, kept⟩ := coherent.expireItems time
      exact ⟨table', returns.bind (Fuelled.returns_pure _), kept⟩
  | lookupA key time =>
      have kept := coherent.rejuvenate (hasA ops key) time
      have same : DoubleMap.dmapGetA build ops table.map (.own key) =
          entries.find (hasA ops key) := coherent.stores.dmapGetA_eq_find key
      rw [Operation.exec, same]
      exact ⟨_, Fuelled.returns_pure _, kept⟩
  | lookupB key time =>
      have kept := coherent.rejuvenate (hasB ops key) time
      have same : DoubleMap.dmapGetB build ops table.map (.own key) =
          entries.find (hasB ops key) := coherent.stores.dmapGetB_eq_find key
      rw [Operation.exec, same]
      exact ⟨_, Fuelled.returns_pure _, kept⟩
  | insert value time => exact ⟨_, Fuelled.returns_pure _, coherent.insert value time⟩
  | remove key => exact ⟨_, Fuelled.returns_pure _, coherent.remove key⟩

end

end Coherent

end ValueTable
end Vigor
