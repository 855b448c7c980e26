import Vigor.Expirator
import Vigor.Map.Cells

/-!
# Flow tables

A network function keeps its flows in a map from keys to indexes, a vector of
keys and a double chain of indexes.  The map stores pointers into the vector.

The record of calls is a ghost: the code does not keep it.  It holds the calls
that have a precondition, each with what the precondition talks about.
-/

namespace Vigor

open DoubleChain

variable {K : Type u}

/-! ## The map and the vector -/

/-- A call with a precondition, in the state in which it was made. -/
inductive KeyedMap.Call (K : Type u)
  | mapPut (map : Map (KeyRef K)) (vector : ℤ → K) (key : KeyRef K)
  | mapErase (map : Map (KeyRef K)) (vector : ℤ → K) (key : KeyRef K)
  | write (map : Map (KeyRef K)) (index : ℤ)

/-- A map over the cells of a key vector, with the record of calls. -/
structure KeyedMap (K : Type u) where
  map : Map (KeyRef K)
  vector : ℤ → K
  calls : List (KeyedMap.Call K)

namespace KeyedMap

/-- The precondition of a call: a key is put only when absent and when there
is room, a key is erased only when present, and no cell is overwritten while
the map refers to it. -/
def Call.Safe
    (build : Map.Build)
    (ops : Map.KeyOps K) : Call K → Prop
  | .mapPut map vector key =>
      Map.mapGet build (ops.onRefs vector) map key = none ∧
        Map.mapSize map < map.capacity
  | .mapErase map vector key =>
      Map.mapGet build (ops.onRefs vector) map key ≠ none
  | .write map index => ∀ value, ¬map.Holds (.cell index) value

variable (build : Map.Build) (ops : Map.KeyOps K)

/-- `map_get`. -/
def get
    (key : KeyRef K)
    (keys : KeyedMap K) : Option ℤ :=
  Map.mapGet build (ops.onRefs keys.vector) keys.map key

/-- `map_put`. -/
def put
    (key : KeyRef K)
    (value : ℤ)
    (keys : KeyedMap K) : KeyedMap K :=
  { keys with
    map := Map.mapPut build (ops.onRefs keys.vector) keys.map key value
    calls := .mapPut keys.map keys.vector key :: keys.calls }

/-- `map_erase`. -/
def erase
    (key : KeyRef K)
    (keys : KeyedMap K) : KeyedMap K :=
  { keys with
    map := (Map.mapErase build (ops.onRefs keys.vector) keys.map key).2
    calls := .mapErase keys.map keys.vector key :: keys.calls }

/-- Copy a key into the vector cell that `vector_borrow` hands out. -/
def write
    (index : ℤ)
    (key : K)
    (keys : KeyedMap K) : KeyedMap K :=
  { keys with
    vector := Function.update keys.vector index key
    calls := .write keys.map index :: keys.calls }

end KeyedMap

/-! ## The table -/

/-- The three structures of a flow table. -/
structure FlowTable (K : Type u) where
  chain : DoubleChain
  keys : KeyedMap K

namespace FlowTable

/-- A flow table over freshly allocated structures. -/
def allocate
    (build : Map.Build)
    (mapMemory : Map.Arrays (KeyRef K))
    (vector : ℤ → K)
    (chainMemory : DoubleChain)
    (capacity : ℕ) : Option (FlowTable K) :=
  match Map.mapAllocate build mapMemory capacity with
  | none => none
  | some map =>
      some
        { chain := dchainAllocate chainMemory capacity
          keys := { map := map, vector := vector, calls := [] } }

variable (build : Map.Build) (ops : Map.KeyOps K)

/-- `expire_items_single_map`: the key of an expired index is read from its
vector cell. -/
def expireItemsSingleMap
    (time : ℤ)
    (table : FlowTable K) :
    Fuelled (ℤ × FlowTable K) := do
  let (count, chain, keys) ← Expirator.expireLoop
    (fun index keys => keys.erase build ops (.cell index)) time
    table.chain table.keys
  pure (count, { chain := chain, keys := keys })

/-- `map_get`, followed by `dchain_rejuvenate_index` on a hit. -/
def lookup
    (key : K)
    (time : ℤ)
    (table : FlowTable K) :
    Option ℤ × FlowTable K :=
  match table.keys.get build ops (.own key) with
  | none => (none, table)
  | some index =>
      let (_, chain) := dchainRejuvenateIndex table.chain index time
      (some index, { table with chain := chain })

/-- `dchain_allocate_new_index`, followed by writing the key into the cell of
the new index and `map_put` of that cell. -/
def allocateFlow
    (key : K)
    (time : ℤ)
    (table : FlowTable K) :
    Option ℤ × FlowTable K :=
  match dchainAllocateNewIndex table.chain time with
  | (none, chain) => (none, { table with chain := chain })
  | (some index, chain) =>
      let keys := table.keys.write index key
      let keys := keys.put build ops (.cell index) index
      (some index, { chain := chain, keys := keys })

/-- Look a key up and allocate an index for it on a miss. -/
def ensure
    (key : K)
    (time : ℤ)
    (table : FlowTable K) :
    Option ℤ × FlowTable K :=
  match lookup build ops key time table with
  | (some index, table) => (some index, table)
  | (none, table) => allocateFlow build ops key time table

/-- Look a key up and, on a hit, `map_erase` it and `dchain_free_index` its
index. -/
def removeFlow
    (key : K)
    (table : FlowTable K) : Option ℤ × FlowTable K :=
  match table.keys.get build ops (.own key) with
  | none => (none, table)
  | some index =>
      let keys := table.keys.erase build ops (.own key)
      let (_, chain) := dchainFreeIndex table.chain index
      (some index, { chain := chain, keys := keys })

/-- What a network function does to its flow table. -/
inductive Operation (K : Type u)
  | expire (time : ℤ)
  | lookup (key : K) (time : ℤ)
  | ensure (key : K) (time : ℤ)
  | remove (key : K)

/-- An operation as the code executes it. -/
def Operation.exec
    (operation : Operation K)
    (table : FlowTable K) :
    Fuelled (FlowTable K) :=
  match operation with
  | .expire time => do
      let (_, table) ← expireItemsSingleMap build ops time table
      pure table
  | .lookup key time => pure (FlowTable.lookup build ops key time table).2
  | .ensure key time => pure (FlowTable.ensure build ops key time table).2
  | .remove key => pure (removeFlow build ops key table).2

/-- A run of operations. -/
def run
    (operations : List (Operation K))
    (table : FlowTable K) :
    Fuelled (FlowTable K) :=
  operations.foldlM (fun table operation => operation.exec build ops table)
    table

end FlowTable
end Vigor
