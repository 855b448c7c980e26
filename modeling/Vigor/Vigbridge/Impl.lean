import Vigor.FlowTable.Impl
import Vigor.Library.FuelledTranscript

/-!
# The bridge

`bridge_main.c`.  A frame goes to the device behind which its destination was
learned. The addresses that were learned are kept in a table with an entry for
each one, which expires.  A table of static rules, which is read at the start,
comes first.

The file of static rules is taken as the list of the rules in it, one on each
line, with different addresses or input devices.  Times are integers of any
size: the clock is taken to be so far from its end that no time computed from it
overflows, and the assertion that it is not negative is left out.
-/

namespace Vigor
namespace Vigbridge

/-- `FLOOD_FRAME`. -/
def floodFrame : ℤ := 65535

/-- The fields of `struct nf_config`, without the name of the file of rules. -/
structure Config where
  /-- In microseconds. -/
  expirationTime : ℕ
  dynCapacity : ℕ
  deriving DecidableEq, Repr

/-- `struct StaticKey`. -/
structure StaticKey where
  addr : ℕ
  device : ℕ
  deriving DecidableEq, Repr

/-- A received frame: the arguments `device` and `now` of `nf_process`, and the
two addresses of the Ethernet header. -/
structure Reception where
  now : ℤ
  device : ℕ
  sAddr : ℕ
  dAddr : ℕ
  deriving DecidableEq, Repr

/-- `struct State`: the map `dyn_map`, the vector `dyn_keys` and the chain
`dyn_heap` are the table, the vector `dyn_vals` has a device for each index, and
`st_map` has the static rules.  The vector `st_vec` only stores the keys of the
rules. -/
structure State where
  table : FlowTable ℕ
  dynVals : ℤ → ℕ
  stMap : Map StaticKey

/-- The value of `stat_capacity` in `nf_init`. -/
def statCapacity : ℕ := 8192

section Functions

variable
  (config : Config)
  (build : Map.Build)
  (ops : Map.KeyOps ℕ)
  (staticOps : Map.KeyOps StaticKey)

/-- The loop of `read_static_ft_from_file` over the rules. -/
def readStaticFt
    (rules : List (StaticKey × ℤ))
    (stMap : Map StaticKey) : Map StaticKey :=
  rules.foldl (fun stMap rule => stMap.mapPut build staticOps rule.1 rule.2) stMap

/-- `nf_init` on fresh memory.  The program exits when there are too many
rules. -/
def nfInit
    (mapMemory : Map.Arrays (KeyRef ℕ))
    (vector : ℤ → ℕ)
    (chainMemory : DoubleChain)
    (dynVals : ℤ → ℕ)
    (staticMemory : Map.Arrays StaticKey)
    (rules : List (StaticKey × ℤ)) : Option State := do
  let table ← FlowTable.allocate build mapMemory vector chainMemory config.dynCapacity
  let stMap ← Map.mapAllocate build staticMemory statCapacity
  -- Make sure the hash table is occupied only by 50%.
  let capacity := rules.length * 2
  if statCapacity ≤ capacity then none
  else
    some
      { table := table
        dynVals := dynVals
        stMap := readStaticFt build staticOps rules stMap }

/-- `bridge_expire_entries`. -/
def bridgeExpireEntries
    (time : ℤ)
    (state : State) : Fuelled State := do
  let lastTime := time - config.expirationTime * 1000
  let (_, table) ← state.table.expireItemsSingleMap build ops lastTime
  pure { state with table := table }

/-- `bridge_get_device`. -/
def bridgeGetDevice
    (dst srcDevice : ℕ)
    (state : State) : ℤ :=
  match state.stMap.mapGet build staticOps ⟨dst, srcDevice⟩ with
  | some device => device
  | none =>
      match state.table.keys.get build ops (.own dst) with
      | some index => state.dynVals index
      | none => -1

/-- `bridge_put_update_entry`. -/
def bridgePutUpdateEntry
    (src srcDevice : ℕ)
    (time : ℤ)
    (state : State) : State :=
  match state.table.lookup build ops src time with
  | (some _, table) => { state with table := table }
  | (none, table) =>
      match table.allocateFlow build ops src time with
      -- No more space in the dynamic table.
      | (none, table) => { state with table := table }
      | (some index, table) =>
          { state with
            table := table
            dynVals := Function.update state.dynVals index srcDevice }

/-- `nf_process`: the device to send to, and the state.  A frame that is to go
to the device that it came from is filtered. -/
def nfProcess
    (reception : Reception)
    (state : State) : Fuelled (ℤ × State) := do
  let state ← bridgeExpireEntries config build ops reception.now state
  let state := bridgePutUpdateEntry build ops reception.sAddr reception.device
    reception.now state
  let forwardTo := bridgeGetDevice build ops staticOps reception.dAddr reception.device state
  if forwardTo = -1 then pure (floodFrame, state)
  else if forwardTo = -2 then pure (reception.device, state)
  else pure (forwardTo, state)

/-- Process frames one after the other: the devices that they are sent to. -/
def run
    (receptions : List Reception)
    (state : State) : Fuelled (List ℤ × State) :=
  Fuelled.transcript (nfProcess config build ops staticOps) receptions state

end Functions

end Vigbridge
end Vigor
