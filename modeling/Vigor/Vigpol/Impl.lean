import Vigor.FlowTable.Impl
import Vigor.Frame
import Vigor.Library.FuelledTranscript

/-!
# The traffic policer

`policer_main.c`.  Packets from the WAN device to one destination are limited by
a token bucket.  The buckets are kept in a table with an entry for each
destination, which expires when the bucket would be full again.

Quantities of tokens are unsigned 64-bit numbers, and their sums and products
are taken modulo `2 ^ 64`; so is the product that gives the time of expiry,
before it is converted to a signed number.  Times are integers of any size, but
a time of expiry that is negative wraps the subtraction from the clock.  The
functions have the rate and the burst as parameters, because the policing
firewall calls them with other numbers.
-/

namespace Vigor
namespace Vigpol

/-- `VIGOR_TIME_SECONDS_MULTIPLIER`. -/
def secondsMultiplier : ℕ := 1000000000

/-- The fields of `struct nf_config`. -/
structure Config where
  lanDevice : ℕ
  wanDevice : ℕ
  /-- In bytes per second. -/
  rate : ℕ
  /-- In bytes. -/
  burst : ℕ
  dynCapacity : ℕ
  deriving DecidableEq, Repr

/-- `struct DynamicValue`. -/
structure DynamicValue where
  bucketSize : ℕ
  bucketTime : ℤ
  deriving DecidableEq, Repr

/-- `struct State`: the map `dyn_map`, the vector `dyn_keys` and the chain
`dyn_heap` are the table, and the vector `dyn_vals` has a bucket for each
index. -/
structure State where
  table : FlowTable ℕ
  dynVals : ℤ → DynamicValue

/-- `alloc_state` on fresh memory. -/
def allocState
    (build : Map.Build)
    (mapMemory : Map.Arrays (KeyRef ℕ))
    (vector : ℤ → ℕ)
    (chainMemory : DoubleChain)
    (dynVals : ℤ → DynamicValue)
    (capacity : ℕ) : Option State :=
  (FlowTable.allocate build mapMemory vector chainMemory capacity).map
    fun table => { table := table, dynVals := dynVals }

section Tokens

variable (burst rate : ℕ)

/-- The time after which a bucket expires, converted to a signed number. -/
def expTime : ℤ :=
  Int.bmod (secondsMultiplier * (burst / rate)) (2 ^ 64)

/-- `min_time`: the difference is taken modulo `2 ^ 64` and converted to a
signed number. -/
def minTime (time : ℤ) : ℤ :=
  -- In this case no time of the clock, from `0` to `2 ^ 63 - 1`, wraps the difference.
  if 0 ≤ expTime burst rate then time - expTime burst rate
  else (time - expTime burst rate).bmod (2 ^ 64)

/-- The gap from which on a bucket is filled up. -/
def fullTime : ℕ :=
  burst * secondsMultiplier % 2 ^ 64 / rate

/-- The level of a bucket after the time since its last use. -/
def refill
    (time : ℤ)
    (value : DynamicValue) : ℕ :=
  let timeDiff := (time - value.bucketTime).toNat
  if timeDiff < fullTime burst rate then
    let addedTokens := timeDiff * rate % 2 ^ 64 / secondsMultiplier
    let bucketSize := (value.bucketSize + addedTokens) % 2 ^ 64
    if bucketSize > burst then burst else bucketSize
  else burst

variable (build : Map.Build) (ops : Map.KeyOps ℕ)

/-- `policer_expire_entries`. -/
def policerExpireEntries
    (time : ℤ)
    (state : State) : Fuelled State := do
  let (_, table) ← state.table.expireItemsSingleMap build ops
    (minTime burst rate time)
  pure { state with table := table }

/-- `policer_check_tb`. -/
def policerCheckTb
    (dst size : ℕ)
    (time : ℤ)
    (state : State) : Bool × State :=
  match state.table.lookup build ops dst time with
  | (some index, table) =>
      let bucketSize := refill burst rate time (state.dynVals index)
      if bucketSize > size then
        (true,
          { table := table
            dynVals := Function.update state.dynVals index
              ⟨bucketSize - size, time⟩ })
      else
        (false,
          { table := table
            dynVals := Function.update state.dynVals index ⟨bucketSize, time⟩ })
  | (none, table) =>
      -- Unknown flow with packet larger than burst size, dropping.
      if size > burst then (false, { state with table := table })
      else
        match table.allocateFlow build ops dst time with
        -- No more space in the policer table.
        | (none, table) => (false, { state with table := table })
        | (some index, table) =>
            (true,
              { table := table
                dynVals := Function.update state.dynVals index
                  ⟨burst - size, time⟩ })

/-- The part of `nf_process` for a packet with an IPv4 header: the device to
send to and the state.  A packet that is to go to the device that it came from
is dropped. -/
def police
    (lanDevice wanDevice : ℕ)
    (reception : Reception)
    (state : State) : Fuelled (ℕ × State) := do
  let state ← policerExpireEntries burst rate build ops reception.now state
  if reception.device = lanDevice then pure (wanDevice, state)
  else if reception.device = wanDevice then
    match policerCheckTb burst rate build ops reception.frame.dstAddr
      reception.frame.packetLength.toNat reception.now state with
    | (true, state) => pure (lanDevice, state)
    | (false, state) => pure (wanDevice, state)
  else pure (reception.device, state)

end Tokens

section Process

variable (config : Config) (build : Map.Build) (ops : Map.KeyOps ℕ)

/-- `nf_process`. -/
def nfProcess
    (reception : Reception)
    (state : State) : Fuelled (ℕ × State) :=
  if reception.frame.isIpv4 = false then pure (reception.device, state)
  else
    police config.burst config.rate build ops config.lanDevice config.wanDevice
      reception state

/-- Process packets one after the other: the devices that they are sent to. -/
def run
    (receptions : List Reception)
    (state : State) :
    Fuelled (List ℕ × State) :=
  Fuelled.transcript (nfProcess config build ops) receptions state

end Process

end Vigpol
end Vigor
