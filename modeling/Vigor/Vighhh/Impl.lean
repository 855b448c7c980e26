import Vigor.Vigpol.Impl

/-!
# The hierarchical heavy hitters

`hhh_main.c` and `hhh_state.c`.  For each configured prefix length there is a
table of token buckets, one for each masked source address.  A packet from the
WAN takes tokens from its bucket on every level, and it is reported on a level
whose bucket does not hold enough of them. The buckets are filled as in the
policer, with the same functions.

The bit `b` of the mask of subnets stands for the prefix length `b + 1`.  The
rate is a number that the state was allocated with: how it is computed from the
capacity of the link is left out.  It is taken not to be zero, as the program
divides by it for every packet.
-/

namespace Vigor
namespace Vighhh

open Function

open Vigpol (DynamicValue fullTime refill secondsMultiplier)

/-- The fields of `struct nf_config` that processing reads. -/
structure Config where
  lanDevice : ℕ
  wanDevice : ℕ
  subnetsMask : BitVec 32
  /-- In bytes. -/
  burst : ℕ
  dynCapacity : ℕ
  deriving Repr

/-- The structures of a level: the map `subnet_indexers[i]`, the vector
`subnets[i]` and the chain `allocators[i]` are the table, and the vector
`subnet_buckets[i]` has a bucket for each index. -/
structure Level where
  table : FlowTable (BitVec 32)
  subnetBuckets : ℤ → DynamicValue

/-- `struct State`. -/
structure State where
  levels : ℤ → Level
  nSubnets : ℕ
  /-- In bytes per second. -/
  thresholdRate : ℕ

/-! ## Allocation -/

/-- Memory that was not initialised. -/
structure Memory where
  map : ℤ → Map.Arrays (KeyRef (BitVec 32))
  subnets : ℤ → ℤ → BitVec 32
  allocator : ℤ → DoubleChain
  subnetBuckets : ℤ → ℤ → DynamicValue
  /-- What the arrays hold behind their last entry. -/
  levels : ℤ → Level

/-- One round of `calculate_n_subnets`: the count and the shifted mask. -/
def countRound
    (progress : ℕ × BitVec 32)
    (_ : ℕ) : ℕ × BitVec 32 :=
  (if progress.2 &&& 1 = 0 then progress.1 else progress.1 + 1, progress.2 >>> 1)

/-- `calculate_n_subnets`. -/
def calculateNSubnets (subnetsMask : BitVec 32) : ℕ :=
  ((List.range 32).foldl countRound (0, subnetsMask)).1

/-- The loop of `alloc_state` up to a level. -/
def allocLevels
    (build : Map.Build)
    (memory : Memory)
    (capacity : ℕ) :
    ℕ → Option (ℤ → Level)
  | 0 => some memory.levels
  | i + 1 => do
      let levels ← allocLevels build memory capacity i
      let table ← FlowTable.allocate build (memory.map i) (memory.subnets i)
        (memory.allocator i) capacity
      pure (update levels i ⟨table, memory.subnetBuckets i⟩)

/-- `alloc_state`. -/
def allocState
    (build : Map.Build)
    (memory : Memory)
    (thresholdRate : ℕ)
    (subnetsMask : BitVec 32)
    (capacity : ℕ) : Option State := do
  let nSubnets := calculateNSubnets subnetsMask
  let levels ← allocLevels build memory capacity nSubnets
  pure { levels := levels, nSubnets := nSubnets, thresholdRate := thresholdRate }

/-! ## Processing -/

section Processing

variable (config : Config) (build : Map.Build) (ops : Map.KeyOps (BitVec 32))

/-- `exp_time`, converted to a signed number. -/
def expTime (burst thresholdRate : ℕ) : ℤ :=
  Int.bmod (secondsMultiplier * burst % 2 ^ 64 / thresholdRate : ℕ) (2 ^ 64)

/-- `min_time`. -/
def minTime
    (burst thresholdRate : ℕ)
    (time : ℤ) : ℤ :=
  (time - expTime burst thresholdRate).bmod (2 ^ 64)

/-- One round of `expire_entries`. -/
def expireLevel
    (limit : ℤ)
    (state : State)
    (i : ℤ) : Fuelled State := do
  let (_, table) ← (state.levels i).table.expireItemsSingleMap build ops limit
  pure
    { state with
      levels := update state.levels i { state.levels i with table := table } }

/-- `expire_entries`. -/
def expireEntries
    (time : ℤ)
    (state : State) : Fuelled State :=
  ((List.range state.nSubnets).map Int.ofNat).foldlM
    (expireLevel build ops (minTime config.burst state.thresholdRate time)) state

/-- `allocate`. -/
def allocate
    (burst : ℕ)
    (maskedSrc : BitVec 32)
    (size : ℕ)
    (time : ℤ)
    (level : Level) : Bool × Level :=
  match level.table.allocateFlow build ops maskedSrc time with
  -- Nothing we can do...
  | (none, table) => (false, { level with table := table })
  | (some index, table) =>
      (true,
        { table := table
          subnetBuckets :=
            update level.subnetBuckets index ⟨burst - size, time⟩ })

/-- What `update_buckets` does on a level: whether a heavy hitter was captured,
or nothing if the function returns. -/
def updateLevel
    (burst thresholdRate : ℕ)
    (maskedSrc : BitVec 32)
    (size : ℕ)
    (time : ℤ)
    (level : Level) : Option Bool × Level :=
  match level.table.lookup build ops maskedSrc time with
  | (none, table) =>
      match allocate build ops burst maskedSrc size time { level with table := table } with
      -- Not much we can do...
      | (false, level) => (none, level)
      | (true, level) => (some false, level)
  | (some index, table) =>
      let bucketSize := refill burst thresholdRate time (level.subnetBuckets index)
      if bucketSize > size then
        (some false,
          { table := table
            subnetBuckets :=
              update level.subnetBuckets index ⟨bucketSize - size, time⟩ })
      else
        (some true,
          { table := table
            subnetBuckets := update level.subnetBuckets index ⟨bucketSize, time⟩ })

/-- `SWAP_ENDIANNESS_32_BIT`. -/
def swapEndianness (n : BitVec 32) : BitVec 32 :=
  ((n >>> 24) &&& 0x000000ff#32) ||| ((n >>> 8) &&& 0x0000ff00#32) |||
    ((n <<< 8) &&& 0x00ff0000#32) ||| ((n <<< 24) &&& 0xff000000#32)

/-- The variables of the loop of `update_buckets`, with the prefix lengths on
which a heavy hitter was captured. -/
structure Progress where
  mask : BitVec 32
  subnetsMask : BitVec 32
  subnetI : ℤ
  levels : ℤ → Level
  captured : List ℕ

/-- The loop of `update_buckets` over the remaining bits. -/
def updateLoop
    (burst thresholdRate : ℕ)
    (src : BitVec 32)
    (size : ℕ)
    (time : ℤ) : List ℕ → Progress → List ℕ × (ℤ → Level)
  | [], progress => (progress.captured, progress.levels)
  | subnet :: subnets, progress =>
      let mask := (progress.mask >>> 1) ||| (1#32 <<< 31)
      let subnetsMask := progress.subnetsMask >>> 1
      if progress.subnetsMask &&& 1 = 0 then
        updateLoop burst thresholdRate src size time subnets
          { progress with mask := mask, subnetsMask := subnetsMask }
      else
        let subnetI := progress.subnetI + 1
        let maskedSrc := src &&& swapEndianness mask
        match updateLevel build ops burst thresholdRate maskedSrc size time
            (progress.levels subnetI) with
        | (none, level) =>
            (progress.captured, update progress.levels subnetI level)
        | (some isCaptured, level) =>
            updateLoop burst thresholdRate src size time subnets
              { mask := mask
                subnetsMask := subnetsMask
                subnetI := subnetI
                levels := update progress.levels subnetI level
                captured :=
                  if isCaptured then progress.captured ++ [subnet + 1]
                  else progress.captured }

/-- `update_buckets`: the prefix lengths on which a heavy hitter is captured. -/
def updateBuckets
    (src : BitVec 32)
    (size : ℕ)
    (time : ℤ)
    (state : State) : List ℕ × State :=
  let outcome := updateLoop build ops config.burst state.thresholdRate src size time
    (List.range 32) ⟨0, config.subnetsMask, -1, state.levels, []⟩
  (outcome.1, { state with levels := outcome.2 })

/-- The part of `nf_process` behind the expiry: the device to send to and the
prefix lengths on which the packet is a heavy hitter. -/
def processExpired
    (reception : Reception)
    (state : State) : (ℕ × List ℕ) × State :=
  -- Simply forward outgoing packets.
  if reception.device = config.lanDevice then ((config.wanDevice, []), state)
  else if reception.device = config.wanDevice then
    let outcome := updateBuckets config build ops (.ofNat 32 reception.frame.srcAddr)
      reception.frame.packetLength.toNat reception.now state
    ((config.lanDevice, outcome.1), outcome.2)
  -- Drop any other packets.
  else ((reception.device, []), state)

/-- `nf_process`. -/
def nfProcess
    (reception : Reception)
    (state : State) : Fuelled ((ℕ × List ℕ) × State) :=
  if reception.frame.isIpv4 = false then pure ((reception.device, []), state)
  else do
    let state ← expireEntries config build ops reception.now state
    pure (processExpired config build ops reception state)

/-- Process packets one after the other. -/
def run
    (receptions : List Reception)
    (state : State) :
    Fuelled (List (ℕ × List ℕ) × State) :=
  Fuelled.transcript (nfProcess config build ops) receptions state

end Processing

end Vighhh
end Vigor
