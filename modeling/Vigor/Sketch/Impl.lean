import Mathlib.Data.Fin.VecNotation
import Vigor.FlowTable.Impl
import Vigor.Library.Crc
import Vigor.Library.FuelledTranscript

/-!
# The sketch

Model of `sketch.c`.  A sketch has several rows, each with a chain of indexes.
The rows share one map from hash values to indexes, one vector of hash values
and one vector of buckets, in which every row has a block of cells.

The hash values of a key come from a family of functions, one for each row; the
code uses `saltedHash` of the hash function of the key.  Positions in the
vectors are below `2 ^ 31` and do not overflow.  Allocation failures of the
system are left out.
-/

namespace Vigor

open DoubleChain Function

/-- `SKETCH_HASHES`. -/
abbrev sketchHashes : ℕ := 8

instance : NeZero sketchHashes :=
  ⟨by decide⟩

/-- `struct internal_data`. -/
structure Sketch.InternalData where
  hashes : Fin sketchHashes → ℕ
  present : Fin sketchHashes → Bool
  bucketsIndexes : Fin sketchHashes → ℤ

/-- `struct Sketch`: the map `clients` and the vector `keys` are one map over
the cells of the vector. -/
structure Sketch where
  clients : KeyedMap ℕ
  buckets : ℤ → ℕ
  allocators : Fin sketchHashes → DoubleChain
  capacity : ℕ
  threshold : ℕ
  internal : Sketch.InternalData

namespace Sketch

/-! ## Allocation -/

/-- `find_next_power_of_2_bigger_than`.  For a number up to `2 ^ 31` the
condition of the loop is false after 31 rounds. -/
def findNextPowerOf2BiggerThan (d : ℕ) : ℕ :=
  (List.range 31).foldl (fun n _ => if n < d then n * 2 else n) 1

/-- Memory that was not initialised. -/
structure Memory where
  map : Map.Arrays (KeyRef ℕ)
  buckets : ℤ → ℕ
  allocators : Fin sketchHashes → DoubleChain
  internal : InternalData

/-- Memory in which every bucket has the same value. -/
def Memory.filled (junk : ℕ) : Memory where
  map := ⟨fun _ => 0, fun _ => .own 0, fun _ => 0, fun _ => 0, fun _ => 0⟩
  buckets := fun _ => junk
  allocators := fun _ => ⟨fun _ => ⟨0, 0⟩, fun _ => 0⟩
  internal := ⟨fun _ => 0, fun _ => false, fun _ => 0⟩

/-- `sketch_allocate`.  The function that initialises buckets does nothing. -/
def sketchAllocate
    (build : Map.Build)
    (memory : Memory)
    (capacity threshold : ℕ) : Option Sketch := do
  let requested := capacity * sketchHashes % 2 ^ 32
  -- `assert(d <= 0x80000000)`
  guard (requested ≤ 2 ^ 31)
  let totalSketchCapacity := findNextPowerOf2BiggerThan requested
  let clients ← Map.mapAllocate build memory.map totalSketchCapacity
  pure
    { clients := { map := clients, vector := fun _ => 0, calls := [] }
      buckets := memory.buckets
      allocators := fun row => dchainAllocate (memory.allocators row) capacity
      capacity := capacity
      threshold := threshold
      internal := memory.internal }

/-! ## Operations -/

/-- `SKETCH_SALTS`, as far as there are rows. -/
def sketchSalts : Fin sketchHashes → ℕ :=
  ![0x9b78350f, 0x9bcf144c, 0x8ab29a3e, 0x34d48bf5, 0x78e47449, 0xd6e4af1d,
    0x32ed75e2, 0xb1eb5a08]

/-- The hash value of a row in `sketch_compute_hashes`, before it is reduced. -/
def saltedHash
    {K : Type u}
    (kh : K → ℕ)
    (row : Fin sketchHashes)
    (key : K) : ℕ :=
  crc32si (crc32si 0 (sketchSalts row)) (kh key)

/-- `hash_hash`. -/
def hashHash (value : ℕ) : ℕ :=
  crc32si 0 value

/-- The operations on the keys of the map `clients`. -/
abbrev keyOps : Map.KeyOps ℕ :=
  .ofHash hashHash

section Operations

variable {K : Type u} (build : Map.Build) (hashOps : Map.KeyOps ℕ)

/-- `sketch_compute_hashes`. -/
def sketchComputeHashes
    (rowHash : Fin sketchHashes → K → ℕ)
    (key : K)
    (sketch : Sketch) : Sketch :=
  { sketch with
    internal :=
      { hashes := fun row => rowHash row key % sketch.capacity
        present := fun _ => false
        bucketsIndexes := fun _ => -1 } }

/-- `map_get` of the hash value of a row. -/
def getClient
    (row : Fin sketchHashes)
    (sketch : Sketch) : Option ℤ :=
  sketch.clients.get build hashOps (.own (sketch.internal.hashes row))

/-- The cell of a row for an index. -/
def offseted
    (row : Fin sketchHashes)
    (bucketIndex : ℤ)
    (sketch : Sketch) : ℤ :=
  bucketIndex + sketch.capacity * (row : ℕ)

/-- Store an index of a row. -/
def setBucketsIndex
    (row : Fin sketchHashes)
    (bucketIndex : ℤ)
    (sketch : Sketch) : Sketch :=
  { sketch with
    internal :=
      { sketch.internal with
        bucketsIndexes :=
          update sketch.internal.bucketsIndexes row bucketIndex } }

/-- Store whether a row has the hash value. -/
def setPresent
    (row : Fin sketchHashes)
    (present : Bool)
    (sketch : Sketch) : Sketch :=
  { sketch with
    internal :=
      { sketch.internal with
        present := update sketch.internal.present row present } }

/-- `dchain_rejuvenate_index` on the chain of a row. -/
def rejuvenate
    (row : Fin sketchHashes)
    (bucketIndex now : ℤ)
    (sketch : Sketch) : Sketch :=
  { sketch with
    allocators := update sketch.allocators row
      (dchainRejuvenateIndex (sketch.allocators row) bucketIndex now).2 }

/-- One round of `sketch_refresh`.  When the hash value is missing, `map_get`
leaves the index as it is. -/
def refreshRound
    (now : ℤ)
    (sketch : Sketch)
    (row : Fin sketchHashes) : Sketch :=
  let bucketIndex :=
    (sketch.getClient build hashOps row).getD (sketch.internal.bucketsIndexes row)
  (sketch.setBucketsIndex row bucketIndex).rejuvenate row bucketIndex now

/-- `sketch_refresh`. -/
def sketchRefresh
    (now : ℤ)
    (sketch : Sketch) : Sketch :=
  (List.finRange sketchHashes).foldl (refreshRound build hashOps now) sketch

/-- One round of `sketch_fetch`, with the minimum if it is set. -/
def fetchRound
    (state : Sketch × Option ℕ)
    (row : Fin sketchHashes) : Sketch × Option ℕ :=
  let (sketch, bucketMin) := state
  match sketch.getClient build hashOps row with
  | none => (sketch.setPresent row false, bucketMin)
  | some bucketIndex =>
      let sketch := (sketch.setPresent row true).setBucketsIndex row bucketIndex
      let bucketValue := sketch.buckets (sketch.offseted row bucketIndex)
      match bucketMin with
      | none => (sketch, some bucketValue)
      | some least =>
          (sketch, if bucketValue < least then some bucketValue else some least)

/-- `sketch_fetch`. -/
def sketchFetch (sketch : Sketch) : Bool × Sketch :=
  let result := (List.finRange sketchHashes).foldl (fetchRound build hashOps) (sketch, none)
  (result.2.any fun least => result.1.threshold < least, result.1)

/-- One round of `sketch_touch_buckets`, with the value that it returns. -/
def touchRound
    (now : ℤ)
    (row : Fin sketchHashes)
    (sketch : Sketch) : Option Bool × Sketch :=
  match sketch.getClient build hashOps row with
  | none =>
      match dchainAllocateNewIndex (sketch.allocators row) now with
      -- Sketch size limit reached.
      | (none, chain) =>
          (some false,
            { sketch with allocators := update sketch.allocators row chain })
      | (some bucketIndex, chain) =>
          let cell := sketch.offseted row bucketIndex
          let clients := sketch.clients.write cell (sketch.internal.hashes row)
          let clients := clients.put build hashOps (.cell cell) bucketIndex
          (some true,
            { sketch with
              clients := clients
              buckets := update sketch.buckets cell 0
              allocators := update sketch.allocators row chain })
  | some bucketIndex =>
      let sketch := sketch.rejuvenate row bucketIndex now
      let cell := sketch.offseted row bucketIndex
      (some true,
        { sketch with
          buckets := update sketch.buckets cell
            ((sketch.buckets cell + 1) % 2 ^ 32) })

/-- The loop of `sketch_touch_buckets`.  The function has no return statement
behind the loop. -/
def touchLoop (now : ℤ) :
    List (Fin sketchHashes) → Sketch → Option Bool × Sketch
  | [], sketch => (none, sketch)
  | row :: rows, sketch =>
      match touchRound build hashOps now row sketch with
      | (some reply, sketch) => (some reply, sketch)
      | (none, sketch) => touchLoop now rows sketch

/-- `sketch_touch_buckets`. -/
def sketchTouchBuckets
    (now : ℤ)
    (sketch : Sketch) : Option Bool × Sketch :=
  touchLoop build hashOps now (List.finRange sketchHashes) sketch

/-- One round of `sketch_expire`. -/
def expireRound
    (time : ℤ)
    (sketch : Sketch)
    (row : Fin sketchHashes) : Fuelled Sketch := do
  let (_, chain, clients) ← Expirator.expireLoop
    (fun index clients => clients.erase build hashOps (.cell (sketch.offseted row index)))
    time (sketch.allocators row) sketch.clients
  pure
    { sketch with
      clients := clients
      allocators := update sketch.allocators row chain }

/-- `sketch_expire`. -/
def sketchExpire
    (time : ℤ)
    (sketch : Sketch) : Fuelled Sketch :=
  (List.finRange sketchHashes).foldlM (expireRound build hashOps time) sketch

/-! ## Calls -/

/-- A call of the interface. -/
inductive Call (K : Type u)
  | computeHashes (key : K)
  | touchBuckets (now : ℤ)
  | fetch
  | refresh (now : ℤ)
  | expire (time : ℤ)

/-- The time that a call gives to what it touches. -/
def Call.now : Call K → Option ℤ
  | .touchBuckets now | .refresh now => some now
  | .computeHashes _ | .fetch | .expire _ => none

/-- A call as the code executes it, with what it returns. -/
def exec
    (rowHash : Fin sketchHashes → K → ℕ)
    (call : Call K)
    (sketch : Sketch) : Fuelled (Option Bool × Sketch) :=
  match call with
  | .computeHashes key => pure (none, sketch.sketchComputeHashes rowHash key)
  | .touchBuckets now => pure (sketch.sketchTouchBuckets build hashOps now)
  | .fetch =>
      let outcome := sketch.sketchFetch build hashOps
      pure (some outcome.1, outcome.2)
  | .refresh now => pure (none, sketch.sketchRefresh build hashOps now)
  | .expire time => do
      let sketch ← sketch.sketchExpire build hashOps time
      pure (none, sketch)

/-- The replies to a list of calls. -/
def run
    (rowHash : Fin sketchHashes → K → ℕ)
    (calls : List (Call K))
    (sketch : Sketch) : Fuelled (List (Option Bool) × Sketch) :=
  Fuelled.transcript (exec build hashOps rowHash) calls sketch

end Operations

end Sketch
end Vigor
