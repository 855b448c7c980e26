import Mathlib.Algebra.Order.Field.Rat
import Mathlib.Data.List.Sort
import Vigor.Library.Failing

/-!
# The balanced table

`get_balanced_lut.py`, from the counters of the buckets to a table that maps
buckets to cores. Cores with more packets than the average give buckets to the
others as long as these stay below the average.  Then each of the others gets
one more bucket without a check, and the first part is done again.  At the end
the cores get new numbers.

Counters and averages are exact rationals.  The loops over indexes of a list are
recursions over the list; a position is then a list of what is before it and a
list of what is behind it. Printing is left out.
-/

namespace Vigor
namespace Lut

/-- `LUT_SIZE`. -/
def lutSize : ℕ := 512

/-- The errors that the interpreter can raise here. -/
inductive Error
  | index
  | zeroDivision
  | assertion
  deriving DecidableEq, Repr

/-- A bucket and its counter. -/
structure Bucket where
  bucket : ℕ
  counter : ℚ
  deriving DecidableEq, Repr

/-- The tuple `core_stats`. -/
structure CoreStats where
  core : ℤ
  pkts : ℚ
  buckets : List Bucket
  deriving DecidableEq, Repr

/-- The core with one more bucket at the end. -/
def CoreStats.add
    (stats : CoreStats)
    (bucket : Bucket) : CoreStats where
  core := stats.core
  pkts := stats.pkts + bucket.counter
  buckets := stats.buckets ++ [bucket]

/-- The core without a bucket. -/
def CoreStats.remove
    (stats : CoreStats)
    (bucket : Bucket)
    (buckets : List Bucket) :
    CoreStats where
  core := stats.core
  pkts := stats.pkts - bucket.counter
  buckets := buckets

/-- The dictionary `groups`. -/
structure Groups where
  pkts : ℚ
  avg : ℚ
  underloaded : List CoreStats
  overloaded : List CoreStats
  deriving DecidableEq, Repr

/-! ## Counting and sorting -/

/-- The initial table. -/
def roundRobin (cores : ℕ) : Except Error (List ℕ) :=
  if cores = 0 then .error .zeroDivision
  else .ok ((List.range lutSize).map (· % cores))

/-- One round of `lut_counters_to_core_counters`. -/
def countBucket
    (coreCounters : List CoreStats)
    (entry : (ℕ × ℚ) × ℕ) :
    Except Error (List CoreStats) :=
  match coreCounters[entry.1.1]? with
  | none => .error .index
  | some stats =>
      .ok (coreCounters.set entry.1.1
        { stats.add ⟨entry.2, entry.1.2⟩ with core := entry.1.1 })

/-- `lut_counters_to_core_counters`. -/
def lutCountersToCoreCounters
    (cores : ℕ)
    (lut : List ℕ)
    (lutCounters : List ℚ) :
    Except Error (List CoreStats) :=
  (lut.zip lutCounters).zipIdx.foldlM countBucket (List.replicate cores ⟨-1, 0, []⟩)

/-- `group_core_counters`. -/
def groupCoreCounters (coreCounters : List CoreStats) : Except Error Groups :=
  let pkts := (coreCounters.map CoreStats.pkts).sum
  if coreCounters.length = 0 then .error .zeroDivision
  else
    let avg := pkts / coreCounters.length
    .ok
      { pkts := pkts
        avg := avg
        underloaded := coreCounters.filter fun stats => ¬stats.pkts > avg
        overloaded := coreCounters.filter fun stats => stats.pkts > avg }

/-- `sorted`, which keeps the order of items with the same key: there is only
one such list. -/
def sortedBy
    {α : Type}
    (key : α → ℚ)
    (items : List α) : List α :=
  items.insertionSort fun left right => key left ≤ key right

/-- `sorted` with `reverse=True`, which also keeps the order of items with the
same key. -/
def sortedByReverse
    {α : Type}
    (key : α → ℚ)
    (items : List α) : List α :=
  items.insertionSort fun left right => key right ≤ key left

/-- `sort_groups`. -/
def sortGroups (groups : Groups) : Groups :=
  { groups with
    underloaded := (sortedBy CoreStats.pkts groups.underloaded).map fun stats =>
      { stats with buckets := sortedBy Bucket.counter stats.buckets }
    overloaded := (sortedByReverse CoreStats.pkts groups.overloaded).map fun stats =>
      { stats with buckets := sortedByReverse Bucket.counter stats.buckets } }

/-- The two calls that follow every change. -/
def regroup (coreCounters : List CoreStats) : Except Error Groups := do
  let groups ← groupCoreCounters coreCounters
  pure (sortGroups groups)

/-! ## Balancing -/

/-- The loop over the underloaded cores: the first one that stays below the
average gets the bucket. -/
def giveBucket
    (avg : ℚ)
    (bucket : Bucket) :
    List CoreStats → Except Error (Option (List CoreStats))
  | [] => .ok none
  | stats :: underloaded =>
      match stats.buckets with
      -- `underloaded_bucket_pkts` reads the first bucket.
      | [] => .error .index
      | _ :: _ =>
          if stats.pkts + bucket.counter > avg then do
            let given ← giveBucket avg bucket underloaded
            pure (given.map (stats :: ·))
          else .ok (some (stats.add bucket :: underloaded))

/-- The loop over the buckets of an overloaded core: the first bucket that a
core takes, the buckets around it and the underloaded cores after that. -/
def moveBucket
    (avg : ℚ)
    (underloaded : List CoreStats)
    (before : List Bucket) :
    List Bucket → Except Error (Option (Bucket × List Bucket × List CoreStats))
  | [] => .ok none
  | bucket :: behind => do
      match ← giveBucket avg bucket underloaded with
      | some underloaded => pure (some (bucket, before ++ behind, underloaded))
      | none => moveBucket avg underloaded (before ++ [bucket]) behind

/-- The variables of the loop of `balance`, with the overloaded cores split at
`overloaded_idx`. -/
structure Progress where
  balanceEffect : Bool
  underloaded : List CoreStats
  done : List CoreStats
  remaining : List CoreStats

/-- One round of the loop of `balance`. -/
def balanceRound
    (avg : ℚ)
    (progress : Progress) :
    Except Error (Fuelled.Round Progress Progress) :=
  match progress.remaining with
  | [] => .ok (.done progress)
  | stats :: remaining => do
      match ← moveBucket avg progress.underloaded [] stats.buckets with
      | none =>
          pure (.next
            { progress with done := progress.done ++ [stats], remaining := remaining })
      | some (bucket, buckets, underloaded) =>
          let stats := stats.remove bucket buckets
          if avg = 0 then .error .zeroDivision
          else if (stats.pkts - avg) / avg < 1 / 100 then
            pure (.next ⟨true, underloaded, progress.done ++ [stats], remaining⟩)
          else pure (.next ⟨true, underloaded, progress.done, stats :: remaining⟩)

/-- `balance`. -/
def balance (groups : Groups) : Failing Error (Bool × Groups) :=
  if groups.overloaded.length = 0 then pure (false, groups)
  else do
    let progress ← Failing.loop (fun progress => .ofExcept (balanceRound groups.avg progress))
      ⟨false, groups.underloaded, [], groups.overloaded⟩
    pure (progress.balanceEffect,
      { groups with underloaded := progress.underloaded, overloaded := progress.done })

/-- The loops of `find_good_lut` that call `balance`. -/
def rebalance (groups : Groups) : Failing Error Groups :=
  Failing.loop (fun groups => do
    let (change, groups) ← balance groups
    let groups ← .ofExcept (regroup (groups.underloaded ++ groups.overloaded))
    pure (if change then .next groups else .done groups)) groups

/-! ## One bucket for each of the others -/

/-- The loop over the buckets of an overloaded core, from the last one on.  The
underloaded cores are split at `underloaded_idx`. -/
def spreadCore
    (stats : CoreStats)
    (given : List CoreStats) :
    List CoreStats → Except Error (CoreStats × List CoreStats × List CoreStats)
  | [] => .ok (stats, given, [])
  | taker :: waiting =>
      if stats.buckets.length = 1 then .ok (stats, given, taker :: waiting)
      else
        match stats.buckets.getLast? with
        | none => .error .index
        | some bucket =>
            spreadCore (stats.remove bucket stats.buckets.dropLast)
              (given ++ [taker.add bucket]) waiting

/-- The loop over the overloaded cores: these and the underloaded ones. -/
def spread (given waiting : List CoreStats) :
    List CoreStats → Except Error (List CoreStats × List CoreStats)
  | [] => .ok ([], given ++ waiting)
  | stats :: overloaded => do
      let (stats, given, waiting) ← spreadCore stats given waiting
      let (overloaded, underloaded) ← spread given waiting overloaded
      pure (stats :: overloaded, underloaded)

/-! ## Numbers for the cores -/

/-- The overloaded cores get even numbers while there are some. -/
def assignOverloaded (availableCores : List ℕ) :
    List CoreStats → Except Error (List CoreStats × List ℕ)
  | [] => .ok ([], availableCores)
  | stats :: overloaded =>
      match availableCores.find? (· % 2 = 0) with
      | some core => do
          let (overloaded, left) ←
            assignOverloaded (availableCores.eraseP (· % 2 = 0)) overloaded
          pure ({ stats with core := core } :: overloaded, left)
      | none =>
          match availableCores with
          | [] => .error .index
          | core :: availableCores => do
              let (overloaded, left) ← assignOverloaded availableCores overloaded
              pure ({ stats with core := core } :: overloaded, left)

/-- The underloaded cores get the numbers that are left. -/
def assignUnderloaded (availableCores : List ℕ) :
    List CoreStats → Except Error (List CoreStats)
  | [] => .ok []
  | stats :: underloaded =>
      match availableCores with
      | [] => .error .index
      | core :: availableCores => do
          let underloaded ← assignUnderloaded availableCores underloaded
          pure ({ stats with core := core } :: underloaded)

/-! ## The table -/

/-- `balanced_lut[bucket] = core`. -/
def writeEntry
    (balancedLut : List ℤ)
    (entry : ℕ × ℤ) : Except Error (List ℤ) :=
  if entry.1 < balancedLut.length then .ok (balancedLut.set entry.1 entry.2)
  else .error .index

/-- What the loops over the cores and their buckets write. -/
def entries (coreCounters : List CoreStats) : List (ℕ × ℤ) :=
  coreCounters.flatMap fun stats => stats.buckets.map fun bucket => (bucket.bucket, stats.core)

/-- The table of the numbered cores. -/
def buildLut (coreCounters : List CoreStats) : Except Error (List ℤ) := do
  let balancedLut ← (entries coreCounters).foldlM writeEntry (List.replicate lutSize (-1))
  if balancedLut.all (· ≠ -1) then .ok balancedLut else .error .assertion

/-- The groups before the first balancing. -/
def initialGroups
    (cores : ℕ)
    (lutCounters : List ℚ) : Except Error Groups := do
  let lut ← roundRobin cores
  let coreCounters ← lutCountersToCoreCounters cores lut lutCounters
  regroup coreCounters

/-- The groups after each underloaded core got one bucket. -/
def spreadGroups (groups : Groups) : Except Error Groups := do
  let (overloaded, underloaded) ← spread [] groups.underloaded groups.overloaded
  regroup (underloaded ++ overloaded)

/-- The table of the groups after the last balancing. -/
def numberGroups
    (cores : ℕ)
    (groups : Groups) : Except Error (List ℤ) := do
  let (overloaded, availableCores) ← assignOverloaded (List.range cores) groups.overloaded
  let underloaded ← assignUnderloaded availableCores groups.underloaded
  buildLut (underloaded ++ overloaded)

/-- `find_good_lut`. -/
def findGoodLut
    (cores : ℕ)
    (lutCounters : List ℚ) : Failing Error (List ℤ) := do
  let groups ← .ofExcept (initialGroups cores lutCounters)
  let groups ← rebalance groups
  let groups ← .ofExcept (spreadGroups groups)
  let groups ← rebalance groups
  .ofExcept (numberGroups cores groups)

end Lut
end Vigor
