import Vigor.Library.Assignment
import Vigor.Library.FaultLoops
import Vigor.Lut.Spreading

/-!
# The table is complete

The search starts with buckets that are shared by all cores in turn.  It ends
with new numbers for the cores and a table of the owners of the buckets.  In
between the cores always share the buckets, so the table has a core for each
bucket and a bucket for each core.
-/

namespace Vigor
namespace Lut

open Failing (Gives)

/-- All buckets with their counters. -/
def allBuckets (lutCounters : List ℚ) : List Bucket :=
  lutCounters.zipIdx.map fun item => ⟨item.2, item.1⟩

theorem map_bucket_allBuckets (lutCounters : List ℚ) :
    (allBuckets lutCounters).map Bucket.bucket =
      List.range lutCounters.length := by
  unfold allBuckets
  rw [List.map_map, List.range_eq_range']
  exact List.zipIdx_map_snd 0 lutCounters

theorem allBuckets_nonneg (nonneg : ∀ counter ∈ lutCounters, 0 ≤ counter) :
    ∀ bucket ∈ allBuckets lutCounters, 0 ≤ bucket.counter := by
  intro bucket member
  obtain ⟨item, isItem, rfl⟩ := List.mem_map.mp member
  exact nonneg item.1 (List.fst_mem_of_mem_zipIdx isItem)

/-! ## Counting -/

section Counting

/-- The bucket of an entry of the initial table with its counter. -/
def entryBucket (entry : (ℕ × ℚ) × ℕ) : Bucket :=
  ⟨entry.2, entry.1.2⟩

/-- The buckets of a core, in the order of the entries. -/
def owned
    (entries : List ((ℕ × ℚ) × ℕ))
    (core : ℕ) : List Bucket :=
  (entries.filter fun entry => entry.1.1 = core).map entryBucket

/-- The cores after some entries were counted. -/
def counted
    (cores : ℕ)
    (entries : List ((ℕ × ℚ) × ℕ)) : List CoreStats :=
  (List.range cores).map fun core =>
    ⟨if owned entries core = [] then -1 else core, load (owned entries core),
      owned entries core⟩

variable {cores : ℕ} {entries : List ((ℕ × ℚ) × ℕ)} {entry : (ℕ × ℚ) × ℕ}

theorem owned_concat_self :
    owned (entries ++ [entry]) entry.1.1 =
      owned entries entry.1.1 ++ [entryBucket entry] := by
  unfold owned
  rw [List.filter_append, List.filter_singleton, decide_eq_true rfl, cond_true,
    List.map_append, List.map_singleton]

theorem owned_concat_of_ne
    {core : ℕ}
    (different : entry.1.1 ≠ core) :
    owned (entries ++ [entry]) core = owned entries core := by
  unfold owned
  rw [List.filter_append, List.filter_singleton, decide_eq_false different,
    cond_false, List.append_nil]

theorem countBucket_counted (inside : entry.1.1 < cores) :
    countBucket (counted cores entries) entry =
      .ok (counted cores (entries ++ [entry])) := by
  have found : (counted cores entries)[entry.1.1]? = some
      ⟨if owned entries entry.1.1 = [] then -1 else entry.1.1,
        load (owned entries entry.1.1), owned entries entry.1.1⟩ := by
    unfold counted
    rw [List.getElem?_map, List.getElem?_range inside]
    rfl
  unfold countBucket
  rw [found]
  apply congrArg Except.ok
  apply List.ext_getElem?
  intro core
  by_cases same : core = entry.1.1
  · subst same
    have insideCounted : entry.1.1 < (counted cores entries).length := by
      unfold counted
      rw [List.length_map, List.length_range]
      exact inside
    rw [List.getElem?_set_self insideCounted]
    unfold counted
    rw [List.getElem?_map, List.getElem?_range inside]
    simp [owned_concat_self, CoreStats.add, load_append, load_singleton, entryBucket]
  · rw [List.getElem?_set_ne (Ne.symm same)]
    unfold counted
    rw [List.getElem?_map, List.getElem?_map]
    cases found : (List.range cores)[core]? with
    | none => rfl
    | some number =>
        obtain rfl : core = number := by
          have := (List.getElem?_eq_some_iff.mp found).2
          rwa [List.getElem_range] at this
        rw [Option.map_some, Option.map_some, owned_concat_of_ne (Ne.symm same)]

theorem foldlM_countBucket
    (inside : ∀ entry ∈ entries, entry.1.1 < cores)
    (done : List ((ℕ × ℚ) × ℕ)) :
    entries.foldlM countBucket (counted cores done) =
      .ok (counted cores (done ++ entries)) := by
  induction entries generalizing done with
  | nil =>
      rw [List.append_nil]
      rfl
  | cons entry entries ih =>
      obtain ⟨insideFirst, insideRest⟩ := List.forall_mem_cons.mp inside
      rw [FaultLoops.foldlM_cons_ok (countBucket_counted insideFirst),
        ih insideRest, List.append_assoc, List.singleton_append]

theorem counted_nil : counted cores [] = List.replicate cores ⟨-1, 0, []⟩ := by
  unfold counted owned load
  simp

theorem shares_counted
    (inside : ∀ entry ∈ entries, entry.1.1 < cores)
    (each : ∀ core < cores, ∃ entry ∈ entries, entry.1.1 = core) :
    Shares (entries.map entryBucket) cores (counted cores entries) where
  length_eq := by
    unfold counted
    rw [List.length_map, List.length_range]
  perm := by
    have perm := Assignment.flatMap_filter_perm (fun entry : (ℕ × ℚ) × ℕ => entry.1.1) entries cores
    rw [List.filter_eq_self.mpr (by simpa using inside)] at perm
    unfold counted
    rw [List.flatMap_map]
    have mapped := perm.map entryBucket
    rw [List.map_flatMap] at mapped
    exact mapped
  valid := by
    intro stats member
    obtain ⟨core, isCore, rfl⟩ := List.mem_map.mp member
    refine ⟨rfl, ?_⟩
    obtain ⟨entry, isEntry, rfl⟩ := each core (List.mem_range.mp isCore)
    apply List.ne_nil_of_mem
    exact List.mem_map_of_mem (List.mem_filter.mpr ⟨isEntry, decide_eq_true rfl⟩)

end Counting

/-! ## The initial groups -/

section Initial

/-- The initial table with the counters, as it is counted. -/
def initialEntries
    (cores : ℕ)
    (lutCounters : List ℚ) : List ((ℕ × ℚ) × ℕ) :=
  (((List.range lutSize).map (· % cores)).zip lutCounters).zipIdx

variable
  {cores : ℕ}
  {lutCounters : List ℚ}
  (length_eq : lutCounters.length = lutSize)

include length_eq

theorem map_entryBucket_initialEntries :
    (initialEntries cores lutCounters).map entryBucket =
      allBuckets lutCounters := by
  have counters : lutCounters =
      (((List.range lutSize).map (· % cores)).zip lutCounters).map Prod.snd := by
    rw [List.map_snd_zip]
    rw [List.length_map, List.length_range, length_eq]
  unfold allBuckets
  rw [counters, List.zipIdx_map, List.map_map, ← counters]
  rfl

omit length_eq in
theorem owner_of_mem_initialEntries
    (member : entry ∈ initialEntries cores lutCounters) :
    entry.2 < lutSize ∧ entry.1.1 = entry.2 % cores := by
  have owner := (List.getElem?_zip_eq_some.mp (List.mem_zipIdx_iff_getElem?.mp member)).1
  rw [List.getElem?_map] at owner
  obtain ⟨bucket, isBucket, isOwner⟩ := Option.map_eq_some_iff.mp owner
  obtain ⟨inside, rfl⟩ := List.getElem?_eq_some_iff.mp isBucket
  rw [List.getElem_range] at isOwner
  rw [List.length_range] at inside
  exact ⟨inside, isOwner.symm⟩

theorem exists_mem_initialEntries
    {bucket : ℕ}
    (inside : bucket < lutSize) :
    ∃ entry ∈ initialEntries cores lutCounters, entry.1.1 = bucket % cores := by
  have counter : lutCounters[bucket]? = some (lutCounters.get ⟨bucket, by omega⟩) :=
    List.getElem?_eq_getElem _
  refine ⟨((bucket % cores, _), bucket), List.mem_zipIdx_iff_getElem?.mpr
    (List.getElem?_zip_eq_some.mpr ⟨?_, counter⟩), rfl⟩
  rw [List.getElem?_map, List.getElem?_range inside]
  rfl

variable (positive : 0 < cores) (le : cores ≤ lutSize)

include positive le

theorem shares_initial :
    Shares (allBuckets lutCounters) cores
      (counted cores (initialEntries cores lutCounters)) := by
  rw [← map_entryBucket_initialEntries length_eq]
  apply shares_counted
  · intro entry member
    rw [(owner_of_mem_initialEntries member).2]
    exact Nat.mod_lt _ positive
  · intro core inside
    obtain ⟨entry, member, owner⟩ : ∃ entry ∈ initialEntries cores lutCounters,
        entry.1.1 = core % cores :=
      exists_mem_initialEntries length_eq (by omega)
    rw [Nat.mod_eq_of_lt inside] at owner
    exact ⟨entry, member, owner⟩

theorem initialGroups_ok :
    ∃ groups, initialGroups cores lutCounters = .ok groups ∧
      Grouped (allBuckets lutCounters) cores
        (bins (counted cores (initialEntries cores lutCounters))) groups := by
  obtain ⟨groups, regroups, grouped, _⟩ :=
    regroup_ok (shares_initial length_eq positive le) positive .refl
  refine ⟨groups, ?_, grouped⟩
  have inside : ∀ entry ∈ initialEntries cores lutCounters, entry.1.1 < cores := by
    intro entry member
    rw [(owner_of_mem_initialEntries member).2]
    exact Nat.mod_lt _ positive
  have counts : lutCountersToCoreCounters cores ((List.range lutSize).map (· % cores))
      lutCounters = .ok (counted cores (initialEntries cores lutCounters)) := by
    have folds := foldlM_countBucket inside []
    rw [List.nil_append, counted_nil] at folds
    unfold lutCountersToCoreCounters
    exact folds
  have starts : roundRobin cores = .ok ((List.range lutSize).map (· % cores)) := by
    unfold roundRobin
    rw [if_neg (by omega)]
  unfold initialGroups
  rw [starts]
  simp only [bind, Except.bind, counts]
  exact regroups

end Initial

/-! ## Numbers for the cores -/

/-- The core with another number. -/
def CoreStats.renumber
    (stats : CoreStats)
    (core : ℕ) : CoreStats :=
  { stats with core := core }

variable {available : List ℕ}

/-- A number that is found is taken away from the available ones. -/
theorem perm_cons_eraseP (found : available.find? even = some core) :
    (core :: available.eraseP even).Perm available := by
  obtain ⟨isEven, before, behind, rfl, odd⟩ := List.find?_eq_some_iff_append.mp found
  have erased : (before ++ core :: behind).eraseP even = before ++ behind := by
    rw [List.eraseP_append_right, List.eraseP_cons_of_pos isEven]
    intro number member
    simpa using odd number member
  rw [erased]
  exact List.perm_middle.symm

theorem assignOverloaded_ok
    {overloaded : List CoreStats}
    (enough : overloaded.length ≤ available.length) :
    ∃ numbers left, assignOverloaded available overloaded =
        .ok (List.zipWith CoreStats.renumber overloaded numbers, left) ∧
      numbers.length = overloaded.length ∧
        (numbers ++ left).Perm available := by
  induction overloaded generalizing available with
  | nil => exact ⟨[], available, rfl, rfl, .refl _⟩
  | cons stats overloaded ih =>
      rw [List.length_cons] at enough
      -- The number that the core gets, and what the loop goes on with.
      obtain ⟨core, rest, perm, assigns⟩ : ∃ core rest, (core :: rest).Perm available ∧
          assignOverloaded available (stats :: overloaded) = (do
            let assigned ← assignOverloaded rest overloaded
            pure (stats.renumber core :: assigned.1, assigned.2)) := by
        rw [assignOverloaded.eq_def]
        dsimp only
        cases found : available.find? (· % 2 = 0) with
        | some core => exact ⟨core, _, perm_cons_eraseP found, rfl⟩
        | none =>
            cases available with
            | nil => simp at enough
            | cons core rest => exact ⟨core, rest, .refl _, rfl⟩
      have length_eq := perm.length_eq
      rw [List.length_cons] at length_eq
      obtain ⟨numbers, left, assignsRest, length_numbers, permRest⟩ :=
        ih (by omega : overloaded.length ≤ rest.length)
      refine ⟨core :: numbers, left, ?_, congrArg (· + 1) length_numbers,
        (permRest.cons core).trans perm⟩
      rw [assigns, assignsRest]
      rfl

theorem assignUnderloaded_ok
    {underloaded : List CoreStats}
    (enough : underloaded.length ≤ available.length) :
    assignUnderloaded available underloaded =
      .ok (List.zipWith CoreStats.renumber underloaded available) := by
  induction underloaded generalizing available with
  | nil => rw [assignUnderloaded, List.zipWith_nil_left]
  | cons stats underloaded ih =>
      cases available with
      | nil => simp at enough
      | cons core available =>
          rw [assignUnderloaded, ih (Nat.le_of_succ_le_succ enough)]
          rfl

section Renumber

variable
  {cores : List CoreStats}
  {numbers : List ℕ}
  (length_eq : numbers.length = cores.length)

include length_eq

theorem map_renumber
    {α : Type*}
    {field : CoreStats → α}
    (same : ∀ stats number, field (stats.renumber number) = field stats) :
    (List.zipWith CoreStats.renumber cores numbers).map field =
      cores.map field := by
  induction cores generalizing numbers with
  | nil => rw [List.zipWith_nil_left]
  | cons stats cores ih =>
      cases numbers with
      | nil => cases length_eq
      | cons number numbers =>
          rw [List.zipWith_cons_cons, List.map_cons, List.map_cons, same,
            ih (Nat.succ.inj length_eq)]

theorem map_core_renumber :
    (List.zipWith CoreStats.renumber cores numbers).map CoreStats.core =
      numbers.map Nat.cast := by
  induction cores generalizing numbers with
  | nil =>
      obtain rfl := List.eq_nil_of_length_eq_zero length_eq
      rfl
  | cons stats cores ih =>
      cases numbers with
      | nil => cases length_eq
      | cons number numbers =>
          rw [List.zipWith_cons_cons, List.map_cons, List.map_cons, ih (Nat.succ.inj length_eq)]
          rfl

theorem Shares.renumber (shares : Shares all count cores) :
    Shares all count (List.zipWith CoreStats.renumber cores numbers) where
  length_eq := by
    rw [List.length_zipWith, length_eq, Nat.min_self]
    exact shares.length_eq
  perm := by
    rw [List.flatMap_def, map_renumber length_eq fun _ _ => rfl, ← List.flatMap_def]
    exact shares.perm
  valid := by
    intro stats member
    have same := List.mem_map_of_mem (f := fun stats => (stats.pkts, stats.buckets)) member
    rw [map_renumber length_eq fun _ _ => rfl] at same
    obtain ⟨original, isOriginal, equal⟩ := List.mem_map.mp same
    obtain ⟨samePkts, sameBuckets⟩ := Prod.mk.inj equal
    have valid := shares.valid original isOriginal
    exact ⟨by rw [← samePkts, ← sameBuckets]; exact valid.pkts_eq,
      by rw [← sameBuckets]; exact valid.nonempty⟩

end Renumber

/-! ## The table -/

section Build

theorem foldlM_writeEntry
    {writes : List (ℕ × ℤ)}
    (inside : ∀ entry ∈ writes, entry.1 < balancedLut.length) :
    writes.foldlM writeEntry balancedLut =
      .ok (Assignment.write writes balancedLut) := by
  induction writes generalizing balancedLut with
  | nil => rfl
  | cons entry writes ih =>
      obtain ⟨insideFirst, insideRest⟩ := List.forall_mem_cons.mp inside
      have writes : writeEntry balancedLut entry = .ok (balancedLut.set entry.1 entry.2) := by
        unfold writeEntry
        rw [if_pos insideFirst]
      rw [FaultLoops.foldlM_cons_ok writes, Assignment.write_cons]
      apply ih
      intro later member
      rw [List.length_set]
      exact insideRest later member

theorem map_fst_entries (cores : List CoreStats) :
    (entries cores).map Prod.fst =
      (cores.flatMap CoreStats.buckets).map Bucket.bucket := by
  unfold entries
  rw [List.map_flatMap, List.map_flatMap]
  simp only [List.map_map]
  rfl

variable
  {lutCounters : List ℚ}
  {count : ℕ}
  {cores : List CoreStats}

theorem Shares.exists_owner
    (shares : Shares (allBuckets lutCounters) count cores)
    (inside : place < lutCounters.length) :
    ∃ stats ∈ cores, ∃ bucket ∈ stats.buckets, bucket.bucket = place := by
  have member : place ∈ (allBuckets lutCounters).map Bucket.bucket := by
    rw [map_bucket_allBuckets]
    exact List.mem_range.mpr inside
  obtain ⟨bucket, isBucket, rfl⟩ := List.mem_map.mp member
  obtain ⟨stats, isStats, owns⟩ := List.mem_flatMap.mp (shares.perm.mem_iff.mpr isBucket)
  exact ⟨stats, isStats, bucket, owns, rfl⟩

/-- The table names for each bucket the core that has it. -/
def Owners
    (cores : List CoreStats)
    (balancedLut : List ℤ) : Prop :=
  ∀ stats ∈ cores, ∀ bucket ∈ stats.buckets, balancedLut[bucket.bucket]? = some stats.core

/-- Every entry of the table is the number of a core. -/
theorem Owners.exists_core
    (owners : Owners cores balancedLut)
    (shares : Shares (allBuckets lutCounters) count cores)
    (length_eq : balancedLut.length = lutCounters.length)
    (member : core ∈ balancedLut) :
    ∃ stats ∈ cores, stats.core = core := by
  obtain ⟨place, inside, rfl⟩ := List.mem_iff_getElem.mp member
  obtain ⟨stats, isStats, bucket, owns, rfl⟩ := shares.exists_owner (length_eq ▸ inside)
  have entry := owners stats isStats bucket owns
  rw [List.getElem?_eq_getElem inside] at entry
  exact ⟨stats, isStats, (Option.some.inj entry).symm⟩

theorem buildLut_ok
    (length_eq : lutCounters.length = lutSize)
    (shares : Shares (allBuckets lutCounters) count cores)
    (numbered : ∀ stats ∈ cores, 0 ≤ stats.core) :
    ∃ balancedLut,
      buildLut cores = .ok balancedLut ∧ balancedLut.length = lutSize ∧
      Owners cores balancedLut := by
  have places : ((entries cores).map Prod.fst).Perm (List.range lutSize) := by
    rw [map_fst_entries, ← length_eq, ← map_bucket_allBuckets]
    exact shares.perm.map Bucket.bucket
  have inside : ∀ entry ∈ entries cores,
      entry.1 < (List.replicate lutSize (-1 : ℤ)).length := by
    intro entry member
    rw [List.length_replicate]
    exact List.mem_range.mp (places.mem_iff.mp (List.mem_map_of_mem member))
  have written : (Assignment.write (entries cores) (List.replicate lutSize (-1))).length =
      lutSize := by
    rw [Assignment.length_write, List.length_replicate]
  have owners : Owners cores
      (Assignment.write (entries cores) (List.replicate lutSize (-1))) := by
    intro stats isStats bucket owns
    have member : (bucket.bucket, stats.core) ∈ entries cores :=
      List.mem_flatMap.mpr ⟨stats, isStats, List.mem_map_of_mem owns⟩
    exact Assignment.getElem?_write_of_mem (places.nodup_iff.mpr List.nodup_range) member
      (inside _ member)
  refine ⟨_, ?_, written, owners⟩
  have complete : (Assignment.write (entries cores) (List.replicate lutSize (-1))).all
      (· ≠ -1) = true := by
    rw [List.all_eq_true]
    intro core member
    obtain ⟨stats, isStats, rfl⟩ := owners.exists_core shares (written.trans length_eq.symm) member
    have := numbered stats isStats
    exact decide_eq_true (by omega)
  unfold buildLut
  rw [foldlM_writeEntry inside]
  change (if _ then _ else _) = _
  rw [if_pos complete]

/-- The table is that of the cores of the groups with new numbers. -/
structure Numbered
    (lutCounters : List ℚ)
    (count : ℕ)
    (groups : Groups)
    (balancedLut : List ℤ)
    (cores : List CoreStats) : Prop where
  shares : Shares (allBuckets lutCounters) count cores
  numbers : (cores.map CoreStats.core).Perm ((List.range count).map Nat.cast)
  pkts_eq : cores.map CoreStats.pkts =
    (groups.underloaded ++ groups.overloaded).map CoreStats.pkts
  length_eq : balancedLut.length = lutSize
  owners : Owners cores balancedLut

theorem numberGroups_ok
    {groups : Groups}
    (length_eq : lutCounters.length = lutSize)
    (shares : Shares (allBuckets lutCounters) count
      (groups.underloaded ++ groups.overloaded)) :
    ∃ balancedLut cores, numberGroups count groups = .ok balancedLut ∧
      Numbered lutCounters count groups balancedLut cores := by
  have total := shares.length_eq
  rw [List.length_append] at total
  have enough : groups.overloaded.length ≤ (List.range count).length := by
    rw [List.length_range]
    omega
  obtain ⟨numbers, left, assigns, length_numbers, perm⟩ := assignOverloaded_ok enough
  have length_left : left.length = groups.underloaded.length := by
    have lengths := perm.length_eq
    rw [List.length_append, List.length_range] at lengths
    omega
  have assignsLeft := assignUnderloaded_ok (Nat.le_of_eq length_left.symm)
  have together : List.zipWith CoreStats.renumber groups.underloaded left ++
      List.zipWith CoreStats.renumber groups.overloaded numbers =
      List.zipWith CoreStats.renumber (groups.underloaded ++ groups.overloaded) (left ++ numbers) :=
    (List.zipWith_append length_left.symm).symm
  have lengths : (left ++ numbers).length =
      (groups.underloaded ++ groups.overloaded).length := by
    rw [List.length_append, List.length_append, length_left, length_numbers]
  have sharesAfter := shares.renumber lengths
  have numbersAfter := map_core_renumber lengths
  rw [← together] at sharesAfter numbersAfter
  have isNumber : ∀ stats ∈ List.zipWith CoreStats.renumber groups.underloaded left ++
      List.zipWith CoreStats.renumber groups.overloaded numbers, 0 ≤ stats.core := by
    intro stats member
    have isCore := List.mem_map_of_mem (f := CoreStats.core) member
    rw [numbersAfter] at isCore
    obtain ⟨number, _, same⟩ := List.mem_map.mp isCore
    rw [← same]
    exact Int.natCast_nonneg number
  obtain ⟨balancedLut, builds, length_lut, owners⟩ :=
    buildLut_ok length_eq sharesAfter isNumber
  refine ⟨balancedLut, _, ?_, sharesAfter, ?_, ?_, length_lut, owners⟩
  · unfold numberGroups
    rw [assigns]
    change (assignUnderloaded left groups.underloaded >>= _) = _
    rw [assignsLeft]
    exact builds
  · rw [numbersAfter]
    exact (List.perm_append_comm.trans perm).map Nat.cast
  · rw [together, map_renumber lengths fun _ _ => rfl]

end Build

/-! ## The search -/

/-- The parts of a search, with the groups between them. -/
structure Searched
    (cores : ℕ)
    (lutCounters : List ℚ)
    (start balanced spread final : Groups)
    (balancedLut : List ℤ) : Prop where
  starts : initialGroups cores lutCounters = .ok start
  balances : Gives (rebalance start) balanced
  spreads : spreadGroups balanced = .ok spread
  finishes : Gives (rebalance spread) final
  numbers : numberGroups cores final = .ok balancedLut

theorem Searched.gives
    {start balanced spread final : Groups}
    (searched : Searched cores lutCounters start balanced spread final
      balancedLut) :
    Gives (findGoodLut cores lutCounters) balancedLut := by
  apply (Failing.gives_ofExcept searched.starts).bind
  apply searched.balances.bind
  apply (Failing.gives_ofExcept searched.spreads).bind
  apply searched.finishes.bind
  exact Failing.gives_ofExcept searched.numbers

section Search

variable
  {cores : ℕ}
  {lutCounters : List ℚ}
  (positive : 0 < cores)
  (le : cores ≤ lutSize)
  (length_eq : lutCounters.length = lutSize)
  (nonneg : ∀ counter ∈ lutCounters, 0 ≤ counter)

include positive le length_eq nonneg

/-- The search comes to an end.  The groups before the middle part are reached
by moves, and there is none left.  A bound for the first groups is one up to the
middle part, and to the end if it is one after the middle part. -/
theorem exists_searched
    (within : ∀ stats ∈ counted cores (initialEntries cores lutCounters),
      stats.pkts ≤ bound) :
    ∃ start balanced spread final balancedLut numbered,
      Searched cores lutCounters start balanced spread final balancedLut ∧
      Numbered lutCounters cores final balancedLut numbered ∧
      Grouped (allBuckets lutCounters) cores
        (bins (counted cores (initialEntries cores lutCounters))) balanced ∧
      Bins.Stuck (load (allBuckets lutCounters) / cores)
        (bins (balanced.underloaded ++ balanced.overloaded)) ∧
      balanced.Descending ∧
      (TakersFit bound balanced.underloaded
          (balanced.overloaded.flatMap CoreStats.leaving) →
        ∀ stats ∈ final.underloaded ++ final.overloaded,
          stats.pkts ≤ bound) := by
  have counters := allBuckets_nonneg nonneg
  have startWithin := (shares_initial length_eq positive le).within_iff.mpr within
  obtain ⟨start, starts, groupedStart⟩ := initialGroups_ok length_eq positive le
  obtain ⟨balanced, balances, grouped, stuck, descending⟩ :=
    rebalance_gives counters positive groupedStart
  obtain ⟨spread, spreads, groupedSpread, within_iff⟩ :=
    spreadGroups_ok counters positive grouped startWithin
  obtain ⟨final, finishes, groupedFinal, _⟩ :=
    rebalance_gives counters positive groupedSpread
  obtain ⟨balancedLut, numbered, numbers, isNumbered⟩ :=
    numberGroups_ok length_eq groupedFinal.parted.shares
  refine ⟨start, balanced, spread, final, balancedLut, numbered,
    ⟨starts, balances, spreads, finishes, numbers⟩, isNumbered, grouped, stuck,
    descending, ?_⟩
  intro fits
  apply groupedFinal.parted.within counters
  exact groupedSpread.parted.shares.within_iff.mpr (within_iff.mpr fits)

/-- The search gives a table with a core for each bucket and a bucket for each
core. -/
theorem balanced_lut_complete :
    ∃ balancedLut, Gives (findGoodLut cores lutCounters) balancedLut ∧
      balancedLut.length = lutSize ∧
      (∀ core ∈ balancedLut, 0 ≤ core ∧ core < cores) ∧
      ∀ core < cores, (core : ℤ) ∈ balancedLut := by
  have counters := allBuckets_nonneg nonneg
  obtain ⟨_, _, _, _, balancedLut, numbered, searched, isNumbered, _⟩ :=
    exists_searched positive le length_eq nonneg fun stats member =>
      (shares_initial length_eq positive le).pkts_le_load counters member
  have lengths : balancedLut.length = lutCounters.length :=
    isNumbered.length_eq.trans length_eq.symm
  refine ⟨balancedLut, searched.gives, isNumbered.length_eq, ?_, ?_⟩
  · intro core member
    obtain ⟨stats, isStats, rfl⟩ :=
      isNumbered.owners.exists_core isNumbered.shares lengths member
    have isCore := isNumbered.numbers.mem_iff.mp (List.mem_map_of_mem isStats)
    obtain ⟨number, inside, same⟩ := List.mem_map.mp isCore
    have less := List.mem_range.mp inside
    rw [← same]
    omega
  · intro core inside
    have isCore : (core : ℤ) ∈ numbered.map CoreStats.core :=
      isNumbered.numbers.mem_iff.mpr (List.mem_map_of_mem (List.mem_range.mpr inside))
    obtain ⟨stats, isStats, same⟩ := List.mem_map.mp isCore
    obtain ⟨bucket, owns⟩ :=
      List.exists_mem_of_ne_nil _ (isNumbered.shares.valid stats isStats).nonempty
    rw [← same]
    exact List.mem_of_getElem? (isNumbered.owners stats isStats bucket owns)

end Search

/-- Sixteen cores and buckets with as many packets as their numbers say. -/
theorem balanced_lut_complete_sixteen_cores :
    ∃ balancedLut,
      Gives (findGoodLut 16 ((List.range lutSize).map Nat.cast)) balancedLut ∧
      balancedLut.length = lutSize ∧
      (∀ core ∈ balancedLut, 0 ≤ core ∧ core < (16 : ℕ)) ∧
      ∀ core : ℕ, core < 16 → (core : ℤ) ∈ balancedLut := by
  apply balanced_lut_complete
  · decide
  · decide
  · rw [List.length_map, List.length_range]
  · intro counter member
    obtain ⟨bucket, -, rfl⟩ := List.mem_map.mp member
    exact Nat.cast_nonneg bucket

end Lut
end Vigor
