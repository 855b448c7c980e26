import Vigor.Lut.Shares

/-!
# The loops of the search

Each loop keeps the cores sharing the buckets.  A move takes a bucket away from
the overloaded cores, and no core becomes overloaded by it, so balancing comes
to an end.  No move lifts a core above the average, so a bound for all cores
stays one.  When balancing ends, no bucket fits anywhere.
-/

namespace Vigor
namespace Lut

open Failing (Gives)

/-! ## One move -/

section Move

variable
  {avg : ℚ}
  {underloaded : List CoreStats}

/-- A core that stays below the average gets the bucket. -/
def Fits
    (avg : ℚ)
    (bucket : Bucket)
    (underloaded after : List CoreStats) : Prop :=
  ∃ head taker tail, underloaded = head ++ taker :: tail ∧
    taker.pkts + bucket.counter ≤ avg ∧ after = head ++ taker.add bucket :: tail

theorem giveBucket_cases
    (bucket : Bucket)
    (nonempty : ∀ stats ∈ underloaded, stats.buckets ≠ []) :
    giveBucket avg bucket underloaded = .ok none ∧
        (∀ stats ∈ underloaded, avg < stats.pkts + bucket.counter) ∨
      ∃ after, giveBucket avg bucket underloaded = .ok (some after) ∧
        Fits avg bucket underloaded after := by
  induction underloaded with
  | nil => exact .inl ⟨rfl, by simp⟩
  | cons stats underloaded ih =>
      obtain ⟨nonemptyFirst, nonemptyRest⟩ := List.forall_mem_cons.mp nonempty
      obtain ⟨first, rest, isBuckets⟩ := List.exists_cons_of_ne_nil nonemptyFirst
      rw [giveBucket, isBuckets]
      dsimp only
      by_cases above : stats.pkts + bucket.counter > avg
      · rw [if_pos above]
        rcases ih nonemptyRest with ⟨nobody, full⟩ | ⟨after, gave, fits⟩
        · left
          rw [nobody]
          exact ⟨rfl, List.forall_mem_cons.mpr ⟨above, full⟩⟩
        · right
          obtain ⟨head, taker, tail, rfl, room, rfl⟩ := fits
          rw [gave]
          exact ⟨_, rfl, stats :: head, taker, tail, rfl, room, rfl⟩
      · rw [if_neg above]
        exact .inr ⟨_, rfl, [], stats, underloaded, rfl, le_of_not_gt above, rfl⟩

theorem moveBucket_cases
    (nonempty : ∀ stats ∈ underloaded, stats.buckets ≠ [])
    (before buckets : List Bucket) :
    moveBucket avg underloaded before buckets = .ok none ∧
        (∀ bucket ∈ buckets, ∀ stats ∈ underloaded,
          avg < stats.pkts + bucket.counter) ∨
      ∃ bucket kept after,
        moveBucket avg underloaded before buckets =
          .ok (some (bucket, kept, after)) ∧
        (before ++ buckets).Perm (bucket :: kept) ∧
          Fits avg bucket underloaded after := by
  induction buckets generalizing before with
  | nil => exact .inl ⟨rfl, by simp⟩
  | cons first buckets ih =>
      rw [moveBucket]
      rcases giveBucket_cases first nonempty with
        ⟨nobody, full⟩ | ⟨after, gave, fits⟩
      · rw [nobody, List.append_cons before first buckets]
        exact (ih (before ++ [first])).imp_left
          fun stuck => ⟨stuck.1, List.forall_mem_cons.mpr ⟨full, stuck.2⟩⟩
      · rw [gave]
        exact .inr ⟨first, _, after, rfl, List.perm_middle, fits⟩

end Move

/-! ## Balancing -/

/-- The number of buckets of some cores. -/
def bucketCount (cores : List CoreStats) : ℕ :=
  (cores.flatMap CoreStats.buckets).length

theorem bucketCount_cons
    (stats : CoreStats)
    (cores : List CoreStats) :
    bucketCount (stats :: cores) =
      stats.buckets.length + bucketCount cores := by
  unfold bucketCount
  rw [List.flatMap_cons, List.length_append]

theorem bucketCount_filter_le
    (keep : CoreStats → Bool)
    (cores : List CoreStats) :
    bucketCount (cores.filter keep) ≤ bucketCount cores := by
  induction cores with
  | nil => exact Nat.le_refl _
  | cons stats cores ih =>
      rw [List.filter_cons]
      split_ifs
      · rw [bucketCount_cons, bucketCount_cons]
        omega
      · rw [bucketCount_cons]
        omega

theorem bucketCount_append (first second : List CoreStats) :
    bucketCount (first ++ second) = bucketCount first + bucketCount second := by
  unfold bucketCount
  rw [List.flatMap_append, List.length_append]

/-- The cores share the buckets, their buckets are reached by moves from a
distribution, and the first ones are not above the average. -/
structure Parted
    (all : List Bucket)
    (count : ℕ)
    (start : Multiset (Multiset ℚ))
    (underloaded overloaded : List CoreStats) : Prop where
  shares : Shares all count (underloaded ++ overloaded)
  reached : Relation.ReflTransGen (Bins.Moves (load all / count)) start
    (bins (underloaded ++ overloaded))
  under : ∀ stats ∈ underloaded, stats.pkts ≤ load all / count

section Balance

variable
  {all : List Bucket}
  {count : ℕ}
  {start : Multiset (Multiset ℚ)}
  (nonneg : ∀ bucket ∈ all, 0 ≤ bucket.counter)

include nonneg

theorem Parted.within
    (parted : Parted all count start underloaded overloaded)
    (within : Bins.Within bound start) :
    ∀ stats ∈ underloaded ++ overloaded, stats.pkts ≤ bound := by
  refine parted.shares.within_iff.mp (Bins.within_of_reached parted.reached ?_ within)
  rw [parted.shares.sum_bins]
  intro weight member
  obtain ⟨bucket, isBucket, rfl⟩ := List.mem_map.mp (Multiset.mem_coe.mp member)
  exact nonneg bucket isBucket

section

variable {giver : CoreStats}
  (above : load all / count < giver.pkts)
  (split : giver.buckets.Perm (bucket :: kept))
  (fits : Fits (load all / count) bucket underloaded after)

include above split fits

theorem Parted.kept_ne_nil
    (parted : Parted all count start underloaded overloaded)
    (member : giver ∈ overloaded) :
    kept ≠ [] := by
  rintro rfl
  obtain ⟨head, taker, tail, rfl, room, -⟩ := fits
  have takerNonneg : 0 ≤ taker.pkts := parted.shares.pkts_nonneg nonneg (by simp)
  have only := (parted.shares.valid giver (List.mem_append_right _ member)).pkts_eq
  rw [load_perm split, load_singleton] at only
  linarith

theorem Parted.move
    (parted : Parted all count start underloaded (before ++ giver :: behind)) :
    Parted all count start after
      (before ++ giver.remove bucket kept :: behind) := by
  have keeps : kept ≠ [] := parted.kept_ne_nil nonneg above split fits (by simp)
  obtain ⟨head, taker, tail, rfl, room, rfl⟩ := fits
  have bring : ∀ taker giver : CoreStats,
      (head ++ taker :: tail ++ (before ++ giver :: behind)).Perm
        (taker :: giver :: (head ++ tail ++ (before ++ behind))) := by
    intro taker giver
    apply List.perm_iff_count.mpr
    intro stats
    simp only [List.count_append, List.count_cons]
    omega
  refine ⟨?_, ?_, ?_⟩
  · exact ((parted.shares.of_perm (bring taker giver).symm).move split keeps).of_perm (bring _ _)
  · have moves : Bins.Moves (load all / count)
        (bins (head ++ taker :: tail ++ (before ++ giver :: behind)))
        (bins (head ++ taker.add bucket :: tail ++
          (before ++ giver.remove bucket kept :: behind))) := by
      have giverSum := (parted.shares.valid giver (by simp)).sum_counters
      have takerSum := (parted.shares.valid taker (by simp)).sum_counters
      rw [counters_remove split] at giverSum
      rw [bins_perm (bring _ _), bins_perm (bring _ _), bins_cons, bins_cons,
        bins_cons, bins_cons, counters_add, counters_remove split]
      refine .move (giverSum ▸ above) ?_
      rw [Multiset.sum_cons, takerSum, add_comm]
      exact room
    exact parted.reached.tail moves
  · intro stats member
    rcases List.mem_append.mp member with inHead | member
    · exact parted.under stats (List.mem_append_left _ inHead)
    · rcases List.mem_cons.mp member with rfl | inTail
      · exact room
      · exact parted.under stats (by simp [inTail])

end

/-- What the loop of `balance` keeps.  At its start the overloaded cores had a
number of buckets. -/
structure Balancing
    (all : List Bucket)
    (count : ℕ)
    (start : Multiset (Multiset ℚ))
    (buckets : ℕ)
    (progress : Progress) : Prop where
  parted : Parted all count start progress.underloaded (progress.done ++ progress.remaining)
  allAbove : ∀ stats ∈ progress.remaining, load all / count < stats.pkts
  fewer : bucketCount (progress.done ++ progress.remaining) + progress.balanceEffect.toNat ≤
    buckets
  /-- Without a move, no bucket of a core that is done fits. -/
  stuck : progress.balanceEffect = false → ∀ stats ∈ progress.done,
    load all / count < stats.pkts ∧ ∀ bucket ∈ stats.buckets,
      ∀ taker ∈ progress.underloaded, load all / count < taker.pkts + bucket.counter

/-- The rounds that are left at most: one for each bucket of an overloaded core
and one for each core. -/
def Progress.roundsLeft (progress : Progress) : ℕ :=
  bucketCount progress.remaining + progress.remaining.length

omit nonneg in
theorem balanceRound_of_moves
    (moves : moveBucket avg underloaded [] stats.buckets =
      .ok (some (bucket, kept, after)))
    (average : avg ≠ 0) :
    balanceRound avg ⟨effect, underloaded, done, stats :: remaining⟩ =
      if ((stats.remove bucket kept).pkts - avg) / avg < 1 / 100 then
        .ok (.next ⟨true, after, done ++ [stats.remove bucket kept], remaining⟩)
      else .ok (.next
        ⟨true, after, done, stats.remove bucket kept :: remaining⟩) := by
  rw [balanceRound]
  dsimp only
  rw [moves]
  change (if avg = 0 then .error .zeroDivision
    else if ((stats.remove bucket kept).pkts - avg) / avg < 1 / 100 then
      .ok (.next ⟨true, after, done ++ [stats.remove bucket kept], remaining⟩)
    else .ok (.next ⟨true, after, done, stats.remove bucket kept :: remaining⟩) :
      Except Error (Fuelled.Round Progress Progress)) = _
  rw [if_neg average]

theorem balanceRound_cases
    (balancing : Balancing all count start buckets progress) :
    (balanceRound (load all / count) progress = .ok (.done progress) ∧
        progress.remaining = []) ∨
      ∃ following,
        balanceRound (load all / count) progress = .ok (.next following) ∧
        Balancing all count start buckets following ∧
        following.roundsLeft < progress.roundsLeft := by
  obtain ⟨effect, underloaded, done, remaining⟩ := progress
  obtain ⟨parted, allAbove, fewer, settled⟩ := balancing
  dsimp only at parted allAbove fewer settled
  cases remaining with
  | nil => exact .inl ⟨rfl, rfl⟩
  | cons stats remaining =>
      obtain ⟨above, overRest⟩ := List.forall_mem_cons.mp allAbove
      right
      have nonempty : ∀ other ∈ underloaded, other.buckets ≠ [] := fun other member =>
        (parted.shares.valid other (List.mem_append_left _ member)).nonempty
      rcases moveBucket_cases nonempty [] stats.buckets with
        ⟨stuck, nowhere⟩ | ⟨bucket, kept, after, moves, split, fits⟩
      · -- No bucket of the core fits, and the loop leaves it.
        rw [balanceRound]
        dsimp only
        rw [stuck]
        refine ⟨_, rfl, ⟨?_, overRest, ?_, fun noEffect => ?_⟩, ?_⟩
        · dsimp only
          rw [← List.append_cons]
          exact parted
        · dsimp only
          rw [← List.append_cons]
          exact fewer
        · exact List.forall_mem_append.mpr
            ⟨settled noEffect, List.forall_mem_singleton.mpr ⟨above, nowhere⟩⟩
        · simp only [Progress.roundsLeft, bucketCount_cons, List.length_cons]
          omega
      · have average : 0 < load all / (count : ℚ) :=
          parted.shares.average_pos nonneg (by simp) above
        have moved := parted.move nonneg above split fits
        have count_eq : stats.buckets.length = kept.length + 1 := split.length_eq
        have fewerAfter : bucketCount (done ++ stats.remove bucket kept :: remaining) +
            true.toNat ≤ buckets := by
          rw [bucketCount_append, bucketCount_cons, count_eq] at fewer
          rw [bucketCount_append, bucketCount_cons]
          simp only [CoreStats.remove, Bool.toNat_true]
          omega
        rw [balanceRound_of_moves moves average.ne']
        split_ifs with enough
        -- The core is near the average, or it is the first one of the next round too.
        · refine ⟨_, rfl, ⟨?_, overRest, ?_, fun noEffect => Bool.noConfusion noEffect⟩, ?_⟩
          · dsimp only
            rw [← List.append_cons]
            exact moved
          · dsimp only
            rw [← List.append_cons]
            exact fewerAfter
          · simp only [Progress.roundsLeft, bucketCount_cons, List.length_cons]
            omega
        · refine ⟨_, rfl, ⟨moved, ?_, fewerAfter, fun noEffect => Bool.noConfusion noEffect⟩, ?_⟩
          · refine List.forall_mem_cons.mpr ⟨?_, overRest⟩
            have more := (le_div_iff₀ average).mp (le_of_not_gt enough)
            linarith
          · simp only [Progress.roundsLeft, bucketCount_cons, List.length_cons,
              count_eq, CoreStats.remove]
            omega

/-- The groups as the loops of `find_good_lut` have them. -/
structure Grouped
    (all : List Bucket)
    (count : ℕ)
    (start : Multiset (Multiset ℚ))
    (groups : Groups) : Prop where
  avg_eq : groups.avg = load all / count
  parted : Parted all count start groups.underloaded groups.overloaded
  allAbove : ∀ stats ∈ groups.overloaded, load all / count < stats.pkts

/-- If no bucket of the overloaded cores fits on an underloaded one, then there
is no move. -/
theorem Parted.stuck
    (parted : Parted all count start underloaded overloaded)
    (nowhere : ∀ stats ∈ overloaded,
      load all / count < stats.pkts ∧ ∀ bucket ∈ stats.buckets,
        ∀ taker ∈ underloaded, load all / count < taker.pkts + bucket.counter) :
    Bins.Stuck (load all / count) (bins (underloaded ++ overloaded)) := by
  intro after moves
  generalize isBins : bins (underloaded ++ overloaded) = before at moves
  obtain @⟨weight, taker, kept, others, above, fits⟩ := moves
  have takerMember : taker ∈ bins (underloaded ++ overloaded) := by simp [isBins]
  have giverMember : weight ::ₘ kept ∈ bins (underloaded ++ overloaded) := by simp [isBins]
  obtain ⟨takerCore, isTaker, rfl⟩ := List.mem_map.mp (Multiset.mem_coe.mp takerMember)
  obtain ⟨giver, isGiver, giverCounters⟩ :=
    List.mem_map.mp (Multiset.mem_coe.mp giverMember)
  have isWeight : weight ∈ giver.counters := by simp [giverCounters]
  obtain ⟨bucket, owns, rfl⟩ := List.mem_map.mp (Multiset.mem_coe.mp isWeight)
  rw [← giverCounters, (parted.shares.valid giver isGiver).sum_counters] at above
  rw [Multiset.sum_cons, (parted.shares.valid takerCore isTaker).sum_counters] at fits
  have giverOver : giver ∈ overloaded :=
    (List.mem_append.mp isGiver).resolve_left fun isUnder =>
      absurd above (not_lt_of_ge (parted.under giver isUnder))
  rcases List.mem_append.mp isTaker with isUnder | isOver
  · have full := (nowhere giver giverOver).2 bucket owns takerCore isUnder
    linarith
  · have takerAbove := (nowhere takerCore isOver).1
    have counterNonneg := parted.shares.counter_nonneg nonneg isGiver owns
    linarith

theorem balance_gives
    {groups : Groups}
    (grouped : Grouped all count start groups) :
    ∃ change after, Gives (balance groups) (change, after) ∧
      Parted all count start after.underloaded after.overloaded ∧
      bucketCount after.overloaded + change.toNat ≤
        bucketCount groups.overloaded ∧
      (change = false →
        Bins.Stuck (load all / count)
          (bins (after.underloaded ++ after.overloaded))) := by
  unfold balance
  split_ifs with nobody
  · refine ⟨false, groups, Failing.gives_pure _, grouped.parted, Nat.le_refl _, fun _ => ?_⟩
    apply grouped.parted.stuck nonneg
    simp [List.length_eq_zero_iff.mp nobody]
  · have started : Balancing all count start (bucketCount groups.overloaded)
        ⟨false, groups.underloaded, [], groups.overloaded⟩ :=
      ⟨grouped.parted, grouped.allAbove, Nat.le_refl _, by simp⟩
    have ends : ∃ progress, Gives (Failing.loop
        (fun progress => .ofExcept (balanceRound groups.avg progress))
        ⟨false, groups.underloaded, [], groups.overloaded⟩) progress ∧
        Balancing all count start (bucketCount groups.overloaded) progress ∧
          progress.remaining = [] := by
      refine Failing.loop_gives (Balancing all count start (bucketCount groups.overloaded))
        Progress.roundsLeft ?_ started
      rw [grouped.avg_eq]
      intro progress balancing
      rcases balanceRound_cases nonneg balancing with
        ⟨leaves, ended⟩ | ⟨following, continues, kept, lower⟩
      · exact .inl ⟨progress, Failing.gives_ofExcept leaves, balancing, ended⟩
      · exact .inr ⟨following, Failing.gives_ofExcept continues, kept, lower⟩
    obtain ⟨progress, gives, ⟨parted, _, fewer, settled⟩, ended⟩ := ends
    rw [ended, List.append_nil] at parted fewer
    exact ⟨_, _, gives.bind (Failing.gives_pure _), parted, fewer,
      fun noEffect => parted.stuck nonneg (settled noEffect)⟩

end Balance

/-! ## Grouping -/

section Regroup

variable
  {all : List Bucket}
  {count : ℕ}
  {start : Multiset (Multiset ℚ)}

theorem perm_sortedBy
    {α : Type}
    (key : α → ℚ)
    (items : List α) :
    (sortedBy key items).Perm items :=
  List.perm_insertionSort _ items

theorem perm_sortedByReverse
    {α : Type}
    (key : α → ℚ)
    (items : List α) :
    (sortedByReverse key items).Perm items :=
  List.perm_insertionSort _ items

theorem groupCoreCounters_ok
    (shares : Shares all count cores)
    (positive : 0 < count)
    (reached : Relation.ReflTransGen (Bins.Moves (load all / count)) start
      (bins cores)) :
    ∃ groups,
      groupCoreCounters cores = .ok groups ∧ Grouped all count start groups ∧
      groups.overloaded =
        (cores.filter fun stats => stats.pkts > load all / count) ∧
      (groups.underloaded ++ groups.overloaded).Perm cores := by
  have notEmpty : ¬cores.length = 0 := by
    rw [shares.length_eq]
    omega
  have perm : ((cores.filter fun stats => ¬stats.pkts > load all / count) ++
      cores.filter fun stats => stats.pkts > load all / count).Perm cores := by
    simp only [decide_not]
    exact List.perm_append_comm.trans (List.filter_append_perm _ cores)
  unfold groupCoreCounters
  dsimp only
  rw [if_neg notEmpty, shares.sum_pkts, shares.length_eq]
  refine ⟨_, rfl, ⟨rfl, ⟨shares.of_perm perm, ?_, ?_⟩, ?_⟩, rfl, perm⟩
  · rw [bins_perm perm]
    exact reached
  · intro stats member
    have below := (List.mem_filter.mp member).2
    exact le_of_not_gt (of_decide_eq_true below)
  · intro stats member
    exact of_decide_eq_true (List.mem_filter.mp member).2

theorem exists_of_mem_map_sorted
    {cores sorted : List CoreStats}
    (perm : sorted.Perm cores)
    {sort : List Bucket → List Bucket}
    (member : stats ∈ sorted.map fun stats => { stats with buckets := sort stats.buckets }) :
    ∃ original ∈ cores, stats.pkts = original.pkts := by
  obtain ⟨original, isOriginal, rfl⟩ := List.mem_map.mp member
  exact ⟨original, perm.mem_iff.mp isOriginal, rfl⟩

theorem bins_sortGroups (groups : Groups) :
    bins ((sortGroups groups).underloaded ++ (sortGroups groups).overloaded) =
      bins (groups.underloaded ++ groups.overloaded) := by
  have sorted {cores ordered : List CoreStats} (perm : ordered.Perm cores)
      {sort : List Bucket → List Bucket} (keeps : ∀ buckets, (sort buckets).Perm buckets) :
      ((ordered.map fun stats => { stats with buckets := sort stats.buckets }).map
        CoreStats.counters).Perm (cores.map CoreStats.counters) := by
    rw [List.map_map]
    refine List.Perm.trans (.of_eq ?_) (perm.map CoreStats.counters)
    exact List.map_congr_left fun stats _ => counters_perm (keeps stats.buckets)
  unfold sortGroups
  refine Multiset.coe_eq_coe.mpr ?_
  rw [List.map_append, List.map_append]
  exact (sorted (perm_sortedBy _ _) (perm_sortedBy _)).append
    (sorted (perm_sortedByReverse _ _) (perm_sortedByReverse _))

theorem Grouped.sortGroups
    {groups : Groups}
    (grouped : Grouped all count start groups) :
    Grouped all count start (sortGroups groups) where
  avg_eq := grouped.avg_eq
  parted :=
    { shares := by
        apply Shares.map_left
        · apply Shares.map_right
          · refine grouped.parted.shares.of_perm ?_
            exact (perm_sortedBy _ _).append (perm_sortedByReverse _ _)
          · intro stats
            rfl
          · intro stats
            exact perm_sortedByReverse _ _
        · intro stats
          rfl
        · intro stats
          exact perm_sortedBy _ _
      reached := by
        rw [bins_sortGroups]
        exact grouped.parted.reached
      under := by
        intro stats member
        obtain ⟨original, isOriginal, same⟩ :=
          exists_of_mem_map_sorted (perm_sortedBy _ _) member
        rw [same]
        exact grouped.parted.under original isOriginal }
  allAbove := by
    intro stats member
    obtain ⟨original, isOriginal, same⟩ :=
      exists_of_mem_map_sorted (perm_sortedByReverse _ _) member
    rw [same]
    exact grouped.allAbove original isOriginal

/-- Every overloaded core has its largest bucket first. -/
def Groups.Descending (groups : Groups) : Prop :=
  ∀ stats ∈ groups.overloaded,
    stats.buckets.Pairwise fun first second => second.counter ≤ first.counter

theorem descending_sortGroups (groups : Groups) :
    (sortGroups groups).Descending := by
  intro stats member
  obtain ⟨original, _, rfl⟩ := List.mem_map.mp member
  have : Std.Total fun left right : Bucket => right.counter ≤ left.counter :=
    ⟨fun left right => le_total right.counter left.counter⟩
  have : IsTrans Bucket fun left right => right.counter ≤ left.counter :=
    ⟨fun _ _ _ first second => second.trans first⟩
  exact List.pairwise_insertionSort _ original.buckets

theorem perm_pkts_sortGroups (groups : Groups) :
    (((sortGroups groups).underloaded ++ (sortGroups groups).overloaded).map
      CoreStats.pkts).Perm
        ((groups.underloaded ++ groups.overloaded).map CoreStats.pkts) := by
  unfold sortGroups
  simp only [List.map_append, List.map_map]
  exact ((perm_sortedBy _ _).map _).append ((perm_sortedByReverse _ _).map _)

theorem bucketCount_sortGroups (groups : Groups) :
    bucketCount (sortGroups groups).overloaded =
      bucketCount groups.overloaded := by
  unfold bucketCount sortGroups
  dsimp only
  rw [List.flatMap_map]
  exact ((perm_sortedByReverse CoreStats.pkts groups.overloaded).flatMap
    fun stats _ => perm_sortedByReverse Bucket.counter stats.buckets).length_eq

/-- Grouping and sorting after a change. -/
theorem regroup_ok
    (shares : Shares all count cores)
    (positive : 0 < count)
    (reached : Relation.ReflTransGen (Bins.Moves (load all / count)) start
      (bins cores)) :
    ∃ groups, regroup cores = .ok groups ∧ Grouped all count start groups ∧
      bucketCount groups.overloaded =
        bucketCount (cores.filter fun stats => stats.pkts > load all / count) ∧
      ((groups.underloaded ++ groups.overloaded).map CoreStats.pkts).Perm
        (cores.map CoreStats.pkts) ∧
      bins (groups.underloaded ++ groups.overloaded) = bins cores ∧
        groups.Descending := by
  obtain ⟨groups, grouping, grouped, isOver, perm⟩ :=
    groupCoreCounters_ok shares positive reached
  refine ⟨sortGroups groups, ?_, grouped.sortGroups, ?_, ?_,
    (bins_sortGroups groups).trans (bins_perm perm), descending_sortGroups groups⟩
  · unfold regroup
    rw [grouping]
    rfl
  · rw [bucketCount_sortGroups, isOver]
  · exact (perm_pkts_sortGroups groups).trans (perm.map CoreStats.pkts)

variable (nonneg : ∀ bucket ∈ all, 0 ≤ bucket.counter)

include nonneg

theorem rebalance_gives
    (positive : 0 < count)
    (grouped : Grouped all count start groups) :
    ∃ after, Gives (rebalance groups) after ∧ Grouped all count start after ∧
      Bins.Stuck (load all / count)
        (bins (after.underloaded ++ after.overloaded)) ∧
      after.Descending := by
  refine Failing.loop_gives (Grouped all count start)
    (fun groups => bucketCount groups.overloaded) ?_ grouped
  intro groups grouped
  obtain ⟨change, balanced, balances, parted, fewer, settled⟩ := balance_gives nonneg grouped
  obtain ⟨after, regroups, groupedAfter, sameCount, _, sameBins, descending⟩ :=
    regroup_ok parted.shares positive parted.reached
  cases change with
  | false =>
      refine .inl ⟨after, balances.bind ((Failing.gives_ofExcept regroups).bind
        (Failing.gives_pure _)), groupedAfter, ?_, descending⟩
      rw [sameBins]
      exact settled rfl
  | true =>
      refine .inr ⟨after, balances.bind ((Failing.gives_ofExcept regroups).bind
        (Failing.gives_pure _)), groupedAfter, ?_⟩
      have noneUnder : (balanced.underloaded.filter fun stats =>
          stats.pkts > load all / count) = [] := by
        apply List.filter_eq_nil_iff.mpr
        intro stats member
        rw [decide_eq_true_iff]
        exact not_lt_of_ge (parted.under stats member)
      have fewerOver := bucketCount_filter_le (fun stats => stats.pkts > load all / count)
        balanced.overloaded
      rw [sameCount, List.filter_append, noneUnder, List.nil_append]
      rw [Bool.toNat_true] at fewer
      omega

end Regroup

end Lut
end Vigor
