import Mathlib.Algebra.Order.Field.Basic
import Mathlib.Tactic.Linarith
import Vigor.Library.Bins
import Vigor.Lut.Impl

/-!
# Sharing the buckets

At every moment the cores share all buckets, and no core is without one.  A
bucket that is moved from one core to another keeps this, if the core that gives
it has another one.  The totals of the cores lie around the average, which never
changes.
-/

namespace Vigor
namespace Lut

/-- The number of packets of some buckets. -/
def load (buckets : List Bucket) : ℚ :=
  (buckets.map Bucket.counter).sum

theorem load_cons
    (bucket : Bucket)
    (buckets : List Bucket) :
    load (bucket :: buckets) = bucket.counter + load buckets := by
  unfold load
  rw [List.map_cons, List.sum_cons]

theorem load_singleton (bucket : Bucket) : load [bucket] = bucket.counter :=
  List.sum_singleton

theorem load_append (first second : List Bucket) :
    load (first ++ second) = load first + load second := by
  unfold load
  rw [List.map_append, List.sum_append]

theorem load_perm
    {first second : List Bucket}
    (perm : first.Perm second) :
    load first = load second :=
  (perm.map Bucket.counter).sum_eq

theorem load_nonneg
    {buckets : List Bucket}
    (nonneg : ∀ bucket ∈ buckets, 0 ≤ bucket.counter) :
    0 ≤ load buckets := by
  apply List.sum_nonneg
  intro counter member
  obtain ⟨bucket, isBucket, rfl⟩ := List.mem_map.mp member
  exact nonneg bucket isBucket

/-- The core counts the packets of its buckets, and it has some. -/
structure CoreStats.Valid (stats : CoreStats) : Prop where
  pkts_eq : stats.pkts = load stats.buckets
  nonempty : stats.buckets ≠ []

/-- The cores share all the buckets. -/
structure Shares (all : List Bucket) (count : ℕ) (cores : List CoreStats) :
    Prop where
  length_eq : cores.length = count
  perm : (cores.flatMap CoreStats.buckets).Perm all
  valid : ∀ stats ∈ cores, stats.Valid

namespace Shares

variable {all : List Bucket} {count : ℕ} {cores : List CoreStats}

theorem of_perm
    (shares : Shares all count cores)
    (perm : others.Perm cores) :
    Shares all count others where
  length_eq := perm.length_eq.trans shares.length_eq
  perm := (perm.flatMap fun _ _ => .refl _).trans shares.perm
  valid := fun stats member => shares.valid stats (perm.mem_iff.mp member)

section

variable {change : CoreStats → CoreStats}
  (shares : Shares all count (first ++ second))
  (samePkts : ∀ stats, (change stats).pkts = stats.pkts)
  (permBuckets : ∀ stats, (change stats).buckets.Perm stats.buckets)

include shares samePkts permBuckets

theorem map_left : Shares all count (first.map change ++ second) where
  length_eq := by
    rw [List.length_append, List.length_map, ← List.length_append]
    exact shares.length_eq
  perm := by
    refine List.Perm.trans ?_ shares.perm
    rw [List.flatMap_append, List.flatMap_append, List.flatMap_map]
    exact (List.Perm.flatMap_left first fun stats _ => permBuckets stats).append_right _
  valid := by
    intro changed member
    rcases List.mem_append.mp member with inFirst | inSecond
    · obtain ⟨stats, isStats, rfl⟩ := List.mem_map.mp inFirst
      have valid := shares.valid stats (List.mem_append_left _ isStats)
      refine ⟨?_, ?_⟩
      · rw [samePkts, valid.pkts_eq, load_perm (permBuckets stats)]
      · intro empty
        apply valid.nonempty
        exact List.perm_nil.mp (empty ▸ (permBuckets stats).symm)
    · exact shares.valid changed (List.mem_append_right _ inSecond)

theorem map_right : Shares all count (first ++ second.map change) :=
  ((shares.of_perm List.perm_append_comm).map_left samePkts permBuckets).of_perm
    List.perm_append_comm

end

theorem move
    (shares : Shares all count (taker :: giver :: others))
    (split : giver.buckets.Perm (bucket :: kept))
    (nonempty : kept ≠ []) :
    Shares all count
      (taker.add bucket :: giver.remove bucket kept :: others) where
  length_eq := shares.length_eq
  perm := by
    refine List.Perm.trans ?_ shares.perm
    simp only [List.flatMap_cons, CoreStats.add, CoreStats.remove, ← List.append_assoc]
    apply List.Perm.append_right
    rw [List.append_assoc]
    exact split.symm.append_left taker.buckets
  valid := by
    have validTaker := shares.valid taker List.mem_cons_self
    have validGiver := shares.valid giver (List.mem_cons_of_mem _ List.mem_cons_self)
    intro stats member
    rcases List.mem_cons.mp member with rfl | member
    · refine ⟨?_, List.append_ne_nil_of_right_ne_nil _ (List.cons_ne_nil _ _)⟩
      simp only [CoreStats.add, load_append, load_singleton, validTaker.pkts_eq]
    · rcases List.mem_cons.mp member with rfl | member
      · refine ⟨?_, nonempty⟩
        simp only [CoreStats.remove, validGiver.pkts_eq, load_perm split,
          load_cons, add_sub_cancel_left]
      · exact shares.valid stats (List.mem_cons_of_mem _ (List.mem_cons_of_mem _ member))

/-! ## Totals -/

theorem sum_pkts (shares : Shares all count cores) :
    (cores.map CoreStats.pkts).sum = load all := by
  have sums : ∀ cores : List CoreStats, (∀ stats ∈ cores, stats.Valid) →
      (cores.map CoreStats.pkts).sum = load (cores.flatMap CoreStats.buckets) := by
    intro cores valid
    induction cores with
    | nil => rfl
    | cons stats cores ih =>
        obtain ⟨validFirst, validRest⟩ := List.forall_mem_cons.mp valid
        rw [List.map_cons, List.sum_cons, List.flatMap_cons, load_append,
          ih validRest, validFirst.pkts_eq]
  rw [sums cores shares.valid, load_perm shares.perm]

variable (nonneg : ∀ bucket ∈ all, 0 ≤ bucket.counter)

include nonneg

variable {stats : CoreStats}

section

variable (shares : Shares all count cores)
  (member : stats ∈ cores)

include shares member

theorem counter_nonneg
    (inside : bucket ∈ stats.buckets) :
    0 ≤ bucket.counter := by
  apply nonneg
  apply shares.perm.mem_iff.mp
  exact List.mem_flatMap.mpr ⟨stats, member, inside⟩

theorem pkts_nonneg :
    0 ≤ stats.pkts := by
  rw [(shares.valid stats member).pkts_eq]
  exact load_nonneg fun bucket inside => counter_nonneg nonneg shares member inside

theorem pkts_le_load :
    stats.pkts ≤ load all := by
  rw [← shares.sum_pkts]
  apply List.single_le_sum
  · intro pkts isPkts
    obtain ⟨other, otherMember, rfl⟩ := List.mem_map.mp isPkts
    exact pkts_nonneg nonneg shares otherMember
  · exact List.mem_map_of_mem member

theorem average_pos
    (above : load all / count < stats.pkts) :
    0 < load all / (count : ℚ) := by
  have positive : 0 < count := by
    rw [← shares.length_eq]
    exact List.length_pos_of_mem member
  have countPositive : (0 : ℚ) < count := Nat.cast_pos.mpr positive
  have le := pkts_le_load nonneg shares member
  have total : 0 ≤ load all := load_nonneg nonneg
  rcases total.eq_or_lt with zero | pos
  · rw [← zero, zero_div] at above
    linarith
  · exact div_pos pos countPositive

end

end Shares

/-! ## Distributions -/

/-- The counters of the buckets of a core. -/
def CoreStats.counters (stats : CoreStats) : Multiset ℚ :=
  stats.buckets.map Bucket.counter

/-- How the counters are distributed over the cores. -/
def bins (cores : List CoreStats) : Multiset (Multiset ℚ) :=
  cores.map CoreStats.counters

theorem bins_cons
    (stats : CoreStats)
    (cores : List CoreStats) :
    bins (stats :: cores) = stats.counters ::ₘ bins cores :=
  rfl

theorem bins_perm
    {first second : List CoreStats}
    (perm : first.Perm second) :
    bins first = bins second :=
  Multiset.coe_eq_coe.mpr (perm.map CoreStats.counters)

theorem counters_perm
    {first second : CoreStats}
    (perm : first.buckets.Perm second.buckets) :
    first.counters = second.counters :=
  Multiset.coe_eq_coe.mpr (perm.map Bucket.counter)

theorem counters_add
    (stats : CoreStats)
    (bucket : Bucket) :
    (stats.add bucket).counters = bucket.counter ::ₘ stats.counters :=
  Multiset.coe_eq_coe.mpr
    ((List.perm_append_singleton bucket stats.buckets).map Bucket.counter)

theorem counters_remove
    {stats : CoreStats}
    (split : stats.buckets.Perm (bucket :: kept)) :
    stats.counters = bucket.counter ::ₘ (stats.remove bucket kept).counters :=
  Multiset.coe_eq_coe.mpr (split.map Bucket.counter)

theorem CoreStats.Valid.sum_counters
    {stats : CoreStats}
    (valid : stats.Valid) :
    stats.counters.sum = stats.pkts := by
  rw [valid.pkts_eq, counters, Multiset.sum_coe, load]

namespace Shares

variable {all : List Bucket} {count : ℕ} {cores : List CoreStats}

theorem within_iff (shares : Shares all count cores) :
    Bins.Within bound (bins cores) ↔ ∀ stats ∈ cores, stats.pkts ≤ bound := by
  constructor
  · intro within stats member
    rw [← (shares.valid stats member).sum_counters]
    exact within _ (List.mem_map_of_mem member)
  · intro within bin member
    obtain ⟨stats, isStats, rfl⟩ := List.mem_map.mp (Multiset.mem_coe.mp member)
    rw [(shares.valid stats isStats).sum_counters]
    exact within stats isStats

theorem sum_bins (shares : Shares all count cores) :
    (bins cores).sum = (all.map Bucket.counter : List ℚ) := by
  have together : (bins cores).sum =
      ((cores.flatMap CoreStats.buckets).map Bucket.counter : List ℚ) := by
    clear shares
    induction cores with
    | nil => rfl
    | cons stats cores ih =>
        rw [bins_cons, Multiset.sum_cons, ih, List.flatMap_cons,
          List.map_append, ← Multiset.coe_add]
        rfl
  rw [together]
  exact Multiset.coe_eq_coe.mpr (shares.perm.map Bucket.counter)

end Shares

end Lut
end Vigor
