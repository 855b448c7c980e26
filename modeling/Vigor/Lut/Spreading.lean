import Vigor.Lut.Balancing

/-!
# One bucket for each underloaded core

Between the two rounds of balancing every overloaded core gives away its buckets
from the last one on, all but the first, and each underloaded core takes one of
them, whatever its total.  This part may lift a core above all the others.
-/

namespace Vigor
namespace Lut

/-- The buckets that a core gives away, in this order. -/
def CoreStats.leaving (stats : CoreStats) : List Bucket :=
  stats.buckets.tail.reverse

/-- Cores that take one bucket each stay within the bound. -/
def TakersFit
    (bound : ℚ)
    (takers : List CoreStats)
    (leaving : List Bucket) : Prop :=
  ∀ pair ∈ takers.zip leaving, pair.1.pkts + pair.2.counter ≤ bound

instance (bound : ℚ) (takers : List CoreStats) (leaving : List Bucket) :
    Decidable (TakersFit bound takers leaving) :=
  inferInstanceAs (Decidable (∀ pair ∈ takers.zip leaving, _))

theorem takersFit_nil
    {bound : ℚ}
    {leaving : List Bucket} :
    TakersFit bound [] leaving := by
  intro pair member
  rw [List.zip_nil_left] at member
  cases member

theorem takersFit_cons_iff :
    TakersFit bound (taker :: takers) (bucket :: leaving) ↔
      taker.pkts + bucket.counter ≤ bound ∧ TakersFit bound takers leaving := by
  unfold TakersFit
  rw [List.zip_cons_cons, List.forall_mem_cons]

/-- A core with another bucket gives away its last one first. -/
theorem leaving_eq_cons
    {stats : CoreStats}
    (last : stats.buckets.getLast? = some bucket)
    (more : stats.buckets.length ≠ 1) :
    stats.leaving =
      bucket :: (stats.remove bucket stats.buckets.dropLast).leaving := by
  obtain ⟨before, isBuckets⟩ := List.getLast?_eq_some_iff.mp last
  unfold CoreStats.leaving CoreStats.remove
  rw [isBuckets, List.dropLast_concat]
  cases before with
  | nil =>
      rw [isBuckets] at more
      exact absurd rfl more
  | cons first before => rw [List.cons_append, List.tail_cons, List.tail_cons, List.reverse_concat]

theorem within_of_perm
    {first second : List CoreStats}
    (perm : (first.map CoreStats.pkts).Perm (second.map CoreStats.pkts))
    (within : ∀ stats ∈ second, stats.pkts ≤ bound) :
    ∀ stats ∈ first, stats.pkts ≤ bound := by
  intro stats member
  obtain ⟨other, isOther, same⟩ :=
    List.mem_map.mp (perm.mem_iff.mp (List.mem_map_of_mem member))
  rw [← same]
  exact within other isOther

section Spread

variable
  {all : List Bucket}
  {count : ℕ}
  (nonneg : ∀ bucket ∈ all, 0 ≤ bucket.counter)

include nonneg

theorem spreadCore_ok
    (shares : Shares all count (stats :: (given ++ waiting ++ others))) :
    ∃ after givenAfter waitingAfter,
      spreadCore stats given waiting = .ok (after, givenAfter, waitingAfter) ∧
      Shares all count (after :: (givenAfter ++ waitingAfter ++ others)) ∧
      after.pkts ≤ stats.pkts ∧ waitingAfter <:+ waiting ∧
      ∀ bound later,
        (∀ core ∈ givenAfter, core.pkts ≤ bound) ∧
            TakersFit bound waitingAfter later ↔
          (∀ core ∈ given, core.pkts ≤ bound) ∧
            TakersFit bound waiting (stats.leaving ++ later) := by
  induction waiting generalizing stats given with
  | nil =>
      refine ⟨stats, given, [], rfl, shares, le_refl _, List.suffix_refl _, fun bound later => ?_⟩
      simp only [takersFit_nil]
  | cons taker waiting ih =>
      rw [spreadCore]
      split_ifs with single
      · -- A core keeps its only bucket, and no underloaded core is used up.
        refine ⟨stats, given, _, rfl, shares, le_refl _, List.suffix_refl _, fun bound later => ?_⟩
        obtain ⟨only, isOnly⟩ := List.length_eq_one_iff.mp single
        rw [CoreStats.leaving, isOnly]
        rfl
      · -- The first core that waits takes the last bucket.
        have nonempty := (shares.valid stats List.mem_cons_self).nonempty
        obtain ⟨bucket, last⟩ : ∃ bucket, stats.buckets.getLast? = some bucket :=
          ⟨_, List.getLast?_eq_some_getLast nonempty⟩
        obtain ⟨before, isBuckets⟩ := List.getLast?_eq_some_iff.mp last
        have split : stats.buckets.Perm (bucket :: stats.buckets.dropLast) := by
          rw [isBuckets, List.dropLast_concat]
          exact List.perm_append_singleton bucket before
        have keeps : stats.buckets.dropLast ≠ [] := by
          rw [isBuckets] at single ⊢
          rw [List.dropLast_concat]
          rintro rfl
          exact single rfl
        have bring : (stats :: (given ++ taker :: waiting ++ others)).Perm
            (taker :: stats :: (given ++ waiting ++ others)) := by
          apply List.perm_iff_count.mpr
          intro core
          simp only [List.count_append, List.count_cons]
          omega
        have moved : Shares all count (stats.remove bucket stats.buckets.dropLast ::
            (given ++ [taker.add bucket] ++ waiting ++ others)) := by
          refine ((shares.of_perm bring.symm).move split keeps).of_perm ?_
          apply List.perm_iff_count.mpr
          intro core
          simp only [List.count_append, List.count_cons, List.count_nil]
          omega
        have less : (stats.remove bucket stats.buckets.dropLast).pkts ≤ stats.pkts := by
          apply sub_le_self
          exact shares.counter_nonneg nonneg List.mem_cons_self
            (split.mem_iff.mpr List.mem_cons_self)
        obtain ⟨after, givenAfter, waitingAfter, spreads, sharesAfter,
          lessAfter, suffix, fit_iff⟩ := ih moved
        rw [last]
        refine ⟨after, givenAfter, waitingAfter, spreads, sharesAfter, lessAfter.trans less,
          suffix.trans (List.suffix_cons _ _), fun bound later => ?_⟩
        rw [fit_iff, leaving_eq_cons last single, List.cons_append, takersFit_cons_iff,
          List.forall_mem_append, List.forall_mem_singleton, and_assoc]
        rfl

theorem spread_ok
    (shares : Shares all count (given ++ waiting ++ (overloaded ++ others))) :
    ∃ overloadedAfter underloaded,
      spread given waiting overloaded = .ok (overloadedAfter, underloaded) ∧
      Shares all count (underloaded ++ (overloadedAfter ++ others)) ∧
      ∀ bound, (∀ core ∈ waiting, core.pkts ≤ bound) →
        (∀ core ∈ overloaded, core.pkts ≤ bound) →
          (∀ core ∈ overloadedAfter, core.pkts ≤ bound) ∧
          ((∀ core ∈ underloaded, core.pkts ≤ bound) ↔
            (∀ core ∈ given, core.pkts ≤ bound) ∧
              TakersFit bound waiting
                (overloaded.flatMap CoreStats.leaving)) := by
  induction overloaded generalizing given waiting others with
  | nil =>
      refine ⟨[], given ++ waiting, rfl, shares, fun bound within _ => ⟨?_, ?_⟩⟩
      · intro core member
        cases member
      · have fits : TakersFit bound waiting [] := by
          intro pair member
          rw [List.zip_nil_right] at member
          cases member
        rw [List.forall_mem_append]
        exact ⟨fun all => ⟨all.1, fits⟩, fun all => ⟨all.1, within⟩⟩
  | cons stats overloaded ih =>
      have first : Shares all count
          (stats :: (given ++ waiting ++ (overloaded ++ others))) :=
        shares.of_perm List.perm_middle.symm
      obtain ⟨after, givenAfter, waitingAfter, spreads, sharesAfter, less, suffix, fit_iff⟩ :=
        spreadCore_ok nonneg first
      have rest : Shares all count
          (givenAfter ++ waitingAfter ++ (overloaded ++ after :: others)) := by
        refine sharesAfter.of_perm ?_
        rw [← List.append_assoc, ← List.append_assoc]
        exact List.perm_middle
      obtain ⟨overloadedAfter, underloaded, spreadsRest, sharesRest, bounded⟩ :=
        ih rest
      refine ⟨after :: overloadedAfter, underloaded, ?_, ?_, fun bound within overWithin => ?_⟩
      · rw [spread, spreads]
        change (spread givenAfter waitingAfter overloaded >>= _) = _
        rw [spreadsRest]
        rfl
      · refine sharesRest.of_perm ?_
        apply List.Perm.append_left
        exact List.perm_middle.symm
      · obtain ⟨overFirst, overRest⟩ := List.forall_mem_cons.mp overWithin
        obtain ⟨overAfter, under_iff⟩ := bounded bound
          (fun core member => within core (suffix.mem member)) overRest
        refine ⟨List.forall_mem_cons.mpr ⟨less.trans overFirst, overAfter⟩, ?_⟩
        rw [under_iff, fit_iff, List.flatMap_cons]

theorem spreadGroups_ok
    (positive : 0 < count)
    (grouped : Grouped all count start groups)
    (within : Bins.Within bound start) :
    ∃ after, spreadGroups groups = .ok after ∧
      Grouped all count (bins (after.underloaded ++ after.overloaded)) after ∧
      ((∀ stats ∈ after.underloaded ++ after.overloaded, stats.pkts ≤ bound) ↔
        TakersFit bound groups.underloaded
          (groups.overloaded.flatMap CoreStats.leaving)) := by
  have shares : Shares all count ([] ++ groups.underloaded ++ (groups.overloaded ++ [])) := by
    rw [List.nil_append, List.append_nil]
    exact grouped.parted.shares
  obtain ⟨overloaded, underloaded, spreads, shares, bounded⟩ := spread_ok nonneg shares
  rw [List.append_nil] at shares
  obtain ⟨after, regroups, groupedAfter, _, permPkts, sameBins, _⟩ :=
    regroup_ok shares positive .refl
  refine ⟨after, ?_, sameBins ▸ groupedAfter, ?_⟩
  · unfold spreadGroups
    rw [spreads]
    exact regroups
  · have before := grouped.parted.within nonneg within
    obtain ⟨overAfter, under_iff⟩ := bounded bound
      (fun core member => before core (List.mem_append_left _ member))
      (fun core member => before core (List.mem_append_right _ member))
    calc (∀ stats ∈ after.underloaded ++ after.overloaded, stats.pkts ≤ bound)
        ↔ ∀ stats ∈ underloaded ++ overloaded, stats.pkts ≤ bound :=
          ⟨within_of_perm permPkts.symm, within_of_perm permPkts⟩
      _ ↔ ∀ stats ∈ underloaded, stats.pkts ≤ bound := by
          rw [List.forall_mem_append]
          exact and_iff_left overAfter
      _ ↔ TakersFit bound groups.underloaded
            (groups.overloaded.flatMap CoreStats.leaving) := by
          rw [under_iff]
          exact and_iff_right (by simp)

end Spread

end Lut
end Vigor
