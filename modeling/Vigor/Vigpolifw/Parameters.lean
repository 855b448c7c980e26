import Vigor.Library.RefusedOffers
import Vigor.Vigpolifw.Stages

/-!
# Parameters of 16 bits

The policer of the second stage works with the burst and the rate modulo `2 ^
16`. It takes the decisions of the stand-alone policer exactly if the parameters
fit.  Two packets to one destination tell the difference otherwise.
-/

namespace Vigor
namespace Vigpolifw

open Vigpol (secondsMultiplier)
open TokenBucket

/-- The policer does the same with 16-bit parameters.  Besides small parameters
there is a case in which the rate is lost: both policers forget every bucket at
the next nanosecond, and none fills a bucket up at once. -/
def RateFits (config : Config) : Prop :=
  config.burst < 2 ^ 16 ∧
    (config.rate < 2 ^ 16 ∨
      (config.burst < config.rate % 2 ^ 16 ∧
        config.rate ≤ config.burst * secondsMultiplier))

section Parameters

variable {config : Config}

/-! ## Parameters that fit -/

/-- The level of a bucket that was used at the same time, if it is not filled
up. -/
theorem refill_of_no_gap
    (lively : 0 < Vigpol.fullTime burst rate)
    (value : Vigpol.DynamicValue) :
    Vigpol.refill burst rate value.bucketTime value =
      min burst (value.bucketSize % 2 ^ 64) := by
  unfold Vigpol.refill
  rw [sub_self, Int.toNat_zero]
  dsimp only
  rw [if_pos lively, Nat.zero_mul, Nat.zero_mod, Nat.zero_div, Nat.add_zero]
  generalize value.bucketSize % 2 ^ 64 = level
  split_ifs <;> omega

theorem fullTime_of_small
    {burst : ℕ}
    (small : burst < 2 ^ 16)
    (rate : ℕ) :
    Vigpol.fullTime burst rate = burst * secondsMultiplier / rate := by
  have noOverflow : burst * secondsMultiplier % 2 ^ 64 =
      burst * secondsMultiplier := by
    refine Nat.mod_eq_of_lt ?_
    rw [secondsMultiplier]
    omega
  rw [Vigpol.fullTime, noOverflow]

theorem fullTime_pos
    (small : burst < 2 ^ 16)
    (positive : 0 < rate)
    (le : rate ≤ burst * secondsMultiplier) :
    0 < Vigpol.fullTime burst rate := by
  rw [fullTime_of_small small]
  exact Nat.div_pos le positive

theorem expTime_of_lt
    {burst rate : ℕ}
    (less : burst < rate) :
    Vigpol.expTime burst rate = 0 := by
  unfold Vigpol.expTime
  rw [← Int.natCast_ediv, Nat.div_eq_of_lt less, Nat.cast_zero, mul_zero, Int.zero_bmod]

theorem minTime_of_lt
    {burst rate : ℕ}
    (less : burst < rate)
    (time : ℤ) :
    Vigpol.minTime burst rate time = time := by
  rw [Vigpol.minTime_of_nonneg (expTime_of_lt less).ge, expTime_of_lt less, sub_zero]

theorem checkLedger_of_fast
    (lively : 0 < Vigpol.fullTime burst rate)
    (otherLively : 0 < Vigpol.fullTime burst other)
    (fresh : ∀ entry ∈ buckets.entries, entry.data.bucketTime = now)
    (capacity dst size : ℕ) :
    Vigpol.checkLedger burst rate capacity dst size now buckets =
      Vigpol.checkLedger burst other capacity dst size now buckets := by
  rw [Vigpol.checkLedger, Vigpol.checkLedger]
  cases found : buckets.find dst with
  | none => rfl
  | some entry =>
      have same : Vigpol.refill burst rate now entry.data =
          Vigpol.refill burst other now entry.data := by
        rw [← fresh entry (Ledger.find_eq_some_iff.mp found).1,
          refill_of_no_gap lively, refill_of_no_gap otherLively]
      dsimp only
      rw [same]

theorem ledgerStep_of_fits
    (fits : RateFits config)
    (divides : config.rate % 2 ^ 16 ≠ 0)
    (timed : Vigpol.Timed reception.now buckets) :
    Vigpol.ledgerStep config.truncated reception buckets =
      Vigpol.ledgerStep config.policer reception buckets := by
  obtain ⟨small, narrow | ⟨fast, lively⟩⟩ := fits
  · have same : config.truncated = config.policer := by
      rw [Config.truncated, Config.policer, Nat.mod_eq_of_lt small, Nat.mod_eq_of_lt narrow]
    rw [same]
  · have less := Nat.mod_le config.rate (2 ^ 16)
    have sameBurst : config.truncated.burst = config.policer.burst := Nat.mod_eq_of_lt small
    have isNow : Vigpol.minTime config.policer.burst config.truncated.rate
        reception.now = reception.now := minTime_of_lt fast _
    have isNow' : Vigpol.minTime config.policer.burst config.policer.rate
        reception.now = reception.now := minTime_of_lt (fast.trans_le less) _
    have fresh : ∀ entry ∈ (buckets.expire reception.now).entries,
        entry.data.bucketTime = reception.now := by
      intro entry member
      rw [Ledger.entries_expire, List.mem_filter, decide_eq_true_iff] at member
      rw [timed.timed entry member.1]
      exact le_antisymm (timed.notAfter entry member.1) member.2
    have check := checkLedger_of_fast
      (fullTime_pos small (Nat.pos_of_ne_zero divides) (less.trans lively))
      (fullTime_pos small (Nat.zero_lt_of_lt (fast.trans_le less)) lively) fresh
      config.dynCapacity reception.frame.dstAddr
      reception.frame.packetLength.toNat
    rw [Vigpol.ledgerStep, Vigpol.ledgerStep, sameBurst, isNow, isNow']
    dsimp only [Config.truncated, Config.policer]
    rw [check]
    rfl

theorem policerDevices_of_fits
    (fits : RateFits config)
    (divides : config.rate % 2 ^ 16 ≠ 0)
    (ordered : receptions.Pairwise fun earlier later =>
      earlier.now ≤ later.now) :
    policerDevices config receptions .empty =
      (Transcript.run (Vigpol.ledgerStep config.policer) receptions
        .empty).1 := by
  have permitted : Transcript.Permitted (fun _ _ => True)
      (Vigpol.ledgerStep config.truncated) receptions .empty :=
    Transcript.permitted_of_forall (fun _ _ _ => trivial) _
  refine (Transcript.timed_run_refines Reception.now
    (fun now buckets buckets' => buckets = buckets' ∧ Vigpol.Timed now buckets)
    ?_ ?_ ordered (fun reception _ => ⟨rfl, .initial reception.now⟩)
    permitted).1
  · rintro now later buckets _ le ⟨rfl, timed⟩
    exact ⟨rfl, timed.mono le⟩
  · rintro reception buckets _ ⟨rfl, timed⟩ _
    rw [ledgerStep_of_fits fits divides timed]
    exact ⟨rfl, rfl, timed.ledgerStep config.policer⟩

/-! ## Parameters that do not fit -/

theorem accept_new
    (limits : Limits)
    (fits : size ≤ limits.burst)
    (now : ℤ) :
    accept limits ⟨size, now, true⟩ none =
      (true, some ⟨limits.burst - size, now⟩) := by
  rw [accept_of_forgotten rfl, if_pos ⟨fits, rfl⟩]

theorem refuses_of_empty
    (limits : Limits)
    {gap : ℕ}
    (young : gap ≤ limits.lifetime)
    (short : gap < limits.fullAfter)
    (noTokens : gap * limits.rate < limits.unit) :
    (accept limits ⟨0, gap, true⟩ (some ⟨0, 0⟩)).1 = false := by
  have isFound : remembered limits gap (some ⟨0, 0⟩) = some ⟨0, 0⟩ :=
    remembered_eq_some_iff.mpr ⟨rfl, by simpa using young⟩
  have tokens : gap * limits.rate % limits.wrap / limits.unit = 0 :=
    Nat.div_eq_of_lt ((Nat.mod_le _ _).trans_lt noTokens)
  have empty : levelAt limits gap ⟨0, 0⟩ = 0 := by
    rw [levelAt, refilled]
    simp [short, tokens]
  rw [accept_of_remembered isFound, empty, if_neg (Nat.lt_irrefl 0)]

theorem accepts_of_forgotten
    (limits : Limits)
    {gap : ℕ}
    (old : limits.lifetime < gap)
    (level : ℕ) :
    (accept limits ⟨0, gap, true⟩ (some ⟨level, 0⟩)).1 = true := by
  have isNone : remembered limits gap (some ⟨level, 0⟩) = none := by
    refine remembered_eq_none_iff.mpr fun found member => ?_
    obtain rfl := Option.mem_some_iff.mp member
    simpa using old
  rw [accept_of_forgotten isNone, if_pos ⟨Nat.zero_le _, rfl⟩]

theorem accepts_of_tokens
    (limits : Limits)
    (positive : 0 < levelAt limits 0 ⟨level, 0⟩) :
    (accept limits ⟨0, (0 : ℕ), true⟩ (some ⟨level, 0⟩)).1 = true := by
  by_cases lasting : 0 ≤ limits.lifetime
  · rw [accept_of_remembered (remembered_used lasting level 0)]
    exact congrArg Prod.fst (if_pos positive)
  · exact accepts_of_forgotten limits (not_le.mp lasting) level

theorem decisions_pair
    (limits : Limits)
    (fits : size ≤ limits.burst)
    (gap : ℕ) :
    decisions limits [⟨size, 0, true⟩, ⟨0, gap, true⟩] none =
      [true, (accept limits ⟨0, gap, true⟩
        (some ⟨limits.burst - size, 0⟩)).1] := by
  rw [decisions_cons, accept_new limits fits, decisions_cons]
  rfl

theorem expTime_of_small
    {burst : ℕ}
    (small : burst < 2 ^ 16)
    (rate : ℕ) :
    Vigpol.expTime burst rate = (secondsMultiplier * (burst / rate) : ℕ) := by
  have less : burst / rate ≤ burst := Nat.div_le_self _ _
  unfold Vigpol.expTime
  rw [← Int.natCast_ediv, ← Int.natCast_mul]
  generalize burst / rate = seconds at less ⊢
  rw [secondsMultiplier]
  exact Int.bmod_eq_of_le_mul_two (by omega) (by omega)

theorem truncated_fullAfter_pos
    (burstPositive : 0 < config.burst % 2 ^ 16)
    (divides : config.rate % 2 ^ 16 ≠ 0) :
    0 < config.truncated.limits.fullAfter := by
  have rateSmall := Nat.mod_lt config.rate (show 2 ^ 16 > 0 by decide)
  have le : config.rate % 2 ^ 16 ≤ config.burst % 2 ^ 16 * secondsMultiplier := by
    rw [secondsMultiplier]
    omega
  exact fullTime_pos (Nat.mod_lt _ (by decide)) (Nat.pos_of_ne_zero divides) le

theorem truncated_expTime :
    Vigpol.expTime config.truncated.burst config.truncated.rate =
      (secondsMultiplier *
        (config.burst % 2 ^ 16 / (config.rate % 2 ^ 16)) : ℕ) :=
  expTime_of_small (Nat.mod_lt _ (by decide)) _

theorem truncated_lasting :
    0 ≤ Vigpol.expTime config.truncated.burst config.truncated.rate :=
  truncated_expTime.symm ▸ Int.natCast_nonneg _

theorem truncated_lifetime :
    config.truncated.limits.lifetime =
      Vigpol.expTime config.truncated.burst config.truncated.rate := by
  rw [Vigpol.Config.limits, Vigpol.limits_lifetime]

/-- The two policers take the same decisions about a single destination, while
the limit of expiry of the stand-alone policer goes with the clock. -/
def SameDecisions (config : Config) : Prop :=
  ∀ (lifetime : ℤ) (offers : List Offer),
    (offers.Pairwise fun earlier later => earlier.now ≤ later.now) →
    (∀ offer ∈ offers, offer.size ≤ 2 ^ 16 - 1 ∧ offer.room = true) →
    (∀ offer ∈ offers,
      Vigpol.minTime config.policer.burst config.policer.rate offer.now =
        offer.now - lifetime) →
      decisions config.truncated.limits offers none =
        decisions (config.policer.limitsFor lifetime) offers none

namespace SameDecisions

section

variable (same : SameDecisions config)

include same

/-- An offer of nothing after one that makes a bucket. -/
theorem pair
    (small : size ≤ 2 ^ 16 - 1)
    (fits : size ≤ config.burst % 2 ^ 16)
    (gap : ℕ)
    (steady : ∀ now : ℤ, now = 0 ∨ now = gap →
      Vigpol.minTime config.policer.burst config.policer.rate now =
        now - lifetime) :
    (accept config.truncated.limits ⟨0, gap, true⟩
        (some ⟨config.burst % 2 ^ 16 - size, 0⟩)).1 =
      (accept (config.policer.limitsFor lifetime) ⟨0, gap, true⟩
        (some ⟨config.burst - size, 0⟩)).1 := by
  have both := same lifetime [⟨size, 0, true⟩, ⟨0, gap, true⟩] (by simp)
    (by simpa using small) (by simpa using steady)
  have first := decisions_pair config.truncated.limits fits gap
  have second := decisions_pair (config.policer.limitsFor lifetime)
    (fits.trans (Nat.mod_le _ _)) gap
  rw [first, second] at both
  exact (List.cons.inj (List.cons.inj both).2).1

theorem pair_at_once
    (small : size ≤ 2 ^ 16 - 1)
    (fits : size ≤ config.burst % 2 ^ 16) :
    ∃ lifetime,
      (accept config.truncated.limits ⟨0, (0 : ℕ), true⟩
          (some ⟨config.burst % 2 ^ 16 - size, 0⟩)).1 =
        (accept (config.policer.limitsFor lifetime) ⟨0, (0 : ℕ), true⟩
          (some ⟨config.burst - size, 0⟩)).1 := by
  refine ⟨-Vigpol.minTime config.policer.burst config.policer.rate 0,
    same.pair small fits 0 ?_⟩
  rintro now (rfl | rfl)
  · simp
  · simp

theorem burst_lt
    (bounded : config.burst < 2 ^ 64)
    (divides : config.rate % 2 ^ 16 ≠ 0) :
    config.burst < 2 ^ 16 := by
  by_contra large
  have truncated := Nat.mod_lt config.burst (show 2 ^ 16 > 0 by decide)
  have fits : 2 ^ 16 - 1 ≤ config.burst % 2 ^ 16 := by
    by_contra tooLarge
    have first := same (-Vigpol.minTime config.policer.burst config.policer.rate 0)
      [⟨2 ^ 16 - 1, 0, true⟩] (by simp) (by simp) (by simp)
    have passes := accept_new (config.policer.limitsFor
      (-Vigpol.minTime config.policer.burst config.policer.rate 0))
      (show 2 ^ 16 - 1 ≤ config.burst by omega) 0
    rw [decisions_cons, decisions_cons, passes, accept_of_forgotten rfl,
      if_neg fun both => tooLarge both.1] at first
    cases (List.cons.inj first).1
  obtain ⟨lifetime, second⟩ := same.pair_at_once le_rfl fits
  have isMax : config.burst % 2 ^ 16 - (2 ^ 16 - 1) = 0 := by omega
  have refuses := refuses_of_empty config.truncated.limits
    (truncated_lifetime ▸ truncated_lasting)
    (truncated_fullAfter_pos (by omega) divides) (by simp [Vigpol.Config.limits, secondsMultiplier])
  have noWrap : (config.policer.limitsFor lifetime).burst <
      (config.policer.limitsFor lifetime).wrap := bounded
  have tokens : config.burst - (2 ^ 16 - 1) ≤
      levelAt (config.policer.limitsFor lifetime) 0 ⟨config.burst - (2 ^ 16 - 1), 0⟩ :=
    le_levelAt_used noWrap (Nat.sub_le _ _) 0
  have accepts := accepts_of_tokens (config.policer.limitsFor lifetime)
    ((show 0 < config.burst - (2 ^ 16 - 1) by omega).trans_le tokens)
  rw [isMax, refuses, accepts] at second
  cases second

theorem burst_lt_rate
    (small : config.burst < 2 ^ 16)
    (wide : ¬config.rate < 2 ^ 16)
    (divides : config.rate % 2 ^ 16 ≠ 0) :
    config.burst < config.rate % 2 ^ 16 := by
  by_contra slow
  have sameBurst : config.burst % 2 ^ 16 = config.burst := Nat.mod_eq_of_lt small
  have rateSmall := Nat.mod_lt config.rate (show 2 ^ 16 > 0 by decide)
  have seconds : 1 ≤ config.burst / (config.rate % 2 ^ 16) := Nat.div_pos (by omega) (by omega)
  have steady : ∀ now : ℤ, now = 0 ∨ now = (1 : ℕ) →
      Vigpol.minTime config.policer.burst config.policer.rate now = now - 0 := by
    intro now _
    rw [sub_zero]
    exact minTime_of_lt (small.trans_le (Nat.le_of_not_lt wide)) now
  have second := same.pair (by omega) sameBurst.ge 1 steady
  have young : ((1 : ℕ) : ℤ) ≤ config.truncated.limits.lifetime := by
    rw [truncated_lifetime, truncated_expTime, sameBurst]
    exact_mod_cast Nat.mul_pos (show 0 < secondsMultiplier by decide) seconds
  have short : 1 < config.truncated.limits.fullAfter := by
    have full := fullTime_of_small (Nat.mod_lt config.burst (by decide)) (config.rate % 2 ^ 16)
    refine lt_of_lt_of_eq ?_ full.symm
    rw [sameBurst, secondsMultiplier]
    exact (Nat.le_div_iff_mul_le (by omega)).mpr (by omega)
  have noTokens : 1 * config.truncated.limits.rate <
      config.truncated.limits.unit := by
    rw [Vigpol.Config.limits, Vigpol.limits_rate, Vigpol.limits_unit, secondsMultiplier]
    simp only [Config.truncated]
    omega
  have refuses := refuses_of_empty config.truncated.limits young short noTokens
  have accepts := accepts_of_forgotten (config.policer.limitsFor 0) Int.one_pos
    (config.burst - config.burst)
  rw [sameBurst, Nat.sub_self, refuses] at second
  rw [Nat.sub_self] at accepts
  cases second.trans accepts

theorem rate_le
    (positive : 0 < config.burst)
    (small : config.burst < 2 ^ 16)
    (fast : config.burst < config.rate % 2 ^ 16) :
    config.rate ≤ config.burst * secondsMultiplier := by
  by_contra filled
  have sameBurst : config.burst % 2 ^ 16 = config.burst := Nat.mod_eq_of_lt small
  obtain ⟨lifetime, second⟩ := same.pair_at_once (by omega) sameBurst.ge
  have refuses := refuses_of_empty config.truncated.limits
    (truncated_lifetime ▸ truncated_lasting)
    (truncated_fullAfter_pos (by omega) (by omega))
    (by simp [Vigpol.Config.limits, secondsMultiplier])
  have atOnce : (config.policer.limitsFor lifetime).fullAfter = 0 :=
    (fullTime_of_small small config.rate).trans (Nat.div_eq_of_lt (Nat.lt_of_not_le filled))
  have full : levelAt (config.policer.limitsFor lifetime) 0 ⟨0, 0⟩ = config.burst := by
    rw [levelAt, refilled, atOnce, if_neg (Nat.not_lt_zero _)]
    rfl
  have accepts := accepts_of_tokens (config.policer.limitsFor lifetime)
    (full.symm ▸ positive)
  rw [sameBurst, Nat.sub_self, refuses] at second
  cases second.trans accepts

theorem rateFits
    (positive : 0 < config.burst)
    (bounded : config.burst < 2 ^ 64)
    (divides : config.rate % 2 ^ 16 ≠ 0) :
    RateFits config := by
  have small := same.burst_lt bounded divides
  refine ⟨small, or_iff_not_imp_left.mpr fun wide => ?_⟩
  have fast := same.burst_lt_rate small wide divides
  exact ⟨fast, same.rate_le positive small fast⟩

end

end SameDecisions

end Parameters

end Vigpolifw
end Vigor
