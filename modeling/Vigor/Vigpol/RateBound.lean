import Vigor.Vigpol.Buckets

/-!
# The rate bound of the policer

In an interval of time the policer should let no more bytes pass to a
destination than the burst and what the rate allows for the interval.  Two
roundings in the code go the other way.  A bucket counts as full after `burst *
10^9 / rate` nanoseconds, rounded down, and it expires after `burst / rate`
whole seconds.  The bound holds in every run exactly when neither is shorter
than the tokens demand.
-/

namespace Vigor
namespace Vigpol

open DoubleChain TokenBucket

/-! ## The property -/

/-- The packet was received from the WAN device for the destination, in the
interval, and was forwarded. -/
def Forwarded
    (config : Config)
    (dst : ℕ)
    (start stop : ℤ)
    (reception : Reception)
    (dstDevice : ℕ) : Prop :=
  reception.frame.isIpv4 = true ∧ reception.device = config.wanDevice ∧
    reception.frame.dstAddr = dst ∧ dstDevice ≠ reception.device ∧
    start ≤ reception.now ∧ reception.now ≤ stop

instance
    (config : Config)
    (dst : ℕ)
    (start stop : ℤ)
    (reception : Reception)
    (dstDevice : ℕ) :
    Decidable (Forwarded config dst start stop reception dstDevice) :=
  inferInstanceAs (Decidable (_ ∧ _ ∧ _ ∧ _ ∧ _ ∧ _))

/-- Total size of the forwarded packets. -/
def forwardedBytes
    (config : Config)
    (dst : ℕ)
    (start stop : ℤ)
    (outcomes : List (Reception × ℕ)) : ℕ :=
  ((outcomes.filter fun outcome =>
    Forwarded config dst start stop outcome.1 outcome.2).map
      fun outcome => outcome.1.frame.packetLength.toNat).sum

/-- In every interval the forwarded bytes are within the burst and the rate.
Both sides are multiplied by the number of nanoseconds in a second. -/
def RateBounded
    (config : Config)
    (outcomes : List (Reception × ℕ)) : Prop :=
  ∀ dst start stop, start ≤ stop →
    (forwardedBytes config dst start stop outcomes : ℤ) * secondsMultiplier ≤
      config.burst * secondsMultiplier + config.rate * (stop - start)

/-- The condition on the configuration: no WAN packet is policed, or the gap
after which a bucket counts as full and the gap after which it expires are long
enough for the tokens.  No packet is larger than `2 ^ 16 - 1` bytes. -/
def RateSafe (config : Config) : Prop :=
  config.lanDevice = config.wanDevice ∨ config.limits.Safe (2 ^ 16 - 1)

theorem forwardedBytes_cons
    (config : Config)
    (dst : ℕ)
    (start stop : ℤ)
    (reception : Reception)
    (dstDevice : ℕ)
    (outcomes : List (Reception × ℕ)) :
    forwardedBytes config dst start stop ((reception, dstDevice) :: outcomes) =
      (if Forwarded config dst start stop reception dstDevice then
        reception.frame.packetLength.toNat else 0) +
        forwardedBytes config dst start stop outcomes := by
  rw [forwardedBytes, List.filter_cons]
  by_cases forwarded : Forwarded config dst start stop reception dstDevice
  · simp [forwarded, forwardedBytes]
  · simp [forwarded, forwardedBytes]

/-! ## The condition is sufficient -/

section Sufficient

variable {config : Config}

/-- The offers that a run makes to the bucket of a destination. -/
def offersTo
    (config : Config)
    (dst : ℕ) :
    List Reception → Ledger ℕ DynamicValue → List Offer
  | [], _ => []
  | reception :: receptions, ledger =>
      let rest := offersTo config dst receptions
        (ledgerStep config reception ledger).2
      if Policed config dst reception then
        offerOf reception (config.hasRoom reception ledger) :: rest
      else rest

variable {receptions : List Reception} {ledger : Ledger ℕ DynamicValue}

theorem exists_reception_of_mem_offersTo
    (member : offer ∈ offersTo config dst receptions ledger) :
    ∃ reception ∈ receptions, Policed config dst reception ∧
      ∃ room, offer = offerOf reception room := by
  induction receptions generalizing ledger with
  | nil => cases member
  | cons reception receptions ih =>
      rw [offersTo] at member
      have later : offer ∈ offersTo config dst receptions
          (ledgerStep config reception ledger).2 →
          ∃ other ∈ reception :: receptions, Policed config dst other ∧
            ∃ room, offer = offerOf other room := by
        intro inRest
        obtain ⟨other, otherMember, isOffer⟩ := ih inRest
        exact ⟨other, List.mem_cons_of_mem _ otherMember, isOffer⟩
      split_ifs at member with policed
      · rcases List.mem_cons.mp member with rfl | inRest
        · exact ⟨reception, List.mem_cons_self, policed, _, rfl⟩
        · exact later inRest
      · exact later member

theorem pairwise_offersTo
    (dst : ℕ)
    (ordered : receptions.Pairwise fun earlier later => earlier.now ≤ later.now)
    (ledger : Ledger ℕ DynamicValue) :
    (offersTo config dst receptions ledger).Pairwise fun earlier later =>
      earlier.now ≤ later.now := by
  induction receptions generalizing ledger with
  | nil => exact List.Pairwise.nil
  | cons reception receptions ih =>
      obtain ⟨first, rest⟩ := List.pairwise_cons.mp ordered
      have restOrdered := ih rest (ledgerStep config reception ledger).2
      rw [offersTo]
      split_ifs
      · refine List.pairwise_cons.mpr ⟨fun offer member => ?_, restOrdered⟩
        obtain ⟨other, otherMember, _, _, rfl⟩ :=
          exists_reception_of_mem_offersTo member
        exact first other otherMember
      · exact restOrdered

/-- A packet is forwarded when it is checked and accepted. -/
theorem forwarded_iff
    (steady : ∀ now, minTime config.burst config.rate now = now - lifetime)
    (follows : Follows lifetime reception.now ledger buckets)
    (dst : ℕ)
    (start stop : ℤ) :
    Forwarded config dst start stop reception
        (ledgerStep config reception ledger).1 ↔
      Policed config dst reception ∧
        (accept (config.limitsFor lifetime) (offerOf reception
          (config.hasRoom reception ledger)) (buckets dst)).1 = true ∧
        start ≤ reception.now ∧ reception.now ≤ stop := by
  have decision := fun policed : Policed config dst reception =>
    (follows.ledgerStep_of_policed (steady _) policed).1
  constructor
  · rintro ⟨ipv4, isWan, isDst, forwarded, inside⟩
    have notLan : reception.device ≠ config.lanDevice := by
      intro isLan
      refine forwarded ?_
      rw [ledgerStep_of_not_policed fun policed => policed.2.1 isLan]
      exact (if_pos ⟨ipv4, isLan⟩).trans isWan.symm
    refine ⟨⟨ipv4, notLan, isWan, isDst⟩, ?_, inside⟩
    by_contra refused
    rw [decision ⟨ipv4, notLan, isWan, isDst⟩, if_neg refused] at forwarded
    exact forwarded isWan.symm
  · rintro ⟨policed, accepted, inside⟩
    refine ⟨policed.1, policed.2.2.1, policed.2.2.2, ?_, inside⟩
    rw [decision policed, if_pos accepted]
    exact policed.2.1.symm

theorem forwardedBytes_eq_passed
    (steady : ∀ now, minTime config.burst config.rate now = now - lifetime)
    (ordered : receptions.Pairwise fun earlier later => earlier.now ≤ later.now)
    {buckets : ℕ → Option Bucket}
    (follows : ∀ reception ∈ receptions,
      Follows lifetime reception.now ledger buckets)
    (dst : ℕ)
    (start stop : ℤ) :
    forwardedBytes config dst start stop (receptions.zip
        (Transcript.run (ledgerStep config) receptions ledger).1) =
      passed (config.limitsFor lifetime) start stop
        (offersTo config dst receptions ledger) (buckets dst) := by
  induction receptions generalizing ledger buckets with
  | nil => rfl
  | cons reception receptions ih =>
      obtain ⟨first, rest⟩ := List.pairwise_cons.mp ordered
      have here := follows reception List.mem_cons_self
      have later := ih rest fun other member =>
        (here.ledgerStep (steady _)).mono (first other member)
      rw [Transcript.run_cons, List.zip_cons_cons, forwardedBytes_cons, later,
        offersTo, nextBuckets]
      simp only [forwarded_iff steady here]
      by_cases policed : Policed config dst reception
      · simp only [policed, true_and, if_true, passed]
        rfl
      · simp only [policed, false_and, if_false, Nat.zero_add]

theorem RateSafe.rateBounded
    (safe : RateSafe config)
    (lasting : 0 ≤ expTime config.burst config.rate)
    (ordered : receptions.Pairwise fun earlier later =>
      earlier.now ≤ later.now) :
    RateBounded config (receptions.zip
      (Transcript.run (ledgerStep config) receptions .empty).1) := by
  intro dst start stop le
  rw [forwardedBytes_eq_passed (minTime_of_nonneg lasting) ordered
    fun reception _ => Follows.initial _ reception.now]
  rcases safe with sameDevice | safe
  · have noOffer : offersTo config dst receptions .empty = [] := by
      refine List.eq_nil_iff_forall_not_mem.mpr fun offer member => ?_
      obtain ⟨_, _, policed, _⟩ := exists_reception_of_mem_offersTo member
      exact policed.different sameDevice
    have tokens : (0 : ℤ) ≤ config.rate * (stop - start) :=
      mul_nonneg (Int.natCast_nonneg _) (by omega)
    rw [noOffer, passed, Nat.cast_zero, zero_mul]
    exact add_nonneg (mul_nonneg (Int.natCast_nonneg _) (Int.natCast_nonneg _)) tokens
  · have small : ∀ offer ∈ offersTo config dst receptions .empty,
        offer.size ≤ 2 ^ 16 - 1 := by
      intro offer member
      obtain ⟨reception, _, _, _, rfl⟩ := exists_reception_of_mem_offersTo member
      exact Nat.le_pred_of_lt reception.frame.packetLength.toNat_lt
    have bound := passed_le safe le small (pairwise_offersTo dst ordered .empty)
      (Covered.initial _ start)
      (fun _ member => absurd member (Option.not_mem_none _))
    simpa only [Nat.zero_add, Config.limits, limits_unit, limits_burst, limits_rate] using bound

end Sufficient

/-! ## The condition is necessary -/

section Necessary

variable {config : Config}

/-- A packet from the WAN device to the destination. -/
def probe
    (config : Config)
    (dst size : ℕ)
    (now : ℤ) : Reception where
  now := now
  device := config.wanDevice
  frame :=
    { isIpv4 := true
      isTcpudp := true
      srcAddr := 0
      dstAddr := dst
      nextProtoId := 0
      srcPort := 0
      dstPort := 0
      packetLength := UInt16.ofNat size }

theorem policed_probe
    (different : config.lanDevice ≠ config.wanDevice)
    (dst size : ℕ)
    (now : ℤ) :
    Policed config dst (probe config dst size now) :=
  ⟨rfl, different.symm, rfl, rfl⟩

theorem offerOf_probe
    {size : ℕ}
    (small : size ≤ 2 ^ 16 - 1)
    (dst : ℕ)
    (now : ℤ)
    (room : Bool) :
    offerOf (probe config dst size now) room = ⟨size, now, room⟩ := by
  have same : (UInt16.ofNat size).toNat = size := by
    rw [UInt16.toNat_ofNat']
    omega
  rw [offerOf, probe, same]

variable {ledger : Ledger ℕ DynamicValue}

/-- A packet writes no entry but the one of its destination. -/
theorem mem_ledgerStep
    (member : entry ∈ (ledgerStep config reception ledger).2.entries) :
    entry.key = reception.frame.dstAddr ∨ entry ∈ ledger.entries := by
  by_cases policed : Policed config reception.frame.dstAddr reception
  · rw [ledgerStep_of_policed policed] at member
    rcases checkLedger_cases config.burst config.rate config.dynCapacity
      reception.frame.dstAddr reception.frame.packetLength.toNat reception.now
      (ledger.expire (minTime config.burst config.rate reception.now)) with
      ⟨_, _, same⟩ | ⟨value, _, written⟩
    · rw [same] at member
      exact .inr (List.mem_of_mem_filter member)
    · rw [written] at member
      rcases Ledger.mem_put_iff.mp member with rfl | ⟨_, old⟩
      · exact .inl rfl
      · exact .inr (List.mem_of_mem_filter old)
  · rw [ledgerStep_of_not_policed policed] at member
    dsimp only at member
    split_ifs at member
    · exact .inr member
    · exact .inr (List.mem_of_mem_filter member)

section

variable (positive : 0 < config.dynCapacity)

include positive

theorem hasRoom_of_solo
    (reception : Reception)
    (steady : minTime config.burst config.rate reception.now =
      reception.now - lifetime)
    (follows : Follows lifetime reception.now ledger buckets)
    {dst : ℕ}
    (solo : ∀ entry ∈ ledger.entries, entry.key = dst)
    (missing : remembered (config.limitsFor lifetime) reception.now
      (buckets dst) = none) :
    config.hasRoom reception ledger = true := by
  rw [follows.remembered_eq config dst, Option.map_eq_none_iff] at missing
  have none : (ledger.expire (reception.now - lifetime)).entries = [] := by
    refine List.eq_nil_iff_forall_not_mem.mpr fun entry member => ?_
    exact Ledger.find_eq_none_iff.mp missing entry member
      (solo entry (List.mem_of_mem_filter member))
  rw [Config.hasRoom, steady, Ledger.size, none]
  exact decide_eq_true positive

/-- In a table with one destination an offer to it never lacks room. -/
theorem Follows.accept_probe
    (steady : minTime config.burst config.rate offer.now = offer.now - lifetime)
    (follows : Follows lifetime offer.now ledger buckets)
    (solo : ∀ entry ∈ ledger.entries, entry.key = 0)
    (plain : offer.size ≤ 2 ^ 16 - 1 ∧ offer.room = true) :
    accept (config.limitsFor lifetime)
      (offerOf (probe config 0 offer.size offer.now)
        (config.hasRoom (probe config 0 offer.size offer.now) ledger))
          (buckets 0) =
      accept (config.limitsFor lifetime) offer (buckets 0) := by
  have roomThere : remembered (config.limitsFor lifetime) offer.now (buckets 0) = none → _ :=
    hasRoom_of_solo positive (probe config 0 offer.size offer.now) steady follows solo
  rw [offerOf_probe plain.1, accept_room roomThere, ← plain.2]

theorem passed_offersTo_probe
    (steady : ∀ now, minTime config.burst config.rate now = now - lifetime)
    (different : config.lanDevice ≠ config.wanDevice)
    (ordered : offers.Pairwise fun earlier later => earlier.now ≤ later.now)
    (plain : ∀ offer ∈ offers, offer.size ≤ 2 ^ 16 - 1 ∧ offer.room = true)
    (follows : ∀ offer ∈ offers,
      Follows lifetime offer.now ledger buckets)
    (solo : ∀ entry ∈ ledger.entries, entry.key = 0)
    (start stop : ℤ) :
    passed (config.limitsFor lifetime) start stop
        (offersTo config 0
          (offers.map fun offer => probe config 0 offer.size offer.now) ledger)
        (buckets 0) =
      passed (config.limitsFor lifetime) start stop offers (buckets 0) := by
  induction offers generalizing ledger buckets with
  | nil => rfl
  | cons offer offers ih =>
      obtain ⟨first, rest⟩ := List.pairwise_cons.mp ordered
      have plainHere := plain offer List.mem_cons_self
      have here : Follows lifetime
          (probe config 0 offer.size offer.now).now ledger buckets :=
        follows offer List.mem_cons_self
      have policed := policed_probe different 0 offer.size offer.now
      have later := ih rest
        (fun other member => plain other (List.mem_cons_of_mem _ member))
        (fun other member =>
          (here.ledgerStep (steady _)).mono (first other member))
        (fun entry member => (mem_ledgerStep member).elim id (solo entry))
      have same := Follows.accept_probe positive (steady _) (follows offer List.mem_cons_self)
        solo plainHere
      rw [nextBuckets, if_pos policed, same] at later
      rw [List.map_cons, offersTo, if_pos policed, passed, passed, same, later,
        offerOf_probe plainHere.1]

theorem exists_not_rateBounded
    (noOverflow : config.burst * secondsMultiplier < 2 ^ 63)
    (notSafe : ¬RateSafe config) :
    ∃ receptions : List Reception,
      (receptions.Pairwise fun earlier later => earlier.now ≤ later.now) ∧
      ¬RateBounded config (receptions.zip
        (Transcript.run (ledgerStep config) receptions .empty).1) := by
  have different : config.lanDevice ≠ config.wanDevice :=
    fun same => notSafe (.inl same)
  have lasting := expTime_nonneg noOverflow
  have noWrap : config.limits.burst < config.limits.wrap := by
    rw [Config.limits, limits_burst, limits_wrap]
    rw [secondsMultiplier] at noOverflow
    omega
  have remembers : 0 ≤ config.limits.lifetime := by
    rw [Config.limits, limits_lifetime]
    exact lasting
  obtain ⟨offers, stop, ordered, plain, nonnegative, exceeds⟩ :=
    exceeded_of_not_safe noWrap remembers (by decide)
      fun safe => notSafe (.inr safe)
  have orderedProbes : (offers.map fun offer =>
      probe config 0 offer.size offer.now).Pairwise fun earlier later =>
        earlier.now ≤ later.now :=
    List.pairwise_map.mpr ordered
  refine ⟨_, orderedProbes, fun bounded => ?_⟩
  have within := bounded 0 0 stop nonnegative
  rw [forwardedBytes_eq_passed (minTime_of_nonneg lasting) orderedProbes
      (fun reception _ => Follows.initial _ reception.now),
    passed_offersTo_probe positive (minTime_of_nonneg lasting) different ordered plain
      (fun offer _ => Follows.initial _ offer.now)
      (fun _ member => absurd member List.not_mem_nil)] at within
  simp only [Config.limits, limits_unit, limits_burst, limits_rate] at exceeds
  exact absurd within (not_le.mpr exceeds)

end

end Necessary

/-- The policer keeps the forwarded bytes within the burst and the rate, in
every run with nondecreasing times, for every destination and in every interval,
exactly when the condition on the configuration holds. -/
theorem policer_rate_bounded_iff
    (config : Config)
    (build : Map.Build)
    (hash : ℕ → ℕ)
    (mapMemory : Map.Arrays (KeyRef ℕ))
    (vector : ℤ → ℕ)
    (chainMemory : DoubleChain)
    (dynVals : ℤ → DynamicValue)
    {state : State}
    (noOverflow : config.burst * secondsMultiplier < 2 ^ 63)
    (positive : 0 < config.dynCapacity)
    (bounded : config.dynCapacity < 2 ^ 31)
    (allocated : allocState build mapMemory vector chainMemory dynVals
      config.dynCapacity = some state) :
    (∀ receptions : List Reception,
      (receptions.Pairwise fun earlier later => earlier.now ≤ later.now) →
        ∃ dstDevices final,
          (run config build (.ofHash hash) receptions state).Returns
            (dstDevices, final) ∧
          RateBounded config (receptions.zip dstDevices)) ↔
      RateSafe config := by
  obtain ⟨table, built, rfl⟩ := Option.map_eq_some_iff.mp allocated
  have fresh : ∀ now, State.Keeps config.dynCapacity build hash now
      { table := table, dynVals := dynVals } .empty :=
    fun now => FlowTable.Keeps.allocate positive bounded built dynVals now
  constructor
  · intro every
    by_contra notSafe
    obtain ⟨receptions, ordered, exceeds⟩ :=
      exists_not_rateBounded positive noOverflow notSafe
    obtain ⟨dstDevices, final, returns, within⟩ := every receptions ordered
    obtain ⟨final', returns', _⟩ := run_returns fresh ordered
    obtain ⟨rfl, _⟩ := Prod.mk.inj (returns.unique returns')
    exact exceeds within
  · intro safe receptions ordered
    obtain ⟨final, returns, _⟩ := run_returns fresh ordered
    exact ⟨_, final, returns, safe.rateBounded (expTime_nonneg noOverflow) ordered⟩

/-- With a burst that takes a whole number of seconds the bound holds. -/
theorem policer_rate_bounded_whole_seconds :
    let config : Config := ⟨1, 0, 1000, 1000, 2⟩
    let hash : ℕ → ℕ := id
    let memory : Map.Arrays (KeyRef ℕ) := ⟨fun _ => 1, fun _ => .own 0,
      fun _ => 0, fun _ => 1, fun _ => 0⟩
    let chainMemory : DoubleChain := ⟨fun _ => ⟨0, 0⟩, fun _ => 0⟩
    let dynVals : ℤ → DynamicValue := fun _ => ⟨0, 0⟩
    let state : State := ⟨⟨dchainAllocate chainMemory 2,
      ⟨⟨Map.mapImplInit memory 2, 2, 0⟩, fun _ => 0, []⟩⟩, dynVals⟩
    let receptions : List Reception :=
      [⟨0, 0, ⟨true, true, 5, 7, 6, 1, 1, 400⟩⟩,
        ⟨1, 0, ⟨true, true, 5, 7, 6, 1, 1, 600⟩⟩]
    allocState .modulo memory (fun _ => 0) chainMemory dynVals 2 = some state ∧
      ∃ dstDevices final,
        (run config .modulo (.ofHash hash) receptions state).Returns
          (dstDevices, final) ∧
        dstDevices = [1, 0] ∧
        RateBounded config (receptions.zip dstDevices) := by
  intro config hash memory chainMemory dynVals state receptions
  have safe : RateSafe config :=
    .inr ⟨by decide, by decide, fun _ => by decide⟩
  obtain ⟨dstDevices, final, returns, within⟩ :=
    (policer_rate_bounded_iff config .modulo hash memory (fun _ => 0) chainMemory
      dynVals (by decide) (by decide) (by decide) rfl).mpr safe receptions
      (by decide)
  have computed : ((run config .modulo (.ofHash hash) receptions state).run
      9).map Prod.fst = some [1, 0] := by
    decide
  have values := returns.view_eq 9 computed
  exact ⟨rfl, dstDevices, final, returns, values, within⟩

/-- With the rate and the burst that the configuration has by default, buckets
expire at once: two packets of 60000 bytes pass within a nanosecond, although
the burst is 100000 bytes. -/
theorem policer_exceeds_default_burst :
    let config : Config := ⟨1, 0, 1000000, 100000, 2⟩
    let hash : ℕ → ℕ := id
    let memory : Map.Arrays (KeyRef ℕ) := ⟨fun _ => 1, fun _ => .own 0,
      fun _ => 0, fun _ => 1, fun _ => 0⟩
    let chainMemory : DoubleChain := ⟨fun _ => ⟨0, 0⟩, fun _ => 0⟩
    let dynVals : ℤ → DynamicValue := fun _ => ⟨0, 0⟩
    let state : State := ⟨⟨dchainAllocate chainMemory 2,
      ⟨⟨Map.mapImplInit memory 2, 2, 0⟩, fun _ => 0, []⟩⟩, dynVals⟩
    let receptions : List Reception :=
      [⟨0, 0, ⟨true, true, 5, 7, 6, 1, 1, 60000⟩⟩,
        ⟨1, 0, ⟨true, true, 5, 7, 6, 1, 1, 60000⟩⟩]
    allocState .modulo memory (fun _ => 0) chainMemory dynVals 2 = some state ∧
      (∃ final, (run config .modulo (.ofHash hash) receptions state).Returns
        ([1, 1], final)) ∧
      forwardedBytes config 7 0 1 (receptions.zip [1, 1]) = 120000 ∧
      ¬RateBounded config (receptions.zip [1, 1]) := by
  intro config hash memory chainMemory dynVals state receptions
  have computed : ((run config .modulo (.ofHash hash) receptions state).run
      9).map Prod.fst = some [1, 1] := by
    decide
  have bytes : forwardedBytes config 7 0 1 (receptions.zip [1, 1]) = 120000 := by
    decide
  obtain ⟨⟨replies, final⟩, atFuel, rfl⟩ := Option.map_eq_some_iff.mp computed
  refine ⟨rfl, ⟨final, 9, atFuel⟩, bytes, fun within => ?_⟩
  have bound := within 7 0 1 (by decide)
  rw [bytes] at bound
  exact absurd bound (by decide)

end Vigpol
end Vigor
