import Vigor.Vigpol.RateBound
import Vigor.Vigpolifw.Parameters

/-!
# Exchanges

Packets out and in, in turn, on a single flow.  The firewall forwards all of
them, so that the policer decides about the packets in.  Exchanges show what the
condition on the configuration is necessary for.
-/

namespace Vigor
namespace Vigpolifw

open Vigfw (FlowId)
open TokenBucket

/-- A packet out from the device, so that the packet in that follows is a
reply. -/
def opening
    (policer : Vigpol.Config)
    (device : ℕ)
    (now : ℤ) : Reception :=
  { Vigpol.probe policer 0 0 now with device := device }

/-- Packets out and in, in turn: each packet in offers something to the
policer. -/
def exchange
    (policer : Vigpol.Config)
    (device : ℕ)
    (offers : List Offer) :
    List Reception :=
  offers.flatMap fun offer =>
    [opening policer device offer.now,
      Vigpol.probe policer 0 offer.size offer.now]

theorem exchange_cons
    (policer : Vigpol.Config)
    (device : ℕ)
    (offer : Offer)
    (offers : List Offer) :
    exchange policer device (offer :: offers) =
      opening policer device offer.now ::
        Vigpol.probe policer 0 offer.size offer.now :: exchange policer device offers := rfl

theorem mem_exchange (member : reception ∈ exchange policer device offers) :
    reception.frame.Parsed ∧
      (reception.device = device ∨ reception.device = policer.wanDevice) ∧
      ∃ offer ∈ offers, reception.now = offer.now := by
  obtain ⟨offer, offered, isPacket⟩ := List.mem_flatMap.mp member
  rcases List.mem_pair.mp isPacket with rfl | rfl
  · exact ⟨⟨rfl, rfl⟩, .inl rfl, offer, offered, rfl⟩
  · exact ⟨⟨rfl, rfl⟩, .inr rfl, offer, offered, rfl⟩

theorem pairwise_exchange
    (policer : Vigpol.Config)
    (device : ℕ)
    (ordered : offers.Pairwise fun earlier later => earlier.now ≤ later.now) :
    (exchange policer device offers).Pairwise fun earlier later =>
      earlier.now ≤ later.now := by
  induction offers with
  | nil => exact List.Pairwise.nil
  | cons offer offers ih =>
      obtain ⟨first, rest⟩ := List.pairwise_cons.mp ordered
      have later : ∀ reception ∈ exchange policer device offers,
          offer.now ≤ reception.now := by
        intro reception member
        obtain ⟨_, _, other, offered, isNow⟩ := mem_exchange member
        exact (first other offered).trans_eq isNow.symm
      rw [exchange_cons]
      refine List.pairwise_cons.mpr ⟨?_, List.pairwise_cons.mpr ⟨later, ih rest⟩⟩
      exact List.forall_mem_cons.mpr ⟨Int.le_refl _, later⟩

section Policer

variable {policer : Vigpol.Config} {device : ℕ}

theorem ledgerStep_opening
    (different : device ≠ policer.wanDevice)
    (now : ℤ)
    (buckets : Ledger ℕ Vigpol.DynamicValue) :
    (Vigpol.ledgerStep policer (opening policer device now) buckets).1 =
      if device = policer.lanDevice then policer.wanDevice else device := by
  rw [Vigpol.ledgerStep_of_not_policed fun policed => different policed.2.2.1]
  simp [Vigpol.passedTo, opening, Vigpol.probe]

theorem nextBuckets_opening
    (different : device ≠ policer.wanDevice)
    (now : ℤ)
    (room : Bool)
    (last : ℕ → Option Bucket) :
    Vigpol.nextBuckets policer lifetime (opening policer device now) room last =
      last := by
  funext dst
  exact if_neg fun policed => different policed.2.2.1

theorem run_policer_exchange
    (positive : 0 < policer.dynCapacity)
    (lanIsNotWan : policer.lanDevice ≠ policer.wanDevice)
    (different : device ≠ policer.wanDevice)
    (ordered : offers.Pairwise fun earlier later => earlier.now ≤ later.now)
    (plain : ∀ offer ∈ offers, offer.size ≤ 2 ^ 16 - 1 ∧ offer.room = true)
    (steady : ∀ offer ∈ offers,
      Vigpol.minTime policer.burst policer.rate offer.now =
        offer.now - lifetime)
    (follows : ∀ offer ∈ offers, Vigpol.Follows lifetime offer.now buckets last)
    (solo : ∀ entry ∈ buckets.entries, entry.key = 0) :
    (Transcript.run (Vigpol.ledgerStep policer) (exchange policer device offers)
        buckets).1 =
      (decisions (policer.limitsFor lifetime) offers (last 0)).flatMap
          fun passes =>
        [if device = policer.lanDevice then policer.wanDevice else device,
          if passes then policer.lanDevice else policer.wanDevice] := by
  induction offers generalizing buckets last with
  | nil => rfl
  | cons offer offers ih =>
      obtain ⟨first, rest⟩ := List.pairwise_cons.mp ordered
      obtain ⟨plainHere, plainLater⟩ := List.forall_mem_cons.mp plain
      have outgoing : Vigpol.Follows lifetime
          (opening policer device offer.now).now buckets last :=
        follows offer List.mem_cons_self
      obtain ⟨steadyHere, steadyLater⟩ := List.forall_mem_cons.mp steady
      have steadyAt : ∀ reception : Reception, reception.now = offer.now →
          Vigpol.minTime policer.burst policer.rate reception.now =
            reception.now - lifetime := fun _ isNow => isNow ▸ steadyHere
      have opened := outgoing.ledgerStep (steadyAt _ rfl)
      rw [nextBuckets_opening different] at opened
      have soloOpened : ∀ entry ∈ (Vigpol.ledgerStep policer
          (opening policer device offer.now) buckets).2.entries, entry.key = 0 :=
        fun entry member => (Vigpol.mem_ledgerStep member).elim id (solo entry)
      generalize isOpened : (Vigpol.ledgerStep policer
        (opening policer device offer.now) buckets).2 = openedBuckets at *
      have incoming : Vigpol.Follows lifetime
          (Vigpol.probe policer 0 offer.size offer.now).now openedBuckets last :=
        opened
      have policed := Vigpol.policed_probe lanIsNotWan 0 offer.size offer.now
      have same := incoming.accept_probe positive steadyHere soloOpened plainHere
      have reply := (incoming.ledgerStep_of_policed (steadyAt _ rfl) policed).1
      have later := ih rest plainLater steadyLater
        (fun other member =>
          (incoming.ledgerStep (steadyAt _ rfl)).mono (first other member))
        (fun entry member =>
          (Vigpol.mem_ledgerStep member).elim id (soloOpened entry))
      rw [Vigpol.nextBuckets, if_pos policed, same] at later
      rw [exchange_cons, Transcript.run_cons, Transcript.run_cons, isOpened, later,
        ledgerStep_opening different, reply, same, decisions_cons]
      rfl

end Policer

section Firewall

variable {config : Config} {device : ℕ}

/-- The flow of the exchange. -/
def zeroFlow : FlowId := ⟨0, 0, 0, 0, 0⟩

/-- The ledger has no flow but that of the exchange, recorded from the
device. -/
def Only
    (device : ℕ)
    (flows : Ledger FlowId ℕ) : Prop :=
  ∀ entry ∈ flows.entries, entry.key = zeroFlow ∧ entry.data = device

variable {flows : Ledger FlowId ℕ}

theorem Only.expire
    (only : Only device flows)
    (limit : ℤ) :
    Only device (flows.expire limit) :=
  fun entry member => only entry (List.mem_of_mem_filter member)

/-- A packet out is sent to the WAN device, and its flow is there afterwards. -/
theorem Only.opening
    (positive : 0 < config.maxFlows)
    (different : device ≠ config.wanDevice)
    (only : Only device flows)
    (now : ℤ) :
    let outcome := Vigfw.ledgerStep config.firewall
      (Vigpolifw.opening config.policer device now) flows
    outcome.1 = config.wanDevice ∧ Only device outcome.2 ∧
      outcome.2.find zeroFlow = some ⟨zeroFlow, device, now⟩ := by
  have expired := only.expire (now - config.firewall.lifetime)
  have parsed : (Vigpolifw.opening config.policer device now).frame.Parsed := ⟨rfl, rfl⟩
  have outbound : (Vigpolifw.opening config.policer device now).device ≠
      config.firewall.wanDevice := different
  rw [Vigfw.ledgerStep_of_outbound parsed outbound]
  refine ⟨rfl, fun entry member => ?_, ?_⟩
  · rcases Ledger.data_of_mem_ensure member with ⟨old, oldMember, key, data⟩ | rfl
    · rw [← key, ← data]
      exact expired old oldMember
    · exact ⟨rfl, rfl⟩
  · have room : (flows.expire (now - config.firewall.lifetime)).find zeroFlow =
        none → (flows.expire (now - config.firewall.lifetime)).size < config.maxFlows := by
      intro missing
      have none : (flows.expire (now - config.firewall.lifetime)).entries = [] :=
        List.eq_nil_iff_forall_not_mem.mpr fun entry member =>
          Ledger.find_eq_none_iff.mp missing entry member (expired entry member).1
      rw [Ledger.size, none]
      exact positive
    refine (Ledger.find_ensure_self room device now).trans ?_
    cases found : (flows.expire (now - config.firewall.lifetime)).find zeroFlow with
    | none => rfl
    | some entry =>
        have isDevice := (expired entry (Ledger.find_eq_some_iff.mp found).1).2
        rw [Option.elim, isDevice]

theorem Only.probe
    (config : Config)
    (only : Only device flows)
    (found : flows.find zeroFlow = some ⟨zeroFlow, device, now⟩)
    (size : ℕ) :
    let outcome := Vigfw.ledgerStep config.firewall (Vigpol.probe config.policer 0 size now) flows
    outcome.1 = device ∧ Only device outcome.2 := by
  have expired := only.expire (now - config.firewall.lifetime)
  have parsed : (Vigpol.probe config.policer 0 size now).frame.Parsed := ⟨rfl, rfl⟩
  have young : now - config.firewall.lifetime ≤ now := by
    rw [Vigfw.Config.lifetime]
    omega
  have stillFound : (flows.expire (now - config.firewall.lifetime)).find zeroFlow =
      some ⟨zeroFlow, device, now⟩ := by
    rw [Ledger.find_expire, found, Option.filter_some, if_pos (decide_eq_true young)]
  have inbound : (Vigpol.probe config.policer 0 size now).device = config.firewall.wanDevice := rfl
  rw [Vigfw.ledgerStep_of_inbound parsed inbound]
  refine ⟨?_, fun entry member => ?_⟩
  · exact congrArg (Option.elim · config.wanDevice Ledger.Entry.data) stillFound
  · obtain ⟨old, oldMember, key, data⟩ := Ledger.data_of_mem_touch member
    rw [← key, ← data]
    exact expired old oldMember

theorem run_firewall_exchange
    (positive : 0 < config.maxFlows)
    (different : device ≠ config.wanDevice)
    (offers : List Offer)
    (only : Only device flows) :
    firewallDevices config (exchange config.policer device offers) flows =
      offers.flatMap fun _ => [config.wanDevice, device] := by
  induction offers generalizing flows with
  | nil => rfl
  | cons offer offers ih =>
      obtain ⟨out, onlyOpened, found⟩ := only.opening positive different offer.now
      obtain ⟨back, onlyProbed⟩ := onlyOpened.probe config found offer.size
      have later := ih onlyProbed
      rw [firewallDevices] at later ⊢
      rw [exchange_cons, Transcript.run_cons, Transcript.run_cons, out, back, later]
      rfl

end Firewall

section Decisions

variable {config : Config}

/-- The devices that the policer chooses in an exchange with the LAN device. -/
def policed
    (config : Config)
    (passes : List Bool) : List ℕ :=
  passes.flatMap fun pass =>
    [config.wanDevice, if pass then config.lanDevice else config.wanDevice]

theorem policed_cons
    (config : Config)
    (pass : Bool)
    (passes : List Bool) :
    policed config (pass :: passes) =
      config.wanDevice ::
        (if pass then config.lanDevice else config.wanDevice) :: policed config passes := rfl

variable {offers : List Offer}

section

variable (lanIsNotWan : config.lanDevice ≠ config.wanDevice)

include lanIsNotWan

/-- In an exchange with the LAN device the policer decides. -/
theorem combineAll_exchange
    (sameLength : passes.length = offers.length) :
    combineAll (exchange config.policer config.lanDevice offers)
        (offers.flatMap fun _ => [config.wanDevice, config.lanDevice])
        (policed config passes) = .ok (policed config passes) := by
  induction offers generalizing passes with
  | nil =>
      rw [List.length_eq_zero_iff.mp sameLength]
      rfl
  | cons offer offers ih =>
      obtain ⟨pass, others, rfl⟩ := List.exists_cons_of_length_eq_add_one sameLength
      have later := ih (Nat.succ.inj sameLength)
      have out : combine (opening config.policer config.lanDevice offer.now).device
          config.wanDevice config.wanDevice = .ok config.wanDevice := by
        simp [combine, opening, lanIsNotWan.symm]
      have back : combine
          (Vigpol.probe config.policer 0 offer.size offer.now).device
          config.lanDevice (if pass then config.lanDevice else config.wanDevice) =
            .ok (if pass then config.lanDevice else config.wanDevice) := by
        cases pass <;> simp [combine, Vigpol.probe, Config.policer, lanIsNotWan]
      rw [exchange_cons, policed_cons, List.flatMap_cons, List.cons_append,
        List.cons_append, List.nil_append, combineAll, combineAll, out, back, later]
      rfl

theorem passes_eq_of_forwardsBoth
    (sameLength : passes.length = offers.length)
    (otherLength : others.length = offers.length)
    (both : ForwardsBoth (exchange config.policer config.lanDevice offers)
      (policed config passes)
      (offers.flatMap fun _ => [config.wanDevice, config.lanDevice])
      (policed config others)) :
    passes = others := by
  induction offers generalizing passes others with
  | nil => rw [List.length_eq_zero_iff.mp sameLength, List.length_eq_zero_iff.mp otherLength]
  | cons offer offers ih =>
      obtain ⟨pass, passes, rfl⟩ := List.exists_cons_of_length_eq_add_one sameLength
      obtain ⟨other, others, rfl⟩ :=
        List.exists_cons_of_length_eq_add_one otherLength
      obtain ⟨_, here, later⟩ := both
      have rest := ih (Nat.succ.inj sameLength) (Nat.succ.inj otherLength) later
      have same : pass = other := by
        revert here
        cases pass <;> cases other <;> simp [Vigpol.probe, Config.policer, lanIsNotWan]
      rw [same, rest]

theorem sameDecisions_of_isConjunction
    (flowsPositive : 0 < config.maxFlows)
    (positive : 0 < config.dynCapacity)
    (conjunction : ∀ offers : List Offer,
      (offers.Pairwise fun earlier later => earlier.now ≤ later.now) →
        IsConjunction config
          (exchange config.policer config.lanDevice offers)) :
    SameDecisions config := by
  intro lifetime offers ordered plain steady
  obtain ⟨dstDevices, combined, both⟩ := conjunction offers ordered
  have devicesFw : firewallDevices config
      (exchange config.policer config.lanDevice offers) .empty =
        offers.flatMap fun _ => [config.wanDevice, config.lanDevice] :=
    run_firewall_exchange flowsPositive lanIsNotWan offers
      fun _ member => absurd member List.not_mem_nil
  have devicesPol : policerDevices config
      (exchange config.policer config.lanDevice offers) .empty =
        policed config (decisions config.truncated.limits offers none) := by
    refine (run_policer_exchange positive lanIsNotWan
      lanIsNotWan ordered plain (fun _ _ => Vigpol.minTime_of_nonneg truncated_lasting _)
      (fun offer _ => .initial _ offer.now)
      fun _ member => absurd member List.not_mem_nil).trans ?_
    simp [policed, Config.truncated, Vigpol.Config.limits]
  have devicesAlone : (Transcript.run (Vigpol.ledgerStep config.policer)
      (exchange config.policer config.lanDevice offers) .empty).1 =
        policed config
          (decisions (config.policer.limitsFor lifetime) offers none) := by
    refine (run_policer_exchange positive lanIsNotWan lanIsNotWan ordered
      plain steady (fun offer _ => .initial lifetime offer.now)
      fun _ member => absurd member List.not_mem_nil).trans ?_
    simp [policed, Config.policer]
  have length : ∀ limits : Limits,
      (decisions limits offers none).length = offers.length :=
    fun limits => Transcript.length_run _ _ _
  rw [devicesFw, devicesPol, combineAll_exchange lanIsNotWan (length _)] at combined
  obtain rfl := Except.ok.inj combined
  rw [devicesFw, devicesAlone] at both
  exact passes_eq_of_forwardsBoth lanIsNotWan (length _) (length _) both

theorem known_of_isConjunction
    (flowsPositive : 0 < config.maxFlows)
    (positive : 0 < config.dynCapacity)
    (conjunction :
      IsConjunction config (exchange config.policer device [⟨0, 0, true⟩])) :
    device = config.wanDevice ∨ device = config.lanDevice := by
  by_contra other
  obtain ⟨notWan, notLan⟩ := not_or.mp other
  obtain ⟨dstDevices, combined, _⟩ := conjunction
  have devicesFw : firewallDevices config
      (exchange config.policer device [⟨0, 0, true⟩]) .empty = [config.wanDevice, device] :=
    run_firewall_exchange flowsPositive notWan [⟨0, 0, true⟩]
      fun _ member => absurd member List.not_mem_nil
  have passes : decisions config.truncated.limits [⟨0, 0, true⟩] none = [true] := by
    rw [decisions_cons, accept_new _ (Nat.zero_le _)]
    rfl
  have devicesPol : policerDevices config
      (exchange config.policer device [⟨0, 0, true⟩]) .empty = [device, config.lanDevice] := by
    refine (run_policer_exchange positive lanIsNotWan notWan
      (List.pairwise_singleton _ _) (by simp)
      (fun _ _ => Vigpol.minTime_of_nonneg truncated_lasting _)
      (fun offer _ => .initial _ offer.now)
      fun _ member => absurd member List.not_mem_nil).trans ?_
    rw [← Vigpol.Config.limits, passes]
    simp [Config.truncated, notLan]
  have out : combine (opening config.policer device 0).device config.wanDevice
      device = .ok device := by
    simp [combine, opening]
  have back : combine (Vigpol.probe config.policer 0 0 0).device device
      config.lanDevice = .error .devicesDiffer := by
    simp [combine, Vigpol.probe, Config.policer, notWan, lanIsNotWan, Ne.symm notLan]
  rw [devicesFw, devicesPol, exchange_cons, combineAll, combineAll, out, back] at combined
  cases combined

end

end Decisions

end Vigpolifw
end Vigor
