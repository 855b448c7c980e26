import Vigor.Vigpolifw.Exchange

/-!
# The policing firewall as a conjunction

The policing firewall should forward a packet exactly if the stand-alone
firewall and the stand-alone policer both forward it, and the two stages should
then agree on the device.  There are two ways in which they do not.  The policer
of the second stage works with the burst and the rate modulo `2 ^ 16`.  And the
firewall knows flows from any device, while the policer sends all packets from
the WAN device to the LAN device.  The conjunction holds in all runs exactly if
neither shows.
-/

namespace Vigor
namespace Vigpolifw

open Vigfw (FlowId)
open TokenBucket

/-- The condition on the configuration: no division by zero; and no packet is
ever forwarded, or the parameters fit and there are no other devices. -/
def ConjunctionSafe
    (config : Config)
    (nbDevices : ℕ) : Prop :=
  config.rate % 2 ^ 16 ≠ 0 ∧
    (config.lanDevice = config.wanDevice ∨
      (RateFits config ∧
        ∀ device < nbDevices, device = config.wanDevice ∨
          device = config.lanDevice))

/-! ## The condition is sufficient -/

section Sufficient

variable {config : Config}

/-- The stages do not contradict each other. -/
def Agree (device dstDeviceFw dstDevicePol : ℕ) : Prop :=
  dstDeviceFw = device ∨ dstDevicePol = device ∨ dstDeviceFw = dstDevicePol

theorem combine_of_agree (agree : Agree device dstDeviceFw dstDevicePol) :
    ∃ dstDevice, combine device dstDeviceFw dstDevicePol = .ok dstDevice ∧
      (dstDevice ≠ device ↔ dstDeviceFw ≠ device ∧ dstDevicePol ≠ device) := by
  rw [combine]
  by_cases dropped : dstDevicePol = device ∨ dstDeviceFw = device
  · rw [if_pos dropped]
    refine ⟨device, rfl, ?_⟩
    tauto
  · have same : dstDeviceFw = dstDevicePol := by
      rw [Agree] at agree
      tauto
    rw [if_neg dropped, if_pos same.symm]
    refine ⟨dstDevicePol, rfl, ?_⟩
    tauto

variable {receptions : List Reception} {flows : Ledger FlowId ℕ}

/-- If the stages agree on every packet, the run is their conjunction. -/
theorem forwardsBoth_of_agree
    (holds : Ledger FlowId ℕ → Prop)
    (agree : ∀ reception ∈ receptions, ∀ flows buckets, holds flows →
      Agree reception.device
        (Vigfw.ledgerStep config.firewall reception flows).1
          (Vigpol.ledgerStep config.truncated reception buckets).1)
    (kept : ∀ reception ∈ receptions, ∀ flows, holds flows →
      holds (Vigfw.ledgerStep config.firewall reception flows).2)
    (initially : holds flows)
    (buckets : Ledger ℕ Vigpol.DynamicValue) :
    ∃ dstDevices,
      combineAll receptions (firewallDevices config receptions flows)
        (policerDevices config receptions buckets) = .ok dstDevices ∧
      ForwardsBoth receptions dstDevices
        (firewallDevices config receptions flows)
        (policerDevices config receptions buckets) := by
  induction receptions generalizing flows buckets with
  | nil => exact ⟨[], rfl, trivial⟩
  | cons reception receptions ih =>
      obtain ⟨agreeHere, agreeLater⟩ := List.forall_mem_cons.mp agree
      obtain ⟨keptHere, keptLater⟩ := List.forall_mem_cons.mp kept
      obtain ⟨dstDevice, combined, both⟩ :=
        combine_of_agree (agreeHere flows buckets initially)
      obtain ⟨dstDevices, combinedLater, bothLater⟩ := ih
        agreeLater keptLater (keptHere flows initially)
        (Vigpol.ledgerStep config.truncated reception buckets).2
      refine ⟨dstDevice :: dstDevices, ?_, both, bothLater⟩
      rw [firewallDevices, policerDevices] at combinedLater ⊢
      rw [Transcript.run_cons, Transcript.run_cons, combineAll, combined, combinedLater]
      rfl

/-- All flows were recorded from the LAN device. -/
def FromLan
    (config : Config)
    (flows : Ledger FlowId ℕ) : Prop :=
  ∀ entry ∈ flows.entries, entry.data = config.lanDevice

variable {reception : Reception}

theorem FromLan.ledgerStep
    (fromLan : FromLan config flows)
    (known : reception.device = config.wanDevice ∨
      reception.device = config.lanDevice) :
    FromLan config (Vigfw.ledgerStep config.firewall reception flows).2 := by
  have expired : FromLan config
      (flows.expire (reception.now - config.firewall.lifetime)) :=
    fun entry member => fromLan entry (List.mem_of_mem_filter member)
  rw [Vigfw.ledgerStep]
  split_ifs with parsed inbound
  · intro entry member
    obtain ⟨old, oldMember, _, sameData⟩ := Ledger.data_of_mem_touch member
    rw [← sameData]
    exact expired old oldMember
  · intro entry member
    rcases Ledger.data_of_mem_ensure member with ⟨old, oldMember, _, sameData⟩ | rfl
    · rw [← sameData]
      exact expired old oldMember
    · exact known.resolve_left inbound
  · exact expired

/-- The firewall sends a packet out to the WAN device, and in to the LAN
device. -/
theorem FromLan.reply
    (fromLan : FromLan config flows)
    (parsed : reception.frame.Parsed) :
    let dstDevice := (Vigfw.ledgerStep config.firewall reception flows).1
    (reception.device ≠ config.wanDevice → dstDevice = config.wanDevice) ∧
      (reception.device = config.wanDevice →
        dstDevice = config.wanDevice ∨ dstDevice = config.lanDevice) := by
  intro dstDevice
  simp only [dstDevice, Vigfw.ledgerStep]
  rw [if_neg (not_not.mpr parsed)]
  constructor
  · intro outbound
    exact congrArg Prod.fst (if_neg outbound)
  · intro inbound
    have isWan : reception.device = config.firewall.wanDevice := inbound
    rw [if_pos isWan]
    dsimp only
    cases found : (flows.expire (reception.now - config.firewall.lifetime)).find
      (Vigfw.flowOf config.firewall reception) with
    | none => exact .inl inbound
    | some entry =>
        obtain ⟨member, _⟩ := Ledger.find_eq_some_iff.mp found
        exact .inr (fromLan entry (List.mem_of_mem_filter member))

theorem policer_reply
    (policer : Vigpol.Config)
    (parsed : reception.frame.Parsed)
    (buckets : Ledger ℕ Vigpol.DynamicValue) :
    let dstDevice := (Vigpol.ledgerStep policer reception buckets).1
    (reception.device = policer.lanDevice → dstDevice = policer.wanDevice) ∧
      (reception.device ≠ policer.lanDevice →
        reception.device = policer.wanDevice →
          dstDevice = policer.wanDevice ∨ dstDevice = policer.lanDevice) ∧
      (policer.lanDevice = policer.wanDevice → dstDevice = reception.device) := by
  intro dstDevice
  simp only [dstDevice, Vigpol.ledgerStep]
  rw [if_neg (by simp [parsed.1])]
  by_cases outgoing : reception.device = policer.lanDevice
  · rw [if_pos outgoing]
    exact ⟨fun _ => rfl, fun notLan => absurd outgoing notLan,
      fun same => (outgoing.trans same).symm⟩
  rw [if_neg outgoing]
  by_cases incoming : reception.device = policer.wanDevice
  · rw [if_pos incoming]
    refine ⟨fun isLan => absurd isLan outgoing, fun _ _ => ?_,
      fun same => absurd (incoming.trans same.symm) outgoing⟩
    dsimp only
    split_ifs
    · exact .inr rfl
    · exact .inl rfl
  · rw [if_neg incoming]
    exact ⟨fun isLan => absurd isLan outgoing, fun _ isWan => absurd isWan incoming, fun _ => rfl⟩

theorem run_policer_of_same_device
    (same : policer.lanDevice = policer.wanDevice)
    (parsed : ∀ reception ∈ receptions, reception.frame.Parsed)
    (buckets : Ledger ℕ Vigpol.DynamicValue) :
    (Transcript.run (Vigpol.ledgerStep policer) receptions buckets).1 =
      receptions.map Reception.device := by
  induction receptions generalizing buckets with
  | nil => rfl
  | cons reception receptions ih =>
      obtain ⟨here, later⟩ := List.forall_mem_cons.mp parsed
      rw [Transcript.run_cons, ih later,
        (policer_reply policer here buckets).2.2 same, List.map_cons]

theorem ConjunctionSafe.isConjunction
    (safe : ConjunctionSafe config nbDevices)
    (ordered : receptions.Pairwise fun earlier later => earlier.now ≤ later.now)
    (parsed : ∀ reception ∈ receptions, reception.frame.Parsed)
    (existing : ∀ reception ∈ receptions, reception.device < nbDevices) :
    IsConjunction config receptions := by
  rw [IsConjunction]
  obtain ⟨divides, same | ⟨fits, known⟩⟩ := safe
  · have devices : policerDevices config receptions .empty =
        receptions.map Reception.device :=
      run_policer_of_same_device same parsed _
    rw [run_policer_of_same_device same parsed, ← devices]
    refine forwardsBoth_of_agree (fun _ => True) ?_ (fun _ _ _ _ => trivial) trivial .empty
    intro reception member flows buckets _
    have dropped := (policer_reply config.truncated (parsed reception member) buckets).2.2 same
    exact .inr (.inl dropped)
  · rw [← policerDevices_of_fits fits divides ordered]
    refine forwardsBoth_of_agree (FromLan config) ?_ ?_
      (fun _ member => absurd member List.not_mem_nil) .empty
    · intro reception member flows buckets fromLan
      obtain ⟨outFw, inFw⟩ := fromLan.reply (parsed reception member)
      obtain ⟨outPol, inPol, _⟩ :=
        policer_reply config.truncated (parsed reception member) buckets
      by_cases isWan : reception.device = config.wanDevice
      · by_cases isLan : reception.device = config.lanDevice
        · exact .inr (.inl ((outPol isLan).trans isWan.symm))
        rcases inFw isWan with dropped | forwarded
        · exact .inl (dropped.trans isWan.symm)
        rcases inPol isLan isWan with droppedPol | forwardedPol
        · exact .inr (.inl (droppedPol.trans isWan.symm))
        · exact .inr (.inr (forwarded.trans forwardedPol.symm))
      · have isLan := (known _ (existing reception member)).resolve_left isWan
        exact .inr (.inr ((outFw isWan).trans (outPol isLan).symm))
    · intro reception member flows fromLan
      exact fromLan.ledgerStep (known _ (existing reception member))

end Sufficient

/-! ## The code -/

section Code

variable
  {config : Config}
  {build : Map.Build}
  {flowHash : FlowId → ℕ}
  {addrHash : ℕ → ℕ}
  {state : State}

theorem run_of_zero_rate
    (zero : config.rate % 2 ^ 16 = 0)
    (addrHash : ℕ → ℕ)
    (parsed : reception.frame.Parsed)
    (keeps : state.firewall.Keeps config.firewall build flowHash reception.now
      flows)
    (receptions : List Reception) :
    (run config build (.ofHash flowHash) (.ofHash addrHash)
      (reception :: receptions) state).Returns (.error .divisionByZero) := by
  obtain ⟨flowState, returns, _⟩ := keeps.nfProcess
  obtain ⟨ipv4, tcpudp⟩ := parsed
  rw [Vigfw.nfProcess_eq] at returns
  simp only [Frame.Parsed, ipv4, tcpudp, and_self, if_true] at returns
  have stops : (nfProcessPolicer config build (.ofHash addrHash) reception
      state.policer).Returns (.error .divisionByZero) := by
    rw [nfProcessPolicer, if_pos zero]
    exact Fuelled.returns_pure _
  have processed : (nfProcess config build (.ofHash flowHash) (.ofHash addrHash)
      reception state).Returns (.error .divisionByZero) := by
    rw [nfProcess, if_neg (by simp [ipv4]), if_neg (by simp [tcpudp])]
    exact Fuelled.Returns.bind returns (stops.bind (Fuelled.returns_pure _))
  exact processed.bind (Fuelled.returns_pure _)

theorem conjunction_iff
    (divides : config.rate % 2 ^ 16 ≠ 0)
    (fresh : ∀ now,
      state.Keeps config build flowHash addrHash now .empty .empty)
    (ordered : receptions.Pairwise fun earlier later => earlier.now ≤ later.now)
    (parsed : ∀ reception ∈ receptions, reception.frame.Parsed) :
    (∃ dstDevices dstDevicesFw dstDevicesPol final finalFw finalPol,
      (run config build (.ofHash flowHash) (.ofHash addrHash) receptions
        state).Returns (.ok (dstDevices, final)) ∧
      (Vigfw.run config.firewall build (.ofHash flowHash) receptions
        state.firewall).Returns (dstDevicesFw, finalFw) ∧
      (Vigpol.run config.policer build (.ofHash addrHash) receptions
        state.policer).Returns (dstDevicesPol, finalPol) ∧
      ForwardsBoth receptions dstDevices dstDevicesFw dstDevicesPol) ↔
      IsConjunction config receptions := by
  obtain ⟨outcome, returns, combined⟩ := run_returns divides ordered parsed
    fun reception _ => fresh reception.now
  obtain ⟨finalFw, returnsFw⟩ :=
    Vigfw.run_returns (fun now => (fresh now).firewall) ordered
  have freshPol : ∀ now, state.policer.Keeps config.policer.dynCapacity build
      addrHash now .empty := fun now => (fresh now).policer
  obtain ⟨finalPol, returnsPol, _⟩ := Vigpol.run_returns freshPol ordered
  constructor
  · rintro ⟨dstDevices, dstDevicesFw, dstDevicesPol, _, _, _, ran, ranFw, ranPol, both⟩
    obtain rfl := returns.unique ran
    obtain ⟨rfl, _⟩ := Prod.mk.inj (ranFw.unique returnsFw)
    obtain ⟨rfl, _⟩ := Prod.mk.inj (ranPol.unique returnsPol)
    exact ⟨dstDevices, combined.symm, both⟩
  · rintro ⟨dstDevices, isOk, both⟩
    rw [isOk] at combined
    cases outcome with
    | error abort => cases combined
    | ok values =>
        obtain rfl := Except.ok.inj combined
        exact ⟨_, _, _, _, _, _, returns, returnsFw, returnsPol, both⟩

end Code

/-- In all runs with nondecreasing times on packets with headers, from any of
the devices, the policing firewall does not stop, and it forwards a packet
exactly if the stand-alone firewall and the stand-alone policer with the same
parameters do; this holds exactly if the configuration meets the condition. -/
theorem policing_firewall_is_conjunction_iff
    (config : Config)
    (build : Map.Build)
    (flowHash : FlowId → ℕ)
    (addrHash : ℕ → ℕ)
    (flowMemory : Map.Arrays (KeyRef FlowId))
    (flows : ℤ → FlowId)
    (heapMemory : DoubleChain)
    (intDevices : ℤ → ℕ)
    (addrMemory : Map.Arrays (KeyRef ℕ))
    (addrs : ℤ → ℕ)
    (dynHeapMemory : DoubleChain)
    (dynVals : ℤ → Vigpol.DynamicValue)
    {state : State}
    {nbDevices : ℕ}
    (burstPositive : 0 < config.burst)
    (burstBounded : config.burst < 2 ^ 64)
    (flowsPositive : 0 < config.maxFlows)
    (flowsBounded : config.maxFlows < 2 ^ 31)
    (positive : 0 < config.dynCapacity)
    (bounded : config.dynCapacity < 2 ^ 31)
    (wanExists : config.wanDevice < nbDevices)
    (lanExists : config.lanDevice < nbDevices)
    (allocated : allocState build flowMemory flows heapMemory intDevices
      addrMemory addrs dynHeapMemory dynVals config = some state) :
    (∀ receptions : List Reception,
      (receptions.Pairwise fun earlier later => earlier.now ≤ later.now) →
      (∀ reception ∈ receptions, reception.frame.Parsed) →
      (∀ reception ∈ receptions, reception.device < nbDevices) →
        ∃ dstDevices dstDevicesFw dstDevicesPol final finalFw finalPol,
          (run config build (.ofHash flowHash) (.ofHash addrHash) receptions
            state).Returns (.ok (dstDevices, final)) ∧
          (Vigfw.run config.firewall build (.ofHash flowHash) receptions
            state.firewall).Returns (dstDevicesFw, finalFw) ∧
          (Vigpol.run config.policer build (.ofHash addrHash) receptions
            state.policer).Returns (dstDevicesPol, finalPol) ∧
          ForwardsBoth receptions dstDevices dstDevicesFw dstDevicesPol) ↔
      ConjunctionSafe config nbDevices := by
  have fresh : ∀ now, state.Keeps config build flowHash addrHash now .empty
      .empty := by
    intro now
    rw [allocState, Option.bind_eq_bind, Option.bind_eq_some_iff] at allocated
    obtain ⟨firewall, builtFw, allocated⟩ := allocated
    rw [Option.bind_eq_bind, Option.bind_eq_some_iff] at allocated
    obtain ⟨policer, builtPol, isState⟩ := allocated
    obtain rfl := Option.some.inj isState
    obtain ⟨table, tableBuilt, rfl⟩ := Option.map_eq_some_iff.mp builtFw
    obtain ⟨table', tableBuilt', rfl⟩ := Option.map_eq_some_iff.mp builtPol
    exact ⟨FlowTable.Keeps.allocate flowsPositive flowsBounded tableBuilt _ now,
      FlowTable.Keeps.allocate positive bounded tableBuilt' _ now⟩
  constructor
  · intro every
    have divides : config.rate % 2 ^ 16 ≠ 0 := by
      intro zero
      have parsed : (Vigpol.probe config.policer 0 0 0).frame.Parsed := ⟨rfl, rfl⟩
      have exists_ : (Vigpol.probe config.policer 0 0 0).device < nbDevices :=
        wanExists
      have stops := run_of_zero_rate zero addrHash parsed (fresh 0).firewall []
      obtain ⟨_, _, _, _, _, _, ran, _⟩ :=
        every [Vigpol.probe config.policer 0 0 0] (List.pairwise_singleton _ _)
          (by simpa using parsed) (by simpa using exists_)
      cases ran.unique stops
    have exchanges : ∀ device < nbDevices, ∀ offers : List Offer,
        (offers.Pairwise fun earlier later => earlier.now ≤ later.now) →
          IsConjunction config (exchange config.policer device offers) := by
      intro device exists_ offers ordered
      have orderedAll := pairwise_exchange config.policer device ordered
      have parsed : ∀ reception ∈ exchange config.policer device offers,
          reception.frame.Parsed := fun reception member => (mem_exchange member).1
      refine (conjunction_iff divides fresh orderedAll parsed).mp
        (every _ orderedAll parsed fun reception member => ?_)
      rcases (mem_exchange member).2.1 with isDevice | isWan
      · rw [isDevice]
        exact exists_
      · rw [isWan]
        exact wanExists
    refine ⟨divides, or_iff_not_imp_left.mpr fun lanIsNotWan => ⟨?_, ?_⟩⟩
    · exact (sameDecisions_of_isConjunction lanIsNotWan flowsPositive positive
        (exchanges config.lanDevice lanExists)).rateFits burstPositive burstBounded
        divides
    · intro device exists_
      exact known_of_isConjunction lanIsNotWan flowsPositive positive
        (exchanges device exists_ _ (List.pairwise_singleton _ _))
  · intro safe receptions ordered parsed existing
    exact (conjunction_iff safe.1 fresh ordered parsed).mpr
      (safe.isConjunction ordered parsed existing)

/-- With small parameters and two devices: a packet out, a reply that passes
both stages and a reply that the policer drops. -/
theorem policing_firewall_is_conjunction_example :
    let config : Config := ⟨0, 1, 1000, 2, 1000, 1000, 2⟩
    let flowHash : FlowId → ℕ := fun id => id.srcPort
    let addrHash : ℕ → ℕ := id
    let flowMemory : Map.Arrays (KeyRef FlowId) := ⟨fun _ => 1,
      fun _ => .own ⟨0, 0, 0, 0, 0⟩, fun _ => 0, fun _ => 1, fun _ => 0⟩
    let addrMemory : Map.Arrays (KeyRef ℕ) := ⟨fun _ => 1, fun _ => .own 0,
      fun _ => 0, fun _ => 1, fun _ => 0⟩
    let chainMemory : DoubleChain := ⟨fun _ => ⟨0, 0⟩, fun _ => 0⟩
    let receptions : List Reception :=
      [⟨0, 1, ⟨true, true, 5, 7, 6, 1, 2, 100⟩⟩,
        ⟨1, 0, ⟨true, true, 7, 5, 6, 2, 1, 400⟩⟩,
        ⟨2, 0, ⟨true, true, 7, 5, 6, 2, 1, 700⟩⟩]
    ∃ state, allocState .modulo flowMemory (fun _ => ⟨0, 0, 0, 0, 0⟩) chainMemory
        (fun _ => 0) addrMemory (fun _ => 0) chainMemory (fun _ => ⟨0, 0⟩) config =
          some state ∧
      ∃ dstDevices dstDevicesFw dstDevicesPol final finalFw finalPol,
        (run config .modulo (.ofHash flowHash) (.ofHash addrHash) receptions
          state).Returns (.ok (dstDevices, final)) ∧
        (Vigfw.run config.firewall .modulo (.ofHash flowHash) receptions
          state.firewall).Returns (dstDevicesFw, finalFw) ∧
        (Vigpol.run config.policer .modulo (.ofHash addrHash) receptions
          state.policer).Returns (dstDevicesPol, finalPol) ∧
        ForwardsBoth receptions dstDevices dstDevicesFw dstDevicesPol := by
  intro config flowHash addrHash flowMemory addrMemory chainMemory receptions
  have safe : ConjunctionSafe config 2 :=
    ⟨by decide, .inr ⟨⟨by decide, .inl (by decide)⟩, by decide⟩⟩
  refine ⟨_, rfl, ?_⟩
  exact (policing_firewall_is_conjunction_iff config .modulo flowHash addrHash
    flowMemory (fun _ => ⟨0, 0, 0, 0, 0⟩) chainMemory (fun _ => 0) addrMemory
    (fun _ => 0) chainMemory (fun _ => ⟨0, 0⟩) (by decide) (by decide) (by decide)
    (by decide) (by decide) (by decide) (by decide) (by decide) rfl).mpr safe
    receptions (by decide) (by decide) (by decide)

/-- A burst of 100000 bytes is cut to 34464: a reply of 40000 bytes is forwarded
by the stand-alone firewall and by the stand-alone policer, and dropped by the
policing firewall. -/
theorem policing_firewall_drops_within_burst :
    let config : Config := ⟨0, 1, 1000, 2, 1000000, 100000, 2⟩
    let flowHash : FlowId → ℕ := fun id => id.srcPort
    let addrHash : ℕ → ℕ := id
    let flowMemory : Map.Arrays (KeyRef FlowId) := ⟨fun _ => 1,
      fun _ => .own ⟨0, 0, 0, 0, 0⟩, fun _ => 0, fun _ => 1, fun _ => 0⟩
    let addrMemory : Map.Arrays (KeyRef ℕ) := ⟨fun _ => 1, fun _ => .own 0,
      fun _ => 0, fun _ => 1, fun _ => 0⟩
    let chainMemory : DoubleChain := ⟨fun _ => ⟨0, 0⟩, fun _ => 0⟩
    let receptions : List Reception :=
      [⟨0, 1, ⟨true, true, 5, 7, 6, 1, 2, 100⟩⟩,
        ⟨1, 0, ⟨true, true, 7, 5, 6, 2, 1, 40000⟩⟩]
    ∃ state, allocState .modulo flowMemory (fun _ => ⟨0, 0, 0, 0, 0⟩) chainMemory
        (fun _ => 0) addrMemory (fun _ => 0) chainMemory (fun _ => ⟨0, 0⟩) config =
          some state ∧
      (∃ final, (run config .modulo (.ofHash flowHash) (.ofHash addrHash)
        receptions state).Returns (.ok ([0, 0], final))) ∧
      (∃ final, (Vigfw.run config.firewall .modulo (.ofHash flowHash) receptions
        state.firewall).Returns ([0, 1], final)) ∧
      (∃ final, (Vigpol.run config.policer .modulo (.ofHash addrHash) receptions
        state.policer).Returns ([0, 1], final)) ∧
      ¬ForwardsBoth receptions [0, 0] [0, 1] [0, 1] := by
  intro config flowHash addrHash flowMemory addrMemory chainMemory receptions
  refine ⟨_, rfl, Fuelled.exists_returns_ok_fst 9 (by decide),
    Fuelled.exists_returns_fst 9 (by decide),
    Fuelled.exists_returns_fst 9 (by decide), ?_⟩
  rintro ⟨_, both, _⟩
  exact absurd both (by decide)

end Vigpolifw
end Vigor
