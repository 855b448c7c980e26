import Vigor.Vignat.OwnPorts

/-!
# The translator that replies do not keep alive

`vignat-parallelizable` is the translator without one call:
`flow_manager_get_external` does not rejuvenate the index.  A packet from the
WAN device then only expires flows, which the next packet would expire too.  So
packets from internal devices can be processed apart.
-/

namespace Vigor
namespace Vignat
namespace Parallelizable

open DoubleChain Expirator
open Fuelled (loop loopRun loop_returns_of_done loop_returns_of_next returns_pure)

/-! ## The code -/

section Process

variable (config : Config) (build : Map.Build) (ops : Map.KeyOps FlowId)

/-- `flow_manager_get_external`, which leaves the chain as it is. -/
def flowManagerGetExternal
    (port : ℕ)
    (table : FlowTable FlowId) : Option FlowId :=
  let index : ℤ := port - config.startPort
  if dchainIsIndexAllocated table.chain index = false then none
  else some (table.keys.vector index)

/-- The part of `nf_process` for a packet from the WAN device. -/
def processInbound
    (device : ℕ)
    (packet : Packet)
    (table : FlowTable FlowId) : ℕ × Packet :=
  match flowManagerGetExternal config packet.dstPort table with
  | some internalFlow =>
      if internalFlow.dstIp ≠ packet.srcAddr ∨
          internalFlow.dstPort ≠ packet.srcPort ∨
          internalFlow.protocol ≠ packet.nextProtoId then
        -- Spoofing attempt, dropping.
        (device, packet)
      else
        (internalFlow.internalDevice,
          { packet with
            dstAddr := internalFlow.srcIp
            dstPort := internalFlow.srcPort })
  -- Unknown flow, dropping.
  | none => (device, packet)

/-- `nf_process`. -/
def nfProcess
    (device : ℕ)
    (packet : Packet)
    (now : ℤ)
    (table : FlowTable FlowId) : Fuelled (ℕ × Packet × FlowTable FlowId) := do
  let table ← flowManagerExpire config build ops now table
  if packet.isIpv4 = false then pure (device, packet, table)
  else if packet.isTcpudp = false then pure (device, packet, table)
  else if device = config.wanDevice then
    let outcome := processInbound config device packet table
    pure (outcome.1, outcome.2, table)
  else pure (processOutbound config build ops device packet now table)

/-- Process packets one after the other, and write down what came out. -/
def run : List Arrival → FlowTable FlowId → Fuelled (List Record)
  | [], _ => pure []
  | arrival :: arrivals, table => do
      let outcome ← nfProcess config build ops arrival.device arrival.packet arrival.now table
      let records ← run arrivals outcome.2.2
      return { arrival with dstDevice := outcome.1, sent := outcome.2.1 } :: records

end Process

/-! ## Expiry in two steps -/

section Expiry

variable {erase : ℤ → σ → σ} {time later count total : ℤ} {chain chain' : DoubleChain}

/-- An index that is old is old later. -/
theorem dchainExpireOneIndex_later
    (le : time ≤ later)
    (old : dchainExpireOneIndex chain time = (some index, chain')) :
    dchainExpireOneIndex chain later = (some index, chain') := by
  unfold dchainExpireOneIndex at old ⊢
  grind

theorem dchainExpireOneIndex_none
    (fresh : dchainExpireOneIndex chain time = (none, chain')) :
    chain' = chain := by
  have refused : ∀ index, (dchainImplFreeIndex chain.cells index).1 = false →
      (dchainImplFreeIndex chain.cells index).2 = chain.cells := by
    grind [dchainImplFreeIndex]
  cases chain
  unfold dchainExpireOneIndex at fresh
  grind

theorem loop_later
    {store store' : σ}
    {final : DoubleChain × σ}
    (le : time ≤ later)
    (first : loopRun (expireRound erase time) fuel (count, chain, store) =
      some (total, chain', store'))
    (second : dchainExpireOneIndex chain' time = (none, chain') → ∀ start,
        ∃ finish,
      (loop (expireRound erase later) (start, chain', store')).Returns
        (finish, final))
    (start : ℤ) :
    ∃ finish,
      (loop (expireRound erase later) (start, chain, store)).Returns
        (finish, final) := by
  induction fuel generalizing count chain store start with
  | zero => cases first
  | succ fuel ih =>
      cases oldest : dchainExpireOneIndex chain time with
      | mk found next =>
          simp only [loopRun, expireRound, oldest] at first
          cases found with
          | none =>
              obtain ⟨_, rfl, rfl⟩ : _ ∧ _ ∧ _ := by simpa using Option.some.inj first
              obtain rfl := dchainExpireOneIndex_none oldest
              exact second oldest start
          | some index =>
              obtain ⟨finish, returns⟩ := ih first (start + 1)
              refine ⟨finish, loop_returns_of_next ?_ returns⟩
              rw [expireRound, dchainExpireOneIndex_later le oldest]
              exact returns_pure _

end Expiry

variable {config : Config} {build : Map.Build} {ops : Map.KeyOps FlowId}
  {table middle expired : FlowTable FlowId} {entries : IndexTable config.maxFlows FlowId}

theorem flowManagerExpire_later
    {now later : ℤ}
    (le : now ≤ later)
    (first : (flowManagerExpire config build ops now table).Returns middle)
    (second : (flowManagerExpire config build ops later middle).Returns
      expired) :
    (flowManagerExpire config build ops later table).Returns expired := by
  simp only [flowManagerExpire, FlowTable.expireItemsSingleMap, bind_assoc, pure_bind,
    Fuelled.returns_bind_iff, Fuelled.returns_pure_iff] at first second ⊢
  obtain ⟨⟨_, chain, keys⟩, ⟨_, firstRun⟩, rfl⟩ := first
  obtain ⟨⟨_, final⟩, ⟨_, secondRun⟩, rfl⟩ := second
  have restarted := loop_later (le_refl _) secondRun fun stopped start =>
    ⟨start, loop_returns_of_done (by
      rw [expireRound, stopped]
      exact returns_pure _)⟩
  obtain ⟨_, returns⟩ := loop_later (by omega) firstRun (fun _ => restarted) 0
  exact ⟨_, returns, rfl⟩

/-! ## Packets from internal devices -/

theorem exists_outcome
    (coherent : FlowTable.Coherent build ops expired.chain expired.keys entries)
    (arrival : Arrival) :
    ∃ outcome,
      (∀ table, (flowManagerExpire config build ops arrival.now table).Returns
          expired →
        (nfProcess config build ops arrival.device arrival.packet arrival.now
          table).Returns outcome) ∧
      (arrival.device = config.wanDevice → outcome.2.2 = expired) ∧
      ∃ entries' : IndexTable config.maxFlows FlowId,
        FlowTable.Coherent build ops outcome.2.2.chain outcome.2.2.keys
          entries' := by
  obtain ⟨now, device, packet⟩ := arrival
  simp only [nfProcess, Fuelled.returns_bind_iff]
  by_cases dropped : packet.isIpv4 = false ∨ packet.isTcpudp = false
  · refine ⟨(device, packet, expired), fun table expires =>
      ⟨expired, expires, ?_⟩, fun _ => rfl, _, coherent⟩
    rcases dropped with notIpv4 | notTcpudp
    · simp [notIpv4]
    · simp [notTcpudp]
  obtain ⟨ipv4, tcpudp⟩ := not_or.mp dropped
  simp only [if_neg ipv4, if_neg tcpudp]
  by_cases wan : device = config.wanDevice
  · simp only [if_pos wan]
    exact ⟨_, fun table expires => ⟨expired, expires, returns_pure _⟩,
      fun _ => rfl, _, coherent⟩
  · simp only [if_neg wan]
    exact ⟨_, fun table expires => ⟨expired, expires, returns_pure _⟩,
      fun isWan => absurd isWan wan, processOutbound_coherent coherent device packet now⟩

theorem run_cons
    (processed : (nfProcess config build ops arrival.device arrival.packet
      arrival.now table).Returns outcome)
    (rest : (run config build ops arrivals outcome.2.2).Returns records) :
    (run config build ops (arrival :: arrivals) table).Returns
      ({ arrival with dstDevice := outcome.1, sent := outcome.2.1 } ::
        records) :=
  processed.bind (rest.bind (returns_pure _))

/-- The run without the packets from the WAN device gives the records of the
others. -/
def Separates
    (config : Config)
    (build : Map.Build)
    (ops : Map.KeyOps FlowId)
    (arrivals : List Arrival)
    (table expired : FlowTable FlowId) : Prop :=
  ∃ records, (run config build ops arrivals expired).Returns records ∧
    (run config build ops (arrivals.filter fun arrival => arrival.device ≠ config.wanDevice)
      table).Returns (records.filter fun record => record.device ≠ config.wanDevice)

/-- The run with all packets can be ahead by the expiry of an earlier packet. -/
theorem separates_of_expired
    {arrivals : List Arrival}
    (coherent : FlowTable.Coherent build ops expired.chain expired.keys entries)
    (ahead : expired = table ∨ ∃ time,
        (∀ arrival ∈ arrivals, time ≤ arrival.now) ∧
      (flowManagerExpire config build ops time table).Returns expired)
    (ordered : arrivals.Pairwise fun first second => first.now ≤ second.now) :
    Separates config build ops arrivals table expired := by
  induction arrivals generalizing table expired entries with
  | nil => exact ⟨[], returns_pure _, returns_pure _⟩
  | cons arrival arrivals ih =>
      obtain ⟨bounds, later⟩ := List.pairwise_cons.mp ordered
      obtain ⟨fresh, returns, kept⟩ := flowManagerExpire_coherent coherent arrival.now
      obtain ⟨outcome, processed, unchanged, _, keptAfter⟩ := exists_outcome kept arrival
      have same : (flowManagerExpire config build ops arrival.now table).Returns fresh := by
        rcases ahead with rfl | ⟨time, before, earlier⟩
        · exact returns
        · exact flowManagerExpire_later (before arrival List.mem_cons_self) earlier returns
      by_cases wan : arrival.device = config.wanDevice
      · have ahead : (flowManagerExpire config build ops arrival.now table).Returns
            outcome.2.2 := by
          rw [unchanged wan]
          exact same
        obtain ⟨records, full, filtered⟩ := ih keptAfter (.inr ⟨_, bounds, ahead⟩) later
        refine ⟨_, run_cons (processed _ returns) full, ?_⟩
        rw [List.filter_cons_of_neg (by simp [wan]), List.filter_cons_of_neg (by simp [wan])]
        exact filtered
      · obtain ⟨records, full, filtered⟩ := ih keptAfter (.inl rfl) later
        refine ⟨_, run_cons (processed _ returns) full, ?_⟩
        rw [List.filter_cons_of_pos (by simp [wan]), List.filter_cons_of_pos (by simp [wan])]
        exact run_cons (processed _ same) filtered

/-- Packets from internal devices are processed as if there were no packets from
the WAN device, in every run from fresh structures with times that do not
decrease. -/
theorem internal_packets_ignore_wan
    (config : Config)
    (build : Map.Build)
    (ops : Map.KeyOps FlowId)
    (positive : 0 < config.maxFlows)
    (bounded : config.maxFlows < 2 ^ 31)
    (allocated : FlowTable.allocate build mapMemory vector chainMemory
      config.maxFlows = some table)
    {arrivals : List Arrival}
    (ordered : arrivals.Pairwise fun first second => first.now ≤ second.now) :
    Separates config build ops arrivals table table :=
  separates_of_expired (FlowTable.Coherent.allocate positive bounded allocated) (.inl rfl) ordered

theorem internal_packets_ignore_wan_reply :
    let config : Config := ⟨1, 9, 100, 1000, 2⟩
    let memory : Map.Arrays (KeyRef FlowId) := ⟨fun _ => 1,
      fun _ => .own ⟨0, 0, 0, 0, 0, 0⟩, fun _ => 0, fun _ => 1, fun _ => 0⟩
    ∃ table, FlowTable.allocate .modulo memory (fun _ => ⟨0, 0, 0, 0, 0, 0⟩)
        ⟨fun _ => ⟨0, 0⟩, fun _ => 0⟩ 2 = some table ∧
      Separates config .modulo (.ofHash FlowId.srcIp) [⟨5, 0, ⟨true, true, 7, 8, 6, 40, 80⟩⟩,
        ⟨6, 1, ⟨true, true, 8, 9, 6, 80, 100⟩⟩] table table :=
  ⟨_, rfl, internal_packets_ignore_wan _ _ _ (by decide) (by decide) rfl (by decide)⟩

end Parallelizable
end Vignat
end Vigor
