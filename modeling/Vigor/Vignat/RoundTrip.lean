import Vigor.FlowTable.Current
import Vigor.Library.Transcript
import Vigor.Sessions
import Vigor.Vignat.Impl

/-!
# Round trip and isolation of flows

Which flows are live follows from the packets alone: a flow begins with an
outbound packet that is let through, and ends with the first gap longer than the
expiration time between its events.  The translator answers every packet as the
live flows demand, in every run in which no inbound packet is addressed to a
port whose index is below -1 or not below the number of flows.  For such a port
the code looks at a cell that is not the cell of an index.
-/

namespace Vigor
namespace Vignat

open DoubleChain

/-! ## Live flows -/

/-- A flow as the history of packets shows it. -/
structure Flow where
  id : FlowId
  externalPort : ℕ
  lastEvent : ℤ
  deriving DecidableEq, Repr

/-- The flows without a gap longer than the expiration time up to now. -/
def live
    (config : Config)
    (now : ℤ)
    (flows : List Flow) : List Flow :=
  flows.filter fun flow => now - flow.lastEvent ≤ config.expirationTime * 1000

/-- An event of the flows with a property. -/
def touch
    (now : ℤ)
    (concerned : Flow → Bool)
    (flow : Flow) : Flow :=
  if concerned flow then { flow with lastEvent := now } else flow

/-- An inbound packet is an event of the flow of its port. -/
def afterInbound
    (now : ℤ)
    (port : ℕ)
    (flows : List Flow) : List Flow :=
  flows.map (touch now fun flow => flow.externalPort = port)

/-- An outbound packet is an event of its flow.  If there is none and the packet
is let through, it creates the flow. -/
def afterOutbound
    (now : ℤ)
    (id : FlowId)
    (forwarded : Bool)
    (port : ℕ)
    (flows : List Flow) : List Flow :=
  if flows.any fun flow => flow.id = id then
    flows.map (touch now fun flow => flow.id = id)
  else if forwarded then
    flows ++ [{ id := id, externalPort := port, lastEvent := now }]
  else flows

/-- The packet has the headers that the translator looks at. -/
def Packet.Parsed (packet : Packet) : Prop :=
  packet.isIpv4 = true ∧ packet.isTcpudp = true

instance (packet : Packet) : Decidable packet.Parsed :=
  inferInstanceAs (Decidable (_ ∧ _))

/-- Live flows after one more packet. -/
def afterRecord
    (config : Config)
    (flows : List Flow)
    (record : Record) : List Flow :=
  let flows := live config record.now flows
  if ¬record.packet.Parsed then flows
  else if record.device = config.wanDevice then
    afterInbound record.now record.packet.dstPort flows
  else
    afterOutbound record.now (flowId record.device record.packet)
      (record.dstDevice ≠ record.device) record.sent.srcPort flows

/-- Live flows after a history of packets. -/
def liveFlows
    (config : Config)
    (records : List Record) : List Flow :=
  records.foldl (afterRecord config) []

/-- An inbound packet that answers a flow. -/
def Replies
    (flow : Flow)
    (packet : Packet) : Prop :=
  flow.externalPort = packet.dstPort ∧ flow.id.dstIp = packet.srcAddr ∧
    flow.id.dstPort = packet.srcPort ∧ flow.id.protocol = packet.nextProtoId

instance (flow : Flow) (packet : Packet) : Decidable (Replies flow packet) :=
  inferInstanceAs (Decidable (_ ∧ _ ∧ _ ∧ _))

/-- No two flows share a port, and ports come from the configured range. -/
def Isolated
    (config : Config)
    (flows : List Flow) : Prop :=
  (∀ first ∈ flows, ∀ second ∈ flows,
      first.externalPort = second.externalPort → first = second) ∧
    ∀ flow ∈ flows, config.startPort ≤ flow.externalPort ∧
      flow.externalPort < config.startPort + config.maxFlows

/-- What has to come out for a packet when the given flows are live. -/
def Answers
    (config : Config)
    (flows : List Flow)
    (device : ℕ)
    (packet : Packet)
    (dstDevice : ℕ)
    (sent : Packet) : Prop :=
  (device ≠ config.wanDevice →
    ∀ flow ∈ flows, flow.id = flowId device packet →
      dstDevice = config.wanDevice ∧
        sent = { packet with
          srcAddr := config.externalAddr
          srcPort := flow.externalPort }) ∧
  (device = config.wanDevice → config.startPort ≤ packet.dstPort →
    packet.dstPort < config.startPort + config.maxFlows →
      (dstDevice ≠ device ↔ ∃ flow ∈ flows, Replies flow packet) ∧
      (∀ flow ∈ flows, Replies flow packet →
        dstDevice = flow.id.internalDevice ∧
          sent = { packet with
            dstAddr := flow.id.srcIp
            dstPort := flow.id.srcPort }) ∧
      ((∀ flow ∈ flows, ¬Replies flow packet) →
        dstDevice = device ∧ sent = packet))

/-- Every packet of a history found isolated flows, and was answered as they
demand. -/
def RoundTrip
    (config : Config)
    (records : List Record) : Prop :=
  ∀ before record after, records = before ++ record :: after →
    Isolated config (live config record.now (liveFlows config before)) ∧
    (record.packet.Parsed →
      Answers config (live config record.now (liveFlows config before))
        record.device record.packet record.dstDevice record.sent)

/-- The port of an inbound packet belongs to an index, or to the index before
the first one. -/
def Arrival.PortInReach
    (config : Config)
    (arrival : Arrival) : Prop :=
  arrival.packet.Parsed → arrival.device = config.wanDevice →
    config.startPort ≤ arrival.packet.dstPort + 1 ∧
      arrival.packet.dstPort < config.startPort + config.maxFlows

/-! ## Invariant -/

/-- How the entry of an index appears as a flow. -/
def present
    (config : Config)
    (index : ℤ)
    (id : FlowId)
    (time : ℤ) : Flow where
  id := id
  externalPort := externalPort config index
  lastEvent := time

/-- The table holds the given flows. -/
structure Follows
    (config : Config)
    (build : Map.Build)
    (hash : FlowId → ℕ)
    (now : ℤ)
    (flows : List Flow)
    (table : FlowTable FlowId)
    (entries : IndexTable config.maxFlows FlowId) : Prop
    extends FlowTable.Current build hash now table entries where
  shows : entries.Shows (present config) flows
  /-- Flows come from internal devices. -/
  internal : ∀ index ∈ entries.alloc,
    (entries.value index).internalDevice ≠ config.wanDevice

section Ports

variable {config : Config}

section

variable (fits : config.startPort + config.maxFlows ≤ 2 ^ 16)
  {index : ℤ}
  (nonnegative : 0 ≤ index)
  (bounded : index < config.maxFlows)

include fits nonnegative bounded

theorem externalPort_eq :
    (externalPort config index : ℤ) = config.startPort + index := by
  rw [externalPort, Int.emod_eq_of_lt (by omega) (by omega), Int.toNat_of_nonneg (by omega)]

/-- The port of an index in range determines the index. -/
theorem externalPort_eq_iff
    (port : ℕ) :
    externalPort config index = port ↔ index = port - config.startPort := by
  have value := externalPort_eq fits nonnegative bounded
  omega

end

end Ports

namespace Follows

variable
  {config : Config}
  {build : Map.Build}
  {hash : FlowId → ℕ}
  {now : ℤ}
  {flows : List Flow}
  {table : FlowTable FlowId}
  {entries : IndexTable config.maxFlows FlowId}

theorem mono
    (follows : Follows config build hash now flows table entries)
    {later : ℤ}
    (le : now ≤ later) :
    Follows config build hash later flows table entries :=
  { follows with notAfter := follows.notAfter.mono le }

theorem allocate
    (positive : 0 < config.maxFlows)
    (bounded : config.maxFlows < 2 ^ 31)
    (allocated : FlowTable.allocate build mapMemory vector chainMemory
      config.maxFlows = some table)
    (now : ℤ) :
    Follows config build hash now [] table
      (IndexTable.initial config.maxFlows vector chainMemory.timestamps) where
  toCurrent := .allocate positive bounded allocated now
  shows := IndexTable.Shows.initial vector chainMemory.timestamps
  internal _ member := absurd member List.not_mem_nil

section

variable (follows : Follows config build hash now flows table entries)

include follows

theorem exists_index
    {flow : Flow}
    (member : flow ∈ flows) :
    ∃ index ∈ entries.alloc, (0 ≤ index ∧ index < config.maxFlows) ∧
      present config index (entries.value index) (entries.time index) =
        flow := by
  obtain ⟨index, inUse, shown⟩ := (follows.shows flow).mp member
  exact ⟨index, inUse, entries.allocator.inRange_of_mem_alloc inUse, shown⟩

theorem isolated (fits : config.startPort + config.maxFlows ≤ 2 ^ 16) :
    Isolated config flows := by
  constructor
  · intro first firstMember second secondMember samePort
    obtain ⟨index, _, inRange, rfl⟩ := follows.exists_index firstMember
    obtain ⟨other, _, otherInRange, rfl⟩ := follows.exists_index secondMember
    have port := externalPort_eq fits inRange.1 inRange.2
    have otherPort := externalPort_eq fits otherInRange.1 otherInRange.2
    simp only [present] at samePort
    have same : index = other := by omega
    rw [same]
  · intro flow member
    obtain ⟨index, _, inRange, rfl⟩ := follows.exists_index member
    have port := externalPort_eq fits inRange.1 inRange.2
    simp only [present]
    omega

theorem expire :
    ∃ table', (flowManagerExpire config build (.ofHash hash) now table).Returns
        table' ∧
      Follows config build hash now (live config now flows) table'
        (entries.expire (now - config.expirationTime * 1000)) := by
  obtain ⟨table', returns, current⟩ :=
    follows.expireItemsSingleMap (now - config.expirationTime * 1000)
  have outcome := follows.sorted.expire_exact (now - config.expirationTime * 1000)
  refine ⟨table', returns.bind (Fuelled.returns_pure _), current,
    follows.shows.expire follows.sorted ?_, ?_⟩
  · intro index value time
    refine decide_eq_decide.mpr ?_
    simp only [present]
    omega
  · intro index member
    rw [outcome.kept] at member
    rw [outcome.values]
    exact follows.internal index (List.mem_of_mem_filter member)

theorem refresh
    (inUse : index ∈ entries.alloc)
    (concerns : ∀ other ∈ entries.alloc, ∀ time,
      concerned (present config other (entries.value other) time) =
        decide (other = index)) :
    Follows config build hash now (flows.map (touch now concerned))
      { table with chain := (dchainRejuvenateIndex table.chain index now).2 }
      (entries.refresh index now) := by
  refine ⟨follows.toCurrent.refresh inUse, follows.shows.refresh inUse ?_, ?_⟩
  · intro other otherInUse
    rw [touch, concerns other otherInUse]
    by_cases same : other = index
    · simp [same, present]
    · simp [same, present]
  · intro other member
    exact follows.internal other ((IndexTable.mem_alloc_refresh inUse).mp member)

theorem insert
    (available : entries.allocator.free = index :: rest)
    {id : FlowId}
    (inside : id.internalDevice ≠ config.wanDevice)
    (current : FlowTable.Current build hash now table'
      (entries.insert id now).2) :
    Follows config build hash now (flows ++ [present config index id now])
      table' (entries.insert id now).2 := by
  refine ⟨current, follows.shows.insert available id now, ?_⟩
  intro other member
  rw [IndexTable.value_insert available]
  rcases (IndexTable.mem_alloc_insert available id now).mp member with old | rfl
  · rw [Function.update_of_ne (IndexTable.ne_of_available available old)]
    exact follows.internal other old
  · rw [Function.update_self]
    exact inside

end

end Follows

/-! ## Outbound packets -/

theorem processOutbound_eq
    (config : Config)
    (build : Map.Build)
    (ops : Map.KeyOps FlowId)
    (device : ℕ)
    (packet : Packet)
    (now : ℤ)
    (table : FlowTable FlowId) :
    processOutbound config build ops device packet now table =
      match table.ensure build ops (flowId device packet) now with
      | (some index, table) =>
          (config.wanDevice,
            { packet with
              srcAddr := config.externalAddr
              srcPort := externalPort config index },
            table)
      | (none, table) => (device, packet, table) := by
  rw [processOutbound, FlowTable.ensure, flowManagerGetInternal]
  generalize table.lookup build ops (flowId device packet) now = outcome
  obtain ⟨found, table'⟩ := outcome
  cases found with
  | some index => rfl
  | none =>
      simp only [Option.map_none, flowManagerAllocateFlow]
      generalize table'.allocateFlow build ops (flowId device packet) now = allocated
      obtain ⟨index, table''⟩ := allocated
      cases index <;> rfl

namespace Follows

variable
  {config : Config}
  {build : Map.Build}
  {hash : FlowId → ℕ}
  {now : ℤ}
  {flows : List Flow}
  {table : FlowTable FlowId}
  {entries : IndexTable config.maxFlows FlowId}

section

variable (follows : Follows config build hash now flows table entries)

include follows

theorem any_id_iff (id : FlowId) :
    (flows.any fun flow => flow.id = id) = true ↔
      ∃ index ∈ entries.alloc, entries.value index = id := by
  rw [List.any_eq_true]
  constructor
  · rintro ⟨flow, member, sameId⟩
    obtain ⟨index, inUse, _, rfl⟩ := follows.exists_index member
    exact ⟨index, inUse, of_decide_eq_true sameId⟩
  · rintro ⟨index, inUse, sameId⟩
    exact ⟨_, (follows.shows _).mpr ⟨index, inUse, rfl⟩, decide_eq_true sameId⟩

theorem outbound_of_known
    {device : ℕ}
    (inUse : index ∈ entries.alloc)
    (isId : entries.value index = flowId device packet) :
    ∃ table', processOutbound config build (.ofHash hash) device packet now
        table = (config.wanDevice,
          { packet with
            srcAddr := config.externalAddr
            srcPort := externalPort config index }, table') ∧
      ∀ forwarded port, Follows config build hash now
        (afterOutbound now (flowId device packet) forwarded port flows) table'
        (entries.refresh index now) := by
  refine ⟨{ table with chain := (dchainRejuvenateIndex table.chain index now).2 }, ?_,
    fun forwarded port => ?_⟩
  · rw [processOutbound_eq, FlowTable.ensure, FlowTable.lookup,
      follows.get_eq_some_iff.mpr ⟨inUse, isId⟩]
  have known := (follows.any_id_iff (flowId device packet)).mpr ⟨index, inUse, isId⟩
  rw [afterOutbound, if_pos known]
  refine follows.refresh inUse ?_
  intro other otherInUse time
  refine decide_eq_decide.mpr ⟨?_, ?_⟩
  · intro sameId
    exact follows.index_unique otherInUse inUse (sameId.trans isId.symm)
  · rintro rfl
    exact isId

theorem outbound_of_unknown
    (inside : device ≠ config.wanDevice)
    (missing : table.keys.get build (.ofHash hash)
      (.own (flowId device packet)) = none)
    (unknown : ¬(flows.any fun flow => flow.id = flowId device packet) = true) :
    ∃ dstDevice sent table' entries',
      processOutbound config build (.ofHash hash) device packet now table =
        (dstDevice, sent, table') ∧
      Follows config build hash now
        (afterOutbound now (flowId device packet) (dstDevice ≠ device)
          sent.srcPort flows) table' entries' := by
  rw [processOutbound_eq, FlowTable.ensure, FlowTable.lookup, missing]
  dsimp only
  cases shape : entries.allocator.free with
  | nil =>
      rw [follows.allocateFlow_of_full shape]
      refine ⟨device, packet, table, entries, rfl, ?_⟩
      rw [afterOutbound, if_neg unknown, if_neg (by simp)]
      exact follows
  | cons index rest =>
      obtain ⟨table', allocated, current⟩ := follows.allocateFlow_of_available missing shape
      rw [allocated]
      refine ⟨_, _, table', (entries.insert (flowId device packet) now).2, rfl, ?_⟩
      rw [afterOutbound, if_neg unknown, if_pos (by simpa using inside.symm)]
      exact follows.insert shape inside current

theorem outbound
    (inside : device ≠ config.wanDevice)
    (packet : Packet) :
    ∃ dstDevice sent table' entries',
      processOutbound config build (.ofHash hash) device packet now table =
        (dstDevice, sent, table') ∧
      Follows config build hash now
        (afterOutbound now (flowId device packet) (dstDevice ≠ device)
          sent.srcPort flows) table' entries' ∧
      Answers config flows device packet dstDevice sent := by
  cases search : table.keys.get build (.ofHash hash) (.own (flowId device packet)) with
  | some index =>
      obtain ⟨inUse, isId⟩ := follows.get_eq_some_iff.mp search
      obtain ⟨table', outcome, follows'⟩ := follows.outbound_of_known inUse isId
      refine ⟨_, _, table', _, outcome, follows' _ _, fun _ => ?_, fun wan => absurd wan inside⟩
      intro flow member sameId
      obtain ⟨other, otherInUse, _, rfl⟩ := follows.exists_index member
      have same : other = index :=
        follows.index_unique otherInUse inUse (sameId.trans isId.symm)
      rw [same]
      exact ⟨rfl, rfl⟩
  | none =>
      have unknown : ¬(flows.any fun flow =>
          flow.id = flowId device packet) = true := by
        rw [follows.any_id_iff]
        rintro ⟨index, inUse, isId⟩
        exact follows.get_eq_none_iff.mp search index inUse isId
      obtain ⟨dstDevice, sent, table', entries', outcome, follows'⟩ :=
        follows.outbound_of_unknown inside search unknown
      refine ⟨dstDevice, sent, table', entries', outcome, follows', fun _ => ?_,
        fun wan => absurd wan inside⟩
      intro flow member sameId
      exact absurd (List.any_eq_true.mpr ⟨flow, member, decide_eq_true sameId⟩) unknown

end

/-! ## Inbound packets -/

/-- A packet that answers no flow has to be dropped. -/
theorem answers_of_none (none : ∀ flow ∈ flows, ¬Replies flow packet) :
    Answers config flows config.wanDevice packet config.wanDevice packet :=
  ⟨fun inside => absurd rfl inside, fun _ _ _ =>
    ⟨iff_of_false (fun different => different rfl)
      fun ⟨flow, member, replies⟩ => none flow member replies,
    fun flow member replies => absurd replies (none flow member), fun _ => ⟨rfl, rfl⟩⟩⟩

theorem port_iff
    (fits : config.startPort + config.maxFlows ≤ 2 ^ 16)
    {index : ℤ}
    (inUse : index ∈ entries.alloc)
    (port : ℕ)
    (id : FlowId)
    (time : ℤ) :
    (present config index id time).externalPort = port ↔
      index = port - config.startPort := by
  obtain ⟨nonnegative, bounded⟩ := entries.allocator.inRange_of_mem_alloc inUse
  exact externalPort_eq_iff fits nonnegative bounded port

section

variable (follows : Follows config build hash now flows table entries)

include follows

theorem isIndexAllocated_iff
    (reach : config.startPort ≤ port + 1 ∧
      port < config.startPort + config.maxFlows) :
    dchainIsIndexAllocated table.chain (port - config.startPort) = true ↔
      (port - config.startPort : ℤ) ∈ entries.alloc := by
  have tracks := follows.coherent.tracks
  by_cases nonnegative : (0 : ℤ) ≤ port - config.startPort
  · exact tracks.dchainIsIndexAllocated_iff nonnegative (by omega)
  · have first : (port - config.startPort : ℤ) = -1 := by omega
    rw [first, dchainIsIndexAllocated, tracks.encodes.isIndexAllocated_stackHead]
    constructor
    · intro impossible
      cases impossible
    · intro inUse
      have := entries.allocator.inRange_of_mem_alloc inUse
      omega

variable {packet : Packet}
  (fits : config.startPort + config.maxFlows ≤ 2 ^ 16)
  (reach : config.startPort ≤ packet.dstPort + 1 ∧
    packet.dstPort < config.startPort + config.maxFlows)

include fits reach

theorem inbound_of_unknown
    (device : ℕ)
    (unknown : (packet.dstPort - config.startPort : ℤ) ∉ entries.alloc) :
    processInbound config device packet now table = (device, packet, table) ∧
      afterInbound now packet.dstPort flows = flows ∧
      ∀ flow ∈ flows, ¬Replies flow packet := by
  have notAllocated : dchainIsIndexAllocated table.chain
      (packet.dstPort - config.startPort) = false :=
    Bool.eq_false_iff.mpr (mt (follows.isIndexAllocated_iff reach).mp unknown)
  have otherPort : ∀ index ∈ entries.alloc, ∀ id time,
      (present config index id time).externalPort ≠ packet.dstPort := by
    intro index inUse id time samePort
    exact unknown ((port_iff fits inUse packet.dstPort id time).mp samePort ▸ inUse)
  refine ⟨?_, ?_, ?_⟩
  · simp only [processInbound, flowManagerGetExternal, if_pos notAllocated]
  · apply follows.shows.map_eq_self
    intro index inUse
    simp only [touch, decide_eq_true_iff, if_neg (otherPort index inUse _ _)]
  · rintro flow member ⟨samePort, _⟩
    obtain ⟨index, inUse, _, rfl⟩ := follows.exists_index member
    exact otherPort index inUse _ _ samePort

theorem inbound_of_known
    (device : ℕ)
    {index : ℤ}
    (isIndex : index = packet.dstPort - config.startPort)
    (known : index ∈ entries.alloc) :
    ∃ table',
      processInbound config device packet now table =
        (if Replies (present config index (entries.value index)
            (entries.time index)) packet then
          ((entries.value index).internalDevice,
            { packet with
              dstAddr := (entries.value index).srcIp
              dstPort := (entries.value index).srcPort },
            table')
        else (device, packet, table')) ∧
      Follows config build hash now (afterInbound now packet.dstPort flows)
        table' (entries.refresh index now) := by
  have allocated : dchainIsIndexAllocated table.chain index = true := by
    rw [isIndex, follows.isIndexAllocated_iff reach, ← isIndex]
    exact known
  refine ⟨{ table with
    chain := (dchainRejuvenateIndex table.chain index now).2 }, ?_, ?_⟩
  · have samePort := (port_iff fits known packet.dstPort (entries.value index)
      (entries.time index)).mpr isIndex
    simp only [processInbound, flowManagerGetExternal, allocated, ← isIndex,
      Bool.true_eq_false, if_false, follows.coherent.represents.vector_eq]
    by_cases replies : Replies (present config index (entries.value index)
        (entries.time index)) packet
    · have matching : ¬((entries.value index).dstIp ≠ packet.srcAddr ∨
          (entries.value index).dstPort ≠ packet.srcPort ∨
          (entries.value index).protocol ≠ packet.nextProtoId) := by
        have fields := replies.2
        simp only [present] at fields
        simp [fields]
      rw [if_pos replies, if_neg matching]
    · have mismatch : (entries.value index).dstIp ≠ packet.srcAddr ∨
          (entries.value index).dstPort ≠ packet.srcPort ∨
          (entries.value index).protocol ≠ packet.nextProtoId := by
        by_contra matching
        push Not at matching
        exact replies ⟨samePort, matching⟩
      rw [if_neg replies, if_pos mismatch]
  · refine follows.refresh known ?_
    intro other otherInUse time
    refine decide_eq_decide.mpr ?_
    rw [port_iff fits otherInUse, isIndex]

theorem inbound :
    ∃ dstDevice sent table' entries',
      processInbound config config.wanDevice packet now table =
        (dstDevice, sent, table') ∧
      Follows config build hash now (afterInbound now packet.dstPort flows)
        table' entries' ∧
      Answers config flows config.wanDevice packet dstDevice sent := by
  by_cases known : (packet.dstPort - config.startPort : ℤ) ∈ entries.alloc
  · generalize isIndex : (packet.dstPort - config.startPort : ℤ) = index at known
    obtain ⟨table', outcome, follows'⟩ :=
      follows.inbound_of_known fits reach config.wanDevice isIndex.symm known
    have member := (follows.shows _).mpr ⟨index, known, rfl⟩
    have only : ∀ flow ∈ flows, Replies flow packet →
        flow = present config index (entries.value index) (entries.time index) := by
      rintro flow flowMember ⟨samePort, _⟩
      obtain ⟨other, otherInUse, _, rfl⟩ := follows.exists_index flowMember
      have same : other = index := ((port_iff fits otherInUse _ _ _).mp samePort).trans isIndex
      rw [same]
    by_cases replies : Replies (present config index (entries.value index)
        (entries.time index)) packet
    · rw [if_pos replies] at outcome
      refine ⟨_, _, table', _, outcome, follows', fun inside =>
        absurd rfl inside, fun _ _ _ => ⟨?_, ?_, ?_⟩⟩
      · exact iff_of_true (follows.internal index known) ⟨_, member, replies⟩
      · intro flow flowMember flowReplies
        rw [only flow flowMember flowReplies]
        exact ⟨rfl, rfl⟩
      · intro none
        exact absurd replies (none _ member)
    · rw [if_neg replies] at outcome
      have none : ∀ flow ∈ flows, ¬Replies flow packet := by
        intro flow flowMember flowReplies
        exact replies (only flow flowMember flowReplies ▸ flowReplies)
      exact ⟨_, _, table', _, outcome, follows', answers_of_none none⟩
  · obtain ⟨outcome, unchanged, none⟩ :=
      follows.inbound_of_unknown fits reach config.wanDevice known
    exact ⟨_, _, table, entries, outcome, unchanged.symm ▸ follows, answers_of_none none⟩

end

/-! ## Runs -/

theorem nfProcess
    {arrival : Arrival}
    (follows : Follows config build hash arrival.now flows table entries)
    (fits : config.startPort + config.maxFlows ≤ 2 ^ 16)
    (reach : arrival.PortInReach config) :
    ∃ dstDevice sent table' entries',
      (nfProcess config build (.ofHash hash) arrival.device arrival.packet
        arrival.now table).Returns (dstDevice, sent, table') ∧
      Follows config build hash arrival.now
        (afterRecord config flows { arrival with dstDevice := dstDevice, sent := sent })
        table' entries' ∧
      (arrival.packet.Parsed → Answers config (live config arrival.now flows)
        arrival.device arrival.packet dstDevice sent) := by
  obtain ⟨expired, returns, alive⟩ := follows.expire
  by_cases parsed : arrival.packet.Parsed
  · have continues {result}
        (outcome : (if arrival.device = config.wanDevice then
            processInbound config arrival.device arrival.packet arrival.now expired
          else processOutbound config build (.ofHash hash) arrival.device
            arrival.packet arrival.now expired) = result) :
        (Vignat.nfProcess config build (.ofHash hash) arrival.device
          arrival.packet arrival.now table).Returns result := by
      refine returns.bind ?_
      simp only [parsed.1, parsed.2, Bool.true_eq_false, if_false]
      rw [← outcome]
      split_ifs <;> exact Fuelled.returns_pure _
    by_cases outside : arrival.device = config.wanDevice
    · obtain ⟨dstDevice, sent, table', entries', outcome, follows', answers⟩ :=
        alive.inbound fits (reach parsed outside)
      refine ⟨dstDevice, sent, table', entries', continues ?_, ?_, fun _ => ?_⟩
      · rw [if_pos outside, outside]
        exact outcome
      · rw [afterRecord, if_neg (not_not.mpr parsed), if_pos outside]
        exact follows'
      · rw [outside]
        exact answers
    · obtain ⟨dstDevice, sent, table', entries', outcome, follows', answers⟩ :=
        alive.outbound outside arrival.packet
      refine ⟨dstDevice, sent, table', entries', continues ?_, ?_, fun _ => answers⟩
      · rw [if_neg outside]
        exact outcome
      · rw [afterRecord, if_neg (not_not.mpr parsed), if_neg outside]
        exact follows'
  · have onlyExpired : afterRecord config flows
        { arrival with dstDevice := arrival.device, sent := arrival.packet } =
          live config arrival.now flows := if_pos parsed
    rw [← onlyExpired] at alive
    refine ⟨_, _, expired, _, returns.bind ?_, alive, fun isParsed => absurd isParsed parsed⟩
    simp only [Packet.Parsed, not_and, Bool.not_eq_true] at parsed
    split_ifs with noIpv4 noTcpudp
    · exact Fuelled.returns_pure _
    · exact Fuelled.returns_pure _
    · exact absurd (parsed (Bool.eq_true_of_not_eq_false noIpv4)) noTcpudp
    · exact absurd (parsed (Bool.eq_true_of_not_eq_false noIpv4)) noTcpudp

end Follows

theorem RoundTrip.snoc
    (roundTrip : RoundTrip config records)
    (isolated : Isolated config
      (live config last.now (liveFlows config records)))
    (answers : last.packet.Parsed →
      Answers config (live config last.now (liveFlows config records))
        last.device last.packet last.dstDevice last.sent) :
    RoundTrip config (records ++ [last]) := by
  intro before record after split
  rcases Transcript.split_concat split with ⟨rfl, rfl, _⟩ | ⟨rest, earlier, _⟩
  · exact ⟨isolated, answers⟩
  · exact roundTrip before record rest earlier

theorem run_concat
    (config : Config)
    (build : Map.Build)
    (ops : Map.KeyOps FlowId)
    (arrivals : List Arrival)
    (last : Arrival)
    (table : FlowTable FlowId) :
    run config build ops (arrivals ++ [last]) table =
      run config build ops arrivals table >>= fun state =>
        step config build ops state last := by
  simp only [run, List.foldlM_append, List.foldlM_cons, List.foldlM_nil, bind_pure]

theorem run_follows
    {hash : FlowId → ℕ}
    (fits : config.startPort + config.maxFlows ≤ 2 ^ 16)
    (fresh : ∀ now, Follows config build hash now [] table entries)
    (arrivals : List Arrival)
    (ordered : arrivals.Pairwise fun earlier later => earlier.now ≤ later.now)
    (reach : ∀ arrival ∈ arrivals, arrival.PortInReach config) :
    ∃ records final entries,
      (run config build (.ofHash hash) arrivals table).Returns
        (records, final) ∧
      records.map Record.toArrival = arrivals ∧
      RoundTrip config records ∧
      ∀ later, (∀ arrival ∈ arrivals, arrival.now ≤ later) →
        Follows config build hash later (liveFlows config records) final
          entries := by
  induction arrivals using List.reverseRecOn with
  | nil =>
      refine ⟨[], table, entries, Fuelled.returns_pure _, rfl, ?_, fun later _ => fresh later⟩
      intro before record after split
      exact absurd split.symm (by simp)
  | append_singleton arrivals last ih =>
      rw [List.pairwise_append] at ordered
      obtain ⟨records, middle, entries, returns, sameArrivals, roundTrip,
          followsUntil⟩ := ih ordered.1
        (fun arrival member => reach arrival (List.mem_append_left _ member))
      have follows := followsUntil last.now fun arrival member =>
        ordered.2.2 arrival member last List.mem_cons_self
      have member : last ∈ arrivals ++ [last] := by simp
      obtain ⟨dstDevice, sent, final, entries', processed, follows', answers⟩ :=
        follows.nfProcess fits (reach last member)
      refine ⟨records ++ [{ last with dstDevice := dstDevice, sent := sent }],
        final, entries', ?_, ?_, ?_, ?_⟩
      · rw [run_concat]
        exact returns.bind (processed.bind (Fuelled.returns_pure _))
      · rw [List.map_append, sameArrivals]
        rfl
      · obtain ⟨_, _, alive⟩ := follows.expire
        exact roundTrip.snoc (alive.isolated fits) answers
      · intro later isLater
        rw [liveFlows, List.foldl_append]
        exact follows'.mono (isLater last member)

/-- In every run in which the port of each inbound packet belongs to an index,
or to the index before the first one: at each packet no two live flows share a
port; an outbound packet of a live flow leaves with the port of the flow; and an
inbound packet to a port of the range goes back to the origin of the live flow
that it answers, or is dropped when there is none. -/
theorem nat_round_trip_and_isolation
    (config : Config)
    (build : Map.Build)
    (hash : FlowId → ℕ)
    (mapMemory : Map.Arrays (KeyRef FlowId))
    (vector : ℤ → FlowId)
    (chainMemory : DoubleChain)
    {table : FlowTable FlowId}
    (positive : 0 < config.maxFlows)
    (fits : config.startPort + config.maxFlows ≤ 2 ^ 16)
    (allocated : FlowTable.allocate build mapMemory vector chainMemory
      config.maxFlows = some table)
    (arrivals : List Arrival)
    (ordered : arrivals.Pairwise fun earlier later => earlier.now ≤ later.now)
    (reach : ∀ arrival ∈ arrivals, arrival.PortInReach config) :
    ∃ records final,
      (run config build (.ofHash hash) arrivals table).Returns
        (records, final) ∧
      records.map Record.toArrival = arrivals ∧
      RoundTrip config records := by
  obtain ⟨records, final, _, returns, sameArrivals, roundTrip, _⟩ :=
    run_follows fits (Follows.allocate positive (by omega) allocated) arrivals
      ordered reach
  exact ⟨records, final, returns, sameArrivals, roundTrip⟩

/-- An outbound packet to a server and the reply of the server, which goes back
to the device and the port that the first packet came from. -/
theorem nat_round_trip_and_isolation_reply :
    let config : Config := ⟨1, 9, 100, 1000, 2⟩
    let hash : FlowId → ℕ := FlowId.srcIp
    let memory : Map.Arrays (KeyRef FlowId) := ⟨fun _ => 1,
      fun _ => .own ⟨0, 0, 0, 0, 0, 0⟩, fun _ => 0, fun _ => 1, fun _ => 0⟩
    let vector : ℤ → FlowId := fun _ => ⟨0, 0, 0, 0, 0, 0⟩
    let chainMemory : DoubleChain := ⟨fun _ => ⟨0, 0⟩, fun _ => 0⟩
    let table : FlowTable FlowId := ⟨dchainAllocate chainMemory 2,
      ⟨⟨Map.mapImplInit memory 2, 2, 0⟩, vector, []⟩⟩
    let arrivals : List Arrival := [⟨0, 0, ⟨true, true, 10, 20, 6, 1000, 80⟩⟩,
      ⟨1, 1, ⟨true, true, 20, 9, 6, 80, 100⟩⟩]
    FlowTable.allocate .modulo memory vector chainMemory 2 = some table ∧
      ∃ records final,
        (run config .modulo (.ofHash hash) arrivals table).Returns
          (records, final) ∧
        RoundTrip config records ∧
        records.map Record.dstDevice = [1, 0] ∧
        records.map Record.sent =
          [⟨true, true, 9, 20, 6, 100, 80⟩, ⟨true, true, 20, 10, 6, 80, 1000⟩] := by
  intro config hash memory vector chainMemory table arrivals
  refine ⟨rfl, ?_⟩
  obtain ⟨records, final, returns, _, roundTrip⟩ :=
    nat_round_trip_and_isolation config .modulo hash memory vector chainMemory
      (by decide) (by decide) rfl arrivals (by decide)
      (by simp [arrivals, config, Arrival.PortInReach])
  have computed : ((run config .modulo (.ofHash hash) arrivals table).run 9).map
      (fun state => (state.1.map Record.dstDevice, state.1.map Record.sent)) =
        some ([1, 0], [⟨true, true, 9, 20, 6, 100, 80⟩,
          ⟨true, true, 20, 10, 6, 80, 1000⟩]) := by
    decide
  have values := returns.view_eq 9 computed
  exact ⟨records, final, returns, roundTrip, congrArg Prod.fst values,
    congrArg Prod.snd values⟩

/-- The port two below the start port stands for the cell that heads the ring of
flows.  With two flows in the ring an inbound packet to that port takes the head
out of the ring, and the first flow is cut off: the reply to it is dropped. -/
theorem port_below_range_cuts_off_flow :
    let config : Config := ⟨1, 9, 100, 1000, 2⟩
    let hash : FlowId → ℕ := FlowId.srcIp
    let memory : Map.Arrays (KeyRef FlowId) := ⟨fun _ => 1,
      fun _ => .own ⟨0, 0, 0, 0, 0, 0⟩, fun _ => 0, fun _ => 1, fun _ => 0⟩
    let vector : ℤ → FlowId := fun _ => ⟨0, 0, 0, 0, 0, 0⟩
    let chainMemory : DoubleChain := ⟨fun _ => ⟨0, 0⟩, fun _ => 0⟩
    let table : FlowTable FlowId := ⟨dchainAllocate chainMemory 2,
      ⟨⟨Map.mapImplInit memory 2, 2, 0⟩, vector, []⟩⟩
    let first : Packet := ⟨true, true, 10, 20, 6, 1000, 80⟩
    let second : Packet := ⟨true, true, 11, 20, 6, 1000, 80⟩
    let stray : Packet := ⟨true, true, 20, 9, 6, 80, 98⟩
    let reply : Packet := ⟨true, true, 20, 9, 6, 80, 100⟩
    let arrivals : List Arrival :=
      [⟨0, 0, first⟩, ⟨1, 0, second⟩, ⟨2, 1, stray⟩, ⟨3, 1, reply⟩]
    let before : List Record :=
      [⟨⟨0, 0, first⟩, 1, ⟨true, true, 9, 20, 6, 100, 80⟩⟩,
        ⟨⟨1, 0, second⟩, 1, ⟨true, true, 9, 20, 6, 101, 80⟩⟩,
        ⟨⟨2, 1, stray⟩, 1, stray⟩]
    let dropped : Record := ⟨⟨3, 1, reply⟩, 1, reply⟩
    let flow : Flow := ⟨flowId 0 first, 100, 0⟩
    FlowTable.allocate .modulo memory vector chainMemory 2 = some table ∧
      (∃ final, (run config .modulo (.ofHash hash) arrivals table).Returns
        (before ++ [dropped], final)) ∧
      flow ∈ live config 3 (liveFlows config before) ∧
      Replies flow reply ∧
      ¬RoundTrip config (before ++ [dropped]) := by
  intro config hash memory vector chainMemory table first second stray reply
    arrivals before dropped flow
  have computed : ((run config .modulo (.ofHash hash) arrivals table).run 9).map
      Prod.fst = some (before ++ [dropped]) := by
    decide
  have isLive : flow ∈ live config 3 (liveFlows config before) := by decide
  have replies : Replies flow reply := by decide
  obtain ⟨⟨records, final⟩, atFuel, same⟩ := Option.map_eq_some_iff.mp computed
  refine ⟨rfl, ⟨final, 9, ?_⟩, isLive, replies, ?_⟩
  · rw [atFuel, ← same]
  · intro roundTrip
    have answers := (roundTrip before dropped [] rfl).2 (by decide)
    have forwarded := (answers.2 rfl (by decide) (by decide)).1
    exact forwarded.mpr ⟨flow, isLive, replies⟩ rfl

end Vignat
end Vigor
