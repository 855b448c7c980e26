import Vigor.Vignat.RoundTrip

/-!
# The ports that the translator accepts

The index of an inbound port is the port minus the start port, and nothing
checks that it is the index of a flow.  The chain is asked about the cell two
places further.  For the two indexes below zero this is the head of the stack of
free indexes, which never looks allocated, or the head of the ring of flows,
which looks allocated unless there is exactly one flow.  Further out it is
memory that does not belong to the chain.
-/

namespace Vigor
namespace Vignat

open DoubleChain

/-! ## The property and its condition -/

/-- The index that an inbound port stands for. -/
def portIndex
    (config : Config)
    (port : ℕ) : ℤ :=
  port - config.startPort

/-- The port is in the configured range. -/
def PortInRange
    (config : Config)
    (port : ℕ) : Prop :=
  0 ≤ portIndex config port ∧ portIndex config port < config.maxFlows

/-- A port is accepted only if its index is one of a flow, and a port outside
the range is unknown and leaves the chain as it is. -/
structure AcceptsOwnPort
    (config : Config)
    (entries : IndexTable config.maxFlows FlowId)
    (table : FlowTable FlowId)
    (port : ℕ)
    (now : ℤ) : Prop where
  known : (flowManagerGetExternal config port now table).1 ≠ none →
    PortInRange config port ∧ portIndex config port ∈ entries.alloc
  unknown : ¬PortInRange config port →
    (flowManagerGetExternal config port now table).1 = none ∧
      (flowManagerGetExternal config port now table).2.chain = table.chain

/-- What the cell behind a port has to be like: the cell of an index, the head
of the stack, the head of a ring of one flow, or foreign memory that happens to
look like a free cell. -/
def PortHarmless
    (config : Config)
    (chain : DoubleChain)
    (port : ℕ) : Prop :=
  PortInRange config port ∨
    portIndex config port = -1 ∨
    (portIndex config port = -2 ∧
      FlowTable.allocatedCount chain config.maxFlows = 1) ∨
    ((portIndex config port < -2 ∨ config.maxFlows ≤ portIndex config port) ∧
      (chain.cells (portIndex config port + indexShift)).next =
        (chain.cells (portIndex config port + indexShift)).prev ∧
      (chain.cells (portIndex config port + indexShift)).next ≠ allocListHead)

/-- The states of the translator in which no inbound packet has touched a cell
that is not the cell of an index. -/
inductive Reached
    (config : Config)
    (build : Map.Build)
    (ops : Map.KeyOps FlowId) : FlowTable FlowId → Prop
  | fresh
      {mapMemory : Map.Arrays (KeyRef FlowId)}
      {vector : ℤ → FlowId}
      {chainMemory : DoubleChain}
      {table : FlowTable FlowId}
      (allocated : FlowTable.allocate build mapMemory vector chainMemory
        config.maxFlows = some table) :
      Reached config build ops table
  | process
      {table expired table' : FlowTable FlowId}
      {arrival : Arrival}
      {dstDevice : ℕ}
      {sent : Packet}
      (reached : Reached config build ops table)
      (expires : (flowManagerExpire config build ops arrival.now table).Returns
        expired)
      (harmless : arrival.packet.Parsed → arrival.device = config.wanDevice →
        PortHarmless config expired.chain arrival.packet.dstPort)
      (processed : (nfProcess config build ops arrival.device arrival.packet
        arrival.now table).Returns (dstDevice, sent, table')) :
      Reached config build ops table'

/-! ## The test on the index of a port -/

section Coherent

variable
  {config : Config}
  {build : Map.Build}
  {ops : Map.KeyOps FlowId}
  {table : FlowTable FlowId}
  {entries : IndexTable config.maxFlows FlowId}

section

variable (coherent : FlowTable.Coherent build ops table.chain table.keys entries)

include coherent

/-- Outside the range the port looks unknown exactly when it is harmless. -/
theorem isIndexAllocated_eq_false_iff (outside : ¬PortInRange config port) :
    dchainIsIndexAllocated table.chain (portIndex config port) = false ↔
      PortHarmless config table.chain port := by
  have encodes := coherent.tracks.encodes
  rw [PortHarmless, or_iff_right outside, dchainIsIndexAllocated, coherent.allocatedCount_eq]
  rw [PortInRange] at outside
  generalize portIndex config port = index at *
  rcases lt_trichotomy index (-2) with below | ringHead | above
  · rw [or_iff_right (by omega), or_iff_right (by omega),
      and_iff_right (.inl below), dchainImplIsIndexAllocated]
    split_ifs <;> simp_all
  · subst ringHead
    have head := encodes.isIndexAllocated_ringHead
    rw [or_iff_right (by omega), or_iff_left (by omega), and_iff_right rfl,
      Bool.eq_false_iff, ne_eq, head, not_not]
    rfl
  · by_cases stackHead : index = -1
    · subst stackHead
      exact iff_of_true encodes.isIndexAllocated_stackHead (.inl rfl)
    · rw [or_iff_right stackHead, or_iff_right (by omega),
        and_iff_right (.inr (by omega)), dchainImplIsIndexAllocated]
      split_ifs <;> simp_all

theorem acceptsOwnPort_iff
    (port : ℕ)
    (now : ℤ) :
    AcceptsOwnPort config entries table port now ↔
      PortHarmless config table.chain port := by
  by_cases inRange : PortInRange config port
  · refine iff_of_true ⟨?_, fun outside => absurd inRange outside⟩ (.inl inRange)
    intro accepted
    refine ⟨inRange, (coherent.tracks.dchainIsIndexAllocated_iff inRange.1 inRange.2).mp ?_⟩
    refine Bool.eq_true_of_not_eq_false fun free => accepted ?_
    rw [flowManagerGetExternal]
    exact congrArg Prod.fst (if_pos free)
  · rw [← isIndexAllocated_eq_false_iff coherent inRange]
    constructor
    · intro accepts
      by_contra allocated
      have refused := (accepts.unknown inRange).1
      rw [flowManagerGetExternal] at refused
      rw [portIndex] at allocated
      simp [allocated] at refused
    · intro free
      have refused : flowManagerGetExternal config port now table = (none, table) := if_pos free
      rw [portIndex] at free
      refine ⟨fun accepted => absurd (congrArg Prod.fst refused) accepted, fun _ => ?_⟩
      rw [refused]
      exact ⟨rfl, rfl⟩

/-! ## Reached states -/

theorem processInbound_coherent
    (device : ℕ)
    (now : ℤ)
    (harmless : PortHarmless config table.chain packet.dstPort) :
    ∃ entries' : IndexTable config.maxFlows FlowId,
      FlowTable.Coherent build ops
        (processInbound config device packet now table).2.2.chain
        (processInbound config device packet now table).2.2.keys entries' := by
  have accepts := (acceptsOwnPort_iff coherent packet.dstPort now).mpr harmless
  have kept : ∃ entries' : IndexTable config.maxFlows FlowId,
      FlowTable.Coherent build ops
        (flowManagerGetExternal config packet.dstPort now table).2.chain
        (flowManagerGetExternal config packet.dstPort now table).2.keys
        entries' := by
    by_cases free : dchainIsIndexAllocated table.chain (packet.dstPort - config.startPort) = false
    · rw [flowManagerGetExternal, if_pos free]
      exact ⟨entries, coherent⟩
    · have inUse := (accepts.known (by
        rw [flowManagerGetExternal, if_neg free]
        simp)).2
      rw [flowManagerGetExternal, if_neg free]
      exact ⟨_, coherent.refresh inUse now⟩
  have sameTable : (processInbound config device packet now table).2.2 =
      (flowManagerGetExternal config packet.dstPort now table).2 := by
    rw [processInbound]
    split
    · split_ifs <;> simp_all
    · simp_all
  rw [sameTable]
  exact kept

theorem processOutbound_coherent
    (device : ℕ)
    (packet : Packet)
    (now : ℤ) :
    ∃ entries' : IndexTable config.maxFlows FlowId,
      FlowTable.Coherent build ops
        (processOutbound config build ops device packet now table).2.2.chain
        (processOutbound config build ops device packet now table).2.2.keys
        entries' := by
  have kept := (coherent.ensure (flowId device packet) now).2
  rw [processOutbound_eq]
  generalize table.ensure build ops (flowId device packet) now = outcome at kept
  obtain ⟨found, table'⟩ := outcome
  cases found <;> exact ⟨_, kept⟩

theorem flowManagerExpire_coherent (now : ℤ) :
    ∃ expired, (flowManagerExpire config build ops now table).Returns expired ∧
      FlowTable.Coherent build ops expired.chain expired.keys
        (entries.expire (now - config.expirationTime * 1000)) := by
  obtain ⟨expired, returns, kept⟩ := coherent.expireItemsSingleMap
    (now - config.expirationTime * 1000)
  exact ⟨expired, returns.bind (Fuelled.returns_pure _), kept⟩

end

end Coherent

theorem Reached.coherent
    (positive : 0 < config.maxFlows)
    (bounded : config.maxFlows < 2 ^ 31)
    (reached : Reached config build ops table) :
    ∃ entries : IndexTable config.maxFlows FlowId,
      FlowTable.Coherent build ops table.chain table.keys entries := by
  induction reached with
  | fresh allocated => exact ⟨_, FlowTable.Coherent.allocate positive bounded allocated⟩
  | process reached expires harmless processed ih =>
      rename_i before expired after arrival dstDevice sent
      obtain ⟨entries, coherent⟩ := ih
      obtain ⟨expired', expires', kept⟩ :=
        flowManagerExpire_coherent coherent arrival.now
      obtain rfl := expires.unique expires'
      rw [nfProcess] at processed
      obtain ⟨middle, expires'', continued⟩ :=
        Fuelled.returns_bind_iff.mp processed
      obtain rfl := expires.unique expires''
      split_ifs at continued with notIpv4 notTcpudp inbound
      · obtain ⟨_, _, rfl⟩ := Fuelled.returns_pure_iff.mp continued
        exact ⟨_, kept⟩
      · obtain ⟨_, _, rfl⟩ := Fuelled.returns_pure_iff.mp continued
        exact ⟨_, kept⟩
      · have sound := harmless ⟨by simpa using notIpv4, by simpa using notTcpudp⟩ inbound
        have same := Fuelled.returns_pure_iff.mp continued
        have afterwards := processInbound_coherent kept arrival.device arrival.now sound
        rw [same] at afterwards
        exact afterwards
      · have same := Fuelled.returns_pure_iff.mp continued
        have afterwards := processOutbound_coherent kept arrival.device arrival.packet arrival.now
        rw [same] at afterwards
        exact afterwards

/-- In every state that the translator reaches by harmless packets, and so
whenever `flow_manager_get_external` is called after the expiry: the function
accepts a port only if its index is one of a flow, and leaves the chain as it is
for a port outside the range, exactly when the port is harmless. -/
theorem getExternal_accepts_own_ports_iff
    (config : Config)
    (build : Map.Build)
    (ops : Map.KeyOps FlowId)
    (positive : 0 < config.maxFlows)
    (bounded : config.maxFlows < 2 ^ 31)
    {table : FlowTable FlowId}
    (reached : Reached config build ops table)
    (now : ℤ) :
    ∃ (expired : FlowTable FlowId) (entries :
        IndexTable config.maxFlows FlowId),
      (flowManagerExpire config build ops now table).Returns expired ∧
      FlowTable.Coherent build ops expired.chain expired.keys entries ∧
      ∀ port, AcceptsOwnPort config entries expired port now ↔
        PortHarmless config expired.chain port := by
  obtain ⟨entries, coherent⟩ := reached.coherent positive bounded
  obtain ⟨expired, returns, kept⟩ := flowManagerExpire_coherent coherent now
  exact ⟨expired, _, returns, kept, fun port => acceptsOwnPort_iff kept port now⟩

/-- An outbound packet makes a flow with the external port 100.  That port is
accepted, the two ports below it are not, although the lower one has the head of
the ring as its cell. -/
theorem getExternal_accepts_own_ports_one_flow :
    let config : Config := ⟨1, 9, 100, 1000, 2⟩
    let ops : Map.KeyOps FlowId := .ofHash FlowId.srcIp
    let memory : Map.Arrays (KeyRef FlowId) := ⟨fun _ => 1,
      fun _ => .own ⟨0, 0, 0, 0, 0, 0⟩, fun _ => 0, fun _ => 1, fun _ => 0⟩
    let fresh : FlowTable FlowId := ⟨dchainAllocate ⟨fun _ => ⟨0, 0⟩, fun _ => 0⟩ 2,
      ⟨⟨Map.mapImplInit memory 2, 2, 0⟩, fun _ => ⟨0, 0, 0, 0, 0, 0⟩, []⟩⟩
    ∃ (table expired : FlowTable FlowId) (entries : IndexTable 2 FlowId),
      (nfProcess config .modulo ops 0 ⟨true, true, 5, 6, 6, 7, 8⟩ 3 fresh).Returns
        (1, ⟨true, true, 9, 6, 6, 100, 8⟩, table) ∧
      Reached config .modulo ops table ∧
      (flowManagerExpire config .modulo ops 5 table).Returns expired ∧
      FlowTable.Coherent .modulo ops expired.chain expired.keys entries ∧
      (flowManagerGetExternal config 100 5 expired).1 ≠ none ∧
      ∀ port ∈ [98, 99, 100], AcceptsOwnPort config entries expired port 5 := by
  intro config ops memory fresh
  -- The tables hold functions, so only what is observed of them is computed.
  have computed : ((nfProcess config .modulo ops 0 ⟨true, true, 5, 6, 6, 7, 8⟩ 3
      fresh).run 9).bind (fun out =>
        ((flowManagerExpire config .modulo ops 5 out.2.2).run 9).map fun expired =>
          (out.1, out.2.1, (flowManagerGetExternal config 100 5 expired).1,
            FlowTable.allocatedCount expired.chain 2)) =
      some (1, ⟨true, true, 9, 6, 6, 100, 8⟩, some ⟨7, 8, 5, 6, 0, 6⟩, 1) := by
    decide
  obtain ⟨⟨device, packet, table⟩, processed, continued⟩ :=
    Option.bind_eq_some_iff.mp computed
  obtain ⟨expired, atFuel, observed⟩ := Option.map_eq_some_iff.mp continued
  simp only [Prod.mk.injEq] at observed
  obtain ⟨rfl, rfl, accepted, single⟩ := observed
  obtain ⟨cleared, expires⟩ : ∃ cleared,
      (flowManagerExpire config .modulo ops 3 fresh).Returns cleared := ⟨_, 9, rfl⟩
  have reached : Reached config .modulo ops table :=
    @Reached.process config .modulo ops fresh cleared table
      ⟨3, 0, ⟨true, true, 5, 6, 6, 7, 8⟩⟩ 1 _ (.fresh rfl) expires
      (fun _ isWan => absurd isWan (by decide)) ⟨9, processed⟩
  obtain ⟨expired', entries, returns, coherent, accepts⟩ :=
    getExternal_accepts_own_ports_iff config .modulo ops (by decide) (by decide)
      reached 5
  obtain rfl := Fuelled.Returns.unique ⟨9, atFuel⟩ returns
  refine ⟨table, expired, entries, ⟨9, processed⟩, reached, returns, coherent, ?_, ?_⟩
  · rw [accepted]
    exact Option.some_ne_none _
  · intro port listed
    refine (accepts port).mpr ?_
    simp only [List.mem_cons, List.not_mem_nil, or_false] at listed
    rcases listed with rfl | rfl | rfl
    · exact .inr (.inr (.inl ⟨rfl, single⟩))
    · exact .inr (.inl rfl)
    · exact .inl ⟨by decide, by decide⟩

/-- In a fresh table the port two below the start port is accepted: its cell is
the head of an empty ring, both links of which are the head itself. -/
theorem getExternal_accepts_port_below_range :
    let config : Config := ⟨1, 9, 100, 1000, 2⟩
    let ops : Map.KeyOps FlowId := .ofHash FlowId.srcIp
    let memory : Map.Arrays (KeyRef FlowId) := ⟨fun _ => 1,
      fun _ => .own ⟨0, 0, 0, 0, 0, 0⟩, fun _ => 0, fun _ => 1, fun _ => 0⟩
    let table : FlowTable FlowId := ⟨dchainAllocate ⟨fun _ => ⟨0, 0⟩, fun _ => 0⟩ 2,
      ⟨⟨Map.mapImplInit memory 2, 2, 0⟩, fun _ => ⟨0, 0, 0, 0, 0, 0⟩, []⟩⟩
    Reached config .modulo ops table ∧ ¬PortInRange config 98 ∧
      ∃ expired, (flowManagerExpire config .modulo ops 5 table).Returns expired ∧
        (flowManagerGetExternal config 98 5 expired).1 ≠ none ∧
        ∀ entries : IndexTable 2 FlowId,
          ¬AcceptsOwnPort config entries expired 98 5 := by
  intro config ops memory table
  have outside : ¬PortInRange config 98 := by
    simp [PortInRange, portIndex, config]
  have computed : ((flowManagerExpire config .modulo ops 5 table).run 9).map
      (fun expired => (flowManagerGetExternal config 98 5 expired).1) =
        some (some ⟨0, 0, 0, 0, 0, 0⟩) := by
    decide
  obtain ⟨expired, atFuel, accepted⟩ := Option.map_eq_some_iff.mp computed
  refine ⟨.fresh rfl, outside, expired, ⟨9, atFuel⟩, by simp [accepted], ?_⟩
  intro entries accepts
  have unknown := (accepts.unknown outside).1
  rw [accepted] at unknown
  cases unknown

end Vignat
end Vigor
