import Vigor.FlowTable.Current
import Vigor.Viglb.Impl

/-!
# The load balancer on tables of entries

What the load balancer does, without maps, chains and the retry: a table of
flows, each with the index of a backend, and a table of active backends.  The
code is shown to do to its structures what the steps here do to the tables.  In
particular it calls `lb_get_backend` at most twice for a packet.
-/

namespace Vigor
namespace Viglb

open DoubleChain Function

/-- Nanoseconds after which an unused flow expires. -/
def Config.flowLifetime (config : Config) : ℤ :=
  config.flowExpirationTime * 1000

/-- Nanoseconds after which a silent backend expires. -/
def Config.backendLifetime (config : Config) : ℤ :=
  config.backendExpirationTime * 1000

/-- The flows, the indexes of their backends, and the active backends. -/
structure Tables (config : Config) where
  flows : IndexTable config.flowCapacity LoadBalancedFlow
  recorded : ℤ → ℤ
  active : IndexTable config.backendCapacity ℕ
  backends : ℤ → LoadBalancedBackend

namespace Tables

variable {config : Config}

/-- Remove the flows and the backends that are old. -/
def expire
    (now : ℤ)
    (tables : Tables config) : Tables config :=
  { tables with
    flows := tables.flows.expire (now - config.flowLifetime)
    active := tables.active.expire (now - config.backendLifetime) }

/-- Hear from a backend. -/
def heartbeat
    (backend : LoadBalancedBackend)
    (now : ℤ)
    (tables : Tables config) : Tables config :=
  match tables.active.find fun ip => ip = backend.ip with
  | some index => { tables with active := tables.active.refresh index now }
  | none =>
      match tables.active.insert backend.ip now with
      | (some index, active) =>
          { tables with
            active := active
            backends := update tables.backends index backend }
      | (none, _) => tables

/-- Record the backend of a new flow if there is room. -/
def record
    (flow : LoadBalancedFlow)
    (backendIndex now : ℤ)
    (tables : Tables config) : Tables config :=
  match tables.flows.insert flow now with
  | (some index, flows) =>
      { tables with
        flows := flows
        recorded := update tables.recorded index backendIndex }
  | (none, _) => tables

section Cases

variable {tables : Tables config} {backend : LoadBalancedBackend}
  {flow : LoadBalancedFlow} {index backendIndex now : ℤ} {rest : List ℤ}

theorem heartbeat_of_known
    (found : (tables.active.find fun ip => ip = backend.ip) = some index) :
    tables.heartbeat backend now =
      { tables with active := tables.active.refresh index now } := by
  rw [heartbeat, found]

theorem heartbeat_of_full
    (unknown : (tables.active.find fun ip => ip = backend.ip) = none)
    (full : tables.active.allocator.free = []) :
    tables.heartbeat backend now = tables := by
  rw [heartbeat, unknown, IndexTable.insert_of_nil full]

theorem heartbeat_of_room
    (unknown : (tables.active.find fun ip => ip = backend.ip) = none)
    (room : tables.active.allocator.free = index :: rest) :
    tables.heartbeat backend now =
      { tables with
        active := (tables.active.insert backend.ip now).2
        backends := update tables.backends index backend } := by
  rw [heartbeat, unknown, IndexTable.insert_of_cons room]

theorem record_of_full (full : tables.flows.allocator.free = []) :
    tables.record flow backendIndex now = tables := by
  rw [record, IndexTable.insert_of_nil full]

theorem record_of_room (room : tables.flows.allocator.free = index :: rest) :
    tables.record flow backendIndex now =
      { tables with
        flows := (tables.flows.insert flow now).2
        recorded := update tables.recorded index backendIndex } := by
  rw [record, IndexTable.insert_of_cons room]

end Cases

variable (preferred : LoadBalancedFlow → List ℤ)

/-- The active backend that the flow prefers. -/
def choice
    (flow : LoadBalancedFlow)
    (tables : Tables config) : Option ℤ :=
  (preferred flow).find? fun index => index ∈ tables.active.alloc

/-- Choose a backend for a flow that is not in the table. -/
def assignNew
    (flow : LoadBalancedFlow)
    (now : ℤ)
    (tables : Tables config) : Option LoadBalancedBackend × Tables config :=
  match tables.choice preferred flow with
  | some index => (some (tables.backends index), tables.record flow index now)
  | none => (none, tables)

/-- The backend of a flow. -/
def assign
    (flow : LoadBalancedFlow)
    (now : ℤ)
    (tables : Tables config) : Option LoadBalancedBackend × Tables config :=
  match tables.flows.find fun stored => stored = flow with
  | none => tables.assignNew preferred flow now
  | some index =>
      if tables.recorded index ∈ tables.active.alloc then
        (some (tables.backends (tables.recorded index)),
          { tables with flows := tables.flows.refresh index now })
      else
        assignNew preferred flow now
          { tables with flows := tables.flows.remove index }

end Tables

/-- The packet is a heartbeat. -/
def Packet.Heartbeat
    (config : Config)
    (packet : Packet) : Prop :=
  packet.frame.Parsed ∧ packet.device ≠ config.wanDevice

/-- The packet comes from a client. -/
def Packet.Client
    (config : Config)
    (packet : Packet) : Prop :=
  packet.frame.Parsed ∧ packet.device = config.wanDevice

instance (config : Config) (packet : Packet) :
    Decidable (packet.Heartbeat config) :=
  inferInstanceAs (Decidable (_ ∧ _))

instance (config : Config) (packet : Packet) :
    Decidable (packet.Client config) :=
  inferInstanceAs (Decidable (_ ∧ _))

/-- The backend that sent a heartbeat. -/
def Packet.sender (packet : Packet) : LoadBalancedBackend where
  nic := packet.device
  mac := packet.sAddr
  ip := packet.frame.srcAddr

/-- What is done with a packet after the expiry. -/
def Tables.serve
    {config : Config}
    (preferred : LoadBalancedFlow → List ℤ)
    (packet : Packet)
    (tables : Tables config) : Departure × Tables config :=
  if packet.Heartbeat config then
    (unchanged packet packet.device, tables.heartbeat packet.sender packet.now)
  else if packet.Client config then
    let (backend, tables) := tables.assign preferred (flowOf packet) packet.now
    (forward config packet backend, tables)
  else (unchanged packet packet.device, tables)

/-- What is done with a packet. -/
def Tables.step
    {config : Config}
    (preferred : LoadBalancedFlow → List ℤ)
    (packet : Packet)
    (tables : Tables config) : Departure × Tables config :=
  (tables.expire packet.now).serve preferred packet

/-! ## The code and the tables -/

/-- The structures of the load balancer represent the tables. -/
structure State.Represents
    (config : Config)
    (build : Map.Build)
    (flowHash : LoadBalancedFlow → ℕ)
    (ipHash : ℕ → ℕ)
    (preferred : LoadBalancedFlow → List ℤ)
    (now : ℤ)
    (state : State)
    (tables : Tables config) : Prop where
  flows : FlowTable.Current build flowHash now state.flows tables.flows
  active : FlowTable.Current build ipHash now state.active tables.active
  recorded : state.flowIdToBackendId = tables.recorded
  backends : state.backends = tables.backends
  candidates : ∀ flow, Cht.candidates (flowHash flow) state.cht config.chtHeight
    config.backendCapacity = preferred flow
  /-- The consistent hashing table has indexes of backends. -/
  filled : Cht.InRange config.backendCapacity state.cht
  /-- So has every flow. -/
  inRange : ∀ index ∈ tables.flows.alloc,
    0 ≤ tables.recorded index ∧ tables.recorded index < config.backendCapacity
  /-- An active backend is the one with its address, and not behind the WAN
  device. -/
  registered : ∀ index ∈ tables.active.alloc,
    (tables.backends index).ip = tables.active.value index ∧
      (tables.backends index).nic ≠ config.wanDevice

namespace State.Represents

variable
  {config : Config}
  {build : Map.Build}
  {flowHash : LoadBalancedFlow → ℕ}
  {ipHash : ℕ → ℕ}
  {preferred : LoadBalancedFlow → List ℤ}
  {now : ℤ}
  {state : State}
  {tables : Tables config}

section

variable (represents : state.Represents config build flowHash ipHash preferred now tables)

include represents

theorem mono (le : now ≤ later) :
    state.Represents config build flowHash ipHash preferred later tables :=
  { represents with
    flows := represents.flows.mono le
    active := represents.active.mono le }

theorem expireAll :
    ∃ state', (expireAll config build (.ofHash flowHash) (.ofHash ipHash) now
        state).Returns state' ∧
      state'.Represents config build flowHash ipHash preferred now
        (tables.expire now) := by
  obtain ⟨flows', flowsReturn, flowsCurrent⟩ :=
    represents.flows.expireItemsSingleMap (now - config.flowLifetime)
  obtain ⟨active', activeReturn, activeCurrent⟩ :=
    represents.active.expireItemsSingleMap (now - config.backendLifetime)
  have flowsExpire : (lbExpireFlows config build (.ofHash flowHash) now
      state).Returns { state with flows := flows' } :=
    flowsReturn.bind (Fuelled.returns_pure _)
  have activeExpire : (lbExpireBackends config build (.ofHash ipHash) now
      { state with flows := flows' }).Returns { state with flows := flows', active := active' } :=
    activeReturn.bind (Fuelled.returns_pure _)
  refine ⟨_, flowsExpire.bind activeExpire, ?_⟩
  refine
    { represents with
      flows := flowsCurrent
      active := activeCurrent
      inRange := fun index inUse => represents.inRange index
        (represents.flows.sorted.mem_expire.mp inUse).1
      registered := fun index inUse => ?_ }
  have before := represents.registered index (represents.active.sorted.mem_expire.mp inUse).1
  rw [Tables.expire, IndexTable.expire_value]
  exact before

theorem lbProcessHeartbit
    (flow : LoadBalancedFlow)
    (macAddr : ℕ)
    (internal : nic ≠ config.wanDevice) :
    (lbProcessHeartbit build (.ofHash ipHash) flow macAddr nic now
      state).Represents config build flowHash ipHash preferred now
      (tables.heartbeat { nic := nic, mac := macAddr, ip := flow.srcIp }
        now) := by
  have search := represents.active.get_eq_find flow.srcIp
  unfold Viglb.lbProcessHeartbit
  rw [FlowTable.lookup, search]
  cases found : tables.active.find fun ip => ip = flow.srcIp with
  | some index =>
      have inUse := (IndexTable.find_eq_some found).1
      rw [Tables.heartbeat_of_known found]
      exact
        { represents with
          active := represents.active.refresh inUse
          registered := fun other otherInUse => represents.registered other
            ((IndexTable.mem_alloc_refresh inUse).mp otherInUse) }
  | none =>
      cases room : tables.active.allocator.free with
      | nil =>
          rw [Tables.heartbeat_of_full found room]
          dsimp only
          rw [represents.active.allocateFlow_of_full room]
          exact represents
      | cons index rest =>
          obtain ⟨active', allocated, current⟩ :=
            represents.active.allocateFlow_of_available (search.trans found) room
          rw [Tables.heartbeat_of_room found room]
          dsimp only
          rw [allocated]
          refine
            { represents with
              active := current
              backends := by rw [represents.backends]
              registered := fun other otherInUse => ?_ }
          rw [IndexTable.mem_alloc_insert room] at otherInUse
          dsimp only
          rw [IndexTable.value_insert room]
          by_cases same : other = index
          · rw [same, update_self, update_self]
            exact ⟨rfl, internal⟩
          · rw [update_of_ne same, update_of_ne same]
            exact represents.registered other (otherInUse.resolve_right same)

theorem chtFind_eq (flow : LoadBalancedFlow) :
    Cht.chtFindPreferredAvailableBackend (flowHash flow) state.cht
        state.active.chain config.chtHeight config.backendCapacity =
      tables.choice preferred flow := by
  rw [Tables.choice, ← represents.candidates flow]
  exact represents.filled.chtFind_eq represents.active.coherent.tracks _ _

end

theorem choice_mem (chosen : tables.choice preferred flow = some index) :
    index ∈ tables.active.alloc := by
  simpa using List.find?_some chosen

section

variable (represents : state.Represents config build flowHash ipHash preferred now tables)

include represents

theorem isIndexAllocated_iff (inUse : index ∈ tables.flows.alloc) :
    dchainIsIndexAllocated state.active.chain (state.flowIdToBackendId index) =
        true ↔
      tables.recorded index ∈ tables.active.alloc := by
  obtain ⟨nonnegative, bounded⟩ := represents.inRange index inUse
  rw [represents.recorded]
  exact represents.active.coherent.tracks.dchainIsIndexAllocated_iff nonnegative bounded

variable {flow : LoadBalancedFlow}

theorem record
    (absent : state.flows.keys.get build (.ofHash flowHash) (.own flow) = none)
    (chosen : backendIndex ∈ tables.active.alloc) :
    ∃ index? flows',
          state.flows.allocateFlow build (.ofHash flowHash) flow now =
        (index?, flows') ∧
      State.Represents config build flowHash ipHash preferred now
        { state with
          flows := flows'
          flowIdToBackendId := match index? with
            | some index => update state.flowIdToBackendId index backendIndex
            | none => state.flowIdToBackendId }
        (tables.record flow backendIndex now) := by
  cases room : tables.flows.allocator.free with
  | nil =>
      rw [Tables.record_of_full room]
      exact ⟨none, _, represents.flows.allocateFlow_of_full room flow, represents⟩
  | cons index rest =>
      obtain ⟨flows', allocated, current⟩ :=
        represents.flows.allocateFlow_of_available absent room
      rw [Tables.record_of_room room]
      refine ⟨some index, flows', allocated,
        { represents with
          flows := current
          recorded := by rw [represents.recorded]
          inRange := fun other otherInUse => ?_ }⟩
      rw [IndexTable.mem_alloc_insert room] at otherInUse
      dsimp only
      by_cases same : other = index
      · rw [same, update_self]
        exact tables.active.allocator.inRange_of_mem_alloc chosen
      · rw [update_of_ne same]
        exact represents.inRange other (otherInUse.resolve_right same)

theorem body_of_absent
    (absent : state.flows.keys.get build (.ofHash flowHash)
      (.own flow) = none) :
    ∃ state', lbGetBackendBody config build (.ofHash flowHash) flow now state =
        .done ((tables.assignNew preferred flow now).1, state') ∧
      state'.Represents config build flowHash ipHash preferred now
        (tables.assignNew preferred flow now).2 := by
  have selected : Cht.chtFindPreferredAvailableBackend
      ((Map.KeyOps.ofHash flowHash).hash flow) state.cht state.active.chain
      config.chtHeight config.backendCapacity = tables.choice preferred flow :=
    represents.chtFind_eq flow
  unfold lbGetBackendBody Tables.assignNew
  rw [absent]
  dsimp only
  rw [selected]
  cases chosen : tables.choice preferred flow with
  | none => exact ⟨state, rfl, represents⟩
  | some backendIndex =>
      obtain ⟨index?, flows', allocated, recorded⟩ :=
        represents.record absent (choice_mem chosen)
      have answer : state.backends backendIndex = tables.backends backendIndex := by
        rw [represents.backends]
      dsimp only
      rw [allocated, answer]
      cases index? with
      | none => exact ⟨_, rfl, recorded⟩
      | some index => exact ⟨_, rfl, recorded⟩

section

variable (found : state.flows.keys.get build (.ofHash flowHash) (.own flow) = some index)

include found

theorem body_of_alive
    (alive : tables.recorded index ∈ tables.active.alloc) :
    ∃ state', lbGetBackendBody config build (.ofHash flowHash) flow now state =
        .done (some (tables.backends (tables.recorded index)), state') ∧
      state'.Represents config build flowHash ipHash preferred now
        { tables with flows := tables.flows.refresh index now } := by
  have inUse := (represents.flows.get_eq_some_iff.mp found).1
  have allocated := (represents.isIndexAllocated_iff inUse).mpr alive
  have answer : state.backends (state.flowIdToBackendId index) =
      tables.backends (tables.recorded index) := by
    rw [represents.backends, represents.recorded]
  unfold lbGetBackendBody
  rw [found]
  dsimp only
  rw [if_neg (by simp [allocated]), answer]
  exact ⟨_, rfl,
    { represents with
      flows := represents.flows.refresh inUse
      inRange := fun other otherInUse => represents.inRange other
        ((IndexTable.mem_alloc_refresh inUse).mp otherInUse) }⟩

theorem body_of_dead
    (dead : tables.recorded index ∉ tables.active.alloc) :
    ∃ state', lbGetBackendBody config build (.ofHash flowHash) flow now state =
        .next state' ∧
      state'.Represents config build flowHash ipHash preferred now
        { tables with flows := tables.flows.remove index } ∧
      state'.flows.keys.get build (.ofHash flowHash) (.own flow) = none := by
  obtain ⟨inUse, isFlow⟩ := represents.flows.get_eq_some_iff.mp found
  have notAllocated : dchainIsIndexAllocated state.active.chain
      (state.flowIdToBackendId index) = false := by
    rw [Bool.eq_false_iff]
    exact fun allocated => dead ((represents.isIndexAllocated_iff inUse).mp allocated)
  have removed := represents.flows.remove found
  unfold lbGetBackendBody
  rw [found]
  dsimp only
  rw [if_pos notAllocated]
  refine ⟨_, rfl,
    { represents with
      flows := removed
      inRange := fun other otherInUse => represents.inRange other
        ((IndexTable.mem_alloc_remove inUse).mp otherInUse).2 }, ?_⟩
  refine removed.get_eq_none_iff.mpr fun other otherInUse sameFlow => ?_
  obtain ⟨different, otherBefore⟩ := (IndexTable.mem_alloc_remove inUse).mp otherInUse
  exact different (represents.flows.index_unique otherBefore inUse (sameFlow.trans isFlow.symm))

end

theorem body_of_next
    (calls : lbGetBackendBody config build (.ofHash flowHash) flow now state =
      .next retried) :
    ∃ answer,
      lbGetBackendBody config build (.ofHash flowHash) flow now retried =
        .done answer := by
  cases found : state.flows.keys.get build (.ofHash flowHash) (.own flow) with
  | none =>
      obtain ⟨_, answered, _⟩ := represents.body_of_absent found
      rw [answered] at calls
      cases calls
  | some index =>
      by_cases alive : tables.recorded index ∈ tables.active.alloc
      · obtain ⟨_, answered, _⟩ := represents.body_of_alive found alive
        rw [answered] at calls
        cases calls
      · obtain ⟨state', again, represents', absent⟩ :=
          represents.body_of_dead found alive
        obtain rfl := Fuelled.Round.next.inj (again.symm.trans calls)
        obtain ⟨_, answered, _⟩ := represents'.body_of_absent absent
        exact ⟨_, answered⟩

theorem lbGetBackend (flow : LoadBalancedFlow) :
    ∃ state',
      (lbGetBackend config build (.ofHash flowHash) flow now state).Returns
        ((tables.assign preferred flow now).1, state') ∧
      state'.Represents config build flowHash ipHash preferred now
        (tables.assign preferred flow now).2 := by
  have search := represents.flows.get_eq_find flow
  unfold Viglb.lbGetBackend Tables.assign
  rw [← search]
  cases found : state.flows.keys.get build (.ofHash flowHash) (.own flow) with
  | none =>
      obtain ⟨state', answered, represents'⟩ := represents.body_of_absent found
      exact ⟨state', Fuelled.loop_returns_of_done
        (Fuelled.returns_pure_iff.mpr answered), represents'⟩
  | some index =>
      dsimp only
      by_cases alive : tables.recorded index ∈ tables.active.alloc
      · obtain ⟨state', answered, represents'⟩ := represents.body_of_alive found alive
        rw [if_pos alive]
        exact ⟨state', Fuelled.loop_returns_of_done
          (Fuelled.returns_pure_iff.mpr answered), represents'⟩
      · obtain ⟨retried, again, removed, absent⟩ := represents.body_of_dead found alive
        obtain ⟨state', answered, represents'⟩ := removed.body_of_absent absent
        rw [if_neg alive]
        exact ⟨state', Fuelled.loop_returns_of_next
          (Fuelled.returns_pure_iff.mpr again) (Fuelled.loop_returns_of_done
            (Fuelled.returns_pure_iff.mpr answered)), represents'⟩

end

theorem nfProcess_eq
    (flowOps : Map.KeyOps LoadBalancedFlow)
    (ipOps : Map.KeyOps ℕ)
    (packet : Packet)
    (state : State) :
    nfProcess config build flowOps ipOps packet state =
      Viglb.expireAll config build flowOps ipOps packet.now state >>=
        fun state => if packet.Heartbeat config then
          pure (unchanged packet packet.device,
            Viglb.lbProcessHeartbit build ipOps (flowOf packet) packet.sAddr
              packet.device packet.now state)
        else if packet.Client config then
          Viglb.lbGetBackend config build flowOps (flowOf packet) packet.now
            state >>= fun (backend, state) =>
              pure (forward config packet backend, state)
        else pure (unchanged packet packet.device, state) := by
  rw [nfProcess]
  congr 1
  funext state
  by_cases ipv4 : packet.frame.isIpv4 = true <;>
    by_cases tcpudp : packet.frame.isTcpudp = true <;>
    by_cases fromWan : packet.device = config.wanDevice <;>
    simp [Packet.Heartbeat, Packet.Client, Frame.Parsed, ipv4, tcpudp, fromWan]

theorem nfProcess
    (represents : state.Represents config build flowHash ipHash preferred
      packet.now tables) :
    ∃ state', (nfProcess config build (.ofHash flowHash) (.ofHash ipHash) packet
        state).Returns ((tables.step preferred packet).1, state') ∧
      state'.Represents config build flowHash ipHash preferred packet.now
        (tables.step preferred packet).2 := by
  obtain ⟨expired, expires, represents⟩ := represents.expireAll
  rw [nfProcess_eq, Tables.step, Tables.serve]
  split_ifs with heartbeat client
  · exact ⟨_, expires.bind (Fuelled.returns_pure _),
      represents.lbProcessHeartbit (flowOf packet) packet.sAddr heartbeat.2⟩
  · obtain ⟨state', answers, represents'⟩ := represents.lbGetBackend (flowOf packet)
    exact ⟨state', expires.bind (answers.bind (Fuelled.returns_pure _)), represents'⟩
  · exact ⟨expired, expires.bind (Fuelled.returns_pure _), represents⟩

variable (flowHash ipHash) in
theorem fresh
    {flowIdToBackendId : ℤ → ℤ}
    {backends : ℤ → LoadBalancedBackend}
    (flowsPositive : 0 < config.flowCapacity)
    (flowsBounded : config.flowCapacity < 2 ^ 31)
    (backendsPositive : 0 < config.backendCapacity)
    (backendsBounded : config.backendCapacity < 2 ^ 31)
    (allocated : allocState build flowMemory flowHeap flowChain
      flowIdToBackendId ipMemory backendIps activeBackends backends config =
        some state) :
    ∃ tables : Tables config, tables.active.alloc = [] ∧
      ∀ now, state.Represents config build flowHash ipHash
        (fun flow => Cht.candidates (flowHash flow) state.cht config.chtHeight
          config.backendCapacity) now tables := by
  rw [allocState, Option.bind_eq_bind, Option.bind_eq_some_iff] at allocated
  obtain ⟨flows, flowsBuilt, allocated⟩ := allocated
  rw [Option.bind_eq_bind, Option.bind_eq_some_iff] at allocated
  obtain ⟨active, activeBuilt, isState⟩ := allocated
  obtain rfl := Option.some.inj isState
  refine ⟨{ flows := .initial _ flowHeap flowChain.timestamps
            recorded := flowIdToBackendId
            active := .initial _ backendIps activeBackends.timestamps
            backends := backends }, rfl, fun now => ?_⟩
  exact
    { flows := .allocate flowsPositive flowsBounded flowsBuilt now
      active := .allocate backendsPositive backendsBounded activeBuilt now
      recorded := rfl
      backends := rfl
      candidates := fun _ => rfl
      filled := Cht.InRange.chtFillCht (fun _ => backendsPositive) _
      inRange := fun _ member => absurd member List.not_mem_nil
      registered := fun _ member => absurd member List.not_mem_nil }

theorem run
    (fresh : ∀ now,
      state.Represents config build flowHash ipHash preferred now tables)
    (ordered : packets.Pairwise fun earlier later => earlier.now ≤ later.now) :
    ∃ current, (run config build (.ofHash flowHash) (.ofHash ipHash) packets
        state).Returns
          ((Transcript.run (Tables.step preferred) packets tables).1, current) ∧
      ∀ later, (∀ packet ∈ packets, packet.now ≤ later) →
        current.Represents config build flowHash ipHash preferred later
          (Transcript.run (Tables.step preferred) packets tables).2 := by
  obtain ⟨current, returns, reached⟩ := Fuelled.transcript_reaches
    (fun packet : Packet => packet.now)
    (State.Represents config build flowHash ipHash preferred)
    (fun le represents => represents.mono le)
    (fun _ _ _ represents (_ : True) => represents.nfProcess) ordered
    (fun packet _ => fresh packet.now)
    (Transcript.permitted_of_forall (fun _ _ _ => trivial) _)
  exact ⟨current, returns, fun later => reached later (fresh later)⟩

end State.Represents

end Viglb
end Vigor
