import Vigor.Viglb.Tables

/-!
# Stickiness of the load balancer

A backend that the load balancer answers with has been heard from within the
expiration time, and a flow stays with its backend while both are in their
tables. The two tables are linked only by indexes: an entry of a flow has the
index of a backend.  The link stays valid because no index moves while its entry
is in use.
-/

namespace Vigor
namespace Viglb

open Function

/-- The packets have a heartbeat of the backend within the expiration time. -/
def HeardWithin
    (config : Config)
    (ip : ℕ)
    (now : ℤ)
    (packets : List Packet) : Prop :=
  ∃ beat ∈ packets, beat.Heartbeat config ∧ beat.frame.srcAddr = ip ∧
    now - config.backendLifetime ≤ beat.now

/-- The flow has an entry, with the index under which the backend is
registered. -/
def State.Recorded
    (build : Map.Build)
    (flowOps : Map.KeyOps LoadBalancedFlow)
    (ipOps : Map.KeyOps ℕ)
    (flow : LoadBalancedFlow)
    (ip : ℕ)
    (state : State) : Prop :=
  ∃ index, state.flows.keys.get build flowOps (.own flow) = some index ∧
    state.active.keys.get build ipOps (.own ip) =
      some (state.flowIdToBackendId index)

/-- While the packets are processed, neither the entry of the flow nor the
backend expires. -/
def Unexpired
    (config : Config)
    (build : Map.Build)
    (flowOps : Map.KeyOps LoadBalancedFlow)
    (ipOps : Map.KeyOps ℕ)
    (flow : LoadBalancedFlow)
    (ip : ℕ) : List Packet → State → Prop
  | [], _ => True
  | packet :: packets, state =>
      ∃ expired departure following,
        (expireAll config build flowOps ipOps packet.now state).Returns expired ∧
        expired.flows.keys.get build flowOps (.own flow) ≠ none ∧
        expired.active.keys.get build ipOps (.own ip) ≠ none ∧
        (nfProcess config build flowOps ipOps packet state).Returns
          (departure, following) ∧
        Unexpired config build flowOps ipOps flow ip packets following

/-- The packet goes to the backend. -/
def Departure.SentTo
    (config : Config)
    (ip : ℕ)
    (departure : Departure) : Prop :=
  departure.device ≠ config.wanDevice ∧ departure.dstAddr = ip

/-! ## Answers are active backends -/

namespace Tables

variable {config : Config} {preferred : LoadBalancedFlow → List ℤ}
  {tables : Tables config}

theorem record_backends
    (flow : LoadBalancedFlow)
    (backendIndex now : ℤ) :
    (tables.record flow backendIndex now).active = tables.active ∧
      (tables.record flow backendIndex now).backends = tables.backends := by
  cases room : tables.flows.allocator.free with
  | nil => rw [record_of_full room]; exact ⟨rfl, rfl⟩
  | cons index rest => rw [record_of_room room]; exact ⟨rfl, rfl⟩

theorem active_assignNew
    (flow : LoadBalancedFlow)
    (now : ℤ) :
    (tables.assignNew preferred flow now).2.active = tables.active := by
  rw [assignNew]
  cases tables.choice preferred flow with
  | none => rfl
  | some index => exact (record_backends flow index now).1

theorem active_assign
    (flow : LoadBalancedFlow)
    (now : ℤ) :
    (tables.assign preferred flow now).2.active = tables.active := by
  rw [assign]
  cases tables.flows.find fun stored => stored = flow with
  | none => exact active_assignNew flow now
  | some index =>
      dsimp only
      split
      · rfl
      · exact active_assignNew flow now

theorem mem_of_assignNew
    (assigned : (tables.assignNew preferred flow now).1 = some backend) :
    ∃ index ∈ tables.active.alloc, tables.backends index = backend := by
  rw [assignNew] at assigned
  cases chosen : tables.choice preferred flow with
  | none =>
      rw [chosen] at assigned
      cases assigned
  | some index =>
      rw [chosen] at assigned
      exact ⟨index, State.Represents.choice_mem chosen, Option.some.inj assigned⟩

theorem mem_of_assign
    (assigned : (tables.assign preferred flow now).1 = some backend) :
    ∃ index ∈ tables.active.alloc, tables.backends index = backend := by
  rw [assign] at assigned
  cases found : tables.flows.find fun stored => stored = flow with
  | none =>
      rw [found] at assigned
      exact mem_of_assignNew assigned
  | some index =>
      rw [found] at assigned
      dsimp only at assigned
      split at assigned
      · next alive => exact ⟨_, alive, Option.some.inj assigned⟩
      · obtain ⟨other, inUse, isBackend⟩ := mem_of_assignNew assigned
        exact ⟨other, inUse, isBackend⟩

/-- Every active backend was last heard from at the time of its entry. -/
def Heard
    (packets : List Packet)
    (tables : Tables config) : Prop :=
  ∀ index ∈ tables.active.alloc, ∃ beat ∈ packets, beat.Heartbeat config ∧
    beat.frame.srcAddr = tables.active.value index ∧
    beat.now = tables.active.time index

theorem Heard.of_subset
    (heard : tables.Heard packets)
    (subset : packets ⊆ more) :
    tables.Heard more := by
  intro index inUse
  obtain ⟨beat, member, isBeat⟩ := heard index inUse
  exact ⟨beat, subset member, isBeat⟩

variable {packets : List Packet}

theorem Heard.expire
    (heard : tables.Heard packets)
    (now : ℤ) :
    (tables.expire now).Heard packets := by
  intro index inUse
  simp only [Tables.expire, IndexTable.expire_value, IndexTable.expire_time]
  exact heard index (IndexTable.mem_of_mem_expire inUse)

/-- A heartbeat sets the time of its backend. -/
theorem Heard.heartbeat
    (heard : tables.Heard packets)
    (isBeat : beat.Heartbeat config) :
    (tables.heartbeat beat.sender beat.now).Heard (packets ++ [beat]) := by
  have heard := heard.of_subset (List.subset_append_left packets [beat])
  have isLast : beat ∈ packets ++ [beat] := by simp
  cases found : tables.active.find fun ip => ip = beat.sender.ip with
  | some index =>
      obtain ⟨inUse, isIp⟩ := IndexTable.find_eq_some found
      rw [heartbeat_of_known found]
      intro other otherInUse
      rw [IndexTable.mem_alloc_refresh inUse] at otherInUse
      dsimp only [IndexTable.refresh]
      by_cases same : other = index
      · rw [same, update_self]
        exact ⟨beat, isLast, isBeat, (of_decide_eq_true isIp).symm, rfl⟩
      · rw [update_of_ne same]
        exact heard other otherInUse
  | none =>
      cases room : tables.active.allocator.free with
      | nil =>
          rw [heartbeat_of_full found room]
          exact heard
      | cons index rest =>
          rw [heartbeat_of_room found room]
          intro other otherInUse
          rw [IndexTable.mem_alloc_insert room] at otherInUse
          dsimp only
          rw [IndexTable.value_insert room, IndexTable.time_insert room]
          by_cases same : other = index
          · rw [same, update_self, update_self]
            exact ⟨beat, isLast, isBeat, rfl, rfl⟩
          · rw [update_of_ne same, update_of_ne same]
            exact heard other (otherInUse.resolve_right same)

theorem Heard.step
    (heard : tables.Heard packets)
    (packet : Packet) :
    (tables.step preferred packet).2.Heard (packets ++ [packet]) := by
  have expired := heard.expire packet.now
  have kept := expired.of_subset (List.subset_append_left packets [packet])
  rw [Tables.step, serve]
  split_ifs with isBeat
  · exact expired.heartbeat isBeat
  · intro index inUse
    dsimp only at inUse ⊢
    rw [active_assign] at inUse ⊢
    exact kept index inUse
  · exact kept

theorem heard_run
    (empty : tables.active.alloc = [])
    (packets : List Packet) :
    (Transcript.run (Tables.step preferred) packets tables).2.Heard
      packets := by
  induction packets using List.reverseRecOn with
  | nil =>
      intro index inUse
      rw [Transcript.run_nil, empty] at inUse
      cases inUse
  | append_singleton packets packet ih =>
      rw [Transcript.run_append]
      exact ih.step packet

/-! ## Flows stay with their backends -/

/-- The entry of the flow has the index of the backend, which is active. -/
structure Sticks
    (flow : LoadBalancedFlow)
    (ip : ℕ)
    (index : ℤ)
    (tables : Tables config) : Prop where
  inUse : index ∈ tables.flows.alloc
  isFlow : tables.flows.value index = flow
  alive : tables.recorded index ∈ tables.active.alloc
  isBackend : tables.active.value (tables.recorded index) = ip

namespace Sticks

variable {flow : LoadBalancedFlow} {ip : ℕ} {index : ℤ}

section

variable (sticks : tables.Sticks flow ip index)

include sticks

theorem heartbeat
    (backend : LoadBalancedBackend)
    (now : ℤ) :
    (tables.heartbeat backend now).Sticks flow ip index := by
  cases found : tables.active.find fun ip => ip = backend.ip with
  | some known =>
      rw [heartbeat_of_known found]
      exact
        { sticks with
          alive := (IndexTable.mem_alloc_refresh
            (IndexTable.find_eq_some found).1).mpr sticks.alive }
  | none =>
      cases room : tables.active.allocator.free with
      | nil =>
          rw [heartbeat_of_full found room]
          exact sticks
      | cons new rest =>
          have different := IndexTable.ne_of_available room sticks.alive
          rw [heartbeat_of_room found room]
          refine
            { sticks with
              alive := (IndexTable.mem_alloc_insert room _ _).mpr (.inl sticks.alive)
              isBackend := ?_ }
          dsimp only
          rw [IndexTable.value_insert room, update_of_ne different]
          exact sticks.isBackend

theorem assignNew
    (other : LoadBalancedFlow)
    (now : ℤ) :
    (tables.assignNew preferred other now).2.Sticks flow ip index := by
  rw [Tables.assignNew]
  cases tables.choice preferred other with
  | none => exact sticks
  | some backendIndex =>
      dsimp only
      cases room : tables.flows.allocator.free with
      | nil =>
          rw [record_of_full room]
          exact sticks
      | cons new rest =>
          have different := IndexTable.ne_of_available room sticks.inUse
          rw [record_of_room room]
          refine ⟨(IndexTable.mem_alloc_insert room _ _).mpr
            (.inl sticks.inUse), ?_, ?_, ?_⟩ <;> dsimp only
          · rw [IndexTable.value_insert room, update_of_ne different]
            exact sticks.isFlow
          · rw [update_of_ne different]
            exact sticks.alive
          · rw [update_of_ne different]
            exact sticks.isBackend

theorem assign
    (other : LoadBalancedFlow)
    (now : ℤ) :
    (tables.assign preferred other now).2.Sticks flow ip index := by
  rw [Tables.assign]
  cases found : tables.flows.find fun stored => stored = other with
  | none => exact sticks.assignNew other now
  | some known =>
      have knownInUse := (IndexTable.find_eq_some found).1
      dsimp only
      split_ifs with alive
      · exact
          { sticks with
            inUse := (IndexTable.mem_alloc_refresh knownInUse).mpr sticks.inUse }
      · have different : index ≠ known := by
          rintro rfl
          exact alive sticks.alive
        have removed : Sticks flow ip index
            { tables with flows := tables.flows.remove known } :=
          { sticks with
            inUse := (IndexTable.mem_alloc_remove knownInUse).mpr ⟨different, sticks.inUse⟩ }
        exact removed.assignNew other now

theorem serve (packet : Packet) :
    (tables.serve preferred packet).2.Sticks flow ip index := by
  rw [Tables.serve]
  split_ifs
  · exact sticks.heartbeat packet.sender packet.now
  · exact sticks.assign (flowOf packet) packet.now
  · exact sticks

end

end Sticks

end Tables

namespace State.Represents

variable
  {config : Config}
  {build : Map.Build}
  {flowHash : LoadBalancedFlow → ℕ}
  {ipHash : ℕ → ℕ}
  {preferred : LoadBalancedFlow → List ℤ}
  {now : ℤ}
  {state : State}
  {tables : Tables config}
  {flow : LoadBalancedFlow}
  {ip : ℕ}

section

variable (represents : state.Represents config build flowHash ipHash preferred now tables)

include represents

theorem recorded_iff :
    state.Recorded build (.ofHash flowHash) (.ofHash ipHash) flow ip ↔
      ∃ index, tables.Sticks flow ip index := by
  simp only [Recorded, represents.flows.get_eq_some_iff,
    represents.active.get_eq_some_iff, represents.recorded]
  constructor
  · rintro ⟨index, ⟨inUse, isFlow⟩, alive, isBackend⟩
    exact ⟨index, inUse, isFlow, alive, isBackend⟩
  · rintro ⟨index, inUse, isFlow, alive, isBackend⟩
    exact ⟨index, ⟨inUse, isFlow⟩, alive, isBackend⟩

theorem sticks_expire
    (sticks : tables.Sticks flow ip index)
    {expired : State}
    (after : expired.Represents config build flowHash ipHash preferred now
      (tables.expire now))
    (flowFound : expired.flows.keys.get build (.ofHash flowHash)
      (.own flow) ≠ none)
    (ipFound : expired.active.keys.get build (.ofHash ipHash)
      (.own ip) ≠ none) :
    (tables.expire now).Sticks flow ip index := by
  obtain ⟨flowIndex, flowAt⟩ := Option.ne_none_iff_exists'.mp flowFound
  obtain ⟨flowInUse, isFlow⟩ := after.flows.get_eq_some_iff.mp flowAt
  obtain ⟨ipIndex, ipAt⟩ := Option.ne_none_iff_exists'.mp ipFound
  obtain ⟨ipInUse, isIp⟩ := after.active.get_eq_some_iff.mp ipAt
  simp only [Tables.expire, IndexTable.expire_value] at isFlow isIp
  have sameFlow : flowIndex = index := represents.flows.index_unique
    (IndexTable.mem_of_mem_expire flowInUse) sticks.inUse
    (isFlow.trans sticks.isFlow.symm)
  have sameIp : ipIndex = tables.recorded index := represents.active.index_unique
    (IndexTable.mem_of_mem_expire ipInUse) sticks.alive
    (isIp.trans sticks.isBackend.symm)
  refine ⟨sameFlow ▸ flowInUse, ?_, sameIp ▸ ipInUse, ?_⟩ <;>
    simp only [Tables.expire, IndexTable.expire_value]
  · exact sticks.isFlow
  · exact sticks.isBackend

theorem sentTo_of_sticks
    (sticks : tables.Sticks flow ip index)
    (client : packet.Client config)
    (sameFlow : flowOf packet = flow) :
    (tables.serve preferred packet).1.SentTo config ip := by
  have found : (tables.flows.find fun stored => stored = flow) = some index := by
    rw [← represents.flows.get_eq_find]
    exact represents.flows.get_eq_some_iff.mpr ⟨sticks.inUse, sticks.isFlow⟩
  have notBeat : ¬packet.Heartbeat config := fun beat => beat.2 client.2
  obtain ⟨isIp, internal⟩ := represents.registered _ sticks.alive
  rw [Tables.serve, if_neg notBeat, if_pos client, sameFlow, Tables.assign, found]
  dsimp only
  rw [if_pos sticks.alive]
  dsimp only [forward]
  rw [if_pos internal]
  exact ⟨internal, isIp.trans sticks.isBackend⟩

end

theorem run_of_unexpired
    (sticks : tables.Sticks flow ip index)
    {later : List Packet}
    (ordered : later.Pairwise fun earlier later => earlier.now ≤ later.now)
    (represents : ∀ packet ∈ later,
      state.Represents config build flowHash ipHash preferred packet.now tables)
    (unexpired : Unexpired config build (.ofHash flowHash) (.ofHash ipHash) flow
      ip later state) :
    ∃ departures final,
      (Viglb.run config build (.ofHash flowHash) (.ofHash ipHash) later
        state).Returns (departures, final) ∧
      ∀ served ∈ later.zip departures, served.1.Client config →
        flowOf served.1 = flow → served.2.SentTo config ip := by
  induction later generalizing state tables with
  | nil => exact ⟨[], state, Fuelled.returns_pure _, by simp⟩
  | cons packet later ih =>
      obtain ⟨notBefore, restOrdered⟩ := List.pairwise_cons.mp ordered
      obtain ⟨expired, departure, following, expires, flowFound, ipFound,
        processes, rest⟩ := unexpired
      have before := represents packet List.mem_cons_self
      obtain ⟨_, alsoExpires, after⟩ := before.expireAll
      obtain rfl := expires.unique alsoExpires
      obtain ⟨_, alsoProcesses, kept⟩ := before.nfProcess
      obtain ⟨rfl, rfl⟩ := Prod.mk.inj (processes.unique alsoProcesses)
      have sticksAfter := before.sticks_expire sticks after flowFound ipFound
      obtain ⟨departures, final, returns, sent⟩ := ih
        (sticksAfter.serve packet) restOrdered
        (fun next member => kept.mono (notBefore next member)) rest
      refine ⟨_ :: departures, final, processes.bind (returns.bind (Fuelled.returns_pure _)), ?_⟩
      intro served member
      rcases List.mem_cons.mp member with rfl | later
      · exact after.sentTo_of_sticks sticksAfter
      · exact sent served later

theorem heardWithin_of_assign
    (represents : state.Represents config build flowHash ipHash preferred
      now tables)
    (heard : tables.Heard packets)
    (assigned : ((tables.expire now).assign preferred flow now).1 =
      some backend) :
    backend.nic ≠ config.wanDevice ∧
      HeardWithin config backend.ip now packets := by
  obtain ⟨index, inUse, rfl⟩ := Tables.mem_of_assign assigned
  obtain ⟨wasInUse, recent⟩ := represents.active.sorted.mem_expire.mp inUse
  obtain ⟨isIp, internal⟩ := represents.registered index wasInUse
  obtain ⟨beat, member, isBeat, beatIp, beatTime⟩ := heard index wasInUse
  exact ⟨internal, beat, member, isBeat, beatIp.trans isIp.symm, beatTime ▸ recent⟩

end State.Represents

/-- After every run with nondecreasing times: at any later time,
`lb_get_backend` answers for every flow, an answer with a device other than the
WAN device is a backend with a heartbeat within the expiration time, and the
function calls itself at most once; a flow that is recorded with a backend is
sent to that backend as long as neither of the two expires. -/
theorem load_balancer_sticky
    (config : Config)
    (build : Map.Build)
    (flowHash : LoadBalancedFlow → ℕ)
    (ipHash : ℕ → ℕ)
    (flowMemory : Map.Arrays (KeyRef LoadBalancedFlow))
    (flowHeap : ℤ → LoadBalancedFlow)
    (flowChain : DoubleChain)
    (flowIdToBackendId : ℤ → ℤ)
    (ipMemory : Map.Arrays (KeyRef ℕ))
    (backendIps : ℤ → ℕ)
    (activeBackends : DoubleChain)
    (backends : ℤ → LoadBalancedBackend)
    {state : State}
    (flowsPositive : 0 < config.flowCapacity)
    (flowsBounded : config.flowCapacity < 2 ^ 31)
    (backendsPositive : 0 < config.backendCapacity)
    (backendsBounded : config.backendCapacity < 2 ^ 31)
    (allocated : allocState build flowMemory flowHeap flowChain
      flowIdToBackendId ipMemory backendIps activeBackends backends config =
        some state)
    (packets : List Packet)
    (ordered : packets.Pairwise fun earlier later => earlier.now ≤ later.now) :
    ∃ departures current,
      (run config build (.ofHash flowHash) (.ofHash ipHash) packets
        state).Returns (departures, current) ∧
      (∀ now, (∀ packet ∈ packets, packet.now ≤ now) →
        ∃ expired,
          (expireAll config build (.ofHash flowHash) (.ofHash ipHash) now
            current).Returns expired ∧
          ∀ flow,
            (∃ backend following,
              (lbGetBackend config build (.ofHash flowHash) flow now
                expired).Returns (backend, following) ∧
              ∀ answer ∈ backend, answer.nic ≠ config.wanDevice ∧
                HeardWithin config answer.ip now packets) ∧
            ∀ retried,
              lbGetBackendBody config build (.ofHash flowHash) flow now
                expired = .next retried →
              ∃ answer,
                lbGetBackendBody config build (.ofHash flowHash) flow now
                  retried = .done answer) ∧
      ∀ flow ip,
        current.Recorded build (.ofHash flowHash) (.ofHash ipHash) flow ip →
        ∀ later : List Packet,
          ((packets ++ later).Pairwise fun earlier later =>
            earlier.now ≤ later.now) →
          Unexpired config build (.ofHash flowHash) (.ofHash ipHash) flow
            ip later current →
          ∃ departures final,
            (run config build (.ofHash flowHash) (.ofHash ipHash) later
              current).Returns (departures, final) ∧
            ∀ served ∈ later.zip departures, served.1.Client config →
              flowOf served.1 = flow → served.2.SentTo config ip := by
  obtain ⟨tables, empty, fresh⟩ := State.Represents.fresh flowHash ipHash
    flowsPositive flowsBounded backendsPositive backendsBounded allocated
  obtain ⟨current, returns, represents⟩ := State.Represents.run fresh ordered
  refine ⟨_, current, returns, ?_, ?_⟩
  · intro now notAfter
    obtain ⟨expired, expires, after⟩ := (represents now notAfter).expireAll
    refine ⟨expired, expires, fun flow => ⟨?_, fun _ => after.body_of_next⟩⟩
    obtain ⟨following, answers, _⟩ := after.lbGetBackend flow
    refine ⟨_, following, answers, fun answer isAnswer => ?_⟩
    exact (represents now notAfter).heardWithin_of_assign
      (Tables.heard_run empty packets) isAnswer
  · intro flow ip recorded later allOrdered unexpired
    obtain ⟨_, laterOrdered, notAfter⟩ := List.pairwise_append.mp allOrdered
    cases later with
    | nil => exact ⟨[], current, Fuelled.returns_pure _, by simp⟩
    | cons first later =>
        have here := fun packet member => represents packet.now
          fun earlier isEarlier => notAfter earlier isEarlier packet member
        obtain ⟨index, sticks⟩ :=
          (here first List.mem_cons_self).recorded_iff.mp recorded
        exact State.Represents.run_of_unexpired sticks laterOrdered here unexpired

/-- A backend sends a heartbeat, and a client sends two packets: the first one
is recorded with the backend, the second one goes there. -/
theorem load_balancer_sticky_example :
    let config : Config := ⟨fun _ => 0, 2, 1000, 2, 3, 1000, 0⟩
    let flowHash : LoadBalancedFlow → ℕ := fun flow => flow.srcPort
    let ipHash : ℕ → ℕ := id
    let flowMemory : Map.Arrays (KeyRef LoadBalancedFlow) := ⟨fun _ => 1,
      fun _ => .own ⟨0, 0, 0, 0, 0⟩, fun _ => 0, fun _ => 1, fun _ => 0⟩
    let ipMemory : Map.Arrays (KeyRef ℕ) := ⟨fun _ => 1, fun _ => .own 0,
      fun _ => 0, fun _ => 1, fun _ => 0⟩
    let chainMemory : DoubleChain := ⟨fun _ => ⟨0, 0⟩, fun _ => 0⟩
    let beat : Packet := ⟨⟨0, 1, ⟨true, true, 7, 9, 6, 1, 2, 100⟩⟩, 70, 90⟩
    let client : Packet := ⟨⟨1, 0, ⟨true, true, 5, 9, 6, 4, 80, 100⟩⟩, 50, 90⟩
    let again : Packet := ⟨⟨2, 0, ⟨true, true, 5, 9, 6, 4, 80, 100⟩⟩, 50, 90⟩
    ∃ state, allocState .modulo flowMemory (fun _ => ⟨0, 0, 0, 0, 0⟩) chainMemory
        (fun _ => 0) ipMemory (fun _ => 0) chainMemory (fun _ => ⟨0, 0, 0⟩) config =
          some state ∧
      ∃ departures current,
        (run config .modulo (.ofHash flowHash) (.ofHash ipHash) [beat, client]
          state).Returns (departures, current) ∧
        current.Recorded .modulo (.ofHash flowHash) (.ofHash ipHash) (flowOf client)
          7 ∧
        ∃ replies final,
          (run config .modulo (.ofHash flowHash) (.ofHash ipHash) [again]
            current).Returns (replies, final) ∧
          ∀ served ∈ [again].zip replies, served.1.Client config →
            flowOf served.1 = flowOf client → served.2.SentTo config 7 := by
  intro config flowHash ipHash flowMemory ipMemory chainMemory beat client again
  refine ⟨_, rfl, ?_⟩
  obtain ⟨departures, current, returns, _, sticky⟩ := load_balancer_sticky config
    .modulo flowHash ipHash flowMemory (fun _ => ⟨0, 0, 0, 0, 0⟩) chainMemory
    (fun _ => 0) ipMemory (fun _ => 0) chainMemory (fun _ => ⟨0, 0, 0⟩) (by decide)
    (by decide) (by decide) (by decide) rfl [beat, client] (by decide)
  have recorded := returns.passes (fun outcome =>
    outcome.2.flows.keys.get .modulo (.ofHash flowHash) (.own (flowOf client)) =
        some 0 ∧
      outcome.2.active.keys.get .modulo (.ofHash ipHash) (.own 7) =
        some (outcome.2.flowIdToBackendId 0)) 9 (by decide +kernel)
  have unexpired := returns.passes (fun outcome =>
    ((expireAll config .modulo (.ofHash flowHash) (.ofHash ipHash) 2
      outcome.2).run 9).any fun expired =>
        expired.flows.keys.get .modulo (.ofHash flowHash) (.own (flowOf client)) ≠
            none ∧
          expired.active.keys.get .modulo (.ofHash ipHash) (.own 7) ≠ none) 9
    (by decide +kernel)
  have processed := returns.passes (fun outcome =>
    ((nfProcess config .modulo (.ofHash flowHash) (.ofHash ipHash) again
      outcome.2).run 9).any fun _ => true) 9 (by decide +kernel)
  have isRecorded : current.Recorded .modulo (.ofHash flowHash) (.ofHash ipHash)
      (flowOf client) 7 := ⟨0, of_decide_eq_true recorded⟩
  obtain ⟨expired, expires, found⟩ := Fuelled.exists_returns_of_any 9 unexpired
  obtain ⟨⟨departure, following⟩, processes, _⟩ :=
    Fuelled.exists_returns_of_any 9 processed
  have found := of_decide_eq_true found
  exact ⟨departures, current, returns, isRecorded, sticky (flowOf client) 7 isRecorded
    [again] (by decide) ⟨expired, departure, following, expires, found.1, found.2,
      processes, trivial⟩⟩

end Viglb
end Vigor
