import Vigor.Viglb.Stickiness

/-!
# Flows of backends that are gone

When the backend of a flow has expired, the next packet of the flow should go to
the backend that the consistent hashing table selects.  The entry of the flow
has only the index of the backend.  If another backend has registered under that
index in the meantime, then the flow goes to that one.
-/

namespace Vigor
namespace Viglb

open DoubleChain

/-- What the consistent hashing table selects in a state. -/
def State.selected
    (config : Config)
    (flowHash : LoadBalancedFlow → ℕ)
    (flow : LoadBalancedFlow)
    (state : State) : Option ℤ :=
  Cht.chtFindPreferredAvailableBackend (flowHash flow) state.cht state.active.chain
    config.chtHeight config.backendCapacity

namespace State.Represents

variable
  {config : Config}
  {build : Map.Build}
  {flowHash : LoadBalancedFlow → ℕ}
  {ipHash : ℕ → ℕ}
  {preferred : LoadBalancedFlow → List ℤ}
  {now : ℤ}
  {state : State}
  {tables : Tables config}

/-- Packets that are sent to active backends tell the backends apart. -/
theorem index_eq_of_forward
    (represents : state.Represents config build flowHash ipHash preferred
      now tables)
    (inUse : index ∈ tables.active.alloc)
    (otherInUse : other ∈ tables.active.alloc)
    (same : forward config packet (some (tables.backends index)) =
      forward config packet (some (tables.backends other))) :
    index = other := by
  obtain ⟨isIp, internal⟩ := represents.registered index inUse
  obtain ⟨otherIp, otherInternal⟩ := represents.registered other otherInUse
  rw [forward, forward, if_pos internal, if_pos otherInternal] at same
  have sameIp := congrArg Departure.dstAddr same
  exact represents.active.index_unique inUse otherInUse (isIp.symm.trans (sameIp.trans otherIp))

theorem forward_eq_iff
    (represents : state.Represents config build flowHash ipHash preferred
      now tables)
    (alive : index ∈ tables.active.alloc) :
    forward config packet ((tables.choice preferred flow).map tables.backends) =
        forward config packet (some (tables.backends index)) ↔
      tables.choice preferred flow = some index := by
  obtain ⟨_, internal⟩ := represents.registered index alive
  constructor
  · intro same
    cases chosen : tables.choice preferred flow with
    | none =>
        rw [chosen, forward, if_pos internal] at same
        exact absurd (congrArg Departure.device same).symm internal
    | some other =>
        rw [chosen] at same
        rw [represents.index_eq_of_forward (choice_mem chosen) alive same]
  · intro chosen
    rw [chosen]
    rfl

end State.Represents

theorem Tables.assignNew_eq
    (preferred : LoadBalancedFlow → List ℤ)
    (flow : LoadBalancedFlow)
    (now : ℤ)
    (tables : Tables config) :
    (tables.assignNew preferred flow now).1 =
      (tables.choice preferred flow).map tables.backends := by
  rw [assignNew]
  cases tables.choice preferred flow <;> rfl

theorem State.Represents.serve_eq_iff
    {state : State}
    (represents : state.Represents config build flowHash ipHash preferred
      now tables)
    (client : packet.Client config)
    (found : state.flows.keys.get build (.ofHash flowHash)
      (.own (flowOf packet)) = some index) :
    forward config packet
        ((state.selected config flowHash (flowOf packet)).map state.backends) =
          (tables.serve preferred packet).1 ↔
      dchainIsIndexAllocated state.active.chain
          (state.flowIdToBackendId index) = false ∨
        state.selected config flowHash (flowOf packet) =
          some (state.flowIdToBackendId index) := by
  have inUse := (represents.flows.get_eq_some_iff.mp found).1
  have allocated := represents.isIndexAllocated_iff inUse
  have notBeat : ¬packet.Heartbeat config := fun beat => beat.2 client.2
  rw [State.selected, represents.chtFind_eq, represents.backends, ← Bool.not_eq_true,
    allocated, represents.recorded, Tables.serve, if_neg notBeat, if_pos client,
    Tables.assign, ← represents.flows.get_eq_find, found]
  dsimp only
  split_ifs with alive
  · rw [represents.forward_eq_iff alive]
    simp [alive]
  · rw [Tables.assignNew_eq]
    simp only [alive, not_false_eq_true, true_or, iff_true]
    rfl

/-- After every run with nondecreasing times, a client packet of a flow that has
an entry after the expiry goes to the backend that the consistent hashing table
selects for the flow among the active ones, as for a new flow, exactly if the
index in the entry is not allocated or is the selected one.  This holds whatever
has happened to the backend since the entry was made. -/
theorem load_balancer_rehashes_iff
    (config : Config)
    (build : Map.Build)
    (flowHash : LoadBalancedFlow → ℕ)
    (ipHash : ℕ → ℕ)
    (flowMemory : Map.Arrays (KeyRef LoadBalancedFlow))
    (flowHeap : ℤ → LoadBalancedFlow)
    (flowChain : DoubleChain)
    (flowIdToBackendId : ℤ → ℤ)
    (ipMemory : Map.Arrays (KeyRef ℕ))
    (backendIps : ℤ → ℕ)
    (activeBackends : DoubleChain)
    (backends : ℤ → LoadBalancedBackend)
    {state : State}
    (flowsPositive : 0 < config.flowCapacity)
    (flowsBounded : config.flowCapacity < 2 ^ 31)
    (backendsPositive : 0 < config.backendCapacity)
    (backendsBounded : config.backendCapacity < 2 ^ 31)
    (allocated : allocState build flowMemory flowHeap flowChain
      flowIdToBackendId ipMemory backendIps activeBackends backends config =
        some state)
    (packets : List Packet)
    (next : Packet)
    (ordered : (packets ++ [next]).Pairwise fun earlier later =>
      earlier.now ≤ later.now)
    (client : next.Client config) :
    ∃ departures current expired,
      (run config build (.ofHash flowHash) (.ofHash ipHash) packets
        state).Returns (departures, current) ∧
      (expireAll config build (.ofHash flowHash) (.ofHash ipHash) next.now
        current).Returns expired ∧
      ∀ index,
        expired.flows.keys.get build (.ofHash flowHash) (.own (flowOf next)) =
          some index →
        ((∃ final,
          (nfProcess config build (.ofHash flowHash) (.ofHash ipHash) next
            current).Returns
              (forward config next
                ((expired.selected config flowHash (flowOf next)).map
                  expired.backends), final)) ↔
          dchainIsIndexAllocated expired.active.chain
              (expired.flowIdToBackendId index) = false ∨
            expired.selected config flowHash (flowOf next) =
              some (expired.flowIdToBackendId index)) := by
  obtain ⟨beforeOrdered, _, notAfter⟩ := List.pairwise_append.mp ordered
  obtain ⟨tables, _, fresh⟩ := State.Represents.fresh flowHash ipHash
    flowsPositive flowsBounded backendsPositive backendsBounded allocated
  obtain ⟨current, returns, represents⟩ := State.Represents.run fresh beforeOrdered
  have here := represents next.now
    fun earlier isEarlier => notAfter earlier isEarlier next List.mem_cons_self
  obtain ⟨expired, expires, after⟩ := here.expireAll
  obtain ⟨final, processes, _⟩ := here.nfProcess
  refine ⟨_, current, expired, returns, expires, fun index found => ?_⟩
  rw [← after.serve_eq_iff client found]
  constructor
  · rintro ⟨_, selected⟩
    exact (Prod.mk.inj (selected.unique processes)).1
  · intro same
    rw [same]
    exact ⟨final, processes⟩

/-- Two backends register, and a flow is recorded with the first one, which then
falls silent.  No backend takes its index, and the next packet of the flow goes
to the second backend, which is the one that is selected. -/
theorem load_balancer_rehashes_example :
    let config : Config := ⟨fun _ => 0, 2, 10000, 2, 3, 1000, 0⟩
    let flowHash : LoadBalancedFlow → ℕ := fun flow => flow.srcPort
    let ipHash : ℕ → ℕ := id
    let flowMemory : Map.Arrays (KeyRef LoadBalancedFlow) := ⟨fun _ => 1,
      fun _ => .own ⟨0, 0, 0, 0, 0⟩, fun _ => 0, fun _ => 1, fun _ => 0⟩
    let ipMemory : Map.Arrays (KeyRef ℕ) := ⟨fun _ => 1, fun _ => .own 0,
      fun _ => 0, fun _ => 1, fun _ => 0⟩
    let chainMemory : DoubleChain := ⟨fun _ => ⟨0, 0⟩, fun _ => 0⟩
    let beat (now : ℤ) (ip : ℕ) : Packet :=
      ⟨⟨now, 1, ⟨true, true, ip, 9, 6, 1, 2, 100⟩⟩, 70, 90⟩
    let client (now : ℤ) : Packet :=
      ⟨⟨now, 0, ⟨true, true, 5, 9, 6, 3, 80, 100⟩⟩, 50, 90⟩
    ∃ state, allocState .modulo flowMemory (fun _ => ⟨0, 0, 0, 0, 0⟩) chainMemory
        (fun _ => 0) ipMemory (fun _ => 0) chainMemory (fun _ => ⟨0, 0, 0⟩) config =
          some state ∧
      ∃ departures current expired,
        (run config .modulo (.ofHash flowHash) (.ofHash ipHash)
          [beat 0 7, beat 1 8, client 2, beat 900000 8] state).Returns
            (departures, current) ∧
        (expireAll config .modulo (.ofHash flowHash) (.ofHash ipHash) 1500000
          current).Returns expired ∧
        (expired.selected config flowHash (flowOf (client 1500000))).map
          expired.backends = some ⟨1, 70, 8⟩ ∧
        ∃ final, (nfProcess config .modulo (.ofHash flowHash) (.ofHash ipHash)
          (client 1500000) current).Returns
            (forward config (client 1500000) (some ⟨1, 70, 8⟩), final) := by
  intro config flowHash ipHash flowMemory ipMemory chainMemory beat client
  refine ⟨_, rfl, ?_⟩
  obtain ⟨departures, current, expired, returns, expires, rehashes⟩ :=
    load_balancer_rehashes_iff config .modulo flowHash ipHash flowMemory
      (fun _ => ⟨0, 0, 0, 0, 0⟩) chainMemory (fun _ => 0) ipMemory (fun _ => 0)
      chainMemory (fun _ => ⟨0, 0, 0⟩) (by decide) (by decide) (by decide)
      (by decide) rfl [beat 0 7, beat 1 8, client 2, beat 900000 8] (client 1500000)
      (by decide) (by decide)
  have computed := returns.passes (fun outcome =>
    ((expireAll config .modulo (.ofHash flowHash) (.ofHash ipHash) 1500000
      outcome.2).run 9).any fun expired =>
        expired.flows.keys.get .modulo (.ofHash flowHash)
            (.own (flowOf (client 1500000))) = some 0 ∧
          dchainIsIndexAllocated expired.active.chain (expired.flowIdToBackendId 0) =
            false ∧
          (expired.selected config flowHash (flowOf (client 1500000))).map
            expired.backends = some ⟨1, 70, 8⟩) 9 (by decide +kernel)
  obtain ⟨found, free, selected⟩ :=
    of_decide_eq_true (expires.passes _ 9 computed)
  have goes := (rehashes 0 found).mpr (.inl free)
  rw [selected] at goes
  exact ⟨departures, current, expired, returns, expires, selected, goes⟩

/-- A flow is recorded with the backend 7, which then expires.  Two other
backends register, and 8 takes the index of 7.  The next packet of the flow goes
to 8, although the consistent hashing table selects 9. -/
theorem load_balancer_keeps_recycled_index :
    let config : Config := ⟨fun _ => 0, 2, 10000, 2, 3, 1000, 0⟩
    let flowHash : LoadBalancedFlow → ℕ := fun flow => flow.srcPort
    let ipHash : ℕ → ℕ := id
    let flowMemory : Map.Arrays (KeyRef LoadBalancedFlow) := ⟨fun _ => 1,
      fun _ => .own ⟨0, 0, 0, 0, 0⟩, fun _ => 0, fun _ => 1, fun _ => 0⟩
    let ipMemory : Map.Arrays (KeyRef ℕ) := ⟨fun _ => 1, fun _ => .own 0,
      fun _ => 0, fun _ => 1, fun _ => 0⟩
    let chainMemory : DoubleChain := ⟨fun _ => ⟨0, 0⟩, fun _ => 0⟩
    let beat (now : ℤ) (ip : ℕ) : Packet :=
      ⟨⟨now, 1, ⟨true, true, ip, 9, 6, 1, 2, 100⟩⟩, 70, 90⟩
    let client (now : ℤ) : Packet :=
      ⟨⟨now, 0, ⟨true, true, 5, 9, 6, 4, 80, 100⟩⟩, 50, 90⟩
    let flow := flowOf (client 1)
    ∃ state, allocState .modulo flowMemory (fun _ => ⟨0, 0, 0, 0, 0⟩) chainMemory
        (fun _ => 0) ipMemory (fun _ => 0) chainMemory (fun _ => ⟨0, 0, 0⟩) config =
          some state ∧
      ∃ departures recorded, (run config .modulo (.ofHash flowHash) (.ofHash ipHash)
          [beat 0 7, client 1] state).Returns (departures, recorded) ∧
        recorded.Recorded .modulo (.ofHash flowHash) (.ofHash ipHash) flow 7 ∧
        ∃ later current, (run config .modulo (.ofHash flowHash) (.ofHash ipHash)
            [beat 2000000 8, beat 2000001 9] recorded).Returns (later, current) ∧
          ∃ expired, (expireAll config .modulo (.ofHash flowHash) (.ofHash ipHash)
              2000002 current).Returns expired ∧
            expired.flows.keys.get .modulo (.ofHash flowHash) (.own flow) ≠ none ∧
            expired.active.keys.get .modulo (.ofHash ipHash) (.own 7) = none ∧
            (expired.selected config flowHash flow).map expired.backends =
              some ⟨1, 70, 9⟩ ∧
            ∃ final, (nfProcess config .modulo (.ofHash flowHash) (.ofHash ipHash)
              (client 2000002) current).Returns
                (forward config (client 2000002) (some ⟨1, 70, 8⟩), final) := by
  intro config flowHash ipHash flowMemory ipMemory chainMemory beat client flow
  obtain ⟨state, allocated, computed⟩ : ∃ state,
      allocState .modulo flowMemory (fun _ => ⟨0, 0, 0, 0, 0⟩) chainMemory
        (fun _ => 0) ipMemory (fun _ => 0) chainMemory (fun _ => ⟨0, 0, 0⟩) config =
          some state ∧
      ((run config .modulo (.ofHash flowHash) (.ofHash ipHash)
        [beat 0 7, client 1] state).run 9).any (fun outcome =>
          outcome.2.flows.keys.get .modulo (.ofHash flowHash) (.own flow) = some 0 ∧
          outcome.2.active.keys.get .modulo (.ofHash ipHash) (.own 7) =
            some (outcome.2.flowIdToBackendId 0) ∧
          ((run config .modulo (.ofHash flowHash) (.ofHash ipHash)
            [beat 2000000 8, beat 2000001 9] outcome.2).run 9).any fun outcome =>
              ((expireAll config .modulo (.ofHash flowHash)
                (.ofHash ipHash) 2000002 outcome.2).run 9).any (fun expired =>
                  expired.flows.keys.get .modulo (.ofHash flowHash) (.own flow) ≠
                    none ∧
                  expired.active.keys.get .modulo (.ofHash ipHash) (.own 7) = none ∧
                  (expired.selected config flowHash flow).map expired.backends =
                    some ⟨1, 70, 9⟩) ∧
              ((nfProcess config .modulo (.ofHash flowHash) (.ofHash ipHash)
                (client 2000002) outcome.2).run 9).map Prod.fst =
                  some (forward config (client 2000002) (some ⟨1, 70, 8⟩))) = true :=
    ⟨_, rfl, by decide +kernel⟩
  obtain ⟨⟨departures, recorded⟩, returns, computed⟩ :=
    Fuelled.exists_returns_of_any 9 computed
  obtain ⟨flowAt, ipAt, computed⟩ := of_decide_eq_true computed
  obtain ⟨⟨later, current⟩, continues, computed⟩ :=
    Fuelled.exists_returns_of_any 9 computed
  obtain ⟨computed, sent⟩ := of_decide_eq_true computed
  obtain ⟨expired, expires, computed⟩ := Fuelled.exists_returns_of_any 9 computed
  obtain ⟨live, gone, selected⟩ := of_decide_eq_true computed
  exact ⟨state, allocated, departures, recorded, returns, ⟨0, flowAt, ipAt⟩, later,
    current, continues, expired, expires, live, gone, selected,
    Fuelled.exists_returns_fst 9 sent⟩

end Viglb
end Vigor
