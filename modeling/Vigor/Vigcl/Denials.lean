import Vigor.FlowTable.Current
import Vigor.Library.CountMin
import Vigor.Sketch.FirstRow
import Vigor.Vigcl.Impl

/-!
# Denials of the connection limiter

The limiter puts a new flow into its table before it asks the sketch.  A flow
that is dropped is therefore known when its next packet arrives, and known flows
are forwarded: a denial never outlives the packet that it was made for.
-/

namespace Vigor
namespace Vigcl

open DoubleChain

variable {config : Config} {build : Map.Build} {flowHash : Flow → ℕ} {hash : ℕ → ℕ}
  {rowHash : Fin sketchHashes → Client → ℕ} {maxFlows sketchCapacity : ℕ} {now : ℤ}
  {state : State}

/-! ## The state -/

/-- The table of flows is current, and the sketch has a first row. -/
def Sound
    (build : Map.Build)
    (flowHash : Flow → ℕ)
    (hash : ℕ → ℕ)
    (maxFlows sketchCapacity : ℕ)
    (now : ℤ)
    (state : State) : Prop :=
  (∃ entries : IndexTable maxFlows Flow,
    FlowTable.Current build flowHash now state.flows entries) ∧
  ∃ buckets, ∃ clients : IndexTable sketchCapacity ℕ,
    Sketch.FirstRow build hash buckets now state.sketch clients

/-- The table has the flow. -/
def HasFlow
    (build : Map.Build)
    (flowHash : Flow → ℕ)
    (flow : Flow)
    (state : State) : Prop :=
  ∃ index, state.flows.keys.get build (.ofHash flowHash) (.own flow) = some index

/-- No flow in the table was last used too long before the time. -/
def NoFlowOld
    (config : Config)
    (maxFlows : ℕ)
    (time : ℤ)
    (state : State) : Prop :=
  ∀ index : ℤ, 0 ≤ index ∧ index < maxFlows →
    dchainIsIndexAllocated state.flows.chain index = true →
      lastTime time config.flowExpirationTime ≤ state.flows.chain.timestamps index

namespace Sound

theorem mono
    (sound : Sound build flowHash hash maxFlows sketchCapacity now state)
    (le : now ≤ later) :
    Sound build flowHash hash maxFlows sketchCapacity later state := by
  obtain ⟨⟨entries, current⟩, buckets, clients, first⟩ := sound
  exact ⟨⟨entries, current.mono le⟩, buckets, clients, first.mono le⟩

theorem allocate
    (positive : 0 < maxFlows)
    (bounded : maxFlows < 2 ^ 31)
    (sketchPositive : 0 < sketchCapacity)
    (sketchBounded : sketchCapacity * sketchHashes ≤ 2 ^ 30)
    (allocated : allocState build flowsMemory flowAllocatorMemory sketchMemory
      maxFlows sketchCapacity maxClients = some state)
    (now : ℤ) :
    Sound build flowHash hash maxFlows sketchCapacity now state := by
  obtain ⟨flows, flowsAllocated, allocated⟩ := Option.bind_eq_some_iff.mp allocated
  obtain ⟨sketch, sketchAllocated, isState⟩ := Option.bind_eq_some_iff.mp allocated
  obtain rfl := Option.some.inj isState
  exact ⟨⟨_, .allocate positive bounded flowsAllocated now⟩, _, _,
    (Sketch.FirstRow.allocate sketchMemory sketchPositive sketchBounded sketchAllocated now).1⟩

/-- The expiry returns, and keeps the flows if none of them is old. -/
theorem expireEntries
    (sound : Sound build flowHash hash maxFlows sketchCapacity now state)
    (config : Config)
    (time : ℤ) :
    ∃ expired,
      (expireEntries config build (.ofHash flowHash) (.ofHash hash) time
        state).Returns expired ∧
      Sound build flowHash hash maxFlows sketchCapacity now expired ∧
      (NoFlowOld config maxFlows time state →
        ∀ flow, HasFlow build flowHash flow state →
          HasFlow build flowHash flow expired) := by
  obtain ⟨⟨entries, current⟩, buckets, clients, first⟩ := sound
  obtain ⟨flows, flowsReturn, flowsCurrent⟩ :=
    current.expireItemsSingleMap (lastTime time config.flowExpirationTime)
  obtain ⟨sketch, sketchReturns, sketchFirst, _⟩ :=
    first.sketchExpire (lastTime time config.clientExpirationTime)
  refine ⟨_, flowsReturn.bind (sketchReturns.bind (Fuelled.returns_pure _)),
    ⟨⟨_, flowsCurrent⟩, _, _, sketchFirst⟩, ?_⟩
  rintro recent flow ⟨index, found⟩
  obtain ⟨inUse, isFlow⟩ := current.get_eq_some_iff.mp found
  have tracks := current.coherent.tracks
  have inside := entries.allocator.inRange_of_mem_alloc inUse
  have notOld := recent index inside
    ((tracks.dchainIsIndexAllocated_iff inside.1 inside.2).mpr inUse)
  rw [tracks.times] at notOld
  have exact := current.sorted.expire_exact (lastTime time config.flowExpirationTime)
  refine ⟨index, flowsCurrent.get_eq_some_iff.mpr ⟨?_, ?_⟩⟩
  · rw [exact.kept, List.mem_filter, decide_eq_true_iff]
    exact ⟨inUse, notOld⟩
  · rw [exact.values, isFlow]

end Sound

/-! ## Limiting clients -/

/-- The least bucket of the current hash values is over the threshold. -/
def OverThreshold
    (build : Map.Build)
    (hash : ℕ → ℕ)
    (sketch : Sketch) : Prop :=
  (∃ row value, sketch.bucketValue build hash row = some value) ∧
    ∀ row value, sketch.bucketValue build hash row = some value → sketch.threshold < value

/-- The flow is new, the table has a free index for it, and the sketch has
counted too many flows of its client. -/
structure Denies
    (build : Map.Build)
    (flowHash : Flow → ℕ)
    (hash : ℕ → ℕ)
    (rowHash : Fin sketchHashes → Client → ℕ)
    (maxFlows : ℕ)
    (flow : Flow)
    (state : State) : Prop where
  isNew : ¬HasFlow build flowHash flow state
  hasRoom : ∃ index : ℤ, (0 ≤ index ∧ index < maxFlows) ∧
    dchainIsIndexAllocated state.flows.chain index = false
  overThreshold : OverThreshold build hash
    (state.sketch.sketchComputeHashes rowHash flow.client)

theorem sketchFetch_eq_true_iff
    {buckets : ℤ → ℕ}
    {clients : IndexTable sketchCapacity ℕ}
    {sketch : Sketch}
    (searched : sketch.Searched build hash buckets now clients) :
    (sketch.sketchFetch build (.ofHash hash)).1 = true ↔
      OverThreshold build hash sketch := by
  rw [searched.sketchFetch.1, CountMin.Sketch.any_min?_iff, OverThreshold]
  simp only [List.mem_filterMap, List.mem_finRange, true_and]
  constructor
  · rintro ⟨⟨value, row, isValue⟩, every⟩
    exact ⟨⟨row, value, isValue⟩, fun other otherValue isOther =>
      every otherValue ⟨other, isOther⟩⟩
  · rintro ⟨⟨row, value, isValue⟩, every⟩
    exact ⟨⟨value, row, isValue⟩, fun otherValue ⟨other, isOther⟩ =>
      every other otherValue isOther⟩

/-- The table has room when its chain has a free index. -/
theorem hasRoom_iff
    {entries : IndexTable maxFlows Flow}
    (current : FlowTable.Current build flowHash now table entries) :
    (∃ index : ℤ, (0 ≤ index ∧ index < maxFlows) ∧
        dchainIsIndexAllocated table.chain index = false) ↔
      ∃ index rest, entries.allocator.free = index :: rest := by
  have tracks := current.coherent.tracks
  constructor
  · rintro ⟨index, ⟨nonnegative, inside⟩, free⟩
    have notInUse : index ∉ entries.allocator.alloc := fun inUse => by
      rw [(tracks.dchainIsIndexAllocated_iff nonnegative inside).mpr inUse] at free
      cases free
    have isFree :=
      (entries.allocator.mem_alloc_or_mem_free nonnegative inside).resolve_left notInUse
    exact List.exists_cons_of_ne_nil (List.ne_nil_of_mem isFree)
  · rintro ⟨index, rest, available⟩
    have inside := entries.allocator.inRange_of_mem_free
      (by rw [available]; exact List.mem_cons_self : index ∈ entries.allocator.free)
    refine ⟨index, inside, Bool.eq_false_iff.mpr fun allocated => ?_⟩
    exact IndexTable.ne_of_available available
      ((tracks.dchainIsIndexAllocated_iff inside.1 inside.2).mp allocated) rfl

variable {flow : Flow}

theorem hasFlow_insert
    {entries : IndexTable maxFlows Flow}
    (current : FlowTable.Current build flowHash now state.flows entries)
    {index : ℤ}
    {rest : List ℤ}
    (available : entries.allocator.free = index :: rest)
    {following : State}
    (inserted : FlowTable.Current build flowHash now following.flows
      (entries.insert flow now).2) :
    HasFlow build flowHash flow following ∧
      ∀ other, HasFlow build flowHash other state →
        HasFlow build flowHash other following := by
  constructor
  · refine ⟨index, inserted.get_eq_some_iff.mpr
      ⟨(IndexTable.mem_alloc_insert available flow now).mpr (Or.inr rfl), ?_⟩⟩
    rw [IndexTable.value_insert available, Function.update_self]
  · rintro other ⟨place, found⟩
    obtain ⟨inUse, isOther⟩ := current.get_eq_some_iff.mp found
    refine ⟨place, inserted.get_eq_some_iff.mpr
      ⟨(IndexTable.mem_alloc_insert available flow now).mpr (Or.inl inUse), ?_⟩⟩
    rw [IndexTable.value_insert available,
      Function.update_of_ne (IndexTable.ne_of_available available inUse), isOther]

/-- The table has the flow, or it is full, or it takes the flow in. -/
theorem Sound.flow_cases
    (sound : Sound build flowHash hash maxFlows sketchCapacity now state)
    (flow : Flow) :
    (HasFlow build flowHash flow state ∧ ∃ index flows,
      state.flows.lookup build (.ofHash flowHash) flow now =
        (some index, flows) ∧
      flows.keys = state.flows.keys ∧
      ∃ entries : IndexTable maxFlows Flow,
        FlowTable.Current build flowHash now flows entries) ∨
    ¬HasFlow build flowHash flow state ∧
      state.flows.lookup build (.ofHash flowHash) flow now =
        (none, state.flows) ∧
      ((¬∃ index : ℤ, (0 ≤ index ∧ index < maxFlows) ∧
          dchainIsIndexAllocated state.flows.chain index = false) ∧
        state.flows.allocateFlow build (.ofHash flowHash) flow now =
          (none, state.flows) ∨
      (∃ index : ℤ, (0 ≤ index ∧ index < maxFlows) ∧
          dchainIsIndexAllocated state.flows.chain index = false) ∧
        ∃ index flows,
          state.flows.allocateFlow build (.ofHash flowHash) flow now =
            (some index, flows) ∧
          (∃ entries : IndexTable maxFlows Flow,
            FlowTable.Current build flowHash now flows entries) ∧
          ∀ sketch, HasFlow build flowHash flow ⟨flows, sketch⟩ ∧
            ∀ other, HasFlow build flowHash other state →
              HasFlow build flowHash other ⟨flows, sketch⟩) := by
  obtain ⟨⟨entries, current⟩, _⟩ := sound
  rw [FlowTable.lookup, hasRoom_iff current]
  cases found : state.flows.keys.get build (.ofHash flowHash) (.own flow) with
  | some index =>
      exact .inl ⟨⟨index, found⟩, index, _, rfl, rfl, _,
        current.refresh (current.get_eq_some_iff.mp found).1⟩
  | none =>
      have new : ¬HasFlow build flowHash flow state := by
        rintro ⟨index, isIndex⟩
        rw [found] at isIndex
        cases isIndex
      refine .inr ⟨new, rfl, ?_⟩
      cases available : entries.allocator.free with
      | nil => exact .inl ⟨by simp, current.allocateFlow_of_full available flow⟩
      | cons index rest =>
          obtain ⟨flows, allocates, inserted⟩ :=
            current.allocateFlow_of_available found available
          exact .inr ⟨⟨index, rest, rfl⟩, index, flows, allocates,
            ⟨_, inserted⟩, fun _ => hasFlow_insert current available inserted⟩

/-- What `limit_clients` does. -/
structure Limits
    (build : Map.Build)
    (flowHash : Flow → ℕ)
    (hash : ℕ → ℕ)
    (rowHash : Fin sketchHashes → Client → ℕ)
    (maxFlows sketchCapacity : ℕ)
    (flow : Flow)
    (now : ℤ)
    (state : State)
    (forwards : Bool)
    (following : State) : Prop where
  denies : forwards = false ↔ Denies build flowHash hash rowHash maxFlows flow state
  sound : Sound build flowHash hash maxFlows sketchCapacity now following
  keeps : ∀ other, HasFlow build flowHash other state → HasFlow build flowHash other following
  /-- A flow that is dropped is in the table. -/
  records : forwards = false → HasFlow build flowHash flow following

theorem Sound.limits
    (sound : Sound build flowHash hash maxFlows sketchCapacity now state)
    (rowHash : Fin sketchHashes → Client → ℕ)
    (flow : Flow) :
    Limits build flowHash hash rowHash maxFlows sketchCapacity flow now state
      (limitClients build (.ofHash flowHash) (.ofHash hash) rowHash flow now
        state).1
      (limitClients build (.ofHash flowHash) (.ofHash hash) rowHash flow now
        state).2 := by
  have possible := sound.flow_cases flow
  obtain ⟨current, buckets, clients, first⟩ := sound
  have searched := first.sketchComputeHashes rowHash flow.client
  have overThreshold := sketchFetch_eq_true_iff searched
  obtain ⟨_, refreshed⟩ := searched.exists_sketchRefresh
  obtain ⟨_, fetched, _⟩ := searched.sketchFetch
  obtain ⟨_, touched⟩ := fetched.exists_sketchTouchBuckets
  rw [limitClients]
  rcases possible with ⟨known, index, flows, looked, sameKeys, kept⟩ |
    ⟨new, looked, ⟨full, fails⟩ | ⟨hasRoom, index, flows, allocates, kept, has⟩⟩
  · rw [looked]
    exact
      { denies := ⟨fun impossible => Bool.noConfusion impossible,
          fun denied => absurd known denied.isNew⟩
        sound := ⟨kept, _, _, refreshed.toFirstRow⟩
        keeps := fun _ ⟨place, found⟩ => ⟨place, sameKeys ▸ found⟩
        records := fun impossible => Bool.noConfusion impossible }
  all_goals
    rw [looked]
    dsimp only
  · rw [fails]
    exact
      { denies := ⟨fun impossible => Bool.noConfusion impossible,
          fun denied => absurd denied.hasRoom full⟩
        sound := ⟨current, _, _, searched.toFirstRow⟩
        keeps := fun _ other => other
        records := fun impossible => Bool.noConfusion impossible }
  rw [allocates]
  dsimp only
  -- The rounds of the sketch are of no interest from here on.
  generalize (state.sketch.sketchComputeHashes rowHash flow.client).sketchFetch build
    (.ofHash hash) = outcome at *
  generalize (outcome.2.sketchTouchBuckets build (.ofHash hash) now).2 = counted at *
  by_cases isOver : outcome.1 = true
  · rw [if_pos isOver]
    exact
      { denies := ⟨fun _ => ⟨new, hasRoom, overThreshold.mp isOver⟩, fun _ => rfl⟩
        sound := ⟨kept, _, _, fetched.toFirstRow⟩
        keeps := (has outcome.2).2
        records := fun _ => (has outcome.2).1 }
  · rw [if_neg isOver]
    exact
      { denies := ⟨fun impossible => Bool.noConfusion impossible,
          fun denied => absurd (overThreshold.mpr denied.overThreshold) isOver⟩
        sound := ⟨kept, _, _, touched.toFirstRow⟩
        keeps := (has counted).2
        records := fun impossible => Bool.noConfusion impossible }

/-! ## Packets -/

/-- A packet with headers from the WAN. -/
structure IsWan (config : Config) (reception : Reception) : Prop where
  parsed : reception.frame.Parsed
  notLan : reception.device ≠ config.lanDevice
  isWan : reception.device = config.wanDevice

variable {reception : Reception}

theorem processParsed_of_wan
    (wan : IsWan config reception)
    (state : State) :
    processParsed config build flowOps hashOps rowHash reception state =
      (if (limitClients build flowOps hashOps rowHash (flowOf reception.frame)
          reception.now state).1 then config.lanDevice else reception.device,
        (limitClients build flowOps hashOps rowHash (flowOf reception.frame)
          reception.now state).2) := by
  rw [processParsed, if_neg wan.notLan, if_pos wan.isWan]
  dsimp only
  split_ifs <;> rfl

theorem Sound.processParsed
    (rowHash : Fin sketchHashes → Client → ℕ)
    (config : Config)
    (sound : Sound build flowHash hash maxFlows sketchCapacity reception.now
      state) :
    Sound build flowHash hash maxFlows sketchCapacity reception.now
        (processParsed config build (.ofHash flowHash) (.ofHash hash) rowHash
          reception state).2 ∧
      ∀ other, HasFlow build flowHash other state → HasFlow build flowHash other
        (processParsed config build (.ofHash flowHash) (.ofHash hash) rowHash
          reception state).2 := by
  have limits := sound.limits rowHash (flowOf reception.frame)
  rw [Vigcl.processParsed]
  generalize limitClients build (.ofHash flowHash) (.ofHash hash) rowHash
    (flowOf reception.frame) reception.now state = outcome at *
  dsimp only
  split_ifs
  · exact ⟨sound, fun _ other => other⟩
  · exact ⟨limits.sound, limits.keeps⟩
  · exact ⟨limits.sound, limits.keeps⟩
  · exact ⟨sound, fun _ other => other⟩

theorem Sound.nfProcess
    (rowHash : Fin sketchHashes → Client → ℕ)
    (config : Config)
    (sound : Sound build flowHash hash maxFlows sketchCapacity reception.now
      state) :
    ∃ device following,
      (nfProcess config build (.ofHash flowHash) (.ofHash hash) rowHash
        reception state).Returns (device, following) ∧
      Sound build flowHash hash maxFlows sketchCapacity reception.now
        following := by
  rw [nfProcess_eq]
  by_cases parsed : reception.frame.Parsed
  · obtain ⟨expired, returns, stillSound, _⟩ := sound.expireEntries config reception.now
    rw [if_pos parsed]
    exact ⟨_, _, returns.bind (Fuelled.returns_pure _), (stillSound.processParsed rowHash config).1⟩
  · rw [if_neg parsed]
    exact ⟨_, _, Fuelled.returns_pure _, sound⟩

theorem nfProcess_returns
    (parsed : reception.frame.Parsed)
    (returns : (expireEntries config build flowOps hashOps reception.now
      state).Returns expired) :
    (nfProcess config build flowOps hashOps rowHash reception state).Returns
      (processParsed config build flowOps hashOps rowHash reception
        expired) := by
  rw [nfProcess_eq, if_pos parsed]
  exact returns.bind (Fuelled.returns_pure _)

section Runs

variable (config : Config) (build : Map.Build) (flowOps : Map.KeyOps Flow)
  (hashOps : Map.KeyOps ℕ) (rowHash : Fin sketchHashes → Client → ℕ)

/-- No flow expires while the packets are processed. -/
def NoFlowExpires (maxFlows : ℕ) : List Reception → State → Prop :=
  Fuelled.Along
    (fun reception state =>
      reception.frame.Parsed → NoFlowOld config maxFlows reception.now state)
    (nfProcess config build flowOps hashOps rowHash)

/-- A state after some packets whose times never decrease, none of them after
`now`. -/
def Reachable
    (fresh : State)
    (now : ℤ)
    (state : State) : Prop :=
  ∃ receptions devices,
    (receptions.Pairwise fun earlier later => earlier.now ≤ later.now) ∧
      (∀ reception ∈ receptions, reception.now ≤ now) ∧
      (run config build flowOps hashOps rowHash receptions fresh).Returns (devices, state)

end Runs

/-- Packets are processed one after the other, and the structures stay sound. -/
theorem Sound.run
    (rowHash : Fin sketchHashes → Client → ℕ)
    (config : Config)
    (ordered : receptions.Pairwise fun earlier later => earlier.now ≤ later.now)
    (sound : ∀ reception ∈ receptions,
      Sound build flowHash hash maxFlows sketchCapacity reception.now state) :
    ∃ devices final,
      (run config build (.ofHash flowHash) (.ofHash hash) rowHash receptions
        state).Returns (devices, final) ∧
      ∀ later, Sound build flowHash hash maxFlows sketchCapacity later state →
        (∀ reception ∈ receptions, reception.now ≤ later) →
          Sound build flowHash hash maxFlows sketchCapacity later final :=
  Fuelled.transcript_keeps Reception.now
    (Sound build flowHash hash maxFlows sketchCapacity) (fun le sound => sound.mono le)
    (fun _ _ sound => sound.nfProcess rowHash config) ordered sound

theorem HasFlow.nfProcess
    (sound : Sound build flowHash hash maxFlows sketchCapacity
      reception.now state)
    (quiet : reception.frame.Parsed →
      NoFlowOld config maxFlows reception.now state)
    (hasFlow : HasFlow build flowHash flow state)
    (returns : (nfProcess config build (.ofHash flowHash) (.ofHash hash) rowHash
      reception
      state).Returns (device, following)) :
    HasFlow build flowHash flow following := by
  by_cases parsed : reception.frame.Parsed
  · obtain ⟨expired, expires, soundExpired, keeps⟩ :=
      sound.expireEntries config reception.now
    have same : following = (processParsed config build (.ofHash flowHash) (.ofHash hash)
        rowHash reception expired).2 :=
      congrArg Prod.snd (returns.unique (nfProcess_returns parsed expires))
    rw [same]
    exact (soundExpired.processParsed rowHash config).2 flow
      (keeps (quiet parsed) flow hasFlow)
  · rw [nfProcess_eq, if_neg parsed] at returns
    obtain ⟨_, rfl⟩ := Prod.mk.inj (returns.unique (Fuelled.returns_pure _))
    exact hasFlow

theorem HasFlow.run
    (ordered : receptions.Pairwise fun earlier later => earlier.now ≤ later.now)
    (sound : Sound build flowHash hash maxFlows sketchCapacity now state)
    (started : ∀ reception ∈ receptions, now ≤ reception.now)
    (quiet : NoFlowExpires config build (.ofHash flowHash) (.ofHash hash)
      rowHash maxFlows (receptions ++ rest) state)
    (hasFlow : HasFlow build flowHash flow state)
    (returns : (run config build (.ofHash flowHash) (.ofHash hash) rowHash
      receptions state).Returns (devices, final)) :
    HasFlow build flowHash flow final ∧
      NoFlowExpires config build (.ofHash flowHash) (.ofHash hash) rowHash
        maxFlows rest final := by
  induction receptions generalizing now state devices with
  | nil =>
      obtain ⟨_, rfl⟩ := Prod.mk.inj (returns.unique (Fuelled.returns_pure _))
      exact ⟨hasFlow, quiet⟩
  | cons reception receptions ih =>
      obtain ⟨notBefore, restOrdered⟩ := List.pairwise_cons.mp ordered
      have soundHere := sound.mono (started reception List.mem_cons_self)
      obtain ⟨⟨device, following⟩, processed, returns⟩ :=
        Fuelled.returns_bind_iff.mp returns
      obtain ⟨⟨others, reached⟩, ran, isFinal⟩ := Fuelled.returns_bind_iff.mp returns
      obtain ⟨_, rfl⟩ := Prod.mk.inj (isFinal.unique (Fuelled.returns_pure _))
      obtain ⟨_, _, returned, stillSound⟩ := soundHere.nfProcess rowHash config
      obtain ⟨_, rfl⟩ := Prod.mk.inj (returned.unique processed)
      exact ih restOrdered stillSound notBefore
        (quiet.2 device _ processed) (hasFlow.nfProcess soundHere quiet.1 processed) ran

/-- A packet of a flow from the WAN is dropped in a reachable state.  Its flow
was new, the table had room for it, and the sketch did not count it.  Still,
whatever packets follow, a later packet of the flow from the WAN is forwarded if
no flow has expired since. -/
theorem denial_never_sticks
    (config : Config)
    (rowHash : Fin sketchHashes → Client → ℕ)
    {flowsMemory : Map.Arrays (KeyRef Flow)}
    {flowAllocatorMemory : DoubleChain}
    {sketchMemory : Sketch.Memory}
    {maxClients : ℕ}
    {fresh following : State}
    (positive : 0 < maxFlows)
    (bounded : maxFlows < 2 ^ 31)
    (sketchPositive : 0 < sketchCapacity)
    (sketchBounded : sketchCapacity * sketchHashes ≤ 2 ^ 30)
    (allocated : allocState build flowsMemory flowAllocatorMemory sketchMemory
      maxFlows sketchCapacity maxClients = some fresh)
    {packet later : Reception}
    {between : List Reception}
    (reachable : Reachable config build (.ofHash flowHash) (.ofHash hash)
      rowHash fresh packet.now state)
    (ordered : (packet :: (between ++ [later])).Pairwise
      fun earlier later => earlier.now ≤ later.now)
    (wan : IsWan config packet)
    (laterWan : IsWan config later)
    (sameFlow : flowOf later.frame = flowOf packet.frame)
    (dropped : (nfProcess config build (.ofHash flowHash) (.ofHash hash)
      rowHash packet state).Returns (packet.device, following))
    (quiet : NoFlowExpires config build (.ofHash flowHash) (.ofHash hash)
      rowHash maxFlows (between ++ [later]) following) :
    (∃ expired, (expireEntries config build (.ofHash flowHash) (.ofHash hash)
        packet.now state).Returns expired ∧
      Denies build flowHash hash rowHash maxFlows (flowOf packet.frame)
        expired) ∧
    ∃ devices reached,
      (run config build (.ofHash flowHash) (.ofHash hash) rowHash between
        following).Returns (devices, reached) ∧
      ∃ final,
        (nfProcess config build (.ofHash flowHash) (.ofHash hash) rowHash later
          reached).Returns (config.lanDevice, final) ∧
        config.lanDevice ≠ later.device := by
  have soundFresh : ∀ now, Sound build flowHash hash maxFlows sketchCapacity now fresh :=
    Sound.allocate positive bounded sketchPositive sketchBounded allocated
  obtain ⟨afterPacket, laterOrdered⟩ := List.pairwise_cons.mp ordered
  obtain ⟨betweenOrdered, _, beforeLater⟩ := List.pairwise_append.mp laterOrdered
  obtain ⟨receptions, _, pastOrdered, past, ran⟩ := reachable
  -- The state before the first packet.
  obtain ⟨_, _, returned, soundAfter⟩ :=
    Sound.run rowHash config pastOrdered fun reception _ => soundFresh reception.now
  obtain ⟨_, rfl⟩ := Prod.mk.inj (ran.unique returned)
  obtain ⟨expired, expires, soundExpired, _⟩ :=
    (soundAfter packet.now (soundFresh packet.now) past).expireEntries config packet.now
  have limits := soundExpired.limits rowHash (flowOf packet.frame)
  have processed := dropped.unique (nfProcess_returns wan.parsed expires)
  rw [processParsed_of_wan wan] at processed
  generalize limitClients build (.ofHash flowHash) (.ofHash hash) rowHash
    (flowOf packet.frame) packet.now expired = outcome at *
  obtain ⟨isDropped, rfl⟩ := Prod.mk.inj processed
  have drops : outcome.1 = false :=
    Bool.eq_false_of_not_eq_true fun forwards => wan.notLan (by rwa [if_pos forwards] at isDropped)
  refine ⟨⟨expired, expires, limits.denies.mp drops⟩, ?_⟩
  -- The packets in between leave the flow in the table.
  have started : ∀ reception ∈ between, packet.now ≤ reception.now :=
    fun reception member => afterPacket reception (List.mem_append_left _ member)
  obtain ⟨devices, reached, betweenRan, soundReached⟩ :=
    Sound.run rowHash config betweenOrdered
      fun reception member => limits.sound.mono (started reception member)
  obtain ⟨hasFlow, quietLater, _⟩ :=
    (limits.records drops).run betweenOrdered limits.sound started quiet betweenRan
  have soundLater := soundReached later.now
    (limits.sound.mono (afterPacket later (by simp)))
    fun reception member => beforeLater reception member later List.mem_cons_self
  obtain ⟨remaining, laterExpires, soundRemaining, keeps⟩ :=
    soundLater.expireEntries config later.now
  have laterLimits := soundRemaining.limits rowHash (flowOf later.frame)
  have forwards : (limitClients build (.ofHash flowHash) (.ofHash hash) rowHash
      (flowOf later.frame) later.now remaining).1 = true :=
    Bool.eq_true_of_not_eq_false fun dropsLater =>
      (laterLimits.denies.mp dropsLater).isNew
        (sameFlow ▸ keeps (quietLater laterWan.parsed) _ hasFlow)
  have returns : (nfProcess config build (.ofHash flowHash) (.ofHash hash) rowHash later
      reached).Returns _ := nfProcess_returns laterWan.parsed laterExpires
  rw [processParsed_of_wan laterWan, forwards, if_pos rfl] at returns
  exact ⟨devices, reached, betweenRan, _, returns, laterWan.notLan.symm⟩

/-- Packets of one client from the WAN, each from the port `srcPort`. -/
def clientPacket
    (now : ℤ)
    (srcPort : ℕ) : Reception where
  now := now
  device := 1
  frame :=
    { isIpv4 := true
      isTcpudp := true
      srcAddr := 10
      dstAddr := 20
      nextProtoId := 6
      srcPort := srcPort
      dstPort := 80
      packetLength := 64 }

/-- Entries live for a second. -/
def secondConfig : Config where
  lanDevice := 0
  wanDevice := 1
  flowExpirationTime := 1000000
  clientExpirationTime := 1000000

/-- A limiter for one flow of a client, with room for four flows in all. -/
def smallState : Option State :=
  allocState .modulo ⟨fun _ => 0, fun _ => .own ⟨0, 0, 0, 0, 0⟩, fun _ => 0, fun _ => 0,
    fun _ => 0⟩ ⟨fun _ => ⟨0, 0⟩, fun _ => 0⟩ (.filled 0) 4 64 0

/-- The third flow of a client, after two that were counted. -/
theorem denial_never_sticks_third_flow :
    ∃ fresh state following, smallState = some fresh ∧
      (run secondConfig .modulo Flow.keyOps Sketch.keyOps Client.rowHash
        [clientPacket 1 1, clientPacket 2 2] fresh).Returns ([0, 0], state) ∧
      (nfProcess secondConfig .modulo Flow.keyOps Sketch.keyOps Client.rowHash
        (clientPacket 3 3) state).Returns (1, following) ∧
      ∃ final,
        (nfProcess secondConfig .modulo Flow.keyOps Sketch.keyOps Client.rowHash
          (clientPacket 4 3) following).Returns (0, final) := by
  obtain ⟨fresh, allocated⟩ : ∃ fresh, smallState = some fresh := ⟨_, rfl⟩
  -- The first three packets in one computation, whose result can be looked at.
  have computed : ∃ result,
      (run secondConfig .modulo Flow.keyOps Sketch.keyOps Client.rowHash
        [clientPacket 1 1, clientPacket 2 2] fresh >>= fun first =>
          nfProcess secondConfig .modulo Flow.keyOps Sketch.keyOps Client.rowHash
            (clientPacket 3 3) first.2 >>= fun second =>
              pure (first.1, second)).Returns result ∧
        decide (result.1 = [0, 0] ∧ result.2.1 = 1 ∧
          ∀ index : Fin 4, dchainIsIndexAllocated result.2.2.flows.chain index = true →
            lastTime 4 secondConfig.flowExpirationTime ≤
              result.2.2.flows.chain.timestamps index) = true := by
    obtain rfl := Option.some.inj allocated
    exact Fuelled.exists_returns_of_any 20 (by decide +kernel)
  obtain ⟨⟨_, _, following⟩, returns, test⟩ := computed
  obtain ⟨rfl, rfl, recent⟩ := of_decide_eq_true test
  obtain ⟨⟨_, state⟩, ran, returns⟩ := Fuelled.returns_bind_iff.mp returns
  obtain ⟨_, dropped, same⟩ := Fuelled.returns_bind_iff.mp returns
  obtain ⟨rfl, rfl⟩ := Prod.mk.inj (Fuelled.returns_pure_iff.mp same)
  have wan (now : ℤ) : IsWan secondConfig (clientPacket now 3) :=
    ⟨⟨rfl, rfl⟩, by simp [clientPacket, secondConfig], rfl⟩
  have quiet : NoFlowExpires secondConfig .modulo Flow.keyOps Sketch.keyOps Client.rowHash
      4 ([] ++ [clientPacket 4 3]) following := by
    refine ⟨fun _ index inside allocated => ?_, fun _ _ _ => trivial⟩
    lift index to ℕ using inside.1
    exact recent ⟨index, by omega⟩ allocated
  obtain ⟨_, _, reached, between, final, forwarded, _⟩ :=
    denial_never_sticks secondConfig Client.rowHash (by decide : 0 < 4) (by decide)
      (by decide : 0 < 64) (by decide) allocated
      ⟨[clientPacket 1 1, clientPacket 2 2], _, by decide, by decide, ran⟩
      (by decide : (clientPacket 3 3 :: ([] ++ [clientPacket 4 3])).Pairwise
        fun earlier later => earlier.now ≤ later.now) (wan 3) (wan 4) rfl dropped quiet
  obtain ⟨_, rfl⟩ := Prod.mk.inj (between.unique (Fuelled.returns_pure _))
  exact ⟨fresh, state, reached, allocated, ran, dropped, final, forwarded⟩

/-- The third flow of a client is dropped, and its next packet is forwarded,
although no entry is old enough to expire. -/
theorem denial_does_not_stick :
    ∃ fresh, smallState = some fresh ∧
      (∃ final, (run secondConfig .modulo Flow.keyOps Sketch.keyOps
        Client.rowHash
          [clientPacket 1 1, clientPacket 2 2, clientPacket 3 3,
            clientPacket 4 3] fresh).Returns ([0, 0, 1, 0], final)) ∧
      lastTime 4 secondConfig.flowExpirationTime < 1 ∧
      lastTime 4 secondConfig.clientExpirationTime < 1 := by
  refine ⟨_, rfl, Fuelled.exists_returns_fst 20 ?_, by decide, by decide⟩
  decide +kernel

end Vigcl
end Vigor
