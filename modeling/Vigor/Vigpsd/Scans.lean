import Vigor.FlowTable.Current
import Vigor.Vigpsd.Ports

/-!
# What a port-scan detector does

The sources that have an entry, and for each entry the ports that were accepted
since it was made.  When a source expires, its ports go with it.  The code keeps
the ports of an entry in a slot of a flat vector and in a map, and there they
stay after the expiry.
-/

namespace Vigor
namespace Vigpsd

open DoubleChain Function

/-- Nanoseconds after which an idle source expires. -/
def Config.lifetime (config : Config) : ℤ :=
  config.expirationTime * 1000

/-- The entries of the sources, and the ports accepted for the entry of each
index. -/
structure Scans (capacity : ℕ) where
  srcs : IndexTable capacity ℕ
  accepted : ℤ → List ℕ

namespace Scans

variable {capacity : ℕ}

/-- No source has an entry.  The values and the times of the free indexes are
arbitrary. -/
def initial
    (capacity : ℕ)
    (value : ℤ → ℕ)
    (time : ℤ → ℤ) : Scans capacity :=
  { srcs := .initial capacity value time
    accepted := fun _ => [] }

/-- Remove the sources that are idle, and their ports. -/
def expire
    (limit : ℤ)
    (scans : Scans capacity) : Scans capacity :=
  { srcs := scans.srcs.expire limit
    accepted := fun index =>
      if index ∈ (scans.srcs.expire limit).alloc then scans.accepted index else [] }

/-- A packet to a port.  It is dropped if its source has an entry, as many ports
as are allowed have been accepted since the entry was made, and the port is not
one of them. -/
def detect
    (maxPorts src port : ℕ)
    (now : ℤ)
    (scans : Scans capacity) : Bool × Scans capacity :=
  match scans.srcs.find fun stored => stored = src with
  | some index =>
      let used := { scans with srcs := scans.srcs.refresh index now }
      if port ∈ scans.accepted index then (false, used)
      else if maxPorts ≤ (scans.accepted index).length then (true, used)
      else
        (false,
          { used with
            accepted := update scans.accepted index
              (scans.accepted index ++ [port]) })
  | none =>
      match scans.srcs.insert src now with
      | (some index, srcs) =>
          (false,
            { srcs := srcs
              accepted := update scans.accepted index [port] })
      | (none, _) => (false, scans)

/-- The ports of an entry, with its source. -/
def slot
    (scans : Scans capacity)
    (index : ℤ) : List TouchedPort :=
  (scans.accepted index).map fun port => { src := scans.srcs.value index, port := port }

theorem mem_slot
    {scans : Scans capacity}
    {index : ℤ}
    {touched : TouchedPort} :
    touched ∈ scans.slot index ↔
      scans.srcs.value index = touched.src ∧
        touched.port ∈ scans.accepted index := by
  obtain ⟨src, port⟩ := touched
  simp [slot, and_comm]

/-- The ports of all entries. -/
def pairs (scans : Scans capacity) : List TouchedPort :=
  KeyedMap.contents capacity scans.slot

end Scans

/-- What is done with a packet. -/
def scanStep
    {capacity : ℕ}
    (config : Config)
    (maxPorts : ℕ)
    (reception : Reception)
    (scans : Scans capacity) : ℕ × Scans capacity :=
  if ¬reception.frame.Parsed then (reception.device, scans)
  else
    let scans := scans.expire (reception.now - config.lifetime)
    if reception.device = config.lanDevice then (config.wanDevice, scans)
    else if reception.device = config.wanDevice then
      let (detected, scans) := scans.detect maxPorts reception.frame.srcAddr
        reception.frame.dstPort reception.now
      (if detected then reception.device else config.lanDevice, scans)
    else (reception.device, scans)

/-! ## Slots -/

/-- The slots after a packet of a source that has an entry. -/
def pushed
    (maxPorts : ℕ)
    (index : ℤ)
    (touched : TouchedPort)
    (slot : ℤ → List TouchedPort) : ℤ → List TouchedPort :=
  if touched ∈ slot index ∨ maxPorts ≤ (slot index).length then slot
  else update slot index (slot index ++ [touched])

/-- Whether a packet of a source that has an entry is a port scan. -/
def exceeds
    (maxPorts : ℕ)
    (touched : TouchedPort)
    (slot : List TouchedPort) : Bool :=
  touched ∉ slot ∧ maxPorts ≤ slot.length

section

variable {maxPorts : ℕ} {index : ℤ} {touched : TouchedPort}
  {slot : ℤ → List TouchedPort}

theorem pushed_of_mem (present : touched ∈ slot index) :
    pushed maxPorts index touched slot = slot :=
  if_pos (.inl present)

theorem pushed_of_exhausted (exhausted : maxPorts ≤ (slot index).length) :
    pushed maxPorts index touched slot = slot :=
  if_pos (.inr exhausted)

theorem pushed_of_room
    (absent : touched ∉ slot index)
    (room : ¬maxPorts ≤ (slot index).length) :
    pushed maxPorts index touched slot =
      update slot index (slot index ++ [touched]) :=
  if_neg (not_or.mpr ⟨absent, room⟩)

theorem exceeds_of_mem
    {ports : List TouchedPort}
    (present : touched ∈ ports) :
    exceeds maxPorts touched ports = false := by
  simp [exceeds, present]

theorem exceeds_of_exhausted
    {ports : List TouchedPort}
    (absent : touched ∉ ports)
    (exhausted : maxPorts ≤ ports.length) :
    exceeds maxPorts touched ports = true := by
  simp [exceeds, absent, exhausted]

theorem exceeds_of_room
    {ports : List TouchedPort}
    (room : ¬maxPorts ≤ ports.length) :
    exceeds maxPorts touched ports = false := by
  simp [exceeds, room]

end

namespace Scans

variable {capacity : ℕ} {scans : Scans capacity} {src port : ℕ} {index now limit : ℤ}

theorem detect_known
    (found : scans.srcs.find (fun stored => stored = src) = some index)
    (maxPorts port : ℕ)
    (now : ℤ) :
    let outcome := scans.detect maxPorts src port now
    outcome.1 = exceeds maxPorts ⟨src, port⟩ (scans.slot index) ∧
      outcome.2.srcs = scans.srcs.refresh index now ∧
      outcome.2.slot = pushed maxPorts index ⟨src, port⟩ scans.slot := by
  have isSource : scans.srcs.value index = src := by
    simpa using (IndexTable.find_eq_some found).2
  have accepted_iff : (⟨src, port⟩ : TouchedPort) ∈ scans.slot index ↔
      port ∈ scans.accepted index := by
    rw [mem_slot]
    exact and_iff_right isSource
  have length_eq : (scans.slot index).length = (scans.accepted index).length :=
    List.length_map _
  intro outcome
  simp only [outcome, detect, found]
  by_cases accepted : port ∈ scans.accepted index
  · have present := accepted_iff.mpr accepted
    rw [if_pos accepted, pushed_of_mem present, exceeds_of_mem present]
    exact ⟨rfl, rfl, rfl⟩
  have absent := mt accepted_iff.mp accepted
  rw [if_neg accepted]
  by_cases exhausted : maxPorts ≤ (scans.slot index).length
  · rw [if_pos (length_eq ▸ exhausted), pushed_of_exhausted exhausted,
      exceeds_of_exhausted absent exhausted]
    exact ⟨rfl, rfl, rfl⟩
  · rw [if_neg (length_eq ▸ exhausted), pushed_of_room absent exhausted,
      exceeds_of_room exhausted]
    refine ⟨rfl, rfl, ?_⟩
    funext other
    by_cases same : other = index <;> simp [slot, IndexTable.refresh, same, isSource]

theorem detect_new
    (missing : scans.srcs.find (fun stored => stored = src) = none)
    (available : scans.srcs.allocator.free = index :: rest)
    (maxPorts port : ℕ)
    (now : ℤ) :
    let outcome := scans.detect maxPorts src port now
    outcome.1 = false ∧ outcome.2.srcs = (scans.srcs.insert src now).2 ∧
      outcome.2.slot = update scans.slot index [⟨src, port⟩] := by
  intro outcome
  simp only [outcome, detect, missing, IndexTable.insert_of_cons available]
  refine ⟨trivial, trivial, ?_⟩
  funext other
  by_cases same : other = index <;> simp [slot, same]

theorem detect_full
    (missing : scans.srcs.find (fun stored => stored = src) = none)
    (full : scans.srcs.allocator.free = [])
    (maxPorts port : ℕ)
    (now : ℤ) :
    scans.detect maxPorts src port now = (false, scans) := by
  rw [detect, missing]
  dsimp only
  rw [IndexTable.insert_of_nil full]

theorem slot_expire
    (limit : ℤ)
    (scans : Scans capacity)
    (index : ℤ) :
    (scans.expire limit).slot index =
      if index ∈ (scans.srcs.expire limit).alloc then scans.slot index else
        [] := by
  rw [slot, expire]
  dsimp only
  split_ifs
  · rw [IndexTable.expire_value, slot]
  · rfl

end Scans

/-! ## The code and the slots -/

/-- The structures of the detector represent the entries of the sources, and the
slots. -/
structure State.Holds
    (build : Map.Build)
    (srcHash : ℕ → ℕ)
    (portHash : TouchedPort → ℕ)
    {capacity : ℕ}
    (maxPorts : ℕ)
    (now : ℤ)
    (state : State)
    (entries : IndexTable capacity ℕ)
    (slot : ℤ → List TouchedPort) : Prop where
  srcs : FlowTable.Current build srcHash now state.srcs entries
  maxPorts_eq : state.maxPorts = maxPorts
  counter_eq : ∀ index : ℤ, 0 ≤ index ∧ index < capacity →
    state.touchedPortsCounter index = (slot index).length
  ports : state.ports.Stores build portHash maxPorts capacity slot

namespace State.Holds

variable
  {build : Map.Build}
  {srcHash : ℕ → ℕ}
  {portHash : TouchedPort → ℕ}
  {capacity maxPorts src port : ℕ}
  {now index : ℤ}
  {state : State}
  {entries : IndexTable capacity ℕ}
  {slot : ℤ → List TouchedPort}

theorem allocState
    {touchedPortsCounter : ℤ → ℕ}
    (positive : 0 < capacity)
    (somePorts : 0 < maxPorts)
    (bounded : capacity * maxPorts < 2 ^ 31)
    (zero : ∀ index : ℤ,
      0 ≤ index ∧ index < capacity → touchedPortsCounter index = 0)
    (allocated : allocState build srcsMemory srcsKey allocatorMemory
      touchedPortsCounter portsMemory portsKey capacity maxPorts = some state)
    (now : ℤ) :
    state.Holds build srcHash portHash maxPorts now
      (.initial capacity srcsKey allocatorMemory.timestamps) fun _ => [] := by
  simp only [Vigpsd.allocState, Option.bind_eq_bind, Option.bind_eq_some_iff,
    Option.pure_def, Option.some.injEq] at allocated
  obtain ⟨srcs, srcsAllocated, ports, portsAllocated, rfl⟩ := allocated
  have noCells : Blocks.cells maxPorts capacity
      (fun _ => ([] : List TouchedPort).length) = [] := by
    simp [Blocks.cells, Blocks.block]
  refine ⟨.allocate positive ?_ srcsAllocated now, rfl, zero, ?_, ⟨?_, ?_⟩, ?_, ?_⟩
  · exact lt_of_le_of_lt (Nat.le_mul_of_pos_right capacity somePorts) bounded
  · exact fun _ => Nat.zero_le _
  · rw [noCells]
    exact Map.Refers.allocate (Nat.mul_pos positive somePorts) bounded portsAllocated
  · exact fun _ member => absurd member List.not_mem_nil
  · exact fun _ _ => rfl
  · exact (Map.mapAllocate_valid (Map.KeyOps.onRefs (.ofHash portHash) portsKey)
      (Nat.mul_pos positive somePorts) bounded portsAllocated).2.1

section

variable (holds : state.Holds build srcHash portHash maxPorts now entries slot)

include holds

theorem mono (le : now ≤ later) :
    state.Holds build srcHash portHash maxPorts later entries slot :=
  { holds with srcs := holds.srcs.mono le }

theorem expireEntries (config : Config) :
    ∃ state', (expireEntries config build (.ofHash srcHash) now state).Returns
        state' ∧
      state'.Holds build srcHash portHash maxPorts now
        (entries.expire (now - config.lifetime)) slot := by
  obtain ⟨srcs', returns, current⟩ :=
    holds.srcs.expireItemsSingleMap (now - config.lifetime)
  exact ⟨{ state with srcs := srcs' }, returns.bind (Fuelled.returns_pure _),
    { holds with srcs := current }⟩

theorem inside_of_get
    (found : state.srcs.keys.get build (.ofHash srcHash) (.own src) =
      some index) :
    0 ≤ index ∧ index < capacity :=
  entries.allocator.inRange_of_mem_alloc (holds.srcs.get_eq_some_iff.mp found).1

theorem size_lt (bounded : capacity * maxPorts < 2 ^ 31) :
    state.ports.map.size < 2 ^ 31 := by
  rw [holds.ports.lists.refers.size_eq]
  refine lt_of_le_of_lt (Blocks.length_cells_le holds.ports.bounded) ?_
  rwa [Nat.mul_comm]

theorem detectPortScanning_known
    (found : state.srcs.keys.get build (.ofHash srcHash) (.own src) =
      some index)
    (apart : ∀ other,
      (⟨src, port⟩ : TouchedPort) ∈ slot other → other = index) :
    ∃ state',
      detectPortScanning build (.ofHash srcHash) (.ofHash portHash) src port
        now state = (exceeds maxPorts ⟨src, port⟩ (slot index), state') ∧
      state'.Holds build srcHash portHash maxPorts now
        (entries.refresh index now)
        (pushed maxPorts index ⟨src, port⟩ slot) := by
  have inside := holds.inside_of_get found
  have inUse := (holds.srcs.get_eq_some_iff.mp found).1
  have present_iff : (⟨src, port⟩ : TouchedPort) ∈ KeyedMap.contents capacity slot ↔
      ⟨src, port⟩ ∈ slot index := by
    rw [KeyedMap.mem_contents]
    constructor
    · rintro ⟨other, _, member⟩
      exact apart other member ▸ member
    · exact fun member => ⟨index, inside, member⟩
  have refreshed : State.Holds build srcHash portHash maxPorts now
      { state with
        srcs := { state.srcs with
          chain := (dchainRejuvenateIndex state.srcs.chain index now).2 } }
      (entries.refresh index now) slot :=
    { holds with srcs := holds.srcs.refresh inUse }
  rw [detectPortScanning, FlowTable.lookup, found]
  dsimp only
  by_cases present : (⟨src, port⟩ : TouchedPort) ∈ slot index
  · obtain ⟨value, isFound⟩ := Option.ne_none_iff_exists'.mp
      (mt holds.ports.get_eq_none_iff.mp (not_not.mpr (present_iff.mpr present)))
    rw [isFound, pushed_of_mem present, exceeds_of_mem present]
    exact ⟨_, rfl, refreshed⟩
  have absent := mt present_iff.mp present
  rw [holds.ports.get_eq_none_iff.mpr absent, holds.maxPorts_eq,
    holds.counter_eq index inside]
  dsimp only
  by_cases exhausted : maxPorts ≤ (slot index).length
  · rw [if_pos exhausted, pushed_of_exhausted exhausted,
      exceeds_of_exhausted present exhausted]
    exact ⟨_, rfl, { refreshed with maxPorts_eq := rfl }⟩
  rw [if_neg exhausted, Int.sub_add_cancel, pushed_of_room present exhausted,
    exceeds_of_room exhausted]
  refine ⟨_, rfl, refreshed.srcs, rfl, fun other otherInside => ?_, ?_⟩
  · dsimp only
    rw [update_apply, update_apply]
    split
    · simp
    · exact holds.counter_eq other otherInside
  · exact holds.ports.push inside (Nat.lt_of_not_le exhausted) absent

theorem cleanup
    (inside : 0 ≤ index ∧ index < capacity)
    (clean : index = 0 ∨ slot index = []) :
    (state.ports.expireItemsSingleMapIteratively build (.ofHash portHash) index
      (state.touchedPortsCounter index)).Stores build portHash maxPorts capacity
        (update slot index []) := by
  have cells_eq : ((List.range (state.touchedPortsCounter index - index).toNat).map
      fun round : ℕ => index + round) =
        Blocks.block maxPorts (fun index => (slot index).length) index := by
    rw [Blocks.block, holds.counter_eq index inside]
    rcases clean with rfl | unused
    · simp
    · have nothing : (((slot index).length : ℤ) - index).toNat = 0 := by
        rw [unused]
        simpa using inside.1
      rw [nothing, unused]
      rfl
  rw [KeyedMap.expireItemsSingleMapIteratively_eq, cells_eq]
  exact holds.ports.clear inside

variable (missing : state.srcs.keys.get build (.ofHash srcHash) (.own src) = none)

include missing

theorem detectPortScanning_new
    (positive : 0 < maxPorts)
    (available : entries.allocator.free = index :: rest)
    (clean : index = 0 ∨ slot index = [])
    (apart : ∀ other,
      (⟨src, port⟩ : TouchedPort) ∈ slot other → other = index) :
    ∃ state',
      detectPortScanning build (.ofHash srcHash) (.ofHash portHash) src port
        now state = (false, state') ∧
      state'.Holds build srcHash portHash maxPorts now
        (entries.insert src now).2 (update slot index [⟨src, port⟩]) := by
  have inside : 0 ≤ index ∧ index < capacity :=
    entries.allocator.inRange_of_mem_free (by simp [available])
  have absent : (⟨src, port⟩ : TouchedPort) ∉
      KeyedMap.contents capacity (update slot index []) := by
    rw [KeyedMap.mem_contents]
    rintro ⟨other, _, member⟩
    by_cases same : other = index
    · simp [same] at member
    · rw [update_of_ne same] at member
      exact same (apart other member)
  obtain ⟨srcs', reply, current⟩ :=
    holds.srcs.allocateFlow_of_available missing available
  have added := (holds.cleanup inside clean).push inside (by simpa using positive) absent
  simp only [update_self, update_idem, List.length_nil,
    List.nil_append] at added
  rw [detectPortScanning, FlowTable.lookup, missing]
  dsimp only
  rw [allocate, reply]
  refine ⟨_, rfl, current, holds.maxPorts_eq, fun other otherInside => ?_, ?_⟩
  · dsimp only
    rw [update_apply, update_apply]
    split
    · rfl
    · exact holds.counter_eq other otherInside
  · rw [holds.maxPorts_eq]
    exact added

theorem detectPortScanning_full
    (full : entries.allocator.free = [])
    (port : ℕ) :
    detectPortScanning build (.ofHash srcHash) (.ofHash portHash) src port
      now state = (false, state) := by
  rw [detectPortScanning, FlowTable.lookup, missing]
  dsimp only
  rw [allocate, holds.srcs.allocateFlow_of_full full]

theorem size_detectPortScanning_new
    (bounded : capacity * maxPorts < 2 ^ 31)
    (available : entries.allocator.free = index :: rest)
    (port : ℕ) :
    Map.mapSize (detectPortScanning build (.ofHash srcHash) (.ofHash portHash)
        src port now state).2.ports.map + ((slot index).length - index).toNat =
      (KeyedMap.contents capacity slot).length + 1 := by
  have inside : 0 ≤ index ∧ index < capacity :=
    entries.allocator.inRange_of_mem_free (by simp [available])
  have small := holds.size_lt bounded
  have before := holds.ports.size_eq
  have cleared := KeyedMap.length_contents_update holds.ports.bounded inside
    (show ([] : List TouchedPort).length ≤ maxPorts from Nat.zero_le _)
  rw [List.length_nil] at cleared
  have erased : (state.ports.expireItemsSingleMapIteratively build
      (.ofHash portHash) index (state.touchedPortsCounter index)).map.size =
        state.ports.map.size - ((slot index).length - index).toNat := by
    rw [KeyedMap.expireItemsSingleMapIteratively_eq, KeyedMap.size_foldl_erase,
      holds.counter_eq index inside]
    · simp
    · rw [holds.counter_eq index inside]
      simp only [List.length_map, List.length_range]
      omega
    · omega
  obtain ⟨srcs', reply, _⟩ := holds.srcs.allocateFlow_of_available missing available
  rw [detectPortScanning, FlowTable.lookup, missing]
  dsimp only
  rw [allocate, reply]
  change ((state.ports.expireItemsSingleMapIteratively build (.ofHash portHash) index
    (state.touchedPortsCounter index)).map.size + 1) % 2 ^ 32 + _ = _
  omega

end

end State.Holds

end Vigpsd
end Vigor
