import Vigor.Vigpsd.Scans

/-!
# When the cleanup of the port-scan detector works

The ports of a source stay in the map when its entry expires.  They are to be
erased when its index goes to a new source, but the loop that does this starts
at the cell `index` instead of the cell `max_ports * index`.  It erases the
right cells only for index 0, and nothing for an index that was not used before.

So the map contains what it should as long as no source expires, or the only one
that does has index 0 and the same packet is from a new source, which gets the
index.
-/

namespace Vigor
namespace Vigpsd

open DoubleChain Function

/-- The ports map contains exactly the ports of all entries, each exactly
once. -/
def State.Contains
    {capacity : ℕ}
    (build : Map.Build)
    (portOps : Map.KeyOps TouchedPort)
    (state : State)
    (scans : Scans capacity) : Prop :=
  (∀ touched, state.ports.get build portOps (.own touched) ≠ none ↔
    touched ∈ scans.pairs) ∧
  scans.pairs.Nodup ∧ Map.mapSize state.ports.map = scans.pairs.length

/-- So far no `map_put` saw a present key and no `map_erase` an absent one. -/
def KeysRespected
    {K : Type u}
    (build : Map.Build)
    (ops : Map.KeyOps K)
    (keys : KeyedMap K) : Prop :=
  ∀ call ∈ keys.calls,
    match call with
    | .mapPut map vector key => Map.mapGet build (ops.onRefs vector) map key = none
    | .mapErase map vector key => Map.mapGet build (ops.onRefs vector) map key ≠ none
    | .write _ _ => True

/-- The packets that the detector looks at. -/
def Config.FromWan
    (config : Config)
    (reception : Reception) : Prop :=
  reception.frame.Parsed ∧ reception.device ≠ config.lanDevice ∧
    reception.device = config.wanDevice

instance (config : Config) (reception : Reception) :
    Decidable (config.FromWan reception) :=
  inferInstanceAs (Decidable (_ ∧ _))

/-- The index is in use, and was last used too long ago. -/
def State.Expires
    (config : Config)
    (now index : ℤ)
    (state : State) : Prop :=
  dchainIsIndexAllocated state.srcs.chain index = true ∧
    state.srcs.chain.timestamps index < now - config.lifetime

section Runs

variable (config : Config) (build : Map.Build) (srcOps : Map.KeyOps ℕ)
  (portOps : Map.KeyOps TouchedPort)

/-- The condition on a packet and the state before it: if an entry expires, then
its index is 0, the packet is looked at, and the source of the packet has no
entry with another index. -/
def CleanStep
    (capacity : ℕ)
    (reception : Reception)
    (state : State) : Prop :=
  reception.frame.Parsed →
    ∀ index : ℤ, 0 ≤ index ∧ index < capacity →
      state.Expires config reception.now index →
      index = 0 ∧ config.FromWan reception ∧
        ∀ other, state.srcs.keys.get build srcOps (.own reception.frame.srcAddr) =
          some other → other = 0

/-- Every step of a run meets the condition. -/
def CleanRun (capacity : ℕ) : List Reception → State → Prop :=
  Fuelled.Along (CleanStep config build srcOps capacity)
    (nfProcess config build srcOps portOps)

/-- Every packet of a run goes where it should, and after it the ports map
contains what it should and was used as it should. -/
def Faithful
    {capacity : ℕ}
    (maxPorts : ℕ) :
    List Reception → State → Scans capacity → Prop
  | [], _, _ => True
  | reception :: receptions, state, scans =>
      ∃ following,
        (nfProcess config build srcOps portOps reception state).Returns
          ((scanStep config maxPorts reception scans).1, following) ∧
        following.Contains build portOps (scanStep config maxPorts reception scans).2 ∧
        KeysRespected build portOps following.ports ∧
        Faithful maxPorts receptions following
          (scanStep config maxPorts reception scans).2

end Runs

/-! ## Entries and their ports -/

namespace Scans

variable {capacity : ℕ} {scans : Scans capacity}

/-- The entries in use are those that have ports. -/
def Held (scans : Scans capacity) : Prop :=
  ∀ index, scans.slot index ≠ [] ↔ index ∈ scans.srcs.alloc

/-- The condition on a packet, and the entries before it. -/
def Clean
    (config : Config)
    (reception : Reception)
    (scans : Scans capacity) : Prop :=
  reception.frame.Parsed →
    ∀ index ∈ scans.srcs.expired (reception.now - config.lifetime),
      index = 0 ∧ config.FromWan reception ∧
        ∀ other ∈ scans.srcs.alloc,
          scans.srcs.value other = reception.frame.srcAddr → other = 0

instance (config : Config) (reception : Reception) (scans : Scans capacity) :
    Decidable (scans.Clean config reception) :=
  inferInstanceAs (Decidable (_ → _))

theorem mem_alloc_iff
    {index : ℤ}
    (limit : ℤ)
    (scans : Scans capacity) :
    index ∈ scans.srcs.alloc ↔
      index ∈ scans.srcs.expired limit ∨
        index ∈ (scans.srcs.expire limit).alloc := by
  rw [IndexTable.alloc_expire, IndexTable.expired, ← List.mem_append,
    List.takeWhile_append_dropWhile]

theorem not_mem_expire
    {limit index : ℤ}
    (expired : index ∈ scans.srcs.expired limit) :
    index ∉ (scans.srcs.expire limit).alloc := by
  have nodup : (scans.srcs.expired limit ++ (scans.srcs.expire limit).alloc).Nodup := by
    rw [IndexTable.alloc_expire, IndexTable.expired, List.takeWhile_append_dropWhile]
    exact scans.srcs.nodup_alloc
  exact fun kept => (List.nodup_append.mp nodup).2.2 index expired index kept rfl

theorem first_free
    {limit index : ℤ}
    {rest : List ℤ}
    (available : (scans.srcs.expire limit).allocator.free = index :: rest)
    (single : ∀ other ∈ scans.srcs.expired limit, other = first)
    (expired : other ∈ scans.srcs.expired limit) : index = first := by
  rw [IndexTable.free_expire] at available
  cases shape : (scans.srcs.expired limit).reverse with
  | nil =>
      rw [List.reverse_eq_nil_iff] at shape
      simp [shape] at expired
  | cons head tail =>
      rw [shape, List.cons_append, List.cons.injEq] at available
      refine available.1 ▸ single head ?_
      rw [← List.mem_reverse, shape]
      exact List.mem_cons_self

namespace Held

variable (held : scans.Held)

include held

theorem slot_expire
    {limit index : ℤ}
    (kept : index ∉ scans.srcs.expired limit) :
    (scans.expire limit).slot index = scans.slot index := by
  rw [Scans.slot_expire]
  split_ifs with inUse
  · rfl
  · symm
    rw [← not_ne_iff, held index, mem_alloc_iff limit]
    exact not_or.mpr ⟨kept, inUse⟩

theorem expire (limit : ℤ) : (scans.expire limit).Held := by
  intro index
  rw [Scans.slot_expire]
  split_ifs with inUse
  · rw [held index]
    exact iff_of_true (IndexTable.mem_of_mem_expire inUse) inUse
  · exact iff_of_false (not_not.mpr rfl) inUse

theorem detect
    (maxPorts src port : ℕ)
    (now : ℤ) :
    (scans.detect maxPorts src port now).2.Held := by
  intro other
  cases found : scans.srcs.find fun stored => stored = src with
  | some index =>
      have inUse := (IndexTable.find_eq_some found).1
      obtain ⟨_, srcs_eq, slot_eq⟩ := detect_known found maxPorts port now
      rw [srcs_eq, slot_eq, IndexTable.mem_alloc_refresh inUse, ← held other, pushed]
      split_ifs
      · rfl
      · by_cases same : other = index
        · subst same
          simpa using (held other).mpr inUse
        · rw [update_of_ne same]
  | none =>
      cases free : scans.srcs.allocator.free with
      | nil => rw [detect_full found free, held other]
      | cons index rest =>
          obtain ⟨_, srcs_eq, slot_eq⟩ := detect_new found free maxPorts port now
          rw [srcs_eq, slot_eq, IndexTable.mem_alloc_insert free, ← held other]
          by_cases same : other = index
          · simp [same]
          · simp [same]

theorem scanStep
    (config : Config)
    (maxPorts : ℕ)
    (reception : Reception) :
    (scanStep config maxPorts reception scans).2.Held := by
  rw [Vigpsd.scanStep]
  split_ifs
  · exact held.expire _
  · exact (held.expire _).detect _ _ _ _
  · exact held.expire _
  · exact held

end Held

/-! ## Counting ports -/

section

variable {limit index : ℤ} (bounded : ∀ index, (scans.slot index).length ≤ maxPorts)

theorem length_slot_expire_le
    (scans : Scans capacity)
    (limit index : ℤ) :
    ((scans.expire limit).slot index).length ≤ (scans.slot index).length := by
  rw [slot_expire]
  split_ifs
  · rfl
  · exact Nat.zero_le _

theorem slot_expire_of_free (free : index ∉ (scans.srcs.expire limit).alloc) :
    (scans.expire limit).slot index = [] := by
  rw [slot_expire, if_neg free]

include bounded

theorem length_pairs_expire (expires : index ∈ scans.srcs.expired limit) :
    (scans.expire limit).pairs.length + (scans.slot index).length ≤
      scans.pairs.length :=
  KeyedMap.length_contents_add_le bounded (scans.length_slot_expire_le limit)
    (scans.srcs.allocator.inRange_of_mem_alloc
      ((scans.mem_alloc_iff limit).mpr (.inl expires)))
    (slot_expire_of_free (not_mem_expire expires))

theorem length_pairs_expire_two
    (expires : index ∈ scans.srcs.expired limit)
    (free : other ∉ (scans.srcs.expire limit).alloc)
    (inside : 0 ≤ other ∧ other < capacity)
    (different : other ≠ index) :
    (scans.expire limit).pairs.length + (scans.slot index).length +
      (scans.slot other).length ≤ scans.pairs.length := by
  have emptied := KeyedMap.length_contents_update bounded
    (scans.srcs.allocator.inRange_of_mem_alloc
      ((scans.mem_alloc_iff limit).mpr (.inl expires)))
    (show ([] : List TouchedPort).length ≤ maxPorts from Nat.zero_le _)
  have fewer (another : ℤ) : ((scans.expire limit).slot another).length ≤
      (update scans.slot index [] another).length := by
    rw [update_apply]
    split_ifs with same
    · rw [same, slot_expire_of_free (not_mem_expire expires)]
    · exact scans.length_slot_expire_le limit another
  have le := KeyedMap.length_contents_add_le (KeyedMap.length_update_le bounded
    (show ([] : List TouchedPort).length ≤ maxPorts from Nat.zero_le _) index) fewer
    inside (slot_expire_of_free free)
  rw [update_of_ne different] at le
  rw [List.length_nil] at emptied
  rw [pairs, pairs]
  omega

end

end Scans

theorem length_contents_pushed
    {capacity maxPorts : ℕ}
    {slot less : ℤ → List TouchedPort}
    {index : ℤ}
    (bounded : ∀ index, (slot index).length ≤ maxPorts)
    (lessBounded : ∀ index, (less index).length ≤ maxPorts)
    (inside : 0 ≤ index ∧ index < capacity)
    (same : less index = slot index)
    (touched : TouchedPort) :
    (KeyedMap.contents capacity (pushed maxPorts index touched less)).length +
        (KeyedMap.contents capacity slot).length =
      (KeyedMap.contents capacity (pushed maxPorts index touched slot)).length +
        (KeyedMap.contents capacity less).length := by
  rw [pushed, pushed, same]
  split_ifs with kept
  · exact Nat.add_comm _ _
  · have fits : (slot index ++ [touched]).length ≤ maxPorts := by
      rw [List.length_append, List.length_singleton]
      omega
    have added := KeyedMap.length_contents_update bounded inside fits
    have addedToLess := KeyedMap.length_contents_update lessBounded inside fits
    rw [same] at addedToLess
    omega

section Code

variable
  {config : Config}
  {build : Map.Build}
  {srcHash : ℕ → ℕ}
  {portHash : TouchedPort → ℕ}
  {capacity maxPorts : ℕ}
  {now : ℤ}
  {state : State}
  {scans : Scans capacity}
  {reception : Reception}

/-- The structures of the detector represent the entries and their ports. -/
structure State.Represents
    (build : Map.Build)
    (srcHash : ℕ → ℕ)
    (portHash : TouchedPort → ℕ)
    {capacity : ℕ}
    (maxPorts : ℕ)
    (now : ℤ)
    (state : State)
    (scans : Scans capacity) : Prop where
  holds : state.Holds build srcHash portHash maxPorts now scans.srcs scans.slot
  held : scans.Held

namespace State.Represents

section

variable (represents : state.Represents build srcHash portHash maxPorts now scans)

include represents

theorem mono (le : now ≤ later) :
    state.Represents build srcHash portHash maxPorts later scans :=
  ⟨represents.holds.mono le, represents.held⟩

theorem contains : state.Contains build (.ofHash portHash) scans := by
  have ports := represents.holds.ports
  refine ⟨fun touched => ?_, ports.nodup_contents, ports.size_eq⟩
  rw [ne_eq, ports.get_eq_none_iff, not_not]
  rfl

theorem keysRespected : KeysRespected build (.ofHash portHash) state.ports := by
  intro call member
  have safe := represents.holds.ports.lists.safe call member
  cases call with
  | mapPut map vector key => exact safe.1
  | mapErase map vector key => exact safe
  | write map index => trivial

/-- The entry of a port in a slot is the one of its source. -/
theorem source_of_mem_slot
    {index : ℤ}
    (member : (⟨src, port⟩ : TouchedPort) ∈ scans.slot index) :
    index ∈ scans.srcs.alloc ∧ scans.srcs.value index = src :=
  ⟨(represents.held index).mp (List.ne_nil_of_mem member),
    (Scans.mem_slot.mp member).1⟩

theorem length_slot_pos
    {limit index : ℤ}
    (expires : index ∈ scans.srcs.expired limit) :
    0 < (scans.slot index).length :=
  List.length_pos_of_ne_nil ((represents.held index).mpr
    ((scans.mem_alloc_iff limit).mpr (.inl expires)))

theorem apart_of_known
    {index other : ℤ}
    (inUse : index ∈ scans.srcs.alloc)
    (isSource : scans.srcs.value index = src)
    (member : (⟨src, port⟩ : TouchedPort) ∈ scans.slot other) :
    other = index := by
  obtain ⟨otherInUse, same⟩ := represents.source_of_mem_slot member
  exact represents.holds.srcs.index_unique otherInUse inUse (same.trans isSource.symm)

theorem cleanStep_iff :
    CleanStep config build (.ofHash srcHash) capacity reception state ↔
      scans.Clean config reception := by
  have current := represents.holds.srcs
  refine imp_congr_right fun _ => forall_congr' fun index => ?_
  have expires_iff : (0 ≤ index ∧ index < capacity) ∧
      state.Expires config reception.now index ↔
        index ∈ scans.srcs.expired (reception.now - config.lifetime) := by
    rw [current.sorted.expired_eq, List.mem_filter, State.Expires,
      current.coherent.tracks.times, decide_eq_true_iff, ← and_assoc]
    refine and_congr_left fun _ => ?_
    constructor
    · rintro ⟨inside, allocated⟩
      exact (current.coherent.tracks.dchainIsIndexAllocated_iff inside.1 inside.2).mp
        allocated
    · intro inUse
      have inside := scans.srcs.allocator.inRange_of_mem_alloc inUse
      exact ⟨inside, (current.coherent.tracks.dchainIsIndexAllocated_iff inside.1
        inside.2).mpr inUse⟩
  rw [← and_imp, expires_iff]
  refine imp_congr_right fun _ => and_congr_right fun _ => and_congr_right fun _ =>
    forall_congr' fun other => ?_
  rw [current.get_eq_some_iff, and_imp]

end

/-! ## One packet -/

section

variable
  (represents : state.Represents build srcHash portHash maxPorts now scans)
  {limit : ℤ}
  {expired : State}
  (kept : expired.Holds build srcHash portHash maxPorts now
    (scans.srcs.expire limit) scans.slot)

include represents kept

theorem source_cases (src : ℕ) :
    (∃ index, expired.srcs.keys.get build (.ofHash srcHash) (.own src) =
          some index ∧
        index ∈ (scans.srcs.expire limit).alloc ∧
        (scans.expire limit).srcs.find (fun stored => stored = src) =
          some index ∧
        scans.srcs.value index = src ∧
        ∀ port other, (⟨src, port⟩ : TouchedPort) ∈ scans.slot other →
          other = index) ∨
      expired.srcs.keys.get build (.ofHash srcHash) (.own src) = none ∧
        (scans.expire limit).srcs.find (fun stored => stored = src) = none ∧
        ∀ other ∈ scans.srcs.alloc, scans.srcs.value other = src →
          other ∈ scans.srcs.expired limit := by
  have search := kept.srcs.get_eq_find src
  cases found : expired.srcs.keys.get build (.ofHash srcHash) (.own src) with
  | some index =>
      obtain ⟨inUse, isSource⟩ := kept.srcs.get_eq_some_iff.mp found
      rw [IndexTable.expire_value] at isSource
      exact .inl ⟨index, rfl, inUse, search.symm.trans found, isSource,
        fun _ _ member => represents.apart_of_known
          (IndexTable.mem_of_mem_expire inUse) isSource member⟩
  | none =>
      refine .inr ⟨rfl, search.symm.trans found, fun other inUse isSource => ?_⟩
      refine ((scans.mem_alloc_iff limit).mp inUse).resolve_right fun stays => ?_
      refine kept.srcs.get_eq_none_iff.mp found other stays ?_
      rwa [IndexTable.expire_value]

theorem detectPortScanning_of_clean
    (positive : 0 < maxPorts)
    (clean : ∀ index ∈ scans.srcs.expired limit,
      index = 0 ∧ ∀ other ∈ scans.srcs.alloc, scans.srcs.value other = src →
        other = 0) :
    let outcome := (scans.expire limit).detect maxPorts src port now
    ∃ state', detectPortScanning build (.ofHash srcHash) (.ofHash portHash) src port
        now expired = (outcome.1, state') ∧
      state'.Holds build srcHash portHash maxPorts now outcome.2.srcs
        outcome.2.slot := by
  intro outcome
  have same_slots (none : ∀ index, index ∉ scans.srcs.expired limit) :
      (scans.expire limit).slot = scans.slot :=
    funext fun index => represents.held.slot_expire (none index)
  rcases represents.source_cases kept src with
    ⟨index, found, inUse, search, isSource, apart⟩ | ⟨missing, search, gone⟩
  · have none : ∀ other, other ∉ scans.srcs.expired limit := by
      intro other expires
      obtain ⟨rfl, only⟩ := clean other expires
      obtain rfl := only index (IndexTable.mem_of_mem_expire inUse) isSource
      exact Scans.not_mem_expire expires inUse
    obtain ⟨reply, srcs_eq, slot_eq⟩ := Scans.detect_known search maxPorts port now
    rw [same_slots none] at reply slot_eq
    simp only [outcome]
    rw [reply, srcs_eq, slot_eq]
    exact kept.detectPortScanning_known found (apart port)
  cases free : (scans.srcs.expire limit).allocator.free with
  | nil =>
      have none : ∀ other, other ∉ scans.srcs.expired limit := by
        rw [IndexTable.free_expire] at free
        simp [List.reverse_eq_nil_iff.mp (List.append_eq_nil_iff.mp free).1]
      simp only [outcome]
      rw [Scans.detect_full search free, kept.detectPortScanning_full missing free]
      exact ⟨expired, rfl, same_slots none ▸ kept⟩
  | cons index rest =>
      have first {other : ℤ} (expires : other ∈ scans.srcs.expired limit) :
          other = index :=
        (clean other expires).1.trans (Scans.first_free free
          (fun other member => (clean other member).1) expires).symm
      obtain ⟨reply, srcs_eq, slot_eq⟩ := Scans.detect_new search free maxPorts port now
      have slots : update (scans.expire limit).slot index [⟨src, port⟩] =
          update scans.slot index [⟨src, port⟩] := by
        funext other
        by_cases same : other = index
        · simp [same]
        · rw [update_of_ne same, update_of_ne same]
          exact represents.held.slot_expire fun expires => same (first expires)
      simp only [outcome]
      rw [reply, srcs_eq, slot_eq, slots]
      refine kept.detectPortScanning_new missing positive free ?_ fun other member => ?_
      · by_cases expires : index ∈ scans.srcs.expired limit
        · exact .inl (clean index expires).1
        · refine .inr ?_
          rw [← represents.held.slot_expire expires, ← not_ne_iff,
            (represents.held.expire limit) index]
          exact fun inUse => IndexTable.ne_of_available free inUse rfl
      · obtain ⟨inUse, isSource⟩ := represents.source_of_mem_slot member
        exact first (gone other inUse isSource)

theorem clean_of_size_eq
    (bounded : capacity * maxPorts < 2 ^ 31)
    (positive : 0 < maxPorts)
    (size_eq : Map.mapSize (detectPortScanning build (.ofHash srcHash)
      (.ofHash portHash) src port now expired).2.ports.map =
        ((scans.expire limit).detect maxPorts src port now).2.pairs.length)
    (expires : index ∈ scans.srcs.expired limit) :
    index = 0 ∧ ∀ other ∈ scans.srcs.alloc, scans.srcs.value other = src →
      other = 0 := by
  have room := kept.ports.bounded
  have fewer := scans.length_slot_expire_le limit
  have lost := Scans.length_pairs_expire room expires
  have some := represents.length_slot_pos expires
  rcases represents.source_cases kept src with
    ⟨known, found, inUse, search, _, apart⟩ | ⟨missing, search, gone⟩
  · -- The port of a source that has an entry does not make up for the lost ones.
    obtain ⟨_, _, slot_eq⟩ := Scans.detect_known search maxPorts port now
    obtain ⟨state', reply, holds⟩ := kept.detectPortScanning_known found (apart port)
    have counted := length_contents_pushed room
      (fun other => (fewer other).trans (room other)) (kept.inside_of_get found)
      (show (scans.expire limit).slot known = scans.slot known by
        rw [Scans.slot_expire, if_pos inUse]) ⟨src, port⟩
    rw [reply, Scans.pairs, slot_eq] at size_eq
    have size := holds.ports.size_eq.symm.trans size_eq
    rw [Scans.pairs, Scans.pairs] at lost
    omega
  cases free : (scans.srcs.expire limit).allocator.free with
  | nil =>
      rw [IndexTable.free_expire] at free
      simp [List.reverse_eq_nil_iff.mp (List.append_eq_nil_iff.mp free).1] at expires
  | cons first rest =>
      -- The loop erases at most as many keys as the slot has, and all only from 0 on.
      obtain ⟨_, _, slot_eq⟩ := Scans.detect_new search free maxPorts port now
      have unused : first ∉ (scans.srcs.expire limit).alloc :=
        fun inUse => IndexTable.ne_of_available free inUse rfl
      have inside : 0 ≤ first ∧ first < capacity :=
        (scans.srcs.expire limit).allocator.inRange_of_mem_free (by simp [free])
      have size := kept.size_detectPortScanning_new missing bounded free port
      have counted := KeyedMap.length_contents_update
        (fun other => (fewer other).trans (room other)) inside
        (show [(⟨src, port⟩ : TouchedPort)].length ≤ maxPorts from positive)
      rw [Scans.slot_expire_of_free unused, List.length_nil, List.length_singleton]
        at counted
      rw [Scans.pairs, slot_eq] at size_eq
      have isZero {other : ℤ} (expires : other ∈ scans.srcs.expired limit) :
          other = 0 := by
        have lost := Scans.length_pairs_expire room expires
        have some := represents.length_slot_pos expires
        by_cases same : first = other
        · subst same
          rw [Scans.pairs, Scans.pairs] at lost
          omega
        · have lostTwo := Scans.length_pairs_expire_two room expires unused inside same
          rw [Scans.pairs, Scans.pairs] at lostTwo
          omega
      exact ⟨isZero expires, fun other inUse isSource =>
        isZero (gone other inUse isSource)⟩

end

variable (portHash) in
theorem nfProcess_of_fromWan
    (fromWan : config.FromWan reception)
    (expires : (Vigpsd.expireEntries config build (.ofHash srcHash)
      reception.now state).Returns expired) :
    (nfProcess config build (.ofHash srcHash) (.ofHash portHash) reception
      state).Returns
        (if (detectPortScanning build (.ofHash srcHash) (.ofHash portHash)
            reception.frame.srcAddr reception.frame.dstPort reception.now
              expired).1
          then reception.device else config.lanDevice,
        (detectPortScanning build (.ofHash srcHash) (.ofHash portHash)
          reception.frame.srcAddr reception.frame.dstPort reception.now
            expired).2) := by
  obtain ⟨parsed, outside, inbound⟩ := fromWan
  rw [nfProcess_eq, if_pos parsed]
  refine expires.bind (Fuelled.returns_pure_iff.mpr ?_)
  rw [processParsed, if_neg outside, if_pos inbound]
  dsimp only
  split <;> rfl

theorem scanStep_of_fromWan (fromWan : config.FromWan reception) :
    scanStep config maxPorts reception scans =
      (if ((scans.expire (reception.now - config.lifetime)).detect maxPorts
            reception.frame.srcAddr reception.frame.dstPort reception.now).1
          then reception.device else config.lanDevice,
        ((scans.expire (reception.now - config.lifetime)).detect maxPorts
          reception.frame.srcAddr reception.frame.dstPort
            reception.now).2) := by
  obtain ⟨parsed, outside, inbound⟩ := fromWan
  rw [scanStep, if_neg (not_not.mpr parsed)]
  dsimp only
  rw [if_neg outside, if_pos inbound]

theorem nfProcess_of_not_fromWan
    (parsed : reception.frame.Parsed)
    (other : ¬config.FromWan reception)
    (expires : (Vigpsd.expireEntries config build srcOps reception.now
      state).Returns expired) :
    (nfProcess config build srcOps portOps reception state).Returns
        ((scanStep config maxPorts reception scans).1, expired) ∧
      (scanStep config maxPorts reception scans).2 =
        scans.expire (reception.now - config.lifetime) := by
  rw [nfProcess_eq, if_pos parsed, scanStep, if_neg (not_not.mpr parsed)]
  dsimp only
  by_cases outbound : reception.device = config.lanDevice
  · rw [if_pos outbound]
    exact ⟨expires.bind (Fuelled.returns_pure_iff.mpr (if_pos outbound)), rfl⟩
  · have elsewhere : reception.device ≠ config.wanDevice :=
      fun inbound => other ⟨parsed, outbound, inbound⟩
    rw [if_neg outbound, if_neg elsewhere]
    refine ⟨expires.bind (Fuelled.returns_pure_iff.mpr ?_), rfl⟩
    rw [processParsed, if_neg outbound, if_neg elsewhere]

section

variable (represents : state.Represents build srcHash portHash maxPorts reception.now scans)
  (positive : 0 < maxPorts)

include represents positive

theorem nfProcess
    (clean : scans.Clean config reception) :
    ∃ following,
      (nfProcess config build (.ofHash srcHash) (.ofHash portHash) reception
        state).Returns
          ((scanStep config maxPorts reception scans).1, following) ∧
      following.Represents build srcHash portHash maxPorts reception.now
        (scanStep config maxPorts reception scans).2 := by
  have held := represents.held.scanStep config maxPorts reception
  by_cases parsed : reception.frame.Parsed
  · obtain ⟨expired, expires, kept⟩ := represents.holds.expireEntries config
    by_cases fromWan : config.FromWan reception
    · rw [scanStep_of_fromWan fromWan] at held ⊢
      obtain ⟨following, reply, holds⟩ := represents.detectPortScanning_of_clean kept
        positive fun index expired =>
          ⟨(clean parsed index expired).1, (clean parsed index expired).2.2⟩
      have returns := nfProcess_of_fromWan portHash fromWan expires
      rw [reply] at returns
      exact ⟨following, returns, holds, held⟩
    · obtain ⟨returns, scans_eq⟩ := nfProcess_of_not_fromWan parsed fromWan expires
      refine ⟨expired, returns, ?_, held⟩
      have same_slots : (scans.expire (reception.now - config.lifetime)).slot =
          scans.slot :=
        funext fun index => represents.held.slot_expire fun expired =>
          fromWan (clean parsed index expired).2.1
      rw [scans_eq, same_slots]
      exact kept
  · rw [nfProcess_eq, if_neg parsed, scanStep, if_pos parsed]
    exact ⟨state, Fuelled.returns_pure _, represents⟩

theorem clean
    (bounded : capacity * maxPorts < 2 ^ 31)
    (returns : (Vigpsd.nfProcess config build (.ofHash srcHash)
      (.ofHash portHash) reception state).Returns (device, following))
    (contains : following.Contains build (.ofHash portHash)
      (scanStep config maxPorts reception scans).2) :
    scans.Clean config reception := by
  intro parsed index expired
  obtain ⟨state', expires, kept⟩ := represents.holds.expireEntries config
  have size_eq := contains.2.2
  by_cases fromWan : config.FromWan reception
  · obtain ⟨_, rfl⟩ := Prod.mk.inj (returns.unique
      (nfProcess_of_fromWan portHash fromWan expires))
    rw [scanStep_of_fromWan fromWan] at size_eq
    obtain ⟨isZero, only⟩ := represents.clean_of_size_eq kept bounded positive size_eq
      expired
    exact ⟨isZero, fromWan, only⟩
  · -- The entry is gone, and its ports are still in the map.
    obtain ⟨returns', scans_eq⟩ := nfProcess_of_not_fromWan parsed fromWan expires
    obtain ⟨_, rfl⟩ := Prod.mk.inj (returns.unique returns')
    rw [scans_eq] at size_eq
    have lost := Scans.length_pairs_expire kept.ports.bounded expired
    have some := represents.length_slot_pos expired
    have size := kept.ports.size_eq.symm.trans size_eq
    rw [Scans.pairs, Scans.pairs] at lost
    rw [Scans.pairs] at size
    omega

end

end State.Represents

/-! ## Runs -/

variable {receptions : List Reception}

section

variable (positive : 0 < maxPorts)
  (ordered : receptions.Pairwise fun earlier later => earlier.now ≤ later.now)
  (represents : ∀ reception ∈ receptions,
    state.Represents build srcHash portHash maxPorts reception.now scans)

include positive ordered represents

theorem faithful_iff
    (bounded : capacity * maxPorts < 2 ^ 31) :
    Faithful config build (.ofHash srcHash) (.ofHash portHash) maxPorts
        receptions state scans ↔
      CleanRun config build (.ofHash srcHash) (.ofHash portHash) capacity
        receptions state := by
  induction receptions generalizing state scans with
  | nil => exact Iff.rfl
  | cons reception receptions ih =>
      obtain ⟨notBefore, restOrdered⟩ := List.pairwise_cons.mp ordered
      have before := represents reception List.mem_cons_self
      constructor
      · rintro ⟨following, returns, contains, _, rest⟩
        have clean := before.clean positive bounded returns contains
        obtain ⟨following', returns', after⟩ := before.nfProcess positive clean
        obtain ⟨_, rfl⟩ := Prod.mk.inj (returns'.unique returns)
        refine ⟨before.cleanStep_iff.mpr clean, fun device other otherReturns => ?_⟩
        obtain ⟨_, rfl⟩ := Prod.mk.inj (otherReturns.unique returns)
        exact (ih restOrdered fun next member =>
          after.mono (notBefore next member)).mp rest
      · rintro ⟨clean, rest⟩
        obtain ⟨following, returns, after⟩ :=
          before.nfProcess positive (before.cleanStep_iff.mp clean)
        exact ⟨following, returns, after.contains, after.keysRespected,
          (ih restOrdered fun next member =>
            after.mono (notBefore next member)).mpr (rest _ _ returns)⟩

theorem cleanRun_of_permitted
    (permitted : Transcript.Permitted (Scans.Clean config)
      (scanStep config maxPorts) receptions scans) :
    CleanRun config build (.ofHash srcHash) (.ofHash portHash) capacity
      receptions state := by
  induction receptions generalizing state scans with
  | nil => trivial
  | cons reception receptions ih =>
      obtain ⟨notBefore, restOrdered⟩ := List.pairwise_cons.mp ordered
      obtain ⟨clean, rest⟩ := permitted
      have before := represents reception List.mem_cons_self
      obtain ⟨following, returns, after⟩ := before.nfProcess positive clean
      refine ⟨before.cleanStep_iff.mpr clean, fun device other otherReturns => ?_⟩
      obtain ⟨_, rfl⟩ := Prod.mk.inj (otherReturns.unique returns)
      exact ih restOrdered (fun next member => after.mono (notBefore next member)) rest

end

theorem Faithful.run_returns
    (faithful : Faithful config build srcOps portOps maxPorts receptions state
      scans) :
    ∃ final, (run config build srcOps portOps receptions state).Returns
      ((Transcript.run (scanStep config maxPorts) receptions scans).1,
        final) := by
  induction receptions generalizing state scans with
  | nil => exact ⟨state, Fuelled.returns_pure _⟩
  | cons reception receptions ih =>
      obtain ⟨following, returns, _, _, rest⟩ := faithful
      obtain ⟨final, restReturns⟩ := ih rest
      exact ⟨final, returns.bind (restReturns.bind (Fuelled.returns_pure _))⟩

theorem State.Represents.allocState
    {touchedPortsCounter : ℤ → ℕ}
    (positive : 0 < capacity)
    (somePorts : 0 < maxPorts)
    (bounded : capacity * maxPorts < 2 ^ 31)
    (zero : ∀ index : ℤ,
      0 ≤ index ∧ index < capacity → touchedPortsCounter index = 0)
    (allocated : allocState build srcsMemory srcsKey allocatorMemory
      touchedPortsCounter portsMemory portsKey capacity maxPorts = some state)
    (now : ℤ) :
    state.Represents build srcHash portHash maxPorts now
      (Scans.initial capacity srcsKey allocatorMemory.timestamps) :=
  ⟨.allocState positive somePorts bounded zero allocated now,
    fun _ => iff_of_false (not_not.mpr rfl) List.not_mem_nil⟩

/-- From the start, packets are dropped exactly when they should be and the
ports map contains exactly the ports of the entries in use, if and only if a
source expires only at index 0, and only when the packet is from a source that
has no entry besides it. -/
theorem port_scans_detected_iff
    (config : Config)
    {srcsMemory : Map.Arrays (KeyRef ℕ)}
    {srcsKey : ℤ → ℕ}
    {allocatorMemory : DoubleChain}
    {touchedPortsCounter : ℤ → ℕ}
    {portsMemory : Map.Arrays (KeyRef TouchedPort)}
    {portsKey : ℤ → TouchedPort}
    (positive : 0 < capacity)
    (somePorts : 1 ≤ maxPorts)
    (bounded : capacity * maxPorts < 2 ^ 31)
    (zero : ∀ index : ℤ,
      0 ≤ index ∧ index < capacity → touchedPortsCounter index = 0)
    (allocated : allocState build srcsMemory srcsKey allocatorMemory
      touchedPortsCounter portsMemory portsKey capacity maxPorts = some state)
    {receptions : List Reception}
    (ordered : receptions.Pairwise fun earlier later =>
      earlier.now ≤ later.now) :
    Faithful config build (.ofHash srcHash) (.ofHash portHash) maxPorts
        receptions state
          (Scans.initial capacity srcsKey allocatorMemory.timestamps) ↔
      CleanRun config build (.ofHash srcHash) (.ofHash portHash) capacity
        receptions state :=
  faithful_iff somePorts ordered
    (fun reception _ => .allocState positive somePorts bounded zero allocated reception.now)
    bounded

end Code

/-- A detector for two sources and two ports.  A source touches three ports, and
after it expired a new source takes its index, which is 0. -/
theorem port_scans_detected_example :
    let srcsMemory : Map.Arrays (KeyRef ℕ) := ⟨fun _ => 1, fun _ => .own 0,
      fun _ => 0, fun _ => 1, fun _ => 0⟩
    let portsMemory : Map.Arrays (KeyRef TouchedPort) := ⟨fun _ => 1,
      fun _ => .own ⟨0, 0⟩, fun _ => 0, fun _ => 1, fun _ => 0⟩
    let allocatorMemory : DoubleChain := ⟨fun _ => ⟨0, 0⟩, fun _ => 0⟩
    let packet (now : ℤ) (src port : ℕ) : Reception :=
      ⟨now, 0, ⟨true, true, src, 9, 6, 1, port, 100⟩⟩
    let packets := [packet 0 5 80, packet 1 6 80, packet 2 5 81, packet 3 5 82,
      packet 900 6 81, packet 1500 7 80]
    ∃ state, allocState .modulo srcsMemory (fun _ => 0) allocatorMemory (fun _ => 0)
        portsMemory (fun _ => ⟨0, 0⟩) 2 2 = some state ∧
      Faithful ⟨1, 0, 1⟩ .modulo (.ofHash ipAddrHash) (.ofHash touchedPortHash) 2
        packets state (Scans.initial 2 (fun _ => 0) fun _ => 0) ∧
      (Transcript.run (scanStep ⟨1, 0, 1⟩ 2) packets
        (Scans.initial 2 (fun _ => 0) fun _ => 0)).1 = [1, 1, 1, 0, 1, 1] := by
  intro srcsMemory portsMemory allocatorMemory packet packets
  obtain ⟨state, allocated⟩ : ∃ state, allocState .modulo srcsMemory (fun _ => 0)
      allocatorMemory (fun _ => 0) portsMemory (fun _ => ⟨0, 0⟩) 2 2 = some state :=
    ⟨_, rfl⟩
  have ordered : packets.Pairwise fun earlier later => earlier.now ≤ later.now := by
    decide
  have permitted : Transcript.Permitted (Scans.Clean ⟨1, 0, 1⟩) (scanStep ⟨1, 0, 1⟩ 2)
      packets (Scans.initial 2 (fun _ => 0) allocatorMemory.timestamps) :=
    ⟨by decide +kernel, by decide +kernel, by decide +kernel, by decide +kernel,
      by decide +kernel, by decide +kernel, trivial⟩
  refine ⟨state, allocated, ?_, by decide +kernel⟩
  exact (port_scans_detected_iff ⟨1, 0, 1⟩ (by decide) (by decide) (by decide)
    (fun _ _ => rfl) allocated ordered).mpr
      (cleanRun_of_permitted (by decide) ordered
        (fun reception _ => .allocState (by decide) (by decide) (by decide)
          (fun _ _ => rfl) allocated reception.now) permitted)

/-- Three sources and two ports each.  Source 6 has index 1 and touches two
ports, and expires.  When it comes back, it gets index 1 again and keeps its old
ports in the map. It can then touch three ports, and the third one is not
dropped. -/
theorem port_scan_missed_after_expiry :
    let config : Config := ⟨1, 0, 1⟩
    let srcsMemory : Map.Arrays (KeyRef ℕ) := ⟨fun _ => 1, fun _ => .own 0,
      fun _ => 0, fun _ => 1, fun _ => 0⟩
    let portsMemory : Map.Arrays (KeyRef TouchedPort) := ⟨fun _ => 1,
      fun _ => .own ⟨0, 0⟩, fun _ => 0, fun _ => 1, fun _ => 0⟩
    let allocatorMemory : DoubleChain := ⟨fun _ => ⟨0, 0⟩, fun _ => 0⟩
    let packet (now : ℤ) (src port : ℕ) : Reception :=
      ⟨now, 0, ⟨true, true, src, 9, 6, 1, port, 100⟩⟩
    let packets := [packet 0 5 80, packet 1 6 80, packet 1 6 81, packet 900 5 80,
      packet 1500 6 80, packet 1501 6 81, packet 1502 6 82]
    ∃ state, allocState .modulo srcsMemory (fun _ => 0) allocatorMemory (fun _ => 0)
        portsMemory (fun _ => ⟨0, 0⟩) 3 2 = some state ∧
      (∃ final, (run config .modulo (.ofHash ipAddrHash) (.ofHash touchedPortHash)
        packets state).Returns ([1, 1, 1, 1, 1, 1, 1], final)) ∧
      (Transcript.run (scanStep config 2) packets
        (Scans.initial 3 (fun _ => 0) fun _ => 0)).1 = [1, 1, 1, 1, 1, 1, 0] ∧
      ¬Faithful config .modulo (.ofHash ipAddrHash) (.ofHash touchedPortHash) 2 packets
        state (Scans.initial 3 (fun _ => 0) fun _ => 0) := by
  intro config srcsMemory portsMemory allocatorMemory packet packets
  obtain ⟨state, allocated, computed⟩ : ∃ state,
      allocState .modulo srcsMemory (fun _ => 0) allocatorMemory (fun _ => 0)
        portsMemory (fun _ => ⟨0, 0⟩) 3 2 = some state ∧
      ((run config .modulo (.ofHash ipAddrHash) (.ofHash touchedPortHash) packets
        state).run 9).map Prod.fst = some [1, 1, 1, 1, 1, 1, 1] :=
    ⟨_, rfl, by decide +kernel⟩
  have expected : (Transcript.run (scanStep config 2) packets
      (Scans.initial 3 (fun _ => 0) fun _ => 0)).1 = [1, 1, 1, 1, 1, 1, 0] := by
    decide +kernel
  obtain ⟨final, returns⟩ := Fuelled.exists_returns_fst 9 computed
  refine ⟨state, allocated, ⟨final, returns⟩, expected, fun faithful => ?_⟩
  obtain ⟨other, otherReturns⟩ := faithful.run_returns
  rw [expected] at otherReturns
  have same := (Prod.mk.inj (returns.unique otherReturns)).1
  revert same
  decide

end Vigpsd
end Vigor
