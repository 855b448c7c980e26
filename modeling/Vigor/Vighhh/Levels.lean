import Vigor.Vighhh.Tables

/-!
# Independence of the levels

The loop over the levels returns when a table has no room for a new source, and
then the levels behind it miss the packet.  A level has the same table as if it
were the only one, as long as this never happens, or only when the level has no
room for its source either.
-/

namespace Vigor
namespace Vighhh

open Function

open DoubleChain
open Vigpol (DynamicValue)

/-! ## The property and its condition -/

/-- The bucket that a level has for a masked source. -/
def Level.bucketOf
    (build : Map.Build)
    (ops : Map.KeyOps (BitVec 32))
    (key : BitVec 32)
    (level : Level) : Option DynamicValue :=
  (level.table.keys.get build ops (.own key)).map level.subnetBuckets

/-- The level does not have the masked source, and no room for it. -/
def Level.Blocks
    (build : Map.Build)
    (ops : Map.KeyOps (BitVec 32))
    (capacity : ℕ)
    (key : BitVec 32)
    (level : Level) : Prop :=
  level.table.keys.get build ops (.own key) = none ∧
    capacity ≤ FlowTable.allocatedCount level.table.chain capacity

instance
    (build : Map.Build)
    (ops : Map.KeyOps (BitVec 32))
    (capacity : ℕ)
    (key : BitVec 32)
    (level : Level) :
    Decidable (level.Blocks build ops capacity key) :=
  inferInstanceAs (Decidable (_ ∧ _))

/-- The configuration with one level. -/
def Config.only
    (config : Config)
    (bit : ℕ) : Config :=
  { config with subnetsMask := 1#32 <<< bit }

/-- If an earlier level blocks the source of a packet that is checked, then so
does the level. -/
def Unhindered
    (config : Config)
    (build : Map.Build)
    (ops : Map.KeyOps (BitVec 32))
    (bit : ℕ)
    (reception : Reception)
    (state : State) : Prop :=
  reception.device ≠ config.lanDevice → reception.device = config.wanDevice →
    (∃ earlier < bit, config.subnetsMask.getLsbD earlier ∧
      (state.levels (rank config.subnetsMask earlier)).Blocks build ops config.dynCapacity
        (maskedSrc earlier (.ofNat 32 reception.frame.srcAddr))) →
    (state.levels (rank config.subnetsMask bit)).Blocks build ops config.dynCapacity
      (maskedSrc bit (.ofNat 32 reception.frame.srcAddr))

instance
    (config : Config)
    (build : Map.Build)
    (ops : Map.KeyOps (BitVec 32))
    (bit : ℕ)
    (reception : Reception)
    (state : State) :
    Decidable (Unhindered config build ops bit reception state) :=
  inferInstanceAs (Decidable (_ → _ → (∃ earlier < bit, _) → _))

/-- All packets of a run do so, each in the state after the expiry. -/
def AlwaysUnhindered
    (config : Config)
    (build : Map.Build)
    (ops : Map.KeyOps (BitVec 32))
    (bit : ℕ) : List Reception → State → Prop :=
  Fuelled.Along
    (fun reception state => reception.frame.isIpv4 = true → ∀ expired,
      (expireEntries config build ops reception.now state).Returns expired →
        Unhindered config build ops bit reception expired)
    (nfProcess config build ops)

/-! ## One packet -/

/-- The ledger does not have the key, and no room for it. -/
def Table.Blocks
    (capacity : ℕ)
    (key : BitVec 32)
    (table : Table) : Prop :=
  table.find key = none ∧ capacity ≤ table.size

section Packet

variable
  {burst thresholdRate capacity : ℕ}
  {subnetsMask src key : BitVec 32}
  {size bit : ℕ}
  {now : ℤ}
  {table : Table}
  {tables : ℕ → Table}

theorem updateTable_of_blocks (blocks : Table.Blocks capacity key table) :
    updateTable burst thresholdRate capacity key size now table =
      (none, table) := by
  unfold updateTable
  rw [blocks.1]
  dsimp only
  rw [if_neg (Nat.not_lt.mpr blocks.2)]

theorem exists_updateTable_reply (passes : ¬Table.Blocks capacity key table) :
    ∃ isCaptured,
      (updateTable burst thresholdRate capacity key size now table).1 =
      some isCaptured := by
  unfold updateTable
  cases found : table.find key with
  | some entry =>
      dsimp only
      split
      · exact ⟨false, rfl⟩
      · exact ⟨true, rfl⟩
  | none =>
      dsimp only
      have room : table.size < capacity := by
        apply Nat.lt_of_not_le
        intro full
        exact passes ⟨found, full⟩
      rw [if_pos room]
      exact ⟨false, rfl⟩

section Rounds

variable {bits : List ℕ}

theorem updateTables_cons_of_clear (clear : subnetsMask.getLsbD bit = false) :
    updateTables burst thresholdRate capacity subnetsMask src size now
        (bit :: bits) tables =
      updateTables burst thresholdRate capacity subnetsMask src size now bits
        tables := by
  rw [updateTables, clear, if_neg Bool.false_ne_true]

section

variable (configured : subnetsMask.getLsbD bit = true)

include configured

theorem updateTables_cons_of_blocks
    (blocks : Table.Blocks capacity (maskedSrc bit src) (tables bit)) :
    updateTables burst thresholdRate capacity subnetsMask src size now
      (bit :: bits) tables = ([], tables) := by
  rw [updateTables, configured, if_pos rfl, updateTable_of_blocks blocks]
  dsimp only
  rw [update_eq_self]

theorem updateTables_cons_of_reply
    (reply : (updateTable burst thresholdRate capacity (maskedSrc bit src)
      size now (tables bit)).1 = some isCaptured) :
    updateTables burst thresholdRate capacity subnetsMask src size now
        (bit :: bits) tables =
      let rest := updateTables burst thresholdRate capacity subnetsMask src size now bits
        (update tables bit (updateTable burst thresholdRate capacity
          (maskedSrc bit src) size now (tables bit)).2)
      ((if isCaptured then [bit + 1] else []) ++ rest.1, rest.2) := by
  rw [updateTables, configured, if_pos rfl]
  generalize updateTable _ _ _ _ _ _ _ = outcome at *
  obtain ⟨replied, table⟩ := outcome
  dsimp only at reply
  subst reply
  rfl

/-- A level that does not block goes on with the levels behind it. -/
theorem updateTables_cons_of_passes
    (passes : ¬Table.Blocks capacity (maskedSrc bit src) (tables bit)) :
    (updateTables burst thresholdRate capacity subnetsMask src size now
        (bit :: bits) tables).2 =
      (updateTables burst thresholdRate capacity subnetsMask src size now bits
        (update tables bit (updateTable burst thresholdRate capacity
          (maskedSrc bit src) size now (tables bit)).2)).2 := by
  obtain ⟨isCaptured, reply⟩ := exists_updateTable_reply passes
  rw [updateTables_cons_of_reply configured reply]

end

theorem updateTables_of_not_mem (absent : bit ∉ bits) :
    (updateTables burst thresholdRate capacity subnetsMask src size now bits
      tables).2 bit = tables bit := by
  induction bits generalizing tables with
  | nil => rfl
  | cons first bits ih =>
      obtain ⟨different, absentLater⟩ := not_or.mp (List.mem_cons.not.mp absent)
      cases configured : subnetsMask.getLsbD first with
      | false =>
          rw [updateTables_cons_of_clear configured]
          exact ih absentLater
      | true =>
          by_cases blocks : Table.Blocks capacity (maskedSrc first src) (tables first)
          · rw [updateTables_cons_of_blocks configured blocks]
          · rw [updateTables_cons_of_passes configured blocks, ih absentLater,
              update_of_ne different]

end Rounds

theorem updateTables_of_hindered
    (inside : bit < first + rounds)
    (hindered : ∃ earlier,
        first ≤ earlier ∧ earlier < bit ∧ subnetsMask.getLsbD earlier ∧
      Table.Blocks capacity (maskedSrc earlier src) (tables earlier)) :
    (updateTables burst thresholdRate capacity subnetsMask src size now
      (List.range' first rounds) tables).2 bit = tables bit := by
  obtain ⟨earlier, notBefore, before, isLevel, blocks⟩ := hindered
  induction rounds generalizing first tables with
  | zero => omega
  | succ rounds ih =>
      rw [List.range'_succ]
      by_cases here : earlier = first
      · subst here
        rw [updateTables_cons_of_blocks isLevel blocks]
      · cases configured : subnetsMask.getLsbD first with
        | false =>
            rw [updateTables_cons_of_clear configured]
            exact ih (by omega) (by omega) blocks
        | true =>
            by_cases blocksHere : Table.Blocks capacity (maskedSrc first src) (tables first)
            · rw [updateTables_cons_of_blocks configured blocksHere]
            · rw [updateTables_cons_of_passes configured blocksHere,
                ih (by omega) (by omega) (by rw [update_of_ne here]; exact blocks),
                update_of_ne (by omega)]

theorem updateTables_of_unhindered
    (notBefore : first ≤ bit)
    (inside : bit < first + rounds)
    (isLevel : subnetsMask.getLsbD bit)
    (unhindered : ∀ earlier,
        first ≤ earlier → earlier < bit → subnetsMask.getLsbD earlier →
      ¬Table.Blocks capacity (maskedSrc earlier src) (tables earlier)) :
    (updateTables burst thresholdRate capacity subnetsMask src size now
      (List.range' first rounds) tables).2 bit =
      (updateTable burst thresholdRate capacity (maskedSrc bit src) size now
        (tables bit)).2 := by
  induction rounds generalizing first tables with
  | zero => omega
  | succ rounds ih =>
      rw [List.range'_succ]
      by_cases here : bit = first
      · subst here
        by_cases blocks : Table.Blocks capacity (maskedSrc bit src) (tables bit)
        · rw [updateTables_cons_of_blocks isLevel blocks, updateTable_of_blocks blocks]
        · have behind : bit ∉ List.range' (bit + 1) rounds := by
            rw [List.mem_range'_1]
            omega
          rw [updateTables_cons_of_passes isLevel blocks,
            updateTables_of_not_mem behind, update_self]
      · have less : first < bit := by omega
        cases configured : subnetsMask.getLsbD first with
        | false =>
            rw [updateTables_cons_of_clear configured]
            exact ih less (by omega) fun earlier notBefore =>
              unhindered earlier (by omega)
        | true =>
            have passes := unhindered first (Nat.le_refl first) less configured
            rw [updateTables_cons_of_passes configured passes,
              ih less (by omega), update_of_ne here]
            intro earlier notBefore
            rw [update_of_ne (by omega)]
            exact unhindered earlier (by omega)

end Packet

/-! ## Levels and ledgers -/

section Ledgers

variable
  {build : Map.Build}
  {hash : BitVec 32 → ℕ}
  {capacity : ℕ}
  {now : ℤ}
  {level : Level}
  {table : Table}

section

variable (keeps : level.Keeps capacity build hash now table)

include keeps

theorem Level.Keeps.get_eq_none_iff :
    level.table.keys.get build (.ofHash hash) (.own key) = none ↔
      table.find key = none := by
  constructor
  · exact FlowTable.Keeps.find_eq_none keeps
  · intro absent
    cases found : level.table.keys.get build (.ofHash hash) (.own key) with
    | none => rfl
    | some index =>
        obtain ⟨time, isFound⟩ := FlowTable.Keeps.find_of_get keeps found
        rw [absent] at isFound
        cases isFound

theorem Level.Keeps.blocks_iff :
    level.Blocks build (.ofHash hash) capacity key ↔
      table.Blocks capacity key := by
  unfold Level.Blocks Table.Blocks
  rw [keeps.get_eq_none_iff, FlowTable.Keeps.allocatedCount_eq keeps]

theorem Level.Keeps.bucketOf_eq
    (key : BitVec 32) :
    level.bucketOf build (.ofHash hash) key =
      (table.find key).map Ledger.Entry.data := by
  unfold Level.bucketOf
  cases found : level.table.keys.get build (.ofHash hash) (.own key) with
  | none =>
      rw [FlowTable.Keeps.find_eq_none keeps found]
      rfl
  | some index =>
      obtain ⟨time, isFound⟩ := FlowTable.Keeps.find_of_get keeps found
      rw [isFound]
      rfl

end

end Ledgers

/-! ## Runs -/

section Runs

variable
  {config : Config}
  {thresholdRate bit : ℕ}
  {tables alone : ℕ → Table}

theorem only_getLsbD_iff
    (inside : bit < 32)
    {other : ℕ} :
    (config.only bit).subnetsMask.getLsbD other = true ↔ other = bit := by
  unfold Config.only
  rw [BitVec.getLsbD_shiftLeft, BitVec.getLsbD_one]
  simp
  omega

theorem only_lanDevice : (config.only bit).lanDevice = config.lanDevice :=
  rfl

theorem only_wanDevice : (config.only bit).wanDevice = config.wanDevice :=
  rfl

theorem rank_only (inside : bit < 32) :
    rank (config.only bit).subnetsMask bit = 0 := by
  unfold rank
  apply List.countP_eq_zero.mpr
  intro other member
  rw [only_getLsbD_iff inside]
  exact (List.mem_range.mp member).ne

/-- If an earlier ledger blocks the source of a packet that is checked, then so
does the ledger of the level. -/
def TablesUnhindered
    (config : Config)
    (bit : ℕ)
    (reception : Reception)
    (tables : ℕ → Table) : Prop :=
  reception.device ≠ config.lanDevice → reception.device = config.wanDevice →
    (∃ earlier < bit, config.subnetsMask.getLsbD earlier ∧
      (tables earlier).Blocks config.dynCapacity
        (maskedSrc earlier (.ofNat 32 reception.frame.srcAddr))) →
    (tables bit).Blocks config.dynCapacity
      (maskedSrc bit (.ofNat 32 reception.frame.srcAddr))

section

variable (inside : bit < 32)
  (configured : config.subnetsMask.getLsbD bit)

include inside configured

/-- Behind the expiry a packet does the same to the level as it would do if the
level were the only one. -/
theorem processTables_only
    (unhindered : TablesUnhindered config bit reception tables)
    (same : tables bit = alone bit) :
    (processTables config thresholdRate reception tables).2 bit =
      (processTables (config.only bit) thresholdRate reception alone).2
        bit := by
  have single : ∀ earlier, 0 ≤ earlier → earlier < bit →
      (config.only bit).subnetsMask.getLsbD earlier = true →
      ¬Table.Blocks (config.only bit).dynCapacity
        (maskedSrc earlier (.ofNat 32 reception.frame.srcAddr)) (alone earlier) := by
    intro earlier _ before isLevel
    exact absurd ((only_getLsbD_iff inside).mp isLevel) before.ne
  unfold processTables
  rw [only_lanDevice, only_wanDevice]
  split_ifs with outgoing incoming
  · exact same
  · dsimp only
    rw [List.range_eq_range', updateTables_of_unhindered (Nat.zero_le bit) (by omega)
      ((only_getLsbD_iff inside).mpr rfl) single, ← same]
    by_cases hindered : ∃ earlier < bit, config.subnetsMask.getLsbD earlier ∧
        (tables earlier).Blocks config.dynCapacity
          (maskedSrc earlier (.ofNat 32 reception.frame.srcAddr))
    · have blocks := unhindered outgoing incoming hindered
      obtain ⟨earlier, before, isLevel, blocksEarlier⟩ := hindered
      rw [updateTables_of_hindered (by omega)
        ⟨earlier, Nat.zero_le earlier, before, isLevel, blocksEarlier⟩]
      exact (congrArg Prod.snd (updateTable_of_blocks blocks)).symm
    · refine updateTables_of_unhindered (Nat.zero_le bit) (by omega) configured ?_
      intro earlier _ before isLevel blocks
      exact hindered ⟨earlier, before, isLevel, blocks⟩
  · exact same

theorem tablesStep_only
    (unhindered : reception.frame.isIpv4 = true →
      TablesUnhindered config bit reception
      fun bit => (tables bit).expire
        (minTime config.burst thresholdRate reception.now))
    (same : tables bit = alone bit) :
    (tablesStep config thresholdRate reception tables).2 bit =
      (tablesStep (config.only bit) thresholdRate reception alone).2 bit := by
  unfold tablesStep
  split_ifs with notIpv4
  · exact same
  · exact processTables_only inside configured
      (unhindered (Bool.eq_true_of_not_eq_false notIpv4)) (congrArg _ same)

theorem run_tables_only
    (permitted : Transcript.Permitted
      (fun reception tables => reception.frame.isIpv4 = true →
        TablesUnhindered config bit reception fun bit =>
          (tables bit).expire
            (minTime config.burst thresholdRate reception.now))
      (tablesStep config thresholdRate) receptions tables)
    (same : tables bit = alone bit) :
    (Transcript.run (tablesStep config thresholdRate) receptions tables).2 bit =
      (Transcript.run (tablesStep (config.only bit) thresholdRate) receptions
        alone).2 bit := by
  induction receptions generalizing tables alone with
  | nil => exact same
  | cons reception receptions ih =>
      rw [Transcript.run_cons, Transcript.run_cons]
      exact ih permitted.2 (tablesStep_only inside configured permitted.1 same)

end

end Runs

theorem State.Keeps.unhindered
    {thresholdRate bit : ℕ}
    {hash : BitVec 32 → ℕ}
    (inside : bit < 32)
    (configured : config.subnetsMask.getLsbD bit)
    (keeps : state.Keeps config thresholdRate build hash reception.now tables)
    (unhindered : Unhindered config build (.ofHash hash) bit reception state) :
    TablesUnhindered config bit reception tables := by
  rintro outgoing incoming ⟨earlier, before, isLevel, blocks⟩
  have keepsEarlier := keeps.levels earlier (by omega) isLevel
  have keepsLevel := keeps.levels bit inside configured
  apply keepsLevel.blocks_iff.mp
  exact unhindered outgoing incoming ⟨earlier, before, isLevel, keepsEarlier.blocks_iff.mpr blocks⟩

/-- A level has the same table after a run as if it were the only one, if no
packet is hindered by an earlier level only. -/
theorem level_as_if_alone
    {config : Config}
    {thresholdRate bit : ℕ}
    {build : Map.Build}
    {hash : BitVec 32 → ℕ}
    {memory aloneMemory : Memory}
    {fresh freshAlone : State}
    (inside : bit < 32)
    (configured : config.subnetsMask.getLsbD bit)
    (positive : 0 < config.dynCapacity)
    (bounded : config.dynCapacity < 2 ^ 31)
    (allocated : allocState build memory thresholdRate config.subnetsMask
      config.dynCapacity = some fresh)
    (allocatedAlone : allocState build aloneMemory thresholdRate
      (config.only bit).subnetsMask config.dynCapacity = some freshAlone)
    {receptions : List Reception}
    (ordered : receptions.Pairwise fun earlier later => earlier.now ≤ later.now)
    (unhindered : AlwaysUnhindered config build (.ofHash hash) bit receptions
      fresh) :
    ∃ replies final repliesAlone finalAlone,
      (run config build (.ofHash hash) receptions fresh).Returns
        (replies, final) ∧
      (run (config.only bit) build (.ofHash hash) receptions freshAlone).Returns
        (repliesAlone, finalAlone) ∧
      ∀ key, (final.levels (rank config.subnetsMask bit)).bucketOf build
          (.ofHash hash) key =
        (finalAlone.levels 0).bucketOf build (.ofHash hash) key := by
  have keeps : ∀ now, fresh.Keeps config thresholdRate build hash now fun _ => .empty :=
    State.Keeps.allocate positive bounded allocated
  have keepsAlone : ∀ now, freshAlone.Keeps (config.only bit) thresholdRate build hash now
      fun _ => .empty :=
    State.Keeps.allocate positive bounded allocatedAlone
  obtain ⟨final, returns, _, keepsFinal⟩ := State.Keeps.run ordered keeps
  obtain ⟨finalAlone, returnsAlone, _, keepsFinalAlone⟩ := State.Keeps.run ordered keepsAlone
  have permitted : Transcript.Permitted
      (fun reception tables => reception.frame.isIpv4 = true →
        TablesUnhindered config bit reception fun bit =>
          (tables bit).expire (minTime config.burst thresholdRate reception.now))
      (tablesStep config thresholdRate) receptions fun _ => .empty := by
    refine Fuelled.permitted_of_along Reception.now
      (fun now state tables => State.Keeps config thresholdRate build hash now state tables)
      (fun le keeps => keeps.mono le) (fun _ _ _ keeps _ => keeps.nfProcess) ordered
      (fun reception _ => keeps reception.now) ?_ unhindered
    intro reception state tables keepsHere allowed isIpv4
    obtain ⟨expired, expires, keepsExpired⟩ := keepsHere.expireEntries reception.now
    exact keepsExpired.unhindered inside configured (allowed isIpv4 expired expires)
  have same : _ = (Transcript.run (tablesStep (config.only bit) thresholdRate) receptions
      fun _ => .empty).2 bit :=
    run_tables_only inside configured permitted rfl
  refine ⟨_, final, _, finalAlone, returns, returnsAlone, fun key => ?_⟩
  have level := keepsFinal.levels bit inside configured
  have levelAlone := keepsFinalAlone.levels bit inside ((only_getLsbD_iff inside).mpr rfl)
  rw [rank_only inside] at levelAlone
  rw [level.bucketOf_eq, same]
  exact (levelAlone.bucketOf_eq key).symm

/-- A packet of fifty bytes from the WAN. -/
def sourcePacket
    (now : ℤ)
    (srcAddr : ℕ) : Reception where
  now := now
  device := 0
  frame :=
    { isIpv4 := true
      isTcpudp := true
      srcAddr := srcAddr
      dstAddr := 0
      nextProtoId := 6
      srcPort := 0
      dstPort := 0
      packetLength := 50 }

/-- Prefixes of eight and of sixteen bits, each with room for one source. -/
def twoLevels : Config where
  lanDevice := 1
  wanDevice := 0
  subnetsMask := 0x8080
  burst := 100
  dynCapacity := 1

/-- Memory filled with zeros. -/
def zeroMemory : Memory where
  map := fun _ => ⟨fun _ => 0, fun _ => .own 0, fun _ => 0, fun _ => 0, fun _ => 0⟩
  subnets := fun _ _ => 0
  allocator := fun _ => ⟨fun _ => ⟨0, 0⟩, fun _ => 0⟩
  subnetBuckets := fun _ _ => ⟨0, 0⟩
  levels := fun _ => ⟨⟨⟨fun _ => ⟨0, 0⟩, fun _ => 0⟩,
    ⟨⟨⟨fun _ => 0, fun _ => .own 0, fun _ => 0, fun _ => 0, fun _ => 0⟩, 0, 0⟩,
      fun _ => 0, []⟩⟩, fun _ => ⟨0, 0⟩⟩

/-- The sources 1.1.0.0 and 1.2.0.0, of which the second finds no room in the
second level. -/
theorem level_as_if_alone_two_sources :
    ∃ fresh freshAlone replies final repliesAlone finalAlone,
      allocState .modulo zeroMemory 10000000000 twoLevels.subnetsMask 1 =
        some fresh ∧
      allocState .modulo zeroMemory 10000000000
        (twoLevels.only 15).subnetsMask 1 = some freshAlone ∧
      (run twoLevels .modulo (.ofHash BitVec.toNat)
        [sourcePacket 0 0x0101, sourcePacket 5 0x0201] fresh).Returns
          (replies, final) ∧
      (run (twoLevels.only 15) .modulo (.ofHash BitVec.toNat)
        [sourcePacket 0 0x0101, sourcePacket 5 0x0201] freshAlone).Returns
          (repliesAlone, finalAlone) ∧
      ∀ key, (final.levels 1).bucketOf .modulo (.ofHash BitVec.toNat) key =
        (finalAlone.levels 0).bucketOf .modulo (.ofHash BitVec.toNat) key := by
  obtain ⟨fresh, allocated⟩ : ∃ fresh, allocState .modulo zeroMemory 10000000000
      twoLevels.subnetsMask 1 = some fresh := ⟨_, rfl⟩
  obtain ⟨freshAlone, allocatedAlone⟩ : ∃ freshAlone, allocState .modulo zeroMemory
      10000000000 (twoLevels.only 15).subnetsMask 1 = some freshAlone := ⟨_, rfl⟩
  have unhindered : AlwaysUnhindered twoLevels .modulo (.ofHash BitVec.toNat) 15
      [sourcePacket 0 0x0101, sourcePacket 5 0x0201] fresh := by
    obtain rfl := Option.some.inj allocated
    refine ⟨fun _ expired expires => ?_, fun reply following processed =>
      ⟨fun _ expired expires => ?_, fun _ _ _ => trivial⟩⟩
    · exact of_decide_eq_true (expires.passes (fun expired => decide (Unhindered twoLevels
        .modulo (.ofHash BitVec.toNat) 15 (sourcePacket 0 0x0101) expired)) 20
        (by decide +kernel))
    · have both : (nfProcess twoLevels .modulo (.ofHash BitVec.toNat) (sourcePacket 0 0x0101) _ >>=
          fun result => expireEntries twoLevels .modulo (.ofHash BitVec.toNat)
            (sourcePacket 5 0x0201).now result.2).Returns expired :=
        processed.bind expires
      exact of_decide_eq_true (both.passes (fun expired => decide (Unhindered twoLevels
        .modulo (.ofHash BitVec.toNat) 15 (sourcePacket 5 0x0201) expired)) 20
        (by decide +kernel))
  obtain ⟨replies, final, repliesAlone, finalAlone, ran, ranAlone, same⟩ :=
    level_as_if_alone (by decide : 15 < 32) (by decide : twoLevels.subnetsMask.getLsbD 15 = true)
      (by decide) (by decide) allocated allocatedAlone (by decide) unhindered
  exact ⟨fresh, freshAlone, replies, final, repliesAlone, finalAlone, allocated,
    allocatedAlone, ran, ranAlone, same⟩

/-- A third source 2.1.0.0 arrives when the first one has expired from the
second level, but its prefix is refused by the first level, where the prefix of
the others is younger. -/
theorem refused_prefix_hides_source :
    ∃ fresh freshAlone replies final repliesAlone finalAlone,
      allocState .modulo zeroMemory 10000000000 twoLevels.subnetsMask 1 =
        some fresh ∧
      allocState .modulo zeroMemory 10000000000
        (twoLevels.only 15).subnetsMask 1 = some freshAlone ∧
      (run twoLevels .modulo (.ofHash BitVec.toNat)
        [sourcePacket 0 0x0101, sourcePacket 5 0x0201, sourcePacket 12 0x0102]
          fresh).Returns (replies, final) ∧
      (run (twoLevels.only 15) .modulo (.ofHash BitVec.toNat)
        [sourcePacket 0 0x0101, sourcePacket 5 0x0201, sourcePacket 12 0x0102]
          freshAlone).Returns (repliesAlone, finalAlone) ∧
      (final.levels 1).bucketOf .modulo (.ofHash BitVec.toNat) 0x0102 = none ∧
      (finalAlone.levels 0).bucketOf .modulo (.ofHash BitVec.toNat) 0x0102 =
        some ⟨50, 12⟩ := by
  obtain ⟨fresh, allocated⟩ : ∃ fresh, allocState .modulo zeroMemory 10000000000
      twoLevels.subnetsMask 1 = some fresh := ⟨_, rfl⟩
  obtain ⟨freshAlone, allocatedAlone⟩ : ∃ freshAlone, allocState .modulo zeroMemory
      10000000000 (twoLevels.only 15).subnetsMask 1 = some freshAlone := ⟨_, rfl⟩
  have ran : ∃ result, (run twoLevels .modulo (.ofHash BitVec.toNat)
      [sourcePacket 0 0x0101, sourcePacket 5 0x0201, sourcePacket 12 0x0102] fresh).Returns
        result ∧
      decide ((result.2.levels 1).bucketOf .modulo (.ofHash BitVec.toNat) 0x0102 = none) =
        true := by
    obtain rfl := Option.some.inj allocated
    exact Fuelled.exists_returns_of_any 20 (by decide +kernel)
  have ranAlone : ∃ result, (run (twoLevels.only 15) .modulo (.ofHash BitVec.toNat)
      [sourcePacket 0 0x0101, sourcePacket 5 0x0201, sourcePacket 12 0x0102]
        freshAlone).Returns result ∧
      decide ((result.2.levels 0).bucketOf .modulo (.ofHash BitVec.toNat) 0x0102 =
        some ⟨50, 12⟩) = true := by
    obtain rfl := Option.some.inj allocatedAlone
    exact Fuelled.exists_returns_of_any 20 (by decide +kernel)
  obtain ⟨⟨replies, final⟩, returns, missing⟩ := ran
  obtain ⟨⟨repliesAlone, finalAlone⟩, returnsAlone, present⟩ := ranAlone
  exact ⟨fresh, freshAlone, replies, final, repliesAlone, finalAlone, allocated,
    allocatedAlone, returns, returnsAlone, of_decide_eq_true missing, of_decide_eq_true present⟩

end Vighhh
end Vigor
