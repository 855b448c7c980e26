import Vigor.Vighhh.Levels

/-!
# Invisible expiry

A bucket expires when it was not used for as long as an empty bucket takes to be
filled up.  A source whose bucket was forgotten starts again with a full one, so
forgetting it changes no answer.  The program is compared with one that never
expires anything and whose tables never run out of space.
-/

namespace Vigor
namespace Vighhh

open Function

open DoubleChain
open Vigpol (DynamicValue fullTime refill secondsMultiplier)

/-! ## Processing without expiry -/

/-- `nf_process` without the call of `expire_entries`. -/
def nfProcessWithoutExpiry
    (config : Config)
    (build : Map.Build)
    (ops : Map.KeyOps (BitVec 32))
    (reception : Reception)
    (state : State) : Fuelled ((ℕ × List ℕ) × State) :=
  if reception.frame.isIpv4 = false then pure ((reception.device, []), state)
  else pure (processExpired config build ops reception state)

/-- Process packets one after the other without expiry. -/
def runWithoutExpiry
    (config : Config)
    (build : Map.Build)
    (ops : Map.KeyOps (BitVec 32))
    (receptions : List Reception)
    (state : State) : Fuelled (List (ℕ × List ℕ) × State) :=
  Fuelled.transcript (nfProcessWithoutExpiry config build ops) receptions state

/-- Every level has the source of a packet that is checked, or room for it. -/
def HasSpace
    (config : Config)
    (build : Map.Build)
    (ops : Map.KeyOps (BitVec 32))
    (reception : Reception)
    (state : State) : Prop :=
  reception.device ≠ config.lanDevice → reception.device = config.wanDevice →
    ∀ bit < 32, config.subnetsMask.getLsbD bit →
      ¬(state.levels (rank config.subnetsMask bit)).Blocks build ops config.dynCapacity
        (maskedSrc bit (.ofNat 32 reception.frame.srcAddr))

instance
    (config : Config)
    (build : Map.Build)
    (ops : Map.KeyOps (BitVec 32))
    (reception : Reception)
    (state : State) :
    Decidable (HasSpace config build ops reception state) :=
  inferInstanceAs (Decidable (_ → _ → ∀ bit < 32, _ → _))

/-- No level runs out of space in the run without expiry. -/
def AlwaysHasSpace
    (config : Config)
    (build : Map.Build)
    (ops : Map.KeyOps (BitVec 32)) : List Reception → State → Prop :=
  Fuelled.Along
    (fun reception state => reception.frame.isIpv4 = true →
      HasSpace config build ops reception state)
    (nfProcessWithoutExpiry config build ops)

/-- Processing without expiry on the ledgers of the levels. -/
def tablesStepWithoutExpiry
    (config : Config)
    (thresholdRate : ℕ)
    (reception : Reception)
    (tables : ℕ → Table) : (ℕ × List ℕ) × (ℕ → Table) :=
  if reception.frame.isIpv4 = false then ((reception.device, []), tables)
  else processTables config thresholdRate reception tables

/-! ## Times -/

section Times

variable {burst thresholdRate : ℕ}

/-- Buckets expire after the time in which an empty one is filled up. -/
theorem expTime_eq_fullTime (small : burst * 10 ^ 9 < 2 ^ 63) :
    expTime burst thresholdRate = fullTime burst thresholdRate := by
  have le : fullTime burst thresholdRate ≤ burst * secondsMultiplier :=
    Nat.le_trans (Nat.div_le_self _ _) (Nat.mod_le _ _)
  have bound : burst * secondsMultiplier < 2 ^ 63 := small
  unfold expTime
  rw [Nat.mul_comm]
  change Int.bmod (fullTime burst thresholdRate) (2 ^ 64) = _
  exact Int.bmod_eq_of_le_mul_two (by omega) (by omega)

theorem minTime_eq
    (small : burst * 10 ^ 9 < 2 ^ 63)
    (notNegative : 0 ≤ time)
    (representable : time < 2 ^ 63) :
    minTime burst thresholdRate time = time - fullTime burst thresholdRate := by
  have le : fullTime burst thresholdRate ≤ burst * secondsMultiplier :=
    Nat.le_trans (Nat.div_le_self _ _) (Nat.mod_le _ _)
  have bound : burst * secondsMultiplier < 2 ^ 63 := small
  unfold minTime
  rw [expTime_eq_fullTime small]
  exact Int.bmod_eq_of_le_mul_two (by omega) (by omega)

theorem refill_of_old
    {value : DynamicValue}
    (old : value.bucketTime < now - fullTime burst thresholdRate) :
    refill burst thresholdRate now value = burst := by
  unfold refill
  dsimp only
  rw [if_neg (by omega)]

end Times

/-! ## One level -/

/-- The part has the entries of the whole from some time on, which was at least
a lifetime ago. -/
structure Remembers (capacity : ℕ) (lifetime now : ℤ) (whole part : Table) :
    Prop where
  restricts : ∃ limit ≤ now - lifetime, Ledger.Restricts limit whole part
  timed : ∀ entry ∈ whole.entries, entry.data.bucketTime = entry.time
  size_le : whole.size ≤ capacity

namespace Remembers

variable {capacity : ℕ} {lifetime now : ℤ} {whole part : Table}

theorem empty : Remembers capacity lifetime now .empty .empty where
  restricts := ⟨now - lifetime, Int.le_refl _, by intro entry; simp [Ledger.empty]⟩
  timed := by intro entry member; cases member
  size_le := Nat.zero_le capacity

theorem mono
    (remembers : Remembers capacity lifetime now whole part)
    (le : now ≤ later) :
    Remembers capacity lifetime later whole part := by
  obtain ⟨limit, notAfter, restricts⟩ := remembers.restricts
  exact { remembers with restricts := ⟨limit, by omega, restricts⟩ }

/-- Expiry forgets all that is older than a lifetime. -/
theorem expire (remembers : Remembers capacity lifetime now whole part) :
    Ledger.Restricts (now - lifetime) whole (part.expire (now - lifetime)) := by
  obtain ⟨limit, notAfter, restricts⟩ := remembers.restricts
  exact restricts.expire notAfter

end Remembers

section Level

variable
  {burst thresholdRate capacity size : ℕ}
  {key : BitVec 32}
  {now : ℤ}
  {whole part : Table}

section

variable (restricts : Ledger.Restricts (now - fullTime burst thresholdRate) whole part)
  (timed : ∀ entry ∈ whole.entries, entry.data.bucketTime = entry.time)

include restricts timed

theorem Remembers.put
    (level : ℕ)
    (fits : (whole.put key ⟨level, now⟩ now).size ≤ capacity) :
    Remembers capacity (fullTime burst thresholdRate) now
      (whole.put key ⟨level, now⟩ now) (part.put key ⟨level, now⟩ now) where
  restricts := ⟨_, Int.le_refl _, restricts.put key _ (by omega)⟩
  timed := by
    intro entry member
    rcases Ledger.mem_put_iff.mp member with rfl | ⟨_, earlier⟩
    · rfl
    · exact timed entry earlier
  size_le := fits

theorem updateTable_of_restricts
    (size_le : whole.size ≤ capacity)
    (smaller : size < burst)
    (passes : ¬Table.Blocks capacity key whole) :
    (updateTable burst thresholdRate capacity key size now part).1 =
        (updateTable burst thresholdRate capacity key size now whole).1 ∧
      Remembers capacity (fullTime burst thresholdRate) now
        (updateTable burst thresholdRate capacity key size now whole).2
        (updateTable burst thresholdRate capacity key size now part).2 := by
  have inPart := restricts.find_eq key
  unfold updateTable
  cases found : whole.find key with
  | none =>
      have room : whole.size < capacity := Nat.lt_of_not_le fun full => passes ⟨found, full⟩
      have roomInPart : part.size < capacity := Nat.lt_of_le_of_lt restricts.size_le room
      rw [found, Option.filter_none] at inPart
      rw [inPart]
      dsimp only
      rw [if_pos room, if_pos roomInPart]
      refine ⟨rfl, .put restricts timed _ ?_⟩
      rw [Ledger.size_put_of_absent found]
      exact room
  | some entry =>
      have fits : ∀ level, (whole.put key ⟨level, now⟩ now).size ≤ capacity := by
        intro level
        rw [Ledger.size_put_of_present (Option.ne_none_iff_exists'.mpr ⟨entry, found⟩)]
        exact size_le
      rw [found] at inPart
      by_cases young : now - fullTime burst thresholdRate ≤ entry.time
      · -- Both tables have the bucket.
        rw [Option.filter_some, if_pos (decide_eq_true young)] at inPart
        rw [inPart]
        dsimp only
        split_ifs
        · exact ⟨rfl, .put restricts timed _ (fits _)⟩
        · exact ⟨rfl, .put restricts timed _ (fits _)⟩
      · -- The bucket was forgotten, and it would be full.
        have member := (Ledger.find_eq_some_iff.mp found).1
        have old : entry.time < now - fullTime burst thresholdRate := by omega
        have roomInPart : part.size < capacity :=
          Nat.lt_of_lt_of_le (restricts.size_lt member old) size_le
        have full : refill burst thresholdRate now entry.data = burst :=
          refill_of_old (by rw [timed entry member]; exact old)
        rw [Option.filter_some, if_neg (by rw [decide_eq_true_iff]; exact young)] at inPart
        rw [inPart]
        dsimp only
        rw [full, if_pos smaller, if_pos roomInPart]
        exact ⟨rfl, .put restricts timed _ (fits _)⟩

end

end Level

/-! ## All levels -/

section Levels

variable
  {burst thresholdRate capacity size : ℕ}
  {subnetsMask src : BitVec 32}
  {now : ℤ}
  {whole part : ℕ → Table}

theorem updateTables_of_restricts
    (smaller : size < burst)
    (restricts : ∀ bit, first ≤ bit →
      Ledger.Restricts (now - fullTime burst thresholdRate) (whole bit)
        (part bit))
    (remembers : ∀ bit,
      Remembers capacity (fullTime burst thresholdRate) now (whole bit)
        (part bit))
    (passes : ∀ bit,
        first ≤ bit → bit < first + rounds → subnetsMask.getLsbD bit →
      ¬Table.Blocks capacity (maskedSrc bit src) (whole bit)) :
    (updateTables burst thresholdRate capacity subnetsMask src size now
        (List.range' first rounds) part).1 =
      (updateTables burst thresholdRate capacity subnetsMask src size now
        (List.range' first rounds) whole).1 ∧
    ∀ bit, Remembers capacity (fullTime burst thresholdRate) now
      ((updateTables burst thresholdRate capacity subnetsMask src size now
        (List.range' first rounds) whole).2 bit)
      ((updateTables burst thresholdRate capacity subnetsMask src size now
        (List.range' first rounds) part).2 bit) := by
  induction rounds generalizing first whole part with
  | zero => exact ⟨rfl, remembers⟩
  | succ rounds ih =>
      rw [List.range'_succ]
      cases configured : subnetsMask.getLsbD first with
      | false =>
          rw [updateTables_cons_of_clear configured, updateTables_cons_of_clear configured]
          exact ih (fun bit behind => restricts bit (by omega)) remembers
            fun bit behind inside => passes bit (by omega) (by omega)
      | true =>
          have passesHere := passes first (Nat.le_refl first) (by omega) configured
          obtain ⟨sameReply, remembersHere⟩ := updateTable_of_restricts
            (restricts first (Nat.le_refl first)) (remembers first).timed
            (remembers first).size_le smaller passesHere
          obtain ⟨isCaptured, reply⟩ := exists_updateTable_reply passesHere
          rw [reply] at sameReply
          rw [updateTables_cons_of_reply configured reply,
            updateTables_cons_of_reply configured sameReply]
          generalize (updateTable _ _ _ _ _ _ (whole first)).2 = wholeHere at *
          generalize (updateTable _ _ _ _ _ _ (part first)).2 = partHere at *
          have restrictsLater : ∀ bit, first + 1 ≤ bit →
              Ledger.Restricts (now - fullTime burst thresholdRate)
                (update whole first wholeHere bit)
                (update part first partHere bit) := by
            intro bit behind
            rw [update_of_ne (by omega), update_of_ne (by omega)]
            exact restricts bit (by omega)
          have remembersLater : ∀ bit,
              Remembers capacity (fullTime burst thresholdRate) now
                (update whole first wholeHere bit)
                (update part first partHere bit) := by
            intro bit
            by_cases here : bit = first
            · subst here
              rw [update_self, update_self]
              exact remembersHere
            · rw [update_of_ne here, update_of_ne here]
              exact remembers bit
          have passesLater : ∀ bit, first + 1 ≤ bit → bit < first + 1 + rounds →
              subnetsMask.getLsbD bit →
              ¬Table.Blocks capacity (maskedSrc bit src)
                (update whole first wholeHere bit) := by
            intro bit behind inside
            rw [update_of_ne (by omega)]
            exact passes bit (by omega) (by omega)
          obtain ⟨sameRest, remembersRest⟩ :=
            ih restrictsLater remembersLater passesLater
          refine ⟨?_, remembersRest⟩
          dsimp only
          rw [sameRest]

end Levels

/-! ## Runs -/

section Runs

variable
  {config : Config}
  {thresholdRate : ℕ}
  {reception : Reception}
  {whole part : ℕ → Table}

/-- Every level remembers its buckets. -/
def LevelsRemember
    (config : Config)
    (thresholdRate : ℕ)
    (now : ℤ)
    (whole part : ℕ → Table) : Prop :=
  ∀ bit, Remembers config.dynCapacity (fullTime config.burst thresholdRate) now (whole bit)
    (part bit)

theorem LevelsRemember.mono
    (le : now ≤ later)
    (remember : LevelsRemember config thresholdRate now whole part) :
    LevelsRemember config thresholdRate later whole part :=
  fun bit => (remember bit).mono le

/-- Every ledger has the source of a packet that is checked, or room for it. -/
def TablesHaveSpace
    (config : Config)
    (reception : Reception)
    (tables : ℕ → Table) : Prop :=
  reception.device ≠ config.lanDevice → reception.device = config.wanDevice →
    ∀ bit < 32, config.subnetsMask.getLsbD bit →
      ¬(tables bit).Blocks config.dynCapacity
        (maskedSrc bit (.ofNat 32 reception.frame.srcAddr))

/-- What the comparison asks for at a packet. -/
structure Comparable
    (config : Config)
    (reception : Reception)
    (tables : ℕ → Table) : Prop where
  notNegative : 0 ≤ reception.now
  representable : reception.now < 2 ^ 63
  smaller : reception.frame.packetLength.toNat < config.burst
  haveSpace : reception.frame.isIpv4 = true → TablesHaveSpace config reception tables

/-- A packet has the same answer with and without expiry. -/
theorem tablesStep_of_remembers
    (small : config.burst * 10 ^ 9 < 2 ^ 63)
    (comparable : Comparable config reception whole)
    (remember : LevelsRemember config thresholdRate reception.now whole part) :
    (tablesStepWithoutExpiry config thresholdRate reception whole).1 =
        (tablesStep config thresholdRate reception part).1 ∧
      LevelsRemember config thresholdRate reception.now
        (tablesStepWithoutExpiry config thresholdRate reception whole).2
        (tablesStep config thresholdRate reception part).2 := by
  unfold tablesStepWithoutExpiry tablesStep
  rw [minTime_eq small comparable.notNegative comparable.representable]
  split_ifs with notIpv4
  · exact ⟨rfl, remember⟩
  · have expired : LevelsRemember config thresholdRate reception.now whole fun bit =>
        (part bit).expire (reception.now - fullTime config.burst thresholdRate) := by
      intro bit
      exact { remember bit with restricts := ⟨_, Int.le_refl _, (remember bit).expire⟩ }
    unfold processTables
    split_ifs with outgoing incoming
    · exact ⟨rfl, expired⟩
    · have haveSpace := comparable.haveSpace (Bool.eq_true_of_not_eq_false notIpv4) outgoing
        incoming
      have passes : ∀ bit, 0 ≤ bit → bit < 0 + 32 → config.subnetsMask.getLsbD bit →
          ¬Table.Blocks config.dynCapacity
            (maskedSrc bit (.ofNat 32 reception.frame.srcAddr)) (whole bit) := by
        intro bit _ inside
        exact haveSpace bit (by omega)
      obtain ⟨sameLevels, rememberAfter⟩ := updateTables_of_restricts comparable.smaller
        (fun bit _ => (remember bit).expire) expired passes
      dsimp only
      rw [List.range_eq_range', sameLevels]
      exact ⟨rfl, rememberAfter⟩
    · exact ⟨rfl, expired⟩

theorem run_tables_without_expiry
    (small : config.burst * 10 ^ 9 < 2 ^ 63)
    (ordered : receptions.Pairwise fun earlier later => earlier.now ≤ later.now)
    (permitted : Transcript.Permitted (Comparable config)
      (tablesStepWithoutExpiry config thresholdRate) receptions fun _ =>
        .empty) :
    (Transcript.run (tablesStepWithoutExpiry config thresholdRate) receptions
        fun _ => .empty).1 =
      (Transcript.run (tablesStep config thresholdRate) receptions fun _ =>
        .empty).1 := by
  refine (Transcript.timed_run_refines Reception.now (LevelsRemember config thresholdRate)
    LevelsRemember.mono ?_ ordered (fun _ _ _ => Remembers.empty) permitted).1
  intro reception whole part remember comparable
  exact tablesStep_of_remembers small comparable remember

end Runs

namespace State.Keeps

variable
  {config : Config}
  {thresholdRate : ℕ}
  {build : Map.Build}
  {hash : BitVec 32 → ℕ}
  {state : State}
  {tables : ℕ → Table}

theorem nfProcessWithoutExpiry
    (keeps : state.Keeps config thresholdRate build hash reception.now tables) :
    ∃ following,
      (nfProcessWithoutExpiry config build (.ofHash hash) reception
        state).Returns
        ((tablesStepWithoutExpiry config thresholdRate reception tables).1,
          following) ∧
      following.Keeps config thresholdRate build hash reception.now
        (tablesStepWithoutExpiry config thresholdRate reception tables).2 := by
  unfold Vighhh.nfProcessWithoutExpiry tablesStepWithoutExpiry
  split_ifs
  · exact ⟨state, Fuelled.returns_pure _, keeps⟩
  · obtain ⟨reply, kept⟩ := keeps.processExpired
    refine ⟨_, ?_, kept⟩
    rw [← reply]
    exact Fuelled.returns_pure _

theorem tablesHaveSpace
    (keeps : state.Keeps config thresholdRate build hash reception.now tables)
    (hasSpace : HasSpace config build (.ofHash hash) reception state) :
    TablesHaveSpace config reception tables := by
  intro outgoing incoming bit inside configured blocks
  have keepsLevel := keeps.levels bit inside configured
  exact hasSpace outgoing incoming bit inside configured (keepsLevel.blocks_iff.mpr blocks)

end State.Keeps

/-- Without expiry every packet would be reported on the same levels, if packets
are smaller than the burst and no level runs out of space. -/
theorem expiry_invisible
    {config : Config}
    {thresholdRate : ℕ}
    {build : Map.Build}
    {hash : BitVec 32 → ℕ}
    {memory : Memory}
    {fresh : State}
    (small : config.burst * 10 ^ 9 < 2 ^ 63)
    (positive : 0 < config.dynCapacity)
    (bounded : config.dynCapacity < 2 ^ 31)
    (allocated : allocState build memory thresholdRate config.subnetsMask
      config.dynCapacity = some fresh)
    {receptions : List Reception}
    (ordered : receptions.Pairwise fun earlier later => earlier.now ≤ later.now)
    (times : ∀ reception ∈ receptions,
      0 ≤ reception.now ∧ reception.now < 2 ^ 63)
    (sizes : ∀ reception ∈ receptions,
      reception.frame.packetLength.toNat < config.burst)
    (hasSpace : AlwaysHasSpace config build (.ofHash hash) receptions fresh) :
    ∃ replies final finalWithout,
      (run config build (.ofHash hash) receptions fresh).Returns
        (replies, final) ∧
      (runWithoutExpiry config build (.ofHash hash) receptions fresh).Returns
        (replies, finalWithout) := by
  have keeps : ∀ now, fresh.Keeps config thresholdRate build hash now fun _ => .empty :=
    State.Keeps.allocate positive bounded allocated
  have spacious : Transcript.Permitted
      (fun reception tables => reception.frame.isIpv4 = true →
        TablesHaveSpace config reception tables)
      (tablesStepWithoutExpiry config thresholdRate) receptions fun _ => .empty := by
    refine Fuelled.permitted_of_along Reception.now
      (fun now state tables => State.Keeps config thresholdRate build hash now state tables)
      (fun le keeps => keeps.mono le) (fun _ _ _ keeps _ => keeps.nfProcessWithoutExpiry)
      ordered (fun reception _ => keeps reception.now) ?_ hasSpace
    intro reception state tables keepsHere allowed isIpv4
    exact keepsHere.tablesHaveSpace (allowed isIpv4)
  have permitted : Transcript.Permitted (Comparable config)
      (tablesStepWithoutExpiry config thresholdRate) receptions fun _ => .empty := by
    apply spacious.imp_of_mem
    intro reception member tables haveSpace
    obtain ⟨notNegative, representable⟩ := times reception member
    exact ⟨notNegative, representable, sizes reception member, haveSpace⟩
  obtain ⟨final, returns, _⟩ := State.Keeps.run ordered keeps
  obtain ⟨finalWithout, returnsWithout, _⟩ := Fuelled.transcript_returns Reception.now
    (fun now state tables => State.Keeps config thresholdRate build hash now state tables)
    (fun le keeps => keeps.mono le) (fun _ _ _ keeps _ => keeps.nfProcessWithoutExpiry) ordered
    (fun reception _ => keeps reception.now) ⟨0, keeps 0⟩ permitted
  rw [run_tables_without_expiry small ordered permitted] at returnsWithout
  exact ⟨_, final, finalWithout, returns, returnsWithout⟩

/-- The second packet comes too early and is reported on both levels.  The third
one comes when the bucket has expired. -/
theorem expiry_invisible_three_packets :
    ∃ fresh replies final finalWithout,
      allocState .modulo zeroMemory 10000000000 twoLevels.subnetsMask 1 =
        some fresh ∧
      (run twoLevels .modulo (.ofHash BitVec.toNat)
        [sourcePacket 0 0x0101, sourcePacket 0 0x0101, sourcePacket 20 0x0101]
          fresh).Returns (replies, final) ∧
      (runWithoutExpiry twoLevels .modulo (.ofHash BitVec.toNat)
        [sourcePacket 0 0x0101, sourcePacket 0 0x0101, sourcePacket 20 0x0101]
          fresh).Returns (replies, finalWithout) ∧
      replies = [(1, []), (1, [8, 16]), (1, [])] := by
  obtain ⟨fresh, allocated⟩ : ∃ fresh, allocState .modulo zeroMemory 10000000000
      twoLevels.subnetsMask 1 = some fresh := ⟨_, rfl⟩
  have hasSpace : AlwaysHasSpace twoLevels .modulo (.ofHash BitVec.toNat)
      [sourcePacket 0 0x0101, sourcePacket 0 0x0101, sourcePacket 20 0x0101] fresh := by
    obtain rfl := Option.some.inj allocated
    refine ⟨fun _ => by decide +kernel, fun reply following processed => ⟨fun _ => ?_,
      fun nextReply next processedNext => ⟨fun _ => ?_, fun _ _ _ => trivial⟩⟩⟩
    · exact of_decide_eq_true (processed.passes (fun result => decide (HasSpace twoLevels
        .modulo (.ofHash BitVec.toNat) (sourcePacket 0 0x0101) result.2)) 20
        (by decide +kernel))
    · have both : (nfProcessWithoutExpiry twoLevels .modulo (.ofHash BitVec.toNat)
          (sourcePacket 0 0x0101) _ >>= fun result => nfProcessWithoutExpiry twoLevels .modulo
            (.ofHash BitVec.toNat) (sourcePacket 0 0x0101) result.2).Returns
              (nextReply, next) :=
        processed.bind processedNext
      exact of_decide_eq_true (both.passes (fun result => decide (HasSpace twoLevels
        .modulo (.ofHash BitVec.toNat) (sourcePacket 20 0x0101) result.2)) 20
        (by decide +kernel))
  obtain ⟨replies, final, finalWithout, ran, ranWithout⟩ :=
    expiry_invisible (by decide : twoLevels.burst * 10 ^ 9 < 2 ^ 63) (by decide) (by decide)
      allocated (by decide) (by decide) (by decide) hasSpace
  have evaluated : replies = [(1, []), (1, [8, 16]), (1, [])] := by
    obtain rfl := Option.some.inj allocated
    exact of_decide_eq_true (ran.passes (fun result => decide (result.1 =
      [(1, []), (1, [8, 16]), (1, [])])) 20 (by decide +kernel))
  exact ⟨fresh, replies, final, finalWithout, allocated, ran, ranWithout, evaluated⟩

end Vighhh
end Vigor
