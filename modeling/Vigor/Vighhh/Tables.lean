import Vigor.FlowTable.Ledger
import Vigor.Vighhh.Impl

/-!
# The tables of the levels

Each level is a ledger of buckets.  The code numbers the levels in the order of
their bits in the mask of subnets, and it counts the bits while it goes through
them.  Here a level is known by its bit, which does not depend on the other
levels.
-/

namespace Vigor
namespace Vighhh

open Function

open DoubleChain
open Vigpol (DynamicValue refill)

/-! ## Bits of the mask -/

/-- The number of configured levels below a bit. -/
def rank
    (subnetsMask : BitVec 32)
    (bit : ℕ) : ℕ :=
  (List.range bit).countP subnetsMask.getLsbD

section Rank

variable {subnetsMask : BitVec 32}

theorem rank_succ (bit : ℕ) :
    rank subnetsMask (bit + 1) =
      rank subnetsMask bit + (subnetsMask.getLsbD bit).toNat := by
  unfold rank
  rw [List.range_succ, List.countP_append, List.countP_singleton]
  cases subnetsMask.getLsbD bit <;> rfl

theorem rank_mono
    {bit other : ℕ}
    (le : bit ≤ other) :
    rank subnetsMask bit ≤ rank subnetsMask other := by
  induction other, le using Nat.le_induction with
  | base => exact Nat.le_refl _
  | succ other le ih =>
      rw [rank_succ]
      exact Nat.le_add_right_of_le ih

/-- A configured level has a smaller number than the levels behind it. -/
theorem rank_lt_rank
    (configured : subnetsMask.getLsbD bit)
    (less : bit < other) :
    rank subnetsMask bit < rank subnetsMask other := by
  have next : rank subnetsMask (bit + 1) = rank subnetsMask bit + 1 := by
    rw [rank_succ, configured]
    rfl
  have rest : rank subnetsMask (bit + 1) ≤ rank subnetsMask other := rank_mono less
  omega

theorem rank_injective
    (configured : subnetsMask.getLsbD bit)
    (otherConfigured : subnetsMask.getLsbD other)
    (same : rank subnetsMask bit = rank subnetsMask other) :
    bit = other := by
  rcases Nat.lt_trichotomy bit other with less | equal | greater
  · exact absurd same (rank_lt_rank configured less).ne
  · exact equal
  · exact absurd same (rank_lt_rank otherConfigured greater).ne'

theorem map_rank (bound : ℕ) :
    ((List.range bound).filter subnetsMask.getLsbD).map (rank subnetsMask) =
      List.range (rank subnetsMask bound) := by
  induction bound with
  | zero => rfl
  | succ bound ih =>
      rw [List.range_succ, List.filter_append, List.map_append, ih, rank_succ]
      cases configured : subnetsMask.getLsbD bound with
      | false => simp [configured]
      | true => simp [configured, List.range_succ]

theorem shifted_and_one (bit : ℕ) :
    (subnetsMask >>> bit) &&& 1 = 0 ↔ subnetsMask.getLsbD bit = false := by
  constructor
  · intro zero
    have lowest := congrArg (fun word => BitVec.getLsbD word 0) zero
    simpa using lowest
  · intro clear
    ext i inside
    cases i with
    | zero => simpa using clear
    | succ i => simp [BitVec.getElem_one]

theorem foldl_countRound (rounds : ℕ) :
    (List.range rounds).foldl countRound (0, subnetsMask) =
      (rank subnetsMask rounds, subnetsMask >>> rounds) := by
  induction rounds with
  | zero => rw [BitVec.ushiftRight_zero]; rfl
  | succ rounds ih =>
      rw [List.range_succ, List.foldl_append, ih, rank_succ, BitVec.shiftRight_add]
      change (if subnetsMask >>> rounds &&& 1 = 0 then _ else _, _) = _
      simp only [shifted_and_one]
      cases subnetsMask.getLsbD rounds <;> rfl

theorem calculateNSubnets_eq :
    calculateNSubnets subnetsMask = rank subnetsMask 32 := by
  unfold calculateNSubnets
  rw [foldl_countRound]

end Rank

/-! ## Levels as ledgers -/

/-- The buckets of a level. -/
abbrev Table := Ledger (BitVec 32) DynamicValue

/-- The mask of the loop after some rounds. -/
def loopMask : ℕ → BitVec 32
  | 0 => 0
  | rounds + 1 => (loopMask rounds >>> 1) ||| (1#32 <<< 31)

/-- The masked source of a level. -/
def maskedSrc
    (bit : ℕ)
    (src : BitVec 32) : BitVec 32 :=
  src &&& swapEndianness (loopMask (bit + 1))

/-- What `update_buckets` does on the ledger of a level. -/
def updateTable
    (burst thresholdRate capacity : ℕ)
    (key : BitVec 32)
    (size : ℕ)
    (now : ℤ)
    (table : Table) : Option Bool × Table :=
  match table.find key with
  | some entry =>
      let bucketSize := refill burst thresholdRate now entry.data
      if bucketSize > size then (some false, table.put key ⟨bucketSize - size, now⟩ now)
      else (some true, table.put key ⟨bucketSize, now⟩ now)
  | none =>
      if table.size < capacity then (some false, table.put key ⟨burst - size, now⟩ now)
      else (none, table)

/-- The loop over the bits, on the ledgers of the levels. -/
def updateTables
    (burst thresholdRate capacity : ℕ)
    (subnetsMask src : BitVec 32)
    (size : ℕ)
    (now : ℤ) : List ℕ → (ℕ → Table) → List ℕ × (ℕ → Table)
  | [], tables => ([], tables)
  | bit :: bits, tables =>
      if subnetsMask.getLsbD bit then
        match updateTable burst thresholdRate capacity (maskedSrc bit src) size now
            (tables bit) with
        | (none, table) => ([], update tables bit table)
        | (some isCaptured, table) =>
            let rest := updateTables burst thresholdRate capacity subnetsMask src size now bits
              (update tables bit table)
            ((if isCaptured then [bit + 1] else []) ++ rest.1, rest.2)
      else updateTables burst thresholdRate capacity subnetsMask src size now bits tables

/-- The part of `nf_process` behind the expiry, on the ledgers of the levels. -/
def processTables
    (config : Config)
    (thresholdRate : ℕ)
    (reception : Reception)
    (tables : ℕ → Table) : (ℕ × List ℕ) × (ℕ → Table) :=
  if reception.device = config.lanDevice then ((config.wanDevice, []), tables)
  else if reception.device = config.wanDevice then
    let outcome := updateTables config.burst thresholdRate config.dynCapacity
      config.subnetsMask (.ofNat 32 reception.frame.srcAddr)
      reception.frame.packetLength.toNat reception.now (List.range 32) tables
    ((config.lanDevice, outcome.1), outcome.2)
  else ((reception.device, []), tables)

/-- `nf_process` on the ledgers of the levels. -/
def tablesStep
    (config : Config)
    (thresholdRate : ℕ)
    (reception : Reception)
    (tables : ℕ → Table) : (ℕ × List ℕ) × (ℕ → Table) :=
  if reception.frame.isIpv4 = false then ((reception.device, []), tables)
  else
    processTables config thresholdRate reception fun bit =>
      (tables bit).expire (minTime config.burst thresholdRate reception.now)

/-- The level keeps the buckets of the ledger. -/
def Level.Keeps
    (capacity : ℕ)
    (build : Map.Build)
    (hash : BitVec 32 → ℕ)
    (now : ℤ)
    (level : Level)
    (table : Table) : Prop :=
  FlowTable.Keeps build hash capacity now level.table level.subnetBuckets table

/-- The levels of an array keep the ledgers of their bits. -/
def LevelsKeep
    (config : Config)
    (build : Map.Build)
    (hash : BitVec 32 → ℕ)
    (now : ℤ)
    (levels : ℤ → Level)
    (tables : ℕ → Table) : Prop :=
  ∀ bit < 32, config.subnetsMask.getLsbD bit →
    (levels (rank config.subnetsMask bit)).Keeps config.dynCapacity build hash now (tables bit)

/-- The state keeps the ledgers of the configured levels. -/
structure State.Keeps
    (config : Config)
    (thresholdRate : ℕ)
    (build : Map.Build)
    (hash : BitVec 32 → ℕ)
    (now : ℤ)
    (state : State)
    (tables : ℕ → Table) : Prop where
  nSubnets_eq : state.nSubnets = rank config.subnetsMask 32
  thresholdRate_eq : state.thresholdRate = thresholdRate
  levels : LevelsKeep config build hash now state.levels tables

/-! ## The code and the ledgers -/

variable
  {config : Config}
  {thresholdRate : ℕ}
  {build : Map.Build}
  {hash : BitVec 32 → ℕ}
  {now : ℤ}
  {levels : ℤ → Level}
  {tables : ℕ → Table}

/-- Updating a level updates its ledger. -/
theorem Level.Keeps.updateLevel
    {table : Table}
    (keeps : level.Keeps capacity build hash now table)
    (burst thresholdRate : ℕ)
    (key : BitVec 32)
    (size : ℕ) :
    (updateLevel build (.ofHash hash) burst thresholdRate key size now
          level).1 =
        (updateTable burst thresholdRate capacity key size now table).1 ∧
      (updateLevel build (.ofHash hash) burst thresholdRate key size now
        level).2.Keeps capacity build hash now
        (updateTable burst thresholdRate capacity key size now table).2 := by
  rw [Vighhh.updateLevel, updateTable]
  rcases FlowTable.Keeps.lookup_cases keeps key with
    ⟨absent, looked⟩ | ⟨index, time, table', found, looked, kept⟩
  · rw [looked, absent]
    rcases FlowTable.Keeps.allocateFlow_cases keeps absent with
      ⟨full, allocated⟩ | ⟨index, table', room, allocated, kept⟩
    · simp only [allocate, allocated, if_neg (Nat.not_lt.mpr full)]
      exact ⟨trivial, keeps⟩
    · simp only [allocate, allocated, if_pos room]
      exact ⟨trivial, kept _⟩
  · rw [looked, found]
    by_cases enough : refill burst thresholdRate now (level.subnetBuckets index) > size
    · simp only [if_pos enough]
      exact ⟨trivial, kept _⟩
    · simp only [if_neg enough]
      exact ⟨trivial, kept _⟩

theorem LevelsKeep.update
    (keep : LevelsKeep config build hash now levels tables)
    (configured : config.subnetsMask.getLsbD bit)
    (keeps : level.Keeps config.dynCapacity build hash now table) :
    LevelsKeep config build hash now
      (update levels (rank config.subnetsMask bit) level)
      (update tables bit table) := by
  intro other inside otherConfigured
  by_cases same : other = bit
  · subst same
    rw [update_self, update_self]
    exact keeps
  · have different : (rank config.subnetsMask other : ℤ) ≠ rank config.subnetsMask bit := by
      intro equal
      exact same (rank_injective otherConfigured configured (Int.ofNat_inj.mp equal))
    rw [update_of_ne different, update_of_ne same]
    exact keep other inside otherConfigured

/-- The variables of the loop before the round of a bit. -/
def progressAt
    (subnetsMask : BitVec 32)
    (bit : ℕ)
    (levels : ℤ → Level)
    (captured : List ℕ) : Progress where
  mask := loopMask bit
  subnetsMask := subnetsMask >>> bit
  subnetI := rank subnetsMask bit - 1
  levels := levels
  captured := captured

section Loop

variable
  {subnetsMask : BitVec 32}
  {ops : Map.KeyOps (BitVec 32)}
  {burst : ℕ}
  {src : BitVec 32}
  {size bit : ℕ}
  {bits captured : List ℕ}

theorem updateLoop_of_clear (clear : subnetsMask.getLsbD bit = false) :
    updateLoop build ops burst thresholdRate src size now (bit :: bits)
        (progressAt subnetsMask bit levels captured) =
      updateLoop build ops burst thresholdRate src size now bits
        (progressAt subnetsMask (bit + 1) levels captured) := by
  rw [updateLoop, progressAt, progressAt, rank_succ, clear, BitVec.shiftRight_add]
  dsimp only
  rw [if_pos (shifted_and_one bit |>.mpr clear)]
  rfl

theorem updateLoop_of_configured (configured : subnetsMask.getLsbD bit = true) :
    updateLoop build ops burst thresholdRate src size now (bit :: bits)
        (progressAt subnetsMask bit levels captured) =
      match updateLevel build ops burst thresholdRate (maskedSrc bit src)
          size now (levels (rank subnetsMask bit)) with
      | (none, level) =>
          (captured, update levels (rank subnetsMask bit) level)
      | (some isCaptured, level) =>
          updateLoop build ops burst thresholdRate src size now bits
            (progressAt subnetsMask (bit + 1)
              (update levels (rank subnetsMask bit) level)
              (if isCaptured then captured ++ [bit + 1] else captured)) := by
  have notZero : ¬(subnetsMask >>> bit) &&& 1 = 0 := by
    rw [shifted_and_one, configured]
    exact Bool.noConfusion
  have number : (rank subnetsMask bit : ℤ) - 1 + 1 = rank subnetsMask bit := by omega
  have next : ((rank subnetsMask (bit + 1) : ℕ) : ℤ) - 1 = rank subnetsMask bit := by
    rw [rank_succ, configured, Bool.toNat_true]
    omega
  rw [updateLoop, progressAt]
  dsimp only
  rw [if_neg notZero, number]
  unfold progressAt
  rw [next, BitVec.shiftRight_add]
  rfl

end Loop

theorem updateLoop_keeps
    (thresholdRate : ℕ)
    (src : BitVec 32)
    (size : ℕ)
    (inside : bit + rounds ≤ 32)
    (keep : LevelsKeep config build hash now levels tables)
    (captured : List ℕ) :
    (updateLoop build (.ofHash hash) config.burst thresholdRate src size now
        (List.range' bit rounds)
          (progressAt config.subnetsMask bit levels captured)).1 =
      captured ++ (updateTables config.burst thresholdRate config.dynCapacity
        config.subnetsMask src size now (List.range' bit rounds) tables).1 ∧
    LevelsKeep config build hash now
      (updateLoop build (.ofHash hash) config.burst thresholdRate src size now
        (List.range' bit rounds)
          (progressAt config.subnetsMask bit levels captured)).2
      (updateTables config.burst thresholdRate config.dynCapacity
        config.subnetsMask src size now (List.range' bit rounds) tables).2 := by
  induction rounds generalizing bit levels tables captured with
  | zero => exact ⟨(List.append_nil captured).symm, keep⟩
  | succ rounds ih =>
      rw [List.range'_succ, updateTables]
      cases configured : config.subnetsMask.getLsbD bit with
      | false =>
          rw [updateLoop_of_clear configured, if_neg Bool.false_ne_true]
          exact ih (by omega) keep captured
      | true =>
          have updated := (keep bit (by omega) configured).updateLevel config.burst
            thresholdRate (maskedSrc bit src) size
          rw [updateLoop_of_configured configured, if_pos rfl]
          generalize updateLevel _ _ _ _ _ _ _ _ = outcome at *
          generalize updateTable _ _ _ _ _ _ _ = specified at *
          obtain ⟨reply, level⟩ := outcome
          obtain ⟨specifiedReply, table⟩ := specified
          obtain ⟨sameReply, kept⟩ := updated
          dsimp only at sameReply kept
          subst sameReply
          have keepsUpdated := keep.update configured kept
          cases reply with
          | none => exact ⟨(List.append_nil captured).symm, keepsUpdated⟩
          | some isCaptured =>
              obtain ⟨later, keepsLater⟩ := ih
                (by omega : bit + 1 + rounds ≤ 32) keepsUpdated
                (if isCaptured then captured ++ [bit + 1] else captured)
              refine ⟨later.trans ?_, keepsLater⟩
              cases isCaptured with
              | false => rfl
              | true => exact List.append_assoc _ _ _

theorem foldl_update_of_mem
    {β : Type*}
    (change : β → β)
    {keys : List ℕ}
    (distinct : keys.Nodup)
    (values : ℕ → β)
    (member : key ∈ keys) :
    keys.foldl (fun values key => update values key (change (values key)))
      values key = change (values key) := by
  have others : ∀ (keys : List ℕ) (values : ℕ → β), key ∉ keys →
      keys.foldl (fun values key => update values key (change (values key)))
        values key = values key := by
    intro keys
    induction keys with
    | nil => intro values _; rfl
    | cons first keys ih =>
        intro values absent
        obtain ⟨different, absentLater⟩ := not_or.mp (List.mem_cons.not.mp absent)
        rw [List.foldl_cons, ih _ absentLater, update_of_ne different]
  induction keys generalizing values with
  | nil => cases member
  | cons first keys ih =>
      obtain ⟨notLater, distinctLater⟩ := List.nodup_cons.mp distinct
      rw [List.foldl_cons]
      rcases List.mem_cons.mp member with rfl | later
      · rw [others keys _ notLater, update_self]
      · have different : key ≠ first := by
          rintro rfl
          exact notLater later
        rw [ih distinctLater _ later, update_of_ne different]

namespace State.Keeps

variable {state : State}

section

variable (keeps : state.Keeps config thresholdRate build hash now tables)

include keeps

theorem expireLevel
    (inside : bit < 32)
    (configured : config.subnetsMask.getLsbD bit)
    (limit : ℤ) :
    ∃ expired, (expireLevel build (.ofHash hash) limit state
        (rank config.subnetsMask bit)).Returns expired ∧
      expired.Keeps config thresholdRate build hash now
        (update tables bit ((tables bit).expire limit)) := by
  obtain ⟨count, table, returns, kept⟩ :=
    FlowTable.Keeps.expireItemsSingleMap (keeps.levels bit inside configured) limit
  exact ⟨_, returns.bind (Fuelled.returns_pure _), keeps.nSubnets_eq,
    keeps.thresholdRate_eq, keeps.levels.update configured kept⟩

theorem expireEntries (time : ℤ) :
    ∃ expired,
      (expireEntries config build (.ofHash hash) time state).Returns expired ∧
      expired.Keeps config thresholdRate build hash now
        fun bit => (tables bit).expire
          (minTime config.burst thresholdRate time) := by
  have bits : (List.range state.nSubnets).map Int.ofNat =
      ((List.range 32).filter config.subnetsMask.getLsbD).map
        fun bit => (rank config.subnetsMask bit : ℤ) := by
    rw [keeps.nSubnets_eq, ← map_rank, List.map_map]
    rfl
  have step : ∀ bit ∈ (List.range 32).filter config.subnetsMask.getLsbD,
      ∀ (state : State) (tables : ℕ → Table),
      state.Keeps config thresholdRate build hash now tables →
      ∃ expired, (Vighhh.expireLevel build (.ofHash hash)
          (minTime config.burst thresholdRate time) state
          (rank config.subnetsMask bit)).Returns expired ∧
        expired.Keeps config thresholdRate build hash now (update tables bit
          ((tables bit).expire (minTime config.burst thresholdRate time))) := by
    intro bit member state tables related
    obtain ⟨small, configured⟩ := List.mem_filter.mp member
    exact related.expireLevel (List.mem_range.mp small) configured _
  obtain ⟨expired, returns, kept⟩ := Fuelled.foldlM_returns
    (fun state tables => State.Keeps config thresholdRate build hash now state tables) step keeps
  refine ⟨expired, ?_, kept.nSubnets_eq, kept.thresholdRate_eq, ?_⟩
  · unfold Vighhh.expireEntries
    rw [bits, List.foldlM_map, keeps.thresholdRate_eq]
    exact returns
  · intro bit inside configured
    have keepsBit := kept.levels bit inside configured
    rw [foldl_update_of_mem (Ledger.expire (minTime config.burst thresholdRate time))
      (List.nodup_range.filter _) tables
      (List.mem_filter.mpr ⟨List.mem_range.mpr inside, configured⟩)] at keepsBit
    exact keepsBit

theorem mono (le : now ≤ later) :
    state.Keeps config thresholdRate build hash later tables :=
  { keeps with
    levels := fun bit inside configured =>
      FlowTable.Keeps.mono (keeps.levels bit inside configured) le }

theorem updateBuckets
    (src : BitVec 32)
    (size : ℕ) :
    (updateBuckets config build (.ofHash hash) src size now state).1 =
        (updateTables config.burst thresholdRate config.dynCapacity
          config.subnetsMask src size now (List.range 32) tables).1 ∧
      (updateBuckets config build (.ofHash hash) src size now
        state).2.Keeps config thresholdRate build hash now
        (updateTables config.burst thresholdRate config.dynCapacity
          config.subnetsMask src size now (List.range 32) tables).2 := by
  have start : progressAt config.subnetsMask 0 state.levels [] =
      ⟨0, config.subnetsMask, -1, state.levels, []⟩ := by
    unfold progressAt
    rw [BitVec.ushiftRight_zero]
    rfl
  obtain ⟨captured, levels⟩ := updateLoop_keeps thresholdRate src size
    (Nat.le_of_eq (Nat.zero_add 32)) keeps.levels []
  rw [start, List.nil_append] at captured
  rw [start] at levels
  unfold Vighhh.updateBuckets
  rw [List.range_eq_range', keeps.thresholdRate_eq]
  exact ⟨captured, keeps.nSubnets_eq, rfl, levels⟩

end

theorem processExpired
    (keeps : state.Keeps config thresholdRate build hash reception.now tables) :
    (processExpired config build (.ofHash hash) reception state).1 =
        (processTables config thresholdRate reception tables).1 ∧
      (processExpired config build (.ofHash hash) reception
        state).2.Keeps config thresholdRate build hash reception.now
        (processTables config thresholdRate reception tables).2 := by
  have updated := keeps.updateBuckets (.ofNat 32 reception.frame.srcAddr)
    reception.frame.packetLength.toNat
  unfold Vighhh.processExpired processTables
  split_ifs
  · exact ⟨rfl, keeps⟩
  · dsimp only
    rw [updated.1]
    exact ⟨rfl, updated.2⟩
  · exact ⟨rfl, keeps⟩

theorem nfProcess
    (keeps : state.Keeps config thresholdRate build hash reception.now tables) :
    ∃ following, (nfProcess config build (.ofHash hash) reception state).Returns
        ((tablesStep config thresholdRate reception tables).1, following) ∧
      following.Keeps config thresholdRate build hash reception.now
        (tablesStep config thresholdRate reception tables).2 := by
  unfold Vighhh.nfProcess tablesStep
  split_ifs
  · exact ⟨state, Fuelled.returns_pure _, keeps⟩
  · obtain ⟨expired, expires, kept⟩ := keeps.expireEntries reception.now
    obtain ⟨reply, keptAfter⟩ := kept.processExpired
    refine ⟨_, expires.bind ?_, keptAfter⟩
    rw [← reply]
    exact Fuelled.returns_pure _

theorem run
    (ordered : receptions.Pairwise fun earlier later => earlier.now ≤ later.now)
    (fresh : ∀ now, state.Keeps config thresholdRate build hash now tables) :
    ∃ final, (run config build (.ofHash hash) receptions state).Returns
        ((Transcript.run (tablesStep config thresholdRate) receptions tables).1,
          final) ∧
      ∃ last, final.Keeps config thresholdRate build hash last
        (Transcript.run (tablesStep config thresholdRate) receptions
          tables).2 := by
  have permitted : Transcript.Permitted (fun _ _ => True) (tablesStep config thresholdRate)
      receptions tables := Transcript.permitted_of_forall (fun _ _ _ => trivial) _
  refine Fuelled.transcript_returns Reception.now
    (fun now state tables => State.Keeps config thresholdRate build hash now state tables)
    (fun le keeps => keeps.mono le) ?_ ordered (fun reception _ => fresh reception.now)
    ⟨0, fresh 0⟩ permitted
  intro reception state tables keeps _
  exact keeps.nfProcess

end State.Keeps

/-! ## Fresh states -/

theorem allocLevels_keeps
    (positive : 0 < capacity)
    (bounded : capacity < 2 ^ 31)
    (allocated : allocLevels build memory capacity count = some levels)
    (now : ℤ)
    (inside : i < count) :
    (levels i).Keeps capacity build hash now .empty := by
  induction count generalizing levels with
  | zero => cases inside
  | succ count ih =>
      obtain ⟨earlier, earlierAllocated, allocated⟩ := Option.bind_eq_some_iff.mp allocated
      obtain ⟨table, tableAllocated, isLevels⟩ := Option.bind_eq_some_iff.mp allocated
      obtain rfl := Option.some.inj isLevels
      rcases Nat.lt_succ_iff_lt_or_eq.mp inside with less | rfl
      · rw [update_of_ne (by omega)]
        exact ih earlierAllocated less
      · rw [update_self]
        exact .allocate positive bounded tableAllocated _ now

theorem State.Keeps.allocate
    (positive : 0 < config.dynCapacity)
    (bounded : config.dynCapacity < 2 ^ 31)
    (allocated : allocState build memory thresholdRate config.subnetsMask
      config.dynCapacity = some state)
    (now : ℤ) :
    state.Keeps config thresholdRate build hash now fun _ => .empty := by
  obtain ⟨levels, levelsAllocated, isState⟩ := Option.bind_eq_some_iff.mp allocated
  obtain rfl := Option.some.inj isState
  rw [calculateNSubnets_eq] at levelsAllocated
  refine ⟨calculateNSubnets_eq, rfl, ?_⟩
  intro bit inside configured
  exact allocLevels_keeps positive bounded levelsAllocated now (rank_lt_rank configured inside)

end Vighhh
end Vigor
