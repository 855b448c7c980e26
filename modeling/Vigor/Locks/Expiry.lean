import Vigor.Locks.Table

/-!
# Expiry across cores

`dchain_locks_expire_one_index` looks at the oldest active index of the calling
core.  If another core refreshed this index, the code moves it in the replica of
the calling core, but neither updates the core's own time nor its active list,
and returns 1 as for a released index.  `expire_items_single_map_locks` then
erases the key of an index that stays allocated, and meets the same index in
the next round, forever.

Otherwise the pass is exact: it releases the indexes of the calling core whose
latest time over all cores is before the given one.
-/

namespace Vigor
namespace LockTable

open DoubleChain DoubleChainLocks ExpiratorLocks

variable
  {cores : ℕ}
  {K : Type}
  {build : Map.Build}
  {ops : Map.KeyOps K}
  {capacity : ℕ}
  {now : ℤ}
  {core : Fin cores}
  {time : ℤ}

/-! ## The loop -/

/-- How the loop of `expire_items_single_map_locks` erases an entry. -/
abbrev eraseCell (build : Map.Build) (ops : Map.KeyOps K) :
    Worker.Flags → KeyedMap K → ℤ → Worker.Flags × KeyedMap K :=
  fun flags keys index => mapLocksErase build ops flags keys (.cell index)

variable {replicas : Replicas cores}

/-- With a refreshed index in its list the loop goes on forever, whatever is in
the map. -/
theorem expireItemsSingleMapLocks_diverges
    {chain : DoubleChainLocks cores}
    (lockstep : Lockstep chain capacity replicas)
    (timed : replicas.Timed now)
    (stuck : replicas.Stuck core time)
    (keys : KeyedMap K) :
    (expireItemsSingleMapLocks core build ops writeMode chain keys
      time).Diverges := by
  apply Fuelled.loop_diverges fun state : LoopState cores (KeyedMap K) =>
    state.2.2.1 = writeMode ∧ ∃ replicas,
      Lockstep state.2.2.2.1 capacity replicas ∧ replicas.Timed now ∧ replicas.Stuck core time
  · rintro ⟨count, indexOut, _, chain, keys⟩ ⟨rfl, replicas, lockstep, timed, stuck⟩
    obtain ⟨reports, stuck', timed'⟩ := stuck.expireOne timed
    obtain ⟨index, chain', returns, lockstep', _⟩ :=
      lockstep.dchainLocksExpireOneIndex core writeMode_writing indexOut time
    rw [reports] at returns
    exact ⟨(count + 1, index, writeMode, chain',
        keys.erase build ops (.cell index)),
      returns.bind (Fuelled.returns_pure _), rfl, _, lockstep', timed', stuck'⟩
  · exact ⟨rfl, replicas, lockstep, timed, stuck⟩

/-- What a pass has done: the old indexes of the calling core are free, and the
vector is unchanged. -/
structure Passed
    (core : Fin cores)
    (time : ℤ)
    (table table' : LockTable cores K)
    (replicas replicas' : Replicas cores) : Prop where
  vector_eq : table'.keys.vector = table.keys.vector
  mem_free_iff : ∀ index, index ∈ replicas'.free ↔
    index ∈ replicas.free ∨
      index ∈ replicas.active core ∧ replicas.time core index < time

/-- A release of the head of the list changes nothing about the other
indexes. -/
theorem not_stuck_release
    (active : index ∈ replicas.active core)
    (quiet : ¬replicas.Stuck core time) :
    ¬(replicas.release index).2.Stuck core time := by
  rintro ⟨other, member, old, refreshed⟩
  obtain ⟨different, otherActive⟩ := (Replicas.mem_active_release_iff
    (replicas.notFree core index active)).mp member
  rw [Replicas.time_release_of_ne different] at old
  exact quiet ⟨other, otherActive, old, (Replicas.refreshed_release_iff different).mp refreshed⟩

theorem Passed.of_release
    {table released table' : LockTable cores K}
    {replicas replicas' : Replicas cores}
    {index : ℤ}
    (passed : Passed core time released table' (replicas.release index).2
      replicas')
    (active : index ∈ replicas.active core)
    (old : replicas.time core index < time)
    (sameVector : released.keys.vector = table.keys.vector) :
    Passed core time table table' replicas replicas' where
  vector_eq := passed.vector_eq.trans sameVector
  mem_free_iff other := by
    have allocated := replicas.notFree core index active
    rw [passed.mem_free_iff, Replicas.mem_active_release_iff allocated,
      (Replicas.release_of_allocated allocated).2.1, List.mem_cons]
    by_cases same : other = index
    · subst same
      simp [active, old]
    · simp [same, Replicas.time_release_of_ne same]

theorem Coherent.loop_returns_of_fresh
    {table : LockTable cores K}
    {entries : IndexTable capacity K}
    (coherent : Coherent build ops now table replicas entries)
    (fresh : ∀ index ∈ replicas.active core,
      ¬replicas.time core index < time)
    (count indexOut : ℤ) :
    (Fuelled.loop (expireRound core (eraseCell build ops) time)
        (count, indexOut, writeMode, table.chain, table.keys)).Returns
        (count, writeMode, table.chain, table.keys) ∧
      Passed core time table table replicas replicas := by
  have oldest : replicas.oldest core time = none := by
    rw [Option.eq_none_iff_forall_ne_some]
    intro index isOldest
    obtain ⟨isHead, old⟩ :=
      coherent.timed.stamped.oldest_eq_some_iff.mp isOldest
    exact fresh index (List.mem_of_head? isHead) old
  have returns :=
    coherent.lockstep.dchainLocksExpireOneIndex_of_none oldest writeMode indexOut
  refine ⟨Fuelled.loop_returns_of_done (returns.bind (Fuelled.returns_pure _)),
    rfl, fun other => ⟨.inl, ?_⟩⟩
  rintro (free | ⟨member, old⟩)
  · exact free
  · exact absurd old (fresh other member)

theorem Coherent.loop_returns
    {entries : IndexTable capacity K}
    (coherent : Coherent build ops now table replicas entries)
    (quiet : ¬replicas.Stuck core time)
    (active : List ℤ)
    (shape : replicas.active core = active)
    (count indexOut : ℤ) :
    ∃ (count' : ℤ) (table' : LockTable cores K) (replicas' : Replicas cores)
        (entries' : IndexTable capacity K),
      (Fuelled.loop (expireRound core (eraseCell build ops) time)
        (count, indexOut, writeMode, table.chain, table.keys)).Returns
        (count', writeMode, table'.chain, table'.keys) ∧
      Coherent build ops now table' replicas' entries' ∧
      Passed core time table table' replicas replicas' := by
  induction active generalizing table replicas entries count indexOut with
  | nil =>
      have fresh : ∀ index ∈ replicas.active core,
          ¬replicas.time core index < time := by
        simp [shape]
      obtain ⟨returns, passed⟩ :=
        coherent.loop_returns_of_fresh fresh count indexOut
      exact ⟨count, table, replicas, entries, returns, coherent, passed⟩
  | cons first younger ih =>
      have firstActive : first ∈ replicas.active core := by simp [shape]
      by_cases old : replicas.time core first < time
      · have oldest : replicas.oldest core time = some first :=
          coherent.timed.stamped.oldest_eq_some_iff.mpr ⟨by simp [shape], old⟩
        obtain ⟨chain, returns, lockstep⟩ :=
          coherent.lockstep.dchainLocksExpireOneIndex_of_expired
            oldest writeMode_writing
            (fun refreshed => quiet ⟨first, firstActive, old, refreshed⟩)
            indexOut
        have allocated := replicas.notFree core first firstActive
        have found : table.keys.get build ops (.cell first) = some first :=
          coherent.represents.indexes.mapGet_eq_some_iff.mpr
            ⟨(coherent.mem_alloc_iff first).mpr
              ⟨coherent.lockstep.inRange firstActive, allocated⟩,
              ops.eq_refl _⟩
        have shorter : (replicas.release first).2.active core = younger := by
          rw [(Replicas.release_of_allocated allocated).2.2.1]
          simp only [shape, List.erase_cons_head]
        obtain ⟨count', table', replicas', entries', rest, coherent', passed⟩ :=
          ih (coherent.release found lockstep)
            (not_stuck_release firstActive quiet) shorter (count + 1) first
        exact ⟨count', table', replicas', entries',
          Fuelled.loop_returns_of_next (returns.bind (Fuelled.returns_pure _)) rest,
          coherent', passed.of_release firstActive old rfl⟩
      · -- The list is sorted, so nothing behind a fresh index is old.
        have fresh : ∀ index ∈ replicas.active core,
            ¬replicas.time core index < time := by
          intro index member indexOld
          obtain ⟨head, isOldest⟩ := coherent.timed.exists_oldest member indexOld
          obtain ⟨isHead, headOld⟩ :=
            coherent.timed.stamped.oldest_eq_some_iff.mp isOldest
          rw [shape, List.head?_cons] at isHead
          exact old (Option.some.inj isHead ▸ headOld)
        obtain ⟨returns, passed⟩ :=
          coherent.loop_returns_of_fresh fresh count indexOut
        exact ⟨count, table, replicas, entries, returns, coherent, passed⟩

/-! ## Exactness -/

/-- An index of the calling core's active list whose latest time over all cores
is before the given one. -/
def Expired
    (core : Fin cores)
    (time : ℤ)
    (chain : DoubleChainLocks cores)
    (index : ℤ) : Prop :=
  dchainLocksImplIsIndexActive (chain.activeCells core) index = true ∧
    mostRecent chain index < time

/-- A pass returns, frees exactly the expired indexes in every replica, erases
exactly their keys, and keeps the indexes that some core used at the given time
or later. -/
def ExpiresExactly
    (build : Map.Build)
    (ops : Map.KeyOps K)
    (capacity : ℕ)
    (core : Fin cores)
    (time : ℤ)
    (table : LockTable cores K) : Prop :=
  ∃ (count : ℤ) (table' : LockTable cores K),
    (expireItemsSingleMapLocks core build ops writeMode table.chain table.keys
      time).Returns (count, writeMode, table'.chain, table'.keys) ∧
    (∀ (other : Fin cores) (index : ℤ), 0 ≤ index → index < capacity →
      (dchainLocksIsIndexAllocated other table'.chain index = true ↔
        dchainLocksIsIndexAllocated other table.chain index = true ∧
          ¬Expired core time table.chain index)) ∧
    (∀ (key : K) (index : ℤ),
      table'.keys.get build ops (.own key) = some index ↔
        table.keys.get build ops (.own key) = some index ∧
          ¬Expired core time table.chain index) ∧
    ∀ index : ℤ, 0 ≤ index → index < capacity →
      dchainLocksIsIndexAllocated core table.chain index = true →
        time ≤ mostRecent table.chain index →
          dchainLocksIsIndexAllocated core table'.chain index = true ∧
            table'.keys.get build ops (.cell index) = some index

/-- The calling core has an active index that it used before the given time
only, while some core used it at this time or later. -/
def RefreshedElsewhere
    (capacity : ℕ)
    (core : Fin cores)
    (time : ℤ)
    (chain : DoubleChainLocks cores) : Prop :=
  ∃ index : ℤ, (0 ≤ index ∧ index < capacity) ∧
    dchainLocksImplIsIndexActive (chain.activeCells core) index = true ∧
    chain.timestamps core index < time ∧ time ≤ mostRecent chain index

namespace Coherent

variable
  {table : LockTable cores K}
  {replicas : Replicas cores}
  {entries : IndexTable capacity K}

section

variable (coherent : Coherent build ops now table replicas entries)

include coherent

theorem used_of_active (active : index ∈ replicas.active core) :
    -1 < replicas.time core index := by
  have nonnegative := coherent.timed.stamped core index active
  omega

theorem refreshedElsewhere_iff :
    RefreshedElsewhere capacity core time table.chain ↔
      replicas.Stuck core time := by
  rw [RefreshedElsewhere, coherent.lockstep.times]
  constructor
  · rintro ⟨index, ⟨nonnegative, bounded⟩, isActive, old, late⟩
    have active := ((coherent.lockstep.ring core).isIndexActive nonnegative bounded).mp isActive
    exact ⟨index, active, old, (coherent.lockstep.le_mostRecent_iff_refreshed
      (coherent.used_of_active active) time).mp late⟩
  · rintro ⟨index, active, old, refreshed⟩
    have inRange := coherent.lockstep.inRange active
    exact ⟨index, inRange, ((coherent.lockstep.ring core).isIndexActive
      inRange.1 inRange.2).mpr active, old,
      (coherent.lockstep.le_mostRecent_iff_refreshed
        (coherent.used_of_active active) time).mpr refreshed⟩

theorem expired_iff
    (quiet : ¬replicas.Stuck core time)
    {index : ℤ}
    (nonnegative : 0 ≤ index)
    (bounded : index < capacity) :
    Expired core time table.chain index ↔
      index ∈ replicas.active core ∧ replicas.time core index < time := by
  rw [Expired, (coherent.lockstep.ring core).isIndexActive nonnegative bounded]
  refine and_congr_right fun active => ?_
  rw [← not_le, coherent.lockstep.le_mostRecent_iff_refreshed (coherent.used_of_active active)]
  constructor
  · intro notRefreshed
    exact lt_of_not_ge fun late => notRefreshed ⟨core, late⟩
  · intro old refreshed
    exact quiet ⟨index, active, old, refreshed⟩

theorem get_eq_some_iff :
    table.keys.get build ops ref = some index ↔
      ((0 ≤ index ∧ index < capacity) ∧ index ∉ replicas.free) ∧
        ops.eq (table.keys.vector index) (ref.deref table.keys.vector) =
          true := by
  rw [← coherent.mem_alloc_iff]
  exact coherent.represents.indexes.mapGet_eq_some_iff

theorem expiresExactly (quiet : ¬replicas.Stuck core time) :
    ExpiresExactly build ops capacity core time table := by
  obtain ⟨count, table', replicas', entries', returns, coherent', passed⟩ :=
    coherent.loop_returns quiet _ rfl 0 (-1)
  have notFree_iff : ∀ index : ℤ, 0 ≤ index → index < capacity →
      (index ∉ replicas'.free ↔ index ∉ replicas.free ∧ ¬Expired core time table.chain index) := by
    intro index nonnegative bounded
    rw [passed.mem_free_iff, coherent.expired_iff quiet nonnegative bounded, not_or]
  refine ⟨count, table', returns, ?_, ?_, ?_⟩
  · intro other index nonnegative bounded
    rw [coherent'.lockstep.dchainLocksIsIndexAllocated_iff other nonnegative
        bounded,
      coherent.lockstep.dchainLocksIsIndexAllocated_iff other nonnegative bounded]
    exact notFree_iff index nonnegative bounded
  · intro key index
    rw [coherent'.get_eq_some_iff, coherent.get_eq_some_iff, passed.vector_eq]
    constructor
    · rintro ⟨⟨inRange, allocated⟩, equal⟩
      have kept := (notFree_iff index inRange.1 inRange.2).mp allocated
      exact ⟨⟨⟨inRange, kept.1⟩, equal⟩, kept.2⟩
    · rintro ⟨⟨⟨inRange, allocated⟩, equal⟩, notExpired⟩
      exact ⟨⟨inRange, (notFree_iff index inRange.1 inRange.2).mpr ⟨allocated, notExpired⟩⟩, equal⟩
  · intro index nonnegative bounded allocated late
    rw [coherent.lockstep.dchainLocksIsIndexAllocated_iff core nonnegative bounded] at allocated
    have kept := (notFree_iff index nonnegative bounded).mpr
      ⟨allocated, fun expired => absurd late (not_le.mpr expired.2)⟩
    refine ⟨(coherent'.lockstep.dchainLocksIsIndexAllocated_iff core nonnegative
      bounded).mpr kept, coherent'.get_eq_some_iff.mpr
        ⟨⟨⟨nonnegative, bounded⟩, kept⟩, ops.eq_refl _⟩⟩

theorem expire (completed : (table.expire build ops core time).Returns table') :
    ∃ (replicas' : Replicas cores) (entries' : IndexTable capacity K),
      Coherent build ops now table' replicas' entries' := by
  obtain ⟨⟨_, _, chain, keys⟩, returns, result⟩ :=
    Fuelled.returns_bind_iff.mp completed
  obtain rfl := Fuelled.returns_pure_iff.mp result
  have quiet : ¬replicas.Stuck core time := fun stuck =>
    (expireItemsSingleMapLocks_diverges coherent.lockstep coherent.timed stuck
      table.keys).not_returns _ returns
  obtain ⟨count, after, replicas', entries', returns', coherent', _⟩ :=
    coherent.loop_returns quiet _ rfl 0 (-1)
  have same := returns.unique returns'
  simp only [Prod.mk.injEq] at same
  obtain ⟨_, _, rfl, rfl⟩ := same
  exact ⟨replicas', entries', coherent'⟩

theorem exec
    (nonnegative : 0 ≤ now)
    {operation : Operation cores K}
    (inRange : operation.InRange capacity)
    (later : ∀ time ∈ operation.useTime, now ≤ time)
    (completed : (operation.exec build ops table).Returns table') :
    ∃ (replicas' : Replicas cores) (entries' : IndexTable capacity K),
      Coherent build ops (operation.useTime.getD now) table' replicas'
        entries' := by
  cases operation with
  | ensure core key time =>
      obtain rfl := Fuelled.returns_pure_iff.mp completed
      have le : now ≤ time := later time rfl
      exact (coherent.mono le).ensure (nonnegative.trans le) core key
  | rejuvenate core index time =>
      obtain rfl := Fuelled.returns_pure_iff.mp completed
      have le : now ≤ time := later time rfl
      exact ⟨_, _, (coherent.mono le).rejuvenate (nonnegative.trans le) core inRange.1 inRange.2⟩
  | remove core key =>
      obtain rfl := Fuelled.returns_pure_iff.mp completed
      exact coherent.removeFlow core key
  | expire core time => exact coherent.expire completed

theorem run
    (nonnegative : 0 ≤ now)
    {operations : List (Operation cores K)}
    (inRange : ∀ operation ∈ operations, operation.InRange capacity)
    (monotone : (now :: operations.filterMap Operation.useTime).Pairwise
      (· ≤ ·))
    {final : LockTable cores K}
    (completed : (run build ops operations table).Returns final) :
    ∃ (now' : ℤ) (replicas' : Replicas cores)
      (entries' : IndexTable capacity K),
      Coherent build ops now' final replicas' entries' := by
  induction operations generalizing now table replicas entries with
  | nil =>
      obtain rfl := Fuelled.returns_pure_iff.mp completed
      exact ⟨now, replicas, entries, coherent⟩
  | cons operation rest ih =>
      rw [LockTable.run, List.foldlM_cons] at completed
      obtain ⟨following, first, others⟩ :=
        Fuelled.returns_bind_iff.mp completed
      have times : (∀ time ∈ operation.useTime, now ≤ time) ∧
          0 ≤ operation.useTime.getD now ∧
          (operation.useTime.getD now :: rest.filterMap Operation.useTime).Pairwise (· ≤ ·) := by
        cases use : operation.useTime with
        | none =>
            rw [List.filterMap_cons_none use] at monotone
            exact ⟨by simp, nonnegative, monotone⟩
        | some time =>
            rw [List.filterMap_cons_some use] at monotone
            obtain ⟨le, monotone⟩ := List.pairwise_cons.mp monotone
            have later : now ≤ time := le time List.mem_cons_self
            exact ⟨by simpa using later, nonnegative.trans later, monotone⟩
      obtain ⟨replicas', entries', coherent'⟩ := coherent.exec nonnegative
        (inRange operation List.mem_cons_self) times.1 first
      exact ih coherent' times.2.1
        (fun later member => inRange later (List.mem_cons_of_mem _ member))
        times.2.2 others

end

end Coherent

/-- After every run of complete operations by any cores, from a coherent state
and with nonnegative times of use that never decrease, a pass of a core is exact
if and only if no active index that is old for this core has been refreshed by
another one. -/
theorem cross_core_expiry_exact_iff
    {table : LockTable cores K}
    {replicas : Replicas cores}
    {entries : IndexTable capacity K}
    (coherent : Coherent build ops now table replicas entries)
    (nonnegative : 0 ≤ now)
    (operations : List (Operation cores K))
    (inRange : ∀ operation ∈ operations, operation.InRange capacity)
    (monotone :
      (now :: operations.filterMap Operation.useTime).Pairwise (· ≤ ·))
    {final : LockTable cores K}
    (completed : (run build ops operations table).Returns final)
    (core : Fin cores)
    (time : ℤ) :
    ExpiresExactly build ops capacity core time final ↔
      ¬RefreshedElsewhere capacity core time final.chain := by
  obtain ⟨now', replicas', entries', reached⟩ :=
    coherent.run nonnegative inRange monotone completed
  rw [reached.refreshedElsewhere_iff]
  constructor
  · rintro ⟨count, table', returns, _⟩ stuck
    exact (expireItemsSingleMapLocks_diverges reached.lockstep reached.timed
      stuck final.keys).not_returns _ returns
  · exact reached.expiresExactly

/-- Two cores, each with a flow of its own: core 0 expires its flow. -/
theorem cross_core_expiry_exact_iff_two :
    let ops : Map.KeyOps ℕ := Map.KeyOps.ofHash id
    let mapMemory : Map.Arrays (KeyRef ℕ) := ⟨fun _ => 1, fun _ => .own 0,
      fun _ => 0, fun _ => 1, fun _ => 0⟩
    let chainMemory : DoubleChainLocks 2 :=
      ⟨fun _ _ => ⟨0, 0⟩, fun _ _ => ⟨0, 0⟩, fun _ _ => 0⟩
    let table : LockTable 2 ℕ := ⟨dchainLocksAllocate chainMemory 2,
      ⟨⟨Map.mapImplInit mapMemory 2, 2, 0⟩, fun _ => 0, []⟩⟩
    let operations : List (Operation 2 ℕ) := [.ensure 0 5 1, .ensure 1 6 2]
    allocate .modulo mapMemory (fun _ => 0) chainMemory 2 = some table ∧
      ∃ final, (run .modulo ops operations table).Returns final ∧
        ExpiresExactly .modulo ops 2 0 4 final := by
  intro ops mapMemory chainMemory table operations
  have allocated : allocate .modulo mapMemory (fun _ => 0) chainMemory 2 =
      some table := rfl
  have coherent : Coherent .modulo ops 0 table
      (Replicas.initial 2 table.chain.timestamps)
      (IndexTable.initial 2 (fun _ => 0) fun _ => 0) :=
    Coherent.allocate (by decide) (by decide) allocated
  have completed : (run .modulo ops operations table).Returns
      ((table.ensure .modulo ops 0 5 1).ensure .modulo ops 1 6 2) :=
    ⟨0, rfl⟩
  refine ⟨allocated, _, completed, ?_⟩
  refine (cross_core_expiry_exact_iff coherent (Int.le_refl 0) operations
    (by simp [operations, Operation.InRange])
    (by simp [operations, Operation.useTime]) completed 0 4).mpr ?_
  rintro ⟨index, ⟨nonnegative, bounded⟩, refreshed⟩
  have onlyTwo : index = 0 ∨ index = 1 := by omega
  rcases onlyTwo with rfl | rfl
  · revert refreshed
    decide
  · revert refreshed
    decide

/-- Core 0 allocates an index at time 0, core 1 refreshes it at time 10, and a
pass of core 0 at time 10 never returns. -/
theorem refreshed_index_expires_forever :
    let ops : Map.KeyOps ℕ := Map.KeyOps.ofHash id
    let mapMemory : Map.Arrays (KeyRef ℕ) := ⟨fun _ => 1, fun _ => .own 0,
      fun _ => 0, fun _ => 1, fun _ => 0⟩
    let chainMemory : DoubleChainLocks 2 :=
      ⟨fun _ _ => ⟨0, 0⟩, fun _ _ => ⟨0, 0⟩, fun _ _ => 0⟩
    let table : LockTable 2 ℕ := ⟨dchainLocksAllocate chainMemory 1,
      ⟨⟨Map.mapImplInit mapMemory 1, 1, 0⟩, fun _ => 0, []⟩⟩
    let operations : List (Operation 2 ℕ) := [.ensure 0 5 0, .ensure 1 5 10]
    allocate .modulo mapMemory (fun _ => 0) chainMemory 1 = some table ∧
      ∃ final, (run .modulo ops operations table).Returns final ∧
        final.keys.get .modulo ops (.own 5) = some 0 ∧
        mostRecent final.chain 0 = 10 ∧
        (expireItemsSingleMapLocks 0 .modulo ops writeMode final.chain
          final.keys 10).Diverges := by
  intro ops mapMemory chainMemory table operations
  have allocated : allocate .modulo mapMemory (fun _ => 0) chainMemory 1 =
      some table := rfl
  have coherent : Coherent .modulo ops 0 table
      (Replicas.initial 1 table.chain.timestamps)
      (IndexTable.initial 1 (fun _ => 0) fun _ => 0) :=
    Coherent.allocate (by decide) (by decide) allocated
  have completed : (run .modulo ops operations table).Returns
      ((table.ensure .modulo ops 0 5 0).ensure .modulo ops 1 5 10) :=
    ⟨0, rfl⟩
  refine ⟨allocated, _, completed, by decide, by decide, ?_⟩
  obtain ⟨now, replicas, entries, reached⟩ := coherent.run (Int.le_refl 0)
    (by simp [operations, Operation.InRange])
    (by simp [operations, Operation.useTime]) completed
  have refreshed : RefreshedElsewhere 1 0 10
      ((table.ensure .modulo ops 0 5 0).ensure .modulo ops 1 5 10).chain :=
    ⟨0, by decide, by decide⟩
  exact expireItemsSingleMapLocks_diverges reached.lockstep reached.timed
    (reached.refreshedElsewhere_iff.mp refreshed) _

end LockTable
end Vigor
