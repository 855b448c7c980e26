import Vigor.Locks.Activity
import Vigor.Locks.Replicas
import Mathlib.Data.List.FinRange

/-!
# Replicas of the lock-based chain stay in lockstep

Every core has its own order of the allocated indexes: a rejuvenation and the
repair in `dchain_locks_update_timestamp` move an index in one replica only.
The free lists are only written by operations that go to all replicas, which
push and pop the same index everywhere.
-/

namespace Vigor

open DoubleChain Worker Function

namespace DoubleChainLocks

variable {cores range : ℕ}

/-- The cells and times of all cores hold the abstract state. -/
structure Lockstep
    (chain : DoubleChainLocks cores)
    (range : ℕ)
    (replicas : Replicas cores) : Prop where
  /-- Replicas agree on the free list. -/
  encodes : ∀ core, EncodesFree (chain.cells core) range replicas.free
  /-- Each core has its list of active indexes. -/
  ring : ∀ core,
    ActiveRing (chain.activeCells core) range (replicas.active core)
  /-- Each core has its times. -/
  times : chain.timestamps = replicas.time

/-- A loop whose rounds all act as one idempotent function acts as this
function. -/
theorem foldl_eq_of_idempotent
    {round : β → α → β}
    (act : β → β)
    (acts : ∀ state item, round state item = act state)
    (idempotent : ∀ state, act (act state) = act state)
    {items : List α}
    (nonempty : items ≠ [])
    (state : β) :
    items.foldl round state = act state := by
  induction items generalizing state with
  | nil => exact absurd rfl nonempty
  | cons item rest ih =>
      rw [List.foldl_cons, acts]
      cases rest with
      | nil => rfl
      | cons following others => rw [ih (List.cons_ne_nil _ _), idempotent]

theorem finRange_ne_nil (core : Fin cores) : List.finRange cores ≠ [] :=
  List.ne_nil_of_mem (List.mem_finRange core)

theorem le_mostRecent_iff {chain : DoubleChainLocks cores} :
    time ≤ mostRecent chain index ↔ time ≤ -1 ∨ ∃ core,
      time ≤ chain.timestamps core index := by
  have fold : ∀ (items : List (Fin cores)) (recent : ℤ),
      time ≤ items.foldl (fun recent core =>
        if chain.timestamps core index > recent then chain.timestamps core index
        else recent) recent ↔
      time ≤ recent ∨ ∃ core ∈ items, time ≤ chain.timestamps core index := by
    intro items
    induction items with
    | nil => simp
    | cons core rest ih =>
        intro recent
        rw [List.foldl_cons, ih, List.exists_mem_cons_iff, ← or_assoc]
        apply or_congr_left
        split_ifs <;> omega
  rw [mostRecent, fold]
  simp only [List.mem_finRange, true_and]

namespace Lockstep

variable {chain : DoubleChainLocks cores} {replicas : Replicas cores}

theorem dchainLocksAllocate
    (memory : DoubleChainLocks cores)
    (positive : 0 < range) :
    Lockstep (dchainLocksAllocate memory range) range
      (Replicas.initial range
        (dchainLocksAllocate memory range).timestamps) where
  encodes core := ⟨_, Encodes.init (memory.cells core) positive, rfl⟩
  ring core := ActiveRing.init (memory.activeCells core) range
  times := rfl

section

variable (lockstep : Lockstep chain range replicas)

include lockstep

variable {index : ℤ}

theorem inRange (member : index ∈ replicas.active core) :
    0 ≤ index ∧ index < range :=
  (lockstep.ring core).inRange index member

theorem le_mostRecent_iff_refreshed
    (used : -1 < replicas.time core index)
    (time : ℤ) :
    time ≤ mostRecent chain index ↔ replicas.Refreshed index time := by
  rw [le_mostRecent_iff, lockstep.times, Replicas.Refreshed]
  constructor
  · rintro (early | late)
    · exact ⟨core, by omega⟩
    · exact late
  · exact .inr

theorem exists_allocated
    (core : Fin cores)
    (nonnegative : 0 ≤ index)
    (bounded : index < range)
    (allocated : index ∉ replicas.free) :
    ∃ allocator : Allocator range, Encodes (chain.cells core) allocator ∧
      allocator.free = replicas.free ∧ index ∈ allocator.alloc := by
  obtain ⟨allocator, encodes, sameFree⟩ := lockstep.encodes core
  exact ⟨allocator, encodes, sameFree, (allocator.mem_alloc_iff index).mpr
    ⟨⟨nonnegative, bounded⟩, sameFree ▸ allocated⟩⟩

theorem exists_not_allocated
    (core : Fin cores)
    (isFree : index ∈ replicas.free) :
    ∃ allocator : Allocator range, Encodes (chain.cells core) allocator ∧
      0 ≤ index ∧ index < range ∧ index ∉ allocator.alloc := by
  obtain ⟨allocator, encodes, sameFree⟩ := lockstep.encodes core
  rw [← sameFree] at isFree
  obtain ⟨nonnegative, bounded⟩ := allocator.inRange_of_mem_free isFree
  exact ⟨allocator, encodes, nonnegative, bounded,
    fun member => allocator.not_mem_free member isFree⟩

theorem dchainLocksIsIndexAllocated_iff
    (core : Fin cores)
    (nonnegative : 0 ≤ index)
    (bounded : index < range) :
    dchainLocksIsIndexAllocated core chain index = true ↔
      index ∉ replicas.free := by
  obtain ⟨allocator, encodes, sameFree⟩ := lockstep.encodes core
  have answer := encodes.isIndexAllocated nonnegative bounded
  rw [dchainLocksIsIndexAllocated, dchainLocksImplIsIndexAllocated, answer,
    Allocator.isIndexAllocated, decide_eq_true_iff, Allocator.mem_alloc_iff,
    sameFree]
  exact and_iff_right ⟨nonnegative, bounded⟩

end

/-! ## Allocation -/

theorem allocateOnAllCores_eq
    (common : ∀ core,
      (dchainLocksImplAllocateNewIndex (chain.cells core)).1 = result)
    (caller : Fin cores)
    (indexOut time : ℤ) :
    allocateOnAllCores chain indexOut time =
      (result.isSome, result.getD indexOut,
        { chain with
          cells := fun core =>
            (dchainLocksImplAllocateNewIndex (chain.cells core)).2
          timestamps := fun core =>
            result.elim (chain.timestamps core) fun index =>
              update (chain.timestamps core) index time }) := by
  simp only [allocateOnAllCores, common]
  rw [foldl_eq_of_idempotent
    (fun state => (result.isSome, result.getD state.2)) ?_ ?_
    (finRange_ne_nil caller)]
  · cases result <;> rfl
  · rintro ⟨ret, out⟩ _
    cases result <;> rfl
  · rintro ⟨ret, out⟩
    cases result <;> rfl

section

variable (lockstep : Lockstep chain range replicas)

include lockstep

section

variable {flags : Flags}
  (core : Fin cores)
  (writing : flags.writeState = true)
  (indexOut time : ℤ)

include writing

theorem dchainLocksAllocateNewIndex_of_nil (full : replicas.free = []) :
    dchainLocksAllocateNewIndex core flags chain indexOut time =
      (false, indexOut, flags, chain) := by
  have unchanged : ∀ core,
      dchainLocksImplAllocateNewIndex (chain.cells core) = (none, chain.cells core) := by
    intro core
    obtain ⟨allocator, encodes, sameFree⟩ := lockstep.encodes core
    exact encodes.allocateNewIndex_of_full (sameFree.trans full)
  have common : ∀ core,
      (dchainLocksImplAllocateNewIndex (chain.cells core)).1 = none := by
    intro core
    rw [unchanged]
  rw [dchainLocksAllocateNewIndex, allocateOnAllCores_eq common core]
  simp [writing, unchanged]

theorem dchainLocksAllocateNewIndex_of_cons
    (available : replicas.free = index :: rest) :
    ∃ chain' : DoubleChainLocks cores,
      dchainLocksAllocateNewIndex core flags chain indexOut time =
        (true, index, flags, chain') ∧
      Lockstep chain' range (replicas.allocate core time).2 := by
  have popped : ∀ core,
      (dchainLocksImplAllocateNewIndex (chain.cells core)).1 = some index ∧
        EncodesFree (dchainLocksImplAllocateNewIndex (chain.cells core)).2 range rest := by
    intro core
    obtain ⟨allocator, encodes, sameFree⟩ := lockstep.encodes core
    have shape := sameFree.trans available
    obtain ⟨result, encoded⟩ := encodes.allocateNewIndex_of_available shape
    exact ⟨result, _, encoded, (Allocator.allocateNewIndex_of_cons shape).2.2⟩
  have inRange : 0 ≤ index ∧ index < range := by
    obtain ⟨allocator, _, sameFree⟩ := lockstep.encodes core
    exact allocator.inRange_of_mem_free (by simp [sameFree, available])
  obtain ⟨_, newFree, newActive, newTime⟩ :=
    Replicas.allocate_of_cons available core time
  refine ⟨{ chain with
      cells := fun core =>
        (dchainLocksImplAllocateNewIndex (chain.cells core)).2
      timestamps :=
        fun core => update (chain.timestamps core) index time
      activeCells := update chain.activeCells core
        (dchainLocksImplActivateIndex (chain.activeCells core) index).2 },
    ?_, ⟨?_, ?_, ?_⟩⟩
  · rw [dchainLocksAllocateNewIndex, allocateOnAllCores_eq (fun core => (popped core).1) core]
    simp [writing]
  · intro other
    rw [newFree]
    exact (popped other).2
  · intro other
    rw [newActive, Replicas.touch]
    by_cases same : other = core
    · subst same
      simpa using (lockstep.ring other).activateIndex inRange.1 inRange.2
    · simpa [same] using lockstep.ring other
  · rw [newTime, ← lockstep.times]

theorem dchainLocksAllocateNewIndex :
    ∃ chain' : DoubleChainLocks cores,
      dchainLocksAllocateNewIndex core flags chain indexOut time =
        ((replicas.allocate core time).1.isSome,
          (replicas.allocate core time).1.getD indexOut, flags, chain') ∧
      Lockstep chain' range (replicas.allocate core time).2 := by
  cases shape : replicas.free with
  | nil =>
      rw [Replicas.allocate_of_nil shape]
      exact ⟨chain, lockstep.dchainLocksAllocateNewIndex_of_nil core writing
        indexOut time shape, lockstep⟩
  | cons index rest =>
      rw [(Replicas.allocate_of_cons shape core time).1]
      exact lockstep.dchainLocksAllocateNewIndex_of_cons core writing indexOut time shape

end

/-! ## Rejuvenation -/

theorem dchainLocksRejuvenateIndex_of_allocated
    (core : Fin cores)
    {index : ℤ}
    (nonnegative : 0 ≤ index)
    (bounded : index < range)
    (allocated : index ∉ replicas.free)
    (time : ℤ) :
    ∃ chain' : DoubleChainLocks cores,
      dchainLocksRejuvenateIndex core chain index time = (true, chain') ∧
      Lockstep chain' range (replicas.rejuvenate core index time).2 := by
  obtain ⟨allocator, encodes, sameFree, member⟩ :=
    lockstep.exists_allocated core nonnegative bounded allocated
  obtain ⟨success, encoded⟩ := encodes.rejuvenateIndex_of_allocated member
  have keptFree : (allocator.rejuvenateIndex index).2.free =
      replicas.free := by
    simp [Allocator.rejuvenateIndex, member, sameFree]
  obtain ⟨_, newFree, newActive, newTime⟩ :=
    Replicas.rejuvenate_of_allocated allocated core time
  generalize outcome : dchainImplRejuvenateIndex (chain.cells core) index =
    result at success encoded
  obtain ⟨ret, cells⟩ := result
  dsimp only at success encoded
  subst success
  refine ⟨{ cells := update chain.cells core cells
            timestamps := update chain.timestamps core
              (update (chain.timestamps core) index time)
            activeCells := update chain.activeCells core
              (dchainLocksImplActivateIndex (chain.activeCells core) index).2 },
    ?_, ⟨?_, ?_, ?_⟩⟩
  · simp [dchainLocksRejuvenateIndex, outcome]
  · intro other
    rw [newFree]
    by_cases same : other = core
    · subst same
      simpa using ⟨_, encoded, keptFree⟩
    · simpa [same] using lockstep.encodes other
  · intro other
    rw [newActive, Replicas.touch]
    by_cases same : other = core
    · subst same
      simpa using (lockstep.ring other).activateIndex nonnegative bounded
    · simpa [same] using lockstep.ring other
  · rw [newTime, ← lockstep.times]

theorem dchainLocksRejuvenateIndex
    (core : Fin cores)
    {index : ℤ}
    (nonnegative : 0 ≤ index)
    (bounded : index < range)
    (time : ℤ) :
    ∃ chain' : DoubleChainLocks cores,
      dchainLocksRejuvenateIndex core chain index time =
        ((replicas.rejuvenate core index time).1, chain') ∧
      Lockstep chain' range (replicas.rejuvenate core index time).2 := by
  by_cases isFree : index ∈ replicas.free
  · obtain ⟨allocator, encodes, _, _, notAllocated⟩ :=
      lockstep.exists_not_allocated core isFree
    have unchanged := encodes.rejuvenateIndex_of_not_allocated nonnegative bounded notAllocated
    rw [Replicas.rejuvenate_of_free isFree]
    refine ⟨chain, ?_, lockstep⟩
    simp [DoubleChainLocks.dchainLocksRejuvenateIndex, unchanged]
  · rw [(Replicas.rejuvenate_of_allocated isFree core time).1]
    exact lockstep.dchainLocksRejuvenateIndex_of_allocated core nonnegative bounded isFree time

end

/-! ## Release -/

theorem dchainLocksFreeIndex_eq
    (writing : flags.writeState = true)
    (common : ∀ core,
      (dchainLocksImplFreeIndex (chain.cells core) index).1 = result)
    (caller : Fin cores) :
    dchainLocksFreeIndex flags chain index =
      (result, flags,
        { cells := fun core =>
            (dchainLocksImplFreeIndex (chain.cells core) index).2
          activeCells := fun core =>
            (dchainLocksImplDeactivateIndex (chain.activeCells core) index).2
          timestamps := fun core =>
            update (chain.timestamps core) index (-1) }) := by
  simp only [dchainLocksFreeIndex, writing, common]
  rw [foldl_eq_of_idempotent (fun _ => result) (fun _ _ => rfl) (fun _ => rfl)
    (finRange_ne_nil caller)]
  simp

section

variable (lockstep : Lockstep chain range replicas)

include lockstep

section

variable {flags : Flags}
  (caller : Fin cores)
  (writing : flags.writeState = true)

include caller writing

theorem dchainLocksFreeIndex_of_allocated
    {index : ℤ}
    (nonnegative : 0 ≤ index)
    (bounded : index < range)
    (allocated : index ∉ replicas.free) :
    ∃ chain' : DoubleChainLocks cores,
      dchainLocksFreeIndex flags chain index = (true, flags, chain') ∧
      Lockstep chain' range (replicas.release index).2 := by
  have freed : ∀ core,
      (dchainLocksImplFreeIndex (chain.cells core) index).1 = true ∧
        EncodesFree (dchainLocksImplFreeIndex (chain.cells core) index).2 range
          (index :: replicas.free) := by
    intro core
    obtain ⟨allocator, encodes, sameFree, member⟩ :=
      lockstep.exists_allocated core nonnegative bounded allocated
    obtain ⟨success, encoded⟩ := encodes.freeIndex_of_allocated member
    refine ⟨success, _, encoded, ?_⟩
    simp [Allocator.freeIndex, member, sameFree]
  obtain ⟨_, newFree, newActive, newTime⟩ :=
    Replicas.release_of_allocated allocated
  refine ⟨_, dchainLocksFreeIndex_eq writing (fun core => (freed core).1) caller, ⟨?_, ?_, ?_⟩⟩
  · intro core
    rw [newFree]
    exact (freed core).2
  · intro core
    rw [newActive]
    exact (lockstep.ring core).deactivateIndex nonnegative bounded
  · rw [newTime, lockstep.times]
    rfl

theorem dchainLocksFreeIndex_of_free (isFree : index ∈ replicas.free) :
    ∃ chain' : DoubleChainLocks cores,
      dchainLocksFreeIndex flags chain index = (false, flags, chain') ∧
      Lockstep chain' range (replicas.release index).2 := by
  have unchanged : ∀ core, dchainLocksImplFreeIndex (chain.cells core) index =
      (false, chain.cells core) := by
    intro core
    obtain ⟨allocator, encodes, nonnegative, bounded, notAllocated⟩ :=
      lockstep.exists_not_allocated core isFree
    exact encodes.freeIndex_of_not_allocated nonnegative bounded notAllocated
  have common : ∀ core,
      (dchainLocksImplFreeIndex (chain.cells core) index).1 = false := by
    intro core
    rw [unchanged]
  obtain ⟨_, _, nonnegative, bounded, _⟩ :=
    lockstep.exists_not_allocated caller isFree
  rw [Replicas.release_of_free isFree]
  refine ⟨_, dchainLocksFreeIndex_eq writing common caller, ⟨?_, ?_, ?_⟩⟩
  · intro core
    dsimp only
    rw [unchanged]
    exact lockstep.encodes core
  · intro core
    have notActive : index ∉ replicas.active core :=
      fun member => replicas.notFree core index member isFree
    have deactivated := (lockstep.ring core).deactivateIndex nonnegative bounded
    rwa [List.erase_of_not_mem notActive] at deactivated
  · rw [lockstep.times]
    rfl

theorem dchainLocksFreeIndex
    {index : ℤ}
    (nonnegative : 0 ≤ index)
    (bounded : index < range) :
    ∃ chain' : DoubleChainLocks cores,
      dchainLocksFreeIndex flags chain index =
        ((replicas.release index).1, flags, chain') ∧
      Lockstep chain' range (replicas.release index).2 := by
  by_cases isFree : index ∈ replicas.free
  · have failed : (replicas.release index).1 = false := by
      rw [Replicas.release_of_free isFree]
    rw [failed]
    exact lockstep.dchainLocksFreeIndex_of_free caller writing isFree
  · rw [(Replicas.release_of_allocated isFree).1]
    exact lockstep.dchainLocksFreeIndex_of_allocated caller writing nonnegative bounded isFree

end

/-! ## Expiry -/

theorem dchainLocksExpireOneIndex_of_none
    (fresh : replicas.oldest core time = none)
    (flags : Flags)
    (indexOut : ℤ) :
    (dchainLocksExpireOneIndex core flags chain indexOut time).Returns
      (false, (replicas.active core).head?.getD indexOut, flags, chain) := by
  rw [DoubleChainLocks.dchainLocksExpireOneIndex,
    (lockstep.ring core).getOldestIndex, lockstep.times]
  cases head : (replicas.active core).head? with
  | none => exact Fuelled.returns_pure _
  | some index =>
      have notOld : ¬(replicas.time core index > -1 ∧
          replicas.time core index < time) := by
        rw [Replicas.oldest, head] at fresh
        simpa [Option.filter] using fresh
      simp only [if_neg notOld]
      exact Fuelled.returns_pure _

end

section Old

variable
  {core : Fin cores}
  {flags : Flags}
  {index time : ℤ}

section

variable (lockstep : Lockstep chain range replicas)
  (old : replicas.oldest core time = some index)

include lockstep old

theorem oldest_spec :
    dchainLocksImplGetOldestIndex (chain.activeCells core) = some index ∧
      index ∈ replicas.active core ∧
      (chain.timestamps core index > -1 ∧
        chain.timestamps core index < time) := by
  obtain ⟨⟨younger, shape⟩, used, before⟩ :=
    Replicas.oldest_eq_some_iff.mp old
  rw [(lockstep.ring core).getOldestIndex, lockstep.times, shape]
  exact ⟨rfl, by simp, used, before⟩

theorem dchainLocksExpireOneIndex_of_reading
    (reading : flags.writeState = false)
    (indexOut : ℤ) :
    (dchainLocksExpireOneIndex core flags chain indexOut time).Returns
      (true, index, { flags with writeAttempt := true }, chain) := by
  obtain ⟨oldest, _, tests⟩ := lockstep.oldest_spec old
  rw [DoubleChainLocks.dchainLocksExpireOneIndex, oldest]
  simp only [if_pos tests, if_pos reading]
  exact Fuelled.returns_pure _

theorem dchainLocksExpireOneIndex_of_refreshed
    (writing : flags.writeState = true)
    (refreshed : replicas.Refreshed index time)
    (indexOut : ℤ) :
    ∃ chain',
      (dchainLocksExpireOneIndex core flags chain indexOut time).Returns
        (true, index, flags, chain') ∧
      Lockstep chain' range replicas := by
  obtain ⟨oldest, member, tests⟩ := lockstep.oldest_spec old
  obtain ⟨nonnegative, bounded⟩ := lockstep.inRange member
  obtain ⟨allocator, encodes, sameFree, allocated⟩ :=
    lockstep.exists_allocated core nonnegative bounded (replicas.notFree core index member)
  obtain ⟨cells, returns, encoded⟩ :=
    dchainLocksUpdateTimestamp_returns encodes allocated (mostRecent chain index)
  rw [lockstep.times] at tests
  have recent : mostRecent chain index ≥ time :=
    (lockstep.le_mostRecent_iff_refreshed tests.1 time).mpr refreshed
  refine ⟨{ chain with cells := update chain.cells core cells }, ?_,
    ?_, lockstep.ring, lockstep.times⟩
  · rw [DoubleChainLocks.dchainLocksExpireOneIndex, oldest]
    simp only [lockstep.times, if_pos tests, writing, Bool.true_eq_false, if_false, if_pos recent]
    rw [← lockstep.times]
    exact returns.bind (Fuelled.returns_pure _)
  · intro other
    by_cases same : other = core
    · subst same
      simpa [← sameFree] using encoded
    · simpa [same] using lockstep.encodes other

theorem dchainLocksExpireOneIndex_of_expired
    (writing : flags.writeState = true)
    (expired : ¬replicas.Refreshed index time)
    (indexOut : ℤ) :
    ∃ chain',
      (dchainLocksExpireOneIndex core flags chain indexOut time).Returns
        (true, index, flags, chain') ∧
      Lockstep chain' range (replicas.release index).2 := by
  obtain ⟨oldest, member, tests⟩ := lockstep.oldest_spec old
  obtain ⟨nonnegative, bounded⟩ := lockstep.inRange member
  obtain ⟨chain', outcome, lockstep'⟩ :=
    lockstep.dchainLocksFreeIndex_of_allocated core writing nonnegative bounded
      (replicas.notFree core index member)
  rw [lockstep.times] at tests
  have notRecent : ¬mostRecent chain index ≥ time :=
    mt (lockstep.le_mostRecent_iff_refreshed tests.1 time).mp expired
  refine ⟨chain', ?_, lockstep'⟩
  rw [DoubleChainLocks.dchainLocksExpireOneIndex, oldest]
  simp only [lockstep.times, if_pos tests, writing, Bool.true_eq_false,
    if_false, if_neg notRecent, outcome]
  exact Fuelled.returns_pure _

end

end Old

theorem dchainLocksExpireOneIndex
    (lockstep : Lockstep chain range replicas)
    (core : Fin cores)
    (writing : flags.writeState = true)
    (indexOut time : ℤ) :
    ∃ index chain',
      (dchainLocksExpireOneIndex core flags chain indexOut time).Returns
        ((replicas.expireOne core time).1.isSome, index, flags, chain') ∧
      Lockstep chain' range (replicas.expireOne core time).2 ∧
      ∀ reported, (replicas.expireOne core time).1 = some reported →
        index = reported := by
  rw [Replicas.expireOne]
  cases old : replicas.oldest core time with
  | none =>
      have returns := lockstep.dchainLocksExpireOneIndex_of_none old flags indexOut
      exact ⟨_, chain, returns, lockstep, by simp⟩
  | some index =>
      by_cases refreshed : replicas.Refreshed index time
      · obtain ⟨chain', returns, lockstep'⟩ :=
          lockstep.dchainLocksExpireOneIndex_of_refreshed old writing refreshed indexOut
        simp only [if_pos refreshed]
        exact ⟨index, chain', returns, lockstep', by simp⟩
      · obtain ⟨chain', returns, lockstep'⟩ :=
          lockstep.dchainLocksExpireOneIndex_of_expired old writing refreshed indexOut
        simp only [if_neg refreshed]
        exact ⟨index, chain', returns, lockstep', by simp⟩

end Lockstep

/-! ## Runs -/

/-- Flags of a core that holds the write lock. -/
def writeMode : Flags :=
  { writeAttempt := true, writeState := true }

theorem writeMode_writing : writeMode.writeState = true := rfl

/-- A call by one core; all but the rejuvenation are made under the write lock.
A rejuvenation does not read the flags. -/
inductive Operation (cores : ℕ)
  | allocateNewIndex (core : Fin cores) (indexOut time : ℤ)
  | freeIndex (core : Fin cores) (index : ℤ)
  | expireOneIndex (core : Fin cores) (indexOut time : ℤ)
  | rejuvenateIndex (core : Fin cores) (index time : ℤ)

/-- The index that is passed to a call lies in the range. -/
def Operation.InRange (range : ℕ) : Operation cores → Prop
  | .allocateNewIndex .. | .expireOneIndex .. => True
  | .freeIndex _ index | .rejuvenateIndex _ index _ =>
      0 ≤ index ∧ index < range

/-- The chain after a call. -/
def Operation.exec
    (chain : DoubleChainLocks cores) :
    Operation cores → Fuelled (DoubleChainLocks cores)
  | .allocateNewIndex core indexOut time =>
      pure (dchainLocksAllocateNewIndex core writeMode chain indexOut
        time).2.2.2
  | .freeIndex _ index =>
      pure (dchainLocksFreeIndex writeMode chain index).2.2
  | .expireOneIndex core indexOut time => do
      let (_, _, _, chain) ←
        dchainLocksExpireOneIndex core writeMode chain indexOut time
      pure chain
  | .rejuvenateIndex core index time =>
      pure (dchainLocksRejuvenateIndex core chain index time).2

/-- The abstract state after a call. -/
def Operation.spec (replicas : Replicas cores) :
    Operation cores → Replicas cores
  | .allocateNewIndex core _ time => (replicas.allocate core time).2
  | .freeIndex _ index => (replicas.release index).2
  | .expireOneIndex core _ time => (replicas.expireOne core time).2
  | .rejuvenateIndex core index time =>
      (replicas.rejuvenate core index time).2

/-- The time of a use is not negative. -/
def Operation.TimeNonnegative : Operation cores → Prop
  | .allocateNewIndex _ _ time | .rejuvenateIndex _ _ time => 0 ≤ time
  | .freeIndex .. | .expireOneIndex .. => True

/-- With nonnegative times all active indexes have times. -/
theorem Operation.spec_stamped
    (stamped : replicas.Stamped)
    {operation : Operation cores}
    (nonnegative : operation.TimeNonnegative) :
    (operation.spec replicas).Stamped := by
  cases operation with
  | allocateNewIndex core _ time => exact Replicas.Stamps.allocate stamped nonnegative core
  | freeIndex _ index => exact Replicas.Stamps.release stamped index
  | expireOneIndex core _ time => exact Replicas.Stamps.expireOne stamped core time
  | rejuvenateIndex core index time =>
      exact Replicas.Stamps.rejuvenate stamped nonnegative core index

/-- The chain after a sequence of calls. -/
def run
    (chain : DoubleChainLocks cores)
    (operations : List (Operation cores)) : Fuelled (DoubleChainLocks cores) :=
  operations.foldlM Operation.exec chain

/-- Each call returns and keeps the replicas in lockstep. -/
theorem Lockstep.exec
    {replicas : Replicas cores}
    (lockstep : Lockstep chain range replicas)
    {operation : Operation cores}
    (inRange : operation.InRange range) :
    ∃ chain', (operation.exec chain).Returns chain' ∧
      Lockstep chain' range (operation.spec replicas) := by
  cases operation with
  | allocateNewIndex core indexOut time =>
      obtain ⟨chain', outcome, lockstep'⟩ :=
        lockstep.dchainLocksAllocateNewIndex core writeMode_writing indexOut time
      refine ⟨chain', ?_, lockstep'⟩
      rw [Operation.exec, outcome]
      exact Fuelled.returns_pure _
  | freeIndex core index =>
      obtain ⟨chain', outcome, lockstep'⟩ :=
        lockstep.dchainLocksFreeIndex core writeMode_writing inRange.1 inRange.2
      refine ⟨chain', ?_, lockstep'⟩
      rw [Operation.exec, outcome]
      exact Fuelled.returns_pure _
  | expireOneIndex core indexOut time =>
      obtain ⟨index, chain', returns, lockstep', _⟩ :=
        lockstep.dchainLocksExpireOneIndex core writeMode_writing indexOut time
      exact ⟨chain', returns.bind (Fuelled.returns_pure _), lockstep'⟩
  | rejuvenateIndex core index time =>
      obtain ⟨chain', outcome, lockstep'⟩ :=
        lockstep.dchainLocksRejuvenateIndex core inRange.1 inRange.2 time
      refine ⟨chain', ?_, lockstep'⟩
      rw [Operation.exec, outcome]
      exact Fuelled.returns_pure _

theorem run_lockstep
    (memory : DoubleChainLocks cores)
    (positive : 0 < range)
    {operations : List (Operation cores)}
    (inRange : ∀ operation ∈ operations, operation.InRange range) :
    ∃ chain,
      (run (dchainLocksAllocate memory range) operations).Returns chain ∧
      Lockstep chain range (operations.foldl Operation.spec
        (Replicas.initial range
          (dchainLocksAllocate memory range).timestamps)) := by
  apply Fuelled.foldlM_returns (fun chain => Lockstep chain range)
  · intro operation member chain replicas lockstep
    exact lockstep.exec (inRange operation member)
  · exact Lockstep.dchainLocksAllocate memory positive

/-- After every sequence of calls, by any cores, from a fresh chain: all
replicas have the same free list and the same set of allocated indexes, the next
allocation takes the same index from every replica or fails in every replica,
and all cores agree on which indexes are allocated. -/
theorem replicas_stay_in_lockstep
    (memory : DoubleChainLocks cores)
    (positive : 0 < range)
    (operations : List (Operation cores))
    (inRange : ∀ operation ∈ operations, operation.InRange range) :
    ∃ chain,
      (run (dchainLocksAllocate memory range) operations).Returns chain ∧
      ∃ replica : Fin cores → Allocator range,
        (∀ core, Encodes (chain.cells core) (replica core)) ∧
        ∀ first second,
          (replica first).free = (replica second).free ∧
          (∀ index, index ∈ (replica first).alloc ↔
            index ∈ (replica second).alloc) ∧
          (dchainLocksImplAllocateNewIndex (chain.cells first)).1 =
            (dchainLocksImplAllocateNewIndex (chain.cells second)).1 ∧
          ∀ index : ℤ, 0 ≤ index → index < range →
            dchainLocksIsIndexAllocated first chain index =
              dchainLocksIsIndexAllocated second chain index := by
  obtain ⟨chain, returns, lockstep⟩ := run_lockstep memory positive inRange
  choose replica encodes sameFree using lockstep.encodes
  have agreed : ∀ first second, (replica first).free = (replica second).free :=
    fun first second => (sameFree first).trans (sameFree second).symm
  have sameAlloc : ∀ first second index,
      index ∈ (replica first).alloc ↔ index ∈ (replica second).alloc := by
    intro first second index
    rw [Allocator.mem_alloc_iff, Allocator.mem_alloc_iff, agreed first second]
  refine ⟨chain, returns, replica, encodes, fun first second =>
    ⟨agreed first second, sameAlloc first second, ?_, ?_⟩⟩
  · rw [(encodes first).allocateNewIndex.1, (encodes second).allocateNewIndex.1]
    cases shape : (replica first).free with
    | nil =>
        rw [Allocator.allocateNewIndex_of_nil shape,
          Allocator.allocateNewIndex_of_nil ((agreed second first).trans shape)]
    | cons index rest =>
        rw [(Allocator.allocateNewIndex_of_cons shape).1,
          (Allocator.allocateNewIndex_of_cons
            ((agreed second first).trans shape)).1]
  · intro index nonnegative bounded
    rw [Bool.eq_iff_iff,
      lockstep.dchainLocksIsIndexAllocated_iff first nonnegative bounded,
      lockstep.dchainLocksIsIndexAllocated_iff second nonnegative bounded]

/-- Two cores whose orders of the allocated indexes differ. -/
theorem replicas_stay_in_lockstep_two :
    let memory : DoubleChainLocks 2 :=
      ⟨fun _ _ => ⟨0, 0⟩, fun _ _ => ⟨0, 0⟩, fun _ _ => 0⟩
    let operations : List (Operation 2) := [.allocateNewIndex 0 0 1,
      .allocateNewIndex 1 0 2, .rejuvenateIndex 1 0 3, .expireOneIndex 0 0 2,
      .freeIndex 0 1]
    ∃ chain, (run (dchainLocksAllocate memory 3) operations).Returns chain ∧
      (dchainLocksImplAllocateNewIndex (chain.cells 0)).1 =
        (dchainLocksImplAllocateNewIndex (chain.cells 1)).1 ∧
      ∀ index : ℤ, 0 ≤ index → index < 3 →
        dchainLocksIsIndexAllocated 0 chain index =
          dchainLocksIsIndexAllocated 1 chain index := by
  intro memory operations
  have inRange : ∀ operation ∈ operations, operation.InRange 3 := by
    simp [operations, Operation.InRange]
  obtain ⟨chain, returns, _, _, agree⟩ :=
    replicas_stay_in_lockstep memory (by decide : 0 < 3) operations inRange
  obtain ⟨_, _, sameResult, sameStatus⟩ := agree 0 1
  exact ⟨chain, returns, sameResult, sameStatus⟩

end DoubleChainLocks
end Vigor
