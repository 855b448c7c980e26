import Vigor.Locks.Lockstep

/-!
# Active lists along every run

A history is a run of allocations, rejuvenations and releases by any cores,
with times that never decrease, together with the uses that the calls report.
The active list of a core then holds the allocated indexes that the core used
since they were allocated, in the order of these uses.
-/

namespace Vigor

open LinkedRing DoubleChain Worker

namespace DoubleChainLocks

variable {cores range : ℕ}

/-- A call that reports success. -/
inductive Use (cores : ℕ)
  | allocated (core : Fin cores) (index : ℤ)
  | rejuvenated (core : Fin cores) (index : ℤ)
  deriving DecidableEq

/-- The core that made the call, and its index. -/
def Use.source : Use cores → Fin cores × ℤ
  | .allocated core index | .rejuvenated core index => (core, index)

/-- The call handed out the index. -/
def Use.Allocates (index : ℤ) : Use cores → Prop
  | .allocated _ handedOut => handedOut = index
  | .rejuvenated .. => False

instance (index : ℤ) : (use : Use cores) → Decidable (use.Allocates index)
  | .allocated _ handedOut => inferInstanceAs (Decidable (handedOut = index))
  | .rejuvenated .. => inferInstanceAs (Decidable False)

/-- Among the uses, youngest first, there is one of the index by the core, and
none that handed out the index after it. -/
def UsedSinceAllocation
    (core : Fin cores)
    (index : ℤ) :
    List (Use cores) → Prop
  | [] => False
  | use :: older => use.source = (core, index) ∨
      ¬use.Allocates index ∧ UsedSinceAllocation core index older

instance decidableUsedSinceAllocation (core : Fin cores) (index : ℤ) :
    (uses : List (Use cores)) → Decidable (UsedSinceAllocation core index uses)
  | [] => inferInstanceAs (Decidable False)
  | use :: older =>
      have := decidableUsedSinceAllocation core index older
      inferInstanceAs (Decidable (use.source = (core, index) ∨
        ¬use.Allocates index ∧ UsedSinceAllocation core index older))

/-- States that calls in write mode lead to, with the reported uses, youngest
first, and the time of the latest call that has one.  Times are not negative and
never decrease. -/
inductive History (range : ℕ) :
    DoubleChainLocks cores → List (Use cores) → ℤ → Prop where
  | fresh (memory : DoubleChainLocks cores) :
      History range (dchainLocksAllocate memory range) [] 0
  | allocateNewIndex {chain chain' : DoubleChainLocks cores}
      {uses : List (Use cores)} {now time : ℤ} (core : Fin cores)
      (indexOut : ℤ) {success : Bool} {index : ℤ} {flags : Flags} :
      History range chain uses now → now ≤ time →
      dchainLocksAllocateNewIndex core writeMode chain indexOut time =
        (success, index, flags, chain') →
      History range chain'
        (if success then .allocated core index :: uses else uses) time
  | rejuvenateIndex {chain chain' : DoubleChainLocks cores}
      {uses : List (Use cores)} {now time : ℤ} (core : Fin cores)
      {index : ℤ} {success : Bool} :
      History range chain uses now → now ≤ time → 0 ≤ index → index < range →
      dchainLocksRejuvenateIndex core chain index time = (success, chain') →
      History range chain'
        (if success then .rejuvenated core index :: uses else uses) time
  | freeIndex {chain chain' : DoubleChainLocks cores}
      {uses : List (Use cores)} {now : ℤ}
      {index : ℤ} {success : Bool} {flags : Flags} :
      History range chain uses now → 0 ≤ index → index < range →
      dchainLocksFreeIndex writeMode chain index = (success, flags, chain') →
      History range chain' uses now

/-- The active lists are those that the uses tell. -/
def Recorded
    (replicas : Replicas cores)
    (uses : List (Use cores)) : Prop :=
  ∀ core index, index ∈ replicas.active core ↔
    index ∉ replicas.free ∧ UsedSinceAllocation core index uses

namespace Recorded

variable {replicas : Replicas cores} {uses : List (Use cores)}

theorem allocate
    (recorded : Recorded replicas uses)
    (available : replicas.free = index :: rest)
    (core : Fin cores)
    (time : ℤ) :
    Recorded (replicas.allocate core time).2
      (.allocated core index :: uses) := by
  intro other candidate
  obtain ⟨_, newFree, newActive, _⟩ :=
    Replicas.allocate_of_cons available core time
  have nodup := replicas.freeNodup
  rw [available, List.nodup_cons] at nodup
  rw [newFree, newActive, Replicas.mem_touch_iff, recorded, available]
  by_cases same : candidate = index
  · subst same
    simp [UsedSinceAllocation, Use.source, Use.Allocates, nodup.1, eq_comm]
  · simp [UsedSinceAllocation, Use.source, Use.Allocates, same, Ne.symm same]

theorem rejuvenate
    (recorded : Recorded replicas uses)
    (allocated : index ∉ replicas.free)
    (core : Fin cores)
    (time : ℤ) :
    Recorded (replicas.rejuvenate core index time).2
      (.rejuvenated core index :: uses) := by
  intro other candidate
  obtain ⟨_, newFree, newActive, _⟩ :=
    Replicas.rejuvenate_of_allocated allocated core time
  rw [newFree, newActive, Replicas.mem_touch_iff, recorded]
  by_cases same : candidate = index
  · subst same
    simp [UsedSinceAllocation, Use.source, Use.Allocates, allocated, or_comm, eq_comm]
  · simp [UsedSinceAllocation, Use.source, Use.Allocates, same, Ne.symm same]

theorem release
    (recorded : Recorded replicas uses)
    (index : ℤ) :
    Recorded (replicas.release index).2 uses := by
  intro other candidate
  by_cases isFree : index ∈ replicas.free
  · rw [Replicas.release_of_free isFree]
    exact recorded other candidate
  · obtain ⟨_, newFree, newActive, _⟩ := Replicas.release_of_allocated isFree
    rw [newFree, newActive, (replicas.activeNodup other).mem_erase_iff,
      recorded, List.mem_cons, not_or, and_assoc]

end Recorded

/-- The abstract state fits the cells, the times and the uses. -/
structure Accounts
    (range : ℕ)
    (chain : DoubleChainLocks cores)
    (uses : List (Use cores))
    (now : ℤ)
    (replicas : Replicas cores) : Prop where
  nonnegative : 0 ≤ now
  lockstep : Lockstep chain range replicas
  timed : replicas.Timed now
  recorded : Recorded replicas uses

namespace Accounts

variable {chain chain' : DoubleChainLocks cores} {uses : List (Use cores)}
  {now time index : ℤ} {success : Bool} {flags : Flags}
  {replicas : Replicas cores}

theorem fresh
    (memory : DoubleChainLocks cores)
    (positive : 0 < range) :
    Accounts range (dchainLocksAllocate memory range) [] 0
      (Replicas.initial range
        (dchainLocksAllocate memory range).timestamps) where
  nonnegative := Int.le_refl 0
  lockstep := Lockstep.dchainLocksAllocate memory positive
  timed := Replicas.Timed.initial 0 range _
  recorded := by
    intro core index
    simp [Replicas.initial, UsedSinceAllocation]

section

variable (accounts : Accounts range chain uses now replicas)

include accounts

theorem allocateNewIndex
    (later : now ≤ time)
    (core : Fin cores)
    (outcome : dchainLocksAllocateNewIndex core writeMode chain indexOut time =
      (success, index, flags, chain')) :
    Accounts range chain'
      (if success then .allocated core index :: uses else uses) time
      (replicas.allocate core time).2 := by
  have nonnegative := accounts.nonnegative.trans later
  have timed := (accounts.timed.mono later).allocate nonnegative core
  cases shape : replicas.free with
  | nil =>
      rw [accounts.lockstep.dchainLocksAllocateNewIndex_of_nil core
        writeMode_writing indexOut time shape] at outcome
      cases outcome
      rw [Replicas.allocate_of_nil shape] at timed ⊢
      exact ⟨nonnegative, accounts.lockstep, timed, accounts.recorded⟩
  | cons first rest =>
      obtain ⟨chain'', result, lockstep⟩ :=
        accounts.lockstep.dchainLocksAllocateNewIndex_of_cons core
          writeMode_writing indexOut time shape
      rw [result] at outcome
      cases outcome
      exact ⟨nonnegative, lockstep, timed, accounts.recorded.allocate shape core time⟩

theorem rejuvenateIndex
    (later : now ≤ time)
    (core : Fin cores)
    (nonnegativeIndex : 0 ≤ index)
    (bounded : index < range)
    (outcome : dchainLocksRejuvenateIndex core chain index time =
      (success, chain')) :
    Accounts range chain'
      (if success then .rejuvenated core index :: uses else uses) time
      (replicas.rejuvenate core index time).2 := by
  have nonnegative := accounts.nonnegative.trans later
  have timed := (accounts.timed.mono later).rejuvenate nonnegative core index
  obtain ⟨chain'', result, lockstep⟩ :=
    accounts.lockstep.dchainLocksRejuvenateIndex core nonnegativeIndex bounded time
  rw [result] at outcome
  cases outcome
  refine ⟨nonnegative, lockstep, timed, ?_⟩
  by_cases isFree : index ∈ replicas.free
  · rw [Replicas.rejuvenate_of_free isFree]
    exact accounts.recorded
  · rw [(Replicas.rejuvenate_of_allocated isFree core time).1]
    exact accounts.recorded.rejuvenate isFree core time

theorem freeIndex
    (core : Fin cores)
    (nonnegativeIndex : 0 ≤ index)
    (bounded : index < range)
    (outcome : dchainLocksFreeIndex writeMode chain index =
      (success, flags, chain')) :
    Accounts range chain' uses now (replicas.release index).2 := by
  obtain ⟨chain'', result, lockstep⟩ :=
    accounts.lockstep.dchainLocksFreeIndex core writeMode_writing nonnegativeIndex bounded
  rw [result] at outcome
  cases outcome
  exact ⟨accounts.nonnegative, lockstep, accounts.timed.release index,
    accounts.recorded.release index⟩

end

end Accounts

/-- Every history has an abstract state that fits it. -/
theorem History.exists_accounts
    (positive : 0 < range)
    (core : Fin cores)
    (history : History range chain uses now) :
    ∃ replicas : Replicas cores, Accounts range chain uses now replicas := by
  induction history with
  | fresh memory => exact ⟨_, Accounts.fresh memory positive⟩
  | allocateNewIndex caller indexOut _ later outcome hypothesis =>
      obtain ⟨replicas, accounts⟩ := hypothesis
      exact ⟨_, accounts.allocateNewIndex later caller outcome⟩
  | rejuvenateIndex caller _ later nonnegative bounded outcome hypothesis =>
      obtain ⟨replicas, accounts⟩ := hypothesis
      exact ⟨_, accounts.rejuvenateIndex later caller nonnegative bounded outcome⟩
  | freeIndex _ nonnegative bounded outcome hypothesis =>
      obtain ⟨replicas, accounts⟩ := hypothesis
      exact ⟨_, accounts.freeIndex core nonnegative bounded outcome⟩

/-- After every history the active cells of each core are a doubly linked list
through the head, without duplicates.  It holds the allocated indexes that the
core allocated or rejuvenated since they were last allocated, and no others, in
the order of the core's times; the cell of every other index has the free mark
as its forward link. -/
theorem active_lists_follow_uses
    {chain : DoubleChainLocks cores}
    {uses : List (Use cores)}
    {now : ℤ}
    (positive : 0 < range)
    (history : History range chain uses now)
    (core : Fin cores) :
    ∃ active : List ℤ,
      active.Nodup ∧
      IsRing (chain.activeCells core) allocListHead
        (active.map (· + indexShift)) ∧
      (∀ index ∈ active, 0 ≤ index ∧ index < range ∧
        dchainLocksIsIndexAllocated core chain index = true) ∧
      (∀ index : ℤ, 0 ≤ index → index < range →
        (index ∈ active ↔
          dchainLocksIsIndexAllocated core chain index = true ∧
            UsedSinceAllocation core index uses)) ∧
      (active.Pairwise fun first second =>
        chain.timestamps core first ≤ chain.timestamps core second) ∧
      ∀ index : ℤ, 0 ≤ index → index < range → index ∉ active →
        (chain.activeCells core (index + indexShift)).next = freeListHead := by
  obtain ⟨replicas, accounts⟩ := history.exists_accounts positive core
  have lockstep := accounts.lockstep
  have ring := lockstep.ring core
  refine ⟨replicas.active core, ring.nodup, ring.ring, ?_, ?_, ?_,
    ring.inactive⟩
  · intro index member
    obtain ⟨nonnegative, bounded⟩ := ring.inRange index member
    refine ⟨nonnegative, bounded, ?_⟩
    rw [lockstep.dchainLocksIsIndexAllocated_iff core nonnegative bounded]
    exact replicas.notFree core index member
  · intro index nonnegative bounded
    rw [lockstep.dchainLocksIsIndexAllocated_iff core nonnegative bounded]
    exact accounts.recorded core index
  · rw [lockstep.times]
    exact accounts.timed.sorted core

/-- Core 1 rejuvenates the index that core 0 allocated: it is now in both
lists, until core 0 frees it. -/
theorem active_lists_follow_uses_two :
    let memory : DoubleChainLocks 2 :=
      ⟨fun _ _ => ⟨0, 0⟩, fun _ _ => ⟨0, 0⟩, fun _ _ => 0⟩
    let first := dchainLocksAllocateNewIndex 0 writeMode
      (dchainLocksAllocate memory 1) 7 1
    let second := dchainLocksRejuvenateIndex 1 first.2.2.2 0 3
    let third := dchainLocksFreeIndex writeMode second.2 0
    (∃ active : List ℤ,
      IsRing (second.2.activeCells 1) allocListHead
        (active.map (· + indexShift)) ∧ 0 ∈ active) ∧
    (third.2.2.activeCells 1 (0 + indexShift)).next = freeListHead := by
  intro memory first second third
  have one := History.allocateNewIndex 0 7 (History.fresh memory)
    (show (0 : ℤ) ≤ 1 by decide)
    (show dchainLocksAllocateNewIndex 0 writeMode
      (dchainLocksAllocate memory (1 : ℕ)) 7 1 =
        (true, 0, writeMode, first.2.2.2) from rfl)
  have two := History.rejuvenateIndex 1 one (show (1 : ℤ) ≤ 3 by decide)
    (show (0 : ℤ) ≤ 0 by decide) (by decide)
    (show dchainLocksRejuvenateIndex 1 first.2.2.2 0 3 = (true, second.2)
      from rfl)
  have three := History.freeIndex two (show (0 : ℤ) ≤ 0 by decide) (by decide)
    (show dchainLocksFreeIndex writeMode second.2 0 =
      (true, writeMode, third.2.2) from rfl)
  constructor
  · obtain ⟨active, _, ring, _, members, _⟩ :=
      active_lists_follow_uses (by decide) two 1
    refine ⟨active, ring, ?_⟩
    rw [members 0 (by decide) (by decide)]
    exact ⟨by decide, by decide⟩
  · obtain ⟨active, _, _, allocated, _, _, inactive⟩ :=
      active_lists_follow_uses (by decide) three 1
    apply inactive 0 (by decide) (by decide)
    intro member
    have answer := (allocated 0 member).2.2
    have freed : dchainLocksIsIndexAllocated 1 third.2.2 0 = false := rfl
    rw [freed] at answer
    cases answer

end DoubleChainLocks
end Vigor
