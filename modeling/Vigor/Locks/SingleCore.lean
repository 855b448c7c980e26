import Vigor.DoubleChain.Timed
import Vigor.Library.FuelledTranscript
import Vigor.Locks.Lockstep

/-!
# The lock-based double chain on one core

With one core in write mode there is one replica, and every index that is
allocated is active, in the same order.  The lock-based functions then return
what the functions of `double-chain.c` return.
-/

namespace Vigor

open DoubleChain Worker Function

namespace SingleCore

/-- A call to a double chain.  The calls with an out parameter carry the value
that it has before. -/
inductive Call where
  | allocateNewIndex (indexOut time : ℤ)
  | rejuvenateIndex (index time : ℤ)
  | expireOneIndex (indexOut time : ℤ)
  | isIndexAllocated (index : ℤ)
  | freeIndex (index : ℤ)
  deriving DecidableEq, Repr

/-- The return code, and the out parameter of the calls that have one. -/
structure Reply where
  code : Bool
  indexOut : Option ℤ
  deriving DecidableEq, Repr

/-- Indexes lie in the range, and the times of use are not negative. -/
def Call.Proper (range : ℕ) : Call → Prop
  | .allocateNewIndex _ time => 0 ≤ time
  | .rejuvenateIndex index time => (0 ≤ index ∧ index < range) ∧ 0 ≤ time
  | .expireOneIndex _ _ => True
  | .isIndexAllocated index | .freeIndex index => 0 ≤ index ∧ index < range

/-- The functions of `double-chain.c`.  An index that is allocated or that is
the oldest one is written to the out parameter. -/
def exec
    (call : Call)
    (chain : DoubleChain) : Reply × DoubleChain :=
  match call with
  | .allocateNewIndex indexOut time =>
      let (index, chain) := dchainAllocateNewIndex chain time
      ({ code := index.isSome, indexOut := some (index.getD indexOut) }, chain)
  | .rejuvenateIndex index time =>
      let (ret, chain) := dchainRejuvenateIndex chain index time
      ({ code := ret, indexOut := none }, chain)
  | .expireOneIndex indexOut time =>
      let oldest := dchainImplGetOldestIndex chain.cells
      let (index, chain) := dchainExpireOneIndex chain time
      ({ code := index.isSome, indexOut := some (oldest.getD indexOut) }, chain)
  | .isIndexAllocated index =>
      ({ code := dchainIsIndexAllocated chain index, indexOut := none }, chain)
  | .freeIndex index =>
      let (ret, chain) := dchainFreeIndex chain index
      ({ code := ret, indexOut := none }, chain)

/-- The functions of `double-chain-locks.c` with one core. -/
def execLocks
    (call : Call)
    (state : Flags × DoubleChainLocks 1) :
    Fuelled (Reply × (Flags × DoubleChainLocks 1)) :=
  let (flags, chain) := state
  match call with
  | .allocateNewIndex indexOut time =>
      let (ret, indexOut, flags, chain) :=
        chain.dchainLocksAllocateNewIndex 0 flags indexOut time
      pure ({ code := ret, indexOut := some indexOut }, flags, chain)
  | .rejuvenateIndex index time =>
      let (ret, chain) := chain.dchainLocksRejuvenateIndex 0 index time
      pure ({ code := ret, indexOut := none }, flags, chain)
  | .expireOneIndex indexOut time => do
      let (ret, indexOut, flags, chain) ←
        chain.dchainLocksExpireOneIndex 0 flags indexOut time
      pure ({ code := ret, indexOut := some indexOut }, flags, chain)
  | .isIndexAllocated index =>
      pure ({ code := chain.dchainLocksIsIndexAllocated 0 index, indexOut := none },
        flags, chain)
  | .freeIndex index =>
      let (ret, flags, chain) := chain.dchainLocksFreeIndex flags index
      pure ({ code := ret, indexOut := none }, flags, chain)

/-- A chain of one core. -/
def replica
    (cells active : Cells)
    (timestamps : ℤ → ℤ) : DoubleChainLocks 1 :=
  { cells := fun _ => cells
    activeCells := fun _ => active
    timestamps := fun _ => timestamps }

/-! ## The relation -/

/-- Both chains have the same free list, all allocated indexes are active in the
order of their use, and their times agree. -/
structure Mirrors
    {range : ℕ}
    (locks : DoubleChainLocks 1)
    (chain : DoubleChain)
    (replicas : Replicas 1)
    (allocator : Allocator range) : Prop where
  lockstep : locks.Lockstep range replicas
  encodes : Encodes chain.cells allocator
  free : replicas.free = allocator.free
  active : replicas.active 0 = allocator.alloc
  stamped : replicas.Stamped
  times : ∀ index ∈ allocator.alloc, replicas.time 0 index = chain.timestamps index

/-- The state of the core in write mode mirrors the verified chain. -/
def Agrees
    (range : ℕ)
    (state : Flags × DoubleChainLocks 1)
    (chain : DoubleChain) : Prop :=
  state.1.writeState = true ∧
    ∃ replicas, ∃ allocator : Allocator range, Mirrors state.2 chain replicas allocator

section Steps

variable
  {range : ℕ}
  {flags : Flags}
  {locks : DoubleChainLocks 1}
  {chain : DoubleChain}
  {replicas : Replicas 1}
  {allocator : Allocator range}

namespace Mirrors

/-- An index that is used becomes the youngest one in both chains. -/
theorem use
    (mirrors : Mirrors locks chain replicas allocator)
    {following : Replicas 1}
    {cells : Cells}
    {used : Allocator range}
    (lockstep : locks'.Lockstep range following)
    (encodes : Encodes cells used)
    (free : following.free = used.free)
    (touched : following.active = replicas.touch 0 index)
    (youngest : used.alloc = allocator.alloc.erase index ++ [index])
    (stamped : following.Stamped)
    (times : following.time 0 = update (replicas.time 0) index time) :
    Mirrors locks' { cells := cells, timestamps := update chain.timestamps index time }
      following used where
  lockstep := lockstep
  encodes := encodes
  free := free
  active := by rw [touched, youngest, Replicas.touch, update_self, mirrors.active]
  stamped := stamped
  times other member := by
    rw [times]
    dsimp only
    by_cases same : other = index
    · rw [same, update_self, update_self]
    · rw [youngest, List.mem_append, List.mem_singleton] at member
      rw [update_of_ne same, update_of_ne same]
      exact mirrors.times other (List.mem_of_mem_erase (member.resolve_right same))

section

variable (mirrors : Mirrors locks chain replicas allocator)

include mirrors

theorem not_mem_free_iff
    {index : ℤ}
    (inRange : 0 ≤ index ∧ index < range) :
    index ∉ replicas.free ↔ index ∈ allocator.alloc := by
  rw [mirrors.free, allocator.mem_alloc_iff]
  exact (and_iff_right inRange).symm

/-- A release has the same result on both chains. -/
theorem release
    {index : ℤ}
    (inRange : 0 ≤ index ∧ index < range)
    (lockstep : locks'.Lockstep range (replicas.release index).2) :
    (replicas.release index).1 = (dchainFreeIndex chain index).1 ∧
      Mirrors locks' (dchainFreeIndex chain index).2 (replicas.release index).2
        (allocator.freeIndex index).2 := by
  obtain ⟨reply, encodes⟩ := mirrors.encodes.freeIndex inRange.1 inRange.2
  have others : ∀ other ∈ allocator.alloc, other ≠ index →
      replicas.reset index 0 other = chain.timestamps other := by
    intro other member different
    rw [Replicas.reset, update_of_ne different]
    exact mirrors.times other member
  have stamped := Replicas.Stamps.release mirrors.stamped index
  rw [show (dchainFreeIndex chain index).1 = _ from reply]
  by_cases allocated : index ∈ allocator.alloc
  · obtain ⟨success, newFree, newActive, newTime⟩ :=
      Replicas.release_of_allocated ((mirrors.not_mem_free_iff inRange).mpr allocated)
    rw [success]
    rw [Allocator.freeIndex, dif_pos allocated] at encodes ⊢
    refine ⟨rfl, lockstep, encodes, ?_, ?_, stamped, fun other member => ?_⟩
    · rw [newFree, mirrors.free]
    · simp only [newActive, mirrors.active]
    · rw [newTime]
      obtain ⟨different, old⟩ :=
        (mirrors.active ▸ replicas.activeNodup 0).mem_erase_iff.mp member
      exact others other old different
  · have isFree : index ∈ replicas.free := by
      rwa [← mirrors.not_mem_free_iff inRange, not_not] at allocated
    rw [Replicas.release_of_free isFree] at lockstep stamped ⊢
    rw [Allocator.freeIndex, dif_neg allocated] at encodes ⊢
    refine ⟨rfl, lockstep, encodes, mirrors.free, mirrors.active, stamped, fun other member => ?_⟩
    exact others other member fun same => allocated (same ▸ member)

end

end Mirrors

/-! ## Calls and runs -/

section

variable (mirrors : Mirrors locks chain replicas allocator)

include mirrors

variable (writing : flags.writeState = true)

include writing

theorem allocateNewIndex_agrees
    {time : ℤ}
    (notNegative : 0 ≤ time)
    (indexOut : ℤ) :
    ∃ following,
      (execLocks (.allocateNewIndex indexOut time) (flags, locks)).Returns
        ((exec (.allocateNewIndex indexOut time) chain).1, following) ∧
      Agrees range following
        (exec (.allocateNewIndex indexOut time) chain).2 := by
  simp only [execLocks, exec, dchainAllocateNewIndex]
  cases available : allocator.free with
  | nil =>
      rw [mirrors.lockstep.dchainLocksAllocateNewIndex_of_nil 0 writing _ _
        (mirrors.free.trans available), mirrors.encodes.allocateNewIndex_of_full available]
      exact ⟨_, Fuelled.returns_pure _, writing, replicas, allocator, mirrors⟩
  | cons index rest =>
      have availableLocks := mirrors.free.trans available
      obtain ⟨following, outcome, lockstep⟩ :=
        mirrors.lockstep.dchainLocksAllocateNewIndex_of_cons 0 writing indexOut time availableLocks
      obtain ⟨first, encodes⟩ := mirrors.encodes.allocateNewIndex_of_available available
      obtain ⟨_, newAlloc, newFree⟩ := Allocator.allocateNewIndex_of_cons available
      obtain ⟨_, restFree, touched, newTime⟩ :=
        Replicas.allocate_of_cons availableLocks 0 time
      have notAllocated : index ∉ allocator.alloc := fun allocated =>
        allocator.not_mem_free allocated (by simp [available])
      rw [← List.erase_of_not_mem notAllocated] at newAlloc
      rw [outcome, show dchainImplAllocateNewIndex chain.cells =
        (some index, _) from Prod.ext first rfl]
      exact ⟨_, Fuelled.returns_pure _, writing, _, _, mirrors.use lockstep encodes
        (restFree.trans newFree.symm) touched newAlloc
        (Replicas.Stamps.allocate mirrors.stamped notNegative 0) (congrFun newTime 0)⟩

theorem rejuvenateIndex_agrees
    {index time : ℤ}
    (inRange : 0 ≤ index ∧ index < range)
    (notNegative : 0 ≤ time) :
    ∃ following,
      (execLocks (.rejuvenateIndex index time) (flags, locks)).Returns
        ((exec (.rejuvenateIndex index time) chain).1, following) ∧
      Agrees range following (exec (.rejuvenateIndex index time) chain).2 := by
  obtain ⟨following, outcome, lockstep⟩ :=
    mirrors.lockstep.dchainLocksRejuvenateIndex 0 inRange.1 inRange.2 time
  simp only [execLocks, exec, outcome, dchainRejuvenateIndex]
  by_cases allocated : index ∈ allocator.alloc
  · obtain ⟨moved, encodes⟩ := mirrors.encodes.rejuvenateIndex_of_allocated allocated
    obtain ⟨success, newFree, touched, newTime⟩ := Replicas.rejuvenate_of_allocated
      ((mirrors.not_mem_free_iff inRange).mpr allocated) 0 time
    rw [Allocator.rejuvenateIndex, dif_pos allocated] at encodes
    simp only [moved, success, if_true]
    exact ⟨_, Fuelled.returns_pure _, writing, _, _,
      mirrors.use lockstep encodes (newFree.trans mirrors.free) touched rfl
      (Replicas.Stamps.rejuvenate mirrors.stamped notNegative 0 index)
      (by rw [newTime, update_self])⟩
  · have isFree : index ∈ replicas.free := by
      rwa [← mirrors.not_mem_free_iff inRange, not_not] at allocated
    rw [Replicas.rejuvenate_of_free isFree] at lockstep ⊢
    rw [mirrors.encodes.rejuvenateIndex_of_not_allocated inRange.1 inRange.2 allocated]
    exact ⟨_, Fuelled.returns_pure _, writing, _, allocator, { mirrors with lockstep }⟩

theorem isIndexAllocated_agrees
    {index : ℤ}
    (inRange : 0 ≤ index ∧ index < range) :
    ∃ following,
      (execLocks (.isIndexAllocated index) (flags, locks)).Returns
        ((exec (.isIndexAllocated index) chain).1, following) ∧
      Agrees range following (exec (.isIndexAllocated index) chain).2 := by
  have same : locks.dchainLocksIsIndexAllocated 0 index =
      dchainIsIndexAllocated chain index := by
    rw [Bool.eq_iff_iff, dchainIsIndexAllocated,
      mirrors.lockstep.dchainLocksIsIndexAllocated_iff 0 inRange.1 inRange.2,
      mirrors.encodes.isIndexAllocated inRange.1 inRange.2, mirrors.not_mem_free_iff inRange,
      Allocator.isIndexAllocated, decide_eq_true_iff]
  simp only [execLocks, exec, same]
  exact ⟨_, Fuelled.returns_pure _, writing, replicas, allocator, mirrors⟩

theorem freeIndex_agrees
    {index : ℤ}
    (inRange : 0 ≤ index ∧ index < range) :
    ∃ following,
      (execLocks (.freeIndex index) (flags, locks)).Returns
        ((exec (.freeIndex index) chain).1, following) ∧
      Agrees range following (exec (.freeIndex index) chain).2 := by
  obtain ⟨following, outcome, lockstep⟩ :=
    mirrors.lockstep.dchainLocksFreeIndex 0 writing inRange.1 inRange.2
  obtain ⟨same, released⟩ := mirrors.release inRange lockstep
  simp only [execLocks, exec, outcome, same]
  exact ⟨_, Fuelled.returns_pure _, writing, _, _, released⟩

/-- With one core no other core can have refreshed the oldest index. -/
theorem expireOneIndex_agrees
    (indexOut time : ℤ) :
    ∃ following,
      (execLocks (.expireOneIndex indexOut time) (flags, locks)).Returns
        ((exec (.expireOneIndex indexOut time) chain).1, following) ∧
      Agrees range following
        (exec (.expireOneIndex indexOut time) chain).2 := by
  have oldest : dchainImplGetOldestIndex chain.cells = (replicas.active 0).head? :=
    mirrors.encodes.getOldestIndex.trans (congrArg List.head? mirrors.active.symm)
  simp only [execLocks, exec, dchainExpireOneIndex, oldest]
  cases head : (replicas.active 0).head? with
  | none =>
      have noneOld : replicas.oldest 0 time = none := by
        rw [Replicas.oldest, head]
        rfl
      have returns := mirrors.lockstep.dchainLocksExpireOneIndex_of_none noneOld flags indexOut
      rw [head] at returns
      exact ⟨_, returns.bind (Fuelled.returns_pure _), writing, replicas, allocator, mirrors⟩
  | some index =>
      have allocated : index ∈ allocator.alloc :=
        List.mem_of_mem_head? (mirrors.active ▸ head)
      have sameTime := mirrors.times index allocated
      have isOldest : replicas.oldest 0 time = some index ↔ chain.timestamps index < time := by
        rw [mirrors.stamped.oldest_eq_some_iff, sameTime]
        exact and_iff_right head
      by_cases old : chain.timestamps index < time
      · have notRefreshed : ¬replicas.Refreshed index time := by
          rintro ⟨core, later⟩
          rw [Subsingleton.elim core 0] at later
          omega
        obtain ⟨following, returns, lockstep⟩ :=
          mirrors.lockstep.dchainLocksExpireOneIndex_of_expired (isOldest.mpr old) writing
            notRefreshed indexOut
        have freed := (mirrors.encodes.freeIndex_of_allocated allocated).1
        simp only [if_pos old, freed, if_true]
        exact ⟨_, returns.bind (Fuelled.returns_pure _), writing, _, _,
          (mirrors.release (allocator.inRange_of_mem_alloc allocated) lockstep).2⟩
      · have noneOld : replicas.oldest 0 time = none := by
          rw [Replicas.oldest, head, Option.filter_some, sameTime]
          simp [old]
        have returns := mirrors.lockstep.dchainLocksExpireOneIndex_of_none noneOld flags indexOut
        rw [head] at returns
        simp only [if_neg old]
        exact ⟨_, returns.bind (Fuelled.returns_pure _), writing, replicas, allocator, mirrors⟩

end

end Steps

/-- Each call returns with the reply of the verified chain. -/
theorem execLocks_agrees
    {range : ℕ}
    (call : Call)
    (state : Flags × DoubleChainLocks 1)
    (chain : DoubleChain)
    (agrees : Agrees range state chain)
    (proper : call.Proper range) :
    ∃ following,
      (execLocks call state).Returns ((exec call chain).1, following) ∧
      Agrees range following (exec call chain).2 := by
  obtain ⟨writing, _, _, mirrors⟩ := agrees
  cases call with
  | allocateNewIndex indexOut time => exact allocateNewIndex_agrees mirrors writing proper indexOut
  | rejuvenateIndex index time => exact rejuvenateIndex_agrees mirrors writing proper.1 proper.2
  | expireOneIndex indexOut time => exact expireOneIndex_agrees mirrors writing indexOut time
  | isIndexAllocated index => exact isIndexAllocated_agrees mirrors writing proper
  | freeIndex index => exact freeIndex_agrees mirrors writing proper

theorem dchainLocksAllocate_agrees
    {range : ℕ}
    (positive : 0 < range)
    {flags : Flags}
    (writing : flags.writeState = true)
    (locksMemory : DoubleChainLocks 1)
    (memory : DoubleChain) :
    Agrees range (flags, locksMemory.dchainLocksAllocate range)
      (dchainAllocate memory range) :=
  ⟨writing, _, Allocator.initial range,
    { lockstep := .dchainLocksAllocate locksMemory positive
      encodes := Encodes.init _ positive
      free := rfl
      active := rfl
      stamped := Replicas.Stamps.initial range _
      times := fun _ member => absurd member List.not_mem_nil }⟩

/-- On one core in write mode every run of the lock-based chain gives the codes
and the indexes that the verified chain gives. -/
theorem single_core_refines_double_chain
    {range : ℕ}
    (positive : 0 < range)
    {flags : Flags}
    (writing : flags.writeState = true)
    (locksMemory : DoubleChainLocks 1)
    (memory : DoubleChain)
    {calls : List Call}
    (proper : ∀ call ∈ calls, call.Proper range) :
    ∃ final,
      (Fuelled.transcript execLocks calls
        (flags, locksMemory.dchainLocksAllocate range)).Returns
          ((Transcript.run exec calls (dchainAllocate memory range)).1,
            final) := by
  have fresh := dchainLocksAllocate_agrees positive writing locksMemory memory
  obtain ⟨final, returns, _⟩ := Fuelled.transcript_returns (fun _ => 0)
    (fun _ => Agrees range) (fun _ agrees => agrees)
    (fun call state chain agrees => execLocks_agrees call state chain agrees)
    (List.pairwise_of_forall fun _ _ => Int.le_refl 0) (fun _ _ => fresh) ⟨0, fresh⟩
    (Transcript.permitted_of_forall (fun call member _ => proper call member) _)
  exact ⟨final, returns⟩

/-- Two indexes: one is used again, the other one expires, and one is freed. -/
theorem single_core_two :
    let calls := [Call.allocateNewIndex 9 1, .allocateNewIndex 9 2, .rejuvenateIndex 0 3,
      .expireOneIndex 9 3, .isIndexAllocated 1, .freeIndex 0, .expireOneIndex 9 4]
    let flags : Flags := { writeState := true, writeAttempt := false }
    let memory : DoubleChain := ⟨fun _ => ⟨7, 7⟩, fun _ => 7⟩
    let locksMemory : DoubleChainLocks 1 :=
      replica (fun _ => ⟨5, 5⟩) (fun _ => ⟨6, 6⟩) fun _ => 5
    (Transcript.run exec calls (dchainAllocate memory 2)).1 =
        [⟨true, some 0⟩, ⟨true, some 1⟩, ⟨true, none⟩, ⟨true, some 1⟩,
          ⟨false, none⟩, ⟨true, none⟩, ⟨false, some 9⟩] ∧
      ∃ final,
        (Fuelled.transcript execLocks calls
          (flags, locksMemory.dchainLocksAllocate 2)).Returns
            ((Transcript.run exec calls (dchainAllocate memory 2)).1, final) := by
  refine ⟨by decide, single_core_refines_double_chain (by decide) rfl _ _ ?_⟩
  intro call member
  simp only [List.mem_cons, List.not_mem_nil, or_false] at member
  rcases member with rfl | rfl | rfl | rfl | rfl | rfl | rfl <;> simp [Call.Proper]

end SingleCore
end Vigor
