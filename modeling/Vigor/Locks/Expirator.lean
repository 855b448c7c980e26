import Vigor.DoubleMap.Impl
import Vigor.FlowTable.Impl
import Vigor.Locks.Lockstep

/-!
# The expiry loops of `expirator-locks.c`

In read mode `dchain_locks_expire_one_index` reports an old index and keeps it.
`expire_items_locks` and `expire_items_single_map_locks` leave their loop when
they notice the read mode.  `expire_items_single_map_offseted_locks` lacks the
test, and goes round forever.
-/

namespace Vigor
namespace ExpiratorLocks

open DoubleChainLocks
open Worker (Flags)

variable {cores : ℕ} {σ K V A B : Type}

/-! ## Maps -/

/-- `map_locks_erase`. -/
def mapLocksErase
    (build : Map.Build)
    (ops : Map.KeyOps K)
    (flags : Flags)
    (keys : KeyedMap K)
    (key : KeyRef K) : Flags × KeyedMap K :=
  if flags.writeState = false then
    ({ flags with writeAttempt := true }, keys)
  else (flags, keys.erase build ops key)

/-- `dmap_locks_erase`. -/
def dmapLocksErase
    (build : Map.Build)
    (ops : ValueOps V A B)
    (flags : Flags)
    (map : DoubleMap V A B)
    (index : ℤ) : Flags × DoubleMap V A B :=
  if flags.writeState = false then
    ({ flags with writeAttempt := true }, map)
  else (flags, map.dmapErase build ops index)

/-! ## Loops -/

/-- Return value, flags, chain and store after a pass. -/
abbrev Outcome (cores : ℕ) (σ : Type) :=
  ℤ × Flags × DoubleChainLocks cores × σ

/-- Variables of the loops: `count`, `index`, the flags, the chain and the
store. -/
abbrev LoopState (cores : ℕ) (σ : Type) :=
  ℤ × ℤ × Flags × DoubleChainLocks cores × σ

/-- One round of `expire_items_locks` and `expire_items_single_map_locks`, which
differ in how an entry is erased. -/
def expireRound
    (core : Fin cores)
    (erase : Flags → σ → ℤ → Flags × σ)
    (time : ℤ)
    (state : LoopState cores σ) :
    Fuelled (Fuelled.Round (LoopState cores σ) (Outcome cores σ)) := do
  let (count, index, flags, chain, store) := state
  let (found, index, flags, chain) ←
    dchainLocksExpireOneIndex core flags chain index time
  if found then
    if flags.writeState = false then
      pure (.done (1, { flags with writeAttempt := true }, chain, store))
    else
      let (flags, store) := erase flags store index
      pure (.next (count + 1, index, flags, chain, store))
  else pure (.done (count, flags, chain, store))

/-- The loop from its initial values. -/
def expireLoop
    (core : Fin cores)
    (erase : Flags → σ → ℤ → Flags × σ)
    (flags : Flags)
    (chain : DoubleChainLocks cores)
    (store : σ)
    (time : ℤ) : Fuelled (Outcome cores σ) :=
  Fuelled.loop (expireRound core erase time) (0, -1, flags, chain, store)

section Passes

variable (core : Fin cores) (build : Map.Build)

/-- `expire_items_locks`. -/
def expireItemsLocks
    (ops : ValueOps V A B)
    (flags : Flags)
    (chain : DoubleChainLocks cores)
    (map : DoubleMap V A B)
    (time : ℤ) : Fuelled (Outcome cores (DoubleMap V A B)) :=
  expireLoop core (dmapLocksErase build ops) flags chain map time

/-- `expire_items_single_map_locks`. -/
def expireItemsSingleMapLocks
    (ops : Map.KeyOps K)
    (flags : Flags)
    (chain : DoubleChainLocks cores)
    (keys : KeyedMap K)
    (time : ℤ) : Fuelled (Outcome cores (KeyedMap K)) :=
  expireLoop core
    (fun flags keys index => mapLocksErase build ops flags keys (.cell index))
    flags chain keys time

/-- One round of `expire_items_single_map_offseted_locks`. -/
def expireItemsSingleMapOffsetedLocksRound
    (ops : Map.KeyOps K)
    (time : ℤ)
    (offset : ℕ)
    (state : LoopState cores (KeyedMap K)) :
    Fuelled (Fuelled.Round (LoopState cores (KeyedMap K))
      (Outcome cores (KeyedMap K))) := do
  let (count, index, flags, chain, keys) := state
  let (found, index, flags, chain) ←
    dchainLocksExpireOneIndex core flags chain index time
  if found then
    let (flags, keys) :=
      mapLocksErase build ops flags keys (.cell (index + offset))
    pure (.next (count + 1, index, flags, chain, keys))
  else pure (.done (count, flags, chain, keys))

/-- `expire_items_single_map_offseted_locks`, which asserts that the offset is
not negative. -/
def expireItemsSingleMapOffsetedLocks
    (ops : Map.KeyOps K)
    (flags : Flags)
    (chain : DoubleChainLocks cores)
    (keys : KeyedMap K)
    (time : ℤ)
    (offset : ℕ) : Fuelled (Outcome cores (KeyedMap K)) :=
  Fuelled.loop
    (expireItemsSingleMapOffsetedLocksRound core build ops time offset)
    (0, -1, flags, chain, keys)

end Passes

/-! ## Read mode -/

/-- The oldest active index of a core was last used by it before the time. -/
def OldestIsOlder
    (core : Fin cores)
    (chain : DoubleChainLocks cores)
    (time : ℤ) : Prop :=
  ∃ index,
    dchainLocksImplGetOldestIndex (chain.activeCells core) = some index ∧
      chain.timestamps core index < time

/-- A pass returns, changes neither the chain nor the store, and asks for the
write lock if it would have had something to do. -/
def Harmless
    (core : Fin cores)
    (chain : DoubleChainLocks cores)
    (store : σ)
    (time : ℤ)
    (pass : Fuelled (Outcome cores σ)) : Prop :=
  ∃ count flags, pass.Returns (count, flags, chain, store) ∧
    (OldestIsOlder core chain time → flags.writeAttempt = true)

section ReadMode

variable
  {range : ℕ}
  {chain : DoubleChainLocks cores}
  {replicas : Replicas cores}
  {core : Fin cores}
  {time : ℤ}
  {flags : Flags}

theorem oldestIsOlder_iff
    (lockstep : Lockstep chain range replicas)
    (stamped : replicas.Stamped) :
    OldestIsOlder core chain time ↔ ∃ index,
      replicas.oldest core time = some index := by
  simp only [OldestIsOlder, (lockstep.ring core).getOldestIndex, lockstep.times,
    stamped.oldest_eq_some_iff]

/-- The two loops that test for the read mode leave after one call at most. -/
theorem expireLoop_harmless
    (lockstep : Lockstep chain range replicas)
    (stamped : replicas.Stamped)
    (reading : flags.writeState = false)
    (core : Fin cores)
    (time : ℤ)
    (erase : Flags → σ → ℤ → Flags × σ)
    (store : σ) :
    Harmless core chain store time
      (expireLoop core erase flags chain store time) := by
  cases old : replicas.oldest core time with
  | none =>
      have returns := lockstep.dchainLocksExpireOneIndex_of_none old flags (-1)
      refine ⟨0, flags, Fuelled.loop_returns_of_done (returns.bind (Fuelled.returns_pure _)), ?_⟩
      rw [oldestIsOlder_iff lockstep stamped, old]
      simp
  | some index =>
      have returns := lockstep.dchainLocksExpireOneIndex_of_reading old reading (-1)
      refine ⟨1, { flags with writeAttempt := true },
        Fuelled.loop_returns_of_done (returns.bind ?_), fun _ => rfl⟩
      simp only [if_true, reading]
      exact Fuelled.returns_pure _

variable (build : Map.Build) (ops : Map.KeyOps K)

theorem offseted_harmless
    (lockstep : Lockstep chain range replicas)
    (stamped : replicas.Stamped)
    (fresh : ¬OldestIsOlder core chain time)
    (keys : KeyedMap K)
    (offset : ℕ) :
    Harmless core chain keys time (expireItemsSingleMapOffsetedLocks core build
      ops flags chain keys time offset) := by
  have old : replicas.oldest core time = none := by
    rw [oldestIsOlder_iff lockstep stamped] at fresh
    exact Option.eq_none_iff_forall_ne_some.mpr fun index some =>
      fresh ⟨index, some⟩
  have returns := lockstep.dchainLocksExpireOneIndex_of_none old flags (-1)
  exact ⟨0, flags, Fuelled.loop_returns_of_done
    (returns.bind (Fuelled.returns_pure _)), fun older => absurd older fresh⟩

theorem offseted_diverges
    (lockstep : Lockstep chain range replicas)
    (stamped : replicas.Stamped)
    (older : OldestIsOlder core chain time)
    (reading : flags.writeState = false)
    (keys : KeyedMap K)
    (offset : ℕ) :
    (expireItemsSingleMapOffsetedLocks core build ops flags chain keys time
      offset).Diverges := by
  obtain ⟨index, old⟩ := (oldestIsOlder_iff lockstep stamped).mp older
  apply Fuelled.loop_diverges fun state : LoopState cores (KeyedMap K) =>
    state.2.2.1.writeState = false ∧ state.2.2.2.1 = chain
  · rintro ⟨count, indexOut, flags, _, keys⟩ ⟨reading, rfl⟩
    dsimp only at reading lockstep old
    have returns := lockstep.dchainLocksExpireOneIndex_of_reading old reading indexOut
    refine ⟨(count + 1, index, { flags with writeAttempt := true }, _, keys),
      returns.bind ?_, reading, rfl⟩
    simp only [if_true, mapLocksErase, reading]
    exact Fuelled.returns_pure _
  · exact ⟨reading, rfl⟩

end ReadMode

/-- In every state that calls with nonnegative times lead to, a read-mode pass
of each of the three functions is harmless exactly when the calling core's
oldest active index is not older than the given time; the two functions that
test for the read mode are harmless in any case. -/
theorem read_mode_passes_harmless_iff
    {range : ℕ}
    (memory : DoubleChainLocks cores)
    (positive : 0 < range)
    {operations : List (Operation cores)}
    (inRange : ∀ operation ∈ operations, operation.InRange range)
    (nonnegative : ∀ operation ∈ operations, operation.TimeNonnegative)
    {chain : DoubleChainLocks cores}
    (reached : (run (dchainLocksAllocate memory range)
      operations).Returns chain)
    (build : Map.Build)
    (ops : Map.KeyOps K)
    (valueOps : ValueOps V A B)
    (keys : KeyedMap K)
    (map : DoubleMap V A B)
    (core : Fin cores)
    {flags : Flags}
    (reading : flags.writeState = false)
    (time : ℤ)
    (offset : ℕ) :
    (Harmless core chain map time
          (expireItemsLocks core build valueOps flags chain map time) ∧
        Harmless core chain keys time
          (expireItemsSingleMapLocks core build ops flags chain keys time) ∧
        Harmless core chain keys time
          (expireItemsSingleMapOffsetedLocks core build ops flags chain keys
            time offset) ↔
      ¬OldestIsOlder core chain time) ∧
    Harmless core chain map time
      (expireItemsLocks core build valueOps flags chain map time) ∧
    Harmless core chain keys time
      (expireItemsSingleMapLocks core build ops flags chain keys time) := by
  obtain ⟨final, returns, lockstep⟩ := run_lockstep memory positive inRange
  obtain rfl : final = chain := returns.unique reached
  have stamped := List.foldlRecOn operations Operation.spec
    (Replicas.Stamps.initial range (dchainLocksAllocate memory range).timestamps)
    fun _ stamped operation member =>
      Operation.spec_stamped stamped (nonnegative operation member)
  have first := expireLoop_harmless lockstep stamped reading core time
    (dmapLocksErase build valueOps) map
  have second := expireLoop_harmless lockstep stamped reading core time
    (fun flags keys index => mapLocksErase build ops flags keys (.cell index))
    keys
  refine ⟨⟨?_, fun fresh => ⟨first, second,
    offseted_harmless build ops lockstep stamped fresh keys offset⟩⟩,
    first, second⟩
  rintro ⟨_, _, count, flags', offsetedReturns, _⟩ older
  exact (offseted_diverges build ops lockstep stamped older reading keys
    offset).not_returns _ offsetedReturns

/-- One core and one index, in use since time 3: the passes at time 5. -/
theorem read_mode_passes_harmless_iff_old :
    let memory : DoubleChainLocks 1 :=
      ⟨fun _ _ => ⟨0, 0⟩, fun _ _ => ⟨0, 0⟩, fun _ _ => 0⟩
    let operations : List (Operation 1) := [.allocateNewIndex 0 0 3]
    let ops : Map.KeyOps ℕ := Map.KeyOps.ofHash id
    let keys : KeyedMap ℕ := ⟨⟨⟨fun _ => 0, fun _ => .own 0, fun _ => 0,
      fun _ => 0, fun _ => 0⟩, 1, 0⟩, fun _ => 0, []⟩
    let flags : Flags := { writeAttempt := false, writeState := false }
    ∃ chain, (run (dchainLocksAllocate memory 1) operations).Returns chain ∧
      Harmless 0 chain keys 5
        (expireItemsSingleMapLocks 0 .modulo ops flags chain keys 5) := by
  intro memory operations ops keys flags
  have inRange : ∀ operation ∈ operations, operation.InRange 1 := by
    simp [operations, Operation.InRange]
  have nonnegative : ∀ operation ∈ operations, operation.TimeNonnegative := by
    simp [operations, Operation.TimeNonnegative]
  obtain ⟨chain, returns, _⟩ :=
    run_lockstep memory (by decide : 0 < 1) inRange
  let valueOps : ValueOps (ℕ × ℕ) ℕ ℕ := ⟨ops, ops, Prod.fst, Prod.snd,
    fun _ first second => (first, second), id, fun _ => rfl⟩
  let map : DoubleMap (ℕ × ℕ) ℕ ℕ :=
    ⟨fun _ => (0, 0), keys.map.arrays, keys.map.arrays, 0, 1⟩
  have outcome := read_mode_passes_harmless_iff memory (by decide : 0 < 1)
    inRange nonnegative returns .modulo ops valueOps keys map 0
    (rfl : flags.writeState = false) 5 0
  exact ⟨chain, returns, outcome.2.2⟩

/-- In the same state the function without the test never returns. -/
theorem offseted_read_mode_loops_forever :
    let memory : DoubleChainLocks 1 :=
      ⟨fun _ _ => ⟨0, 0⟩, fun _ _ => ⟨0, 0⟩, fun _ _ => 0⟩
    let operations : List (Operation 1) := [.allocateNewIndex 0 0 3]
    let ops : Map.KeyOps ℕ := Map.KeyOps.ofHash id
    let keys : KeyedMap ℕ := ⟨⟨⟨fun _ => 0, fun _ => .own 0, fun _ => 0,
      fun _ => 0, fun _ => 0⟩, 1, 0⟩, fun _ => 0, []⟩
    let flags : Flags := { writeAttempt := false, writeState := false }
    ∃ chain, (run (dchainLocksAllocate memory 1) operations).Returns chain ∧
      OldestIsOlder 0 chain 5 ∧
      (expireItemsSingleMapOffsetedLocks 0 .modulo ops flags chain keys 5
        0).Diverges := by
  intro memory operations ops keys flags
  have inRange : ∀ operation ∈ operations, operation.InRange 1 := by
    simp [operations, Operation.InRange]
  obtain ⟨chain, returns, lockstep⟩ :=
    run_lockstep memory (by decide : 0 < 1) inRange
  have stamped : (operations.foldl Operation.spec (Replicas.initial 1
      (dchainLocksAllocate memory 1).timestamps)).Stamped :=
    Replicas.Stamps.allocate (Replicas.Stamps.initial 1 _)
      (by decide : (0 : ℤ) ≤ 3) 0
  have older : OldestIsOlder 0 chain 5 :=
    (oldestIsOlder_iff lockstep stamped).mpr ⟨0, by decide⟩
  exact ⟨chain, returns, older,
    offseted_diverges .modulo ops lockstep stamped older rfl keys 0⟩

end ExpiratorLocks
end Vigor
