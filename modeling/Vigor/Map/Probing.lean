import Vigor.Map.Impl
import Vigor.Library.ProbePath

/-!
# What the probe loops of the map do

Both builds wrap around as the remainder by the capacity does, so the loops
walk the probe path of the hash.  For each loop this module states what it
finds and which chain counters it changes.
-/

namespace Vigor
namespace Map

open ProbePath Function

/-- Capacities that a build can have: positive, below the sign bit of an `int`,
and a power of two where the build relies on it. -/
structure Build.Admits (build : Build) (capacity : ℕ) : Prop where
  positive : 0 < capacity
  bounded : capacity < 2 ^ 31
  isPowerOfTwo : build = .pow2 → capacity.isPowerOfTwo

/-- The wrap-around function is the remainder by the capacity. -/
theorem Build.Admits.loop_eq
    {build : Build}
    {capacity : ℕ}
    (admits : build.Admits capacity)
    (k : ℕ) :
    build.loop k capacity = k % capacity := by
  have remainderBound : k % capacity < capacity := Nat.mod_lt k admits.positive
  cases build with
  | modulo =>
      have bound := admits.bounded
      have noOverflow : (k % capacity + capacity) % 2 ^ 32 =
          k % capacity + capacity := Nat.mod_eq_of_lt (by omega)
      change (k % capacity + capacity) % 2 ^ 32 % capacity = k % capacity
      rw [noOverflow, Nat.add_mod_right, Nat.mod_mod]
  | pow2 =>
      obtain ⟨exponent, rfl⟩ := admits.isPowerOfTwo rfl
      exact Nat.and_two_pow_sub_one_eq_mod k exponent

theorem Build.Admits.loop_probe
    {build : Build}
    {capacity start i : ℕ}
    (admits : build.Admits capacity)
    (startBound : start < capacity)
    (roundBound : i < capacity) :
    build.loop ((start + i) % 2 ^ 32) capacity = slot capacity start i := by
  have bound := admits.bounded
  rw [Nat.mod_eq_of_lt (by omega), admits.loop_eq]
  rfl

theorem admits_of_mapAllocate
    {κ : Type u}
    {memory : Arrays κ}
    {capacity : ℕ}
    {map : Map κ}
    (positive : 0 < capacity)
    (bounded : capacity < 2 ^ 31)
    (allocated : mapAllocate build memory capacity = some map) :
    build.Admits capacity := by
  refine ⟨positive, bounded, ?_⟩
  intro isPow2
  unfold mapAllocate at allocated
  split_ifs at allocated with rejected
  simp only [isPow2, true_and, not_or, not_not] at rejected
  exact Nat.ne_zero_and_sub_one_eq_zero_iff_isPowerOfTwo.mp rejected

variable {κ : Type u}

/-- The slot is in use. -/
abbrev Arrays.Busy (arrays : Arrays κ) (index : ℕ) : Prop :=
  arrays.busybits index ≠ 0

/-- The slot holds a key that a probe for `keyp` recognises. -/
abbrev Arrays.Matches
    (arrays : Arrays κ)
    (eq : κ → κ → Bool)
    (keyHash : ℕ)
    (keyp : κ)
    (index : ℕ) : Prop :=
  (arrays.Busy index ∧ arrays.khs index = keyHash) ∧
    eq (arrays.keyps index) keyp = true

section Loops

variable {build : Build} {arrays : Arrays κ} {keyp : κ} {eq : κ → κ → Bool}
  {keyHash capacity start : ℕ}

/-- `find_key` reaches the first match on the path if no counter on the way is
zero. -/
theorem findKeyLoop_of_match
    (admits : build.Admits capacity)
    (startBound : start < capacity)
    {steps : ℕ}
    (stepsBound : steps < capacity)
    (found : arrays.Matches eq keyHash keyp (slot capacity start steps))
    {i : ℕ}
    (notPast : i ≤ steps)
    (noMatch : ∀ earlier, i ≤ earlier → earlier < steps →
      ¬arrays.Matches eq keyHash keyp (slot capacity start earlier))
    (chained : ∀ earlier, i ≤ earlier → earlier < steps →
      arrays.chns (slot capacity start earlier) ≠ 0) :
    findKeyLoop build arrays keyp eq keyHash capacity start (capacity - i) i =
      some (slot capacity start steps) := by
  induction remaining : steps - i generalizing i with
  | zero =>
      have same : i = steps := by omega
      subst same
      rw [show capacity - i = (capacity - i - 1) + 1 by omega, findKeyLoop]
      simp only [admits.loop_probe startBound stepsBound]
      rw [if_pos found.1, if_pos found.2]
  | succ remaining ih =>
      have earlier : i < steps := by omega
      have here := noMatch i le_rfl earlier
      have rest := ih (i := i + 1) (by omega)
        (fun other lower => noMatch other (by omega))
        (fun other lower => chained other (by omega)) (by omega)
      rw [show capacity - i = (capacity - (i + 1)) + 1 by omega, findKeyLoop]
      simp only [admits.loop_probe startBound (earlier.trans stepsBound)]
      rw [rest]
      split_ifs with candidate equal unchained
      · exact absurd ⟨candidate, equal⟩ here
      · rfl
      · exact absurd unchained (chained i le_rfl earlier)
      · rfl

theorem findKeyLoop_of_no_match
    (admits : build.Admits capacity)
    (startBound : start < capacity)
    {rounds i : ℕ}
    (lastRound : rounds + i = capacity)
    (noMatch : ∀ later, i ≤ later → later < capacity →
      ¬arrays.Matches eq keyHash keyp (slot capacity start later)) :
    findKeyLoop build arrays keyp eq keyHash capacity start rounds i =
      none := by
  induction rounds generalizing i with
  | zero => rfl
  | succ rounds ih =>
      have here := noMatch i le_rfl (by omega)
      have rest := ih (i := i + 1) (by omega) (fun other lower => noMatch other (by omega))
      rw [findKeyLoop]
      simp only [admits.loop_probe startBound (by omega : i < capacity)]
      rw [rest]
      split_ifs with candidate equal unchained
      · exact absurd ⟨candidate, equal⟩ here
      · rfl
      · rfl
      · rfl

/-- Add to the counters of the slots that are probed from step `lower` to
before step `upper`. -/
def Arrays.addOnPath
    (arrays : Arrays κ)
    (capacity start lower upper : ℕ)
    (change : ℤ) : Arrays κ :=
  { arrays with
    chns := fun index =>
      if index < capacity ∧ lower ≤ distance capacity start index ∧
          distance capacity start index < upper then
        arrays.chns index + change
      else arrays.chns index }

theorem Arrays.addOnPath_self
    (lower : ℕ)
    (change : ℤ) :
    arrays.addOnPath capacity start lower lower change = arrays := by
  unfold addOnPath
  have empty (index : ℕ) : ¬(index < capacity ∧
      lower ≤ distance capacity start index ∧
      distance capacity start index < lower) := by omega
  simp only [empty, if_false]

/-- The counter of the first slot can be changed first. -/
theorem Arrays.addOnPath_step
    (startBound : start < capacity)
    (nonempty : lower < upper)
    (lowerBound : lower < capacity)
    (change : ℤ) :
    { arrays with
      chns := update arrays.chns (slot capacity start lower)
        (arrays.chns (slot capacity start lower) + change) }.addOnPath
          capacity start (lower + 1) upper change =
      arrays.addOnPath capacity start lower upper change := by
  unfold addOnPath
  congr 1
  funext index
  by_cases here : index = slot capacity start lower
  · subst here
    have inside : slot capacity start lower < capacity := slot_lt (Nat.zero_lt_of_lt startBound)
    simp only [distance_slot startBound lowerBound, update_self]
    rw [if_neg (by omega), if_pos (by omega)]
  · simp only [update_of_ne here]
    by_cases inside : index < capacity
    · have different : distance capacity start index ≠ lower := by
        intro equal
        apply here
        rw [← equal, slot_distance startBound inside]
      congr 1
      apply propext
      omega
    · simp [inside]

theorem findKeyRemoveChainLoop_of_match
    (admits : build.Admits capacity)
    (startBound : start < capacity)
    {steps : ℕ}
    (stepsBound : steps < capacity)
    (found : arrays.Matches eq keyHash keyp (slot capacity start steps))
    {i : ℕ}
    (notPast : i ≤ steps)
    (noMatch : ∀ earlier, i ≤ earlier → earlier < steps →
      ¬arrays.Matches eq keyHash keyp (slot capacity start earlier)) :
    findKeyRemoveChainLoop build keyp eq keyHash capacity start (capacity - i)
        i arrays =
      (some (slot capacity start steps,
          arrays.keyps (slot capacity start steps)),
        { arrays.addOnPath capacity start i steps (-1) with
          busybits := update arrays.busybits (slot capacity start steps) 0
            }) := by
  induction remaining : steps - i generalizing i arrays with
  | zero =>
      have same : i = steps := by omega
      subst same
      rw [show capacity - i = (capacity - i - 1) + 1 by omega,
        findKeyRemoveChainLoop, Arrays.addOnPath_self]
      simp only [admits.loop_probe startBound stepsBound]
      exact if_pos found
  | succ remaining ih =>
      have earlier : i < steps := by omega
      have here := noMatch i le_rfl earlier
      rw [show capacity - i = (capacity - (i + 1)) + 1 by omega, findKeyRemoveChainLoop]
      simp only [admits.loop_probe startBound (earlier.trans stepsBound)]
      rw [if_neg here, Int.sub_eq_add_neg]
      refine (ih ?_ ?_ ?_ ?_).trans ?_
      · exact found
      · exact earlier
      · exact fun other lower => noMatch other (by omega)
      · omega
      · rw [Arrays.addOnPath_step startBound earlier (earlier.trans stepsBound)]

theorem findEmptyLoop_of_free
    (admits : build.Admits capacity)
    (startBound : start < capacity)
    {steps : ℕ}
    (stepsBound : steps < capacity)
    (free : ¬arrays.Busy (slot capacity start steps))
    {i : ℕ}
    (notPast : i ≤ steps)
    (busy : ∀ earlier,
      i ≤ earlier → earlier < steps →
        arrays.Busy (slot capacity start earlier)) :
    findEmptyLoop build start capacity (capacity - i) i arrays =
      (some (slot capacity start steps),
        arrays.addOnPath capacity start i steps 1) := by
  induction remaining : steps - i generalizing i arrays with
  | zero =>
      have same : i = steps := by omega
      subst same
      rw [show capacity - i = (capacity - i - 1) + 1 by omega, findEmptyLoop, Arrays.addOnPath_self]
      simp only [admits.loop_probe startBound stepsBound]
      exact if_pos (not_not.mp free).symm
  | succ remaining ih =>
      have earlier : i < steps := by omega
      have here := busy i le_rfl earlier
      rw [show capacity - i = (capacity - (i + 1)) + 1 by omega, findEmptyLoop]
      simp only [admits.loop_probe startBound (earlier.trans stepsBound)]
      rw [if_neg (Ne.symm here)]
      refine (ih ?_ ?_ ?_ ?_).trans ?_
      · exact free
      · exact earlier
      · exact fun other lower => busy other (by omega)
      · omega
      · rw [Arrays.addOnPath_step startBound earlier (earlier.trans stepsBound)]

end Loops

end Map
end Vigor
