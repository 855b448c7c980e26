import Mathlib.Algebra.BigOperators.Ring.Finset
import Mathlib.Data.Nat.ModEq
import Mathlib.Tactic.Ring

/-!
# Probe paths of an open-addressing table

A table of `count` slots is probed from a start slot, cyclically.  The slot
after `steps` probes and the number of probes that reach a slot are inverse to
each other.  The path of an entry consists of the slots probed before its own.
-/

namespace ProbePath

/-- Slot reached after a number of probes. -/
def slot (count start steps : Nat) : Nat :=
  (start + steps) % count

/-- Number of probes after which a slot is reached. -/
def distance (count start target : Nat) : Nat :=
  (target + (count - start)) % count

variable {count start steps target : Nat}

theorem slot_lt (positive : 0 < count) : slot count start steps < count :=
  Nat.mod_lt _ positive

theorem distance_lt (positive : 0 < count) :
    distance count start target < count :=
  Nat.mod_lt _ positive

section

variable (startBound : start < count)

include startBound

/-- Without the remainder: the walk wraps around at most once. -/
theorem slot_eq (stepsBound : steps < count) :
    slot count start steps =
      if start + steps < count then start + steps
      else start + steps - count := by
  unfold slot
  split_ifs with noWrap
  · exact Nat.mod_eq_of_lt noWrap
  · rw [Nat.mod_eq_sub_mod (by omega)]
    exact Nat.mod_eq_of_lt (by omega)

theorem distance_eq (targetBound : target < count) :
    distance count start target =
      if start ≤ target then target - start else target + count - start := by
  unfold distance
  split_ifs with ahead
  · rw [Nat.mod_eq_sub_mod (by omega)]
    rw [Nat.mod_eq_of_lt (by omega)]
    omega
  · rw [Nat.mod_eq_of_lt (by omega)]
    omega

theorem slot_distance (targetBound : target < count) :
    slot count start (distance count start target) = target := by
  have bound : distance count start target < count := distance_lt (Nat.zero_lt_of_lt startBound)
  rw [slot_eq startBound bound, distance_eq startBound targetBound]
  split_ifs <;> omega

theorem distance_slot (stepsBound : steps < count) :
    distance count start (slot count start steps) = steps := by
  have bound : slot count start steps < count := slot_lt (Nat.zero_lt_of_lt startBound)
  rw [distance_eq startBound bound, slot_eq startBound stepsBound]
  split_ifs <;> omega

/-- The probe path towards a target slot passes through another slot. -/
def Passes (count start target through : Nat) : Prop :=
  distance count start through < distance count start target

instance : Decidable (Passes count start target through) :=
  inferInstanceAs (Decidable (_ < _))

/-- The slots probed before a target slot, in the order of the probes. -/
def path (count start target : Nat) : List Nat :=
  (List.range (distance count start target)).map (slot count start)

theorem mem_path_iff (throughBound : through < count) :
    through ∈ path count start target ↔ Passes count start target through := by
  have positive := Nat.zero_lt_of_lt startBound
  unfold path Passes
  rw [List.mem_map]
  constructor
  · rintro ⟨steps, member, rfl⟩
    have before := List.mem_range.mp member
    rw [distance_slot startBound (before.trans (distance_lt positive))]
    exact before
  · intro before
    exact ⟨distance count start through, List.mem_range.mpr before,
      slot_distance startBound throughBound⟩

end

/-- A sum changes by the change of its only changed term. -/
theorem sum_range_of_changed_at
    {before after : Nat → ℤ}
    (inside : target < count)
    (same : ∀ index < count, index ≠ target → after index = before index) :
    ∑ index ∈ Finset.range count, after index =
      ∑ index ∈ Finset.range count,
        before index - before target + after target := by
  have member : target ∈ Finset.range count := Finset.mem_range.mpr inside
  rw [← Finset.add_sum_erase _ _ member, ← Finset.add_sum_erase _ before member]
  have sameRest : ∑ index ∈ (Finset.range count).erase target, after index =
      ∑ index ∈ (Finset.range count).erase target, before index := by
    apply Finset.sum_congr rfl
    intro index indexMember
    rw [Finset.mem_erase, Finset.mem_range] at indexMember
    exact same index indexMember.2 indexMember.1
  rw [sameRest]
  ring

end ProbePath
