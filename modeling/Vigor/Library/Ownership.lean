import Mathlib.Logic.Function.Basic

/-!
# Flags with owners

A test-and-set flag protects something when it is set exactly while one party
owns it.  Parties are numbered and each is at some point of its program; who
owns the flag depends on the points.  One party moves at a time, and the rules
below say how the flag follows.
-/

namespace Ownership

open Function

/-- The flag is set exactly while someone owns it, and there is at most one
owner. -/
structure Guards (flag : Bool) (owns : ι → Prop) : Prop where
  set_iff : flag = true ↔ ∃ owner, owns owner
  unique : ∀ first second, owns first → owns second → first = second

variable {ι : Type u} {σ : Type v} [DecidableEq ι] {flag : Bool}
  (owns : ι → σ → Prop) {points : ι → σ} {mover : ι} {target : σ}

section

variable (guards : Guards flag fun party => owns party (points party))

include guards

theorem Guards.keep (same : owns mover target ↔ owns mover (points mover)) :
    Guards flag fun party =>
      owns party (update points mover target party) := by
  have unchanged : ∀ party,
      owns party (update points mover target party) ↔ owns party (points party) := by
    intro party
    by_cases isMover : party = mover
    · subst isMover
      rw [update_self]
      exact same
    · rw [update_of_ne isMover]
  simp only [unchanged]
  exact guards

theorem Guards.acquire
    (unset : flag = false)
    (taken : owns mover target) :
    Guards true fun party =>
      owns party (update points mover target party) := by
  have noOwner : ∀ party, ¬owns party (points party) := by
    intro party owner
    have isSet := guards.set_iff.mpr ⟨party, owner⟩
    rw [unset] at isSet
    cases isSet
  have onlyMover : ∀ party,
      owns party (update points mover target party) → party = mover := by
    intro party owner
    by_contra different
    rw [update_of_ne different] at owner
    exact noOwner party owner
  constructor
  · refine ⟨fun _ => ⟨mover, ?_⟩, fun _ => rfl⟩
    rw [update_self]
    exact taken
  · intro first second firstOwner secondOwner
    rw [onlyMover first firstOwner, onlyMover second secondOwner]

theorem Guards.release
    (had : owns mover (points mover))
    (given : ¬owns mover target) :
    Guards false fun party =>
      owns party (update points mover target party) := by
  have noOwner : ∀ party,
      ¬owns party (update points mover target party) := by
    intro party owner
    by_cases isMover : party = mover
    · subst isMover
      rw [update_self] at owner
      exact given owner
    · rw [update_of_ne isMover] at owner
      exact isMover (guards.unique party mover owner had)
  constructor
  · constructor
    · intro impossible
      cases impossible
    · intro owned
      obtain ⟨party, owner⟩ := owned
      exact absurd owner (noOwner party)
  · intro first _ firstOwner
    exact absurd firstOwner (noOwner first)

end

end Ownership
