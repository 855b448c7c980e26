import Mathlib.Algebra.Order.BigOperators.Group.Multiset
import Mathlib.Algebra.Order.Group.Multiset

/-!
# Moving weights between bins

Weights are distributed over bins.  A move takes a weight out of a bin above a
level and puts it into a bin that stays at or below the level.  Moves keep the
weights, and never make the heaviest bin heavier.
-/

namespace Bins

open Relation (ReflTransGen)

variable {α : Type*} [AddCommMonoid α] [LinearOrder α]

/-- A bin above the level gives a weight to a bin that stays at or below the
level. -/
inductive Moves (level : α) :
    Multiset (Multiset α) → Multiset (Multiset α) → Prop
  | move
      {weight : α}
      {taker kept : Multiset α}
      {others : Multiset (Multiset α)}
      (above : level < (weight ::ₘ kept).sum)
      (fits : (weight ::ₘ taker).sum ≤ level) :
      Moves level (taker ::ₘ (weight ::ₘ kept) ::ₘ others)
        ((weight ::ₘ taker) ::ₘ kept ::ₘ others)

/-- No weight can be moved. -/
def Stuck
    (level : α)
    (bins : Multiset (Multiset α)) : Prop :=
  ∀ after, ¬Moves level bins after

/-- No bin is heavier than the bound. -/
def Within
    (bound : α)
    (bins : Multiset (Multiset α)) : Prop :=
  ∀ bin ∈ bins, bin.sum ≤ bound

variable {level bound : α} {before after start bins : Multiset (Multiset α)}

theorem Moves.sum_eq (moves : Moves level before after) :
    after.sum = before.sum := by
  cases moves with
  | move above fits =>
      simp only [Multiset.sum_cons, Multiset.cons_add, Multiset.add_cons]

variable [IsOrderedAddMonoid α]

theorem Moves.within
    (moves : Moves level before after)
    (nonneg : ∀ weight ∈ before.sum, 0 ≤ weight)
    (within : Within bound before) : Within bound after := by
  cases moves with
  | @move weight taker kept others above fits =>
      have giverWithin : (weight ::ₘ kept).sum ≤ bound := within _ (by simp)
      intro bin member
      rcases Multiset.mem_cons.mp member with rfl | member
      · exact fits.trans (above.le.trans giverWithin)
      rcases Multiset.mem_cons.mp member with rfl | member
      · rw [Multiset.sum_cons] at giverWithin
        exact (le_add_of_nonneg_left (nonneg weight (by simp))).trans giverWithin
      · exact within bin (by simp [member])

theorem within_of_reached
    (reached : ReflTransGen (Moves level) start bins)
    (nonneg : ∀ weight ∈ bins.sum, 0 ≤ weight)
    (within : Within bound start) : Within bound bins := by
  induction reached with
  | refl => exact within
  | tail _ moves ih =>
      rw [moves.sum_eq] at nonneg
      exact moves.within nonneg (ih nonneg)

end Bins
