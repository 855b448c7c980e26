import Mathlib.Data.List.Range

/-!
# Loops that may fault

A loop whose body may fault is a monadic fold in `Except`.  An invariant that
every round keeps without a fault holds at the end of the loop, and in a loop
that ends without a fault every round did.
-/

namespace Vigor
namespace FaultLoops

variable {σ : Type u} {ε : Type u} {α : Type v} {body : σ → α → Except ε σ}

variable {elements : List α}

theorem foldlM_cons_ok (returns : body state element = .ok following) :
    (element :: elements).foldlM body state =
      elements.foldlM body following := by
  rw [List.foldlM_cons, returns]
  rfl

theorem foldlM_cons_error (faults : body state element = .error fault) :
    (element :: elements).foldlM body state = .error fault := by
  rw [List.foldlM_cons, faults]
  rfl

theorem foldlM_range_ok
    {body : σ → ℕ → Except ε σ}
    (invariant : ℕ → σ → Prop)
    (step : ∀ round < rounds, ∀ state, invariant round state →
      ∃ following,
        body state round = .ok following ∧ invariant (round + 1) following)
          (initially : invariant 0 state) :
    ∃ final,
      (List.range rounds).foldlM body state = .ok final ∧
        invariant rounds final := by
  induction rounds with
  | zero => exact ⟨state, rfl, initially⟩
  | succ rounds ih =>
      obtain ⟨before, returns, kept⟩ := ih fun round inside =>
        step round (Nat.lt_succ_of_lt inside)
      obtain ⟨final, last, keptLast⟩ := step rounds (Nat.lt_succ_self _) before kept
      refine ⟨final, ?_, keptLast⟩
      rw [List.range_succ, List.foldlM_append, returns]
      exact (foldlM_cons_ok last).trans rfl

theorem exists_round_of_foldlM_ok
    (returns : elements.foldlM body state = .ok final)
    (member : element ∈ elements) :
    ∃ before after, body before element = .ok after := by
  induction elements generalizing state with
  | nil => cases member
  | cons first elements ih =>
      cases round : body state first with
      | error fault =>
          rw [foldlM_cons_error round] at returns
          cases returns
      | ok following =>
          rcases List.mem_cons.mp member with rfl | later
          · exact ⟨state, following, round⟩
          · rw [foldlM_cons_ok round] at returns
            exact ih returns later

theorem foldlM_congr
    (same : ∀ element ∈ elements, ∀ state,
      body state element = other state element)
    (state : σ) :
    elements.foldlM body state = elements.foldlM other state := by
  induction elements generalizing state with
  | nil => rfl
  | cons element elements ih =>
      rw [List.foldlM_cons, List.foldlM_cons, same element List.mem_cons_self]
      refine congrArg _ (funext fun following => ih (fun later member =>
        same later (List.mem_cons_of_mem _ member)) following)

theorem foldlM_flatMap
    {β : Type w}
    (inner : β → List α)
    (elements : List β)
    (state : σ) :
    (elements.flatMap inner).foldlM body state =
      elements.foldlM (fun state element => (inner element).foldlM body state)
        state := by
  induction elements generalizing state with
  | nil => rfl
  | cons element elements ih =>
      rw [List.flatMap_cons, List.foldlM_append, List.foldlM_cons]
      exact congrArg _ (funext fun following => ih following)

end FaultLoops
end Vigor
