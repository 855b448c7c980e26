import Mathlib.Logic.Function.Iterate

/-!
# Reference counts

An object with a reference count goes back to its pool when a reference is
dropped while the count is one.  Nothing is assumed about dropping references
beyond that, because a right program never does it.
-/

namespace RefCount

/-- A counted object inside a state, with counts below a limit. -/
structure Counter (σ : Type*) (limit : ℕ) where
  count : σ → ℕ
  /-- How often the object went back to its pool. -/
  returned : σ → ℕ
  set : ℕ → σ → σ
  drop : σ → σ
  count_set : ∀ {n : ℕ} (state : σ), n < limit → count (set n state) = n
  returned_set : ∀ (n : ℕ) (state : σ), returned (set n state) = returned state
  returned_drop_last : ∀ state : σ, count state = 1 →
    returned (drop state) = returned state + 1
  count_drop : ∀ state : σ, 1 < count state → count (drop state) = count state - 1
  returned_drop : ∀ state : σ, 1 < count state → returned (drop state) = returned state

namespace Counter

variable {σ : Type*} {limit : ℕ} (counter : Counter σ limit)

/-- The object stays out of the pool while there are references. -/
theorem iterate_drop_of_lt
    {n : ℕ}
    {state : σ}
    (fewer : n < counter.count state) :
    counter.count (counter.drop^[n] state) = counter.count state - n ∧
      counter.returned (counter.drop^[n] state) = counter.returned state := by
  induction n with
  | zero => exact ⟨rfl, rfl⟩
  | succ n ih =>
      obtain ⟨count, returned⟩ := ih (Nat.lt_of_succ_lt fewer)
      have more : 1 < counter.count (counter.drop^[n] state) := by omega
      rw [Function.iterate_succ_apply', counter.count_drop _ more, counter.returned_drop _ more]
      exact ⟨by omega, returned⟩

theorem returned_iterate_drop_count
    {state : σ}
    (positive : 0 < counter.count state) :
    counter.returned (counter.drop^[counter.count state] state) =
      counter.returned state + 1 := by
  obtain ⟨n, count⟩ := Nat.exists_eq_succ_of_ne_zero (Nat.ne_of_gt positive)
  have before := counter.iterate_drop_of_lt (Nat.lt_of_lt_of_eq n.lt_succ_self count.symm)
  rw [count, Function.iterate_succ_apply', counter.returned_drop_last _ (by omega), before.2]

end Counter
end RefCount
