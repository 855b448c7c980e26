import Mathlib.Data.Nat.Init

/-!
# Computations that may run forever

A loop of an imperative program need not stop.  A fuelled computation receives
an allowance of loop rounds and answers `none` while the allowance is too
small.  The allowance is only a resource: once some amount is enough, every
larger amount gives the same result.  This stability is a field of the
structure, so that "returns" and "runs forever" are well-defined notions.
-/

universe u v

/-- A computation with an allowance of loop rounds. -/
@[ext]
structure Fuelled (α : Type u) where
  /-- The result with the given allowance, or `none` when it is too small. -/
  run : Nat → Option α
  /-- One more round never changes a result. -/
  stable : ∀ fuel result, run fuel = some result → run (fuel + 1) = some result

namespace Fuelled

variable {result : α}

/-- A larger allowance keeps a result. -/
theorem run_of_le
    (computation : Fuelled α)
    (enough : computation.run fuel = some result)
    (le : fuel ≤ larger) :
    computation.run larger = some result := by
  induction larger, le using Nat.le_induction with
  | base => exact enough
  | succ larger _ ih => exact computation.stable larger result ih

/-- Some allowance is enough for the computation to give the result. -/
def Returns
    (computation : Fuelled α)
    (result : α) : Prop :=
  ∃ fuel, computation.run fuel = some result

/-- No allowance is enough. -/
def Diverges (computation : Fuelled α) : Prop :=
  ∀ fuel, computation.run fuel = none

variable {computation : Fuelled α}

theorem Returns.unique
    (firstReturns : computation.Returns first)
    (secondReturns : computation.Returns second) :
    first = second := by
  obtain ⟨firstFuel, firstRun⟩ := firstReturns
  obtain ⟨secondFuel, secondRun⟩ := secondReturns
  have firstAtMax := computation.run_of_le firstRun (Nat.le_max_left firstFuel secondFuel)
  have secondAtMax := computation.run_of_le secondRun (Nat.le_max_right firstFuel secondFuel)
  exact Option.some.inj (firstAtMax.symm.trans secondAtMax)

theorem Diverges.not_returns
    (diverges : computation.Diverges)
    (result : α) :
    ¬computation.Returns result := by
  rintro ⟨fuel, returned⟩
  rw [diverges fuel] at returned
  cases returned

/-! ## Sequencing -/

/-- The computation that returns at once. -/
protected def pure (result : α) : Fuelled α where
  run _ := some result
  stable _ _ same := same

/-- Run one computation and continue with its result on the same allowance. -/
protected def bind
    (first : Fuelled α)
    (continuation : α → Fuelled β) : Fuelled β where
  run fuel := (first.run fuel).bind fun result => (continuation result).run fuel
  stable fuel result returned := by
    obtain ⟨intermediate, firstRun, secondRun⟩ :=
      Option.bind_eq_some_iff.mp returned
    exact Option.bind_eq_some_iff.mpr
      ⟨intermediate, first.stable fuel intermediate firstRun,
        (continuation intermediate).stable fuel result secondRun⟩

instance : Monad Fuelled where
  pure := Fuelled.pure
  bind := Fuelled.bind

instance : LawfulMonad Fuelled :=
  LawfulMonad.mk' Fuelled
    (fun computation => by
      ext fuel : 2
      exact Option.bind_fun_some (computation.run fuel))
    (fun _ _ => rfl)
    (fun computation _ _ => by
      ext fuel : 2
      exact Option.bind_assoc (computation.run fuel) _ _)

theorem exists_returns_of_any
    (fuel : ℕ)
    (computed : (computation.run fuel).any test = true) :
    ∃ result, computation.Returns result ∧ test result = true := by
  cases atFuel : computation.run fuel with
  | none =>
      rw [atFuel] at computed
      cases computed
  | some result =>
      rw [atFuel] at computed
      exact ⟨result, ⟨fuel, atFuel⟩, computed⟩

theorem Returns.passes
    (returns : computation.Returns result)
    (test : α → Bool)
    (fuel : ℕ)
    (computed : (computation.run fuel).any test = true) :
    test result = true := by
  obtain ⟨_, alsoReturns, passes⟩ := exists_returns_of_any fuel computed
  rw [returns.unique alsoReturns]
  exact passes

theorem Returns.view_eq
    (returns : computation.Returns result)
    {view : α → β}
    {value : β}
    (fuel : ℕ)
    (computed : (computation.run fuel).map view = some value) :
    view result = value := by
  obtain ⟨reached, atFuel, isValue⟩ := Option.map_eq_some_iff.mp computed
  rw [returns.unique ⟨fuel, atFuel⟩]
  exact isValue

theorem exists_returns_fst
    {computation : Fuelled (α × β)}
    (fuel : ℕ)
    (computed : (computation.run fuel).map Prod.fst = some result) :
    ∃ final, computation.Returns (result, final) := by
  obtain ⟨⟨_, final⟩, atFuel, rfl⟩ := Option.map_eq_some_iff.mp computed
  exact ⟨final, fuel, atFuel⟩

theorem exists_returns_ok_fst
    {computation : Fuelled (Except ε (α × β))}
    (fuel : ℕ)
    (computed : (computation.run fuel).map (fun outcome =>
      outcome.toOption.map Prod.fst) = some (some result)) :
    ∃ final, computation.Returns (.ok (result, final)) := by
  obtain ⟨outcome, atFuel, isResult⟩ := Option.map_eq_some_iff.mp computed
  cases outcome with
  | error failure => cases isResult
  | ok values =>
      obtain ⟨value, final⟩ := values
      obtain rfl : value = result := Option.some.inj isResult
      exact ⟨final, fuel, atFuel⟩

@[simp] theorem returns_pure_iff {result expected : α} :
    (pure result : Fuelled α).Returns expected ↔ result = expected := by
  constructor
  · rintro ⟨_, returned⟩
    exact Option.some.inj returned
  · rintro rfl
    exact ⟨0, rfl⟩

theorem returns_pure (result : α) : (pure result : Fuelled α).Returns result :=
  returns_pure_iff.mpr rfl

theorem returns_bind_iff
    {continuation : α → Fuelled β}
    {result : β} :
    (first >>= continuation).Returns result ↔
      ∃ intermediate,
        first.Returns intermediate ∧
          (continuation intermediate).Returns result := by
  constructor
  · rintro ⟨fuel, returned⟩
    obtain ⟨intermediate, firstRun, secondRun⟩ :=
      Option.bind_eq_some_iff.mp returned
    exact ⟨intermediate, ⟨fuel, firstRun⟩, ⟨fuel, secondRun⟩⟩
  · rintro ⟨intermediate, ⟨firstFuel, firstRun⟩, ⟨secondFuel, secondRun⟩⟩
    refine ⟨max firstFuel secondFuel, Option.bind_eq_some_iff.mpr ⟨intermediate, ?_, ?_⟩⟩
    · exact first.run_of_le firstRun (Nat.le_max_left _ _)
    · exact (continuation intermediate).run_of_le secondRun (Nat.le_max_right _ _)

theorem Returns.bind
    {continuation : α → Fuelled β}
    {result : β}
    (firstReturns : first.Returns intermediate)
    (secondReturns : (continuation intermediate).Returns result) :
    (first >>= continuation).Returns result :=
  returns_bind_iff.mpr ⟨intermediate, firstReturns, secondReturns⟩

theorem foldlM_returns
    {exec : σ → γ → Fuelled σ}
    {spec : τ → γ → τ}
    (related : σ → τ → Prop)
    {calls : List γ}
    (step : ∀ call ∈ calls, ∀ concrete abstract, related concrete abstract →
      ∃ following, (exec concrete call).Returns following ∧
        related following (spec abstract call))
    (initially : related concrete abstract) :
    ∃ final, (calls.foldlM exec concrete).Returns final ∧
      related final (calls.foldl spec abstract) := by
  induction calls generalizing concrete abstract with
  | nil => exact ⟨concrete, returns_pure concrete, initially⟩
  | cons call calls ih =>
      obtain ⟨following, returns, kept⟩ :=
        step call List.mem_cons_self concrete abstract initially
      obtain ⟨final, rest, reached⟩ := ih
        (fun later member => step later (List.mem_cons_of_mem _ member)) kept
      refine ⟨final, ?_, reached⟩
      rw [List.foldlM_cons]
      exact returns.bind rest

theorem foldlM_returns_self
    {exec : σ → γ → Fuelled σ}
    {calls : List γ}
    (step : ∀ call ∈ calls, (exec state call).Returns state) :
    (calls.foldlM exec state).Returns state := by
  induction calls with
  | nil => exact returns_pure state
  | cons call calls ih =>
      rw [List.foldlM_cons]
      exact (step call List.mem_cons_self).bind
        (ih fun later member => step later (List.mem_cons_of_mem _ member))

/-! ## Loops -/

/-- Outcome of one round of a loop: leave with a result, or go round again. -/
inductive Round (σ : Type u) (ρ : Type v)
  | done (result : ρ)
  | next (state : σ)

/-- Rounds of a loop, each taking one unit of the allowance. -/
def loopRun (body : σ → Fuelled (Round σ ρ)) : Nat → σ → Option ρ
  | 0, _ => none
  | fuel + 1, state =>
      match (body state).run fuel with
      | none => none
      | some (.done result) => some result
      | some (.next state) => loopRun body fuel state

theorem loopRun_stable
    (body : σ → Fuelled (Round σ ρ))
    (fuel : Nat)
    (state : σ)
    (result : ρ)
    (returned : loopRun body fuel state = some result) :
    loopRun body (fuel + 1) state = some result := by
  induction fuel generalizing state with
  | zero => cases returned
  | succ fuel ih =>
      rw [loopRun] at returned ⊢
      cases round : (body state).run fuel with
      | none => simp [round] at returned
      | some outcome =>
          rw [(body state).stable fuel outcome round]
          cases outcome with
          | done value => simpa [round] using returned
          | next following =>
              simp only [round] at returned
              exact ih following returned

/-- Repeat the body from the given state until it leaves with a result. -/
def loop
    (body : σ → Fuelled (Round σ ρ))
    (state : σ) : Fuelled ρ where
  run fuel := loopRun body fuel state
  stable fuel result := loopRun_stable body fuel state result

variable {body : σ → Fuelled (Round σ ρ)}

/-- A loop returns when its round does. -/
theorem loop_returns_of_done
    {result : ρ}
    (leaves : (body state).Returns (.done result)) :
    (loop body state).Returns result := by
  obtain ⟨fuel, round⟩ := leaves
  refine ⟨fuel + 1, ?_⟩
  change loopRun body (fuel + 1) state = some result
  simp [loopRun, round]

theorem loop_returns_of_next
    {result : ρ}
    (continues : (body state).Returns (.next following))
    (returns : (loop body following).Returns result) :
    (loop body state).Returns result := by
  obtain ⟨roundFuel, round⟩ := continues
  obtain ⟨restFuel, rest⟩ := returns
  have roundAtMax := (body state).run_of_le round (Nat.le_max_left roundFuel restFuel)
  have restAtMax := (loop body following).run_of_le rest (Nat.le_max_right roundFuel restFuel)
  refine ⟨max roundFuel restFuel + 1, ?_⟩
  change loopRun body (max roundFuel restFuel + 1) state = some result
  rw [loopRun, roundAtMax]
  exact restAtMax

theorem loop_diverges
    (invariant : σ → Prop)
    (keeps : ∀ state, invariant state →
      ∃ following, (body state).Returns (.next following) ∧
        invariant following)
    (initially : invariant state) :
    (loop body state).Diverges := by
  intro fuel
  change loopRun body fuel state = none
  induction fuel generalizing state with
  | zero => rfl
  | succ fuel ih =>
      obtain ⟨following, continues, kept⟩ := keeps state initially
      rw [loopRun]
      cases round : (body state).run fuel with
      | none => rfl
      | some outcome =>
          have same : outcome = .next following := Returns.unique ⟨fuel, round⟩ continues
          subst same
          exact ih kept

end Fuelled
