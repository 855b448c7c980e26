import Vigor.Library.Fuelled

/-!
# Computations that may fail

A program of a language with exceptions may run forever, raise an error or give
a value.  It is a fuelled computation of either an error or a value.  The rule
for loops asks for an invariant and for a measure that every round lowers; it
shows that the loop gives a value, not only that a value would be right.
-/

universe u

/-- A computation that may run forever or raise an error. -/
abbrev Failing (ε : Type u) := ExceptT ε Fuelled

namespace Failing

variable {ε α β σ ρ : Type u}

/-- The computation returns a value without an error. -/
def Gives
    (program : Failing ε α)
    (value : α) : Prop :=
  Fuelled.Returns program (Except.ok value)

variable {program : Failing ε α}

theorem Gives.unique
    (givesFirst : Gives program first)
    (givesSecond : Gives program second) :
    first = second :=
  Except.ok.inj (Fuelled.Returns.unique givesFirst givesSecond)

/-- The value of a computation passes the tests that it passes with some
allowance. -/
theorem Gives.passes
    (gives : Gives program value)
    (test : α → Bool)
    (fuel : ℕ)
    (computed : (Fuelled.run program fuel).any
      (fun outcome => outcome.toOption.any test) = true) :
    test value = true :=
  Fuelled.Returns.passes gives (fun outcome => outcome.toOption.any test) fuel computed

theorem gives_pure (value : α) : Gives (pure value : Failing ε α) value :=
  Fuelled.returns_pure _

theorem Gives.bind
    {continuation : α → Failing ε β}
    {value : α}
    {result : β}
    (givesValue : Gives program value)
    (givesResult : Gives (continuation value) result) :
    Gives (program >>= continuation) result :=
  Fuelled.Returns.bind givesValue givesResult

/-- A part of the program without loops. -/
def ofExcept (outcome : Except ε α) : Failing ε α :=
  ExceptT.mk (pure outcome)

theorem gives_ofExcept
    {outcome : Except ε α}
    {value : α}
    (isOk : outcome = .ok value) :
    Gives (ofExcept outcome) value := by
  rw [isOk]
  exact Fuelled.returns_pure _

/-! ## Loops -/

/-- What a round of a loop does when it may raise an error. -/
def round (outcome : Except ε (Fuelled.Round σ ρ)) :
    Fuelled.Round σ (Except ε ρ) :=
  match outcome with
  | .error failure => .done (.error failure)
  | .ok (.done result) => .done (.ok result)
  | .ok (.next state) => .next state

/-- Repeat the body from the given state until it leaves with a result or raises
an error. -/
def loop
    (body : σ → Failing ε (Fuelled.Round σ ρ))
    (state : σ) : Failing ε ρ :=
  ExceptT.mk (Fuelled.loop (fun state => do return round (← (body state).run)) state)

variable {body : σ → Failing ε (Fuelled.Round σ ρ)}

theorem loop_gives_of_done (leaves : Gives (body state) (.done result)) :
    Gives (loop body state) result :=
  Fuelled.loop_returns_of_done (Fuelled.Returns.bind leaves (Fuelled.returns_pure _))

theorem loop_gives_of_next
    (continues : Gives (body state) (.next following))
    (gives : Gives (loop body following) result) :
    Gives (loop body state) result :=
  Fuelled.loop_returns_of_next (Fuelled.Returns.bind continues (Fuelled.returns_pure _)) gives

/-- A loop gives a value if every round keeps the invariant and lowers the
measure, or leaves with a value. -/
theorem loop_gives
    (invariant : σ → Prop)
    (measure : σ → ℕ)
    {post : ρ → Prop}
    (step : ∀ state, invariant state →
      (∃ result, Gives (body state) (.done result) ∧ post result) ∨
      ∃ following, Gives (body state) (.next following) ∧ invariant following ∧
        measure following < measure state)
    (initially : invariant state) :
    ∃ result, Gives (loop body state) result ∧ post result := by
  -- The induction is on a bound for the measure.
  obtain ⟨bound, less⟩ : ∃ bound, measure state < bound := ⟨_, Nat.lt_succ_self _⟩
  induction bound generalizing state with
  | zero => cases less
  | succ bound ih =>
      rcases step state initially with
        ⟨result, leaves, isResult⟩ | ⟨following, continues, kept, lower⟩
      · exact ⟨result, loop_gives_of_done leaves, isResult⟩
      · obtain ⟨result, gives, isResult⟩ := ih kept
          (Nat.lt_of_lt_of_le lower (Nat.le_of_lt_succ less))
        exact ⟨result, loop_gives_of_next continues gives, isResult⟩

end Failing
