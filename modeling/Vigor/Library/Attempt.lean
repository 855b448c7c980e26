import Mathlib.Data.Option.Basic

/-!
# Attempts

A recursive function with an allowance for the depth of its calls.  An attempt
ends with a value or an error, or it has no outcome because the allowance was
used up.
-/

universe u

/-- A computation that may be given up or raise an error. -/
abbrev Attempt (ε : Type u) := ExceptT ε Option

namespace Attempt

variable {ε α β : Type u}

/-- The attempt that is given up. -/
def giveUp : Attempt ε α :=
  ExceptT.mk none

/-- The attempt ends with a value. -/
def Gives
    (attempt : Attempt ε α)
    (value : α) : Prop :=
  attempt.run = some (.ok value)

/-- The attempt is not given up. -/
def Ends (attempt : Attempt ε α) : Prop :=
  attempt.run ≠ none

theorem Gives.unique
    {attempt : Attempt ε α}
    (givesFirst : attempt.Gives first)
    (givesSecond : attempt.Gives second) :
    first = second :=
  Except.ok.inj (Option.some.inj (givesFirst.symm.trans givesSecond))

theorem Gives.ends
    {attempt : Attempt ε α}
    {value : α}
    (gives : attempt.Gives value) :
    attempt.Ends := by
  unfold Ends
  rw [gives]
  exact Option.some_ne_none _

@[simp] theorem gives_pure_iff {value expected : α} :
    Gives (pure value : Attempt ε α) expected ↔ value = expected := by
  constructor
  · intro gives
    exact Except.ok.inj (Option.some.inj gives)
  · rintro rfl
    rfl

@[simp] theorem not_gives_throw
    (failure : ε)
    (value : α) :
    ¬Gives (throw failure : Attempt ε α) value := by
  intro gives
  cases gives

@[simp] theorem not_gives_giveUp (value : α) :
    ¬Gives (giveUp : Attempt ε α) value := by
  intro gives
  cases gives

/-- A sequence gives a value exactly when both of its parts do. -/
@[simp] theorem gives_bind_iff
    {attempt : Attempt ε α}
    {continuation : α → Attempt ε β}
    {result : β} :
    Gives (attempt >>= continuation) result ↔
      ∃ value, attempt.Gives value ∧ (continuation value).Gives result := by
  change Option.bind attempt.run (ExceptT.bindCont continuation) = _ ↔ _
  constructor
  · intro gives
    obtain ⟨outcome, ran, continued⟩ := Option.bind_eq_some_iff.mp gives
    cases outcome with
    | error failure => cases continued
    | ok value => exact ⟨value, ran, continued⟩
  · rintro ⟨value, ran, continued⟩
    exact Option.bind_eq_some_iff.mpr ⟨.ok value, ran, continued⟩

theorem ends_pure (value : α) : Ends (pure value : Attempt ε α) :=
  (gives_pure_iff.mpr rfl).ends

theorem ends_throw (failure : ε) : Ends (throw failure : Attempt ε α) :=
  Option.some_ne_none _

theorem Ends.bind
    {continuation : α → Attempt ε β}
    (ends : attempt.Ends)
    (continues : ∀ value, attempt.Gives value → (continuation value).Ends) :
    Ends (attempt >>= continuation) := by
  change Option.bind attempt.run (ExceptT.bindCont continuation) ≠ none
  obtain ⟨outcome, ran⟩ := Option.ne_none_iff_exists'.mp ends
  rw [ran]
  cases outcome with
  | error failure => exact Option.some_ne_none _
  | ok value => exact continues value ran

end Attempt
