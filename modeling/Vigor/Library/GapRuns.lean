import Mathlib.Data.List.Chain

/-!
# Runs of events with short gaps

Events with times fall into maximal runs in which no two consecutive events are
further apart than a gap.  The latest run is the one at the end, and it can be
computed event by event.  If all events are in the past, no other run can have
ended a short time ago.
-/

namespace GapRuns

variable {α : Type*} (time : α → ℤ) (gap : ℤ)

/-- The later event comes soon enough after the earlier one. -/
def Near (earlier later : α) : Prop :=
  time later - time earlier ≤ gap

instance (earlier later : α) : Decidable (Near time gap earlier later) :=
  inferInstanceAs (Decidable (_ ≤ _))

/-- A run of events that are near to each other and not near to the events
around. -/
structure Maximal (events run : List α) : Prop where
  nonempty : run ≠ []
  near : run.IsChain (Near time gap)
  bounded : ∃ before after, events = before ++ run ++ after ∧
    (∀ previous ∈ before.getLast?, ∀ first ∈ run.head?, ¬ Near time gap previous first) ∧
    ∀ last ∈ run.getLast?, ∀ next ∈ after.head?, ¬ Near time gap last next

/-- A run with the next event, which starts a new run if it is not near. -/
def extendRun
    (run : List α)
    (event : α) : List α :=
  if ∀ last ∈ run.getLast?, Near time gap last event then run ++ [event] else [event]

/-- The run at the end of the events. -/
def latest (events : List α) : List α :=
  events.foldl (extendRun time gap) []

variable {time gap} {events run before : List α} {event : α}

@[simp] theorem latest_nil : latest time gap ([] : List α) = [] := rfl

theorem latest_concat :
    latest time gap (events ++ [event]) =
      extendRun time gap (latest time gap events) event := by
  simp [latest]

theorem getLast?_extendRun :
    (extendRun time gap run event).getLast? = some event := by
  unfold extendRun
  split <;> simp

variable (time gap) in
theorem getLast?_latest (events : List α) :
    (latest time gap events).getLast? = events.getLast? := by
  induction events using List.reverseRecOn with
  | nil => rfl
  | append_singleton events event _ => simp [latest_concat, getLast?_extendRun]

theorem latest_ne_nil (nonempty : events ≠ []) :
    latest time gap events ≠ [] := by
  intro none
  have last := getLast?_latest time gap events
  rw [none, List.getLast?_nil] at last
  exact nonempty (List.getLast?_eq_none_iff.mp last.symm)

/-- A run of near events behind an event that is not near is the latest one. -/
theorem latest_append
    (nonempty : run ≠ [])
    (near : run.IsChain (Near time gap))
    (start : ∀ previous ∈ before.getLast?, ∀ first ∈ run.head?,
      ¬ Near time gap previous first) :
    latest time gap (before ++ run) = run := by
  induction run using List.reverseRecOn with
  | nil => exact absurd rfl nonempty
  | append_singleton run event ih =>
      rw [← List.append_assoc, latest_concat, extendRun, getLast?_latest]
      cases run with
      | nil =>
          rw [List.append_nil]
          cases shape : before.getLast? with
          | none => simp_all
          | some previous =>
              rw [if_neg]
              · rfl
              · intro near
                exact start previous shape event (by simp) (near previous rfl)
      | cons first rest =>
          obtain ⟨nearBefore, _, nearLast⟩ := List.isChain_append.mp near
          have earlier := ih (by simp) nearBefore (by simpa using start)
          rw [earlier, List.getLast?_append_of_ne_nil _ (List.cons_ne_nil _ _), if_pos]
          intro last isLast
          exact nearLast last isLast event (by simp)

theorem exists_before
    (time : α → ℤ)
    (gap : ℤ)
    (events : List α) :
    ∃ before, events = before ++ latest time gap events ∧
      (latest time gap events).IsChain (Near time gap) ∧
      ∀ previous ∈ before.getLast?, ∀ first ∈ (latest time gap events).head?,
        ¬ Near time gap previous first := by
  induction events using List.reverseRecOn with
  | nil => exact ⟨[], rfl, List.isChain_nil, by simp⟩
  | append_singleton events event ih =>
      rw [latest_concat, extendRun]
      split
      · -- The run goes on.
        rename_i nearLast
        obtain ⟨before, split, near, start⟩ := ih
        refine ⟨before, by rw [← List.append_assoc, ← split], ?_, ?_⟩
        · refine List.isChain_append.mpr ⟨near, List.isChain_singleton _, ?_⟩
          intro last isLast next isNext
          obtain rfl : event = next := by simpa using isNext
          exact nearLast last isLast
        · cases shape : latest time gap events with
          | nil =>
              have none : events = [] := by
                by_contra nonempty
                exact latest_ne_nil nonempty shape
              rw [shape, none] at split
              simp [(List.append_eq_nil_iff.mp split.symm).1]
          | cons first rest =>
              rw [shape] at start
              simpa using start
      · -- The event is the first one of a new run.
        rename_i notNear
        refine ⟨events, rfl, List.isChain_singleton _, ?_⟩
        intro previous isLast first isFirst near
        obtain rfl : event = first := by simpa using isFirst
        refine notNear fun last isLatest => ?_
        rw [getLast?_latest] at isLatest
        rwa [Option.some.inj (isLatest.symm.trans isLast)]

theorem maximal_latest
    (time : α → ℤ)
    (gap : ℤ)
    (nonempty : events ≠ []) :
    Maximal time gap events (latest time gap events) := by
  obtain ⟨before, split, near, start⟩ := exists_before time gap events
  exact ⟨latest_ne_nil nonempty, near, before, [], by rwa [List.append_nil], start, by simp⟩

theorem Maximal.eq_latest
    (maximal : Maximal time gap events run)
    (past : ∀ event ∈ events, time event ≤ now)
    (recent : ∀ last ∈ run.getLast?, now - time last ≤ gap) :
    run = latest time gap events := by
  obtain ⟨before, after, rfl, start, finish⟩ := maximal.bounded
  cases after with
  | nil =>
      rw [List.append_nil]
      exact (latest_append maximal.nonempty maximal.near start).symm
  | cons next after =>
      obtain ⟨last, isLast⟩ :=
        Option.isSome_iff_exists.mp (List.getLast?_isSome.mpr maximal.nonempty)
      have far := finish last isLast next rfl
      have ended := recent last isLast
      have := past next (by simp)
      rw [Near] at far
      omega

end GapRuns
