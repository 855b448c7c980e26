import Vigor.Library.Fuelled
import Vigor.Library.Transcript

/-!
# Transcripts of computations with an allowance

The calls of a run may each fail to return.  When every call returns with the
reply of an abstract component, the whole run returns with the transcript of
that component.  Calls carry the times at which they are made, and the relation
between concrete and abstract states may speak about the current time.
-/

universe u v w

namespace Fuelled

variable {γ : Type u} {σ ρ : Type v} {τ : Type w}

/-- Replies to a list of calls, in order, and the state after them. -/
def transcript
    (exec : γ → σ → Fuelled (ρ × σ)) : List γ → σ → Fuelled (List ρ × σ)
  | [], state => pure ([], state)
  | call :: calls, state => do
      let (reply, following) ← exec call state
      let (replies, final) ← transcript exec calls following
      pure (reply :: replies, final)

/-- Every call of a run is allowed in the state in which it is made. -/
def Along
    (allowed : γ → σ → Prop)
    (exec : γ → σ → Fuelled (ρ × σ)) : List γ → σ → Prop
  | [], _ => True
  | call :: calls, state =>
      allowed call state ∧ ∀ reply following, (exec call state).Returns (reply, following) →
        Along allowed exec calls following

variable
  {exec : γ → σ → Fuelled (ρ × σ)}
  {spec : γ → τ → ρ × τ}
  {allowed : γ → τ → Prop}

section Clock

variable
  (clock : γ → ℤ)
  (related : ℤ → σ → τ → Prop)
  (mono : ∀ {now later concrete abstract}, now ≤ later →
    related now concrete abstract → related later concrete abstract)
  (step : ∀ call concrete abstract, related (clock call) concrete abstract →
    allowed call abstract →
      ∃ following,
        (exec call concrete).Returns ((spec call abstract).1, following) ∧
        related (clock call) following (spec call abstract).2)
  {calls : List γ}
  {concrete : σ}
  {abstract : τ}
  (ordered : calls.Pairwise fun earlier later => clock earlier ≤ clock later)
  (initially : ∀ call ∈ calls, related (clock call) concrete abstract)

include mono step ordered initially

/-- A step simulation under a clock that never runs backwards carries over to
whole runs, up to any time after them. -/
theorem transcript_reaches
    (permitted : Transcript.Permitted allowed spec calls abstract) :
    ∃ final, (transcript exec calls concrete).Returns
        ((Transcript.run spec calls abstract).1, final) ∧
      ∀ later, related later concrete abstract →
        (∀ call ∈ calls, clock call ≤ later) →
        related later final (Transcript.run spec calls abstract).2 := by
  induction calls generalizing concrete abstract with
  | nil => exact ⟨concrete, returns_pure _, fun _ start _ => start⟩
  | cons call calls ih =>
      obtain ⟨notBefore, restOrdered⟩ := List.pairwise_cons.mp ordered
      obtain ⟨following, returns, kept⟩ := step call concrete abstract
        (initially call List.mem_cons_self) permitted.1
      obtain ⟨final, rest, reached⟩ := ih restOrdered
        (fun next member => mono (notBefore next member) kept) permitted.2
      refine ⟨final, returns.bind (rest.bind (returns_pure _)), fun later _ notAfter => ?_⟩
      obtain ⟨beforeEnd, restNotAfter⟩ := List.forall_mem_cons.mp notAfter
      exact reached later (mono beforeEnd kept) restNotAfter

theorem transcript_returns
    (start : ∃ now, related now concrete abstract)
    (permitted : Transcript.Permitted allowed spec calls abstract) :
    ∃ final, (transcript exec calls concrete).Returns
        ((Transcript.run spec calls abstract).1, final) ∧
      ∃ last, related last final (Transcript.run spec calls abstract).2 := by
  obtain ⟨final, returns, reached⟩ :=
    transcript_reaches clock related mono step ordered initially permitted
  refine ⟨final, returns, ?_⟩
  rcases calls.eq_nil_or_concat with rfl | ⟨before, last, rfl⟩
  · obtain ⟨now, start⟩ := start
    exact ⟨now, reached now start (by simp)⟩
  · rw [List.concat_eq_append] at *
    refine ⟨clock last, reached _ (initially last (by simp)) fun call member => ?_⟩
    rcases List.mem_append.mp member with inBefore | isLast
    · exact (List.pairwise_append.mp ordered).2.2 call inBefore last List.mem_cons_self
    · exact Int.le_of_eq (congrArg clock (List.mem_singleton.mp isLast))

theorem permitted_of_along
    (transfer : ∀ call concrete abstract,
        related (clock call) concrete abstract →
      concretelyAllowed call concrete → allowed call abstract)
    (along : Along concretelyAllowed exec calls concrete) :
    Transcript.Permitted allowed spec calls abstract := by
  induction calls generalizing concrete abstract with
  | nil => trivial
  | cons call calls ih =>
      obtain ⟨notBefore, restOrdered⟩ := List.pairwise_cons.mp ordered
      have here := initially call List.mem_cons_self
      have permitted := transfer call concrete abstract here along.1
      obtain ⟨following, returns, kept⟩ := step call concrete abstract here permitted
      exact ⟨permitted, ih restOrdered
        (fun next member => mono (notBefore next member) kept) (along.2 _ _ returns)⟩

end Clock

theorem transcript_returns_of_times
    (clock : γ → Option ℤ)
    (related : ℤ → σ → τ → Prop)
    (mono : ∀ {now later concrete abstract}, now ≤ later →
      related now concrete abstract → related later concrete abstract)
    (step : ∀ call now concrete abstract, (∀ time ∈ clock call, time = now) →
      related now concrete abstract → allowed call abstract →
        ∃ following,
          (exec call concrete).Returns ((spec call abstract).1, following) ∧
          related now following (spec call abstract).2)
    (ordered : (calls.filterMap clock).Pairwise (· ≤ ·))
    (started : ∀ time ∈ calls.filterMap clock, now ≤ time)
    (initially : related now concrete abstract)
    (permitted : Transcript.Permitted allowed spec calls abstract) :
    ∃ final, (transcript exec calls concrete).Returns
      ((Transcript.run spec calls abstract).1, final) := by
  induction calls generalizing now concrete abstract with
  | nil => exact ⟨concrete, returns_pure _⟩
  | cons call calls ih =>
      cases timed : clock call with
      | none =>
          rw [List.filterMap_cons_none timed] at ordered started
          obtain ⟨following, returns, kept⟩ := step call now concrete abstract
            (by simp [timed]) initially permitted.1
          obtain ⟨final, rest⟩ := ih ordered started kept permitted.2
          exact ⟨final, returns.bind (rest.bind (returns_pure _))⟩
      | some time =>
          rw [List.filterMap_cons_some timed] at ordered started
          obtain ⟨notBefore, restOrdered⟩ := List.pairwise_cons.mp ordered
          obtain ⟨following, returns, kept⟩ := step call time concrete abstract
            (by simp [timed]) (mono (started time List.mem_cons_self) initially)
            permitted.1
          obtain ⟨final, rest⟩ := ih restOrdered notBefore kept permitted.2
          exact ⟨final, returns.bind (rest.bind (returns_pure _))⟩

theorem transcript_keeps
    (clock : γ → ℤ)
    (invariant : ℤ → σ → Prop)
    (mono : ∀ {now later state},
      now ≤ later → invariant now state → invariant later state)
    (step : ∀ call state, invariant (clock call) state →
      ∃ reply following, (exec call state).Returns (reply, following) ∧
        invariant (clock call) following)
    (ordered : calls.Pairwise fun earlier later => clock earlier ≤ clock later)
    (initially : ∀ call ∈ calls, invariant (clock call) state) :
    ∃ replies final, (transcript exec calls state).Returns (replies, final) ∧
      ∀ later, invariant later state → (∀ call ∈ calls, clock call ≤ later) →
        invariant later final := by
  induction calls generalizing state with
  | nil => exact ⟨[], state, returns_pure _, fun _ start _ => start⟩
  | cons call calls ih =>
      obtain ⟨notBefore, restOrdered⟩ := List.pairwise_cons.mp ordered
      obtain ⟨reply, following, returns, kept⟩ :=
        step call state (initially call List.mem_cons_self)
      obtain ⟨replies, final, rest, reached⟩ := ih restOrdered
        (fun next member => mono (notBefore next member) kept)
      refine ⟨reply :: replies, final,
        returns.bind (rest.bind (returns_pure _)), fun later _ notAfter => ?_⟩
      obtain ⟨beforeEnd, restNotAfter⟩ := List.forall_mem_cons.mp notAfter
      exact reached later (mono beforeEnd kept) restNotAfter

end Fuelled
