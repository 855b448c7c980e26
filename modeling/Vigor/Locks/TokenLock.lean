import Vigor.Library.Ownership
import Mathlib.Data.Fintype.Basic

/-!
# The per-core token lock

The lock of `boilerplate/locks.c` has one token per core and one write token.
A core processes a packet while it holds its own token.  To write it gives its
token up, takes the write token and then collects the tokens of all cores in
order.

A state records the tokens and the point that each core has reached in its
worker loop.  A step is one atomic operation of one core; a test-and-set that
fails leaves the state as it is.
-/

namespace Vigor
namespace TokenLock

open Ownership Function

variable {cores : ℕ}

/-- A point of the worker loop between two atomic operations. -/
inductive Point
  /-- In `nf_lock_block_writes`. -/
  | blocking
  /-- After `nf_lock_block_writes`, before the core releases its token. -/
  | reading
  /-- In `nf_lock_write_lock`, trying to take the write token. -/
  | waiting
  /-- In `nf_lock_write_lock`, about to take the token of a core. -/
  | collecting (next : ℕ)
  /-- Between `nf_lock_write_lock` and `nf_lock_write_unlock`. -/
  | writing
  /-- In `nf_lock_write_unlock`, about to clear the token of a core. -/
  | unlocking (next : ℕ)
  deriving DecidableEq, Repr

/-- `nf_lock_t` and the points of all cores. -/
structure State (cores : ℕ) where
  tokens : Fin cores → Bool
  writeToken : Bool
  points : Fin cores → Point

/-- All tokens are clear and every core is about to receive a packet. -/
def initial (cores : ℕ) : State cores :=
  { tokens := fun _ => false
    writeToken := false
    points := fun _ => .blocking }

/-- Move one core to a point. -/
def State.goto
    (state : State cores)
    (core : Fin cores)
    (target : Point) :
    State cores :=
  { state with points := update state.points core target }

/-- Write one token. -/
def State.setToken
    (state : State cores)
    (core : Fin cores)
    (value : Bool) :
    State cores :=
  { state with tokens := update state.tokens core value }

/-- One atomic operation of a core.  The flag says whether processing the packet
attempted a write; it matters at the end of the first processing only. -/
def step
    (core : Fin cores)
    (writeAttempt : Bool)
    (state : State cores) :
    State cores :=
  match state.points core with
  | .blocking =>
      if state.tokens core then state
      else (state.setToken core true).goto core .reading
  | .reading =>
      if writeAttempt then (state.setToken core false).goto core .waiting
      else (state.setToken core false).goto core .blocking
  | .waiting =>
      if state.writeToken then state
      else { state with writeToken := true }.goto core (.collecting 0)
  | .collecting next =>
      if inside : next < cores then
        if state.tokens ⟨next, inside⟩ then state
        else
          (state.setToken ⟨next, inside⟩ true).goto core (.collecting (next + 1))
      else state.goto core .writing
  | .writing => state.goto core (.unlocking 0)
  | .unlocking next =>
      if inside : next < cores then
        (state.setToken ⟨next, inside⟩ false).goto core (.unlocking (next + 1))
      else { state with writeToken := false }.goto core .blocking

/-- The next operation of the core is a test-and-set that fails. -/
def spins
    (state : State cores)
    (core : Fin cores) : Bool :=
  match state.points core with
  | .blocking => state.tokens core
  | .waiting => state.writeToken
  | .collecting next =>
      if inside : next < cores then state.tokens ⟨next, inside⟩ else false
  | .reading | .writing | .unlocking _ => false

/-- A step other than a failed test-and-set moves the core on. -/
theorem step_ne_of_not_spins
    {core : Fin cores}
    (moves : spins state core = false)
    (writeAttempt : Bool) :
    step core writeAttempt state ≠ state := by
  intro same
  have stays := congrArg (fun state => state.points core) same
  unfold step at stays
  cases point : state.points core with
  | blocking =>
      simp only [spins, point] at moves
      simp [point, moves, State.goto] at stays
  | reading => cases writeAttempt <;> simp [point, State.goto] at stays
  | waiting =>
      simp only [spins, point] at moves
      simp [point, moves, State.goto] at stays
  | collecting next =>
      simp only [spins, point] at moves
      by_cases inside : next < cores
      · simp only [inside, dif_pos] at moves
        simp [point, inside, moves, State.goto] at stays
      · simp [point, inside, State.goto] at stays
  | writing => simp [point, State.goto] at stays
  | unlocking next =>
      by_cases inside : next < cores <;> simp [point, inside, State.goto] at stays

/-- States reached by some interleaving. -/
inductive Reachable : State cores → Prop
  | initial : Reachable (initial cores)
  | step
      {state : State cores}
      (core : Fin cores)
      (writeAttempt : Bool)
      (reachable : Reachable state) :
      Reachable (step core writeAttempt state)

/-! ## Ownership of the tokens -/

/-- A core at a point owns a token. -/
def Owns (token core : Fin cores) : Point → Prop
  | .blocking | .waiting => False
  | .reading => token = core
  | .collecting next => token.val < next
  | .writing => True
  | .unlocking next => next ≤ token.val

/-- A core at a point owns the write token. -/
def OwnsWrite : Point → Prop
  | .collecting _ | .writing | .unlocking _ => True
  | .blocking | .waiting | .reading => False

/-- Every token is set exactly while one core owns it. -/
structure Guarded (state : State cores) : Prop where
  tokens : ∀ token,
    Guards (state.tokens token) fun core => Owns token core (state.points core)
  writeToken :
    Guards state.writeToken fun core => OwnsWrite (state.points core)

theorem guarded_initial : Guarded (initial cores) := by
  constructor
  · intro token
    constructor <;> simp [initial, Owns]
  · constructor <;> simp [initial, OwnsWrite]

namespace Guarded

variable {state : State cores} {core token : Fin cores} {target : Point}

section

variable (guarded : Guarded state)

include guarded

theorem goto
    (sameTokens : ∀ token,
      Owns token core target ↔ Owns token core (state.points core))
    (sameWrite : OwnsWrite target ↔ OwnsWrite (state.points core)) :
    Guarded (state.goto core target) where
  tokens token := Guards.keep (Owns token) (guarded.tokens token) (sameTokens token)
  writeToken := Guards.keep (fun _ => OwnsWrite) guarded.writeToken sameWrite

/-- The core moves to a point and changes one token with it. -/
theorem goto_setToken
    {value : Bool}
    (here : Guards value fun other =>
      Owns token other (update state.points core target other))
    (others : ∀ other ≠ token,
      Owns other core target ↔ Owns other core (state.points core))
    (sameWrite : OwnsWrite target ↔ OwnsWrite (state.points core)) :
    Guarded ((state.setToken token value).goto core target) where
  tokens other := by
    by_cases same : other = token
    · subst same
      simp only [State.goto, State.setToken, update_self]
      exact here
    · simp only [State.goto, State.setToken, update_of_ne same]
      exact Guards.keep (Owns other) (guarded.tokens other) (others other same)
  writeToken := Guards.keep (fun _ => OwnsWrite) guarded.writeToken sameWrite

theorem step
    (core : Fin cores)
    (writeAttempt : Bool) :
    Guarded (step core writeAttempt state) := by
  unfold TokenLock.step
  cases point : state.points core with
  | blocking =>
      dsimp only
      split_ifs with isSet
      · exact guarded
      · apply guarded.goto_setToken
        · exact Guards.acquire (Owns core) (guarded.tokens core)
            (Bool.eq_false_iff.mpr isSet) rfl
        · intro other different
          simp [point, Owns, different]
        · simp [point, OwnsWrite]
  | reading =>
      dsimp only
      split_ifs
      all_goals
        apply guarded.goto_setToken
        · refine Guards.release (Owns core) (guarded.tokens core) ?_ id
          rw [point]
          rfl
        · intro other different
          simp [point, Owns, different]
        · simp [point, OwnsWrite]
  | waiting =>
      dsimp only
      split_ifs with isSet
      · exact guarded
      · constructor
        · intro token
          apply Guards.keep (Owns token) (guarded.tokens token)
          simp [point, Owns]
        · exact Guards.acquire (fun _ => OwnsWrite) guarded.writeToken
            (Bool.eq_false_iff.mpr isSet) trivial
  | collecting next =>
      dsimp only
      split_ifs with inside isSet
      · exact guarded
      · apply guarded.goto_setToken
        · exact Guards.acquire (Owns ⟨next, inside⟩) (guarded.tokens _)
            (Bool.eq_false_iff.mpr isSet) (Nat.lt_succ_self next)
        · intro other different
          have notNext : other.val ≠ next :=
            fun same => different (Fin.ext same)
          simp only [point, Owns]
          omega
        · simp [point, OwnsWrite]
      · apply guarded.goto
        · intro token
          have bound := token.isLt
          simp only [point, Owns, true_iff]
          omega
        · simp [point, OwnsWrite]
  | writing =>
      apply guarded.goto
      · intro token
        simp [point, Owns]
      · simp [point, OwnsWrite]
  | unlocking next =>
      dsimp only
      split_ifs with inside
      · apply guarded.goto_setToken
        · refine Guards.release (Owns ⟨next, inside⟩) (guarded.tokens _) ?_
            (Nat.not_succ_le_self next)
          rw [point]
          exact Nat.le_refl next
        · intro other different
          have notNext : other.val ≠ next :=
            fun same => different (Fin.ext same)
          simp only [point, Owns]
          omega
        · simp [point, OwnsWrite]
      · constructor
        · intro token
          apply Guards.keep (Owns token) (guarded.tokens token)
          have bound := token.isLt
          simp only [point, Owns, false_iff]
          omega
        · apply Guards.release (fun _ => OwnsWrite) guarded.writeToken
          · rw [point]
            trivial
          · exact id

theorem writer_excludes
    (writes : state.points writer = .writing)
    (reads : state.points other = .reading) :
    False := by
  have ofWriter : Owns other writer (state.points writer) := by
    rw [writes]
    trivial
  have ofReader : Owns other other (state.points other) := by
    rw [reads]
    rfl
  have same := (guarded.tokens other).unique writer other ofWriter ofReader
  rw [same, reads] at writes
  cases writes

omit guarded in
/-- The owner of a token can only spin while it collects further tokens. -/
theorem moves_or_collecting (owns : Owns token core (state.points core)) :
    spins state core = false ∨
      ∃ next, token.val < next ∧ state.points core = .collecting next := by
  cases point : state.points core with
  | blocking | waiting => simp [point, Owns] at owns
  | reading | writing | unlocking => simp [spins, point]
  | collecting next =>
      rw [point] at owns
      exact Or.inr ⟨next, owns, rfl⟩

theorem progress_of_collecting
    (collects : state.points core = .collecting next) :
    ∃ other, spins state other = false := by
  by_cases stuck : spins state core = false
  · exact ⟨core, stuck⟩
  · rw [Bool.not_eq_false] at stuck
    simp only [spins, collects] at stuck
    split_ifs at stuck with inside
    obtain ⟨owner, owns⟩ := (guarded.tokens _).set_iff.mp stuck
    rcases moves_or_collecting owns with moves | ⟨position, before, point⟩
    · exact ⟨owner, moves⟩
    · have same := guarded.writeToken.unique owner core
        (by simp [point, OwnsWrite]) (by simp [collects, OwnsWrite])
      rw [same, collects] at point
      cases point
      exact absurd before (Nat.lt_irrefl _)

theorem progress_of_ownsWrite (owns : OwnsWrite (state.points core)) :
    ∃ other, spins state other = false := by
  cases point : state.points core with
  | collecting next => exact guarded.progress_of_collecting point
  | writing => exact ⟨core, by simp [spins, point]⟩
  | unlocking next => exact ⟨core, by simp [spins, point]⟩
  | blocking | waiting | reading => simp [point, OwnsWrite] at owns

end

theorem progress
    (guarded : Guarded state)
    (core : Fin cores) :
    ∃ other, spins state other = false := by
  by_cases stuck : spins state core = false
  · exact ⟨core, stuck⟩
  · rw [Bool.not_eq_false] at stuck
    cases point : state.points core with
    | blocking =>
        simp only [spins, point] at stuck
        obtain ⟨owner, owns⟩ := (guarded.tokens core).set_iff.mp stuck
        rcases moves_or_collecting owns with moves | ⟨_, _, collects⟩
        · exact ⟨owner, moves⟩
        · exact guarded.progress_of_collecting collects
    | waiting =>
        simp only [spins, point] at stuck
        obtain ⟨owner, owns⟩ := guarded.writeToken.set_iff.mp stuck
        exact guarded.progress_of_ownsWrite owns
    | collecting next => exact guarded.progress_of_collecting point
    | reading | writing | unlocking => simp [spins, point] at stuck

end Guarded

theorem Reachable.guarded
    {state : State cores}
    (reachable : Reachable state) :
    Guarded state := by
  induction reachable with
  | initial => exact guarded_initial
  | step core writeAttempt _ ih => exact ih.step core writeAttempt

/-- In every interleaving of the worker loops, at most one core is between
`nf_lock_write_lock` and `nf_lock_write_unlock`, no core then is between
`nf_lock_block_writes` and the release of its token, and some core can always
take a step other than a failed test-and-set. -/
theorem tokenLock_safe_and_live
    (positive : 0 < cores)
    {state : State cores}
    (reachable : Reachable state) :
    (∀ first second, state.points first = .writing →
      state.points second = .writing → first = second) ∧
    (∀ writer other, state.points writer = .writing →
      state.points other ≠ .reading) ∧
    ∃ core, spins state core = false ∧
      ∀ writeAttempt, step core writeAttempt state ≠ state := by
  have guarded := reachable.guarded
  obtain ⟨core, moves⟩ := guarded.progress ⟨0, positive⟩
  refine ⟨?_, ?_, core, moves, step_ne_of_not_spins moves⟩
  · intro first second firstWrites secondWrites
    apply guarded.writeToken.unique
    · rw [firstWrites]
      trivial
    · rw [secondWrites]
      trivial
  · intro writer other writes reads
    exact guarded.writer_excludes writes reads

/-- Two cores, of which the first has become a writer. -/
theorem tokenLock_safe_and_live_two :
    ∃ state : State 2, Reachable state ∧ state.points 0 = .writing ∧
      state.points 1 ≠ .reading ∧ ∃ core, spins state core = false := by
  have reachable : Reachable (step 0 false (step 0 false (step 0 false
      (step 0 false (step 0 true (step 0 false (initial 2))))))) :=
    .step 0 false (.step 0 false (.step 0 false (.step 0 false
      (.step 0 true (.step 0 false .initial)))))
  obtain ⟨_, excludes, core, moves, _⟩ :=
    tokenLock_safe_and_live (by decide) reachable
  exact ⟨_, reachable, by decide, excludes 0 1 (by decide), core, moves⟩

end TokenLock
end Vigor
