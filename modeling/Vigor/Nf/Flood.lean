import Vigor.Locks.Worker
import Vigor.Library.RefCount
import Mathlib.Data.List.Count
import Mathlib.Data.List.Nodup
import Mathlib.Data.List.Perm.Basic

/-!
# The reference count of a flooded buffer

`flood` of `nf.c` and `boilerplate/locks.c` offers one buffer to all devices
except its own. The reference count is set to the number of these devices before
it is known which of them take the buffer.  If some did not, the count is set to
one and the buffer freed.  This is right if no device took it, but not if some
did: then the buffer is back in its pool while they still use it.  With a single
device nothing is freed at all.

The devices release their references at any time after they took the buffer,
also while `flood` still runs.
-/

namespace Vigor
namespace Nf

open Worker (toUint16)
open RefCount (Counter)

/-! ## Actions on a buffer -/

/-- What happens to a buffer: the calls of `flood`, and the release by a
device. -/
inductive Action
  | refcntSet (value : ℕ)
  | txBurst (device queueId : ℕ) (accepted : Bool)
  | free
  | release (device : ℕ)
  deriving DecidableEq, Repr

/-- The action is a call of `flood`. -/
def Action.isOwn : Action → Bool
  | .release _ => false
  | _ => true

variable {σ : Type u} {limit : ℕ}

/-- `rte_mbuf_refcnt_set` and `rte_pktmbuf_free` act on the count, and so does a
device that releases its reference. -/
def Action.exec (counter : Counter σ limit) : Action → σ → σ
  | .refcntSet value => counter.set value
  | .txBurst _ _ _ => id
  | .free => counter.drop
  | .release _ => counter.drop

/-- Actions one after the other. -/
def runActions
    (counter : Counter σ limit)
    (actions : List Action)
    (state : σ) : σ :=
  actions.foldl (fun state action => action.exec counter state) state

/-- One round of the loop of `flood`: the calls so far and `total_sent`. -/
def floodRound
    (queueId skipDevice : ℕ)
    (accepts : ℕ → Bool)
    (progress : List Action × ℕ)
    (device : ℕ) : List Action × ℕ :=
  if device ≠ skipDevice then
    (progress.1 ++ [.txBurst device queueId (accepts device)],
      progress.2 + (accepts device).toNat)
  else progress

/-- The calls of `flood`, where `accepts` are the devices that take the
buffer. -/
def floodOn
    (queueId port nbDevices : ℕ)
    (accepts : ℕ → Bool) : List Action :=
  let (actions, totalSent) := (List.range nbDevices).foldl
    (floodRound queueId port accepts) ([.refcntSet (toUint16 (nbDevices - 1))], 0)
  if (totalSent : ℤ) ≠ nbDevices - 1 then actions ++ [.refcntSet 1, .free] else actions

/-- `flood` of `nf.c`. -/
def flood
    (port nbDevices : ℕ)
    (accepts : ℕ → Bool) : List Action :=
  floodOn 0 port nbDevices accepts

/-- `flood` of `boilerplate/locks.c`. -/
def floodLocks
    (queueId port nbDevices : ℕ)
    (accepts : ℕ → Bool) : List Action :=
  floodOn queueId port nbDevices accepts

/-! ## Schedules -/

/-- The calls happen in order, and each device that took the buffer releases it
once and later. -/
structure Schedule (calls trace : List Action) : Prop where
  own : trace.filter Action.isOwn = calls
  once : ∀ device queueId, .txBurst device queueId true ∈ calls →
    trace.count (.release device) = 1
  later : ∀ before device after, trace = before ++ .release device :: after →
    ∃ queueId, .txBurst device queueId true ∈ before

/-- The buffer goes back to its pool once and after the last release. -/
structure ReturnsOnce
    (counter : Counter σ limit)
    (trace : List Action)
    (state : σ) : Prop where
  once : counter.returned (runActions counter trace state) = counter.returned state + 1
  afterLast : ∀ before after device, trace = before ++ after → .release device ∈ after →
    counter.returned (runActions counter before state) = counter.returned state
  unaccepted : (∀ device queueId, .txBurst device queueId true ∉ trace) → .free ∈ trace

/-- The reference count is right for all schedules of the releases. -/
def CountsRight
    (counter : Counter σ limit)
    (calls : List Action)
    (state : σ) : Prop :=
  ∀ trace, Schedule calls trace → ReturnsOnce counter trace state

/-- The devices that are asked. -/
def otherDevices (port nbDevices : ℕ) : List ℕ :=
  (List.range nbDevices).filter (· ≠ port)

/-- The devices that take the buffer. -/
def acceptingDevices
    (port nbDevices : ℕ)
    (accepts : ℕ → Bool) : List ℕ :=
  (otherDevices port nbDevices).filter accepts

/-! ## The calls -/

variable {queueId port nbDevices : ℕ} {accepts : ℕ → Bool}

/-- The attempts to send. -/
def attempts
    (queueId port nbDevices : ℕ)
    (accepts : ℕ → Bool) : List Action :=
  (otherDevices port nbDevices).map fun device => .txBurst device queueId (accepts device)

/-- The loop asks the devices in order and counts those that take the buffer. -/
theorem foldl_floodRound
    (devices : List ℕ)
    (progress : List Action × ℕ) :
    devices.foldl (floodRound queueId port accepts) progress =
      (progress.1 ++ (devices.filter (· ≠ port)).map
          fun device => .txBurst device queueId (accepts device),
        progress.2 + ((devices.filter (· ≠ port)).filter accepts).length) := by
  induction devices generalizing progress with
  | nil => simp
  | cons device devices ih =>
      rw [List.foldl_cons, ih]
      unfold floodRound
      by_cases own : device = port
      · rw [if_neg (not_not.mpr own), List.filter_cons_of_neg (by simpa using own)]
      · rw [if_pos own, List.filter_cons_of_pos (by simpa using own)]
        cases accepted : accepts device with
        | false => simp [accepted]
        | true =>
            simp only [List.map_cons, accepted, List.append_assoc, List.singleton_append,
              List.filter_cons_of_pos, List.length_cons, Bool.toNat_true]
            congr 1
            omega

theorem floodOn_eq :
    floodOn queueId port nbDevices accepts =
      if ((acceptingDevices port nbDevices accepts).length : ℤ) ≠
          nbDevices - 1 then
        .refcntSet (toUint16 (nbDevices - 1)) ::
          attempts queueId port nbDevices accepts ++ [.refcntSet 1, .free]
      else .refcntSet (toUint16 (nbDevices - 1)) ::
        attempts queueId port nbDevices accepts := by
  unfold floodOn
  rw [foldl_floodRound]
  simp only [Nat.zero_add, List.singleton_append]
  rfl

theorem mem_acceptingDevices {device : ℕ} :
    device ∈ acceptingDevices port nbDevices accepts ↔
      device ∈ otherDevices port nbDevices ∧ accepts device := by
  unfold acceptingDevices
  exact List.mem_filter

theorem nodup_acceptingDevices :
    (acceptingDevices port nbDevices accepts).Nodup :=
  (List.nodup_range.filter _).filter _

theorem txBurst_mem_floodOn_iff {device queue : ℕ} :
    .txBurst device queue true ∈ floodOn queueId port nbDevices accepts ↔
      device ∈ acceptingDevices port nbDevices accepts ∧ queue = queueId := by
  have attempt : .txBurst device queue true ∈ attempts queueId port nbDevices accepts ↔
      device ∈ acceptingDevices port nbDevices accepts ∧ queue = queueId := by
    rw [mem_acceptingDevices]
    unfold attempts
    constructor
    · intro member
      obtain ⟨other, present, same⟩ := List.mem_map.mp member
      injection same with sameDevice sameQueue accepted
      subst sameDevice
      exact ⟨⟨present, accepted⟩, sameQueue.symm⟩
    · rintro ⟨⟨present, accepted⟩, rfl⟩
      exact List.mem_map.mpr ⟨device, present, by rw [accepted]⟩
  rw [floodOn_eq, ← attempt]
  split
  · simp
  · simp

theorem isOwn_of_mem_floodOn
    (member : action ∈ floodOn queueId port nbDevices accepts) :
    action.isOwn := by
  cases action with
  | release device =>
      rw [floodOn_eq] at member
      unfold attempts at member
      split at member
      · simp at member
      · simp at member
  | _ => rfl

/-! ## Runs -/

variable (counter : Counter σ limit)

theorem runActions_cons
    (action : Action)
    (actions : List Action)
    (state : σ) :
    runActions counter (action :: actions) state =
      runActions counter actions (action.exec counter state) :=
  rfl

theorem runActions_append
    (before after : List Action)
    (state : σ) :
    runActions counter (before ++ after) state =
      runActions counter after (runActions counter before state) :=
  List.foldl_append

theorem runActions_of_attempts
    (attempted : ∀ action ∈ actions, action.isOwn →
      ∃ device queueId accepted, action = .txBurst device queueId accepted)
    (state : σ) :
    runActions counter actions state =
      counter.drop^[actions.countP fun action => !action.isOwn] state := by
  induction actions generalizing state with
  | nil => rfl
  | cons action actions ih =>
      have rest := ih fun other member =>
        attempted other (List.mem_cons_of_mem _ member)
      rw [runActions_cons, rest]
      cases own : action.isOwn with
      | false =>
          rw [List.countP_cons_of_pos (by simp [own]), Function.iterate_succ_apply]
          cases action with
          | release device => rfl
          | _ => cases own
      | true =>
          obtain ⟨device, queueId, accepted, rfl⟩ := attempted action List.mem_cons_self own
          rw [List.countP_cons_of_neg (by simp [own])]
          rfl

theorem runActions_attempts (state : σ) :
    runActions counter (attempts queueId port nbDevices accepts) state =
      state := by
  have quiet : ∀ action ∈ attempts queueId port nbDevices accepts,
      ∃ device queueId accepted, action = .txBurst device queueId accepted := by
    intro action member
    unfold attempts at member
    obtain ⟨device, _, rfl⟩ := List.mem_map.mp member
    exact ⟨_, _, _, rfl⟩
  have none : (attempts queueId port nbDevices accepts).countP
      (fun action => !action.isOwn) = 0 := by
    apply List.countP_eq_zero.mpr
    intro action member
    obtain ⟨_, _, _, rfl⟩ := quiet action member
    exact Bool.false_ne_true
  rw [runActions_of_attempts counter (fun action member _ => quiet action member), none]
  rfl

/-! ## Releases in a schedule -/

namespace Schedule

variable {calls trace : List Action}

theorem mem_calls
    (schedule : Schedule calls trace)
    (member : action ∈ trace)
    (own : action.isOwn) :
    action ∈ calls := by
  rw [← schedule.own]
  exact List.mem_filter.mpr ⟨member, own⟩

theorem accepted_of_release
    (schedule : Schedule calls trace)
    (member : .release device ∈ trace) :
    ∃ queueId, .txBurst device queueId true ∈ calls := by
  obtain ⟨before, after, split⟩ := List.append_of_mem member
  obtain ⟨queueId, accepted⟩ := schedule.later before device after split
  refine ⟨queueId, schedule.mem_calls ?_ rfl⟩
  rw [split]
  exact List.mem_append_left _ accepted

theorem countP_release
    (schedule : Schedule (floodOn queueId port nbDevices accepts) trace) :
    (trace.countP fun action => !action.isOwn) =
      (acceptingDevices port nbDevices accepts).length := by
  have released : (trace.filter fun action => !action.isOwn).Perm
      ((acceptingDevices port nbDevices accepts).map .release) := by
    apply List.perm_iff_count.mpr
    intro action
    cases action with
    | release device =>
        rw [List.count_filter rfl,
          List.count_map_of_injective _ _ fun first second same => by injection same]
        by_cases accepting : device ∈ acceptingDevices port nbDevices accepts
        · rw [List.count_eq_one_of_mem nodup_acceptingDevices accepting]
          exact schedule.once device queueId (txBurst_mem_floodOn_iff.mpr ⟨accepting, rfl⟩)
        · rw [List.count_eq_zero_of_not_mem accepting]
          apply List.count_eq_zero_of_not_mem
          intro member
          obtain ⟨queue, accepted⟩ := schedule.accepted_of_release member
          exact accepting (txBurst_mem_floodOn_iff.mp accepted).1
    | _ =>
        rw [List.count_eq_zero_of_not_mem (by simp [Action.isOwn]),
          List.count_eq_zero_of_not_mem (by simp)]
  rw [List.countP_eq_length_filter, released.length_eq, List.length_map]

theorem exists_eq_cons (schedule : Schedule (first :: calls) trace) :
    ∃ rest, trace = first :: rest ∧ rest.filter Action.isOwn = calls := by
  have own := schedule.own
  cases trace with
  | nil => cases own
  | cons action rest =>
      cases isOwn : action.isOwn with
      | false =>
          -- Before any call there is nothing to release.
          cases action with
          | release device =>
              obtain ⟨queueId, accepted⟩ := schedule.later [] device rest rfl
              cases accepted
          | _ => cases isOwn
      | true =>
          rw [List.filter_cons_of_pos isOwn] at own
          injection own with same others
          exact ⟨rest, by rw [same], others⟩

end Schedule

theorem schedule_releases_last :
    Schedule (floodOn queueId port nbDevices accepts)
      (floodOn queueId port nbDevices accepts ++
        (acceptingDevices port nbDevices accepts).map .release) where
  own := by
    rw [List.filter_append, List.filter_eq_self.mpr fun action =>
      isOwn_of_mem_floodOn, List.filter_eq_nil_iff.mpr, List.append_nil]
    intro action member
    obtain ⟨device, _, rfl⟩ := List.mem_map.mp member
    exact Bool.false_ne_true
  once := by
    intro device queue accepted
    have accepting := (txBurst_mem_floodOn_iff.mp accepted).1
    rw [List.count_append, List.count_eq_zero_of_not_mem, Nat.zero_add,
      List.count_map_of_injective _ _ fun first second same => by injection same]
    · exact List.count_eq_one_of_mem nodup_acceptingDevices accepting
    · intro member
      exact Bool.false_ne_true (isOwn_of_mem_floodOn member)
  later := by
    intro before device after split
    have released : .release device ∈ floodOn queueId port nbDevices accepts ++
        (acceptingDevices port nbDevices accepts).map .release := by
      rw [split]
      exact List.mem_append_right _ List.mem_cons_self
    have accepting : device ∈ acceptingDevices port nbDevices accepts := by
      rcases List.mem_append.mp released with own | member
      · exact absurd (isOwn_of_mem_floodOn own) Bool.false_ne_true
      · simpa using member
    refine ⟨queueId, ?_⟩
    rcases List.append_eq_append_iff.mp split with ⟨more, same, _⟩ | ⟨more, same, rest⟩
    · rw [same]
      exact List.mem_append_left _ (txBurst_mem_floodOn_iff.mpr ⟨accepting, rfl⟩)
    · cases more with
      | nil =>
          rw [List.append_nil] at same
          rw [← same]
          exact txBurst_mem_floodOn_iff.mpr ⟨accepting, rfl⟩
      | cons action more =>
          injection rest with sameAction
          have own : action ∈ floodOn queueId port nbDevices accepts := by
            rw [same]
            exact List.mem_append_right _ List.mem_cons_self
          rw [← sameAction] at own
          exact absurd (isOwn_of_mem_floodOn own) Bool.false_ne_true

/-! ## The four cases -/

section Cases

variable {counter : Counter σ (2 ^ 16)} {state : σ}

theorem returned_floodOn
    (refused : (acceptingDevices port nbDevices accepts).length + 1 ≠
      nbDevices) :
    counter.returned
        (runActions counter (floodOn queueId port nbDevices accepts) state) =
      counter.returned state + 1 := by
  rw [floodOn_eq, if_pos (by omega), List.cons_append, runActions_cons, runActions_append,
    runActions_attempts]
  change counter.returned (counter.drop (counter.set 1
    (counter.set (toUint16 (nbDevices - 1)) state))) = _
  rw [counter.returned_drop_last _ (counter.count_set _ (by decide)), counter.returned_set,
    counter.returned_set]

theorem countsRight_of_none
    (several : nbDevices ≠ 1)
    (none : (acceptingDevices port nbDevices accepts).length = 0) :
    CountsRight counter (floodOn queueId port nbDevices accepts) state := by
  intro trace schedule
  have noRelease := schedule.countP_release.trans none
  have noReleaseMem : ∀ device, Action.release device ∉ trace := by
    intro device member
    exact List.countP_eq_zero.mp noRelease _ member rfl
  have same : trace = floodOn queueId port nbDevices accepts := by
    rw [← schedule.own, eq_comm, List.filter_eq_self]
    intro action member
    have notRelease := List.countP_eq_zero.mp noRelease action member
    simpa using notRelease
  refine ⟨?_, ?_, ?_⟩
  · rw [same]
    exact returned_floodOn (by omega)
  · intro before after device split member
    refine absurd ?_ (noReleaseMem device)
    rw [split]
    exact List.mem_append_right _ member
  · intro _
    rw [same, floodOn_eq, if_pos (by omega)]
    simp

theorem returned_of_attempts
    (attempted : ∀ action ∈ rest, action.isOwn →
      ∃ device queueId accepted, action = .txBurst device queueId accepted)
    (references : 0 < counter.count state)
    (releases : (rest.countP fun action => !action.isOwn) =
      counter.count state) :
    counter.returned (runActions counter rest state) =
        counter.returned state + 1 ∧
      ∀ before after device, rest = before ++ after → .release device ∈ after →
        counter.returned (runActions counter before state) =
          counter.returned state := by
  constructor
  · rw [runActions_of_attempts counter attempted, releases]
    exact counter.returned_iterate_drop_count references
  · intro before after device split member
    have pending : 0 < after.countP fun action => !action.isOwn :=
      List.countP_pos_iff.mpr ⟨_, member, rfl⟩
    rw [split, List.countP_append] at releases
    rw [runActions_of_attempts counter fun action present =>
      attempted action (by rw [split]; exact List.mem_append_left _ present)]
    exact (counter.iterate_drop_of_lt (by omega)).2

theorem countsRight_of_all
    (bounded : nbDevices < 2 ^ 16)
    (positive : 0 < (acceptingDevices port nbDevices accepts).length)
    (all : (acceptingDevices port nbDevices accepts).length + 1 = nbDevices) :
    CountsRight counter (floodOn queueId port nbDevices accepts) state := by
  intro trace schedule
  have releases := schedule.countP_release
  have calls : floodOn queueId port nbDevices accepts =
      .refcntSet (toUint16 (nbDevices - 1)) :: attempts queueId port nbDevices accepts := by
    rw [floodOn_eq, if_neg (by omega)]
  have accepted : ∃ device, .txBurst device queueId true ∈ trace := by
    obtain ⟨device, member⟩ := List.exists_mem_of_length_pos positive
    have call : .txBurst device queueId true ∈ floodOn queueId port nbDevices accepts :=
      txBurst_mem_floodOn_iff.mpr ⟨member, rfl⟩
    rw [← schedule.own] at call
    exact ⟨device, List.mem_of_mem_filter call⟩
  have value : toUint16 (nbDevices - 1) = (acceptingDevices port nbDevices accepts).length := by
    unfold toUint16
    omega
  rw [calls] at schedule
  obtain ⟨rest, rfl, own⟩ := schedule.exists_eq_cons
  have attempted : ∀ action ∈ rest, action.isOwn →
      ∃ device queueId accepted, action = .txBurst device queueId accepted := by
    intro action member isOwn
    have call : action ∈ attempts queueId port nbDevices accepts := by
      rw [← own]
      exact List.mem_filter.mpr ⟨member, isOwn⟩
    obtain ⟨device, _, rfl⟩ := List.mem_map.mp call
    exact ⟨_, _, _, rfl⟩
  have count := counter.count_set state (n := toUint16 (nbDevices - 1)) (by omega)
  rw [List.countP_cons_of_neg (by simp [Action.isOwn])] at releases
  have references : 0 < counter.count (counter.set (toUint16 (nbDevices - 1)) state) := by
    rw [count, value]
    exact positive
  obtain ⟨once, afterLast⟩ := returned_of_attempts attempted references
    (by rw [count, value]; exact releases)
  rw [counter.returned_set] at once afterLast
  refine ⟨once, ?_, ?_⟩
  · intro before after device split member
    cases before with
    | nil => rfl
    | cons first before =>
        injection split with sameFirst sameRest
        subst sameFirst
        exact afterLast before after device sameRest member
  · intro unaccepted
    obtain ⟨device, member⟩ := accepted
    exact absurd member (unaccepted device queueId)

theorem not_countsRight_of_some
    (positive : 0 < (acceptingDevices port nbDevices accepts).length)
    (refused : (acceptingDevices port nbDevices accepts).length + 1 ≠
      nbDevices) :
    ¬CountsRight counter (floodOn queueId port nbDevices accepts) state := by
  intro right
  obtain ⟨device, member⟩ := List.exists_mem_of_length_pos positive
  have early := (right _ schedule_releases_last).afterLast _ _ device rfl
    (List.mem_map_of_mem member)
  rw [returned_floodOn refused] at early
  omega

theorem not_countsRight_of_single
    (none : (acceptingDevices port 1 accepts).length = 0) :
    ¬CountsRight counter (floodOn queueId port 1 accepts) state := by
  intro right
  have once := (right _ schedule_releases_last).once
  rw [List.eq_nil_of_length_eq_zero none, List.map_nil, List.append_nil,
    floodOn_eq, if_neg (by omega), runActions_cons, runActions_attempts] at once
  change counter.returned (counter.set _ state) = _ at once
  rw [counter.returned_set] at once
  omega

end Cases

/-- The reference count of a flooded buffer is right exactly if there is not
just one device, and either none of the other devices takes the buffer or as
many as the count was set to. -/
theorem flood_counts_right_iff
    (counter : Counter σ (2 ^ 16))
    (queueId port nbDevices : ℕ)
    (bounded : nbDevices < 2 ^ 16)
    (accepts : ℕ → Bool)
    (state : σ) :
    (CountsRight counter (flood port nbDevices accepts) state ↔
      nbDevices ≠ 1 ∧ ((acceptingDevices port nbDevices accepts).length = 0 ∨
        (acceptingDevices port nbDevices accepts).length + 1 = nbDevices)) ∧
    (CountsRight counter (floodLocks queueId port nbDevices accepts) state ↔
      nbDevices ≠ 1 ∧ ((acceptingDevices port nbDevices accepts).length = 0 ∨
        (acceptingDevices port nbDevices accepts).length + 1 = nbDevices)) := by
  have both : ∀ queueId, CountsRight counter (floodOn queueId port nbDevices accepts) state ↔
      nbDevices ≠ 1 ∧ ((acceptingDevices port nbDevices accepts).length = 0 ∨
        (acceptingDevices port nbDevices accepts).length + 1 = nbDevices) := by
    intro queueId
    constructor
    · intro right
      by_contra wrong
      by_cases none : (acceptingDevices port nbDevices accepts).length = 0
      · obtain rfl : nbDevices = 1 := by omega
        exact not_countsRight_of_single none right
      · exact not_countsRight_of_some (Nat.pos_of_ne_zero none) (by omega) right
    · rintro ⟨several, none | all⟩
      · exact countsRight_of_none several none
      · exact countsRight_of_all bounded (by omega) all
  exact ⟨both 0, both queueId⟩

/-- A count and the number of returns.  A buffer in the pool has the count
one. -/
def pairCounter : Counter (ℕ × ℕ) (2 ^ 16) where
  count := Prod.fst
  returned := Prod.snd
  set value state := (value, state.2)
  drop state := if state.1 = 1 then (1, state.2 + 1) else (state.1 - 1, state.2)
  count_set _ _ := rfl
  returned_set _ _ := rfl
  returned_drop_last state last := by rw [if_pos last]
  count_drop state more := by rw [if_neg (Nat.ne_of_gt more)]
  returned_drop state more := by rw [if_neg (Nat.ne_of_gt more)]

/-- Both other devices of three take the buffer. -/
theorem flood_counts_right_all :
    CountsRight pairCounter (flood 0 3 fun _ => true) (1, 0) ∧
      CountsRight pairCounter (floodLocks 7 0 3 fun _ => true) (1, 0) :=
  have right := flood_counts_right_iff pairCounter 7 0 3 (by decide) (fun _ => true) (1, 0)
  ⟨right.1.mpr ⟨by decide, .inr (by decide)⟩, right.2.mpr ⟨by decide, .inr (by decide)⟩⟩

/-- One of two other devices takes the buffer: it goes back at once, and again
when that device releases it. -/
theorem flood_returns_buffer_in_use :
    ¬CountsRight pairCounter (flood 0 3 fun device => device = 1) (1, 0) ∧
      ¬CountsRight pairCounter (floodLocks 7 0 3 fun device => device = 1)
        (1, 0) ∧
      runActions pairCounter (flood 0 3 fun device => device = 1) (1, 0) =
        (1, 1) ∧
      runActions pairCounter
          ((flood 0 3 fun device => device = 1) ++ [.release 1]) (1, 0) =
        (1, 2) :=
  ⟨not_countsRight_of_some (by decide) (by decide),
    not_countsRight_of_some (by decide) (by decide), by decide, by decide⟩

theorem floodOn_two_devices
    (counter : Counter σ (2 ^ 16))
    (queueId : ℕ)
    (isDevice : port < 2)
    (accepts : ℕ → Bool)
    (state : σ) :
    CountsRight counter (floodOn queueId port 2 accepts) state := by
  have few : (acceptingDevices port 2 accepts).length ≤ 1 := by
    apply Nat.le_trans (List.length_filter_le _ _)
    obtain rfl | rfl : port = 0 ∨ port = 1 := by omega
    · decide
    · decide
  by_cases none : (acceptingDevices port 2 accepts).length = 0
  · exact countsRight_of_none (by decide) none
  · exact countsRight_of_all (by decide) (Nat.pos_of_ne_zero none) (by omega)

end Nf
end Vigor
