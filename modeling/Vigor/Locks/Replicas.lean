import Vigor.IndexTable

/-!
# Abstract state of the lock-based chain

What the replicas of all cores amount to: one list of free indexes, and for each
core the indexes that it used itself, with the times of these uses.  In which
order a core has linked the allocated indexes does not matter.
-/

namespace Vigor

open DoubleChain Function

/-- Free indexes, next to be allocated first, and for each core its active
indexes, oldest first, and its times. -/
structure Replicas (cores : ℕ) where
  free : List ℤ
  active : Fin cores → List ℤ
  time : Fin cores → ℤ → ℤ
  freeNodup : free.Nodup
  activeNodup : ∀ core, (active core).Nodup
  /-- An active index is not free. -/
  notFree : ∀ core, ∀ index ∈ active core, index ∉ free

namespace Replicas

variable {cores : ℕ}

/-- Everything is free. -/
def initial
    (range : ℕ)
    (time : Fin cores → ℤ → ℤ) : Replicas cores where
  free := (Allocator.initial range).free
  active _ := []
  time := time
  freeNodup := (List.nodup_append.mp (Allocator.initial range).nodup).2.1
  activeNodup _ := List.nodup_nil
  notFree := by simp

/-- Use an index on one core. -/
def touch
    (core : Fin cores)
    (index : ℤ)
    (replicas : Replicas cores) : Fin cores → List ℤ :=
  update replicas.active core
    ((replicas.active core).erase index ++ [index])

theorem mem_touch_iff {replicas : Replicas cores} :
    candidate ∈ replicas.touch core index other ↔
      candidate ∈ replicas.active other ∨ other = core ∧ candidate = index := by
  rw [touch]
  by_cases same : other = core
  · subst same
    rw [update_self, List.mem_append, List.mem_singleton,
      (replicas.activeNodup other).mem_erase_iff]
    by_cases equal : candidate = index <;> simp [equal]
  · simp [same]

theorem nodup_touch
    (core : Fin cores)
    (index : ℤ)
    (replicas : Replicas cores)
    (other : Fin cores) :
    (replicas.touch core index other).Nodup := by
  rw [touch]
  by_cases same : other = core
  · subst same
    have nodup := replicas.activeNodup other
    rw [update_self]
    refine (List.perm_append_singleton index _).nodup_iff.mpr ?_
    rw [List.nodup_cons, nodup.mem_erase_iff]
    exact ⟨fun both => both.1 rfl, nodup.erase index⟩
  · rw [update_of_ne same]
    exact replicas.activeNodup other

/-- Hand out the first free index, which becomes active on the calling core; its
time is set on all cores. -/
def allocate
    (core : Fin cores)
    (time : ℤ)
    (replicas : Replicas cores) :
    Option ℤ × Replicas cores :=
  match shape : replicas.free with
  | [] => (none, replicas)
  | index :: rest =>
      have nodup : (index :: rest).Nodup := shape ▸ replicas.freeNodup
      (some index,
        { free := rest
          active := replicas.touch core index
          time := fun other =>
            update (replicas.time other) index time
          freeNodup := (List.nodup_cons.mp nodup).2
          activeNodup := replicas.nodup_touch core index
          notFree := by
            intro other candidate member
            rcases mem_touch_iff.mp member with old | ⟨_, rfl⟩
            · have notFree := replicas.notFree other candidate old
              rw [shape] at notFree
              exact fun inRest => notFree (List.mem_cons_of_mem _ inRest)
            · exact (List.nodup_cons.mp nodup).1 })

/-- Use an allocated index on the calling core. -/
def rejuvenate
    (core : Fin cores)
    (index time : ℤ)
    (replicas : Replicas cores) : Bool × Replicas cores :=
  if isFree : index ∈ replicas.free then (false, replicas)
  else
    (true,
      { free := replicas.free
        active := replicas.touch core index
        time := update replicas.time core
          (update (replicas.time core) index time)
        freeNodup := replicas.freeNodup
        activeNodup := replicas.nodup_touch core index
        notFree := by
          intro other candidate member
          rcases mem_touch_iff.mp member with old | ⟨_, rfl⟩
          · exact replicas.notFree other candidate old
          · exact isFree })

/-- Times after a release. -/
def reset
    (index : ℤ)
    (replicas : Replicas cores) : Fin cores → ℤ → ℤ :=
  fun core => update (replicas.time core) index (-1)

/-- Release an index on all cores. -/
def release
    (index : ℤ)
    (replicas : Replicas cores) : Bool × Replicas cores :=
  if isFree : index ∈ replicas.free then
    (false, { replicas with time := replicas.reset index })
  else
    (true,
      { free := index :: replicas.free
        active := fun core => (replicas.active core).erase index
        time := replicas.reset index
        freeNodup := List.nodup_cons.mpr ⟨isFree, replicas.freeNodup⟩
        activeNodup := fun core => (replicas.activeNodup core).erase index
        notFree := by
          intro core candidate member
          obtain ⟨different, old⟩ :=
            (replicas.activeNodup core).mem_erase_iff.mp member
          rw [List.mem_cons, not_or]
          exact ⟨different, replicas.notFree core candidate old⟩ })

/-- The calling core has an oldest index, whose time is before the given one. -/
def oldest
    (core : Fin cores)
    (time : ℤ)
    (replicas : Replicas cores) :
    Option ℤ :=
  (replicas.active core).head?.filter fun index =>
    -1 < replicas.time core index ∧ replicas.time core index < time

/-- Some core used the index at the given time or later. -/
def Refreshed
    (index time : ℤ)
    (replicas : Replicas cores) : Prop :=
  ∃ core, time ≤ replicas.time core index

instance (index time : ℤ) (replicas : Replicas cores) :
    Decidable (replicas.Refreshed index time) :=
  inferInstanceAs (Decidable (∃ core, time ≤ replicas.time core index))

/-- Report the oldest index of the calling core if it is old for this core, and
release it unless another core refreshed it. -/
def expireOne
    (core : Fin cores)
    (time : ℤ)
    (replicas : Replicas cores) :
    Option ℤ × Replicas cores :=
  match replicas.oldest core time with
  | none => (none, replicas)
  | some index =>
      if replicas.Refreshed index time then (some index, replicas)
      else (some index, (replicas.release index).2)

/-! ## Results of the operations -/

variable {replicas : Replicas cores}

theorem allocate_of_nil
    (full : replicas.free = [])
    (core : Fin cores)
    (time : ℤ) :
    replicas.allocate core time = (none, replicas) := by
  unfold allocate
  split
  · rfl
  · rename_i shape
    simp [full] at shape

variable {index : ℤ}

theorem allocate_of_cons
    (available : replicas.free = index :: rest)
    (core : Fin cores)
    (time : ℤ) :
    (replicas.allocate core time).1 = some index ∧
      (replicas.allocate core time).2.free = rest ∧
      (replicas.allocate core time).2.active = replicas.touch core index ∧
      (replicas.allocate core time).2.time =
        fun other => update (replicas.time other) index time := by
  unfold allocate
  split
  · rename_i shape
    simp [available] at shape
  · rename_i first others shape
    rw [available] at shape
    obtain ⟨rfl, rfl⟩ := List.cons.inj shape
    exact ⟨rfl, rfl, rfl, rfl⟩

theorem rejuvenate_of_free
    (isFree : index ∈ replicas.free)
    (core : Fin cores)
    (time : ℤ) :
    replicas.rejuvenate core index time = (false, replicas) := by
  rw [rejuvenate, dif_pos isFree]

theorem rejuvenate_of_allocated
    (allocated : index ∉ replicas.free)
    (core : Fin cores)
    (time : ℤ) :
    (replicas.rejuvenate core index time).1 = true ∧
      (replicas.rejuvenate core index time).2.free = replicas.free ∧
      (replicas.rejuvenate core index time).2.active =
        replicas.touch core index ∧
      (replicas.rejuvenate core index time).2.time =
        update replicas.time core (update (replicas.time core) index time) := by
  rw [rejuvenate, dif_neg allocated]
  exact ⟨rfl, rfl, rfl, rfl⟩

theorem release_of_free (isFree : index ∈ replicas.free) :
    replicas.release index =
      (false, { replicas with time := replicas.reset index }) := by
  rw [release, dif_pos isFree]

theorem release_of_allocated (allocated : index ∉ replicas.free) :
    (replicas.release index).1 = true ∧
      (replicas.release index).2.free = index :: replicas.free ∧
      (replicas.release index).2.active =
        (fun core => (replicas.active core).erase index) ∧
      (replicas.release index).2.time = replicas.reset index := by
  rw [release, dif_neg allocated]
  exact ⟨rfl, rfl, rfl, rfl⟩

theorem oldest_eq_some_iff {time index : ℤ} :
    replicas.oldest core time = some index ↔
      (∃ younger, replicas.active core = index :: younger) ∧
        -1 < replicas.time core index ∧ replicas.time core index < time := by
  simp only [oldest, Option.filter_eq_some_iff, List.head?_eq_some_iff, decide_eq_true_iff]

/-- The time of every active index on its core has a property. -/
def Stamps
    (property : ℤ → Prop)
    (replicas : Replicas cores) : Prop :=
  ∀ core, ∀ index ∈ replicas.active core,
    property (replicas.time core index)

namespace Stamps

variable {property : ℤ → Prop} {replicas : Replicas cores}

theorem initial
    (range : ℕ)
    (time : Fin cores → ℤ → ℤ) :
    Stamps property (Replicas.initial range time) := by
  intro core index member
  simp [Replicas.initial] at member

section

variable (stamps : Stamps property replicas)

include stamps

theorem allocate
    {time : ℤ}
    (holds : property time)
    (core : Fin cores) :
    Stamps property (replicas.allocate core time).2 := by
  cases shape : replicas.free with
  | nil =>
      rw [allocate_of_nil shape]
      exact stamps
  | cons index rest =>
      obtain ⟨_, _, newActive, newTime⟩ := allocate_of_cons shape core time
      intro other candidate member
      rw [newActive, mem_touch_iff] at member
      simp only [newTime]
      by_cases same : candidate = index
      · rw [same, update_self]
        exact holds
      · rw [update_of_ne same]
        exact stamps other candidate (member.resolve_right fun both => same both.2)

theorem rejuvenate
    {time : ℤ}
    (holds : property time)
    (core : Fin cores)
    (index : ℤ) :
    Stamps property (replicas.rejuvenate core index time).2 := by
  by_cases isFree : index ∈ replicas.free
  · rw [rejuvenate_of_free isFree]
    exact stamps
  · obtain ⟨_, _, newActive, newTime⟩ :=
      rejuvenate_of_allocated isFree core time
    intro other candidate member
    rw [newActive, mem_touch_iff] at member
    rw [newTime]
    by_cases here : other = core ∧ candidate = index
    · rw [here.1, here.2, update_self, update_self]
      exact holds
    · have old := stamps other candidate (member.resolve_right here)
      by_cases same : other = core
      · subst same
        rw [update_self, update_of_ne fun equal => here ⟨rfl, equal⟩]
        exact old
      · rw [update_of_ne same]
        exact old

theorem release
    (index : ℤ) :
    Stamps property (replicas.release index).2 := by
  have kept : ∀ core, ∀ candidate ∈ replicas.active core,
      candidate ≠ index → property (replicas.reset index core candidate) := by
    intro core candidate member different
    rw [reset, update_of_ne different]
    exact stamps core candidate member
  by_cases isFree : index ∈ replicas.free
  · rw [release_of_free isFree]
    intro core candidate member
    refine kept core candidate member ?_
    rintro rfl
    exact replicas.notFree core candidate member isFree
  · obtain ⟨_, _, newActive, newTime⟩ := release_of_allocated isFree
    intro core candidate member
    rw [newActive] at member
    rw [newTime]
    obtain ⟨different, old⟩ :=
      (replicas.activeNodup core).mem_erase_iff.mp member
    exact kept core candidate old different

theorem expireOne
    (core : Fin cores)
    (time : ℤ) :
    Stamps property (replicas.expireOne core time).2 := by
  rw [Replicas.expireOne]
  split
  · exact stamps
  · split
    · exact stamps
    · exact stamps.release _

end

end Stamps

/-- Every active index has a time on its core. -/
def Stamped (replicas : Replicas cores) : Prop :=
  Stamps (0 ≤ ·) replicas

/-- With times on all active indexes, only the given time decides whether the
oldest index is old. -/
theorem Stamped.oldest_eq_some_iff
    (stamped : replicas.Stamped)
    {time index : ℤ} :
    replicas.oldest core time = some index ↔
      (replicas.active core).head? = some index ∧
        replicas.time core index < time := by
  rw [Replicas.oldest_eq_some_iff, List.head?_eq_some_iff]
  constructor
  · rintro ⟨shape, _, old⟩
    exact ⟨shape, old⟩
  · rintro ⟨⟨younger, shape⟩, old⟩
    have nonnegative := stamped core index (by simp [shape])
    exact ⟨⟨younger, shape⟩, by omega, old⟩

/-! ## Order -/

/-- Each core's active indexes are in the order of its times. -/
def Sorted (replicas : Replicas cores) : Prop :=
  ∀ core, (replicas.active core).Pairwise fun first second =>
    replicas.time core first ≤ replicas.time core second

namespace Sorted

variable {replicas : Replicas cores}

theorem initial
    (range : ℕ)
    (time : Fin cores → ℤ → ℤ) :
    (Replicas.initial range time).Sorted :=
  fun _ => List.Pairwise.nil

section

variable (sorted : replicas.Sorted)

include sorted

theorem touch
    {time : ℤ}
    (bounded : ∀ index ∈ replicas.active core, replicas.time core index ≤ time)
    (index : ℤ) :
    (replicas.touch core index core).Pairwise fun first second =>
      update (replicas.time core) index time first ≤
        update (replicas.time core) index time second := by
  rw [Replicas.touch, update_self]
  apply IndexTable.pairwise_update ((sorted core).sublist List.erase_sublist)
  · intro other member
    exact bounded other (List.mem_of_mem_erase member)
  · exact (replicas.activeNodup core).not_mem_erase

theorem update_of_not_mem
    (notActive : index ∉ replicas.active core)
    (time : ℤ) :
    (replicas.active core).Pairwise fun first second =>
      update (replicas.time core) index time first ≤
        update (replicas.time core) index time second := by
  refine List.Pairwise.imp_of_mem ?_ (sorted core)
  intro first second firstMember secondMember le
  rw [update_of_ne (ne_of_mem_of_not_mem firstMember notActive),
    update_of_ne (ne_of_mem_of_not_mem secondMember notActive)]
  exact le

theorem allocate
    {time : ℤ}
    (bounded : Stamps (· ≤ time) replicas)
    (core : Fin cores) :
    (replicas.allocate core time).2.Sorted := by
  cases shape : replicas.free with
  | nil =>
      rw [allocate_of_nil shape]
      exact sorted
  | cons index rest =>
      obtain ⟨_, _, newActive, newTime⟩ := allocate_of_cons shape core time
      intro other
      rw [newActive, newTime]
      by_cases same : other = core
      · subst same
        exact sorted.touch (bounded other) index
      · rw [Replicas.touch, update_of_ne same]
        refine sorted.update_of_not_mem ?_ time
        intro member
        exact replicas.notFree other index member (by simp [shape])

theorem rejuvenate
    {time : ℤ}
    (bounded : Stamps (· ≤ time) replicas)
    (core : Fin cores)
    (index : ℤ) :
    (replicas.rejuvenate core index time).2.Sorted := by
  by_cases isFree : index ∈ replicas.free
  · rw [rejuvenate_of_free isFree]
    exact sorted
  · obtain ⟨_, _, newActive, newTime⟩ :=
      rejuvenate_of_allocated isFree core time
    intro other
    rw [newActive, newTime]
    by_cases same : other = core
    · subst same
      rw [update_self]
      exact sorted.touch (bounded other) index
    · rw [Replicas.touch, update_of_ne same, update_of_ne same]
      exact sorted other

theorem release
    (index : ℤ) :
    (replicas.release index).2.Sorted := by
  by_cases isFree : index ∈ replicas.free
  · rw [release_of_free isFree]
    intro core
    refine sorted.update_of_not_mem ?_ (-1)
    intro member
    exact replicas.notFree core index member isFree
  · obtain ⟨_, _, newActive, newTime⟩ := release_of_allocated isFree
    intro core
    rw [newActive, newTime]
    refine List.Pairwise.imp_of_mem ?_ ((sorted core).sublist List.erase_sublist)
    intro first second firstMember secondMember le
    have fresh := (replicas.activeNodup core).not_mem_erase (a := index)
    simp only [reset]
    rw [update_of_ne (ne_of_mem_of_not_mem firstMember fresh),
      update_of_ne (ne_of_mem_of_not_mem secondMember fresh)]
    exact le

end

end Sorted

/-- Times are nonnegative, not after the given time, and in order. -/
structure Timed (now : ℤ) (replicas : Replicas cores) : Prop where
  sorted : replicas.Sorted
  stamped : replicas.Stamped
  bounded : Stamps (· ≤ now) replicas

namespace Timed

variable {now : ℤ} {replicas : Replicas cores}

theorem initial
    (now : ℤ)
    (range : ℕ)
    (time : Fin cores → ℤ → ℤ) :
    Timed now (Replicas.initial range time) :=
  ⟨Sorted.initial range time, Stamps.initial range time, Stamps.initial range time⟩

section

variable (timed : Timed now replicas)

include timed

theorem mono (le : now ≤ later) : Timed later replicas :=
  ⟨timed.sorted, timed.stamped,
    fun core index member => Int.le_trans (timed.bounded core index member) le⟩

theorem allocate
    (nonnegative : 0 ≤ now)
    (core : Fin cores) :
    Timed now (replicas.allocate core now).2 :=
  ⟨timed.sorted.allocate timed.bounded core,
    Stamps.allocate timed.stamped nonnegative core,
    timed.bounded.allocate (Int.le_refl now) core⟩

theorem rejuvenate
    (nonnegative : 0 ≤ now)
    (core : Fin cores)
    (index : ℤ) :
    Timed now (replicas.rejuvenate core index now).2 :=
  ⟨timed.sorted.rejuvenate timed.bounded core index,
    Stamps.rejuvenate timed.stamped nonnegative core index,
    timed.bounded.rejuvenate (Int.le_refl now) core index⟩

theorem release (index : ℤ) : Timed now (replicas.release index).2 :=
  ⟨timed.sorted.release index, Stamps.release timed.stamped index, timed.bounded.release index⟩

/-- A list with an old index starts with one. -/
theorem exists_oldest
    {index time : ℤ}
    (active : index ∈ replicas.active core)
    (old : replicas.time core index < time) :
    ∃ first, replicas.oldest core time = some first := by
  cases shape : replicas.active core with
  | nil => simp [shape] at active
  | cons first younger =>
      refine ⟨first, timed.stamped.oldest_eq_some_iff.mpr ⟨by simp [shape], ?_⟩⟩
      have sorted := timed.sorted core
      rw [shape, List.pairwise_cons] at sorted
      rw [shape] at active
      rcases List.mem_cons.mp active with same | later
      · exact same ▸ old
      · have := sorted.1 index later
        omega

end

end Timed

/-! ## Release of other indexes -/

variable {replicas : Replicas cores}

theorem time_release_of_ne
    (different : other ≠ index)
    (core : Fin cores) :
    (replicas.release index).2.time core other = replicas.time core other := by
  have reset : (replicas.release index).2.time = replicas.reset index := by
    rw [release]
    split <;> rfl
  rw [reset, Replicas.reset, update_of_ne different]

theorem refreshed_release_iff
    {index other time : ℤ}
    (different : other ≠ index) :
    (replicas.release index).2.Refreshed other time ↔
      replicas.Refreshed other time := by
  simp only [Refreshed, time_release_of_ne different]

theorem mem_active_release_iff (allocated : index ∉ replicas.free) :
    other ∈ (replicas.release index).2.active core ↔
      other ≠ index ∧ other ∈ replicas.active core := by
  rw [(release_of_allocated allocated).2.2.1]
  exact (replicas.activeNodup core).mem_erase_iff

/-- The core has an active index that is old for it and that some core
refreshed. -/
def Stuck
    (core : Fin cores)
    (time : ℤ)
    (replicas : Replicas cores) : Prop :=
  ∃ index ∈ replicas.active core,
    replicas.time core index < time ∧ replicas.Refreshed index time

/-- While a refreshed index is in its list, a core always has something to
report, and the refreshed index stays in the list. -/
theorem Stuck.expireOne
    {now time : ℤ}
    (stuck : replicas.Stuck core time)
    (timed : Timed now replicas) :
    (replicas.expireOne core time).1.isSome = true ∧
      (replicas.expireOne core time).2.Stuck core time ∧
      Timed now (replicas.expireOne core time).2 := by
  obtain ⟨index, active, old, refreshed⟩ := stuck
  obtain ⟨first, oldest⟩ := timed.exists_oldest active old
  have firstActive : first ∈ replicas.active core :=
    List.mem_of_head? (timed.stamped.oldest_eq_some_iff.mp oldest).1
  by_cases firstRefreshed : replicas.Refreshed first time
  · simp only [Replicas.expireOne, oldest, if_pos firstRefreshed]
    exact ⟨rfl, ⟨index, active, old, refreshed⟩, timed⟩
  · have different : index ≠ first := by
      rintro rfl
      exact firstRefreshed refreshed
    simp only [Replicas.expireOne, oldest, if_neg firstRefreshed]
    refine ⟨rfl, ⟨index, ?_, ?_, ?_⟩, timed.release first⟩
    · exact (mem_active_release_iff
        (replicas.notFree core first firstActive)).mpr ⟨different, active⟩
    · rwa [time_release_of_ne different]
    · exact (refreshed_release_iff different).mpr refreshed

end Replicas
end Vigor
