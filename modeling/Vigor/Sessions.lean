import Vigor.IndexTable

/-!
# Tables of entries seen from outside

Which flows are live is a matter of the packets that went by, not of indexes.
A list of sessions, computed from this history alone, shows the entries of a
table when each entry appears in it, and nothing else.  Expiry, use and addition
of an entry do to the list what the history says.
-/

namespace Vigor
namespace IndexTable

open Function

variable {capacity : ℕ} {V : Type u} {φ : Type v}

/-- The list holds the entries of the table, each as `present` shows its index,
value and time. -/
def Shows
    (present : ℤ → V → ℤ → φ)
    (table : IndexTable capacity V)
    (sessions : List φ) : Prop :=
  ∀ session, session ∈ sessions ↔
    ∃ index ∈ table.alloc,
      present index (table.value index) (table.time index) = session

namespace Shows

variable
  {present : ℤ → V → ℤ → φ}
  {table : IndexTable capacity V}
  {sessions : List φ}

theorem initial
    (value : ℤ → V)
    (time : ℤ → ℤ) :
    Shows present (IndexTable.initial capacity value time) [] := by
  intro session
  simp [IndexTable.initial, alloc, DoubleChain.Allocator.initial]

section

variable (shows : Shows present table sessions)

include shows

theorem expire
    (sorted : table.Sorted)
    (keeps : ∀ index value time,
      keep (present index value time) = decide (limit ≤ time)) :
    Shows present (table.expire limit) (sessions.filter keep) := by
  have outcome := sorted.expire_exact limit
  intro session
  rw [List.mem_filter, shows session, outcome.kept, outcome.values, outcome.times]
  constructor
  · rintro ⟨⟨index, inUse, rfl⟩, kept⟩
    rw [keeps] at kept
    exact ⟨index, List.mem_filter.mpr ⟨inUse, kept⟩, rfl⟩
  · rintro ⟨index, member, rfl⟩
    obtain ⟨inUse, fresh⟩ := List.mem_filter.mp member
    exact ⟨⟨index, inUse, rfl⟩, (keeps _ _ _).trans fresh⟩

theorem refresh
    (inUse : index ∈ table.alloc)
    (touches : ∀ other ∈ table.alloc,
      touch (present other (table.value other) (table.time other)) =
        present other (table.value other) (update table.time index now other)) :
    Shows present (table.refresh index now) (sessions.map touch) := by
  intro session
  rw [List.mem_map]
  constructor
  · rintro ⟨earlier, member, rfl⟩
    obtain ⟨other, otherInUse, rfl⟩ := (shows earlier).mp member
    exact ⟨other, (mem_alloc_refresh inUse).mpr otherInUse, (touches other otherInUse).symm⟩
  · rintro ⟨other, member, rfl⟩
    have otherInUse := (mem_alloc_refresh inUse).mp member
    exact ⟨_, (shows _).mpr ⟨other, otherInUse, rfl⟩, touches other otherInUse⟩

theorem map_eq_self
    (unchanged : ∀ index ∈ table.alloc,
      touch (present index (table.value index) (table.time index)) =
        present index (table.value index) (table.time index)) :
    sessions.map touch = sessions := by
  have same : ∀ session ∈ sessions, touch session = id session := by
    intro session member
    obtain ⟨index, inUse, rfl⟩ := (shows session).mp member
    exact unchanged index inUse
  rw [List.map_congr_left same, List.map_id]

theorem insert
    (available : table.allocator.free = index :: rest)
    (value : V)
    (now : ℤ) :
    Shows present (table.insert value now).2
      (sessions ++ [present index value now]) := by
  intro session
  rw [List.mem_append, List.mem_singleton, shows session,
    alloc_insert available, insert_of_cons available]
  constructor
  · rintro (⟨other, inUse, rfl⟩ | rfl)
    · have different := ne_of_available available inUse
      refine ⟨other, List.mem_append_left _ inUse, ?_⟩
      simp only [update_of_ne different]
    · refine ⟨index, by simp, ?_⟩
      simp only [update_self]
  · rintro ⟨other, member, rfl⟩
    rcases List.mem_append.mp member with inUse | new
    · have different := ne_of_available available inUse
      refine .inl ⟨other, inUse, ?_⟩
      simp only [update_of_ne different]
    · rw [List.mem_singleton.mp new]
      simp only [update_self, or_true]

end

end Shows

end IndexTable
end Vigor
