import Vigor.Sketch.FirstRow

/-!
# Indexes that the sketch uses

The indexes with which `sketch_refresh`, `sketch_fetch` and
`sketch_touch_buckets` address the chain or the buckets of a row, together with
the chain of the row at that time.  All rows search the same map, which only
holds indexes of the first row.  So the uses of the first row are right when the
hash value was found, and no use of another row is.
-/

namespace Vigor
namespace Sketch

open DoubleChain

/-- An index that is used in a row, and the chain of the row then. -/
structure Use where
  row : Fin sketchHashes
  bucketIndex : ℤ
  allocator : DoubleChain

/-- The index is in range and allocated. -/
def Use.Valid
    (capacity : ℕ)
    (use : Use) : Prop :=
  (0 ≤ use.bucketIndex ∧ use.bucketIndex < capacity) ∧
    dchainIsIndexAllocated use.allocator use.bucketIndex = true

instance (capacity : ℕ) (use : Use) : Decidable (use.Valid capacity) :=
  inferInstanceAs (Decidable (_ ∧ _))

section Recording

variable (build : Map.Build) (hashOps : Map.KeyOps ℕ)

/-- The uses in rounds of `sketch_refresh`: each round rejuvenates an index. -/
def refreshUses (now : ℤ) : List (Fin sketchHashes) → Sketch → List Use
  | [], _ => []
  | row :: rows, sketch =>
      ⟨row, (sketch.getClient build hashOps row).getD
          (sketch.internal.bucketsIndexes row), sketch.allocators row⟩ ::
        refreshUses now rows (refreshRound build hashOps now sketch row)

/-- The uses in rounds of `sketch_fetch`: each round reads a bucket if it has an
index. -/
def fetchUses : List (Fin sketchHashes) → Sketch × Option ℕ → List Use
  | [], _ => []
  | row :: rows, state =>
      ((state.1.getClient build hashOps row).toList.map fun bucketIndex =>
          ⟨row, bucketIndex, state.1.allocators row⟩) ++
        fetchUses rows (fetchRound build hashOps state row)

/-- The uses in one round of `sketch_touch_buckets`: a new index addresses a
bucket, and an old one is rejuvenated before. -/
def touchRoundUses
    (now : ℤ)
    (row : Fin sketchHashes)
    (sketch : Sketch) : List Use :=
  match sketch.getClient build hashOps row with
  | none =>
      match dchainAllocateNewIndex (sketch.allocators row) now with
      | (none, _) => []
      | (some bucketIndex, chain) => [⟨row, bucketIndex, chain⟩]
  | some bucketIndex =>
      [⟨row, bucketIndex, sketch.allocators row⟩,
        ⟨row, bucketIndex, (sketch.rejuvenate row bucketIndex now).allocators row⟩]

/-- The uses in rounds of `sketch_touch_buckets`, up to the one that returns. -/
def touchUses (now : ℤ) : List (Fin sketchHashes) → Sketch → List Use
  | [], _ => []
  | row :: rows, sketch =>
      touchRoundUses build hashOps now row sketch ++
        match touchRound build hashOps now row sketch with
        | (some _, _) => []
        | (none, sketch) => touchUses now rows sketch

end Recording

variable {build : Map.Build} {hash : ℕ → ℕ} {capacity : ℕ} {buckets : ℤ → ℕ} {now : ℤ}
  {sketch : Sketch} {entries : IndexTable capacity ℕ}

/-- A use with a chain that tracks a table is valid if the table has the
index. -/
theorem valid_iff_mem_alloc
    {table : IndexTable capacity ℕ}
    {use : Use}
    (tracks : use.allocator.Tracks table) :
    use.Valid capacity ↔ use.bucketIndex ∈ table.alloc := by
  constructor
  · rintro ⟨⟨nonnegative, inside⟩, allocated⟩
    exact (tracks.dchainIsIndexAllocated_iff nonnegative inside).mp allocated
  · intro inUse
    obtain ⟨nonnegative, inside⟩ := table.allocator.inRange_of_mem_alloc inUse
    exact ⟨⟨nonnegative, inside⟩, (tracks.dchainIsIndexAllocated_iff nonnegative inside).mpr inUse⟩

theorem FirstRow.not_valid_of_ne
    (first : FirstRow build hash buckets now sketch entries)
    {row : Fin sketchHashes}
    (other : row ≠ 0)
    (bucketIndex : ℤ) :
    ¬Use.Valid capacity ⟨row, bucketIndex, sketch.allocators row⟩ := by
  obtain ⟨time, idle⟩ := first.idle row other
  rw [valid_iff_mem_alloc idle]
  exact List.not_mem_nil

theorem Searched.exists_refreshRound
    (searched : Searched build hash buckets now sketch entries)
    (row : Fin sketchHashes) :
    ∃ refreshed : IndexTable capacity ℕ, Searched build hash buckets now
      (refreshRound build (.ofHash hash) now sketch row) refreshed := by
  cases found : sketch.getClient build (.ofHash hash) row with
  | none =>
      rw [searched.refreshRound_of_absent found]
      exact ⟨entries, searched⟩
  | some index =>
      by_cases isFirst : row = 0
      · subst isFirst
        have inUse := (searched.getClient_eq_some_iff.mp found).1
        rw [refreshRound, found]
        exact ⟨_, (searched.setBucketsIndex found).rejuvenate inUse⟩
      · rw [searched.refreshRound_of_ne isFirst found]
        exact ⟨entries, searched.setBucketsIndex found⟩

theorem Searched.exists_not_valid_refresh
    (searched : Searched build hash buckets now sketch entries)
    (member : row ∈ rows)
    (other : row ≠ 0) :
    ∃ use ∈ refreshUses build (.ofHash hash) now rows sketch,
      ¬use.Valid capacity := by
  induction rows generalizing sketch entries with
  | nil => cases member
  | cons first rows ih =>
      rcases List.mem_cons.mp member with rfl | later
      · exact ⟨_, List.mem_cons_self, searched.not_valid_of_ne other _⟩
      · obtain ⟨_, refreshed⟩ := searched.exists_refreshRound first
        obtain ⟨use, present, notValid⟩ := ih refreshed later
        exact ⟨use, List.mem_cons_of_mem _ present, notValid⟩

theorem getClient_fetchRound
    (state : Sketch × Option ℕ)
    (row other : Fin sketchHashes) :
    (fetchRound build (.ofHash hash) state row).1.getClient build
      (.ofHash hash) other = state.1.getClient build (.ofHash hash) other := by
  obtain ⟨sketch, bucketMin⟩ := state
  rw [fetchRound]
  cases sketch.getClient build (.ofHash hash) row with
  | none => rfl
  | some index =>
      cases bucketMin with
      | none => rfl
      | some least => rfl

section

variable (searched : Searched build hash buckets now sketch entries)

include searched

theorem Searched.fetchUses_valid_iff
    (rows : List (Fin sketchHashes))
    (bucketMin : Option ℕ) :
    (∀ use ∈ fetchUses build (.ofHash hash) rows (sketch, bucketMin),
        use.Valid capacity) ↔
      ∀ row ∈ rows, row ≠ 0 →
        sketch.getClient build (.ofHash hash) row = none := by
  induction rows generalizing sketch bucketMin with
  | nil => simp [fetchUses]
  | cons first rows ih =>
      have rest := ih (searched.fetchRound bucketMin first).1
        (Sketch.fetchRound build (.ofHash hash) (sketch, bucketMin) first).2
      simp only [getClient_fetchRound] at rest
      rw [List.forall_mem_cons, ← rest, fetchUses, List.forall_mem_append]
      refine and_congr_left fun _ => ?_
      cases found : sketch.getClient build (.ofHash hash) first with
      | none => simp
      | some index =>
          simp only [Option.toList_some, List.map_cons, List.map_nil,
            List.forall_mem_singleton, reduceCtorEq, imp_false, not_not]
          constructor
          · intro valid
            by_contra other
            exact searched.not_valid_of_ne other index valid
          · rintro rfl
            exact (valid_iff_mem_alloc searched.tracks).mpr
              (searched.getClient_eq_some_iff.mp found).1

theorem Searched.touchRoundUses_valid :
    ∀ use ∈ touchRoundUses build (.ofHash hash) now 0 sketch,
      use.Valid capacity := by
  intro use member
  rw [touchRoundUses] at member
  cases found : sketch.getClient build (.ofHash hash) 0 with
  | some index =>
      have inUse := (searched.getClient_eq_some_iff.mp found).1
      have refreshed := searched.rejuvenate inUse
      rw [found] at member
      rcases List.mem_pair.mp member with rfl | rfl
      · exact (valid_iff_mem_alloc searched.tracks).mpr inUse
      · exact (valid_iff_mem_alloc refreshed.tracks).mpr
          ((IndexTable.alloc_refresh_perm inUse now).mem_iff.mpr inUse)
  | none =>
      rw [found] at member
      dsimp only at member
      cases shape : entries.allocator.free with
      | nil =>
          rw [searched.tracks.dchainAllocateNewIndex_of_full shape] at member
          cases member
      | cons index rest =>
          obtain ⟨reply, tracks⟩ :=
            searched.tracks.dchainAllocateNewIndex_of_available shape 0 now
          generalize dchainAllocateNewIndex (sketch.allocators 0) now = outcome at *
          obtain ⟨allocated, chain⟩ := outcome
          dsimp only at reply
          subst reply
          obtain rfl := List.mem_singleton.mp member
          exact (valid_iff_mem_alloc tracks).mpr
            ((IndexTable.mem_alloc_insert shape 0 now).mpr (Or.inr rfl))

theorem Searched.touchUses_valid :
    ∀ use ∈ touchUses build (.ofHash hash) now
        (List.finRange sketchHashes) sketch,
      use.Valid capacity := by
  have one : touchUses build (.ofHash hash) now (List.finRange sketchHashes) sketch =
      touchRoundUses build (.ofHash hash) now 0 sketch := by
    obtain ⟨reply, isReply⟩ : ∃ reply,
        (touchRound build (.ofHash hash) now 0 sketch).1 = some reply :=
      exists_touchRound_reply now 0 sketch
    rw [List.finRange_succ, touchUses]
    generalize touchRound build (.ofHash hash) now 0 sketch = outcome at *
    obtain ⟨returned, touched⟩ := outcome
    dsimp only at isReply
    subst isReply
    exact List.append_nil _
  rw [one]
  exact searched.touchRoundUses_valid

end

end Sketch
end Vigor
