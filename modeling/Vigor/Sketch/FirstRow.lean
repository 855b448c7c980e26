import Vigor.FlowTable.Lists
import Vigor.Sketch.Impl

/-!
# The first row of the sketch

The loop that touches the buckets returns in its first round, so that only the
first row ever gets entries.  The chains of the other rows stay empty and their
buckets stay as the memory was, while the map that all rows share holds the hash
values of the first row.
-/

namespace Vigor
namespace Sketch

open DoubleChain Function

variable {build : Map.Build} {hash : ℕ → ℕ} {capacity : ℕ} {buckets : ℤ → ℕ} {now : ℤ}
  {sketch : Sketch} {entries : IndexTable capacity ℕ}

@[simp] theorem offseted_zero
    (bucketIndex : ℤ)
    (sketch : Sketch) :
    sketch.offseted 0 bucketIndex = bucketIndex := by
  simp [offseted]

/-- The map, the vector of hash values and the first chain represent the entries
of the first row.  The other rows have no entries, and `buckets` in their
blocks. -/
structure FirstRow
    (build : Map.Build)
    (hash : ℕ → ℕ)
    {capacity : ℕ}
    (buckets : ℤ → ℕ)
    (now : ℤ)
    (sketch : Sketch)
    (entries : IndexTable capacity ℕ) : Prop where
  capacity_eq : sketch.capacity = capacity
  lists : sketch.clients.Lists build (.ofHash hash) id entries.alloc
  room : capacity ≤ sketch.clients.map.capacity
  vector_eq : sketch.clients.vector = entries.value
  tracks : (sketch.allocators 0).Tracks entries
  idle : ∀ row, row ≠ 0 → ∃ time, (sketch.allocators row).Tracks
    (IndexTable.initial capacity (fun _ => 0 : ℤ → ℕ) time)
  untouched : ∀ cell : ℤ, capacity ≤ cell → sketch.buckets cell = buckets cell
  sorted : entries.Sorted
  notAfter : entries.NotAfter now

/-- Besides, the stored indexes come from searches for the current hash
values. -/
structure Searched
    (build : Map.Build)
    (hash : ℕ → ℕ)
    {capacity : ℕ}
    (buckets : ℤ → ℕ)
    (now : ℤ)
    (sketch : Sketch)
    (entries : IndexTable capacity ℕ) : Prop
    extends FirstRow build hash buckets now sketch entries where
  isIndex : ∀ row, sketch.internal.bucketsIndexes row = -1 ∨
    0 ≤ sketch.internal.bucketsIndexes row ∧
      sketch.internal.bucketsIndexes row < capacity
  /-- The stored index of the first row is not that of another hash value. -/
  notOther : sketch.internal.bucketsIndexes 0 ∈ entries.alloc →
    entries.value (sketch.internal.bucketsIndexes 0) = sketch.internal.hashes 0

/-- The two sketches differ at most in the map, the chains and the stored
indexes. -/
structure Resembles (sketch other : Sketch) : Prop where
  buckets_eq : other.buckets = sketch.buckets
  hashes_eq : other.internal.hashes = sketch.internal.hashes
  threshold_eq : other.threshold = sketch.threshold

theorem Resembles.refl (sketch : Sketch) : sketch.Resembles sketch :=
  ⟨rfl, rfl, rfl⟩

theorem Resembles.trans
    {first second third : Sketch}
    (before : first.Resembles second)
    (after : second.Resembles third) :
    first.Resembles third :=
  ⟨after.buckets_eq.trans before.buckets_eq, after.hashes_eq.trans before.hashes_eq,
    after.threshold_eq.trans before.threshold_eq⟩

namespace FirstRow

section

variable (first : FirstRow build hash buckets now sketch entries)

include first

theorem mono (le : now ≤ later) :
    FirstRow build hash buckets later sketch entries :=
  { first with notAfter := first.notAfter.mono le }

/-! ## Searching -/

/-- Every row finds the hash values of the first row. -/
theorem getClient_eq_some_iff :
    sketch.getClient build (.ofHash hash) row = some index ↔
      index ∈ entries.alloc ∧
        entries.value index = sketch.internal.hashes row := by
  rw [getClient, KeyedMap.get, first.lists.refers.mapGet_eq_some_iff, first.vector_eq]
  constructor
  · rintro ⟨_, inUse, rfl, equal⟩
    exact ⟨inUse, of_decide_eq_true equal⟩
  · rintro ⟨inUse, equal⟩
    exact ⟨index, inUse, rfl, decide_eq_true equal⟩

theorem getClient_eq_none_iff {row : Fin sketchHashes} :
    sketch.getClient build (.ofHash hash) row = none ↔
      ∀ index ∈ entries.alloc,
        entries.value index ≠ sketch.internal.hashes row := by
  rw [Option.eq_none_iff_forall_ne_some]
  simp only [ne_eq, first.getClient_eq_some_iff, not_and]

theorem index_unique
    (inUse : index ∈ entries.alloc)
    (otherInUse : other ∈ entries.alloc)
    (same : entries.value index = entries.value other) :
    index = other := by
  refine first.lists.refers.cell_unique inUse otherInUse ?_
  rw [first.vector_eq]
  exact decide_eq_true same

theorem inRange
    (found : sketch.getClient build (.ofHash hash) row = some index) :
    0 ≤ index ∧ index < capacity :=
  entries.allocator.inRange_of_mem_alloc (first.getClient_eq_some_iff.mp found).1

/-! ## Hash values -/

theorem sketchComputeHashes
    (rowHash : Fin sketchHashes → K → ℕ)
    (key : K) :
    Searched build hash buckets now (sketch.sketchComputeHashes rowHash key)
      entries := by
  refine { first with isIndex := fun _ => Or.inl rfl, notOther := fun inUse => ?_ }
  exact absurd (entries.allocator.inRange_of_mem_alloc inUse).1 (show ¬(0 : ℤ) ≤ -1 by decide)

end

end FirstRow

namespace Searched

section

variable (searched : Searched build hash buckets now sketch entries)

include searched

variable {row : Fin sketchHashes} {index : ℤ}

theorem setBucketsIndex
    (found : sketch.getClient build (.ofHash hash) row = some index) :
    Searched build hash buckets now (sketch.setBucketsIndex row index)
      entries := by
  refine { searched with isIndex := fun other => ?_, notOther := fun inUse => ?_ }
  · by_cases same : other = row
    · subst same
      simpa [Sketch.setBucketsIndex] using Or.inr (searched.inRange found)
    · simpa [Sketch.setBucketsIndex, same] using searched.isIndex other
  · by_cases same : (0 : Fin sketchHashes) = row
    · subst same
      simpa [Sketch.setBucketsIndex] using (searched.getClient_eq_some_iff.mp found).2
    · simp only [Sketch.setBucketsIndex, update_of_ne same] at inUse ⊢
      exact searched.notOther inUse

/-! ## Refreshing -/

theorem rejuvenate_of_absent
    (absent : sketch.getClient build (.ofHash hash) row = none)
    (time : ℤ) :
    sketch.rejuvenate row (sketch.internal.bucketsIndexes row) time =
      sketch := by
  have fails : dchainRejuvenateIndex (sketch.allocators row)
      (sketch.internal.bucketsIndexes row) time = (false, sketch.allocators row) := by
    by_cases isFirst : row = 0
    · subst isFirst
      refine searched.tracks.dchainRejuvenateIndex_of_not_mem (searched.isIndex 0) ?_ time
      intro inUse
      exact searched.getClient_eq_none_iff.mp absent _ inUse (searched.notOther inUse)
    · obtain ⟨_, idle⟩ := searched.idle row isFirst
      exact idle.dchainRejuvenateIndex_of_not_mem (searched.isIndex row) List.not_mem_nil time
  rw [rejuvenate, fails, update_eq_self]

theorem refreshRound_of_absent
    (absent : sketch.getClient build (.ofHash hash) row = none)
    (time : ℤ) :
    refreshRound build (.ofHash hash) time sketch row = sketch := by
  have same : sketch.setBucketsIndex row (sketch.internal.bucketsIndexes row) = sketch := by
    rw [Sketch.setBucketsIndex, update_eq_self]
  rw [refreshRound, absent, Option.getD_none, same, searched.rejuvenate_of_absent absent]

theorem refreshRound_of_ne
    (other : row ≠ 0)
    (found : sketch.getClient build (.ofHash hash) row = some index)
    (time : ℤ) :
    refreshRound build (.ofHash hash) time sketch row =
      sketch.setBucketsIndex row index := by
  obtain ⟨_, idle⟩ := searched.idle row other
  have fails := idle.dchainRejuvenateIndex_of_not_mem (Or.inr (searched.inRange found))
    List.not_mem_nil time
  rw [refreshRound, found, Option.getD_some, rejuvenate,
    Sketch.setBucketsIndex, fails, update_eq_self]

theorem rejuvenate (inUse : index ∈ entries.alloc) :
    Searched build hash buckets now (sketch.rejuvenate 0 index now)
      (entries.refresh index now) := by
  have permuted := IndexTable.alloc_refresh_perm inUse now
  refine
    { searched with
      lists := searched.lists.of_perm permuted
      tracks := ?_
      idle := fun row other => ?_
      sorted := searched.sorted.refresh searched.notAfter inUse
      notAfter := (IndexTable.Steps.refresh inUse).notAfter now searched.notAfter (by simp)
      notOther := fun member => searched.notOther (permuted.mem_iff.mp member) }
  · rw [Sketch.rejuvenate]
    dsimp only
    rw [update_self]
    exact (searched.tracks.dchainRejuvenateIndex inUse now).2
  · rw [Sketch.rejuvenate]
    dsimp only
    rw [update_of_ne other]
    exact searched.idle row other

theorem refreshRounds_of_ne
    (rows : List (Fin sketchHashes))
    (others : ∀ row ∈ rows, row ≠ 0)
    (time : ℤ) :
    Searched build hash buckets now
        (rows.foldl (refreshRound build (.ofHash hash) time) sketch) entries ∧
      sketch.Resembles
        (rows.foldl (refreshRound build (.ofHash hash) time) sketch) := by
  refine List.foldlRecOn rows _
    (motive := fun reached => Searched build hash buckets now reached entries ∧
      sketch.Resembles reached) ⟨searched, Resembles.refl sketch⟩ ?_
  rintro reached ⟨kept, resembles⟩ row member
  cases found : reached.getClient build (.ofHash hash) row with
  | none =>
      rw [kept.refreshRound_of_absent found]
      exact ⟨kept, resembles⟩
  | some index =>
      rw [kept.refreshRound_of_ne (others row member) found]
      exact ⟨kept.setBucketsIndex found, resembles.trans ⟨rfl, rfl, rfl⟩⟩

theorem sketchRefresh_of_absent
    (absent : sketch.getClient build (.ofHash hash) 0 = none)
    (time : ℤ) :
    Searched build hash buckets now
        (sketch.sketchRefresh build (.ofHash hash) time) entries ∧
      sketch.Resembles (sketch.sketchRefresh build (.ofHash hash) time) := by
  rw [sketchRefresh, List.finRange_succ, List.foldl_cons, searched.refreshRound_of_absent absent]
  exact searched.refreshRounds_of_ne _ (by simp) time

theorem sketchRefresh_of_found
    (found : sketch.getClient build (.ofHash hash) 0 = some index) :
    Searched build hash buckets now
        (sketch.sketchRefresh build (.ofHash hash) now)
          (entries.refresh index now) ∧
      sketch.Resembles (sketch.sketchRefresh build (.ofHash hash) now) := by
  have inUse := (searched.getClient_eq_some_iff.mp found).1
  have used : sketch.Resembles ((sketch.setBucketsIndex 0 index).rejuvenate 0 index now) :=
    ⟨rfl, rfl, rfl⟩
  obtain ⟨kept, resembles⟩ :=
    ((searched.setBucketsIndex found).rejuvenate inUse).refreshRounds_of_ne
      ((List.finRange 7).map Fin.succ) (by simp) now
  rw [sketchRefresh, List.finRange_succ, List.foldl_cons, refreshRound, found]
  exact ⟨kept, used.trans resembles⟩

end

/-! ## Fetching -/

end Searched

/-- The bucket of a row, if the map has its hash value. -/
def bucketValue
    (build : Map.Build)
    (hash : ℕ → ℕ)
    (sketch : Sketch)
    (row : Fin sketchHashes) : Option ℕ :=
  (sketch.getClient build (.ofHash hash) row).map fun index =>
    sketch.buckets (sketch.offseted row index)

/-- The rounds compute the least bucket. -/
theorem fetchRounds_snd
    (rows : List (Fin sketchHashes))
    (sketch : Sketch)
    (bucketMin : Option ℕ) :
    (rows.foldl (fetchRound build (.ofHash hash)) (sketch, bucketMin)).2 =
      (bucketMin.toList ++
        rows.filterMap (sketch.bucketValue build hash)).min? := by
  induction rows generalizing sketch bucketMin with
  | nil => cases bucketMin <;> rfl
  | cons row rows ih =>
      rw [List.foldl_cons, fetchRound]
      cases found : sketch.getClient build (.ofHash hash) row with
      | none =>
          have noValue : sketch.bucketValue build hash row = none := by
            rw [bucketValue, found, Option.map_none]
          rw [List.filterMap_cons_none noValue]
          exact ih _ bucketMin
      | some index =>
          have isValue : sketch.bucketValue build hash row =
              some (sketch.buckets (sketch.offseted row index)) := by
            rw [bucketValue, found, Option.map_some]
          rw [List.filterMap_cons_some isValue]
          cases bucketMin with
          | none => exact ih _ _
          | some least =>
              dsimp only
              split_ifs with smaller
              · have isLess : sketch.buckets (sketch.offseted row index) < least := smaller
                refine (ih _ _).trans ?_
                rw [Option.toList_some, Option.toList_some, List.singleton_append,
                  List.singleton_append, List.min?_cons', List.min?_cons', List.foldl_cons,
                  min_eq_right isLess.le]
                rfl
              · have isLeast : least ≤ sketch.buckets (sketch.offseted row index) :=
                  Nat.le_of_not_lt smaller
                refine (ih _ _).trans ?_
                rw [Option.toList_some, List.singleton_append, List.singleton_append,
                  List.min?_cons', List.min?_cons', List.foldl_cons, min_eq_left isLeast]
                rfl

section

variable (searched : Searched build hash buckets now sketch entries)

include searched

theorem Searched.fetchRound
    (bucketMin : Option ℕ)
    (row : Fin sketchHashes) :
    Searched build hash buckets now
        (fetchRound build (.ofHash hash) (sketch, bucketMin) row).1 entries ∧
      sketch.Resembles
        (fetchRound build (.ofHash hash) (sketch, bucketMin) row).1 := by
  rw [Sketch.fetchRound]
  cases found : sketch.getClient build (.ofHash hash) row with
  | none => exact ⟨{ searched with }, ⟨rfl, rfl, rfl⟩⟩
  | some index =>
      have present : Searched build hash buckets now (sketch.setPresent row true) entries :=
        { searched with }
      cases bucketMin with
      | none => exact ⟨present.setBucketsIndex found, ⟨rfl, rfl, rfl⟩⟩
      | some least => exact ⟨present.setBucketsIndex found, ⟨rfl, rfl, rfl⟩⟩

theorem Searched.fetchRounds (rows : List (Fin sketchHashes)) :
    Searched build hash buckets now
        (rows.foldl (Sketch.fetchRound build (.ofHash hash)) (sketch, none)).1
          entries ∧
      sketch.Resembles
        (rows.foldl (Sketch.fetchRound build (.ofHash hash))
          (sketch, none)).1 := by
  refine List.foldlRecOn rows _
    (motive := fun reached : Sketch × Option ℕ =>
      Searched build hash buckets now reached.1 entries ∧ sketch.Resembles reached.1)
    ⟨searched, Resembles.refl sketch⟩ ?_
  rintro ⟨reached, bucketMin⟩ ⟨kept, resembles⟩ row _
  obtain ⟨stored, unchanged⟩ := kept.fetchRound bucketMin row
  exact ⟨stored, resembles.trans unchanged⟩

theorem Searched.sketchFetch :
    (sketch.sketchFetch build (.ofHash hash)).1 =
        (((List.finRange sketchHashes).filterMap
          (sketch.bucketValue build hash)).min?.any fun least =>
            sketch.threshold < least) ∧
      Searched build hash buckets now
        (sketch.sketchFetch build (.ofHash hash)).2 entries ∧
      sketch.Resembles (sketch.sketchFetch build (.ofHash hash)).2 := by
  obtain ⟨kept, resembles⟩ := searched.fetchRounds (List.finRange sketchHashes)
  rw [Sketch.sketchFetch]
  dsimp only
  refine ⟨?_, kept, resembles⟩
  rw [fetchRounds_snd, resembles.threshold_eq, Option.toList_none, List.nil_append]

end

/-! ## Touching -/

theorem exists_touchRound_reply
    (now : ℤ)
    (row : Fin sketchHashes)
    (sketch : Sketch) :
    ∃ reply,
      (touchRound build (.ofHash hash) now row sketch).1 = some reply := by
  apply Option.isSome_iff_exists.mp
  rw [touchRound]
  split
  · split <;> rfl
  · rfl

theorem sketchTouchBuckets_eq
    (now : ℤ)
    (sketch : Sketch) :
    sketch.sketchTouchBuckets build (.ofHash hash) now =
      touchRound build (.ofHash hash) now 0 sketch := by
  rw [sketchTouchBuckets, List.finRange_succ, touchLoop]
  obtain ⟨reply, isReply⟩ : ∃ reply,
      (touchRound build (.ofHash hash) now 0 sketch).1 = some reply :=
    exists_touchRound_reply now 0 sketch
  generalize touchRound build (.ofHash hash) now 0 sketch = outcome at *
  obtain ⟨returned, touched⟩ := outcome
  dsimp only at isReply
  subst isReply
  rfl

namespace Searched

section

variable (searched : Searched build hash buckets now sketch entries)

include searched

theorem withBucket
    {index : ℤ}
    (inside : index < capacity)
    (value : ℕ) :
    Searched build hash buckets now
      { sketch with buckets := update sketch.buckets index value } entries := by
  refine { searched with untouched := fun cell outside => ?_ }
  dsimp only
  rw [update_of_ne (by omega)]
  exact searched.untouched cell outside

theorem sketchTouchBuckets_of_found
    {index : ℤ}
    (found : sketch.getClient build (.ofHash hash) 0 = some index) :
    ∃ touched,
      sketch.sketchTouchBuckets build (.ofHash hash) now =
        (some true, touched) ∧
      Searched build hash buckets now touched (entries.refresh index now) ∧
      Resembles
        { sketch with
          buckets := update sketch.buckets index ((sketch.buckets index + 1) % 2 ^ 32) }
        touched := by
  have inUse := (searched.getClient_eq_some_iff.mp found).1
  refine ⟨_, ?_, (searched.rejuvenate inUse).withBucket (searched.inRange found).2 _,
    ⟨rfl, rfl, rfl⟩⟩
  rw [sketchTouchBuckets_eq, touchRound, found]
  dsimp only
  rw [offseted_zero]
  rfl

theorem sketchTouchBuckets_of_full
    (absent : sketch.getClient build (.ofHash hash) 0 = none)
    (full : entries.allocator.free = [])
    (time : ℤ) :
    sketch.sketchTouchBuckets build (.ofHash hash) time =
      (some false, sketch) := by
  rw [sketchTouchBuckets_eq, touchRound, absent]
  dsimp only
  rw [searched.tracks.dchainAllocateNewIndex_of_full full]
  dsimp only
  rw [update_eq_self]

theorem sketchTouchBuckets_of_available
    (absent : sketch.getClient build (.ofHash hash) 0 = none)
    (available : entries.allocator.free = index :: rest) :
    ∃ touched,
      sketch.sketchTouchBuckets build (.ofHash hash) now =
        (some true, touched) ∧
      Searched build hash buckets now touched
        (entries.insert (sketch.internal.hashes 0) now).2 ∧
      Resembles { sketch with buckets := update sketch.buckets index 0 }
        touched := by
  set key := sketch.internal.hashes 0 with isKey
  obtain ⟨reply, tracks⟩ :=
    searched.tracks.dchainAllocateNewIndex_of_available available key now
  have lists : ((sketch.clients.write index key).put build (.ofHash hash) (.cell index)
      index).Lists build (.ofHash hash) id (entries.alloc ++ [index]) :=
    searched.lists.write_put
    (fun inUse => IndexTable.ne_of_available available inUse rfl) key
    (fun other inUse => by
      rw [searched.vector_eq]
      exact decide_eq_false (searched.getClient_eq_none_iff.mp absent other inUse))
    ((IndexTable.length_lt_of_available available).trans_le searched.room)
  have inside : index < capacity := (entries.allocator.inRange_of_mem_free (by simp [available])).2
  refine ⟨{ sketch with
      clients := (sketch.clients.write index key).put build (.ofHash hash) (.cell index) index
      buckets := update sketch.buckets index 0
      allocators := update sketch.allocators 0
        (dchainAllocateNewIndex (sketch.allocators 0) now).2 }, ?_, ?_, ⟨rfl, rfl, rfl⟩⟩
  · rw [sketchTouchBuckets_eq, touchRound, absent]
    generalize dchainAllocateNewIndex (sketch.allocators 0) now = outcome at *
    obtain ⟨found, chain⟩ := outcome
    dsimp only at reply ⊢
    subst reply
    dsimp only
    rw [offseted_zero]
  · refine
      { searched.withBucket inside 0 with
        lists := (IndexTable.alloc_insert available key now).symm ▸ lists
        vector_eq := ?_
        tracks := ?_
        idle := fun row other => ?_
        sorted := searched.sorted.insert searched.notAfter key
        notAfter := (IndexTable.Steps.insert key).notAfter now searched.notAfter (by simp)
        notOther := fun inUse => ?_ }
    · rw [IndexTable.value_insert available, ← searched.vector_eq]
      rfl
    · dsimp only
      rw [update_self]
      exact tracks
    · dsimp only
      rw [update_of_ne other]
      exact searched.idle row other
    · rw [IndexTable.value_insert available]
      rcases (IndexTable.mem_alloc_insert available key now).mp inUse with old | new
      · rw [update_of_ne (IndexTable.ne_of_available available old)]
        exact searched.notOther old
      · dsimp only at new ⊢
        rw [new, update_self]

end

end Searched

theorem Searched.exists_sketchRefresh
    (searched : Searched build hash buckets now sketch entries) :
    ∃ refreshed : IndexTable capacity ℕ, Searched build hash buckets now
      (sketch.sketchRefresh build (.ofHash hash) now) refreshed := by
  cases found : sketch.getClient build (.ofHash hash) 0 with
  | none => exact ⟨_, (searched.sketchRefresh_of_absent found now).1⟩
  | some index => exact ⟨_, (searched.sketchRefresh_of_found found).1⟩

theorem Searched.exists_sketchTouchBuckets
    (searched : Searched build hash buckets now sketch entries) :
    ∃ touched : IndexTable capacity ℕ, Searched build hash buckets now
      (sketch.sketchTouchBuckets build (.ofHash hash) now).2 touched := by
  cases found : sketch.getClient build (.ofHash hash) 0 with
  | some index =>
      obtain ⟨_, returns, kept, _⟩ := searched.sketchTouchBuckets_of_found found
      rw [returns]
      exact ⟨_, kept⟩
  | none =>
      cases shape : entries.allocator.free with
      | nil =>
          rw [searched.sketchTouchBuckets_of_full found shape]
          exact ⟨_, searched⟩
      | cons index rest =>
          obtain ⟨_, returns, kept, _⟩ :=
            searched.sketchTouchBuckets_of_available found shape
          rw [returns]
          exact ⟨_, kept⟩

/-! ## Expiry -/

/-- The parts of the sketch that the expiry of the first row changes. -/
structure Backs
    (build : Map.Build)
    (hash : ℕ → ℕ)
    {capacity : ℕ}
    (chain : DoubleChain)
    (clients : KeyedMap ℕ)
    (entries : IndexTable capacity ℕ) : Prop where
  tracks : chain.Tracks entries
  lists : clients.Lists build (.ofHash hash) id entries.alloc
  room : capacity ≤ clients.map.capacity
  vector_eq : clients.vector = entries.value

theorem Backs.erases
    (build : Map.Build)
    (hash : ℕ → ℕ)
    (capacity : ℕ)
    (sketch : Sketch) :
    Expirator.Erases
      (fun index clients => KeyedMap.erase build (.ofHash hash)
        (.cell (sketch.offseted 0 index)) clients)
      (fun chain clients (entries : IndexTable capacity ℕ) =>
        Backs build hash chain clients entries) := by
  constructor
  · intro chain clients entries backs
    exact backs.tracks
  · intro chain clients entries index rest backs oldest
    have inUse : index ∈ entries.alloc := by simp [oldest]
    rw [offseted_zero]
    refine ⟨(backs.tracks.dchainFreeIndex inUse).2, ?_, backs.room, backs.vector_eq⟩
    rw [IndexTable.alloc_remove inUse]
    exact backs.lists.erase entries.nodup_alloc inUse

/-- A round of `sketch_expire` for a row without entries changes nothing. -/
theorem FirstRow.expireRound_of_ne
    (first : FirstRow build hash buckets now sketch entries)
    (other : row ≠ 0)
    (limit : ℤ) :
    (expireRound build (.ofHash hash) limit sketch row).Returns sketch := by
  obtain ⟨time, idle⟩ := first.idle row other
  have fresh : ∀ index ∈ (IndexTable.initial capacity (fun _ => 0 : ℤ → ℕ) time).alloc.head?,
      limit ≤ time index := by
    simp [IndexTable.alloc, IndexTable.initial, Allocator.initial]
  have stops := Fuelled.loop_returns_of_done (Expirator.expireRound_of_fresh
    (fun index clients => KeyedMap.erase build (.ofHash hash)
      (.cell (sketch.offseted row index)) clients)
    idle fresh 0 sketch.clients)
  refine Fuelled.Returns.bind stops ?_
  dsimp only
  rw [update_eq_self]
  exact Fuelled.returns_pure _

theorem FirstRow.sketchExpire
    (first : FirstRow build hash buckets now sketch entries)
    (limit : ℤ) :
    ∃ expired,
      (sketch.sketchExpire build (.ofHash hash) limit).Returns expired ∧
      FirstRow build hash buckets now expired (entries.expire limit) ∧
      sketch.Resembles expired ∧ expired.internal = sketch.internal := by
  obtain ⟨chain, clients, returns, backs⟩ :=
    (Backs.erases build hash capacity sketch).expireLoop_returns limit
      (⟨first.tracks, first.lists, first.room, first.vector_eq⟩ :
        Backs build hash (sketch.allocators 0) sketch.clients entries)
  set expired : Sketch :=
    { sketch with
      clients := clients
      allocators := update sketch.allocators 0 chain } with isExpired
  have kept : FirstRow build hash buckets now expired (entries.expire limit) := by
    refine
      { first with
        lists := backs.lists
        room := backs.room
        vector_eq := backs.vector_eq
        tracks := ?_
        idle := fun row other => ?_
        sorted := first.sorted.expire limit
        notAfter := (IndexTable.Steps.expire entries limit).notAfter now first.notAfter (by simp) }
    · rw [isExpired]
      dsimp only
      rw [update_self]
      exact backs.tracks
    · rw [isExpired]
      dsimp only
      rw [update_of_ne other]
      exact first.idle row other
  refine ⟨expired, ?_, kept, ⟨rfl, rfl, rfl⟩, rfl⟩
  have round : (expireRound build (.ofHash hash) limit sketch 0).Returns expired :=
    returns.bind (Fuelled.returns_pure _)
  rw [Sketch.sketchExpire, List.finRange_succ, List.foldlM_cons]
  refine round.bind (Fuelled.foldlM_returns_self fun row member => ?_)
  exact kept.expireRound_of_ne (by obtain ⟨_, _, rfl⟩ := List.mem_map.mp member; simp) limit

theorem Searched.sketchExpire
    (searched : Searched build hash buckets now sketch entries)
    (limit : ℤ) :
    ∃ expired,
      (sketch.sketchExpire build (.ofHash hash) limit).Returns expired ∧
      Searched build hash buckets now expired (entries.expire limit) ∧
      sketch.Resembles expired := by
  obtain ⟨expired, returns, kept, resembles, internal_eq⟩ :=
    searched.toFirstRow.sketchExpire limit
  refine ⟨expired, returns, { kept with isIndex := ?_, notOther := fun inUse => ?_ }, resembles⟩
  · rw [internal_eq]
    exact searched.isIndex
  · rw [internal_eq] at inUse ⊢
    rw [IndexTable.expire_value]
    exact searched.notOther (IndexTable.mem_of_mem_expire inUse)

/-! ## Allocation -/

theorem powerRounds_eq (d rounds : ℕ) :
    ∃ exponent,
      (List.range rounds).foldl (fun n _ => if n < d then n * 2 else n) 1 =
        2 ^ exponent ∧
      (d ≤ 2 ^ exponent ∨ exponent = rounds) ∧
        (exponent = 0 ∨ 2 ^ (exponent - 1) < d) := by
  induction rounds with
  | zero => exact ⟨0, rfl, Or.inr rfl, Or.inl rfl⟩
  | succ rounds ih =>
      obtain ⟨exponent, isPower, enough, needed⟩ := ih
      rw [List.range_succ, List.foldl_append, isPower, List.foldl_cons, List.foldl_nil]
      by_cases small : 2 ^ exponent < d
      · rw [if_pos small]
        refine ⟨exponent + 1, (pow_succ 2 exponent).symm, Or.inr ?_, Or.inr small⟩
        rw [enough.resolve_left (Nat.not_le_of_lt small)]
      · rw [if_neg small]
        exact ⟨exponent, rfl, Or.inl (Nat.le_of_not_lt small), needed⟩

theorem findNextPowerOf2BiggerThan_eq (bounded : d ≤ 2 ^ 30) :
    ∃ exponent ≤ 30,
      findNextPowerOf2BiggerThan d = 2 ^ exponent ∧ d ≤ 2 ^ exponent := by
  obtain ⟨exponent, isPower, enough, needed⟩ := powerRounds_eq d 31
  have small : exponent ≤ 30 := by
    rcases needed with rfl | needed
    · decide
    · have less := (Nat.pow_lt_pow_iff_right (by decide : 1 < 2)).mp (needed.trans_le bounded)
      omega
  exact ⟨exponent, small, isPower, enough.resolve_right (by omega)⟩

section Allocation

variable (memory : Memory) {threshold : ℕ}
  (positive : 0 < capacity)
  (bounded : capacity * sketchHashes ≤ 2 ^ 30)

include positive bounded

omit positive in
theorem sketchAllocate_eq (build : Map.Build) :
    ∃ exponent ≤ 30, capacity * sketchHashes ≤ 2 ^ exponent ∧
      sketchAllocate build memory capacity threshold =
        (Map.mapAllocate build memory.map (2 ^ exponent)).map fun clients =>
          { clients := { map := clients, vector := fun _ => 0, calls := [] }
            buckets := memory.buckets
            allocators := fun row => dchainAllocate (memory.allocators row) capacity
            capacity := capacity
            threshold := threshold
            internal := memory.internal } := by
  obtain ⟨exponent, small, isPower, enough⟩ := findNextPowerOf2BiggerThan_eq bounded
  have noWrap : capacity * sketchHashes % 2 ^ 32 = capacity * sketchHashes :=
    Nat.mod_eq_of_lt (by omega)
  refine ⟨exponent, small, enough, ?_⟩
  have asserted : capacity * sketchHashes ≤ 2 ^ 31 := by omega
  rw [sketchAllocate, noWrap, isPower]
  simp only [guard, if_pos asserted]
  cases Map.mapAllocate build memory.map (2 ^ exponent) <;> rfl

omit positive in
theorem exists_sketchAllocate (build : Map.Build) :
    ∃ sketch, sketchAllocate build memory capacity threshold = some sketch := by
  obtain ⟨exponent, _, _, allocates⟩ := sketchAllocate_eq memory bounded build
  have isPower : 2 ^ exponent &&& (2 ^ exponent - 1) = 0 := by
    rw [Nat.and_two_pow_sub_one_eq_mod, Nat.mod_self]
  have accepted : ¬(build = .pow2 ∧
      (2 ^ exponent = 0 ∨ 2 ^ exponent &&& (2 ^ exponent - 1) ≠ 0)) := by
    simp [isPower]
  rw [allocates, Map.mapAllocate, if_neg accepted]
  exact ⟨_, rfl⟩

theorem FirstRow.allocate
    (allocated : sketchAllocate build memory capacity threshold = some sketch)
    (now : ℤ) :
    FirstRow build hash memory.buckets now sketch
        (IndexTable.initial capacity (fun _ => 0)
          (memory.allocators 0).timestamps) ∧
      sketch.threshold = threshold := by
  obtain ⟨exponent, small, enough, allocates⟩ := sketchAllocate_eq memory bounded build
  rw [allocates] at allocated
  obtain ⟨clients, mapAllocated, rfl⟩ := Option.map_eq_some_iff.mp allocated
  have power : 2 ^ exponent ≤ 2 ^ 30 := Nat.pow_le_pow_right (by decide) small
  have mapCapacity := (Map.mapAllocate_valid
    ((Map.KeyOps.ofHash hash).onRefs fun _ => 0) (Nat.two_pow_pos exponent) (by omega)
    mapAllocated).2.1
  refine ⟨?_, rfl⟩
  exact
    { capacity_eq := rfl
      lists := ⟨.allocate (Nat.two_pow_pos exponent) (by omega) mapAllocated, by simp⟩
      room := by
        dsimp only
        rw [mapCapacity]
        exact (Nat.le_mul_of_pos_right capacity (by decide)).trans enough
      vector_eq := rfl
      tracks := dchainAllocate_tracks _ positive _
      idle := fun row _ => ⟨_, dchainAllocate_tracks (memory.allocators row) positive _⟩
      untouched := fun _ _ => rfl
      sorted := List.Pairwise.nil
      notAfter := fun _ inUse => absurd inUse List.not_mem_nil }

end Allocation

end Sketch
end Vigor
