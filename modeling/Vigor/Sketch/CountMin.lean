import Vigor.Library.CountMin
import Vigor.Sketch.FirstRow

/-!
# The sketch and independent rows

A count-min sketch has an independent table for every row.  The code only has
the table of the first row.  It looks the hash values of the other rows up in
that table too, and then reads buckets that were never written.  Here the two
are compared: which calls of `sketch_fetch` give the answer of the independent
tables, whatever the memory was.
-/

namespace Vigor
namespace Sketch

open DoubleChain Function

variable {K : Type u}

/-- A table for every row, and the hash values of the current key. -/
abbrev Tables := CountMin.Sketch sketchHashes ℕ

/-- Tables without entries. -/
def Tables.empty : Tables :=
  { rows := fun _ => .empty
    hashes := fun _ => 0 }

/-! ## Specification -/

/-- A call on independent tables, with some answer to `fetch`. -/
def specWith
    (capacity : ℕ)
    (answer : Tables → Bool)
    (rowHash : Fin sketchHashes → K → ℕ) : Call K → Tables →
      Option Bool × Tables
  | .computeHashes key, tables =>
      (none, tables.compute fun row => rowHash row key % capacity)
  | .touchBuckets now, tables =>
      (some (tables.touch capacity now).1, (tables.touch capacity now).2)
  | .fetch, tables => (some (answer tables), tables)
  | .refresh now, tables => (none, tables.refresh now)
  | .expire time, tables => (none, tables.expire time)

/-- A call on independent tables: a key is over the threshold if its least count
is. -/
def spec
    (capacity threshold : ℕ)
    (rowHash : Fin sketchHashes → K → ℕ) : Call K → Tables →
      Option Bool × Tables :=
  specWith capacity (fun tables => tables.fetch threshold) rowHash

theorem specWith_snd
    (capacity : ℕ)
    (answer other : Tables → Bool)
    (rowHash : Fin sketchHashes → K → ℕ)
    (call : Call K)
    (tables : Tables) :
    (specWith capacity answer rowHash call tables).2 =
      (specWith capacity other rowHash call tables).2 := by
  cases call <;> rfl

/-! ## The answer of the first row -/

/-- The first row has the hash value that the key has there. -/
def Known (tables : Tables) : Prop :=
  tables.hashes 0 ∈ (tables.rows 0).held

/-- The first row has a hash value that the key has in another row. -/
def Shadowed (tables : Tables) : Prop :=
  ∃ row, row ≠ 0 ∧ tables.hashes row ∈ (tables.rows 0).held

/-- The count in the first row, as a bucket holds it. -/
def firstCount (tables : Tables) : ℕ :=
  (tables.rows 0).count (tables.hashes 0) % 2 ^ 32

instance (tables : Tables) : Decidable (Known tables) :=
  inferInstanceAs (Decidable (_ ∈ _))

instance (tables : Tables) : Decidable (Shadowed tables) :=
  inferInstanceAs (Decidable (∃ _, _))

/-- The first row alone gives the answer of all rows: either no hash value of
another row is taken for one of the first row, or the first row has a small
count anyway. -/
def Faithful
    (threshold : ℕ)
    (tables : Tables) : Prop :=
  (Shadowed tables →
      Known tables ∧ firstCount tables ≤ threshold ∧ tables.fetch threshold = false) ∧
    (¬Shadowed tables →
      (tables.fetch threshold = true ↔ Known tables ∧ threshold < firstCount tables))

instance (threshold : ℕ) (tables : Tables) :
    Decidable (Faithful threshold tables) :=
  inferInstanceAs (Decidable (_ ∧ _))

/-- The answer of the code when every bucket of the other rows is `junk`. -/
def answerWith
    (threshold junk : ℕ)
    (tables : Tables) : Bool :=
  decide ((Known tables ∨ Shadowed tables) ∧
    (Known tables → threshold < firstCount tables) ∧
    (Shadowed tables → threshold < junk))

/-- Memory of zeros and memory of ones tell the other rows apart from the first
one. -/
theorem faithful_of_answerWith
    {threshold junk : ℕ}
    (exceeds : threshold < junk)
    (zeros : answerWith threshold 0 tables = tables.fetch threshold)
    (ones : answerWith threshold junk tables = tables.fetch threshold) :
    Faithful threshold tables := by
  refine ⟨fun shadowed => ?_, fun shadowed => ?_⟩
  · have small : tables.fetch threshold = false := by
      rw [← zeros, answerWith, decide_eq_false_iff_not]
      exact fun all => Nat.not_lt_zero _ (all.2.2 shadowed)
    rw [small, answerWith, decide_eq_false_iff_not] at ones
    have notExceeding : ¬(Known tables → threshold < firstCount tables) := fun first =>
      ones ⟨Or.inr shadowed, first, fun _ => exceeds⟩
    rw [Classical.not_imp, not_lt] at notExceeding
    exact ⟨notExceeding.1, notExceeding.2, small⟩
  · rw [← zeros, answerWith, decide_eq_true_iff]
    constructor
    · rintro ⟨known | isShadowed, first, _⟩
      · exact ⟨known, first known⟩
      · exact absurd isShadowed shadowed
    · rintro ⟨known, first⟩
      exact ⟨Or.inl known, fun _ => first, fun isShadowed => absurd isShadowed shadowed⟩

/-! ## Simulation -/

section Simulation

variable {build : Map.Build} {hash : ℕ → ℕ} {capacity threshold : ℕ} {buckets : ℤ → ℕ}
  {now : ℤ} {sketch : Sketch} {entries : IndexTable capacity ℕ} {tables : Tables}

/-- The entries and their buckets are a table of counts. -/
structure Holds
    {capacity : ℕ}
    (buckets : ℤ → ℕ)
    (entries : IndexTable capacity ℕ)
    (row : CountMin.Row ℕ) : Prop where
  held : ∀ value, value ∈ row.held ↔ ∃ index ∈ entries.alloc, entries.value index = value
  count : ∀ index ∈ entries.alloc,
    buckets index = row.count (entries.value index) % 2 ^ 32
  time : ∀ index ∈ entries.alloc, entries.time index = row.time (entries.value index)

namespace Holds

variable {row : CountMin.Row ℕ}

section

variable (holds : Holds buckets entries row)

include holds

variable {index : ℤ}

theorem mem (inUse : index ∈ entries.alloc) : entries.value index ∈ row.held :=
  (holds.held _).mpr ⟨index, inUse, rfl⟩

theorem refresh
    (unique : ∀ {index other}, index ∈ entries.alloc → other ∈ entries.alloc →
      entries.value index = entries.value other → index = other)
    (inUse : index ∈ entries.alloc)
    (now : ℤ) :
    Holds buckets (entries.refresh index now)
      (row.refresh now (entries.value index)) := by
  have isRefreshed : row.refresh now (entries.value index) =
      { row with time := update row.time (entries.value index) now } :=
    if_pos (holds.mem inUse)
  rw [isRefreshed]
  refine ⟨fun value => ?_, fun other otherInUse => ?_, fun other otherInUse => ?_⟩
  · simp only [IndexTable.mem_alloc_refresh inUse]
    exact holds.held value
  · exact holds.count other ((IndexTable.mem_alloc_refresh inUse).mp otherInUse)
  · have wasInUse := (IndexTable.mem_alloc_refresh inUse).mp otherInUse
    change update entries.time index now other =
      update row.time (entries.value index) now (entries.value other)
    by_cases same : other = index
    · rw [same, update_self, update_self]
    · rw [update_of_ne same,
        update_of_ne fun equal => same (unique wasInUse inUse equal)]
      exact holds.time other wasInUse

theorem increment
    (unique : ∀ {index other}, index ∈ entries.alloc → other ∈ entries.alloc →
      entries.value index = entries.value other → index = other)
    (inUse : index ∈ entries.alloc) :
    Holds (update buckets index ((buckets index + 1) % 2 ^ 32)) entries
      { row with
        count := update row.count (entries.value index)
          (row.count (entries.value index) + 1) } := by
  refine { holds with count := fun other otherInUse => ?_ }
  dsimp only
  by_cases same : other = index
  · rw [same, update_self, update_self, holds.count index inUse, Nat.mod_add_mod]
  · rw [update_of_ne same,
      update_of_ne fun equal => same (unique otherInUse inUse equal)]
    exact holds.count other otherInUse

theorem insert
    (available : entries.allocator.free = index :: rest)
    (absent : value ∉ row.held)
    (now : ℤ) :
    Holds (update buckets index 0) (entries.insert value now).2
      { held := Insert.insert value row.held
        count := update row.count value 0
        time := update row.time value now } := by
  have different : ∀ other ∈ entries.alloc, entries.value other ≠ value :=
    fun other inUse equal => absent (equal ▸ holds.mem inUse)
  have old : ∀ other ∈ entries.alloc, (entries.insert value now).2.value other =
      entries.value other := by
    intro other inUse
    rw [IndexTable.value_insert available,
      update_of_ne (IndexTable.ne_of_available available inUse)]
  have new : (entries.insert value now).2.value index = value := by
    rw [IndexTable.value_insert available, update_self]
  refine ⟨fun other => ?_, fun other inUse => ?_, fun other inUse => ?_⟩
  · simp only [IndexTable.mem_alloc_insert available, Finset.mem_insert, holds.held]
    constructor
    · rintro (rfl | ⟨place, inUse, rfl⟩)
      · exact ⟨index, Or.inr rfl, new⟩
      · exact ⟨place, Or.inl inUse, old place inUse⟩
    · rintro ⟨place, inUse | rfl, rfl⟩
      · exact Or.inr ⟨place, inUse, (old place inUse).symm⟩
      · exact Or.inl new
  · dsimp only
    rcases (IndexTable.mem_alloc_insert available value now).mp inUse with inUse | rfl
    · rw [old other inUse, update_of_ne (different other inUse),
        update_of_ne (IndexTable.ne_of_available available inUse)]
      exact holds.count other inUse
    · rw [new, update_self, update_self, Nat.zero_mod]
  · dsimp only
    rw [IndexTable.time_insert available]
    rcases (IndexTable.mem_alloc_insert available value now).mp inUse with inUse | rfl
    · rw [old other inUse, update_of_ne (different other inUse),
        update_of_ne (IndexTable.ne_of_available available inUse)]
      exact holds.time other inUse
    · rw [new, update_self, update_self]

theorem expire
    (sorted : entries.Sorted)
    (limit : ℤ) :
    Holds buckets (entries.expire limit) (row.expire limit) := by
  refine ⟨fun value => ?_, fun index inUse => ?_, fun index inUse => ?_⟩
  · simp only [CountMin.Row.expire, Finset.mem_filter, holds.held,
      sorted.mem_expire, IndexTable.expire_value]
    constructor
    · rintro ⟨⟨index, inUse, rfl⟩, fresh⟩
      exact ⟨index, ⟨inUse, (holds.time index inUse).symm ▸ fresh⟩, rfl⟩
    · rintro ⟨index, ⟨inUse, fresh⟩, rfl⟩
      exact ⟨⟨index, inUse, rfl⟩, holds.time index inUse ▸ fresh⟩
  · rw [IndexTable.expire_value]
    exact holds.count index (IndexTable.mem_of_mem_expire inUse)
  · rw [IndexTable.expire_value, IndexTable.expire_time]
    exact holds.time index (IndexTable.mem_of_mem_expire inUse)

end

end Holds

/-- The entries and buckets of the first row are its table.  Hash values are
below the capacity. -/
structure Counts
    (threshold : ℕ)
    {capacity : ℕ}
    (sketch : Sketch)
    (entries : IndexTable capacity ℕ)
    (tables : Tables) : Prop where
  hashes_eq : sketch.internal.hashes = tables.hashes
  threshold_eq : sketch.threshold = threshold
  holds : Holds sketch.buckets entries (tables.rows 0)
  bounded : ∀ row, tables.hashes row < capacity
  small : ∀ row, (tables.rows row).held ⊆ Finset.range capacity

/-- The sketch has the table of the first row, and `buckets` in the other
rows. -/
def Represents
    (build : Map.Build)
    (hash : ℕ → ℕ)
    (capacity threshold : ℕ)
    (buckets : ℤ → ℕ)
    (now : ℤ)
    (sketch : Sketch)
    (tables : Tables) : Prop :=
  ∃ entries : IndexTable capacity ℕ,
    Searched build hash buckets now sketch entries ∧ Counts threshold sketch entries tables

section

variable (counts : Counts threshold sketch entries tables)

include counts

theorem Counts.resembles (resembles : sketch.Resembles other) :
    Counts threshold other entries tables where
  hashes_eq := resembles.hashes_eq.trans counts.hashes_eq
  threshold_eq := resembles.threshold_eq.trans counts.threshold_eq
  holds := resembles.buckets_eq ▸ counts.holds
  bounded := counts.bounded
  small := counts.small

variable (searched : Searched build hash buckets now sketch entries)

include searched

/-- The map has a hash value exactly when the table of the first row has it. -/
theorem Counts.getClient_isSome_iff :
    (∃ index, sketch.getClient build (.ofHash hash) row = some index) ↔
      tables.hashes row ∈ (tables.rows 0).held := by
  rw [counts.holds.held, ← counts.hashes_eq]
  simp only [searched.getClient_eq_some_iff]

theorem Counts.not_mem
    (absent : sketch.getClient build (.ofHash hash) row = none) :
    tables.hashes row ∉ (tables.rows 0).held := by
  intro isHeld
  obtain ⟨index, found⟩ := (counts.getClient_isSome_iff searched).mpr isHeld
  exact Option.some_ne_none index (found.symm.trans absent)

theorem Counts.firstCount_eq
    (found : sketch.getClient build (.ofHash hash) 0 = some index) :
    sketch.buckets (sketch.offseted 0 index) = firstCount tables := by
  obtain ⟨inUse, isValue⟩ := searched.getClient_eq_some_iff.mp found
  rw [offseted_zero, counts.holds.count index inUse, isValue, counts.hashes_eq, firstCount]

end

theorem FirstRow.buckets_offseted
    (first : FirstRow build hash buckets now sketch entries)
    (other : row ≠ 0)
    (found : sketch.getClient build (.ofHash hash) row = some index) :
    sketch.buckets (sketch.offseted row index) =
      buckets (sketch.offseted row index) := by
  apply first.untouched
  have nonnegative := (first.inRange found).1
  have later : (1 : ℤ) ≤ (row : ℕ) := by
    have := Fin.val_ne_zero_iff.mpr other
    omega
  rw [offseted, first.capacity_eq]
  have := Int.mul_le_mul_of_nonneg_left later (Int.natCast_nonneg capacity)
  omega

theorem Counts.sketchFetch_eq_true_iff
    (counts : Counts threshold sketch entries tables)
    (searched : Searched build hash buckets now sketch entries) :
    (sketch.sketchFetch build (.ofHash hash)).1 = true ↔
      (Known tables ∨ Shadowed tables) ∧
        (Known tables → threshold < firstCount tables) ∧
        ∀ row, row ≠ 0 → ∀ index,
            sketch.getClient build (.ofHash hash) row = some index →
          threshold < buckets (sketch.offseted row index) := by
  rw [searched.sketchFetch.1, CountMin.Sketch.any_min?_iff, counts.threshold_eq]
  simp only [List.mem_filterMap, List.mem_finRange, true_and, bucketValue, Option.map_eq_some_iff]
  constructor
  · rintro ⟨⟨_, row, index, found, _⟩, every⟩
    refine ⟨?_, fun known => ?_, fun other notFirst index found => ?_⟩
    · by_cases isFirst : row = 0
      · subst isFirst
        exact Or.inl ((counts.getClient_isSome_iff searched).mp ⟨index, found⟩)
      · exact Or.inr ⟨row, isFirst, (counts.getClient_isSome_iff searched).mp ⟨index, found⟩⟩
    · obtain ⟨index, found⟩ := (counts.getClient_isSome_iff searched).mpr known
      rw [← counts.firstCount_eq searched found]
      exact every _ ⟨0, index, found, rfl⟩
    · rw [← searched.buckets_offseted notFirst found]
      exact every _ ⟨other, index, found, rfl⟩
  · rintro ⟨present, first, others⟩
    constructor
    · rcases present with known | ⟨row, _, shadowed⟩
      · obtain ⟨index, found⟩ := (counts.getClient_isSome_iff searched).mpr known
        exact ⟨_, 0, index, found, rfl⟩
      · obtain ⟨index, found⟩ := (counts.getClient_isSome_iff searched).mpr shadowed
        exact ⟨_, row, index, found, rfl⟩
    · rintro _ ⟨row, index, found, rfl⟩
      by_cases isFirst : row = 0
      · subst isFirst
        rw [counts.firstCount_eq searched found]
        exact first ((counts.getClient_isSome_iff searched).mp ⟨index, found⟩)
      · rw [searched.buckets_offseted isFirst found]
        exact others row isFirst index found

/-! ### Calls -/

theorem Represents.sketchComputeHashes
    (positive : 0 < capacity)
    (represents : Represents build hash capacity threshold buckets now
      sketch tables)
    (rowHash : Fin sketchHashes → K → ℕ)
    (key : K) :
    Represents build hash capacity threshold buckets now
      (sketch.sketchComputeHashes rowHash key)
      (tables.compute fun row => rowHash row key % capacity) := by
  obtain ⟨entries, searched, counts⟩ := represents
  refine ⟨entries, searched.sketchComputeHashes rowHash key,
    { counts with
      hashes_eq := ?_
      bounded := fun row => Nat.mod_lt _ positive }⟩
  rw [Sketch.sketchComputeHashes, searched.capacity_eq]
  rfl

section

variable (counts : Counts threshold sketch entries tables)

include counts

theorem Counts.touch_eq
    (now : ℤ)
    (row : Fin sketchHashes) :
    ((tables.rows row).touch capacity now (tables.hashes row)).1 = true ∧
      ((tables.rows row).touch capacity now (tables.hashes row)).2.held =
        insert (tables.hashes row) (tables.rows row).held := by
  have touched := CountMin.Row.touch_of_subset (counts.small row)
    (Finset.mem_range.mpr (counts.bounded row)) now
  rwa [Finset.card_range] at touched

theorem Counts.touch_fst (now : ℤ) : (tables.touch capacity now).1 = true :=
  decide_eq_true fun row => (counts.touch_eq now row).1

theorem Counts.small_touch
    (now : ℤ)
    (row : Fin sketchHashes) :
    ((tables.touch capacity now).2.rows row).held ⊆ Finset.range capacity := by
  refine (counts.touch_eq now row).2 ▸ Finset.insert_subset ?_ (counts.small row)
  exact Finset.mem_range.mpr (counts.bounded row)

theorem Counts.available
    (searched : Searched build hash buckets now sketch entries)
    (absent : ¬Known tables) :
    ∃ index rest, entries.allocator.free = index :: rest := by
  cases shape : entries.allocator.free with
  | cons index rest => exact ⟨index, rest, rfl⟩
  | nil =>
      have total := entries.allocator.length_add_length
      rw [shape, List.length_nil] at total
      have nodup : (entries.alloc.map entries.value).Nodup :=
        entries.nodup_alloc.map_on fun _ inUse _ otherInUse =>
          searched.index_unique inUse otherInUse
      have isHeld : (entries.alloc.map entries.value).toFinset = (tables.rows 0).held := by
        ext value
        rw [counts.holds.held, List.mem_toFinset, List.mem_map]
      have card := List.toFinset_card_of_nodup nodup
      rw [isHeld, List.length_map, IndexTable.alloc] at card
      have room := Finset.card_lt_card
        ⟨counts.small 0, fun all => absent (all (Finset.mem_range.mpr (counts.bounded 0)))⟩
      rw [Finset.card_range] at room
      omega

end

section

variable (represents : Represents build hash capacity threshold buckets now sketch tables)

include represents

theorem Represents.sketchTouchBuckets :
    ∃ touched, sketch.sketchTouchBuckets build (.ofHash hash) now =
        (some (tables.touch capacity now).1, touched) ∧
      Represents build hash capacity threshold buckets now touched
        (tables.touch capacity now).2 := by
  obtain ⟨entries, searched, counts⟩ := represents
  rw [counts.touch_fst]
  cases found : sketch.getClient build (.ofHash hash) 0 with
  | some index =>
      obtain ⟨inUse, isValue⟩ := searched.getClient_eq_some_iff.mp found
      obtain ⟨touched, returns, kept, resembles⟩ := searched.sketchTouchBuckets_of_found found
      have isHeld := (counts.getClient_isSome_iff searched).mp ⟨index, found⟩
      have counted := (counts.holds.increment searched.index_unique inUse).refresh
        searched.index_unique inUse now
      rw [isValue, counts.hashes_eq] at counted
      refine ⟨touched, returns, _, kept, Counts.resembles ?_ resembles⟩
      exact
        { counts with
          holds := by
            rw [CountMin.Sketch.touch]
            dsimp only
            rw [CountMin.Row.touch_of_mem isHeld]
            exact counted
          small := counts.small_touch now }
  | none =>
      have absent : ¬Known tables := counts.not_mem searched found
      obtain ⟨index, rest, available⟩ := counts.available searched absent
      obtain ⟨touched, returns, kept, resembles⟩ :=
        searched.sketchTouchBuckets_of_available found available
      have added := counts.holds.insert available absent now
      have touch_eq := CountMin.Row.touch_of_not_mem (counts.small 0)
        (Finset.mem_range.mpr (counts.bounded 0)) absent now
      rw [Finset.card_range] at touch_eq
      rw [counts.hashes_eq] at kept
      refine ⟨touched, returns, _, kept, Counts.resembles ?_ resembles⟩
      exact
        { counts with
          holds := by
            rw [CountMin.Sketch.touch]
            dsimp only
            rw [touch_eq]
            exact added
          small := counts.small_touch now }

theorem Represents.sketchRefresh :
    Represents build hash capacity threshold buckets now
      (sketch.sketchRefresh build (.ofHash hash) now) (tables.refresh now) := by
  obtain ⟨entries, searched, counts⟩ := represents
  have small : ∀ row, ((tables.refresh now).rows row).held ⊆ Finset.range capacity := by
    intro row
    rw [CountMin.Sketch.refresh]
    dsimp only
    rw [CountMin.Row.held_refresh]
    exact counts.small row
  cases found : sketch.getClient build (.ofHash hash) 0 with
  | some index =>
      obtain ⟨inUse, isValue⟩ := searched.getClient_eq_some_iff.mp found
      obtain ⟨kept, resembles⟩ := searched.sketchRefresh_of_found found
      have used := counts.holds.refresh searched.index_unique inUse now
      rw [isValue, counts.hashes_eq] at used
      refine ⟨_, kept, Counts.resembles ?_ resembles⟩
      exact { counts with holds := used, small := small }
  | none =>
      obtain ⟨kept, resembles⟩ := searched.sketchRefresh_of_absent found now
      refine ⟨_, kept, Counts.resembles ?_ resembles⟩
      refine { counts with holds := ?_, small := small }
      rw [CountMin.Sketch.refresh]
      dsimp only
      rw [CountMin.Row.refresh, if_neg (counts.not_mem searched found)]
      exact counts.holds

theorem Represents.sketchExpire (limit : ℤ) :
    ∃ expired,
      (sketch.sketchExpire build (.ofHash hash) limit).Returns expired ∧
      Represents build hash capacity threshold buckets now expired
        (tables.expire limit) := by
  obtain ⟨entries, searched, counts⟩ := represents
  obtain ⟨expired, returns, kept, resembles⟩ := searched.sketchExpire limit
  refine ⟨expired, returns, _, kept, Counts.resembles ?_ resembles⟩
  exact
    { counts with
      holds := counts.holds.expire searched.sorted limit
      small := fun row => (Finset.filter_subset _ _).trans (counts.small row) }

theorem Represents.mono (le : now ≤ later) :
    Represents build hash capacity threshold buckets later sketch tables := by
  obtain ⟨entries, searched, counts⟩ := represents
  exact ⟨entries, { searched with toFirstRow := searched.toFirstRow.mono le }, counts⟩

theorem Represents.sketchFetch :
    Represents build hash capacity threshold buckets now
      (sketch.sketchFetch build (.ofHash hash)).2 tables := by
  obtain ⟨entries, searched, counts⟩ := represents
  obtain ⟨_, kept, resembles⟩ := searched.sketchFetch
  exact ⟨entries, kept, counts.resembles resembles⟩

end

/-! ### Runs -/

theorem Represents.run_returns
    (positive : 0 < capacity)
    (rowHash : Fin sketchHashes → K → ℕ)
    {permits : Tables → Prop}
    (answers : ∀ {now sketch tables},
      Represents build hash capacity threshold buckets now sketch tables →
        permits tables →
        (sketch.sketchFetch build (.ofHash hash)).1 = answer tables)
    (ordered : (calls.filterMap Call.now).Pairwise (· ≤ ·))
    (started : ∀ time ∈ calls.filterMap Call.now, now ≤ time)
    (represents : Represents build hash capacity threshold buckets now
      sketch tables)
    (permitted : Transcript.Permitted
      (fun call tables => call = .fetch → permits tables)
        (specWith capacity answer rowHash) calls tables) :
    ∃ final, (run build (.ofHash hash) rowHash calls sketch).Returns
      ((Transcript.run (specWith capacity answer rowHash) calls tables).1,
        final) := by
  refine Fuelled.transcript_returns_of_times Call.now
    (Represents build hash capacity threshold buckets)
    (fun le represents => represents.mono le) ?_ ordered started represents permitted
  intro call now sketch tables timed represents permits
  cases call with
  | computeHashes key =>
      exact ⟨_, Fuelled.returns_pure _, represents.sketchComputeHashes positive rowHash key⟩
  | touchBuckets time =>
      obtain rfl := timed time rfl
      obtain ⟨touched, returns, kept⟩ := represents.sketchTouchBuckets
      refine ⟨touched, ?_, kept⟩
      rw [exec, returns]
      exact Fuelled.returns_pure _
  | fetch =>
      refine ⟨_, ?_, represents.sketchFetch⟩
      rw [specWith, ← answers represents (permits rfl), exec]
      exact Fuelled.returns_pure _
  | refresh time =>
      obtain rfl := timed time rfl
      exact ⟨_, Fuelled.returns_pure _, represents.sketchRefresh⟩
  | expire limit =>
      obtain ⟨expired, returns, kept⟩ := represents.sketchExpire limit
      exact ⟨expired, returns.bind (Fuelled.returns_pure _), kept⟩

/-! ### Answers -/

theorem Represents.fetch_of_faithful
    (represents : Represents build hash capacity threshold buckets now
      sketch tables)
    (faithful : Faithful threshold tables) :
    (sketch.sketchFetch build (.ofHash hash)).1 = tables.fetch threshold := by
  obtain ⟨entries, searched, counts⟩ := represents
  rw [Bool.eq_iff_iff, counts.sketchFetch_eq_true_iff searched]
  by_cases shadowed : Shadowed tables
  · obtain ⟨known, small, notOver⟩ := faithful.1 shadowed
    rw [notOver]
    constructor
    · rintro ⟨_, first, _⟩
      exact absurd (first known) (Nat.not_lt_of_le small)
    · intro impossible
      cases impossible
  · rw [faithful.2 shadowed]
    constructor
    · rintro ⟨known | isShadowed, first, _⟩
      · exact ⟨known, first known⟩
      · exact absurd isShadowed shadowed
    · rintro ⟨known, first⟩
      refine ⟨Or.inl known, fun _ => first, fun row other index found => ?_⟩
      exact absurd ⟨row, other, (counts.getClient_isSome_iff searched).mp ⟨index, found⟩⟩ shadowed

theorem Represents.fetch_of_junk
    (represents : Represents build hash capacity threshold (fun _ => junk) now
      sketch tables) :
    (sketch.sketchFetch build (.ofHash hash)).1 =
      answerWith threshold junk tables := by
  obtain ⟨entries, searched, counts⟩ := represents
  rw [Bool.eq_iff_iff, counts.sketchFetch_eq_true_iff searched, answerWith, decide_eq_true_iff]
  refine and_congr_right fun _ => and_congr_right fun _ => ?_
  constructor
  · rintro others ⟨row, other, isHeld⟩
    obtain ⟨index, found⟩ := (counts.getClient_isSome_iff searched).mpr isHeld
    exact others row other index found
  · intro every row other index found
    exact every ⟨row, other, (counts.getClient_isSome_iff searched).mp ⟨index, found⟩⟩

theorem Represents.allocate
    (positive : 0 < capacity)
    (bounded : capacity * sketchHashes ≤ 2 ^ 30)
    (allocated : sketchAllocate build memory capacity threshold = some sketch)
    (rowHash : Fin sketchHashes → K → ℕ)
    (key : K)
    (now : ℤ) :
    Represents build hash capacity threshold memory.buckets now
      (sketch.sketchComputeHashes rowHash key)
      (Tables.empty.compute fun row => rowHash row key % capacity) := by
  obtain ⟨first, threshold_eq⟩ := FirstRow.allocate memory positive bounded allocated now
  refine ⟨_, first.sketchComputeHashes rowHash key, ?_⟩
  exact
    { hashes_eq := by
        rw [Sketch.sketchComputeHashes, first.capacity_eq]
        rfl
      threshold_eq := threshold_eq
      holds :=
        { held := fun value => by
            constructor
            · intro isHeld
              exact absurd isHeld (Finset.notMem_empty value)
            · rintro ⟨_, inUse, _⟩
              exact absurd inUse List.not_mem_nil
          count := fun _ inUse => absurd inUse List.not_mem_nil
          time := fun _ inUse => absurd inUse List.not_mem_nil }
      bounded := fun _ => Nat.mod_lt _ positive
      small := fun _ => Finset.empty_subset _ }

end Simulation

/-! ## Which runs count in all rows -/

theorem permitted_of_answers
    {capacity threshold junk : ℕ}
    (exceeds : threshold < junk)
    (rowHash : Fin sketchHashes → K → ℕ)
    (zeros : (Transcript.run
      (specWith capacity (answerWith threshold 0) rowHash) calls
      tables).1 = (Transcript.run (spec capacity threshold rowHash) calls
        tables).1)
    (ones : (Transcript.run
      (specWith capacity (answerWith threshold junk) rowHash) calls
      tables).1 = (Transcript.run (spec capacity threshold rowHash) calls
        tables).1) :
    Transcript.Permitted
      (fun call tables => call = .fetch → Faithful threshold tables)
      (spec capacity threshold rowHash) calls tables := by
  induction calls generalizing tables with
  | nil => trivial
  | cons call calls ih =>
      rw [Transcript.run_cons, Transcript.run_cons] at zeros ones
      obtain ⟨zeroReply, zeroReplies⟩ := List.cons.inj zeros
      obtain ⟨oneReply, oneReplies⟩ := List.cons.inj ones
      rw [specWith_snd capacity _ (fun tables => tables.fetch threshold)] at zeroReplies
      rw [specWith_snd capacity _ (fun tables => tables.fetch threshold)] at oneReplies
      refine ⟨?_, ih zeroReplies oneReplies⟩
      rintro rfl
      exact faithful_of_answerWith exceeds (Option.some.inj zeroReply) (Option.some.inj oneReply)

theorem run_computeHashes
    {build : Map.Build}
    {hashOps : Map.KeyOps ℕ}
    {rowHash : Fin sketchHashes → K → ℕ}
    {key : K}
    {calls : List (Call K)}
    {sketch final : Sketch}
    {replies : List (Option Bool)}
    (returns : (run build hashOps rowHash calls
      (sketch.sketchComputeHashes rowHash key)).Returns (replies, final)) :
    (run build hashOps rowHash (.computeHashes key :: calls) sketch).Returns
      (none :: replies, final) :=
  (Fuelled.returns_pure (none, sketch.sketchComputeHashes rowHash key)).bind
    (returns.bind (Fuelled.returns_pure _))

theorem exists_le_times
    {times : List ℤ}
    (ordered : times.Pairwise (· ≤ ·)) :
    ∃ now, ∀ time ∈ times, now ≤ time := by
  cases times with
  | nil => exact ⟨0, by simp⟩
  | cons first later =>
      exact ⟨first, List.forall_mem_cons.mpr ⟨Int.le_refl first, (List.pairwise_cons.mp ordered).1⟩⟩

/-- A run that starts with the hash values of a key and whose times never
decrease returns, from any memory, the replies of independent tables for the
rows, exactly when every `sketch_fetch` finds the first row faithful. -/
theorem sketch_counts_independently_iff
    (build : Map.Build)
    (hash : ℕ → ℕ)
    (rowHash : Fin sketchHashes → K → ℕ)
    {capacity threshold : ℕ}
    (positive : 0 < capacity)
    (bounded : capacity * sketchHashes ≤ 2 ^ 30)
    (isThreshold : threshold < 2 ^ 16)
    (key : K)
    {calls : List (Call K)}
    (ordered : (calls.filterMap Call.now).Pairwise (· ≤ ·)) :
    (∀ memory sketch, (∀ cell, memory.buckets cell < 2 ^ 32) →
        sketchAllocate build memory capacity threshold = some sketch →
          ∃ final,
            (run build (.ofHash hash) rowHash (.computeHashes key :: calls)
              sketch).Returns ((Transcript.run (spec capacity threshold rowHash)
              (.computeHashes key :: calls) Tables.empty).1, final)) ↔
      Transcript.Permitted
        (fun call tables => call = .fetch → Faithful threshold tables)
        (spec capacity threshold rowHash) (.computeHashes key :: calls)
          Tables.empty := by
  obtain ⟨now, started⟩ := exists_le_times ordered
  constructor
  · intro agrees
    have answers : ∀ junk < 2 ^ 32,
        (Transcript.run (specWith capacity (answerWith threshold junk) rowHash)
          (.computeHashes key :: calls) Tables.empty).1 =
        (Transcript.run (spec capacity threshold rowHash) (.computeHashes key :: calls)
          Tables.empty).1 := by
      intro junk isBucket
      obtain ⟨sketch, allocated⟩ := exists_sketchAllocate (Memory.filled junk) bounded build
      obtain ⟨_, agreed⟩ := agrees _ sketch (fun _ => isBucket) allocated
      have represents : Represents build hash capacity threshold (fun _ => junk) now _ _ :=
        Represents.allocate positive bounded allocated rowHash key now
      have permitted : Transcript.Permitted (fun call _ => call = .fetch → True)
          (specWith capacity (answerWith threshold junk) rowHash) calls
          (Tables.empty.compute fun row => rowHash row key % capacity) := by
        apply Transcript.permitted_of_forall
        intro call _ tables _
        trivial
      obtain ⟨_, computed⟩ := represents.run_returns positive rowHash
        (fun represents (_ : True) => represents.fetch_of_junk) ordered started permitted
      exact (Prod.mk.inj ((run_computeHashes computed).unique agreed)).1
    exact permitted_of_answers (by omega : threshold < 2 ^ 32 - 1) rowHash
      (answers 0 (by decide)) (answers (2 ^ 32 - 1) (by decide))
  · rintro ⟨_, permitted⟩ memory sketch _ allocated
    have represents : Represents build hash capacity threshold memory.buckets now _ _ :=
      Represents.allocate positive bounded allocated rowHash key now
    obtain ⟨final, returns⟩ := represents.run_returns positive rowHash
      (fun represents faithful => represents.fetch_of_faithful faithful) ordered started
      permitted
    exact ⟨final, run_computeHashes returns⟩

/-- Eight different hash values: a key that was touched twice is over the
threshold zero, although the memory was zero. -/
theorem sketch_counts_independently_distinct :
    ∃ sketch, sketchAllocate .modulo (Memory.filled 0) 8 0 = some sketch ∧
      ∃ final, (run .modulo (.ofHash id) (fun row (_ : Unit) => row)
        [.computeHashes (), .touchBuckets 1, .touchBuckets 2, .fetch]
          sketch).Returns ([none, some true, some true, some true], final) := by
  have permitted : Transcript.Permitted
      (fun call tables => call = .fetch → Faithful 0 tables)
      (spec 8 0 fun row (_ : Unit) => row)
      [.computeHashes (), .touchBuckets 1, .touchBuckets 2, .fetch] Tables.empty := by
    refine ⟨fun impossible => ?_, fun impossible => ?_, fun impossible => ?_,
      fun _ => by decide, trivial⟩ <;> cases impossible
  have agrees := (sketch_counts_independently_iff .modulo id (fun row (_ : Unit) => row)
    (by decide : 0 < 8) (by decide) (by decide) () (by decide)).mpr permitted
  obtain ⟨sketch, allocated⟩ : ∃ sketch,
      sketchAllocate .modulo (Memory.filled 0) 8 0 = some sketch := ⟨_, rfl⟩
  exact ⟨sketch, allocated, agrees _ sketch (fun _ => Nat.two_pow_pos 32) allocated⟩

/-- One hash value for all rows: a key that was touched twice is not over the
threshold zero, because the buckets of the other rows were never written. -/
theorem sketch_forgets_touched_key :
    ∃ sketch, sketchAllocate .modulo (Memory.filled 0) 1 0 = some sketch ∧
      (∃ final, (run .modulo (.ofHash id) (fun row (_ : Unit) => row)
        [.computeHashes (), .touchBuckets 1, .touchBuckets 2, .fetch]
          sketch).Returns ([none, some true, some true, some false], final)) ∧
      (Transcript.run (spec 1 0 fun row (_ : Unit) => row)
        [.computeHashes (), .touchBuckets 1, .touchBuckets 2, .fetch]
          Tables.empty).1 = [none, some true, some true, some true] := by
  refine ⟨_, rfl, Fuelled.exists_returns_fst 1 ?_, by decide⟩
  decide

end Sketch
end Vigor
