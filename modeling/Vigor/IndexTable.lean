import Vigor.DoubleChain.Impl

/-!
# Tables of timed entries

The abstract state behind a flow table: an allocator of indexes, the value
that each index stands for and the time of its last use.  The network
functions keep this state in several structures, which the following modules
show to agree with it.

Expiry removes entries from the old end while they are old.  When the times of
use never decrease, the entries are sorted by time, and expiry removes exactly
the old ones.
-/

namespace Vigor

open DoubleChain Function

/-- Entries at the allocated indexes.  Values and times at free indexes mean
nothing. -/
structure IndexTable (capacity : Nat) (V : Type u) where
  /-- Which indexes are in use, oldest first. -/
  allocator : Allocator capacity
  /-- What an index stands for. -/
  value : ℤ → V
  /-- When an index was last used. -/
  time : ℤ → ℤ

namespace IndexTable

variable {capacity : Nat} {V : Type u}

/-- No index is in use. -/
def initial
    (capacity : Nat)
    (value : ℤ → V)
    (time : ℤ → ℤ) :
    IndexTable capacity V :=
  { allocator := Allocator.initial capacity
    value := value
    time := time }

/-- Indexes in use, oldest first. -/
def alloc (table : IndexTable capacity V) : List ℤ :=
  table.allocator.alloc

/-- The index of an entry with a property. -/
def find
    (test : V → Bool)
    (table : IndexTable capacity V) : Option ℤ :=
  table.alloc.find? fun index => test (table.value index)

/-- Use an entry. -/
def refresh
    (index time : ℤ)
    (table : IndexTable capacity V) :
    IndexTable capacity V :=
  { table with
    allocator := (table.allocator.rejuvenateIndex index).2
    time := update table.time index time }

/-- Add an entry at the first free index. -/
def insert
    (value : V)
    (time : ℤ)
    (table : IndexTable capacity V) :
    Option ℤ × IndexTable capacity V :=
  match table.allocator.allocateNewIndex with
  | (some index, allocator) =>
      (some index,
        { allocator := allocator
          value := update table.value index value
          time := update table.time index time })
  | (none, _) => (none, table)

/-- Remove an entry. -/
def remove
    (index : ℤ)
    (table : IndexTable capacity V) :
    IndexTable capacity V :=
  { table with allocator := (table.allocator.freeIndex index).2 }

/-- Find an entry and use it. -/
def lookup
    (test : V → Bool)
    (time : ℤ)
    (table : IndexTable capacity V) :
    Option ℤ × IndexTable capacity V :=
  match table.find test with
  | some index => (some index, table.refresh index time)
  | none => (none, table)

/-- Find an entry and use it, or add it when there is none. -/
def ensure
    (test : V → Bool)
    (value : V)
    (time : ℤ)
    (table : IndexTable capacity V) : Option ℤ × IndexTable capacity V :=
  match table.find test with
  | some index => (some index, table.refresh index time)
  | none => table.insert value time

/-- Find an entry and remove it. -/
def removeFound
    (test : V → Bool)
    (table : IndexTable capacity V) :
    Option ℤ × IndexTable capacity V :=
  match table.find test with
  | some index => (some index, table.remove index)
  | none => (none, table)

/-- Remove several entries, one after the other. -/
def removeAll
    (indexes : List ℤ)
    (table : IndexTable capacity V) :
    IndexTable capacity V :=
  indexes.foldl (fun table index => table.remove index) table

/-- Entries at the old end that were last used before the given time. -/
def expired
    (time : ℤ)
    (table : IndexTable capacity V) : List ℤ :=
  table.alloc.takeWhile fun index => table.time index < time

/-- Remove the old entries from the old end. -/
def expire
    (time : ℤ)
    (table : IndexTable capacity V) :
    IndexTable capacity V :=
  table.removeAll (table.expired time)

/-! ## Effect on the indexes in use -/

variable {table : IndexTable capacity V} {index : ℤ}

theorem alloc_refresh
    (inUse : index ∈ table.alloc)
    (time : ℤ) :
    (table.refresh index time).alloc = table.alloc.erase index ++ [index] := by
  have allocated : index ∈ table.allocator.alloc := inUse
  simp [alloc, refresh, Allocator.rejuvenateIndex, allocated]

theorem alloc_remove (inUse : index ∈ table.alloc) :
    (table.remove index).alloc = table.alloc.erase index := by
  have allocated : index ∈ table.allocator.alloc := inUse
  simp [alloc, remove, Allocator.freeIndex, allocated]

theorem insert_of_nil
    (full : table.allocator.free = [])
    (value : V)
    (time : ℤ) :
    table.insert value time = (none, table) := by
  rw [insert, Allocator.allocateNewIndex_of_nil full]

variable {rest : List ℤ}

section

variable (available : table.allocator.free = index :: rest)

include available

theorem insert_of_cons
    (value : V)
    (time : ℤ) :
    table.insert value time =
      (some index,
        { allocator := table.allocator.allocateNewIndex.2
          value := update table.value index value
          time := update table.time index time }) := by
  have first := (Allocator.allocateNewIndex_of_cons available).1
  unfold insert
  generalize table.allocator.allocateNewIndex = outcome at *
  obtain ⟨found, allocator⟩ := outcome
  dsimp only at first
  subst first
  rfl

theorem alloc_insert
    (value : V)
    (time : ℤ) :
    (table.insert value time).2.alloc = table.alloc ++ [index] := by
  rw [insert_of_cons available]
  exact (Allocator.allocateNewIndex_of_cons available).2.1

theorem ne_of_available (inUse : other ∈ table.alloc) : other ≠ index := by
  rintro rfl
  exact table.allocator.not_mem_free inUse (by simp [available])

theorem length_lt_of_available : table.alloc.length < capacity := by
  have total := table.allocator.length_add_length
  rw [available, List.length_cons] at total
  rw [alloc]
  omega

theorem mem_alloc_insert
    (value : V)
    (time : ℤ) :
    other ∈ (table.insert value time).2.alloc ↔
      other ∈ table.alloc ∨ other = index := by
  rw [alloc_insert available, List.mem_append, List.mem_singleton]

theorem value_insert
    (value : V)
    (time : ℤ) :
    (table.insert value time).2.value = update table.value index value := by
  rw [insert_of_cons available]

theorem time_insert
    (value : V)
    (time : ℤ) :
    (table.insert value time).2.time = update table.time index time := by
  rw [insert_of_cons available]

end

theorem nodup_alloc (table : IndexTable capacity V) : table.alloc.Nodup :=
  (List.nodup_append.mp table.allocator.nodup).1

theorem alloc_refresh_perm
    (inUse : index ∈ table.alloc)
    (time : ℤ) :
    (table.refresh index time).alloc.Perm table.alloc := by
  rw [alloc_refresh inUse]
  exact (List.perm_append_singleton index _).trans (List.perm_cons_erase inUse).symm

@[simp] theorem mem_alloc_refresh
    {index other time : ℤ}
    (inUse : index ∈ table.alloc) :
    other ∈ (table.refresh index time).alloc ↔ other ∈ table.alloc :=
  (alloc_refresh_perm inUse time).mem_iff

@[simp] theorem mem_alloc_remove (inUse : index ∈ table.alloc) :
    other ∈ (table.remove index).alloc ↔
      other ≠ index ∧ other ∈ table.alloc := by
  rw [alloc_remove inUse, table.nodup_alloc.mem_erase_iff]

theorem find_eq_some (found : table.find test = some index) :
    index ∈ table.alloc ∧ test (table.value index) = true :=
  ⟨List.mem_of_find?_eq_some found,
    List.find?_some (p := fun index => test (table.value index)) found⟩

/-! ## Expiry -/

@[simp] theorem removeAll_value
    (indexes : List ℤ)
    (table : IndexTable capacity V) :
    (table.removeAll indexes).value = table.value := by
  induction indexes generalizing table with
  | nil => rfl
  | cons index rest ih => exact ih (table.remove index)

@[simp] theorem removeAll_time
    (indexes : List ℤ)
    (table : IndexTable capacity V) :
    (table.removeAll indexes).time = table.time := by
  induction indexes generalizing table with
  | nil => rfl
  | cons index rest ih => exact ih (table.remove index)

theorem alloc_removeAll (split : table.alloc = indexes ++ rest) :
    (table.removeAll indexes).alloc = rest := by
  induction indexes generalizing table with
  | nil => exact split
  | cons index indexes ih =>
      change ((table.remove index).removeAll indexes).alloc = rest
      apply ih
      rw [alloc_remove (by simp [split]), split]
      simp

theorem free_removeAll (split : table.alloc = indexes ++ rest) :
    (table.removeAll indexes).allocator.free =
      indexes.reverse ++ table.allocator.free := by
  induction indexes generalizing table with
  | nil => rfl
  | cons index indexes ih =>
      have inUse : index ∈ table.allocator.alloc := by
        change index ∈ table.alloc
        simp [split]
      have shorter : (table.remove index).alloc = indexes ++ rest := by
        rw [alloc_remove inUse, split]
        simp
      have pushed : (table.remove index).allocator.free =
          index :: table.allocator.free := by
        simp [remove, Allocator.freeIndex, inUse]
      calc
        ((table.remove index).removeAll indexes).allocator.free =
            indexes.reverse ++ (table.remove index).allocator.free :=
          ih shorter
        _ = (index :: indexes).reverse ++ table.allocator.free := by
          rw [pushed]
          simp

theorem expire_of_old
    {index time : ℤ}
    (oldest : table.alloc = index :: rest)
    (old : table.time index < time) :
    table.expired time = index :: (table.remove index).expired time ∧
      table.expire time = (table.remove index).expire time := by
  have shorter : (table.remove index).alloc = rest := by
    rw [alloc_remove (by simp [oldest]), oldest]
    simp
  have first : table.expired time =
      index :: (table.remove index).expired time := by
    rw [expired, expired, shorter, oldest, List.takeWhile_cons_of_pos (by simpa using old)]
    rfl
  refine ⟨first, ?_⟩
  rw [expire, first]
  rfl

theorem expire_of_fresh
    {time : ℤ}
    (fresh : ∀ index ∈ table.alloc.head?, time ≤ table.time index) :
    table.expired time = [] ∧ table.expire time = table := by
  have none : table.expired time = [] := by
    rw [expired]
    cases shape : table.alloc with
    | nil => rfl
    | cons index rest =>
        have notOld := fresh index (by simp [shape])
        apply List.takeWhile_cons_of_neg
        simpa using notOld
  refine ⟨none, ?_⟩
  rw [expire, none]
  rfl

/-! ## Sorted tables -/

/-- Entries are in the order of their times. -/
def Sorted (table : IndexTable capacity V) : Prop :=
  table.alloc.Pairwise fun first second => table.time first ≤ table.time second

/-- No entry was used after the given time. -/
def NotAfter
    (table : IndexTable capacity V)
    (now : ℤ) : Prop :=
  ∀ index ∈ table.alloc, table.time index ≤ now

theorem NotAfter.mono
    (bounded : table.NotAfter now)
    (le : now ≤ later) :
    table.NotAfter later :=
  fun index inUse => Int.le_trans (bounded index inUse) le

/-- A list whose last element gets the latest time stays sorted. -/
theorem pairwise_update
    {time : ℤ → ℤ}
    (sorted : indexes.Pairwise fun first second => time first ≤ time second)
    (bounded : ∀ other ∈ indexes, time other ≤ now)
    (fresh : index ∉ indexes) :
    (indexes ++ [index]).Pairwise fun first second =>
      update time index now first ≤ update time index now second := by
  have unchanged : ∀ other ∈ indexes,
      update time index now other = time other := by
    intro other member
    apply update_of_ne
    intro same
    exact fresh (same ▸ member)
  refine List.pairwise_append.mpr ⟨?_, List.pairwise_singleton _ _, ?_⟩
  · refine List.Pairwise.imp_of_mem ?_ sorted
    intro first second firstMember secondMember le
    rw [unchanged first firstMember, unchanged second secondMember]
    exact le
  · intro first firstMember second secondMember
    rw [List.mem_singleton] at secondMember
    rw [unchanged first firstMember, secondMember, update_self]
    exact bounded first firstMember

section

variable {table : IndexTable capacity V} (sorted : table.Sorted)

include sorted

theorem Sorted.refresh
    {index now : ℤ}
    (bounded : table.NotAfter now)
    (inUse : index ∈ table.alloc) :
    (table.refresh index now).Sorted := by
  rw [Sorted, alloc_refresh inUse]
  apply pairwise_update (sorted.sublist List.erase_sublist)
  · intro other member
    exact bounded other (List.mem_of_mem_erase member)
  · exact table.nodup_alloc.not_mem_erase

theorem Sorted.insert
    {now : ℤ}
    (bounded : table.NotAfter now)
    (value : V) :
    (table.insert value now).2.Sorted := by
  cases shape : table.allocator.free with
  | nil => rw [insert_of_nil shape]; exact sorted
  | cons index rest =>
      rw [Sorted, alloc_insert shape, time_insert shape]
      apply pairwise_update sorted bounded
      intro inUse
      exact ne_of_available shape inUse rfl

theorem Sorted.remove (inUse : index ∈ table.alloc) :
    (table.remove index).Sorted := by
  rw [Sorted, alloc_remove inUse]
  exact sorted.sublist List.erase_sublist

end

theorem takeWhile_eq_filter
    {indexes : List ℤ}
    {time : ℤ → ℤ}
    (sorted : indexes.Pairwise fun first second => time first ≤ time second) :
    (indexes.takeWhile fun index => time index < limit) =
        (indexes.filter fun index => time index < limit) ∧
      (indexes.dropWhile fun index => time index < limit) =
        indexes.filter fun index => limit ≤ time index := by
  induction indexes with
  | nil => exact ⟨rfl, rfl⟩
  | cons index rest ih =>
      obtain ⟨below, restSorted⟩ := List.pairwise_cons.mp sorted
      obtain ⟨taken, dropped⟩ := ih restSorted
      by_cases old : time index < limit
      · have notFresh : ¬limit ≤ time index := Int.not_le.mpr old
        simp [old, notFresh, taken, dropped]
      · have fresh : limit ≤ time index := Int.not_lt.mp old
        have allFresh : ∀ other ∈ rest, limit ≤ time other :=
          fun other member => Int.le_trans fresh (below other member)
        have noneOld : rest.filter (fun other => time other < limit) = [] := by
          rw [List.filter_eq_nil_iff]
          intro other member
          simpa using allFresh other member
        have allKept :
            rest.filter (fun other => decide (limit ≤ time other)) = rest := by
          rw [List.filter_eq_self]
          intro other member
          simpa using allFresh other member
        simp [old, fresh, noneOld, allKept]

/-- The outcome of an exact expiry. -/
structure ExpiredExactly
    (time : ℤ)
    (before after : IndexTable capacity V) : Prop where
  /-- Exactly the entries that are not old stay, in the same order. -/
  kept : after.alloc = before.alloc.filter fun index => time ≤ before.time index
  /-- Exactly the old entries become free. -/
  freed : ∀ index, index ∈ after.allocator.free ↔
    index ∈ before.allocator.free ∨
      (index ∈ before.alloc ∧ before.time index < time)
  /-- Values stay. -/
  values : after.value = before.value
  /-- Times stay. -/
  times : after.time = before.time

variable {table : IndexTable capacity V}

/-- In a sorted table the entries that expire are exactly the old ones. -/
theorem Sorted.expired_eq
    (sorted : table.Sorted)
    (time : ℤ) :
    table.expired time = table.alloc.filter fun index =>
      table.time index < time :=
  (takeWhile_eq_filter sorted).1

theorem alloc_expire
    (table : IndexTable capacity V)
    (time : ℤ) :
    (table.expire time).alloc = table.alloc.dropWhile fun index =>
      table.time index < time := by
  apply alloc_removeAll
  exact (List.takeWhile_append_dropWhile).symm

theorem mem_of_mem_expire
    {index time : ℤ}
    (inUse : index ∈ (table.expire time).alloc) :
    index ∈ table.alloc := by
  rw [alloc_expire] at inUse
  exact (List.dropWhile_sublist _).mem inUse

theorem free_expire
    (table : IndexTable capacity V)
    (time : ℤ) :
    (table.expire time).allocator.free =
      (table.expired time).reverse ++ table.allocator.free := by
  apply free_removeAll
  exact (List.takeWhile_append_dropWhile).symm

theorem Sorted.expire_exact
    (sorted : table.Sorted)
    (time : ℤ) :
    ExpiredExactly time table (table.expire time) := by
  have kept : (table.expire time).alloc =
      table.alloc.filter fun index => time ≤ table.time index :=
    (alloc_expire table time).trans (takeWhile_eq_filter sorted).2
  refine ⟨kept, ?_, removeAll_value _ _, removeAll_time _ _⟩
  intro index
  rw [free_expire, sorted.expired_eq, List.mem_append, List.mem_reverse,
    List.mem_filter, decide_eq_true_iff]
  exact Or.comm

theorem Sorted.mem_expire
    (sorted : table.Sorted)
    {index time : ℤ} :
    index ∈ (table.expire time).alloc ↔
      index ∈ table.alloc ∧ time ≤ table.time index := by
  rw [(sorted.expire_exact time).kept, List.mem_filter, decide_eq_true_iff]

@[simp] theorem expire_value
    (table : IndexTable capacity V)
    (time : ℤ) :
    (table.expire time).value = table.value :=
  removeAll_value _ _

@[simp] theorem expire_time
    (table : IndexTable capacity V)
    (time : ℤ) :
    (table.expire time).time = table.time :=
  removeAll_time _ _

theorem Sorted.expire
    (sorted : table.Sorted)
    (time : ℤ) :
    (table.expire time).Sorted := by
  have exact_ := sorted.expire_exact time
  rw [Sorted, exact_.kept, exact_.times]
  exact sorted.sublist List.filter_sublist

/-! ## Sorted runs -/

/-- A step from one table to another, which passed a time to an allocation or a
rejuvenation or passed none. -/
structure Steps
    (before after : IndexTable capacity V)
    (touched : Option ℤ) : Prop where
  sorted : before.Sorted → (∀ time ∈ touched, before.NotAfter time) →
    after.Sorted
  notAfter : ∀ later, before.NotAfter later → (∀ time ∈ touched, time ≤ later) →
    after.NotAfter later

theorem update_le
    {time : ℤ → ℤ}
    (le : now ≤ later)
    (others : other ≠ index → time other ≤ later) :
    update time index now other ≤ later := by
  by_cases same : other = index
  · rw [same, update_self]
    exact le
  · rw [update_of_ne same]
    exact others same

namespace Steps

variable {table : IndexTable capacity V} {index time : ℤ}

theorem stay
    (table : IndexTable capacity V)
    (touched : Option ℤ) :
    Steps table table touched where
  sorted sorted _ := sorted
  notAfter _ bounded _ := bounded

theorem refresh (inUse : index ∈ table.alloc) :
    Steps table (table.refresh index time) (some time) where
  sorted sorted bounded := sorted.refresh (bounded time rfl) inUse
  notAfter _ bounded le other member :=
    update_le (le time rfl) fun _ =>
      bounded other ((mem_alloc_refresh inUse).mp member)

theorem insert (value : V) :
    Steps table (table.insert value time).2 (some time) where
  sorted sorted bounded := sorted.insert (bounded time rfl) value
  notAfter later bounded le := by
    cases shape : table.allocator.free with
    | nil =>
        rw [insert_of_nil shape]
        exact bounded
    | cons index rest =>
        intro other member
        rw [time_insert shape]
        refine update_le (le time rfl) fun different => ?_
        rcases (mem_alloc_insert shape value time).mp member with old | new
        · exact bounded other old
        · exact absurd new different

theorem remove (inUse : index ∈ table.alloc) :
    Steps table (table.remove index) none where
  sorted sorted _ := sorted.remove inUse
  notAfter _ bounded _ other member :=
    bounded other ((mem_alloc_remove inUse).mp member).2

theorem expire
    (table : IndexTable capacity V)
    (time : ℤ) :
    Steps table (table.expire time) none where
  sorted sorted _ := sorted.expire time
  notAfter later bounded _ other member := by
    rw [expire_time]
    exact bounded other (mem_of_mem_expire member)

theorem lookup
    (test : V → Bool)
    (time : ℤ) :
    Steps table (table.lookup test time).2
      ((table.find test).map fun _ => time) := by
  rw [IndexTable.lookup]
  cases found : table.find test with
  | none => exact stay table none
  | some index => exact refresh (find_eq_some found).1

theorem ensure
    (test : V → Bool)
    (value : V)
    (time : ℤ) :
    Steps table (table.ensure test value time).2 (some time) := by
  rw [IndexTable.ensure]
  cases found : table.find test with
  | none => exact insert value
  | some index => exact refresh (find_eq_some found).1

theorem removeFound (test : V → Bool) :
    Steps table (table.removeFound test).2 none := by
  rw [IndexTable.removeFound]
  cases found : table.find test with
  | none => exact stay table none
  | some index => exact remove (find_eq_some found).1

end Steps

section Runs

variable {γ : Type w}
  (spec : γ → IndexTable capacity V → IndexTable capacity V)
  (touch : γ → IndexTable capacity V → Option ℤ)

/-- The times that a run passes to allocations and rejuvenations. -/
def passedTimes : List γ → IndexTable capacity V → List ℤ
  | [], _ => []
  | operation :: operations, table =>
      (touch operation table).toList ++
        passedTimes operations (spec operation table)

section

variable (steps : ∀ operation table, Steps table (spec operation table) (touch operation table))
  (operations : List γ)

include steps

/-- A run whose passed times never decrease keeps the table sorted. -/
theorem sorted_foldl
    (sorted : table.Sorted)
    (bounded : ∀ time ∈ passedTimes spec touch operations table,
      table.NotAfter time)
    (monotone : (passedTimes spec touch operations table).Pairwise (· ≤ ·)) :
    (operations.foldl (fun table operation => spec operation table)
      table).Sorted := by
  induction operations generalizing table with
  | nil => exact sorted
  | cons operation operations ih =>
      rw [passedTimes, List.pairwise_append] at monotone
      have step := steps operation table
      have here : ∀ time ∈ touch operation table, table.NotAfter time := by
        intro time passed
        apply bounded
        rw [passedTimes, List.mem_append]
        exact .inl (Option.mem_toList.mpr passed)
      refine ih (step.sorted sorted here) ?_ monotone.2.1
      intro later passedLater
      apply step.notAfter later
      · apply bounded
        rw [passedTimes, List.mem_append]
        exact .inr passedLater
      · intro time passed
        exact monotone.2.2 time (Option.mem_toList.mpr passed) later passedLater

theorem sorted_foldl_initial
    (value : ℤ → V)
    (time : ℤ → ℤ)
    (monotone : (passedTimes spec touch operations
      (initial capacity value time)).Pairwise (· ≤ ·)) :
    (operations.foldl (fun table operation => spec operation table)
      (initial capacity value time)).Sorted := by
  refine sorted_foldl spec touch steps operations ?_ ?_ monotone
  · exact List.Pairwise.nil
  · intro later _ index member
    cases member

end

end Runs

end IndexTable
end Vigor
