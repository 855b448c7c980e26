import Vigor.Map.Contract

/-!
# Maps over the cells of a vector

The network functions put into a map the addresses of vector cells that hold
the keys.  A pointer is therefore modelled as such, and the key operations of
the map read through it: overwriting a cell changes the key of its entry.

The map refers to a list of cells when its entries are exactly those cells, each
with its label as the value.  It indexes the cells when the label of a cell is
its own number.
-/

namespace Vigor

variable {K : Type u}

/-- A pointer to a key. -/
inductive KeyRef (K : Type u)
  /-- A cell of the key vector. -/
  | cell (index : ℤ)
  /-- Memory of the caller. -/
  | own (key : K)

/-- The key behind a pointer. -/
def KeyRef.deref (vector : ℤ → K) : KeyRef K → K
  | .cell index => vector index
  | .own key => key

namespace Map

/-- Key operations on pointers. -/
def KeyOps.onRefs
    (ops : KeyOps K)
    (vector : ℤ → K) : KeyOps (KeyRef K) where
  eq first second := ops.eq (first.deref vector) (second.deref vector)
  hash ref := ops.hash (ref.deref vector)
  eq_refl _ := ops.eq_refl _
  eq_symm equal := ops.eq_symm equal
  eq_trans first second := ops.eq_trans first second
  hash_eq equal := ops.hash_eq equal

/-- The entries of the map are the listed cells of the vector, with their labels
as values. -/
structure Refers
    (build : Build)
    (ops : KeyOps K)
    (map : Map (KeyRef K))
    (vector : ℤ → K)
    (label : ℤ → ℤ)
    (cells : List ℤ) : Prop where
  valid : map.Valid build (ops.onRefs vector)
  holds_iff : ∀ ref value,
    map.Holds ref value ↔ ∃ cell ∈ cells, ref = .cell cell ∧ label cell = value
  size_eq : map.size = cells.length

namespace Refers

variable {build : Build} {ops : KeyOps K} {map : Map (KeyRef K)}
  {vector : ℤ → K} {label : ℤ → ℤ} {cells : List ℤ}

theorem allocate
    {capacity : ℕ}
    (positive : 0 < capacity)
    (bounded : capacity < 2 ^ 31)
    (allocated : mapAllocate build memory capacity = some map) :
    map.Refers build ops vector label [] := by
  obtain ⟨valid, _, empty, nothing⟩ :=
    mapAllocate_valid (ops.onRefs vector) positive bounded allocated
  refine ⟨valid, ?_, empty⟩
  intro ref value
  constructor
  · intro held
    exact absurd held (nothing ref value)
  · rintro ⟨_, listed, _⟩
    cases listed

section

variable (refers : map.Refers build ops vector label cells)

include refers

variable {cell : ℤ}

theorem holds (listed : cell ∈ cells) : map.Holds (.cell cell) (label cell) :=
  (refers.holds_iff _ _).mpr ⟨cell, listed, rfl, rfl⟩

theorem mapGet_eq_some_iff :
    mapGet build (ops.onRefs vector) map ref = some value ↔
      ∃ cell ∈ cells,
        label cell = value ∧
          ops.eq (vector cell) (ref.deref vector) = true := by
  rw [refers.valid.mapGet_eq_some_iff]
  constructor
  · rintro ⟨_, held, equal⟩
    obtain ⟨cell, listed, rfl, isLabel⟩ := (refers.holds_iff _ _).mp held
    exact ⟨cell, listed, isLabel, equal⟩
  · rintro ⟨cell, listed, rfl, equal⟩
    exact ⟨.cell cell, refers.holds listed, equal⟩

theorem mapGet_eq_none_iff :
    mapGet build (ops.onRefs vector) map ref = none ↔
      ∀ cell ∈ cells, ops.eq (vector cell) (ref.deref vector) = false := by
  rw [Option.eq_none_iff_forall_not_mem]
  constructor
  · intro missing cell listed
    rw [Bool.eq_false_iff]
    intro equal
    exact missing _ (refers.mapGet_eq_some_iff.mpr ⟨cell, listed, rfl, equal⟩)
  · intro different value found
    obtain ⟨cell, listed, _, equal⟩ := refers.mapGet_eq_some_iff.mp found
    rw [different cell listed] at equal
    cases equal

theorem cell_unique
    (listed : cell ∈ cells)
    (otherListed : other ∈ cells)
    (equal : ops.eq (vector cell) (vector other) = true) :
    cell = other :=
  KeyRef.cell.inj (refers.valid.holds_unique (refers.holds listed)
    (refers.holds otherListed) equal).1

theorem of_perm (permuted : others.Perm cells) :
    map.Refers build ops vector label others where
  valid := refers.valid
  holds_iff ref value := by simp only [refers.holds_iff, permuted.mem_iff]
  size_eq := refers.size_eq.trans permuted.length_eq.symm

theorem congr (same : ∀ cell ∈ cells, vector' cell = vector cell) :
    map.Refers build ops vector' label cells := by
  have unchanged : ∀ ref value, map.Holds ref value →
      ref.deref vector' = ref.deref vector := by
    intro ref value held
    obtain ⟨cell, listed, rfl, _⟩ := (refers.holds_iff ref value).mp held
    exact same cell listed
  refine ⟨?_, refers.holds_iff, refers.size_eq⟩
  apply refers.valid.congr
  · intro ref value held
    exact congrArg ops.hash (unchanged ref value held)
  · intro first firstValue second secondValue firstHeld secondHeld
    exact congrArg₂ ops.eq (unchanged first firstValue firstHeld)
      (unchanged second secondValue secondHeld)

theorem mapErase
    (nodup : cells.Nodup)
    (listed : cell ∈ cells)
    (equal : ops.eq (vector cell) (ref.deref vector) = true) :
    (mapErase build (ops.onRefs vector) map ref).1 = some (.cell cell) ∧
      (mapErase build (ops.onRefs vector) map ref).2.Refers build ops
        vector label (cells.erase cell) := by
  have refEqual : (ops.onRefs vector).eq (.cell cell) ref = true := equal
  obtain ⟨trash, valid, shrunk, holds⟩ :=
    refers.valid.mapErase (refers.holds listed) refEqual
  refine ⟨trash, valid, ?_, ?_⟩
  · intro other value
    simp only [holds, refers.holds_iff, nodup.mem_erase_iff]
    constructor
    · rintro ⟨⟨kept, keptListed, rfl, isLabel⟩, different⟩
      refine ⟨kept, ⟨?_, keptListed⟩, rfl, isLabel⟩
      rintro rfl
      exact Bool.false_ne_true (different.symm.trans refEqual)
    · rintro ⟨kept, ⟨notCell, keptListed⟩, rfl, isLabel⟩
      refine ⟨⟨kept, keptListed, rfl, isLabel⟩, Bool.eq_false_iff.mpr ?_⟩
      intro keptEqual
      exact notCell (refers.cell_unique keptListed listed
        (ops.eq_trans keptEqual (ops.eq_symm equal)))
  · have length := List.length_erase_of_mem listed
    have nonempty := List.length_pos_of_mem listed
    rw [refers.size_eq] at shrunk
    omega

theorem mapPut
    (absent : mapGet build (ops.onRefs vector) map (.cell cell) = none)
    (room : cells.length < map.capacity) :
    (mapPut build (ops.onRefs vector) map (.cell cell)
      (label cell)).Refers build ops vector label (cells ++ [cell]) := by
  have mapAbsent := refers.valid.mapGet_eq_none_iff.mp absent
  obtain ⟨_, valid, grown, holds⟩ := refers.valid.mapPut (label cell) mapAbsent
    (refers.size_eq.symm ▸ room)
  refine ⟨valid, ?_, ?_⟩
  · intro ref value
    simp only [holds, refers.holds_iff, List.mem_append, List.mem_singleton]
    constructor
    · rintro (⟨old, listed, isOld⟩ | ⟨rfl, rfl⟩)
      · exact ⟨old, .inl listed, isOld⟩
      · exact ⟨cell, .inr rfl, rfl, rfl⟩
    · rintro ⟨other, listed | rfl, rfl, rfl⟩
      · exact .inl ⟨other, listed, rfl, rfl⟩
      · exact .inr ⟨rfl, rfl⟩
  · rw [grown, refers.size_eq, List.length_append, List.length_singleton]

theorem mapPut_written
    (same : ∀ other ∈ cells, vector' other = vector other)
    (absent : ∀ other ∈ cells, ops.eq (vector other) (vector' cell) = false)
    (room : cells.length < map.capacity) :
    mapGet build (ops.onRefs vector') map (.cell cell) = none ∧
      (Map.mapPut build (ops.onRefs vector') map (.cell cell)
        (label cell)).Refers build ops vector' label (cells ++ [cell]) := by
  have written := refers.congr same
  have stillAbsent :
      mapGet build (ops.onRefs vector') map (.cell cell) = none := by
    apply written.mapGet_eq_none_iff.mpr
    intro other listed
    rw [same other listed]
    exact absent other listed
  exact ⟨stillAbsent, written.mapPut stillAbsent room⟩

end

end Refers

/-- The entries of the map are the listed cells of the vector, each with its
number as the value. -/
abbrev Indexes
    (build : Build)
    (ops : KeyOps K)
    (map : Map (KeyRef K))
    (vector : ℤ → K)
    (cells : List ℤ) : Prop :=
  map.Refers build ops vector id cells

namespace Indexes

variable
  {build : Build}
  {ops : KeyOps K}
  {map : Map (KeyRef K)}
  {vector : ℤ → K}
  {cells : List ℤ}
  (indexes : map.Indexes build ops vector cells)

include indexes

/-- `map_get` yields exactly the listed cells that equal the key. -/
theorem mapGet_eq_some_iff :
    mapGet build (ops.onRefs vector) map ref = some index ↔
      index ∈ cells ∧ ops.eq (vector index) (ref.deref vector) = true := by
  rw [Refers.mapGet_eq_some_iff indexes]
  constructor
  · rintro ⟨_, listed, rfl, equal⟩
    exact ⟨listed, equal⟩
  · rintro ⟨listed, equal⟩
    exact ⟨index, listed, rfl, equal⟩

theorem mapGet_eq_find (key : K) :
    mapGet build (ops.onRefs vector) map (.own key) =
      cells.find? fun index => ops.eq (vector index) key := by
  cases found : cells.find? fun index => ops.eq (vector index) key with
  | some index =>
      exact (mapGet_eq_some_iff indexes).mpr ⟨List.mem_of_find?_eq_some found,
        List.find?_some (p := fun index => ops.eq (vector index) key) found⟩
  | none =>
      apply Refers.mapGet_eq_none_iff indexes |>.mpr
      intro index listed
      exact Bool.eq_false_iff.mpr (List.find?_eq_none.mp found index listed)

theorem mapErase
    (nodup : cells.Nodup)
    (found : mapGet build (ops.onRefs vector) map ref = some index) :
    (mapErase build (ops.onRefs vector) map ref).1 = some (.cell index) ∧
      (mapErase build (ops.onRefs vector) map ref).2.Indexes build ops vector
        (cells.erase index) := by
  obtain ⟨listed, equal⟩ := (mapGet_eq_some_iff indexes).mp found
  exact Refers.mapErase indexes nodup listed equal

end Indexes

end Map
end Vigor
