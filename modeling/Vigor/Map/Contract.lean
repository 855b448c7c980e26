import Vigor.Map.Invariant

/-!
# Contracts of the functions of `map.c`

One lemma for each function says what it returns and what it stores, in terms
of the references and values that the map holds.  The code of the table is not
opened again above this module.
-/

namespace Vigor
namespace Map

variable {κ : Type u} {build : Build} {ops : KeyOps κ} {map : Map κ}

/-- The map holds a reference with a value. -/
def Holds
    (map : Map κ)
    (keyp : κ)
    (value : ℤ) : Prop :=
  map.arrays.Holds map.capacity keyp value

/-- No reference in the map equals a key. -/
def Absent
    (ops : KeyOps κ)
    (map : Map κ)
    (key : κ) : Prop :=
  ∀ keyp value, map.Holds keyp value → ops.eq keyp key = false

/-- The invariant of a map. -/
structure Valid (build : Build) (ops : KeyOps κ) (map : Map κ) : Prop where
  /-- The build supports the capacity. -/
  admits : build.Admits map.capacity
  /-- The table is valid. -/
  table : map.arrays.Valid ops map.capacity
  /-- The size counter counts the slots in use. -/
  counted : (map.size : ℤ) = map.arrays.busyCount map.capacity

/-! ## Allocation -/

/-- The initialisation loop clears the slots that it visits. -/
theorem mapImplInitLoop_cleared
    (rounds start : ℕ)
    (arrays : Arrays κ)
    (slot : ℕ)
    (inside : slot < start + rounds)
    (clearedBelow : slot < start →
      arrays.busybits slot = 0 ∧ arrays.chns slot = 0) :
    (mapImplInitLoop rounds start arrays).busybits slot = 0 ∧
      (mapImplInitLoop rounds start arrays).chns slot = 0 := by
  induction rounds generalizing start arrays with
  | zero => exact clearedBelow (by omega)
  | succ rounds ih =>
      apply ih
      · omega
      · intro below
        by_cases here : slot = start
        · simp [here]
        · have earlier := clearedBelow (by omega)
          simp [here, earlier]

theorem mapImplInit_cleared
    (memory : Arrays κ)
    {capacity slot : ℕ}
    (inside : slot < capacity) :
    (mapImplInit memory capacity).busybits slot = 0 ∧
      (mapImplInit memory capacity).chns slot = 0 :=
  mapImplInitLoop_cleared capacity 0 memory slot (by omega) (by omega)

theorem mapImplInit_valid
    (ops : KeyOps κ)
    (memory : Arrays κ)
    (capacity : ℕ) :
    (mapImplInit memory capacity).Valid ops capacity ∧
      (mapImplInit memory capacity).busyCount capacity = 0 := by
  have free : ∀ index < capacity,
      ¬(mapImplInit memory capacity).Busy index := by
    intro index inside busy
    exact busy (mapImplInit_cleared memory inside).1
  refine ⟨⟨?_, ?_, ?_⟩, ?_⟩
  · intro index inside busy
    exact absurd busy (free index inside)
  · intro first firstInside _ _ firstBusy
    exact absurd firstBusy (free first firstInside)
  · intro through inside
    rw [(mapImplInit_cleared memory inside).2, Arrays.chainCount]
    symm
    apply Finset.sum_eq_zero
    intro index member
    exact if_neg fun passing =>
      free index (Finset.mem_range.mp member) passing.1
  · apply Finset.sum_eq_zero
    intro index member
    exact if_neg (free index (Finset.mem_range.mp member))

theorem mapAllocate_valid
    (ops : KeyOps κ)
    {capacity : ℕ}
    (positive : 0 < capacity)
    (bounded : capacity < 2 ^ 31)
    (allocated : mapAllocate build memory capacity = some map) :
    map.Valid build ops ∧ map.capacity = capacity ∧ map.size = 0 ∧
      ∀ keyp value, ¬map.Holds keyp value := by
  have admits := admits_of_mapAllocate positive bounded allocated
  rw [mapAllocate] at allocated
  split at allocated
  · cases allocated
  · have built := Option.some.inj allocated
    subst built
    obtain ⟨table, empty⟩ := mapImplInit_valid ops memory capacity
    refine ⟨⟨admits, table, empty.symm⟩, rfl, rfl, ?_⟩
    intro keyp value held
    obtain ⟨index, inside, busy, _⟩ := held
    exact busy (mapImplInit_cleared memory inside).1

namespace Valid

/-! ## Lookup -/

section

variable (valid : map.Valid build ops)

include valid

theorem mapGet_eq_some_iff :
    mapGet build ops map key = some value ↔ ∃ keyp,
      map.Holds keyp value ∧ ops.eq keyp key = true :=
  valid.table.mapImplGet_eq_some_iff valid.admits

theorem mapGet_eq_none_iff :
    mapGet build ops map key = none ↔ map.Absent ops key := by
  rw [Option.eq_none_iff_forall_not_mem]
  constructor
  · intro missing keyp value held
    rw [Bool.eq_false_iff]
    intro equal
    exact missing value (valid.mapGet_eq_some_iff.mpr ⟨keyp, held, equal⟩)
  · intro absent value found
    obtain ⟨keyp, held, equal⟩ := valid.mapGet_eq_some_iff.mp found
    exact Bool.false_ne_true ((absent keyp value held).symm.trans equal)

theorem holds_unique
    (firstHeld : map.Holds first firstValue)
    (secondHeld : map.Holds second secondValue)
    (equal : ops.eq first second = true) :
    first = second ∧ firstValue = secondValue := by
  obtain ⟨index, inside, busy, rfl, rfl⟩ := firstHeld
  obtain ⟨other, otherInside, otherBusy, rfl, rfl⟩ := secondHeld
  have same := valid.table.distinct index inside other otherInside busy otherBusy equal
  rw [same]
  exact ⟨rfl, rfl⟩

theorem congr
    (sameHash : ∀ keyp value,
      map.Holds keyp value → ops'.hash keyp = ops.hash keyp)
    (sameEq : ∀ first firstValue second secondValue,
      map.Holds first firstValue → map.Holds second secondValue →
        ops'.eq first second = ops.eq first second) : map.Valid build ops' := by
  refine ⟨valid.admits, ?_, valid.counted⟩
  apply valid.table.congr
  · intro index inside busy
    exact sameHash _ _ ⟨index, inside, busy, rfl, rfl⟩
  · intro first firstInside second secondInside firstBusy secondBusy
    exact sameEq _ _ _ _ ⟨first, firstInside, firstBusy, rfl, rfl⟩
      ⟨second, secondInside, secondBusy, rfl, rfl⟩

/-! ## Insertion and removal -/

theorem mapPut
    (value : ℤ)
    (absent : map.Absent ops key)
    (room : map.size < map.capacity) :
    (findEmpty build map.arrays (build.loop (ops.hash key) map.capacity)
        map.capacity).1.isSome = true ∧
      (mapPut build ops map key value).Valid build ops ∧
      (mapPut build ops map key value).size = map.size + 1 ∧
      ∀ keyp stored, (mapPut build ops map key value).Holds keyp stored ↔
        map.Holds keyp stored ∨ (keyp = key ∧ stored = value) := by
  have tableRoom : map.arrays.busyCount map.capacity < map.capacity := by
    rw [← valid.counted]
    exact_mod_cast room
  obtain ⟨index, found, inserted⟩ := mapImplPut_inserted valid.admits tableRoom
    key (ops.hash key) value
  have bounded := valid.admits.bounded
  have grown : (Map.mapPut build ops map key value).size = map.size + 1 :=
    Nat.mod_eq_of_lt (by omega)
  refine ⟨by rw [found]; rfl, ⟨valid.admits, ?_, ?_⟩, grown, ?_⟩
  · apply inserted.valid valid.table
    intro other inside busy
    exact absent _ _ ⟨other, inside, busy, rfl, rfl⟩
  · have count := inserted.agree.busyCount inserted.inside
    rw [if_neg inserted.free, if_pos inserted.busy, ← valid.counted] at count
    rw [grown]
    refine Eq.trans ?_ count.symm
    omega
  · intro keyp stored
    exact inserted.holds_iff

theorem mapErase
    (held : map.Holds keyp value)
    (equal : ops.eq keyp key = true) :
    (mapErase build ops map key).1 = some keyp ∧
      (mapErase build ops map key).2.Valid build ops ∧
      (mapErase build ops map key).2.size + 1 = map.size ∧
      ∀ other stored, (mapErase build ops map key).2.Holds other stored ↔
        map.Holds other stored ∧ ops.eq other key = false := by
  obtain ⟨index, inside, busy, rfl, _⟩ := held
  obtain ⟨result, removed⟩ := mapImplErase_removed valid.table valid.admits inside busy equal
  have count := removed.agree.busyCount inside
  rw [if_neg removed.free, if_pos busy, ← valid.counted] at count
  have occupied : 0 < map.size := by
    have nonnegative := Arrays.busyCount_nonneg
      (Map.mapErase build ops map key).2.arrays map.capacity
    have remaining : (0 : ℤ) ≤ map.size - 1 + 0 := count ▸ nonnegative
    omega
  have bounded : map.size < 2 ^ 32 := by
    have full := Arrays.busyCount_le map.arrays map.capacity
    have small := valid.admits.bounded
    rw [← valid.counted] at full
    omega
  have shrunk : (Map.mapErase build ops map key).2.size = map.size - 1 := by
    change (map.size + 2 ^ 32 - 1) % 2 ^ 32 = map.size - 1
    omega
  refine ⟨result, ⟨valid.admits, removed.valid valid.table, ?_⟩, by omega, ?_⟩
  · rw [shrunk]
    refine Eq.trans ?_ count.symm
    omega
  · intro other stored
    exact removed.holds_iff valid.table equal

end

end Valid

end Map
end Vigor
