import Vigor.DoubleMap.Impl
import Mathlib.Data.List.Find

/-!
# Contracts of the double map

Each of the two tables is a map over the cells of the value array, with the
shared counter as its size; the contracts of `map.c` apply to both.
-/

namespace Vigor

open Map Function

variable {V : Type u} {A : Type v} {B : Type w}

namespace DoubleMap

/-- The first table with the shared counter. -/
def mapA (map : DoubleMap V A B) : Map (KeyRef A) :=
  { arrays := map.tableA, capacity := map.keysCapacity, size := map.nVals }

/-- The second table with the shared counter. -/
def mapB (map : DoubleMap V A B) : Map (KeyRef B) :=
  { arrays := map.tableB, capacity := map.keysCapacity, size := map.nVals }

/-- The occupied slots of a double map and their values. -/
structure Stores
    (build : Build)
    (ops : ValueOps V A B)
    (map : DoubleMap V A B)
    (slots : List ℤ)
    (value : ℤ → V) : Prop where
  indexesA : map.mapA.Indexes build ops.opsA (keysA ops map.values) slots
  indexesB : map.mapB.Indexes build ops.opsB (keysB ops map.values) slots
  values_eq : ∀ index ∈ slots, map.values index = value index
  nodup : slots.Nodup

theorem packKeys_cell
    (ops : ValueOps V A B)
    (values : ℤ → V)
    (index : ℤ) :
    packKeys ops values index (.cell index) (.cell index) = values := by
  rw [packKeys]
  refine update_eq_self_iff.mpr ?_
  exact ops.pk_exk (values index)

namespace Stores

variable {build : Build} {ops : ValueOps V A B} {map : DoubleMap V A B}
  {slots : List ℤ} {value : ℤ → V}

theorem allocate
    {keysCapacity : ℕ}
    (positive : 0 < keysCapacity)
    (bounded : keysCapacity < 2 ^ 31)
    (allocated : dmapAllocate build memory keysCapacity = some map)
    (value : ℤ → V) :
    map.Stores build ops [] value ∧ map.keysCapacity = keysCapacity := by
  rw [dmapAllocate] at allocated
  split at allocated
  · cases allocated
  · rename_i accepted
    have built := Option.some.inj allocated
    subst built
    refine ⟨⟨?_, ?_, ?_, List.nodup_nil⟩, rfl⟩
    · exact Refers.allocate positive bounded
        (show mapAllocate build memory.tableA keysCapacity = _ from if_neg accepted)
    · exact Refers.allocate positive bounded
        (show mapAllocate build memory.tableB keysCapacity = _ from if_neg accepted)
    · intro index listed
      cases listed

section

variable (stores : map.Stores build ops slots value)

include stores

theorem dmapGetA_eq_some_iff :
    dmapGetA build ops map (.own key) = some index ↔
      index ∈ slots ∧ ops.opsA.eq (ops.exkA (value index)) key = true := by
  have found : dmapGetA build ops map (.own key) = some index ↔
      index ∈ slots ∧ ops.opsA.eq (ops.exkA (map.values index)) key = true :=
    stores.indexesA.mapGet_eq_some_iff
  refine found.trans (and_congr_right fun listed => ?_)
  rw [stores.values_eq index listed]

theorem dmapGetB_eq_some_iff :
    dmapGetB build ops map (.own key) = some index ↔
      index ∈ slots ∧ ops.opsB.eq (ops.exkB (value index)) key = true := by
  have found : dmapGetB build ops map (.own key) = some index ↔
      index ∈ slots ∧ ops.opsB.eq (ops.exkB (map.values index)) key = true :=
    stores.indexesB.mapGet_eq_some_iff
  refine found.trans (and_congr_right fun listed => ?_)
  rw [stores.values_eq index listed]

theorem dmapGetA_eq_find (key : A) :
    dmapGetA build ops map (.own key) =
      slots.find? fun index => ops.opsA.eq (ops.exkA (value index)) key := by
  have found := stores.indexesA.mapGet_eq_find key
  refine found.trans (List.find?_congr ?_)
  intro index listed
  rw [keysA, stores.values_eq index listed]

theorem dmapGetB_eq_find (key : B) :
    dmapGetB build ops map (.own key) =
      slots.find? fun index => ops.opsB.eq (ops.exkB (value index)) key := by
  have found := stores.indexesB.mapGet_eq_find key
  refine found.trans (List.find?_congr ?_)
  intro index listed
  rw [keysB, stores.values_eq index listed]

theorem of_perm (permuted : others.Perm slots) :
    map.Stores build ops others value where
  indexesA := stores.indexesA.of_perm permuted
  indexesB := stores.indexesB.of_perm permuted
  values_eq index listed := stores.values_eq index (permuted.mem_iff.mp listed)
  nodup := permuted.nodup_iff.mpr stores.nodup

theorem dmapPut
    (new : V)
    (free : index ∉ slots)
    (absentA : ∀ other ∈ slots,
      ops.opsA.eq (ops.exkA (value other)) (ops.exkA new) = false)
    (absentB : ∀ other ∈ slots,
      ops.opsB.eq (ops.exkB (value other)) (ops.exkB new) = false)
    (room : slots.length < map.keysCapacity) :
    (dmapPut build ops map new index).Stores build ops (slots ++ [index])
      (update value index new) := by
  have kept : (DoubleMap.dmapPut build ops map new index).values =
      update map.values index new := packKeys_cell ops _ index
  have unchanged : ∀ other ∈ slots,
      update map.values index new other = map.values other := by
    intro other listed
    apply update_of_ne
    intro same
    exact free (same ▸ listed)
  refine ⟨?_, ?_, ?_, ?_⟩
  · rw [kept]
    refine (stores.indexesA.mapPut_written ?_ ?_ room).2
    · intro other listed
      exact congrArg ops.exkA (unchanged other listed)
    · intro other listed
      rw [keysA, keysA, update_self, stores.values_eq other listed]
      exact absentA other listed
  · rw [kept]
    refine (stores.indexesB.mapPut_written ?_ ?_ room).2
    · intro other listed
      exact congrArg ops.exkB (unchanged other listed)
    · intro other listed
      rw [keysB, keysB, update_self, stores.values_eq other listed]
      exact absentB other listed
  · intro other listed
    rw [kept]
    rcases List.mem_append.mp listed with old | last
    · rw [unchanged other old, stores.values_eq other old, update_of_ne]
      intro same
      exact free (same ▸ old)
    · rw [List.mem_singleton.mp last, update_self, update_self]
  · refine List.nodup_append.mpr ⟨stores.nodup, List.nodup_singleton _, ?_⟩
    intro other listed last isLast same
    rw [List.mem_singleton] at isLast
    exact free (isLast ▸ same ▸ listed)

theorem dmapErase (occupied : index ∈ slots) :
    (dmapErase build ops map index).Stores build ops (slots.erase index)
      value := by
  have foundA : mapGet build (ops.opsA.onRefs (keysA ops map.values)) map.mapA
      (.cell index) = some index :=
    stores.indexesA.mapGet_eq_some_iff.mpr ⟨occupied, ops.opsA.eq_refl _⟩
  have foundB : mapGet build (ops.opsB.onRefs (keysB ops map.values)) map.mapB
      (.cell index) = some index :=
    stores.indexesB.mapGet_eq_some_iff.mpr ⟨occupied, ops.opsB.eq_refl _⟩
  obtain ⟨outA, erasedA⟩ := stores.indexesA.mapErase stores.nodup foundA
  obtain ⟨outB, erasedB⟩ := stores.indexesB.mapErase stores.nodup foundB
  have kept : (DoubleMap.dmapErase build ops map index).values =
      update map.values index (ops.dstr (map.values index)) := by
    rw [mapErase] at outA outB
    dsimp only [mapA, mapB] at outA outB
    simp only [DoubleMap.dmapErase, outA, outB, packKeys_cell]
  have unchanged : ∀ other ∈ slots.erase index,
      update map.values index (ops.dstr (map.values index)) other = map.values other := by
    intro other listed
    apply update_of_ne
    intro same
    exact stores.nodup.not_mem_erase (same ▸ listed)
  refine ⟨?_, ?_, ?_, stores.nodup.erase index⟩
  · rw [kept]
    refine erasedA.congr ?_
    intro other listed
    exact congrArg ops.exkA (unchanged other listed)
  · rw [kept]
    refine erasedB.congr ?_
    intro other listed
    exact congrArg ops.exkB (unchanged other listed)
  · intro other listed
    rw [kept, unchanged other listed]
    exact stores.values_eq other (List.mem_of_mem_erase listed)

end

end Stores

end DoubleMap
end Vigor
