import Vigor.DoubleMap.Contract
import Vigor.Library.Transcript

/-!
# Runs of the double map

A double map is slots that are free or hold a value.  Over any run of calls that
meet the contract of `double-map.h`, either key of a value leads to its slot and
to no other, the value of a slot is the last one that was put there, and the
size is the number of slots that hold a value.
-/

namespace Vigor
namespace DoubleMap

open Map Function

variable {V : Type u} {A : Type v} {B : Type w}

/-- A call to a double map. -/
inductive Call (V : Type u) (A : Type v) (B : Type w) where
  | put (value : V) (index : ℤ)
  | erase (index : ℤ)
  | getA (key : A)
  | getB (key : B)
  | getValue (index : ℤ)
  | size

/-- The reply to a call. -/
inductive Reply (V : Type u) where
  | done
  | found (index : Option ℤ)
  | value (value : V)
  | size (count : ℕ)

/-- The code of a call. -/
def exec
    (build : Build)
    (ops : ValueOps V A B) :
    Call V A B → DoubleMap V A B → Reply V × DoubleMap V A B
  | .put value index, map => (.done, dmapPut build ops map value index)
  | .erase index, map => (.done, dmapErase build ops map index)
  | .getA key, map => (.found (dmapGetA build ops map (.own key)), map)
  | .getB key, map => (.found (dmapGetB build ops map (.own key)), map)
  | .getValue index, map => (.value (dmapGetValue map index), map)
  | .size, map => (.size (dmapSize map), map)

/-! ## Slots -/

/-- The value of each slot, if it has one. -/
abbrev Slots (V : Type u) := ℤ → Option V

namespace Slots

/-- All slots are free. -/
def empty : Slots V := fun _ => none

/-- What a call does to the slots. -/
def after
    (call : Call V A B)
    (slots : Slots V) : Slots V :=
  match call with
  | .put value index => update slots index (some value)
  | .erase index => update slots index none
  | _ => slots

/-- The contract of a call: a value is put into a free slot below the capacity,
and no other value has one of its keys; only a slot with a value is erased. -/
def Allowed
    (ops : ValueOps V A B)
    (capacity : ℕ)
    (call : Call V A B)
    (slots : Slots V) : Prop :=
  match call with
  | .put value index =>
      (0 ≤ index ∧ index < capacity) ∧ slots index = none ∧
        ∀ other stored, slots other = some stored →
          ops.opsA.eq (ops.exkA stored) (ops.exkA value) = false ∧
            ops.opsB.eq (ops.exkB stored) (ops.exkB value) = false
  | .erase index => slots index ≠ none
  | .getA _ | .getB _ | .getValue _ | .size => True

/-- The calls as operations on slots alone. -/
def step
    (call : Call V A B)
    (slots : Slots V) : Unit × Slots V :=
  ((), slots.after call)

/-- The number of slots below the capacity that hold a value. -/
def count
    (capacity : ℕ)
    (slots : Slots V) : ℕ :=
  (List.range capacity).countP fun index : ℕ => (slots index).isSome

end Slots

/-! ## The code and the slots -/

/-- The double map holds the values of the slots. -/
structure Holds
    (build : Build)
    (ops : ValueOps V A B)
    (capacity : ℕ)
    (map : DoubleMap V A B)
    (slots : Slots V)
    (occupied : List ℤ)
    (value : ℤ → V) : Prop where
  stores : map.Stores build ops occupied value
  room : capacity ≤ map.keysCapacity
  slots_eq : ∀ index, slots index =
    if index ∈ occupied then some (value index) else none
  inside : ∀ index ∈ occupied, 0 ≤ index ∧ index < capacity

namespace Holds

variable {build : Build} {ops : ValueOps V A B} {capacity : ℕ} {map : DoubleMap V A B}
  {slots : Slots V} {occupied : List ℤ} {value : ℤ → V}

section

variable (holds : Holds build ops capacity map slots occupied value)

include holds

theorem some_iff :
    slots index = some stored ↔ index ∈ occupied ∧ value index = stored := by
  rw [holds.slots_eq]
  by_cases member : index ∈ occupied <;> simp [member]

theorem none_iff : slots index = none ↔ index ∉ occupied := by
  rw [holds.slots_eq]
  by_cases member : index ∈ occupied <;> simp [member]

theorem exists_iff (property : V → Prop) :
    (∃ stored, slots index = some stored ∧ property stored) ↔
      index ∈ occupied ∧ property (value index) := by
  constructor
  · rintro ⟨stored, isStored, satisfied⟩
    obtain ⟨member, rfl⟩ := holds.some_iff.mp isStored
    exact ⟨member, satisfied⟩
  · rintro ⟨member, satisfied⟩
    exact ⟨_, holds.some_iff.mpr ⟨member, rfl⟩, satisfied⟩

end

theorem count_eq (holds : Holds build ops capacity map slots occupied value) :
    slots.count capacity = occupied.length := by
  rw [Slots.count, List.countP_eq_length_filter,
    ← List.length_map (f := fun index : ℕ => (index : ℤ))]
  refine List.Perm.length_eq ((List.perm_ext_iff_of_nodup ?_ holds.stores.nodup).mpr ?_)
  · exact (List.nodup_range.filter _).map fun _ _ same => Int.ofNat.inj same
  · intro index
    rw [List.mem_map]
    constructor
    · rintro ⟨slot, member, rfl⟩
      obtain ⟨stored, isStored⟩ :=
        Option.isSome_iff_exists.mp (List.mem_filter.mp member).2
      exact (holds.some_iff.mp isStored).1
    · intro member
      obtain ⟨nonnegative, small⟩ := holds.inside index member
      have isStored := holds.some_iff.mpr ⟨member, rfl⟩
      refine ⟨index.toNat, List.mem_filter.mpr ⟨List.mem_range.mpr (by omega), ?_⟩,
        Int.toNat_of_nonneg nonnegative⟩
      rw [Int.toNat_of_nonneg nonnegative, isStored]
      rfl

section

variable (holds : Holds build ops capacity map slots occupied value)

include holds

theorem length_lt
    {index : ℤ}
    (inside : 0 ≤ index ∧ index < capacity)
    (free : slots index = none) :
    occupied.length < map.keysCapacity := by
  refine lt_of_lt_of_le ?_ holds.room
  rw [← holds.count_eq, Slots.count, List.countP_eq_length_filter]
  refine lt_of_lt_of_eq ?_ (List.length_range (n := capacity))
  refine List.length_filter_lt_length_iff_exists.mpr ⟨index.toNat, ?_, ?_⟩
  · exact List.mem_range.mpr (by omega)
  · rw [Int.toNat_of_nonneg inside.1, free]
    simp

theorem put (allowed : slots.Allowed ops capacity (.put new index)) :
    Holds build ops capacity (dmapPut build ops map new index)
      (update slots index (some new)) (occupied ++ [index])
      (update value index new) := by
  obtain ⟨inside, free, apart⟩ := allowed
  have absent (other : ℤ) (member : other ∈ occupied) :=
    apart other (value other) (holds.some_iff.mpr ⟨member, rfl⟩)
  refine ⟨holds.stores.dmapPut new (holds.none_iff.mp free)
      (fun other member => (absent other member).1)
      (fun other member => (absent other member).2) (holds.length_lt inside free),
    holds.room, fun other => ?_, fun other member => ?_⟩
  · by_cases same : other = index
    · simp [same]
    · rw [update_of_ne same, update_of_ne same, holds.slots_eq]
      simp [same]
  · rcases List.mem_append.mp member with old | last
    · exact holds.inside other old
    · rw [List.mem_singleton.mp last]
      exact inside

theorem erase (stored : slots index ≠ none) :
    Holds build ops capacity (dmapErase build ops map index)
      (update slots index none) (occupied.erase index) value := by
  have member : index ∈ occupied := not_not.mp (mt holds.none_iff.mpr stored)
  refine ⟨holds.stores.dmapErase member, holds.room, fun other => ?_,
    fun other kept => holds.inside other (List.mem_of_mem_erase kept)⟩
  by_cases same : other = index
  · simp [same, holds.stores.nodup.mem_erase_iff]
  · rw [update_of_ne same, holds.slots_eq]
    simp [same, holds.stores.nodup.mem_erase_iff]

theorem exec (allowed : slots.Allowed ops capacity call) :
    ∃ occupied value, Holds build ops capacity (exec build ops call map).2
      (slots.after call) occupied value := by
  cases call with
  | put new index => exact ⟨_, _, holds.put allowed⟩
  | erase index => exact ⟨_, _, holds.erase allowed⟩
  | getA key => exact ⟨_, _, holds⟩
  | getB key => exact ⟨_, _, holds⟩
  | getValue index => exact ⟨_, _, holds⟩
  | size => exact ⟨_, _, holds⟩

theorem run
    (permitted : Transcript.Permitted (Slots.Allowed ops capacity) Slots.step
      calls slots) :
    ∃ occupied value, Holds build ops capacity
      (Transcript.run (DoubleMap.exec build ops) calls map).2
      (Transcript.run Slots.step calls slots).2 occupied value := by
  induction calls generalizing map slots occupied value with
  | nil => exact ⟨_, _, holds⟩
  | cons call calls ih =>
      obtain ⟨_, _, kept⟩ := holds.exec permitted.1
      exact ih kept permitted.2

end

end Holds

/-- After any run, either key leads to exactly the slot that holds a value with
that key, so that the two keys of a value lead to the same slot; a slot has the
value that was last put there; and the size is the number of slots that hold a
value. -/
theorem double_map_consistent
    {build : Build}
    (ops : ValueOps V A B)
    {capacity keysCapacity : ℕ}
    (positive : 0 < keysCapacity)
    (bounded : keysCapacity < 2 ^ 31)
    (fits : capacity ≤ keysCapacity)
    {memory map : DoubleMap V A B}
    (allocated : dmapAllocate build memory keysCapacity = some map)
    {calls : List (Call V A B)}
    (permitted : Transcript.Permitted (Slots.Allowed ops capacity)
      Slots.step calls Slots.empty) :
    let final := (Transcript.run (exec build ops) calls map).2
    let slots := (Transcript.run Slots.step calls Slots.empty).2
    (∀ key index, dmapGetA build ops final (.own key) = some index ↔
      ∃ value, slots index = some value ∧ ops.opsA.eq (ops.exkA value) key = true) ∧
    (∀ key index, dmapGetB build ops final (.own key) = some index ↔
      ∃ value, slots index = some value ∧ ops.opsB.eq (ops.exkB value) key = true) ∧
    (∀ index value, slots index = some value →
      dmapGetA build ops final (.own (ops.exkA value)) = some index ∧
      dmapGetB build ops final (.own (ops.exkB value)) = some index ∧
      dmapGetValue final index = value) ∧
    dmapSize final = slots.count capacity := by
  intro final slots
  obtain ⟨stores, sameCapacity⟩ : map.Stores build ops [] map.values ∧
      map.keysCapacity = keysCapacity :=
    Stores.allocate positive bounded allocated map.values
  have fresh : Holds build ops capacity map Slots.empty [] map.values :=
    ⟨stores, sameCapacity ▸ fits, fun _ => rfl, by simp⟩
  obtain ⟨occupied, value, holds⟩ := fresh.run permitted
  have getA (key : A) (index : ℤ) :
      dmapGetA build ops final (.own key) = some index ↔
        ∃ value, slots index = some value ∧
          ops.opsA.eq (ops.exkA value) key = true :=
    holds.stores.dmapGetA_eq_some_iff.trans (holds.exists_iff fun stored =>
      ops.opsA.eq (ops.exkA stored) key = true).symm
  have getB (key : B) (index : ℤ) :
      dmapGetB build ops final (.own key) = some index ↔
        ∃ value, slots index = some value ∧
          ops.opsB.eq (ops.exkB value) key = true :=
    holds.stores.dmapGetB_eq_some_iff.trans (holds.exists_iff fun stored =>
      ops.opsB.eq (ops.exkB stored) key = true).symm
  refine ⟨getA, getB, fun index stored isStored => ⟨?_, ?_, ?_⟩, ?_⟩
  · exact (getA _ _).mpr ⟨stored, isStored, ops.opsA.eq_refl _⟩
  · exact (getB _ _).mpr ⟨stored, isStored, ops.opsB.eq_refl _⟩
  · obtain ⟨member, same⟩ := holds.some_iff.mp isStored
    exact (holds.stores.values_eq index member).trans same
  · rw [holds.count_eq]
    exact holds.stores.indexesA.size_eq

/-- Pairs of numbers have their components as keys.  Two pairs are put into the
slots 1 and 0, the first one is erased, and another one takes its slot and one
of its keys. -/
theorem double_map_consistent_example :
    let ops : ValueOps (ℕ × ℕ) ℕ ℕ :=
      { opsA := .ofHash id
        opsB := .ofHash id
        exkA := Prod.fst
        exkB := Prod.snd
        pk := fun _ first second => (first, second)
        dstr := id
        pk_exk := fun _ => rfl }
    let table : Arrays (KeyRef ℕ) := ⟨fun _ => 1, fun _ => .own 0, fun _ => 0,
      fun _ => 1, fun _ => 0⟩
    let memory : DoubleMap (ℕ × ℕ) ℕ ℕ := ⟨fun _ => (0, 0), table, table, 9, 9⟩
    let calls : List (Call (ℕ × ℕ) ℕ ℕ) :=
      [.put (5, 7) 1, .put (6, 8) 0, .erase 1, .put (9, 7) 1, .getB 7, .size]
    ∃ map, dmapAllocate .modulo memory 4 = some map ∧
      let final := (Transcript.run (exec .modulo ops) calls map).2
      dmapGetA .modulo ops final (.own 9) = some 1 ∧
      dmapGetB .modulo ops final (.own 7) = some 1 ∧
      dmapGetA .modulo ops final (.own 5) ≠ some 1 ∧
      dmapGetB .modulo ops final (.own 8) = some 0 ∧ dmapSize final = 2 := by
  intro ops table memory calls
  obtain ⟨map, allocated⟩ : ∃ map, dmapAllocate .modulo memory 4 = some map := ⟨_, rfl⟩
  have permitted : Transcript.Permitted (Slots.Allowed ops 2) Slots.step calls
      Slots.empty := by
    refine ⟨⟨by decide, rfl, ?_⟩, ⟨by decide, rfl, ?_⟩, Option.some_ne_none _,
      ⟨by decide, rfl, ?_⟩, trivial, trivial, trivial⟩
    · intro other stored found
      cases found
    all_goals
      intro other stored found
      simp only [Slots.step, Slots.after, Slots.empty, update_apply] at found
      split_ifs at found
      obtain rfl := Option.some_inj.mp found
      decide
  obtain ⟨getA, _, both, size⟩ := double_map_consistent ops (by decide) (by decide)
    (by decide) allocated permitted
  obtain ⟨foundA, foundB, _⟩ := both 1 (9, 7) rfl
  refine ⟨map, allocated, foundA, foundB, fun gone => ?_, (both 0 (6, 8) rfl).2.1, size⟩
  obtain ⟨value, isValue, same⟩ := (getA 5 1).mp gone
  cases isValue
  cases same

end DoubleMap
end Vigor
