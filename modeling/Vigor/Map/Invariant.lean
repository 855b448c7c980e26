import Vigor.Map.Probing
import Mathlib.Algebra.Order.BigOperators.Group.Finset

/-!
# The invariant of the map

A valid table stores the hash of every key beside it, stores no key twice, and
counts in each chain counter the stored keys whose probe path passes through
the slot.  Under this invariant a lookup that stops at a zero counter has
missed nothing.  Insertion and removal keep the invariant; their effect is
stated on the set of stored entries.
-/

namespace Vigor
namespace Map

open ProbePath

variable {κ : Type u}

/-- Number of stored keys whose probe path passes through a slot. -/
def Arrays.chainCount
    (arrays : Arrays κ)
    (capacity through : ℕ) : ℤ :=
  ∑ index ∈ Finset.range capacity,
    if arrays.Busy index ∧
        Passes capacity (arrays.khs index % capacity) index through then 1
    else 0

/-- Number of slots in use. -/
def Arrays.busyCount
    (arrays : Arrays κ)
    (capacity : ℕ) : ℤ :=
  ∑ index ∈ Finset.range capacity, if arrays.Busy index then 1 else 0

theorem Arrays.busyCount_nonneg
    (arrays : Arrays κ)
    (capacity : ℕ) :
    0 ≤ arrays.busyCount capacity := by
  apply Finset.sum_nonneg
  intro index _
  split_ifs <;> decide

theorem Arrays.busyCount_le
    (arrays : Arrays κ)
    (capacity : ℕ) :
    arrays.busyCount capacity ≤ capacity := by
  calc
    arrays.busyCount capacity ≤ ∑ _index ∈ Finset.range capacity, (1 : ℤ) := by
      apply Finset.sum_le_sum
      intro index _
      split_ifs <;> decide
    _ = capacity := by simp

/-- The table holds a reference with a value. -/
def Arrays.Holds
    (arrays : Arrays κ)
    (capacity : ℕ)
    (keyp : κ)
    (value : ℤ) : Prop :=
  ∃ index < capacity, arrays.Busy index ∧ arrays.keyps index = keyp ∧
    arrays.vals index = value

/-- The invariant of a table. -/
structure Arrays.Valid
    (ops : KeyOps κ)
    (arrays : Arrays κ)
    (capacity : ℕ) : Prop where
  /-- The stored hash is the hash of the stored key. -/
  hashes : ∀ index < capacity, arrays.Busy index →
    arrays.khs index = ops.hash (arrays.keyps index)
  /-- Different slots store different keys. -/
  distinct : ∀ first < capacity, ∀ second < capacity, arrays.Busy first →
    arrays.Busy second →
      ops.eq (arrays.keyps first) (arrays.keyps second) = true →
        first = second
  /-- Chain counters count probe paths. -/
  chains : ∀ through < capacity,
    arrays.chns through = arrays.chainCount capacity through

namespace Arrays.Valid

variable {build : Build} {ops : KeyOps κ} {arrays : Arrays κ} {capacity : ℕ}

section

variable (valid : arrays.Valid ops capacity)
  (inside : index < capacity)
  (busy : arrays.Busy index)

include valid inside busy

/-- The counters on the way to a stored key are not zero. -/
theorem chained
    (throughInside : through < capacity)
    (passes : Passes capacity (arrays.khs index % capacity) index through) :
    arrays.chns through ≠ 0 := by
  have nonnegative : ∀ other ∈ Finset.range capacity,
      (0 : ℤ) ≤ if arrays.Busy other ∧
        Passes capacity (arrays.khs other % capacity) other through then 1
        else 0 := by
    intro other _
    split_ifs <;> decide
  have atLeast := Finset.single_le_sum nonnegative (Finset.mem_range.mpr inside)
  rw [if_pos ⟨busy, passes⟩] at atLeast
  rw [valid.chains through throughInside]
  exact (Int.lt_of_lt_of_le Int.zero_lt_one atLeast).ne'

variable {key : κ} (stored : ops.eq (arrays.keyps index) key = true)

include stored

theorem eq_of_matches
    (otherInside : other < capacity)
    (found : arrays.Matches ops.eq (ops.hash key) key other) :
    other = index := by
  apply valid.distinct other otherInside index inside found.1.1 busy
  exact ops.eq_trans found.2 (ops.eq_symm stored)

theorem matches_of_stored : arrays.Matches ops.eq (ops.hash key) key index :=
  ⟨⟨busy, (valid.hashes index inside busy).trans (ops.hash_eq stored)⟩, stored⟩

theorem no_match_before
    (before : earlier < distance capacity (ops.hash key % capacity) index) :
    ¬arrays.Matches ops.eq (ops.hash key) key
      (slot capacity (ops.hash key % capacity) earlier) := by
  intro found
  have positive : 0 < capacity := Nat.zero_lt_of_lt inside
  have startBound := Nat.mod_lt (ops.hash key) positive
  have reached := valid.eq_of_matches inside busy stored (slot_lt positive) found
  have same : distance capacity (ops.hash key % capacity) index = earlier := by
    rw [← reached]
    exact distance_slot startBound (before.trans (distance_lt positive))
  omega

theorem findKey_of_stored (admits : build.Admits capacity) :
    findKey build arrays key ops.eq (ops.hash key) capacity = some index := by
  have startBound := Nat.mod_lt (ops.hash key) admits.positive
  have sameHash : arrays.khs index = ops.hash key :=
    (valid.matches_of_stored inside busy stored).1.2
  have reached := slot_distance startBound inside
  have stepsBound : distance capacity (ops.hash key % capacity) index <
      capacity := distance_lt admits.positive
  have found := findKeyLoop_of_match (i := 0) admits startBound stepsBound
    (by rw [reached]; exact valid.matches_of_stored inside busy stored)
    (Nat.zero_le _)
    (fun earlier _ before => valid.no_match_before inside busy stored before)
    (fun earlier _ before => by
      apply valid.chained inside busy (slot_lt admits.positive)
      rw [sameHash, Passes, distance_slot startBound (before.trans stepsBound)]
      exact before)
  rw [reached] at found
  rw [findKey, admits.loop_eq]
  exact found

end

theorem findKey_of_absent
    (admits : build.Admits capacity)
    (absent : ∀ index < capacity,
      arrays.Busy index → ops.eq (arrays.keyps index) key = false) :
    findKey build arrays key ops.eq (ops.hash key) capacity = none := by
  have startBound := Nat.mod_lt (ops.hash key) admits.positive
  rw [findKey, admits.loop_eq]
  apply findKeyLoop_of_no_match admits startBound (Nat.add_zero capacity)
  intro later _ _ found
  have missing := absent _ (slot_lt admits.positive) found.1.1
  exact Bool.false_ne_true (missing.symm.trans found.2)

theorem mapImplGet_eq_some_iff
    (valid : arrays.Valid ops capacity)
    (admits : build.Admits capacity) :
    mapImplGet build arrays key ops.eq (ops.hash key) capacity = some value ↔
      ∃ keyp, arrays.Holds capacity keyp value ∧ ops.eq keyp key = true := by
  by_cases present : ∃ index < capacity, arrays.Busy index ∧ ops.eq (arrays.keyps index) key = true
  · obtain ⟨index, inside, busy, stored⟩ := present
    rw [mapImplGet, valid.findKey_of_stored inside busy stored admits]
    constructor
    · intro same
      exact ⟨arrays.keyps index, ⟨index, inside, busy, rfl, Option.some.inj same⟩, stored⟩
    · intro held
      obtain ⟨_, ⟨other, otherInside, otherBusy, rfl, rfl⟩, otherStored⟩ := held
      have same := valid.eq_of_matches inside busy stored otherInside
        (valid.matches_of_stored otherInside otherBusy otherStored)
      rw [same]
  · have absent : ∀ index < capacity, arrays.Busy index →
        ops.eq (arrays.keyps index) key = false := by
      intro index inside busy
      rw [Bool.eq_false_iff]
      intro stored
      exact present ⟨index, inside, busy, stored⟩
    rw [mapImplGet, findKey_of_absent admits absent]
    constructor
    · intro impossible
      cases impossible
    · intro held
      obtain ⟨_, ⟨index, inside, busy, rfl, _⟩, stored⟩ := held
      exact absurd ⟨index, inside, busy, stored⟩ present

theorem congr
    (valid : arrays.Valid ops capacity)
    (sameHash : ∀ index < capacity, arrays.Busy index →
      ops'.hash (arrays.keyps index) = ops.hash (arrays.keyps index))
    (sameEq : ∀ first < capacity, ∀ second < capacity, arrays.Busy first →
      arrays.Busy second →
        ops'.eq (arrays.keyps first) (arrays.keyps second) =
          ops.eq (arrays.keyps first) (arrays.keyps second)) :
    arrays.Valid ops' capacity where
  hashes index inside busy := by
    rw [sameHash index inside busy]
    exact valid.hashes index inside busy
  distinct first firstInside second secondInside firstBusy secondBusy equal := by
    rw [sameEq first firstInside second secondInside firstBusy secondBusy] at equal
    exact valid.distinct first firstInside second secondInside firstBusy secondBusy equal
  chains := valid.chains

end Arrays.Valid

/-! ## One slot changes -/

section Change

variable {before after : Arrays κ} {capacity index : ℕ}

/-- The tables agree on all slots but one, except for chain counters and
values. -/
def Arrays.AgreeOff
    (before after : Arrays κ)
    (index : ℕ) : Prop :=
  ∀ other ≠ index, after.busybits other = before.busybits other ∧
    after.keyps other = before.keyps other ∧
      after.khs other = before.khs other ∧ after.vals other = before.vals other

/-- Path counts differ by the path of the changed slot. -/
theorem Arrays.AgreeOff.chainCount
    (agree : before.AgreeOff after index)
    (inside : index < capacity)
    (through : ℕ) :
    after.chainCount capacity through =
      before.chainCount capacity through -
        (if before.Busy index ∧ Passes capacity (before.khs index % capacity)
          index through then 1 else 0) +
        (if after.Busy index ∧ Passes capacity (after.khs index % capacity)
          index through then 1 else 0) := by
  apply sum_range_of_changed_at inside
  intro other _ different
  obtain ⟨sameBusy, _, sameHash, _⟩ := agree other different
  simp only [Arrays.Busy, sameBusy, sameHash]

theorem Arrays.AgreeOff.busyCount
    (agree : before.AgreeOff after index)
    (inside : index < capacity) :
    after.busyCount capacity =
      before.busyCount capacity - (if before.Busy index then 1 else 0) +
        (if after.Busy index then 1 else 0) := by
  apply sum_range_of_changed_at inside
  intro other _ different
  simp only [Arrays.Busy, (agree other different).1]

/-- A free slot of one table holds an entry in the other. -/
structure Arrays.Inserted
    (before after : Arrays κ)
    (capacity index : ℕ)
    (key : κ)
    (hash : ℕ)
    (value : ℤ) : Prop where
  inside : index < capacity
  agree : before.AgreeOff after index
  free : ¬before.Busy index
  busy : after.Busy index
  keyps : after.keyps index = key
  khs : after.khs index = hash
  vals : after.vals index = value
  chns : ∀ through < capacity, after.chns through = before.chns through +
    if Passes capacity (hash % capacity) index through then 1 else 0

/-- A slot in use of one table is free in the other. -/
structure Arrays.Removed
    (before after : Arrays κ)
    (capacity index : ℕ) : Prop where
  inside : index < capacity
  agree : before.AgreeOff after index
  busy : before.Busy index
  free : ¬after.Busy index
  chns : ∀ through < capacity, after.chns through = before.chns through -
    if Passes capacity (before.khs index % capacity) index through then 1 else 0

/-- Insertion of an absent key keeps the invariant. -/
theorem Arrays.Inserted.valid
    (inserted : before.Inserted after capacity index key (ops.hash key) value)
    (valid : before.Valid ops capacity)
    (absent : ∀ other < capacity,
      before.Busy other → ops.eq (before.keyps other) key = false) :
    after.Valid ops capacity where
  hashes other otherInside busy := by
    by_cases here : other = index
    · rw [here, inserted.khs, inserted.keyps]
    · obtain ⟨sameBusy, sameKey, sameHash, _⟩ := inserted.agree other here
      rw [Arrays.Busy, sameBusy] at busy
      rw [sameHash, sameKey]
      exact valid.hashes other otherInside busy
  distinct first firstInside second secondInside firstBusy secondBusy equal := by
    by_cases firstHere : first = index
    · by_cases secondHere : second = index
      · rw [firstHere, secondHere]
      · obtain ⟨sameBusy, sameKey, _⟩ := inserted.agree second secondHere
        rw [Arrays.Busy, sameBusy] at secondBusy
        rw [firstHere, inserted.keyps, sameKey] at equal
        have missing := absent second secondInside secondBusy
        exact absurd (missing.symm.trans (ops.eq_symm equal)) (by decide)
    · obtain ⟨firstSameBusy, firstSameKey, _⟩ := inserted.agree first firstHere
      rw [Arrays.Busy, firstSameBusy] at firstBusy
      by_cases secondHere : second = index
      · rw [secondHere, inserted.keyps, firstSameKey] at equal
        have missing := absent first firstInside firstBusy
        exact absurd (missing.symm.trans equal) (by decide)
      · obtain ⟨sameBusy, sameKey, _⟩ := inserted.agree second secondHere
        rw [Arrays.Busy, sameBusy] at secondBusy
        rw [firstSameKey, sameKey] at equal
        exact valid.distinct first firstInside second secondInside firstBusy secondBusy equal
  chains through throughInside := by
    rw [inserted.chns through throughInside,
      valid.chains through throughInside,
      inserted.agree.chainCount inserted.inside, inserted.khs]
    have free := eq_false inserted.free
    have busy := eq_true inserted.busy
    simp only [free, busy, false_and, true_and, if_false, Int.sub_zero]

theorem Arrays.Removed.valid
    (removed : before.Removed after capacity index)
    (valid : before.Valid ops capacity) :
    after.Valid ops capacity := by
  have different {other : ℕ} (busy : after.Busy other) : other ≠ index := by
    intro here
    exact removed.free (here ▸ busy)
  constructor
  · intro other otherInside busy
    obtain ⟨sameBusy, sameKey, sameHash, _⟩ :=
      removed.agree other (different busy)
    rw [Arrays.Busy, sameBusy] at busy
    rw [sameHash, sameKey]
    exact valid.hashes other otherInside busy
  · intro first firstInside second secondInside firstBusy secondBusy equal
    obtain ⟨firstSameBusy, firstSameKey, _⟩ :=
      removed.agree first (different firstBusy)
    obtain ⟨sameBusy, sameKey, _⟩ := removed.agree second (different secondBusy)
    rw [Arrays.Busy, firstSameBusy] at firstBusy
    rw [Arrays.Busy, sameBusy] at secondBusy
    rw [firstSameKey, sameKey] at equal
    exact valid.distinct first firstInside second secondInside firstBusy secondBusy equal
  · intro through throughInside
    rw [removed.chns through throughInside,
      valid.chains through throughInside,
      removed.agree.chainCount removed.inside]
    have free := eq_false removed.free
    have busy := eq_true removed.busy
    simp only [free, busy, false_and, true_and, if_false, Int.add_zero]

theorem Arrays.Inserted.holds_iff
    {hash : ℕ}
    (inserted : before.Inserted after capacity index key hash value) :
    after.Holds capacity keyp stored ↔
      before.Holds capacity keyp stored ∨ (keyp = key ∧ stored = value) := by
  constructor
  · intro held
    obtain ⟨other, otherInside, busy, sameKey, sameValue⟩ := held
    by_cases here : other = index
    · rw [here, inserted.keyps] at sameKey
      rw [here, inserted.vals] at sameValue
      exact .inr ⟨sameKey.symm, sameValue.symm⟩
    · obtain ⟨unchangedBusy, unchangedKey, _, unchangedValue⟩ :=
        inserted.agree other here
      rw [Arrays.Busy, unchangedBusy] at busy
      exact .inl ⟨other, otherInside, busy, unchangedKey ▸ sameKey, unchangedValue ▸ sameValue⟩
  · intro held
    rcases held with ⟨other, otherInside, busy, sameKey, sameValue⟩ | new
    · have different : other ≠ index := by
        intro here
        exact inserted.free (here ▸ busy)
      obtain ⟨unchangedBusy, unchangedKey, _, unchangedValue⟩ :=
        inserted.agree other different
      refine ⟨other, otherInside, ?_, ?_, ?_⟩
      · rw [Arrays.Busy, unchangedBusy]
        exact busy
      · rw [unchangedKey, sameKey]
      · rw [unchangedValue, sameValue]
    · exact ⟨index, inserted.inside, inserted.busy,
        inserted.keyps.trans new.1.symm, inserted.vals.trans new.2.symm⟩

theorem Arrays.Removed.holds_iff
    (removed : before.Removed after capacity index)
    (valid : before.Valid ops capacity)
    (here : ops.eq (before.keyps index) key = true) :
    after.Holds capacity keyp stored ↔
      before.Holds capacity keyp stored ∧ ops.eq keyp key = false := by
  constructor
  · intro held
    obtain ⟨other, otherInside, busy, sameKey, sameValue⟩ := held
    have different : other ≠ index := by
      intro same
      exact removed.free (same ▸ busy)
    obtain ⟨unchangedBusy, unchangedKey, _, unchangedValue⟩ :=
      removed.agree other different
    rw [Arrays.Busy, unchangedBusy] at busy
    rw [unchangedKey] at sameKey
    rw [unchangedValue] at sameValue
    refine ⟨⟨other, otherInside, busy, sameKey, sameValue⟩, ?_⟩
    rw [Bool.eq_false_iff]
    intro equal
    rw [← sameKey] at equal
    exact different (valid.distinct other otherInside index removed.inside busy
      removed.busy (ops.eq_trans equal (ops.eq_symm here)))
  · intro held
    obtain ⟨⟨other, otherInside, busy, sameKey, sameValue⟩, notEqual⟩ := held
    have different : other ≠ index := by
      intro same
      rw [same] at sameKey
      rw [← sameKey, here] at notEqual
      cases notEqual
    obtain ⟨unchangedBusy, unchangedKey, _, unchangedValue⟩ :=
      removed.agree other different
    refine ⟨other, otherInside, ?_, ?_, ?_⟩
    · rw [Arrays.Busy, unchangedBusy]
      exact busy
    · rw [unchangedKey, sameKey]
    · rw [unchangedValue, sameValue]

end Change

/-! ## Insertion and removal by the code -/

section Code

variable {build : Build} {ops : KeyOps κ} {arrays : Arrays κ} {capacity : ℕ}

theorem exists_first_free
    (room : arrays.busyCount capacity < capacity)
    (startBound : start < capacity) :
    ∃ steps < capacity, ¬arrays.Busy (slot capacity start steps) ∧
      ∀ earlier < steps, arrays.Busy (slot capacity start earlier) := by
  have someFree : ∃ steps, steps < capacity ∧
      ¬arrays.Busy (slot capacity start steps) := by
    by_contra allBusy
    have full : arrays.busyCount capacity = capacity := by
      have ones : arrays.busyCount capacity =
          ∑ index ∈ Finset.range capacity, (1 : ℤ) := by
        apply Finset.sum_congr rfl
        intro index member
        rw [Finset.mem_range] at member
        apply if_pos
        intro free
        apply allBusy
        refine ⟨distance capacity start index, distance_lt (Nat.zero_lt_of_lt startBound), ?_⟩
        rw [slot_distance startBound member]
        exact not_not.mpr free
      rw [ones]
      simp
    omega
  refine ⟨Nat.find someFree, (Nat.find_spec someFree).1, (Nat.find_spec someFree).2, ?_⟩
  intro earlier before free
  exact Nat.find_min someFree before ⟨before.trans (Nat.find_spec someFree).1, not_not.mpr free⟩

theorem mapImplPut_inserted
    (admits : build.Admits capacity)
    (room : arrays.busyCount capacity < capacity)
    (key : κ)
    (hash : ℕ)
    (value : ℤ) :
    ∃ index,
      (findEmpty build arrays (build.loop hash capacity) capacity).1 =
        some index ∧
      arrays.Inserted (mapImplPut build arrays key hash value capacity)
        capacity index key hash value := by
  have startBound := Nat.mod_lt hash admits.positive
  obtain ⟨steps, stepsBound, free, busy⟩ := exists_first_free room startBound
  have found := findEmptyLoop_of_free (i := 0) admits startBound stepsBound free
    (Nat.zero_le _) (fun earlier _ => busy earlier)
  rw [Nat.sub_zero] at found
  refine ⟨slot capacity (hash % capacity) steps, ?_, ?_⟩
  · rw [findEmpty, admits.loop_eq, found]
  · rw [mapImplPut, findEmpty, admits.loop_eq, found]
    constructor
    · exact slot_lt admits.positive
    · intro other different
      simp [unsignedSlot, Arrays.addOnPath, different]
    · exact free
    · simp [unsignedSlot]
    · simp [unsignedSlot]
    · simp [unsignedSlot]
    · simp [unsignedSlot]
    · intro through throughInside
      simp only [Passes, distance_slot startBound stepsBound, Arrays.addOnPath,
        throughInside, Nat.zero_le, true_and]
      split_ifs <;> simp

theorem mapImplErase_removed
    (valid : arrays.Valid ops capacity)
    (admits : build.Admits capacity)
    (inside : index < capacity)
    (busy : arrays.Busy index)
    (stored : ops.eq (arrays.keyps index) key = true) :
    (mapImplErase build arrays key ops.eq (ops.hash key) capacity).1 =
        some (arrays.keyps index) ∧
      arrays.Removed
        (mapImplErase build arrays key ops.eq (ops.hash key) capacity).2
        capacity index := by
  have startBound := Nat.mod_lt (ops.hash key) admits.positive
  have sameHash : arrays.khs index = ops.hash key :=
    (valid.matches_of_stored inside busy stored).1.2
  have reached := slot_distance startBound inside
  have stepsBound : distance capacity (ops.hash key % capacity) index <
      capacity := distance_lt admits.positive
  have found := findKeyRemoveChainLoop_of_match (i := 0) admits startBound
    stepsBound
    (by rw [reached]; exact valid.matches_of_stored inside busy stored)
    (Nat.zero_le _)
    (fun earlier _ before => valid.no_match_before inside busy stored before)
  rw [Nat.sub_zero, reached] at found
  rw [mapImplErase, findKeyRemoveChain, admits.loop_eq, found]
  refine ⟨rfl, ?_⟩
  constructor
  · exact inside
  · intro other different
    simp [Arrays.addOnPath, different]
  · exact busy
  · simp
  · intro through throughInside
    simp only [Passes, sameHash, Arrays.addOnPath, throughInside, Nat.zero_le, true_and]
    split_ifs <;> simp [Int.sub_eq_add_neg]

end Code

end Map
end Vigor
