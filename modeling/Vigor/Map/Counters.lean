import Vigor.Map.Contract

/-!
# The chain counters along every run

The states of a table are those that initialisation, insertions of absent keys
into a table with room and removals of present keys lead to.  Every such state
is valid, so a chain counter is the number of stored keys whose probe path
leads through the slot.
-/

namespace Vigor
namespace Map

open ProbePath

variable {κ : Type u} {build : Build} {ops : KeyOps κ} {capacity : ℕ}
  {arrays : Arrays κ}

/-- Some slot stores the key. -/
def Arrays.Stores
    (ops : KeyOps κ)
    (arrays : Arrays κ)
    (capacity : ℕ)
    (key : κ) : Prop :=
  ∃ index < capacity, arrays.Busy index ∧
    ops.eq (arrays.keyps index) key = true

/-- States of a table in runs that keep the conditions of the operations. -/
inductive Reachable
    (build : Build)
    (ops : KeyOps κ)
    (capacity : ℕ) : Arrays κ → Prop where
  | init (memory : Arrays κ) :
      Reachable build ops capacity (mapImplInit memory capacity)
  | put {arrays : Arrays κ} (key : κ) (value : ℤ) :
      Reachable build ops capacity arrays →
      ¬arrays.Stores ops capacity key →
      arrays.busyCount capacity < capacity →
      Reachable build ops capacity
        (mapImplPut build arrays key (ops.hash key) value capacity)
  | erase {arrays : Arrays κ} (key : κ) :
      Reachable build ops capacity arrays →
      arrays.Stores ops capacity key →
      Reachable build ops capacity
        (mapImplErase build arrays key ops.eq (ops.hash key) capacity).2

/-- Every state of a run is valid. -/
theorem Reachable.valid
    (admits : build.Admits capacity)
    (reached : Reachable build ops capacity arrays) :
    arrays.Valid ops capacity := by
  induction reached with
  | init memory => exact (mapImplInit_valid ops memory capacity).1
  | put key value _ absent room valid =>
      obtain ⟨index, _, inserted⟩ :=
        mapImplPut_inserted admits room key (ops.hash key) value
      apply inserted.valid valid
      intro other inside busy
      rw [← Bool.not_eq_true]
      intro stored
      exact absent ⟨other, inside, busy, stored⟩
  | erase key _ present valid =>
      obtain ⟨index, inside, busy, stored⟩ := present
      have removed := (mapImplErase_removed valid admits inside busy stored).2
      exact removed.valid valid

/-- Slots that a probe for the key stored in a slot visits before that slot:
from the remainder of the hash, cyclically. -/
def Arrays.probePath
    (ops : KeyOps κ)
    (arrays : Arrays κ)
    (capacity index : ℕ) : List ℕ :=
  path capacity (ops.hash (arrays.keyps index) % capacity) index

/-- Slots whose stored key has a probe path through the given slot. -/
def Arrays.chained
    (ops : KeyOps κ)
    (arrays : Arrays κ)
    (capacity through : ℕ) : Finset ℕ :=
  {index ∈ Finset.range capacity |
    arrays.Busy index ∧ through ∈ arrays.probePath ops capacity index}

/-- In a valid table the counted paths are those of the stored keys. -/
theorem Arrays.Valid.chainCount_eq_card
    (valid : arrays.Valid ops capacity)
    (positive : 0 < capacity)
    (inside : through < capacity) :
    arrays.chainCount capacity through =
      (arrays.chained ops capacity through).card := by
  unfold Arrays.chainCount Arrays.chained
  rw [Finset.sum_boole]
  congr 2
  apply Finset.filter_congr
  intro index member
  apply and_congr_right
  intro busy
  have hashes := valid.hashes index (Finset.mem_range.mp member) busy
  unfold Arrays.probePath
  rw [mem_path_iff (Nat.mod_lt _ positive) inside, hashes]

/-- In every state of a run, in both builds, a chain counter is the number of
stored keys whose probe path leads through its slot.  So it is never negative,
and where it is zero no key is stored beyond the slot on a path through it. -/
theorem chain_counters_count_probe_paths
    (admits : build.Admits capacity)
    (reached : Reachable build ops capacity arrays)
    {through : ℕ}
    (inside : through < capacity) :
    arrays.chns through = (arrays.chained ops capacity through).card ∧
      0 ≤ arrays.chns through ∧
      (arrays.chns through = 0 → ∀ index < capacity, arrays.Busy index →
        through ∉ arrays.probePath ops capacity index) := by
  have valid := reached.valid admits
  have counted : arrays.chns through =
      (arrays.chained ops capacity through).card := by
    rw [valid.chains through inside]
    exact valid.chainCount_eq_card admits.positive inside
  refine ⟨counted, ?_, ?_⟩
  · rw [counted]
    exact Int.natCast_nonneg _
  · intro zero index indexInside busy passes
    rw [zero] at counted
    have none : arrays.chained ops capacity through = ∅ := by
      apply Finset.card_eq_zero.mp
      exact_mod_cast counted.symm
    have member : index ∈ arrays.chained ops capacity through := by
      unfold Arrays.chained
      rw [Finset.mem_filter, Finset.mem_range]
      exact ⟨indexInside, busy, passes⟩
    rw [none] at member
    exact Finset.notMem_empty index member

/-- Three keys with the hash of the last slot of a table of four: after the
second is erased, the third is still counted on the two slots before its own,
around the end of the table. -/
theorem chain_counters_count_probe_paths_wrapped :
    let ops : KeyOps ℕ := KeyOps.ofHash fun _ => 7
    let memory : Arrays ℕ := ⟨fun _ => 3, fun _ => 0, fun _ => 0, fun _ => 9,
      fun _ => 0⟩
    let first := mapImplPut .pow2 (mapImplInit memory 4) 5 7 50 4
    let second := mapImplPut .pow2 first 6 7 60 4
    let third := mapImplPut .pow2 second 8 7 80 4
    let arrays := (mapImplErase .pow2 third 6 ops.eq 7 4).2
    (arrays.chns 3 = 1 ∧ arrays.chns 0 = 1 ∧ arrays.chns 1 = 0) ∧
      (arrays.chained ops 4 0).card = 1 ∧
      ¬(arrays.Busy 2 ∧ 1 ∈ arrays.probePath ops 4 2) := by
  intro ops memory first second third arrays
  have admits : Build.Admits .pow2 4 := ⟨by decide, by decide, fun _ => ⟨2, rfl⟩⟩
  have reached : Reachable .pow2 ops 4 arrays := by
    apply Reachable.erase 6
    · apply Reachable.put 8 80
      · apply Reachable.put 6 60
        · apply Reachable.put 5 50
          · exact Reachable.init memory
          · rintro ⟨index, inside, busy, _⟩
            exact busy (mapImplInit_cleared memory inside).1
          · decide
        · unfold Arrays.Stores
          decide
        · decide
      · unfold Arrays.Stores
        decide
      · decide
    · exact ⟨0, by decide, by decide, by decide⟩
  have counters : arrays.chns 3 = 1 ∧ arrays.chns 0 = 1 ∧ arrays.chns 1 = 0 := by
    decide
  have atZero := chain_counters_count_probe_paths admits reached
    (show 0 < 4 by decide)
  have atOne := chain_counters_count_probe_paths admits reached
    (show 1 < 4 by decide)
  refine ⟨counters, ?_, ?_⟩
  · rw [counters.2.1] at atZero
    exact_mod_cast atZero.1.symm
  · rintro ⟨busy, passes⟩
    exact atOne.2.2 counters.2.2 2 (by decide) busy passes

end Map
end Vigor
