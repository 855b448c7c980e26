import Vigor.DoubleChain.Timed
import Mathlib.Data.List.Find
import Mathlib.Algebra.Group.Int.Defs
import Mathlib.Algebra.Group.Nat.Defs

/-!
# The consistent hashing table

`cht.c`.  The table has a row for each hash modulo its height: the indexes of
the backends in the order in which they are preferred for the hash.  A backend
has a permutation of the rows.  The rows are filled by going through the
permutations of all backends in step.

The vector of the table has fewer than `2 ^ 31` cells, so positions in it are
natural numbers.
-/

namespace Vigor
namespace Cht

open DoubleChain

/-- `loop`. -/
def loop (k capacity : ℕ) : ℕ :=
  k % capacity

/-- The row that is number `j` for backend `i`: `permutations[i * cht_height +
j]`. -/
def permutation (chtHeight i j : ℕ) : ℕ :=
  let offsetAbsolut := i * 31 % 2 ^ 32
  let offset := loop offsetAbsolut chtHeight
  let baseShift := loop i (chtHeight - 1)
  let shift := baseShift + 1
  loop (offset + shift * j) chtHeight

/-- The array `next`, with the number of filled cells of each row, and the
table. -/
structure Filling where
  next : ℕ → ℕ
  cht : ℕ → ℕ

/-- Round `i`, `j` of the loops that fill the table. -/
def fillCell
    (chtHeight backendCapacity i j : ℕ)
    (filling : Filling) : Filling :=
  let bucketId := permutation chtHeight j i
  let priority := filling.next bucketId
  { next := Function.update filling.next bucketId (priority + 1)
    cht := Function.update filling.cht (backendCapacity * bucketId + priority) j }

/-- `cht_fill_cht`. -/
def chtFillCht
    (chtHeight backendCapacity : ℕ)
    (cht : ℕ → ℕ) : ℕ → ℕ :=
  let filling := (List.range chtHeight).foldl
    (fun filling i => (List.range backendCapacity).foldl
      (fun filling j => fillCell chtHeight backendCapacity i j filling) filling)
    { next := fun _ => 0, cht := cht }
  filling.cht

/-- The row of a hash. -/
def candidates
    (hash : ℕ)
    (cht : ℕ → ℕ)
    (chtHeight backendCapacity : ℕ) : List ℤ :=
  let start := loop hash chtHeight
  (List.range backendCapacity).map fun i => (cht (start * backendCapacity + i) : ℤ)

/-- `cht_find_preferred_available_backend`: the first candidate that is
active. -/
def chtFindPreferredAvailableBackend
    (hash : ℕ)
    (cht : ℕ → ℕ)
    (activeBackends : DoubleChain)
    (chtHeight backendCapacity : ℕ) : Option ℤ :=
  (candidates hash cht chtHeight backendCapacity).find?
    (dchainIsIndexAllocated activeBackends)

/-! ## Candidates are indexes of backends -/

/-- All cells hold indexes of backends. -/
def InRange
    (backendCapacity : ℕ)
    (cht : ℕ → ℕ) : Prop :=
  ∀ cell, cht cell < backendCapacity

variable {backendCapacity : ℕ}

theorem InRange.fillCell
    (inRange : InRange backendCapacity filling.cht)
    (backend : j < backendCapacity)
    (chtHeight i : ℕ) :
    InRange backendCapacity
      (fillCell chtHeight backendCapacity i j filling).cht := by
  intro cell
  simp only [Cht.fillCell, Function.update_apply]
  split
  · exact backend
  · exact inRange cell

theorem InRange.chtFillCht
    (inRange : InRange backendCapacity cht)
    (chtHeight : ℕ) :
    InRange backendCapacity (chtFillCht chtHeight backendCapacity cht) := by
  unfold Cht.chtFillCht
  refine List.foldlRecOn (motive := fun filling : Filling =>
    InRange backendCapacity filling.cht) _ _ inRange ?_
  intro filling kept i _
  refine List.foldlRecOn (motive := fun filling : Filling =>
    InRange backendCapacity filling.cht) _ _ kept ?_
  intro filling kept j member
  exact kept.fillCell (List.mem_range.mp member) chtHeight i

theorem InRange.chtFind_eq
    (inRange : InRange backendCapacity cht)
    {V : Type u}
    {table : IndexTable backendCapacity V}
    (tracks : activeBackends.Tracks table)
    (hash chtHeight : ℕ) :
    chtFindPreferredAvailableBackend hash cht activeBackends chtHeight
        backendCapacity =
      (candidates hash cht chtHeight backendCapacity).find? fun index =>
        index ∈ table.alloc := by
  refine List.find?_congr fun index member => ?_
  obtain ⟨i, _, rfl⟩ := List.mem_map.mp member
  rw [Bool.eq_iff_iff, decide_eq_true_iff]
  exact tracks.dchainIsIndexAllocated_iff (Int.natCast_nonneg _) (Int.ofNat_lt.mpr (inRange _))

end Cht
end Vigor
