import Mathlib.Algebra.BigOperators.Group.Finset.Basic
import Mathlib.Data.Int.CardIntervalMod
import Mathlib.Data.Nat.Prime.Basic
import Mathlib.Tactic.LinearCombination
import Vigor.Cht.Impl
import Vigor.Library.RowFill

/-!
# What filling the table does

Backend `j` goes to row `offset + shift * i` modulo the height in round `i`.
How often it goes to a row depends on the greatest common divisor of the height
and its shift. For a prime height that is larger than the number of backends
every backend goes to every row once, so that every row becomes a permutation of
the backends.
-/

namespace Vigor

/-! ## Linear congruences -/

namespace LinearCongruence

variable {modulus : ℕ} (offset shift : ℕ)

theorem solution_iff
    (positive : 0 < modulus)
    {first second : ℕ} :
    (offset + shift * first) % modulus = (offset + shift * second) % modulus ↔
      first ≡ second [MOD modulus / modulus.gcd shift] := by
  constructor
  · intro same
    exact Nat.ModEq.cancel_left_div_gcd positive (Nat.ModEq.add_left_cancel' offset same)
  · intro congruent
    have divides : modulus ∣ shift * (modulus / modulus.gcd shift) := by
      rw [← Nat.mul_div_assoc _ (Nat.gcd_dvd_left ..), Nat.mul_comm shift,
        Nat.mul_div_assoc _ (Nat.gcd_dvd_right ..)]
      exact Nat.dvd_mul_right ..
    exact ((congruent.mul_left' shift).of_dvd divides).add_left offset

variable {row : ℕ} (inside : row < modulus)

include inside

theorem exists_solution
    (congruent : row % modulus.gcd shift = offset % modulus.gcd shift) :
    ∃ round, (offset + shift * round) % modulus = row := by
  obtain ⟨quotient, difference⟩ : ((modulus.gcd shift : ℕ) : ℤ) ∣ row - offset :=
    Nat.modEq_iff_dvd.mp congruent.symm
  have bezout := Nat.gcd_eq_gcd_ab modulus shift
  set round := (Nat.gcdB modulus shift * quotient) % modulus with round_eq
  have nonnegative : 0 ≤ round := Int.emod_nonneg _ (by omega)
  have goes : (offset : ℤ) + shift * round ≡ row [ZMOD modulus] := by
    calc (offset : ℤ) + shift * round
        ≡ offset + shift * (Nat.gcdB modulus shift * quotient) [ZMOD modulus] :=
          ((Int.mod_modEq _ _).mul_left _).add_left _
      _ = row + modulus * (-(Nat.gcdA modulus shift) * quotient) := by
          linear_combination -quotient * bezout - difference
      _ ≡ row [ZMOD modulus] := Int.modEq_add_fac_self
  refine ⟨round.toNat, ?_⟩
  zify
  rw [Int.toNat_of_nonneg nonnegative, goes.eq]
  exact_mod_cast Nat.mod_eq_of_lt inside

theorem count_solutions :
    modulus.count (fun round => (offset + shift * round) % modulus = row) =
      if row % modulus.gcd shift = offset % modulus.gcd shift then
        modulus.gcd shift
      else 0 := by
  have positive : 0 < modulus := Nat.zero_lt_of_lt inside
  have divides := Nat.gcd_dvd_left modulus shift
  split
  · rename_i congruent
    obtain ⟨solution, rfl⟩ := exists_solution offset shift inside congruent
    have period : 0 < modulus / modulus.gcd shift :=
      Nat.div_pos (Nat.le_of_dvd positive divides) (Nat.gcd_pos_of_pos_left _ positive)
    simp only [solution_iff offset shift positive]
    rw [Nat.count_modEq_card _ period,
      Nat.mod_eq_zero_of_dvd (Nat.div_dvd_of_dvd divides),
      Nat.div_div_self divides (Nat.ne_of_gt positive)]
    simp
  · rename_i incongruent
    refine Nat.count_iff_forall_not.mpr fun round _ goes => incongruent ?_
    rw [← goes, Nat.mod_mod_of_dvd _ divides]
    have vanishes : shift * round ≡ 0 [MOD modulus.gcd shift] :=
      Nat.modEq_zero_iff_dvd.mpr ((Nat.gcd_dvd_right modulus shift).mul_right round)
    exact vanishes.add_left offset

end LinearCongruence

namespace Cht

/-- The local variable `offset` of `cht_fill_cht` for a backend. -/
def offset (chtHeight backend : ℕ) : ℕ :=
  loop (backend * 31 % 2 ^ 32) chtHeight

/-- The local variable `shift` of `cht_fill_cht` for a backend. -/
def shift (chtHeight backend : ℕ) : ℕ :=
  loop backend (chtHeight - 1) + 1

theorem permutation_eq (chtHeight backend round : ℕ) :
    permutation chtHeight backend round =
      (offset chtHeight backend + shift chtHeight backend * round) %
        chtHeight :=
  rfl

theorem permutation_lt
    (positive : 0 < chtHeight)
    (backend round : ℕ) :
    permutation chtHeight backend round < chtHeight :=
  Nat.mod_lt _ positive

/-- The number of times that a backend goes to a row. -/
def share (chtHeight backend row : ℕ) : ℕ :=
  let divisor := chtHeight.gcd (shift chtHeight backend)
  if row % divisor = offset chtHeight backend % divisor then divisor else 0

variable {chtHeight row : ℕ}

theorem count_permutation
    (inside : row < chtHeight)
    (backend : ℕ) :
    chtHeight.count (fun round => permutation chtHeight backend round = row) =
      share chtHeight backend row :=
  LinearCongruence.count_solutions _ _ inside

/-- For a prime height, a backend goes to every row once. -/
theorem share_of_prime
    (prime : chtHeight.Prime)
    (backend row : ℕ) :
    share chtHeight backend row = 1 := by
  have positive : 0 < chtHeight - 1 := by
    have := prime.two_le
    omega
  have small : shift chtHeight backend < chtHeight := by
    have := Nat.mod_lt backend positive
    unfold shift loop
    omega
  have coprime : chtHeight.gcd (shift chtHeight backend) = 1 :=
    Nat.coprime_of_lt_prime (Nat.succ_ne_zero _) small prime
  simp [share, coprime, Nat.mod_one]

/-! ## The rows -/

/-- The rounds of the two loops: the row that a backend goes to, and the
backend. -/
def placements (chtHeight backendCapacity : ℕ) : List (ℕ × ℕ) :=
  (List.range chtHeight).flatMap fun round =>
    (List.range backendCapacity).map fun backend =>
      (permutation chtHeight backend round, backend)

/-- The state of the loops as rows that are filled. -/
def Filling.rows (filling : Filling) : RowFill.Rows ℕ :=
  { next := filling.next
    cells := filling.cht }

/-- The loops put the backends into the rows. -/
theorem chtFillCht_eq
    (chtHeight backendCapacity : ℕ)
    (cht : ℕ → ℕ) :
    chtFillCht chtHeight backendCapacity cht =
      (RowFill.fill backendCapacity (placements chtHeight backendCapacity)
        { next := fun _ => 0, cells := cht }).cells := by
  have inner (round : ℕ) (filling : Filling) :
      (List.range backendCapacity).foldl (fun rows backend =>
          RowFill.place backendCapacity rows
            (permutation chtHeight backend round, backend)) filling.rows =
        ((List.range backendCapacity).foldl (fun filling backend =>
          fillCell chtHeight backendCapacity round backend filling) filling).rows :=
    List.foldl_hom Filling.rows fun _ _ => rfl
  rw [RowFill.fill, placements, List.foldl_flatMap]
  simp only [List.foldl_map]
  have outer (filling : Filling) :
      (List.range chtHeight).foldl (fun rows round =>
          (List.range backendCapacity).foldl (fun rows backend =>
            RowFill.place backendCapacity rows
              (permutation chtHeight backend round, backend)) rows) filling.rows =
        ((List.range chtHeight).foldl (fun filling round =>
          (List.range backendCapacity).foldl (fun filling backend =>
            fillCell chtHeight backendCapacity round backend filling) filling) filling).rows :=
    List.foldl_hom Filling.rows fun filling round => inner round filling
  exact (congrArg RowFill.Rows.cells (outer { next := fun _ => 0, cht := cht })).symm

theorem items_placements (chtHeight backendCapacity row : ℕ) :
    RowFill.items row (placements chtHeight backendCapacity) =
      (List.range chtHeight).flatMap fun round =>
        (List.range backendCapacity).filter fun backend =>
          permutation chtHeight backend round = row := by
  simp [RowFill.items, placements, List.filter_flatMap, List.map_flatMap,
    List.filter_map, Function.comp_def]

theorem count_items
    (inside : row < chtHeight)
    (isBackend : backend < backendCapacity) :
    (RowFill.items row (placements chtHeight backendCapacity)).count backend =
      share chtHeight backend row := by
  rw [items_placements, ← count_permutation inside, Nat.count]
  induction List.range chtHeight with
  | nil => rfl
  | cons round rounds ih =>
      rw [List.flatMap_cons, List.count_append, ih, List.countP_cons, Nat.add_comm]
      congr 1
      split
      · rename_i goes
        exact List.count_eq_one_of_mem (List.nodup_range.filter _)
          (List.mem_filter.mpr ⟨List.mem_range.mpr isBackend, goes⟩)
      · rename_i stays
        refine List.count_eq_zero_of_not_mem fun member => stays ?_
        exact (List.mem_filter.mp member).2

theorem lt_of_mem_items
    (member : backend ∈
      RowFill.items row (placements chtHeight backendCapacity)) :
    backend < backendCapacity := by
  rw [items_placements] at member
  obtain ⟨round, _, kept⟩ := List.mem_flatMap.mp member
  exact List.mem_range.mp (List.mem_filter.mp kept).1

theorem length_items
    (inside : row < chtHeight)
    (backendCapacity : ℕ) :
    (RowFill.items row (placements chtHeight backendCapacity)).length =
      ∑ backend ∈ Finset.range backendCapacity,
        share chtHeight backend row := by
  rw [← List.sum_toFinset_count_eq_length, ← Finset.sum_congr rfl fun backend member =>
    count_items inside (Finset.mem_range.mp member)]
  refine Finset.sum_subset (fun backend member => ?_) fun backend _ absent => ?_
  · exact Finset.mem_range.mpr (lt_of_mem_items (List.mem_toFinset.mp member))
  · exact List.count_eq_zero_of_not_mem (mt List.mem_toFinset.mpr absent)

theorem placed_lt
    (positive : 0 < chtHeight)
    (placed : placement ∈ placements chtHeight backendCapacity) :
    placement.1 < chtHeight := by
  obtain ⟨round, _, inRound⟩ := List.mem_flatMap.mp placed
  obtain ⟨backend, _, rfl⟩ := List.mem_map.mp inRound
  exact permutation_lt positive backend round

theorem items_of_le
    (positive : 0 < chtHeight)
    (outside : chtHeight ≤ row)
    (backendCapacity : ℕ) :
    RowFill.items row (placements chtHeight backendCapacity) = [] := by
  refine List.map_eq_nil_iff.mpr (List.filter_eq_nil_iff.mpr fun placement placed => ?_)
  have := placed_lt positive placed
  simp only [decide_eq_true_eq]
  omega

/-! ## Prime heights -/

section Prime

variable {chtHeight backendCapacity row : ℕ} (prime : chtHeight.Prime)

include prime

theorem perm_items (inside : row < chtHeight) :
    (RowFill.items row (placements chtHeight backendCapacity)).Perm
      (List.range backendCapacity) := by
  rw [List.perm_iff_count]
  intro backend
  by_cases isBackend : backend < backendCapacity
  · rw [count_items inside isBackend, share_of_prime prime]
    exact (List.count_eq_one_of_mem List.nodup_range (List.mem_range.mpr isBackend)).symm
  · rw [List.count_eq_zero_of_not_mem fun member => isBackend (lt_of_mem_items member),
      List.count_eq_zero_of_not_mem fun member => isBackend (List.mem_range.mp member)]

theorem length_items_of_prime (inside : row < chtHeight) :
    (RowFill.items row (placements chtHeight backendCapacity)).length =
      backendCapacity := by
  rw [(perm_items prime inside).length_eq, List.length_range]

theorem length_items_le (row : ℕ) :
    (RowFill.items row (placements chtHeight backendCapacity)).length ≤
      backendCapacity := by
  rcases Nat.lt_or_ge row chtHeight with inside | outside
  · exact Nat.le_of_eq (length_items_of_prime prime inside)
  · rw [items_of_le prime.pos outside]
    exact Nat.zero_le _

theorem row_chtFillCht
    (inside : row < chtHeight)
    (cht : ℕ → ℕ) :
    ((List.range backendCapacity).map fun i =>
      chtFillCht chtHeight backendCapacity cht (row * backendCapacity + i)) =
        RowFill.items row (placements chtHeight backendCapacity) := by
  rw [← RowFill.row_fill (length_items_le prime) cht
    (length_items_of_prime prime inside), chtFillCht_eq, Nat.mul_comm]

end Prime

end Cht
end Vigor
