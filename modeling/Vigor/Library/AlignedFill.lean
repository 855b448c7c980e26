import Mathlib.Data.Nat.Bitwise
import Mathlib.Tactic.Ring

/-!
# Aligned blocks of an array

A block of size `2 ^ bits` starts at a multiple of its size.  A mask of leading
ones gives the start of the block of a number, and a loop writes one value to
every entry of a block.
-/

namespace AlignedFill

variable {α : Type*}

/-- Write a value to consecutive entries, from an index on. -/
def fill : ℕ → (ℕ → α) → ℕ → α → (ℕ → α)
  | 0, entries, _, _ => entries
  | rounds + 1, entries, i, value =>
      fill rounds (Function.update entries i value) (i + 1) value

theorem fill_apply
    (rounds : ℕ)
    (entries : ℕ → α)
    (start : ℕ)
    (value : α)
    (index : ℕ) :
    fill rounds entries start value index =
      if start ≤ index ∧ index < start + rounds then value else
        entries index := by
  induction rounds generalizing entries start with
  | zero => rw [fill, if_neg (by omega)]
  | succ rounds ih =>
      rw [fill, ih]
      by_cases later : start + 1 ≤ index ∧ index < start + 1 + rounds
      · rw [if_pos later, if_pos (by omega)]
      · rw [if_neg later]
        by_cases first : index = start
        · rw [first, Function.update_self, if_pos (by omega)]
        · rw [Function.update_of_ne first, if_neg (by omega)]

theorem mem_block_iff (bits quotient index : ℕ) :
    quotient * 2 ^ bits ≤ index ∧ index < quotient * 2 ^ bits + 2 ^ bits ↔
      index / 2 ^ bits = quotient := by
  have positive : 0 < 2 ^ bits := Nat.two_pow_pos bits
  have successor : quotient * 2 ^ bits + 2 ^ bits = (quotient + 1) * 2 ^ bits := by ring
  rw [successor, ← Nat.le_div_iff_mul_le positive, ← Nat.div_lt_iff_lt_mul positive]
  omega

theorem fill_block_apply
    (bits quotient : ℕ)
    (entries : ℕ → α)
    (value : α)
    (index : ℕ) :
    fill (2 ^ bits) entries (quotient * 2 ^ bits) value index =
      if index / 2 ^ bits = quotient then value else entries index := by
  rw [fill_apply]
  exact if_congr (mem_block_iff bits quotient index) rfl rfl

theorem and_mask
    (bounded : number < 2 ^ width)
    (within : bits ≤ width) :
    number &&& (2 ^ width - 2 ^ bits) = number / 2 ^ bits * 2 ^ bits := by
  have mask : 2 ^ width - 2 ^ bits = (2 ^ (width - bits) - 1) <<< bits := by
    rw [Nat.shiftLeft_eq, Nat.sub_mul, one_mul, ← pow_add, Nat.sub_add_cancel within]
  rw [mask, ← Nat.shiftRight_eq_div_pow, ← Nat.shiftLeft_eq]
  apply Nat.eq_of_testBit_eq
  intro position
  rw [Nat.testBit_and, Nat.testBit_shiftLeft, Nat.testBit_shiftLeft,
    Nat.testBit_two_pow_sub_one, Nat.testBit_shiftRight]
  by_cases above : bits ≤ position
  · have same : bits + (position - bits) = position := by omega
    rw [same]
    by_cases inside : position < width
    · simp [above, show position - bits < width - bits by omega]
    · have clear : number.testBit position = false :=
        Nat.testBit_lt_two_pow (lt_of_lt_of_le bounded
          (Nat.pow_le_pow_right (by decide) (by omega)))
      simp [clear]
  · simp [above]

end AlignedFill
