import Mathlib.Algebra.Group.Nat.Defs

/-!
# The CRC of the hash functions

The builtin `__builtin_ia32_crc32si` of the compiler adds a word of 32 bits to a
CRC with the Castagnoli polynomial.
-/

/-- One bit of a word, from the lowest on. -/
def crc32bit (rest : ℕ) : ℕ :=
  if rest % 2 = 1 then rest / 2 ^^^ 0x82F63B78 else rest / 2

/-- `__builtin_ia32_crc32si`. -/
def crc32si (crc word : ℕ) : ℕ :=
  Nat.repeat crc32bit 32 (crc ^^^ word)

theorem crc32bit_lt
    {rest : ℕ}
    (word : rest < 2 ^ 32) :
    crc32bit rest < 2 ^ 32 := by
  have half : rest / 2 < 2 ^ 32 := by omega
  unfold crc32bit
  split
  · exact Nat.xor_lt_two_pow half (by decide)
  · exact half

theorem crc32si_lt
    {crc word : ℕ}
    (isWord : crc < 2 ^ 32)
    (alsoWord : word < 2 ^ 32) :
    crc32si crc word < 2 ^ 32 := by
  have rounds (count : ℕ) : Nat.repeat crc32bit count (crc ^^^ word) < 2 ^ 32 := by
    induction count with
    | zero => exact Nat.xor_lt_two_pow isWord alsoWord
    | succ count ih => exact crc32bit_lt ih
  exact rounds 32
