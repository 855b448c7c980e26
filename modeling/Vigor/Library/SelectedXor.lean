import Mathlib.Data.List.Basic
import Mathlib.Data.Nat.Bitwise

/-!
# Exclusive or of selected words

Bits select words of a list, and the selected words are combined by exclusive
or.  The result is linear in the bits, and the words can be read back from it by
selecting one at a time.
-/

namespace SelectedXor

/-- The exclusive or of the words whose bits are set. -/
def select : List Bool → List ℕ → ℕ
  | bit :: bits, word :: words => (if bit then word else 0) ^^^ select bits words
  | _, _ => 0

@[simp] theorem select_nil (words : List ℕ) : select [] words = 0 :=
  rfl

@[simp] theorem select_nil_right (bits : List Bool) : select bits [] = 0 := by
  cases bits <;> rfl

theorem select_cons
    (bit : Bool)
    (bits : List Bool)
    (word : ℕ)
    (words : List ℕ) :
    select (bit :: bits) (word :: words) =
      (if bit then word else 0) ^^^ select bits words :=
  rfl

/-- Selection is linear in the bits. -/
theorem select_zipWith_xor
    (lengths : first.length = second.length)
    (words : List ℕ) :
    select (List.zipWith xor first second) words =
      select first words ^^^ select second words := by
  induction first generalizing second words with
  | nil =>
      obtain rfl := List.eq_nil_of_length_eq_zero lengths.symm
      rw [List.zipWith_nil_left, select_nil, Nat.xor_self]
  | cons bit first ih =>
      cases second with
      | nil => cases lengths
      | cons other second =>
          cases words with
          | nil => simp only [select_nil_right, Nat.xor_self]
          | cons word words =>
              rw [List.zipWith_cons_cons, select_cons, select_cons, select_cons,
                ih (Nat.succ.inj lengths)]
              cases bit <;> cases other <;> simp [Nat.xor_assoc, Nat.xor_left_comm]

theorem select_append
    (lengths : bits.length = words.length)
    (moreBits : List Bool)
    (moreWords : List ℕ) :
    select (bits ++ moreBits) (words ++ moreWords) =
      select bits words ^^^ select moreBits moreWords := by
  induction bits generalizing words with
  | nil =>
      obtain rfl := List.eq_nil_of_length_eq_zero lengths.symm
      rw [select_nil, Nat.zero_xor]
      rfl
  | cons bit bits ih =>
      cases words with
      | nil => cases lengths
      | cons word words =>
          rw [List.cons_append, List.cons_append, select_cons, select_cons,
            ih (Nat.succ.inj lengths), Nat.xor_assoc]

theorem select_and
    (bits : List Bool)
    (words : List ℕ)
    (mask : ℕ) :
    select bits words &&& mask = select bits (words.map (· &&& mask)) := by
  induction bits generalizing words with
  | nil => exact Nat.zero_and mask
  | cons bit bits ih =>
      cases words with
      | nil => exact Nat.zero_and mask
      | cons word words =>
          rw [List.map_cons, select_cons, select_cons, Nat.and_xor_distrib_right, ih]
          cases bit <;> simp

@[simp] theorem select_replicate_false
    (count : ℕ)
    (words : List ℕ) :
    select (List.replicate count false) words = 0 := by
  induction count generalizing words with
  | zero => rfl
  | succ count ih =>
      cases words with
      | nil => rfl
      | cons word words =>
          rw [List.replicate_succ, select_cons, ih, if_neg Bool.false_ne_true, Nat.xor_self]

theorem eq_of_forall_select_eq
    (lengths : words.length = others.length)
    (same : ∀ bits : List Bool, bits.length = words.length →
      select bits words = select bits others) :
    words = others := by
  induction words generalizing others with
  | nil => exact (List.eq_nil_of_length_eq_zero lengths.symm).symm
  | cons word words ih =>
      cases others with
      | nil => cases lengths
      | cons other others =>
          have first := same (true :: List.replicate words.length false) (by simp)
          rw [select_cons, select_cons, select_replicate_false, select_replicate_false] at first
          have rest : words = others := by
            apply ih (Nat.succ.inj lengths)
            intro bits isLength
            have later := same (false :: bits) (congrArg (· + 1) isLength)
            rw [select_cons, select_cons] at later
            simpa using later
          rw [rest]
          simpa using first

end SelectedXor
