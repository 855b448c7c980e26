import Mathlib.Data.List.Basic

/-!
# Longest matches

Rules are inserted one after the other, and some of them match.  The longest
match is a match of greatest length, and among those the last one inserted.
When the rules are inserted by length, it is the last match.
-/

namespace LongestMatch

variable {ρ : Type*} (length : ρ → ℕ)

/-- A rule that matches, with no longer match, and no match of its length after
it. -/
def Longest
    (covers : ρ → Prop)
    (rules : List ρ)
    (rule : ρ) : Prop :=
  ∃ before after, rules = before ++ rule :: after ∧ covers rule ∧
    (∀ other ∈ before, covers other → length other ≤ length rule) ∧
    ∀ other ∈ after, covers other → length other < length rule

/-- The match that was inserted last. -/
def last
    (covers : ρ → Bool)
    (rules : List ρ) : Option ρ :=
  rules.reverse.find? covers

variable {covers : ρ → Bool} {rules : List ρ} {rule : ρ}

@[simp] theorem last_concat :
    last covers (rules ++ [rule]) = if covers rule then some rule else
      last covers rules := by
  rw [last, List.reverse_append, List.reverse_singleton, List.singleton_append, List.find?_cons]
  cases covers rule <;> rfl

theorem last_eq_none :
    last covers rules = none ↔ ∀ rule ∈ rules, covers rule = false := by
  simp [last]

theorem mem_of_last (found : last covers rules = some rule) : rule ∈ rules :=
  List.mem_reverse.mp (List.mem_of_find?_eq_some found)

theorem covers_of_last (found : last covers rules = some rule) :
    covers rule = true :=
  List.find?_some found

/-- No rule behind the last match matches. -/
theorem last_eq_some :
    last covers rules = some rule ↔
      covers rule = true ∧ ∃ before after, rules = before ++ rule :: after ∧
        ∀ other ∈ after, covers other = false := by
  rw [last, List.find?_eq_some_iff_append]
  refine and_congr_right fun _ => ⟨?_, ?_⟩
  · rintro ⟨after, before, shape, none⟩
    refine ⟨before.reverse, after.reverse, ?_, ?_⟩
    · rw [← List.reverse_reverse rules, shape]
      simp
    · simpa using none
  · rintro ⟨before, after, rfl, none⟩
    exact ⟨after.reverse, before.reverse, by simp, by simpa using none⟩

variable {length}

theorem longest_of_last
    (ordered : rules.Pairwise fun earlier later =>
      length earlier ≤ length later)
    (found : last covers rules = some rule) :
    Longest length (covers · = true) rules rule := by
  obtain ⟨matching, before, after, rfl, none⟩ := last_eq_some.mp found
  refine ⟨before, after, rfl, matching, fun other member _ => ?_, fun other member found => ?_⟩
  · exact (List.pairwise_append.mp ordered).2.2 other member rule List.mem_cons_self
  · exact absurd found (by simp [none other member])

theorem Longest.length_le
    {covers : ρ → Prop}
    (longest : Longest length covers rules rule)
    (member : other ∈ rules)
    (matching : covers other) :
    length other ≤ length rule := by
  obtain ⟨before, after, rfl, _, beforeLe, afterLt⟩ := longest
  rcases List.mem_append.mp member with inBefore | inRest
  · exact beforeLe other inBefore matching
  · rcases List.mem_cons.mp inRest with rfl | inAfter
    · exact Nat.le_refl _
    · exact Nat.le_of_lt (afterLt other inAfter matching)

theorem Longest.unique
    {covers : ρ → Prop}
    (isFirst : Longest length covers rules first)
    (isSecond : Longest length covers rules second) :
    first = second := by
  obtain ⟨before, after, shape, firstMatches, beforeLe, afterLt⟩ := isFirst
  obtain ⟨before', after', shape', secondMatches, beforeLe', afterLt'⟩ := isSecond
  rw [shape] at shape'
  rcases List.append_eq_append_iff.mp shape' with
    ⟨between, rfl, rest⟩ | ⟨between, rfl, rest⟩
  · cases between with
    | nil => exact (List.cons.inj rest).1
    | cons head between =>
        obtain ⟨rfl, rfl⟩ := List.cons.inj rest
        have shorter := afterLt second (by simp) secondMatches
        have longer := beforeLe' first (by simp) firstMatches
        omega
  · cases between with
    | nil => exact (List.cons.inj rest).1.symm
    | cons head between =>
        obtain ⟨rfl, rfl⟩ := List.cons.inj rest
        have shorter := afterLt' first (by simp) firstMatches
        have longer := beforeLe second (by simp) secondMatches
        omega

end LongestMatch
