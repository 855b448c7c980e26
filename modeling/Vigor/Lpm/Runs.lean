import Vigor.Library.LongestMatch
import Vigor.Library.Transcript
import Vigor.Lpm.Update
import Mathlib.Data.List.Induction

/-!
# Runs of updates of the longest-prefix table

In every table that updates lead to, groups are not shared.  An update changes
the lookups of its own addresses only, or those of their first three bytes.  A
new group hides the shorter rules that were inserted before it: the table finds
the longest match of an address exactly when no shorter rule is hidden there.
-/

namespace Vigor
namespace Lpm

open LongestMatch

/-- The table after a list of updates on a fresh one. -/
def inserted
    (memory : Lpm)
    (rules : List Rule) : Lpm :=
  (Transcript.run update rules memory.lpmAllocate).2

/-- The return codes of a list of updates on a fresh table. -/
def insertCodes
    (memory : Lpm)
    (rules : List Rule) : List Bool :=
  (Transcript.run update rules memory.lpmAllocate).1

section

variable (memory : Lpm)
  (rules : List Rule)

theorem inserted_concat
    (rule : Rule) :
    memory.inserted (rules ++ [rule]) =
      ((memory.inserted rules).update rule).2 := by
  simp only [inserted, Transcript.run_append]
  rfl

theorem insertCodes_concat
    (rule : Rule) :
    memory.insertCodes (rules ++ [rule]) =
      memory.insertCodes rules ++
        [((memory.inserted rules).update rule).1] := by
  simp only [insertCodes, inserted, Transcript.run_append]
  rfl

theorem wellFormed_inserted :
    (memory.inserted rules).WellFormed := by
  induction rules using List.reverseRecOn with
  | nil => exact wellFormed_lpmAllocate memory
  | append_singleton rules rule ih =>
      rw [inserted_concat]
      exact ih.update_wellFormed rule

theorem lpmLongIndex_inserted_le :
    (memory.inserted rules).lpmLongIndex ≤ rules.length := by
  induction rules using List.reverseRecOn with
  | nil => exact le_rfl
  | append_singleton rules rule ih =>
      have wellFormed := wellFormed_inserted memory rules
      rw [inserted_concat, List.length_append, List.length_singleton]
      cases result : ((memory.inserted rules).update rule).1 with
      | true => exact (wellFormed.update_of_true result).groups.trans (by omega)
      | false =>
          obtain ⟨needs, full⟩ := wellFormed.update_eq_false_iff.mp result
          rw [update_of_full needs full.ge]
          exact ih.trans (Nat.le_succ _)

theorem insertCodes_of_length_le
    (few : rules.length ≤ lpmLongOffsetMax) :
    ∀ code ∈ memory.insertCodes rules, code = true := by
  induction rules using List.reverseRecOn with
  | nil => simp [insertCodes]
  | append_singleton rules rule ih =>
      rw [List.length_append, List.length_singleton] at few
      intro code member
      rw [insertCodes_concat, List.mem_append, List.mem_singleton] at member
      rcases member with earlier | rfl
      · exact ih (by omega) code earlier
      · by_contra failed
        have full := ((wellFormed_inserted memory rules).update_eq_false_iff.mp
          (by simpa using failed)).2
        have := lpmLongIndex_inserted_le memory rules
        omega

end

/-! ## Frame -/

/-- The entries with the flag hold different groups, all of them handed out. -/
def DistinctGroups (lpm : Lpm) : Prop :=
  (∀ index < lpm24MaxEntries, LongEntry (lpm.lpm24 index) →
    entryGroup (lpm.lpm24 index) < lpm.lpmLongIndex) ∧
  ∀ first < lpm24MaxEntries, ∀ second < lpm24MaxEntries, first ≠ second →
    LongEntry (lpm.lpm24 first) → LongEntry (lpm.lpm24 second) →
      entryGroup (lpm.lpm24 first) ≠ entryGroup (lpm.lpm24 second)

theorem WellFormed.distinctGroups
    {lpm : Lpm}
    (wellFormed : lpm.WellFormed) :
    lpm.DistinctGroups := by
  refine ⟨fun index inside isLong => ?_,
    fun first firstInside second secondInside different isLong secondLong same => ?_⟩
  · obtain ⟨group, below, entry⟩ := wellFormed.handed_out index inside isLong
    rwa [entry, entryGroup_setFlag (lt_of_lt_of_le below wellFormed.index_le)]
  · obtain ⟨group, below, entry⟩ := wellFormed.handed_out first firstInside isLong
    obtain ⟨other, otherBelow, otherEntry⟩ :=
      wellFormed.handed_out second secondInside secondLong
    rw [entry, entryGroup_setFlag (lt_of_lt_of_le below wellFormed.index_le), otherEntry,
      entryGroup_setFlag (lt_of_lt_of_le otherBelow wellFormed.index_le)] at same
    exact different (wellFormed.distinct first firstInside second secondInside isLong
      (by rw [entry, otherEntry, same]))

/-- An update in any run: groups are not shared, a success sets the lookups of
the rule and keeps those outside of it, or outside of its three bytes, and a
failure keeps all of them and means that no group is left for an entry that
needs one. -/
theorem lpm_update_frame
    (memory : Lpm)
    (rules : List Rule)
    (rule : Rule) :
    let lpm := memory.inserted rules
    let result := lpm.lpmUpdateElem rule.ipv4 rule.prefixlen rule.value
    lpm.DistinctGroups ∧
      (result.1 = true →
        (∀ address, rule.Covers address → result.2.lpmLookupElem address = rule.value) ∧
        ∀ address, (if rule.prefixlen < 25 then ¬ rule.Covers address
            else ¬ rule.Shares address) →
          result.2.lpmLookupElem address = lpm.lpmLookupElem address) ∧
      (result.1 = false →
        (∀ address, result.2.lpmLookupElem address = lpm.lpmLookupElem address) ∧
        lpm.lpmLongIndex = 256 ∧
        25 ≤ rule.prefixlen ∧ ¬ LongEntry (lpm.lpm24 (rule.ipv4 >>> 8).toNat)) := by
  intro lpm result
  have wellFormed : lpm.WellFormed := wellFormed_inserted memory rules
  refine ⟨wellFormed.distinctGroups, fun succeeds => ?_, fun fails => ?_⟩
  · have updated : lpm.Updated rule result.2 := wellFormed.update_of_true succeeds
    refine ⟨fun address covers => ?_, fun address outside => ?_⟩
    · rw [updated.lookup, if_pos covers]
    · have notCovered : ¬ rule.Covers address := by
        intro covers
        split at outside
        · exact outside covers
        · exact outside (covers.shares (by omega))
      have notLost : ¬ (rule.NeedsGroup lpm ∧ rule.Shares address) := by
        rintro ⟨needs, shares⟩
        rw [if_neg (not_lt.mpr needs.1)] at outside
        exact outside shares
      rw [updated.lookup, if_neg notCovered, if_neg notLost]
  · obtain ⟨needs, full⟩ := wellFormed.update_eq_false_iff.mp fails
    have unchanged : result = (false, lpm) := update_of_full needs full.ge
    refine ⟨fun address => by rw [unchanged], full, needs.1, ?_⟩
    have := needs.2
    rwa [← lpm24ExtractFirstIndex_eq] at this

/-! ## Longest match -/

/-- The answer for an address: the value of the longest rule that covers it, the
last one inserted among rules of that length, and invalid exactly when no rule
covers it. -/
def Answers
    (rules : List Rule)
    (address : BitVec 32)
    (result : ℕ) : Prop :=
  (∀ rule, Longest Rule.prefixlen (Rule.Covers · address) rules rule →
    result = rule.value) ∧
  (result = invalid ↔ ∀ rule ∈ rules, ¬ rule.Covers address)

/-- The rule that covers an address and was inserted last. -/
abbrev lastRule (rules : List Rule) (address : BitVec 32) : Option Rule :=
  last (fun rule => decide (rule.Covers address)) rules

theorem lastRule_concat
    (rules : List Rule)
    (rule : Rule)
    (address : BitVec 32) :
    lastRule (rules ++ [rule]) address =
      if rule.Covers address then some rule else lastRule rules address := by
  rw [lastRule, last_concat]
  exact if_congr decide_eq_true_iff rfl rfl

/-- Some long rule is about the first three bytes of the address. -/
def Grouped
    (rules : List Rule)
    (address : BitVec 32) : Prop :=
  ∃ rule ∈ rules, rule.Long ∧ rule.Shares address

instance (rules : List Rule) (address : BitVec 32) :
    Decidable (Grouped rules address) :=
  inferInstanceAs (Decidable (∃ rule ∈ rules, _))

theorem grouped_concat
    {rules : List Rule}
    {rule : Rule}
    {address : BitVec 32} :
    Grouped (rules ++ [rule]) address ↔
      Grouped rules address ∨ rule.Long ∧ rule.Shares address := by
  simp [Grouped, or_and_right, exists_or]

/-- What the table holds for an address: the last rule, unless it is a short one
and there is a group. -/
def stored
    (rules : List Rule)
    (address : BitVec 32) : ℕ :=
  match lastRule rules address with
  | none => invalid
  | some rule =>
      if ¬ rule.Long ∧ Grouped rules address then invalid else rule.value

/-- A short rule covers the address, the address lies in a group, and no rule in
groups covers it. -/
def Hidden
    (rules : List Rule)
    (address : BitVec 32) : Prop :=
  (∃ rule ∈ rules, rule.prefixlen < 25 ∧ rule.Covers address) ∧
  (∃ rule ∈ rules, 25 ≤ rule.prefixlen ∧ rule.Shares address) ∧
  ∀ rule ∈ rules, 25 ≤ rule.prefixlen → ¬ rule.Covers address

/-- The order of the updates. -/
abbrev Ordered (rules : List Rule) : Prop :=
  rules.Pairwise fun earlier later => earlier.prefixlen ≤ later.prefixlen

theorem Rule.value_ne_invalid (rule : Rule) : rule.value ≠ invalid := by
  have := rule.value_le
  simp only [maxNextHopValue, invalid] at *
  omega

variable {rules : List Rule}

/-- With rules in order, the answer is the value of the last rule that
covers. -/
theorem answers_iff
    (ordered : Ordered rules)
    (address : BitVec 32)
    (result : ℕ) :
    Answers rules address result ↔
      result = ((lastRule rules address).map Rule.value).getD invalid := by
  cases found : lastRule rules address with
  | none =>
      have uncovered : ∀ rule ∈ rules, ¬ rule.Covers address := by
        simpa using last_eq_none.mp found
      refine ⟨fun answers => answers.2.mpr uncovered, fun isInvalid => ⟨?_, ?_⟩⟩
      · rintro rule ⟨before, after, shape, covers, _⟩
        exact absurd covers (uncovered rule (by simp [shape]))
      · exact iff_of_true isInvalid uncovered
  | some rule =>
      have longest : Longest Rule.prefixlen (Rule.Covers · address) rules rule := by
        simpa using longest_of_last ordered found
      have covers : rule.Covers address := by simpa using covers_of_last found
      refine ⟨fun answers => answers.1 rule longest, fun isValue => ⟨?_, ?_⟩⟩
      · intro other otherLongest
        rw [otherLongest.unique longest]
        exact isValue
      · refine iff_of_false ?_ fun uncovered => uncovered rule (mem_of_last found) covers
        rw [isValue]
        exact rule.value_ne_invalid

theorem not_grouped_of_short
    (ordered : Ordered (rules ++ [rule]))
    (short : ¬ rule.Long)
    (address : BitVec 32) :
    ¬ Grouped (rules ++ [rule]) address := by
  rintro ⟨other, member, long, _⟩
  rcases List.mem_append.mp member with earlier | isLast
  · have := (List.pairwise_append.mp ordered).2.2 other earlier rule List.mem_cons_self
    exact short (long.trans this)
  · rw [List.mem_singleton.mp isLast] at long
    exact short long

theorem Updated.lookup_concat
    {lpm following : Lpm}
    (updated : lpm.Updated rule following)
    (ordered : Ordered (rules ++ [rule]))
    (grouped : LongEntry (lpm.lpm24 (address.toNat / 256)) ↔
      Grouped rules address)
    (holds : lpm.lpmLookupElem address = stored rules address) :
    following.lpmLookupElem address = stored (rules ++ [rule]) address := by
  rw [updated.lookup, stored, lastRule_concat]
  by_cases covers : rule.Covers address
  · have notHidden : ¬ (¬ rule.Long ∧ Grouped (rules ++ [rule]) address) := fun both =>
      not_grouped_of_short ordered both.1 address both.2
    rw [if_pos covers, if_pos covers]
    exact (if_neg notHidden).symm
  · rw [if_neg covers, if_neg covers]
    by_cases lost : rule.NeedsGroup lpm ∧ rule.Shares address
    · -- The first group for these three bytes hides every rule so far.
      obtain ⟨needs, shares⟩ := lost
      have isNew : ¬ Grouped rules address := by
        rw [← grouped, Rule.shares_iff.mp shares]
        exact needs.2
      have now : Grouped (rules ++ [rule]) address := grouped_concat.mpr (.inr ⟨needs.1, shares⟩)
      rw [if_pos ⟨needs, shares⟩]
      cases found : lastRule rules address with
      | none => rfl
      | some other =>
          have otherCovers : other.Covers address := by simpa using covers_of_last found
          have short : ¬ other.Long := fun long =>
            isNew ⟨other, mem_of_last found, long, otherCovers.shares long⟩
          exact (if_pos ⟨short, now⟩).symm
    · have same : Grouped (rules ++ [rule]) address ↔ Grouped rules address := by
        rw [grouped_concat, or_iff_left_of_imp]
        rintro ⟨long, shares⟩
        rw [← grouped, Rule.shares_iff.mp shares]
        by_contra hop
        exact lost ⟨⟨long, hop⟩, shares⟩
      rw [if_neg lost, holds, stored]
      simp only [same]

theorem lookup_inserted
    (memory : Lpm)
    (ordered : Ordered rules)
    (succeeds : ∀ code ∈ memory.insertCodes rules, code = true)
    (address : BitVec 32) :
    (LongEntry ((memory.inserted rules).lpm24 (address.toNat / 256)) ↔
        Grouped rules address) ∧
      (memory.inserted rules).lpmLookupElem address = stored rules address := by
  induction rules using List.reverseRecOn with
  | nil =>
      refine ⟨iff_of_false ?_ (by simp [Grouped]), lpmLookupElem_lpmAllocate memory address⟩
      exact not_longEntry_lpmAllocate memory (index_lt address)
  | append_singleton rules rule ih =>
      rw [insertCodes_concat] at succeeds
      obtain ⟨grouped, holds⟩ := ih
        (List.pairwise_append.mp ordered).1 fun code member =>
          succeeds code (List.mem_append_left _ member)
      have updated := (wellFormed_inserted memory rules).update_of_true
        (succeeds _ (List.mem_append_right _ List.mem_cons_self))
      rw [inserted_concat]
      refine ⟨?_, updated.lookup_concat ordered grouped holds⟩
      rw [updated.longEntry, grouped]
      by_cases long : rule.Long
      · simp [long, grouped_concat]
      · have none := not_grouped_of_short ordered long address
        rw [if_neg long]
        rw [grouped_concat] at none ⊢
        tauto

theorem hidden_iff
    (ordered : Ordered rules)
    (address : BitVec 32) :
    Hidden rules address ↔
      ∃ rule,
        lastRule rules address = some rule ∧ ¬ rule.Long ∧
          Grouped rules address := by
  constructor
  · rintro ⟨⟨short, member, _, covers⟩, grouped, uncovered⟩
    cases found : lastRule rules address with
    | none =>
        have none := last_eq_none.mp found short member
        exact absurd covers (by simpa using none)
    | some rule =>
        have lastCovers : rule.Covers address := by simpa using covers_of_last found
        exact ⟨rule, rfl, fun long => uncovered rule (mem_of_last found) long lastCovers, grouped⟩
  · rintro ⟨rule, found, short, grouped⟩
    have longest : Longest Rule.prefixlen (Rule.Covers · address) rules rule := by
      simpa using longest_of_last ordered found
    have covers : rule.Covers address := by simpa using covers_of_last found
    refine ⟨⟨rule, mem_of_last found, by omega, covers⟩, grouped, ?_⟩
    intro other member long otherCovers
    have := longest.length_le member otherCovers
    omega

/-- After successful updates in the order of their lengths, a lookup gives the
longest match exactly when no short rule is hidden behind a group. -/
theorem lpm_longest_match_iff
    (memory : Lpm)
    {rules : List Rule}
    (ordered : Ordered rules)
    (succeeds : ∀ code ∈ memory.insertCodes rules, code = true)
    (address : BitVec 32) :
    Answers rules address ((memory.inserted rules).lpmLookupElem address) ↔
      ¬ Hidden rules address := by
  rw [answers_iff ordered, (lookup_inserted memory ordered succeeds address).2,
    hidden_iff ordered, stored]
  cases found : lastRule rules address with
  | none => simp
  | some rule =>
      have isValue := rule.value_ne_invalid
      by_cases hidden : ¬ rule.Long ∧ Grouped rules address
      · simp only [if_pos hidden, Option.map_some, Option.getD_some, Option.some.injEq]
        exact iff_of_false (fun same => isValue same.symm)
          (fun none => none ⟨rule, rfl, hidden⟩)
      · simp only [if_neg hidden, Option.map_some, Option.getD_some,
          Option.some.injEq, true_iff]
        rintro ⟨_, rfl, hides⟩
        exact hidden hides

/-- Both halves of three bytes are in their group, so the rule for all of them
is not hidden. -/
theorem lpm_longest_match_halves :
    let memory : Lpm := ⟨fun _ => 7, fun _ => 7, 7⟩
    let rules : List Rule := [⟨0x0A000000, 24, 1, by decide, by decide⟩,
      ⟨0x0A000000, 25, 2, by decide, by decide⟩, ⟨0x0A000080, 25, 3, by decide, by decide⟩]
    ¬ Hidden rules 0x0A0000C8 ∧
      Answers rules 0x0A0000C8 ((memory.inserted rules).lpmLookupElem 0x0A0000C8) := by
  intro memory rules
  have notHidden : ¬ Hidden rules 0x0A0000C8 := by
    rintro ⟨_, _, uncovered⟩
    exact uncovered ⟨0x0A000080, 25, 3, by decide, by decide⟩ (by simp [rules]) (by decide)
      (by decide)
  refine ⟨notHidden, (lpm_longest_match_iff memory ?_ ?_ 0x0A0000C8).mpr notHidden⟩
  · simp [Ordered, rules]
  · exact insertCodes_of_length_le memory rules (by decide)

/-- A rule of length 8 and then one of length 25 below it: an address that only
the first one covers has no value. -/
theorem lpm_hides_short_rule :
    let memory : Lpm := ⟨fun _ => 7, fun _ => 7, 7⟩
    let rules : List Rule := [⟨0x0A000000, 8, 1, by decide, by decide⟩,
      ⟨0x0A010200, 25, 2, by decide, by decide⟩]
    Ordered rules ∧ (∀ code ∈ memory.insertCodes rules, code = true) ∧
      (memory.inserted rules).lpmLookupElem 0x0A0102C8 = invalid ∧
      ¬ Answers rules 0x0A0102C8 ((memory.inserted rules).lpmLookupElem 0x0A0102C8) := by
  intro memory rules
  have ordered : Ordered rules := by simp [Ordered, rules]
  have succeeds : ∀ code ∈ memory.insertCodes rules, code = true :=
    insertCodes_of_length_le memory rules (by decide)
  have lookup : (memory.inserted rules).lpmLookupElem 0x0A0102C8 = invalid := by
    rw [(lookup_inserted memory ordered succeeds _).2]
    decide
  refine ⟨ordered, succeeds, lookup, ?_⟩
  rw [answers_iff ordered, lookup]
  decide

end Lpm
end Vigor
