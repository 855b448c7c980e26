import Vigor.Lpm.Impl
import Mathlib.Tactic.IntervalCases

/-!
# What an update of the longest-prefix table does

An update is described by the lookups after it.  The description needs that
entries with the flag hold different groups, and that groups not handed out yet
are empty.
-/

namespace Vigor
namespace Lpm

open AlignedFill

/-- The arguments of an update, within the bounds of its contract. -/
structure Rule where
  ipv4 : BitVec 32
  prefixlen : ℕ
  value : ℕ
  prefixlen_le : prefixlen ≤ 32
  value_le : value ≤ maxNextHopValue
  deriving DecidableEq

namespace Rule

/-- The rule and the address agree on the bits that the rule is about. -/
def Covers
    (rule : Rule)
    (address : BitVec 32) : Prop :=
  address >>> (32 - rule.prefixlen) = rule.ipv4 >>> (32 - rule.prefixlen)

instance (rule : Rule) (address : BitVec 32) :
    Decidable (rule.Covers address) :=
  inferInstanceAs (Decidable (_ = _))

/-- Whether the rule is stored in groups. -/
abbrev Long (rule : Rule) : Prop := 25 ≤ rule.prefixlen

/-- The first three bytes of the rule and of the address agree. -/
def Shares
    (rule : Rule)
    (address : BitVec 32) : Prop :=
  address >>> 8 = rule.ipv4 >>> 8

instance (rule : Rule) (address : BitVec 32) :
    Decidable (rule.Shares address) :=
  inferInstanceAs (Decidable (_ = _))

theorem covers_iff
    {rule : Rule}
    {address : BitVec 32} :
    rule.Covers address ↔
      address.toNat / 2 ^ (32 - rule.prefixlen) =
        rule.ipv4.toNat / 2 ^ (32 - rule.prefixlen) := by
  rw [Covers, ← BitVec.toNat_inj, BitVec.toNat_ushiftRight, BitVec.toNat_ushiftRight,
    Nat.shiftRight_eq_div_pow, Nat.shiftRight_eq_div_pow]

theorem shares_iff
    {rule : Rule}
    {address : BitVec 32} :
    rule.Shares address ↔ address.toNat / 256 = rule.ipv4.toNat / 256 := by
  rw [Shares, ← BitVec.toNat_inj, BitVec.toNat_ushiftRight, BitVec.toNat_ushiftRight,
    Nat.shiftRight_eq_div_pow, Nat.shiftRight_eq_div_pow]

/-- A long rule covers addresses of its own three bytes only. -/
theorem Covers.shares
    {rule : Rule}
    (covers : rule.Covers address)
    (long : rule.Long) :
    rule.Shares address := by
  have exponent : 8 = (32 - rule.prefixlen) + (rule.prefixlen - 24) := by
    have := rule.prefixlen_le
    omega
  have split : 256 = 2 ^ (32 - rule.prefixlen) * 2 ^ (rule.prefixlen - 24) := by
    rw [← pow_add, ← exponent]
    rfl
  rw [shares_iff, split, ← Nat.div_div_eq_div_mul, ← Nat.div_div_eq_div_mul, covers_iff.mp covers]

end Rule

/-! ## Masks, sizes and indexes -/

theorem toNat_buildMaskFromPrefixlen
    {prefixlen : ℕ}
    (within : prefixlen ≤ 32) :
    (buildMaskFromPrefixlen prefixlen).toNat =
      2 ^ 32 - 2 ^ (32 - prefixlen) := by
  have table : ∀ len : Fin 33,
      (buildMaskFromPrefixlen len).toNat = 2 ^ 32 - 2 ^ (32 - len.val) := by decide
  exact table ⟨prefixlen, by omega⟩

theorem toNat_masked
    {prefixlen : ℕ}
    (within : prefixlen ≤ 32)
    (data : BitVec 32) :
    (data &&& buildMaskFromPrefixlen prefixlen).toNat =
      data.toNat / 2 ^ (32 - prefixlen) * 2 ^ (32 - prefixlen) := by
  rw [BitVec.toNat_and, toNat_buildMaskFromPrefixlen within]
  exact and_mask data.isLt (by omega)

theorem computeRuleSize_short
    {prefixlen : ℕ}
    (short : prefixlen < 25) :
    computeRuleSize prefixlen = 2 ^ (24 - prefixlen) := by
  have table : ∀ len : Fin 25, computeRuleSize len = 2 ^ (24 - len.val) := by decide
  exact table ⟨prefixlen, short⟩

theorem computeRuleSize_long
    (long : 25 ≤ prefixlen)
    (within : prefixlen ≤ 32) :
    computeRuleSize prefixlen = 2 ^ (32 - prefixlen) := by
  have table : ∀ rest : Fin 8, computeRuleSize (25 + rest) = 2 ^ (7 - rest.val) := by decide
  have entry := table ⟨prefixlen - 25, by omega⟩
  rwa [show 25 + (prefixlen - 25) = prefixlen by omega,
    show 7 - (prefixlen - 25) = 32 - prefixlen by omega] at entry

theorem lpm24ExtractFirstIndex_eq (data : BitVec 32) :
    lpm24ExtractFirstIndex data = data.toNat / 256 := by
  rw [lpm24ExtractFirstIndex, BitVec.toNat_ushiftRight, Nat.shiftRight_eq_div_pow]

theorem lpm24ExtractFirstIndex_masked
    (short : prefixlen < 25)
    (data : BitVec 32) :
    lpm24ExtractFirstIndex (data &&& buildMaskFromPrefixlen prefixlen) =
      data.toNat / 2 ^ (32 - prefixlen) * 2 ^ (24 - prefixlen) := by
  have split : 2 ^ (32 - prefixlen) = 2 ^ (24 - prefixlen) * 256 := by
    rw [show 32 - prefixlen = (24 - prefixlen) + 8 by omega, pow_add]
    rfl
  rw [lpm24ExtractFirstIndex_eq, toNat_masked (by omega), split, ← mul_assoc,
    Nat.mul_div_cancel _ (by decide)]

theorem lpmLongExtractFirstIndex_eq
    {prefixlen baseIndex : ℕ}
    (atLeast : 24 ≤ prefixlen)
    (within : prefixlen ≤ 32)
    (base : baseIndex < 256)
    (data : BitVec 32) :
    lpmLongExtractFirstIndex data prefixlen baseIndex =
      (baseIndex * 256 + data.toNat % 256) / 2 ^ (32 - prefixlen) *
        2 ^ (32 - prefixlen) := by
  have lastByte : (data &&& buildMaskFromPrefixlen prefixlen &&& 0xFF).toNat =
      data.toNat / 2 ^ (32 - prefixlen) * 2 ^ (32 - prefixlen) % 256 := by
    rw [BitVec.toNat_and, toNat_masked within]
    exact Nat.and_two_pow_sub_one_eq_mod _ 8
  simp only [lpmLongExtractFirstIndex, lastByte, lpmLongFactor]
  obtain ⟨bits, few, same⟩ : ∃ bits ≤ 8, 32 - prefixlen = bits := ⟨_, by omega, rfl⟩
  rw [same]
  interval_cases bits <;> omega

theorem group_div_eq_iff
    (few : bits ≤ 8)
    (same : address / 256 = ipv4 / 256) :
    (group * 256 + address % 256) / 2 ^ bits =
        (base * 256 + ipv4 % 256) / 2 ^ bits ↔
      group = base ∧ address / 2 ^ bits = ipv4 / 2 ^ bits := by
  interval_cases bits <;> omega

/-! ## Entries -/

/-- An entry of the first array that holds a group. -/
def LongEntry (entry : ℕ) : Prop :=
  entry ≠ invalid ∧ lpm24EntryFlag entry = true

instance (entry : ℕ) : Decidable (LongEntry entry) :=
  inferInstanceAs (Decidable (_ ∧ _))

/-- The group of an entry: bits 14 to 0. -/
def entryGroup (entry : ℕ) : ℕ := entry &&& 0x7FFF

theorem not_longEntry_of_le
    {value : ℕ}
    (le : value ≤ maxNextHopValue) :
    ¬ LongEntry value := by
  rintro ⟨_, flag⟩
  rw [lpm24EntryFlag, beq_iff_eq, Nat.shiftRight_eq_div_pow] at flag
  simp only [maxNextHopValue] at le
  omega

section

variable {group : ℕ}
  (few : group < 256)

include few

theorem lpm24EntrySetFlag_eq :
    lpm24EntrySetFlag group = 0x8000 + group := by
  rw [lpm24EntrySetFlag, Nat.or_comm]
  exact (Nat.two_pow_add_eq_or_of_lt (i := 15) (by omega) 1).symm

theorem longEntry_setFlag :
    LongEntry (lpm24EntrySetFlag group) := by
  rw [LongEntry, lpm24EntryFlag, beq_iff_eq, Nat.shiftRight_eq_div_pow, lpm24EntrySetFlag_eq few]
  simp only [invalid]
  omega

theorem entryGroup_setFlag :
    entryGroup (lpm24EntrySetFlag group) = group := by
  rw [entryGroup, lpm24EntrySetFlag_eq few, Nat.and_two_pow_sub_one_eq_mod _ 15]
  omega

/-- A lookup reads the group from eight bits. -/
theorem low_byte_setFlag :
    (lpm24EntrySetFlag group &&& 0xFF) % 2 ^ 8 = group := by
  rw [lpm24EntrySetFlag_eq few, Nat.and_two_pow_sub_one_eq_mod _ 8]
  omega

end

/-! ## Invariant -/

/-- Entries are invalid, next hops or groups that were handed out.  No two
entries hold the same group, and the groups that were not handed out are
empty. -/
structure WellFormed (lpm : Lpm) : Prop where
  index_le : lpm.lpmLongIndex ≤ lpmLongOffsetMax
  handed_out : ∀ index < lpm24MaxEntries, LongEntry (lpm.lpm24 index) →
    ∃ group < lpm.lpmLongIndex, lpm.lpm24 index = lpm24EntrySetFlag group
  distinct : ∀ first < lpm24MaxEntries, ∀ second < lpm24MaxEntries,
    LongEntry (lpm.lpm24 first) → lpm.lpm24 first = lpm.lpm24 second → first = second
  empty : ∀ group offset, lpm.lpmLongIndex ≤ group → group < lpmLongOffsetMax →
    offset < 256 → lpm.lpmLong (group * 256 + offset) = invalid

variable {lpm : Lpm}

theorem index_lt (address : BitVec 32) :
    address.toNat / 256 < lpm24MaxEntries := by
  have := address.isLt
  simp only [lpm24MaxEntries]
  omega

/-! ## Lookups -/

variable {address : BitVec 32}

theorem lpmLookupElem_of_not_longEntry
    (hop : ¬ LongEntry (lpm.lpm24 (address.toNat / 256))) :
    lpm.lpmLookupElem address = lpm.lpm24 (address.toNat / 256) := by
  rw [LongEntry] at hop
  simp only [lpmLookupElem, lpm24ExtractFirstIndex_eq]
  rw [if_neg hop]
  split
  · rename_i isInvalid
    exact isInvalid.symm
  · rfl

variable {group : ℕ}

theorem lpmLookupElem_of_group
    (few : group < 256)
    (entry : lpm.lpm24 (address.toNat / 256) = lpm24EntrySetFlag group) :
    lpm.lpmLookupElem address =
      lpm.lpmLong (group * 256 + address.toNat % 256) := by
  have offset : lpmLongExtractFirstIndex address 32 group =
      group * 256 + address.toNat % 256 := by
    rw [lpmLongExtractFirstIndex_eq (by decide) le_rfl few]
    simp
  have isLong : lpm24EntrySetFlag group ≠ invalid ∧
      lpm24EntryFlag (lpm24EntrySetFlag group) = true := longEntry_setFlag few
  simp only [lpmLookupElem, lpm24ExtractFirstIndex_eq, entry, low_byte_setFlag few, offset]
  rw [if_pos isLong]
  split
  · rename_i isInvalid
    exact isInvalid.symm
  · rfl

/-- Lookups agree when the entries and the groups in them agree. -/
theorem WellFormed.lpmLookupElem_congr
    (wellFormed : lpm.WellFormed)
    {other : Lpm}
    (sameEntry : other.lpm24 (address.toNat / 256) =
      lpm.lpm24 (address.toNat / 256))
    (sameGroup : ∀ group < 256,
        lpm.lpm24 (address.toNat / 256) = lpm24EntrySetFlag group →
      other.lpmLong (group * 256 + address.toNat % 256) =
        lpm.lpmLong (group * 256 + address.toNat % 256)) :
    other.lpmLookupElem address = lpm.lpmLookupElem address := by
  by_cases isLong : LongEntry (lpm.lpm24 (address.toNat / 256))
  · obtain ⟨group, below, entry⟩ := wellFormed.handed_out _ (index_lt address) isLong
    have few : group < 256 := lt_of_lt_of_le below wellFormed.index_le
    rw [lpmLookupElem_of_group few entry, lpmLookupElem_of_group few (sameEntry.trans entry),
      sameGroup group few entry]
  · rw [lpmLookupElem_of_not_longEntry isLong,
      lpmLookupElem_of_not_longEntry (by rwa [sameEntry]), sameEntry]

/-! ## Fresh tables -/

theorem fillInvalid_apply
    (t : ℕ → ℕ)
    (inside : index < size) :
    fillInvalid t size index = invalid := by
  rw [fillInvalid, fill_apply, if_pos (by omega)]

variable {index : ℕ}

section

variable (memory : Lpm)

theorem lpm24_lpmAllocate
    (inside : index < lpm24MaxEntries) :
    memory.lpmAllocate.lpm24 index = invalid := by
  simp only [lpmAllocate]
  exact fillInvalid_apply memory.lpm24 inside

theorem lpmLong_lpmAllocate
    (inside : index < lpmLongMaxEntries) :
    memory.lpmAllocate.lpmLong index = invalid := by
  simp only [lpmAllocate]
  exact fillInvalid_apply memory.lpmLong inside

theorem not_longEntry_lpmAllocate
    (inside : index < lpm24MaxEntries) :
    ¬ LongEntry (memory.lpmAllocate.lpm24 index) :=
  fun isLong => isLong.1 (lpm24_lpmAllocate memory inside)

theorem wellFormed_lpmAllocate : memory.lpmAllocate.WellFormed where
  index_le := Nat.zero_le _
  handed_out _ inside isLong := absurd isLong (not_longEntry_lpmAllocate memory inside)
  distinct _ inside _ _ isLong := absurd isLong (not_longEntry_lpmAllocate memory inside)
  empty group offset _ few small := by
    apply lpmLong_lpmAllocate
    simp only [lpmLongMaxEntries, lpmLongOffsetMax] at *
    omega

theorem lpmLookupElem_lpmAllocate
    (address : BitVec 32) :
    memory.lpmAllocate.lpmLookupElem address = invalid := by
  rw [lpmLookupElem_of_not_longEntry (not_longEntry_lpmAllocate memory (index_lt address)),
    lpm24_lpmAllocate memory (index_lt address)]

end

/-! ## Short rules -/

/-- The table after a short rule. -/
def afterShort
    (lpm : Lpm)
    (rule : Rule) : Lpm :=
  { lpm with
    lpm24 := fill (2 ^ (24 - rule.prefixlen)) lpm.lpm24
      (rule.ipv4.toNat / 2 ^ (32 - rule.prefixlen) * 2 ^ (24 - rule.prefixlen))
      rule.value }

variable {rule : Rule}

theorem lpmUpdateElem_short (short : ¬ rule.Long) :
    lpm.lpmUpdateElem rule.ipv4 rule.prefixlen rule.value =
      (true, lpm.afterShort rule) := by
  have below : rule.prefixlen < 25 := by omega
  simp only [lpmUpdateElem]
  rw [if_pos below, Nat.add_sub_cancel_left, computeRuleSize_short below,
    lpm24ExtractFirstIndex_masked below, afterShort]

/-- The entries that a short rule writes are those of the addresses that it
covers. -/
theorem short_covers_iff
    (short : ¬ rule.Long)
    (address : BitVec 32) :
    address.toNat / 256 / 2 ^ (24 - rule.prefixlen) =
        rule.ipv4.toNat / 2 ^ (32 - rule.prefixlen) ↔
      rule.Covers address := by
  have split : 2 ^ (32 - rule.prefixlen) = 256 * 2 ^ (24 - rule.prefixlen) := by
    rw [show 32 - rule.prefixlen = 8 + (24 - rule.prefixlen) by omega, pow_add]
    rfl
  rw [Rule.covers_iff, Nat.div_div_eq_div_mul, ← split]

theorem lpm24_afterShort
    (rule : Rule)
    (index : ℕ) :
    (lpm.afterShort rule).lpm24 index =
      if index / 2 ^ (24 - rule.prefixlen) =
        rule.ipv4.toNat / 2 ^ (32 - rule.prefixlen) then rule.value
      else lpm.lpm24 index :=
  fill_block_apply _ _ _ _ _

theorem lpm24_of_longEntry_afterShort
    (isLong : LongEntry ((lpm.afterShort rule).lpm24 index)) :
    (lpm.afterShort rule).lpm24 index = lpm.lpm24 index := by
  rw [lpm24_afterShort] at isLong ⊢
  split at isLong
  · exact absurd isLong (not_longEntry_of_le rule.value_le)
  · rw [if_neg ‹_›]

theorem WellFormed.afterShort
    (wellFormed : lpm.WellFormed)
    (rule : Rule) :
    (lpm.afterShort rule).WellFormed where
  index_le := wellFormed.index_le
  handed_out index inside isLong := by
    have same := lpm24_of_longEntry_afterShort isLong
    rw [same] at isLong ⊢
    exact wellFormed.handed_out index inside isLong
  distinct first firstInside second secondInside isLong equal := by
    have same := lpm24_of_longEntry_afterShort isLong
    have sameSecond := lpm24_of_longEntry_afterShort (equal ▸ isLong)
    rw [same, sameSecond] at equal
    rw [same] at isLong
    exact wellFormed.distinct first firstInside second secondInside isLong equal
  empty := wellFormed.empty

theorem WellFormed.lpmLookupElem_afterShort
    (wellFormed : lpm.WellFormed)
    (short : ¬ rule.Long)
    (address : BitVec 32) :
    (lpm.afterShort rule).lpmLookupElem address =
      if rule.Covers address then rule.value else
        lpm.lpmLookupElem address := by
  have entry := lpm.lpm24_afterShort rule (address.toNat / 256)
  rw [if_congr (short_covers_iff short address) rfl rfl] at entry
  by_cases covers : rule.Covers address
  · rw [if_pos covers] at entry ⊢
    rw [lpmLookupElem_of_not_longEntry (entry ▸ not_longEntry_of_le rule.value_le), entry]
  · rw [if_neg covers] at entry ⊢
    exact wellFormed.lpmLookupElem_congr entry fun _ _ _ => rfl

/-! ## New groups -/

/-- The table after an entry got a new group. -/
def handOut
    (lpm : Lpm)
    (index : ℕ) : Lpm :=
  { lpm with
    lpmLongIndex := lpm.lpmLongIndex + 1
    lpm24 := Function.update lpm.lpm24 index (lpm24EntrySetFlag lpm.lpmLongIndex) }

theorem lpm24_handOut_self (index : ℕ) :
    (lpm.handOut index).lpm24 index = lpm24EntrySetFlag lpm.lpmLongIndex :=
  Function.update_self _ _ _

theorem lpm24_handOut_of_ne
    {index other : ℕ}
    (different : other ≠ index) :
    (lpm.handOut index).lpm24 other = lpm.lpm24 other :=
  Function.update_of_ne different _ _

theorem needNewIndex_iff (entry : ℕ) :
    (if entry = invalid then true else !lpm24EntryFlag entry) = true ↔
      ¬ LongEntry entry := by
  rw [LongEntry]
  by_cases isInvalid : entry = invalid
  · simp [isInvalid]
  · simp [isInvalid]

theorem baseIndex_of_full
    (hop : ¬ LongEntry (lpm.lpm24 index))
    (full : lpmLongOffsetMax ≤ lpm.lpmLongIndex) :
    lpm.baseIndex index = none := by
  simp only [baseIndex]
  rw [if_pos ((needNewIndex_iff _).mpr hop), if_pos full]

theorem baseIndex_of_room
    (hop : ¬ LongEntry (lpm.lpm24 index))
    (room : lpm.lpmLongIndex < lpmLongOffsetMax) :
    lpm.baseIndex index = some (lpm.lpmLongIndex, lpm.handOut index) := by
  have byte : lpm.lpmLongIndex % 2 ^ 8 = lpm.lpmLongIndex := Nat.mod_eq_of_lt room
  have next : (lpm.lpmLongIndex + 1) % 2 ^ 16 = lpm.lpmLongIndex + 1 :=
    Nat.mod_eq_of_lt (by simp only [lpmLongOffsetMax] at room; omega)
  simp only [baseIndex]
  rw [if_pos ((needNewIndex_iff _).mpr hop), if_neg (not_le.mpr room), byte, next, handOut]

theorem baseIndex_of_group
    (few : group < 256)
    (entry : lpm.lpm24 index = lpm24EntrySetFlag group) :
    lpm.baseIndex index = some (group, lpm) := by
  have isLong : LongEntry (lpm.lpm24 index) := entry ▸ longEntry_setFlag few
  have low : (lpm.lpm24 index &&& 0x7FFF) % 2 ^ 8 = group := by
    change entryGroup (lpm.lpm24 index) % 2 ^ 8 = group
    rw [entry, entryGroup_setFlag few]
    exact Nat.mod_eq_of_lt few
  simp only [baseIndex]
  rw [if_neg (fun needed => (needNewIndex_iff _).mp needed isLong), low]

section

variable (wellFormed : lpm.WellFormed)
  (room : lpm.lpmLongIndex < lpmLongOffsetMax)

include wellFormed room

theorem WellFormed.not_new_group
    (inside : index < lpm24MaxEntries) :
    lpm.lpm24 index ≠ lpm24EntrySetFlag lpm.lpmLongIndex := by
  intro isNew
  obtain ⟨group, below, entry⟩ :=
    wellFormed.handed_out index inside (isNew ▸ longEntry_setFlag room)
  have same := congrArg entryGroup (entry.symm.trans isNew)
  rw [entryGroup_setFlag (below.trans room), entryGroup_setFlag room] at same
  omega

theorem WellFormed.handOut
    (index : ℕ) :
    (lpm.handOut index).WellFormed where
  index_le := room
  handed_out other inside isLong := by
    by_cases same : other = index
    · exact ⟨lpm.lpmLongIndex, Nat.lt_succ_self _, by rw [same, lpm24_handOut_self]⟩
    · rw [lpm24_handOut_of_ne same] at isLong ⊢
      obtain ⟨group, below, entry⟩ := wellFormed.handed_out other inside isLong
      exact ⟨group, Nat.lt_succ_of_lt below, entry⟩
  distinct first firstInside second secondInside isLong equal := by
    by_cases sameFirst : first = index <;> by_cases sameSecond : second = index
    · exact sameFirst.trans sameSecond.symm
    · rw [sameFirst, lpm24_handOut_self, lpm24_handOut_of_ne sameSecond] at equal
      exact absurd equal.symm (wellFormed.not_new_group room secondInside)
    · rw [sameSecond, lpm24_handOut_self, lpm24_handOut_of_ne sameFirst] at equal
      exact absurd equal (wellFormed.not_new_group room firstInside)
    · rw [lpm24_handOut_of_ne sameFirst] at isLong equal
      rw [lpm24_handOut_of_ne sameSecond] at equal
      exact wellFormed.distinct first firstInside second secondInside isLong equal
  empty group offset above few small :=
    wellFormed.empty group offset (Nat.le_of_succ_le above) few small

theorem WellFormed.lpmLookupElem_handOut
    (address : BitVec 32) :
    (lpm.handOut index).lpmLookupElem address =
      if address.toNat / 256 = index then invalid else
        lpm.lpmLookupElem address := by
  by_cases same : address.toNat / 256 = index
  · have entry : (lpm.handOut index).lpm24 (address.toNat / 256) =
        lpm24EntrySetFlag lpm.lpmLongIndex := by
      rw [same, lpm24_handOut_self]
    rw [if_pos same, lpmLookupElem_of_group room entry]
    exact wellFormed.empty _ _ le_rfl room (Nat.mod_lt _ (by decide))
  · rw [if_neg same]
    exact wellFormed.lpmLookupElem_congr (lpm24_handOut_of_ne same) fun _ _ _ => rfl

end

/-! ## Writing a group -/

/-- The table after a rule was written to a group. -/
def afterLong
    (lpm : Lpm)
    (rule : Rule)
    (group : ℕ) : Lpm :=
  { lpm with
    lpmLong := fill (2 ^ (32 - rule.prefixlen)) lpm.lpmLong
      ((group * 256 + rule.ipv4.toNat % 256) / 2 ^ (32 - rule.prefixlen) *
        2 ^ (32 - rule.prefixlen))
      rule.value }

theorem lpmLong_afterLong
    (rule : Rule)
    (group index : ℕ) :
    (lpm.afterLong rule group).lpmLong index =
      if index / 2 ^ (32 - rule.prefixlen) =
          (group * 256 + rule.ipv4.toNat % 256) / 2 ^ (32 - rule.prefixlen) then
        rule.value
      else lpm.lpmLong index :=
  fill_block_apply _ _ _ _ _

theorem lpmLong_afterLong_of_ne
    (long : rule.Long)
    (different : other ≠ group)
    (small : offset < 256) :
    (lpm.afterLong rule group).lpmLong (other * 256 + offset) =
      lpm.lpmLong (other * 256 + offset) := by
  rw [lpmLong_afterLong, if_neg]
  obtain ⟨bits, few, same⟩ : ∃ bits ≤ 8, 32 - rule.prefixlen = bits := ⟨_, by omega, rfl⟩
  rw [same]
  interval_cases bits <;> omega

theorem WellFormed.afterLong
    (wellFormed : lpm.WellFormed)
    (long : rule.Long)
    (below : group < lpm.lpmLongIndex) :
    (lpm.afterLong rule group).WellFormed where
  index_le := wellFormed.index_le
  handed_out := wellFormed.handed_out
  distinct := wellFormed.distinct
  empty other offset above few small := by
    have different : other ≠ group := fun same => by
      rw [same] at above
      exact absurd below (not_lt.mpr above)
    rw [lpmLong_afterLong_of_ne long different small]
    exact wellFormed.empty other offset above few small

theorem WellFormed.lpmLookupElem_afterLong
    (wellFormed : lpm.WellFormed)
    (long : rule.Long)
    (few : group < 256)
    (entry : lpm.lpm24 (rule.ipv4.toNat / 256) = lpm24EntrySetFlag group)
    (address : BitVec 32) :
    (lpm.afterLong rule group).lpmLookupElem address =
      if rule.Covers address then rule.value else
        lpm.lpmLookupElem address := by
  have bits : 32 - rule.prefixlen ≤ 8 := by omega
  by_cases shares : rule.Shares address
  · have sameIndex := Rule.shares_iff.mp shares
    have before : lpm.lpm24 (address.toNat / 256) = lpm24EntrySetFlag group := by
      rw [sameIndex, entry]
    have after : (lpm.afterLong rule group).lpm24 (address.toNat / 256) =
        lpm24EntrySetFlag group := before
    rw [lpmLookupElem_of_group few before, lpmLookupElem_of_group few after, lpmLong_afterLong]
    refine if_congr ?_ rfl rfl
    rw [group_div_eq_iff bits sameIndex, Rule.covers_iff]
    exact and_iff_right rfl
  · rw [if_neg (fun covers => shares (covers.shares long))]
    refine wellFormed.lpmLookupElem_congr rfl fun other otherFew otherEntry => ?_
    -- The address lies under another entry, so in another group.
    have different : other ≠ group := by
      rintro rfl
      have isLong : LongEntry (lpm.lpm24 (address.toNat / 256)) :=
        otherEntry ▸ longEntry_setFlag otherFew
      exact shares (Rule.shares_iff.mpr (wellFormed.distinct _ (index_lt _) _ (index_lt _)
        isLong (otherEntry.trans entry.symm)))
    exact lpmLong_afterLong_of_ne long different (Nat.mod_lt _ (by decide))

theorem lpmUpdateElem_long
    (long : rule.Long)
    (few : group < 256)
    {following : Lpm}
    (base : lpm.baseIndex (rule.ipv4.toNat / 256) = some (group, following)) :
    lpm.lpmUpdateElem rule.ipv4 rule.prefixlen rule.value =
      (true, following.afterLong rule group) := by
  simp only [lpmUpdateElem, lpm24ExtractFirstIndex_eq]
  rw [if_neg (by omega), base]
  simp only [Nat.add_sub_cancel_left]
  rw [computeRuleSize_long long rule.prefixlen_le,
    lpmLongExtractFirstIndex_eq (by omega) rule.prefixlen_le few, afterLong]

/-! ## Updates -/

/-- A long rule whose entry holds no group takes a new one. -/
def Rule.NeedsGroup
    (rule : Rule)
    (lpm : Lpm) : Prop :=
  rule.Long ∧ ¬ LongEntry (lpm.lpm24 (rule.ipv4.toNat / 256))

instance (rule : Rule) (lpm : Lpm) : Decidable (rule.NeedsGroup lpm) :=
  inferInstanceAs (Decidable (_ ∧ _))

/-- Update with the fields of a rule. -/
def update
    (rule : Rule)
    (lpm : Lpm) : Bool × Lpm :=
  lpm.lpmUpdateElem rule.ipv4 rule.prefixlen rule.value

/-- An update that fails changes nothing. -/
theorem update_of_full
    (needs : rule.NeedsGroup lpm)
    (full : lpmLongOffsetMax ≤ lpm.lpmLongIndex) :
    lpm.update rule = (false, lpm) := by
  have long : ¬ rule.prefixlen < 25 := not_lt.mpr needs.1
  simp only [update, lpmUpdateElem, lpm24ExtractFirstIndex_eq]
  rw [if_neg long, baseIndex_of_full needs.2 full]

/-- What an update with enough groups does: the addresses that the rule covers
get its value, and those that share a new group with it lose theirs. -/
structure Updated (lpm : Lpm) (rule : Rule) (following : Lpm) : Prop where
  wellFormed : following.WellFormed
  groups : following.lpmLongIndex ≤ lpm.lpmLongIndex + 1
  lookup : ∀ address, following.lpmLookupElem address =
    if rule.Covers address then rule.value
    else if rule.NeedsGroup lpm ∧ rule.Shares address then invalid
    else lpm.lpmLookupElem address
  longEntry : ∀ address : BitVec 32, LongEntry (following.lpm24 (address.toNat / 256)) ↔
    if rule.Long then LongEntry (lpm.lpm24 (address.toNat / 256)) ∨ rule.Shares address
    else LongEntry (lpm.lpm24 (address.toNat / 256)) ∧ ¬ rule.Covers address

section

variable (wellFormed : lpm.WellFormed)

include wellFormed

variable {rule : Rule}

theorem WellFormed.updated_short (short : ¬ rule.Long) :
    lpm.Updated rule (lpm.afterShort rule) where
  wellFormed := wellFormed.afterShort rule
  groups := Nat.le_succ _
  lookup address := by
    rw [wellFormed.lpmLookupElem_afterShort short,
      if_neg (fun both => short both.1.1 : ¬ (rule.NeedsGroup lpm ∧ rule.Shares address))]
  longEntry address := by
    rw [lpm24_afterShort, if_congr (short_covers_iff short address) rfl rfl, if_neg short]
    by_cases covers : rule.Covers address
    · simp [covers, not_longEntry_of_le rule.value_le]
    · simp [covers]

theorem WellFormed.updated_group
    (long : rule.Long)
    (below : group < lpm.lpmLongIndex)
    (entry : lpm.lpm24 (rule.ipv4.toNat / 256) = lpm24EntrySetFlag group) :
    lpm.Updated rule (lpm.afterLong rule group) := by
  have few : group < 256 := lt_of_lt_of_le below wellFormed.index_le
  have isLong : LongEntry (lpm.lpm24 (rule.ipv4.toNat / 256)) := entry ▸ longEntry_setFlag few
  refine ⟨wellFormed.afterLong long below, Nat.le_succ _, fun address => ?_, fun address => ?_⟩
  · rw [wellFormed.lpmLookupElem_afterLong long few entry,
      if_neg (fun both => both.1.2 isLong : ¬ (rule.NeedsGroup lpm ∧ rule.Shares address))]
  · rw [if_pos long]
    refine ⟨Or.inl, ?_⟩
    rintro (already | shares)
    · exact already
    · rwa [← Rule.shares_iff.mp shares] at isLong

theorem WellFormed.updated_room
    (needs : rule.NeedsGroup lpm)
    (room : lpm.lpmLongIndex < lpmLongOffsetMax) :
    lpm.Updated rule
      ((lpm.handOut (rule.ipv4.toNat / 256)).afterLong rule
        lpm.lpmLongIndex) := by
  have entry : (lpm.handOut (rule.ipv4.toNat / 256)).lpm24 (rule.ipv4.toNat / 256) =
      lpm24EntrySetFlag lpm.lpmLongIndex := lpm24_handOut_self _
  have grouped := (wellFormed.handOut room _).updated_group needs.1 (Nat.lt_succ_self _) entry
  refine ⟨grouped.wellFormed, le_rfl, fun address => ?_, fun address => ?_⟩
  · have noneNeeded : ¬ (rule.NeedsGroup (lpm.handOut (rule.ipv4.toNat / 256)) ∧
        rule.Shares address) := fun both =>
      both.1.2 (entry ▸ longEntry_setFlag room)
    rw [grouped.lookup address, if_neg noneNeeded, wellFormed.lpmLookupElem_handOut room,
      if_congr (Rule.shares_iff.symm.trans (and_iff_right needs).symm) rfl rfl]
  · rw [grouped.longEntry address, if_pos needs.1, if_pos needs.1]
    by_cases shares : rule.Shares address
    · simp [shares]
    · rw [lpm24_handOut_of_ne fun same => shares (Rule.shares_iff.mpr same)]

theorem WellFormed.update
    (rule : Rule)
    (room : rule.NeedsGroup lpm → lpm.lpmLongIndex < lpmLongOffsetMax) :
    ∃ following,
      lpm.update rule = (true, following) ∧ lpm.Updated rule following := by
  by_cases long : rule.Long
  · by_cases isLong : LongEntry (lpm.lpm24 (rule.ipv4.toNat / 256))
    · obtain ⟨group, below, entry⟩ := wellFormed.handed_out _ (index_lt _) isLong
      have few : group < 256 := lt_of_lt_of_le below wellFormed.index_le
      exact ⟨_, lpmUpdateElem_long long few (baseIndex_of_group few entry),
        wellFormed.updated_group long below entry⟩
    · have needs : rule.NeedsGroup lpm := ⟨long, isLong⟩
      exact ⟨_, lpmUpdateElem_long long (room needs) (baseIndex_of_room isLong (room needs)),
        wellFormed.updated_room needs (room needs)⟩
  · exact ⟨_, lpmUpdateElem_short long, wellFormed.updated_short long⟩

/-- An update fails exactly when it needs a group and there is none left. -/
theorem WellFormed.update_eq_false_iff :
    (lpm.update rule).1 = false ↔
      rule.NeedsGroup lpm ∧ lpm.lpmLongIndex = lpmLongOffsetMax := by
  constructor
  · intro failed
    by_contra both
    obtain ⟨following, updated, _⟩ := wellFormed.update rule fun needs =>
      lt_of_le_of_ne wellFormed.index_le fun full => both ⟨needs, full⟩
    rw [updated] at failed
    contradiction
  · rintro ⟨needs, full⟩
    rw [update_of_full needs full.ge]

theorem WellFormed.update_of_true (succeeds : (lpm.update rule).1 = true) :
    lpm.Updated rule (lpm.update rule).2 := by
  obtain ⟨following, updated, spec⟩ := wellFormed.update rule fun needs =>
    lt_of_le_of_ne wellFormed.index_le fun full => by
      rw [wellFormed.update_eq_false_iff.mpr ⟨needs, full⟩] at succeeds
      contradiction
  rwa [updated]

theorem WellFormed.update_wellFormed (rule : Rule) :
    (lpm.update rule).2.WellFormed := by
  cases result : (lpm.update rule).1 with
  | true => exact (wellFormed.update_of_true result).wellFormed
  | false =>
      obtain ⟨needs, full⟩ := wellFormed.update_eq_false_iff.mp result
      rwa [update_of_full needs full.ge]

end

end Lpm
end Vigor
