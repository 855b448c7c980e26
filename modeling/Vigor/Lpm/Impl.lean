import Vigor.Library.AlignedFill

/-!
# Longest-prefix table

Model of `libvig/verified/lpm-dir-24-8.c`: an array with an entry for each value
of the first three bytes of an address, and an array of groups of 256 entries
for the last byte.  An entry of the first array is a next hop, or a group with
the flag in bit 15.
-/

namespace Vigor

open AlignedFill

/-- `struct lpm`. -/
structure Lpm where
  lpm24 : ℕ → ℕ
  lpmLong : ℕ → ℕ
  lpmLongIndex : ℕ

namespace Lpm

/-! ## Constants -/

/-- `INVALID`. -/
abbrev invalid : ℕ := 0xFFFF

/-- `lpm_24_MAX_ENTRIES`. -/
abbrev lpm24MaxEntries : ℕ := 16777216

/-- `lpm_LONG_MAX_ENTRIES`. -/
abbrev lpmLongMaxEntries : ℕ := 65536

/-- `lpm_LONG_OFFSET_MAX`. -/
abbrev lpmLongOffsetMax : ℕ := 256

/-- `lpm_LONG_FACTOR`. -/
abbrev lpmLongFactor : ℕ := 256

/-- `lpm_24_FLAG_MASK`. -/
abbrev lpm24FlagMask : ℕ := 0x8000

/-- `MAX_NEXT_HOP_VALUE`. -/
abbrev maxNextHopValue : ℕ := 0x7FFF

/-! ## Helper functions -/

/-- `fill_invalid`. -/
def fillInvalid
    (t : ℕ → ℕ)
    (size : ℕ) : ℕ → ℕ :=
  fill size t 0 invalid

/-- The table `ip_masks`. -/
def ipMasks : List (BitVec 32) :=
  [0x00000000, 0x80000000, 0xC0000000, 0xE0000000, 0xF0000000, 0xF8000000,
    0xFC000000, 0xFE000000, 0xFF000000, 0xFF800000, 0xFFC00000, 0xFFE00000,
    0xFFF00000, 0xFFF80000, 0xFFFC0000, 0xFFFE0000, 0xFFFF0000, 0xFFFF8000,
    0xFFFFC000, 0xFFFFE000, 0xFFFFF000, 0xFFFFF800, 0xFFFFFC00, 0xFFFFFE00,
    0xFFFFFF00, 0xFFFFFF80, 0xFFFFFFC0, 0xFFFFFFE0, 0xFFFFFFF0, 0xFFFFFFF8,
    0xFFFFFFFC, 0xFFFFFFFE, 0xFFFFFFFF]

/-- `build_mask_from_prefixlen`, for lengths up to 32. -/
def buildMaskFromPrefixlen (prefixlen : ℕ) : BitVec 32 :=
  ipMasks.getD prefixlen 0

/-- `lpm_24_extract_first_index`. -/
def lpm24ExtractFirstIndex (data : BitVec 32) : ℕ :=
  (data >>> 8).toNat

/-- `compute_rule_size`: how many entries the rule will take, for lengths up to
32. -/
def computeRuleSize (prefixlen : ℕ) : ℕ :=
  if prefixlen < 25 then
    [0x1000000, 0x800000, 0x400000, 0x200000, 0x100000,
      0x80000, 0x40000, 0x20000, 0x10000, 0x8000,
      0x4000, 0x2000, 0x1000, 0x800, 0x400,
      0x200, 0x100, 0x80, 0x40, 0x20,
      0x10, 0x8, 0x4, 0x2, 0x1].getD prefixlen 0
  else [0x80, 0x40, 0x20, 0x10, 0x8, 0x4, 0x2, 0x1].getD (prefixlen - 25) 0

/-- `lpm_24_entry_flag`. -/
def lpm24EntryFlag (entry : ℕ) : Bool :=
  entry >>> 15 == 1

/-- `lpm_24_entry_set_flag`. -/
def lpm24EntrySetFlag (entry : ℕ) : ℕ :=
  entry ||| lpm24FlagMask

/-- `lpm_long_extract_first_index`. -/
def lpmLongExtractFirstIndex
    (data : BitVec 32)
    (prefixlen baseIndex : ℕ) : ℕ :=
  let mask := buildMaskFromPrefixlen prefixlen
  let maskedData := data &&& mask
  let lastByte := (maskedData &&& 0xFF).toNat % 2 ^ 8
  (baseIndex * lpmLongFactor + lastByte) % 2 ^ 16

/-! ## Interface -/

/-- `lpm_allocate` on fresh memory.  Allocation failures of the system are left
out. -/
def lpmAllocate (memory : Lpm) : Lpm where
  lpm24 := fillInvalid memory.lpm24 lpm24MaxEntries
  lpmLong := fillInvalid memory.lpmLong lpmLongMaxEntries
  lpmLongIndex := 0

/-- `lpm_lookup_elem`. -/
def lpmLookupElem
    (lpm : Lpm)
    (ipv4 : BitVec 32) : ℕ :=
  let index := lpm24ExtractFirstIndex ipv4
  let value := lpm.lpm24 index
  if value ≠ invalid ∧ lpm24EntryFlag value then
    -- The value is a base index for an entry of the second array.
    let extractedIndex := (value &&& 0xFF) % 2 ^ 8
    let indexLong := lpmLongExtractFirstIndex ipv4 32 extractedIndex
    let valueLong := lpm.lpmLong indexLong
    if valueLong = invalid then invalid else valueLong
  else if value = invalid then invalid
  else value

/-- The group for a long rule: the one that the entry holds, or else the next
one.  There are no more groups if the result is `none`. -/
def baseIndex
    (lpm : Lpm)
    (lpm24Index : ℕ) : Option (ℕ × Lpm) :=
  let lpm24Value := lpm.lpm24 lpm24Index
  let needNewIndex :=
    if lpm24Value = invalid then true else !lpm24EntryFlag lpm24Value
  if needNewIndex then
    if lpm.lpmLongIndex ≥ lpmLongOffsetMax then none
    else
      let baseIndex := lpm.lpmLongIndex % 2 ^ 8
      some (baseIndex,
        { lpm with
          lpmLongIndex := (lpm.lpmLongIndex + 1) % 2 ^ 16
          lpm24 := Function.update lpm.lpm24 lpm24Index (lpm24EntrySetFlag baseIndex) })
  else some ((lpm24Value &&& 0x7FFF) % 2 ^ 8, lpm)

/-- `lpm_update_elem`. -/
def lpmUpdateElem
    (lpm : Lpm)
    (ipv4 : BitVec 32)
    (prefixlen value : ℕ) : Bool × Lpm :=
  let mask := buildMaskFromPrefixlen prefixlen
  let maskedIp := ipv4 &&& mask
  if prefixlen < 25 then
    let firstIndex := lpm24ExtractFirstIndex maskedIp
    let ruleSize := computeRuleSize prefixlen
    let lastIndex := firstIndex + ruleSize
    -- Fill the entries from the first index up to the last one.
    (true, { lpm with lpm24 := fill (lastIndex - firstIndex) lpm.lpm24 firstIndex value })
  else
    match lpm.baseIndex (lpm24ExtractFirstIndex ipv4) with
    | none => (false, lpm)
    | some (baseIndex, lpm) =>
        let firstIndex := lpmLongExtractFirstIndex ipv4 prefixlen baseIndex
        let ruleSize := computeRuleSize prefixlen
        let lastIndex := firstIndex + ruleSize
        (true,
          { lpm with lpmLong := fill (lastIndex - firstIndex) lpm.lpmLong firstIndex value })

end Lpm
end Vigor
