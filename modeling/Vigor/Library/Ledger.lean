import Mathlib.Data.Int.Notation
import Mathlib.Data.List.Nodup
import Mathlib.Data.List.Perm.Subperm

/-!
# Ledgers

A ledger lists timed entries, one at most for each key.  An entry is written
with the current time, and it expires when it was not written for too long.
What a ledger says about one key does not depend on the others, except for the
number of entries.
-/

universe u v

/-- What is kept for a key. -/
structure Ledger.Entry (K : Type u) (D : Type v) where
  key : K
  data : D
  /-- When the entry was last written. -/
  time : ℤ
  deriving DecidableEq, Repr

/-- Entries with distinct keys. -/
structure Ledger (K : Type u) (D : Type v) where
  entries : List (Ledger.Entry K D)
  nodup : (entries.map Ledger.Entry.key).Nodup

namespace Ledger

variable {K : Type u} {D : Type v}

/-- The ledger without entries. -/
def empty : Ledger K D where
  entries := []
  nodup := List.nodup_nil

/-- The number of entries. -/
def size (ledger : Ledger K D) : ℕ :=
  ledger.entries.length

/-- Forget the entries that were last written before the limit. -/
def expire
    (limit : ℤ)
    (ledger : Ledger K D) : Ledger K D where
  entries := ledger.entries.filter fun entry => limit ≤ entry.time
  nodup := ledger.nodup.sublist (List.filter_sublist.map Entry.key)

theorem entries_expire
    (limit : ℤ)
    (ledger : Ledger K D) :
    (ledger.expire limit).entries = ledger.entries.filter fun entry => limit ≤ entry.time := rfl

theorem size_expire_le
    (limit : ℤ)
    (ledger : Ledger K D) :
    (ledger.expire limit).size ≤ ledger.size :=
  List.length_filter_le _ _

/-- A later expiry makes an earlier one pointless. -/
theorem expire_expire
    (le : limit ≤ later)
    (ledger : Ledger K D) :
    ((ledger.expire limit).expire later).entries =
      (ledger.expire later).entries := by
  simp only [expire, List.filter_filter]
  refine List.filter_congr fun entry _ => ?_
  rw [← Bool.decide_and]
  exact decide_eq_decide.mpr (by omega)

variable [DecidableEq K]

/-- The entry of a key. -/
def find
    (key : K)
    (ledger : Ledger K D) : Option (Entry K D) :=
  ledger.entries.find? fun entry => entry.key = key

/-- Replace an entry that has the given key. -/
def overwrite
    (key : K)
    (data : D)
    (now : ℤ)
    (entry : Entry K D) : Entry K D :=
  if entry.key = key then ⟨key, data, now⟩ else entry

theorem overwrite_key
    (key : K)
    (data : D)
    (now : ℤ)
    (entry : Entry K D) :
    (overwrite key data now entry).key = entry.key := by
  unfold overwrite
  split_ifs with same
  · exact same.symm
  · rfl

theorem find_eq_none_iff
    {ledger : Ledger K D}
    {key : K} :
    ledger.find key = none ↔ ∀ entry ∈ ledger.entries, entry.key ≠ key := by
  simp [find]

variable {ledger : Ledger K D} {key : K}

theorem find_eq_some_iff :
    ledger.find key = some entry ↔
      entry ∈ ledger.entries ∧ entry.key = key := by
  constructor
  · intro found
    exact ⟨List.mem_of_find?_eq_some found, by simpa using List.find?_some found⟩
  · rintro ⟨member, rfl⟩
    cases found : ledger.find entry.key with
    | none => exact absurd rfl (find_eq_none_iff.mp found entry member)
    | some other =>
        have otherMember := List.mem_of_find?_eq_some found
        have sameKey : other.key = entry.key := by
          simpa using List.find?_some found
        rw [List.inj_on_of_nodup_map ledger.nodup otherMember member sameKey]

/-- Write an entry, in place of the entry of the key or as a new one. -/
def put
    (key : K)
    (data : D)
    (now : ℤ)
    (ledger : Ledger K D) : Ledger K D where
  entries :=
    if ledger.find key = none then ledger.entries ++ [⟨key, data, now⟩]
    else ledger.entries.map (overwrite key data now)
  nodup := by
    split_ifs with absent
    · rw [List.map_append]
      refine ledger.nodup.append (List.nodup_singleton _) ?_
      simpa [List.disjoint_singleton] using find_eq_none_iff.mp absent
    · rw [List.map_map]
      refine (List.map_congr_left fun entry _ => ?_) ▸ ledger.nodup
      exact (overwrite_key key data now entry).symm

/-- Write the entry of a key again, if there is one. -/
def touch
    (key : K)
    (now : ℤ)
    (ledger : Ledger K D) : Ledger K D :=
  (ledger.find key).elim ledger fun entry => ledger.put key entry.data now

/-- Write the entry of a key again, or a new one if there is none and the number
of entries is below the capacity. -/
def ensure
    (capacity : ℕ)
    (key : K)
    (data : D)
    (now : ℤ)
    (ledger : Ledger K D) : Ledger K D :=
  match ledger.find key with
  | some entry => ledger.put key entry.data now
  | none =>
      if ledger.size < capacity then ledger.put key data now else ledger

/-! ## One key -/

@[simp] theorem find_empty (key : K) : (empty : Ledger K D).find key = none :=
  rfl

theorem find_expire
    (limit : ℤ)
    (key : K)
    (ledger : Ledger K D) :
    (ledger.expire limit).find key = (ledger.find key).filter fun entry =>
      limit ≤ entry.time := by
  ext entry
  rw [find_eq_some_iff, Option.filter_eq_some_iff, find_eq_some_iff, expire, List.mem_filter]
  exact and_right_comm

/-- Overwriting does nothing for a key without entry. -/
theorem map_overwrite_of_absent
    (absent : ledger.find key = none)
    (data : D)
    (now : ℤ) :
    ledger.entries.map (overwrite key data now) = ledger.entries := by
  have others := find_eq_none_iff.mp absent
  refine (List.map_congr_left fun entry member => ?_).trans (List.map_id _)
  exact if_neg (others entry member)

theorem mem_put_iff :
    entry ∈ (ledger.put key data now).entries ↔
      entry = ⟨key, data, now⟩ ∨
        (entry.key ≠ key ∧ entry ∈ ledger.entries) := by
  unfold put
  split_ifs with absent
  · have others := find_eq_none_iff.mp absent
    simp only [List.mem_append, List.mem_singleton]
    constructor
    · rintro (old | rfl)
      · exact .inr ⟨others entry old, old⟩
      · exact .inl rfl
    · rintro (rfl | ⟨_, old⟩)
      · exact .inr rfl
      · exact .inl old
  · obtain ⟨found, isFound⟩ := Option.ne_none_iff_exists'.mp absent
    obtain ⟨member, sameKey⟩ := find_eq_some_iff.mp isFound
    simp only [List.mem_map]
    constructor
    · rintro ⟨other, otherMember, rfl⟩
      by_cases same : other.key = key
      · exact .inl (if_pos same)
      · rw [overwrite, if_neg same]
        exact .inr ⟨same, otherMember⟩
    · rintro (rfl | ⟨different, old⟩)
      · exact ⟨found, member, if_pos sameKey⟩
      · exact ⟨entry, old, if_neg different⟩

@[simp] theorem find_put_self
    (key : K)
    (data : D)
    (now : ℤ)
    (ledger : Ledger K D) :
    (ledger.put key data now).find key = some ⟨key, data, now⟩ :=
  find_eq_some_iff.mpr ⟨mem_put_iff.mpr (.inl rfl), rfl⟩

@[simp] theorem find_put_of_ne
    (different : other ≠ key)
    (data : D)
    (now : ℤ)
    (ledger : Ledger K D) :
    (ledger.put key data now).find other = ledger.find other := by
  ext entry
  rw [find_eq_some_iff, find_eq_some_iff, mem_put_iff]
  constructor
  · rintro ⟨rfl | ⟨_, old⟩, sameKey⟩
    · exact absurd sameKey.symm different
    · exact ⟨old, sameKey⟩
  · rintro ⟨old, rfl⟩
    exact ⟨.inr ⟨different, old⟩, rfl⟩

theorem entries_put_of_absent
    (absent : ledger.find key = none)
    (data : D)
    (now : ℤ) :
    (ledger.put key data now).entries = ledger.entries ++ [⟨key, data, now⟩] :=
  if_pos absent

theorem entries_put_of_present
    (present : ledger.find key ≠ none)
    (data : D)
    (now : ℤ) :
    (ledger.put key data now).entries =
      ledger.entries.map (overwrite key data now) :=
  if_neg present

theorem data_of_mem_touch (member : entry ∈ (ledger.touch key now).entries) :
    ∃ old ∈ ledger.entries, old.key = entry.key ∧ old.data = entry.data := by
  rw [touch] at member
  cases found : ledger.find key with
  | none =>
      rw [found] at member
      exact ⟨entry, member, rfl, rfl⟩
  | some old =>
      rw [found] at member
      rcases mem_put_iff.mp member with rfl | ⟨_, kept⟩
      · obtain ⟨oldMember, sameKey⟩ := find_eq_some_iff.mp found
        exact ⟨old, oldMember, sameKey, rfl⟩
      · exact ⟨entry, kept, rfl, rfl⟩

theorem data_of_mem_ensure
    (member : entry ∈ (ledger.ensure capacity key data now).entries) :
    (∃ old ∈ ledger.entries, old.key = entry.key ∧ old.data = entry.data) ∨
      entry = ⟨key, data, now⟩ := by
  rw [ensure] at member
  cases found : ledger.find key with
  | none =>
      rw [found] at member
      dsimp only [Option.elim] at member
      split_ifs at member
      · rcases mem_put_iff.mp member with rfl | ⟨_, kept⟩
        · exact .inr rfl
        · exact .inl ⟨entry, kept, rfl, rfl⟩
      · exact .inl ⟨entry, member, rfl, rfl⟩
  | some old =>
      have touched : entry ∈ (ledger.touch key now).entries := by
        rw [touch, found]
        rw [found] at member
        exact member
      exact .inl (data_of_mem_touch touched)

theorem find_ensure_self
    (room : ledger.find key = none → ledger.size < capacity)
    (data : D)
    (now : ℤ) :
    (ledger.ensure capacity key data now).find key =
      some ⟨key, (ledger.find key).elim data Entry.data, now⟩ := by
  rw [ensure]
  cases found : ledger.find key with
  | none =>
      dsimp only [Option.elim]
      rw [if_pos (room found), find_put_self]
  | some entry => exact find_put_self _ _ _ _

theorem find_ensure_of_ne
    (different : other ≠ key)
    (data : D)
    (now : ℤ)
    (ledger : Ledger K D) :
    (ledger.ensure capacity key data now).find other = ledger.find other := by
  rw [ensure]
  split
  · exact find_put_of_ne different _ _ _
  · split
    · exact find_put_of_ne different _ _ _
    · rfl

theorem size_put_of_present
    (present : ledger.find key ≠ none)
    (data : D)
    (now : ℤ) :
    (ledger.put key data now).size = ledger.size := by
  rw [size, entries_put_of_present present, List.length_map, size]

theorem size_put_of_absent
    (absent : ledger.find key = none)
    (data : D)
    (now : ℤ) :
    (ledger.put key data now).size = ledger.size + 1 := by
  rw [size, entries_put_of_absent absent, List.length_append, List.length_singleton, size]

/-! ## Parts of a ledger -/

omit [DecidableEq K] in
/-- The entries of the part are those of the whole from the limit on. -/
def Restricts
    (limit : ℤ)
    (whole part : Ledger K D) : Prop :=
  ∀ entry, entry ∈ part.entries ↔ entry ∈ whole.entries ∧ limit ≤ entry.time

namespace Restricts

variable {limit : ℤ} {whole part : Ledger K D}

omit [DecidableEq K] in
theorem expire
    (restricts : Restricts limit whole part)
    (le : limit ≤ later) :
    Restricts later whole (part.expire later) := by
  intro entry
  rw [entries_expire, List.mem_filter, restricts, decide_eq_true_iff]
  constructor
  · rintro ⟨⟨member, _⟩, young⟩
    exact ⟨member, young⟩
  · rintro ⟨member, young⟩
    exact ⟨⟨member, Int.le_trans le young⟩, young⟩

theorem find_eq
    (restricts : Restricts limit whole part)
    (key : K) :
    part.find key = (whole.find key).filter fun entry =>
      limit ≤ entry.time := by
  ext entry
  rw [find_eq_some_iff, restricts, Option.filter_eq_some_iff, find_eq_some_iff, decide_eq_true_iff]
  exact and_right_comm

theorem put
    (restricts : Restricts limit whole part)
    (key : K)
    (data : D)
    (le : limit ≤ now) :
    Restricts limit (whole.put key data now) (part.put key data now) := by
  intro entry
  rw [mem_put_iff, mem_put_iff, restricts]
  constructor
  · rintro (rfl | ⟨different, member, young⟩)
    · exact ⟨.inl rfl, le⟩
    · exact ⟨.inr ⟨different, member⟩, young⟩
  · rintro ⟨rfl | ⟨different, member⟩, young⟩
    · exact .inl rfl
    · exact .inr ⟨different, member, young⟩

omit [DecidableEq K] in
theorem size_le (restricts : Restricts limit whole part) :
    part.size ≤ whole.size := by
  apply List.Subperm.length_le
  apply List.subperm_of_subset part.nodup.of_map
  intro entry member
  exact ((restricts entry).mp member).1

omit [DecidableEq K] in
theorem size_lt
    (restricts : Restricts limit whole part)
    (member : entry ∈ whole.entries)
    (old : entry.time < limit) :
    part.size < whole.size := by
  have absent : entry ∉ part.entries := by
    intro present
    have young := ((restricts entry).mp present).2
    omega
  have subperm : List.Subperm (entry :: part.entries) whole.entries := by
    apply List.subperm_of_subset (List.nodup_cons.mpr ⟨absent, part.nodup.of_map⟩)
    intro other otherMember
    rcases List.mem_cons.mp otherMember with rfl | present
    · exact member
    · exact ((restricts other).mp present).1
  exact subperm.length_le

end Restricts

end Ledger
