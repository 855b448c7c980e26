import Vigor.Cht.Checked

/-!
# Which backend is selected

The search takes the first active backend of a row.  Since the rows are
permutations, it finds one whenever there is one, an additional backend takes
packets only for itself, and every backend is the first one of some row.
-/

namespace Vigor
namespace Cht

open DoubleChain

theorem find?_or
    {α : Type u}
    {first second both : α → Bool}
    {elements : List α}
    (both_iff : ∀ element ∈ elements,
      (both element = true ↔ first element = true ∨ second element = true)) :
    (∃ element, elements.find? both = some element ∧ first element = true) ∨
      elements.find? both = elements.find? second := by
  induction elements with
  | nil => exact Or.inr rfl
  | cons element elements ih =>
      obtain ⟨here, later⟩ := List.forall_mem_cons.mp both_iff
      cases holds : both element with
      | true =>
          rw [List.find?_cons_of_pos holds]
          rcases here.mp holds with isFirst | isSecond
          · exact Or.inl ⟨element, rfl, isFirst⟩
          · exact Or.inr (List.find?_cons_of_pos isSecond).symm
      | false =>
          have notSecond : ¬second element = true := by
            intro isSecond
            rw [here.mpr (Or.inr isSecond)] at holds
            cases holds
          rw [List.find?_cons_of_neg (by simp [holds]), List.find?_cons_of_neg notSecond]
          exact ih later

section Prime

variable {chtHeight backendCapacity : ℕ} (prime : chtHeight.Prime)

include prime

theorem candidates_chtFillCht
    (hash : ℕ)
    (cht : ℕ → ℕ) :
    candidates hash (chtFillCht chtHeight backendCapacity cht) chtHeight
        backendCapacity =
      (RowFill.items (hash % chtHeight)
        (placements chtHeight backendCapacity)).map
        (fun backend : ℕ => (backend : ℤ)) := by
  rw [← row_chtFillCht prime (Nat.mod_lt hash prime.pos) cht, List.map_map]
  rfl

theorem mem_candidates
    (hash : ℕ)
    (cht : ℕ → ℕ) :
    index ∈ candidates hash (chtFillCht chtHeight backendCapacity cht) chtHeight
        backendCapacity ↔
      0 ≤ index ∧ index < backendCapacity := by
  rw [candidates_chtFillCht prime, ((perm_items prime
    (Nat.mod_lt hash prime.pos)).map _).mem_iff, List.mem_map]
  constructor
  · rintro ⟨backend, member, rfl⟩
    exact ⟨by omega, by exact_mod_cast List.mem_range.mp member⟩
  · rintro ⟨nonnegative, small⟩
    exact ⟨index.toNat, List.mem_range.mpr (by omega), by omega⟩

end Prime

/-- When the set of active backends grows by one, a packet goes to the new
backend or to the one that it went to before.  A backend is found if and only if
one is active, and it is active. -/
theorem cht_minimal_disruption
    {chtHeight backendCapacity : ℕ}
    (prime : chtHeight.Prime)
    (positive : 0 < backendCapacity)
    {permutations next : Option (ℕ → ℕ)}
    {cht : ℕ → ℕ}
    {table : FilledTable}
    (filled : checkedFillCht chtHeight backendCapacity permutations next cht =
      .ok (some table))
    {active extended : DoubleChain}
    {added : ℤ}
    (grows : ∀ index : ℤ, 0 ≤ index ∧ index < backendCapacity →
      (dchainIsIndexAllocated extended index = true ↔
        index = added ∨ dchainIsIndexAllocated active index = true))
    (hash : ℕ) :
    (chtFindPreferredAvailableBackend hash table.cht extended chtHeight
          backendCapacity = some added ∨
        chtFindPreferredAvailableBackend hash table.cht extended chtHeight
            backendCapacity =
          chtFindPreferredAvailableBackend hash table.cht active chtHeight
            backendCapacity) ∧
      (∀ chosen, chtFindPreferredAvailableBackend hash table.cht active
          chtHeight backendCapacity = some chosen →
        (0 ≤ chosen ∧ chosen < backendCapacity) ∧
          dchainIsIndexAllocated active chosen = true) ∧
      ((∃ chosen, chtFindPreferredAvailableBackend hash table.cht active
          chtHeight backendCapacity = some chosen) ↔
        ∃ index : ℤ, (0 ≤ index ∧ index < backendCapacity) ∧
          dchainIsIndexAllocated active index = true) := by
  obtain ⟨_, same⟩ := of_checkedFillCht_eq_some positive filled
  rw [same]
  unfold chtFindPreferredAvailableBackend
  refine ⟨?_, fun chosen found => ?_, ?_⟩
  · have both_iff : ∀ index ∈ candidates hash (chtFillCht chtHeight backendCapacity cht)
        chtHeight backendCapacity, (dchainIsIndexAllocated extended index = true ↔
          decide (index = added) = true ∨ dchainIsIndexAllocated active index = true) := by
      intro index member
      rw [decide_eq_true_iff]
      exact grows index ((mem_candidates prime hash cht).mp member)
    rcases find?_or both_iff with ⟨chosen, found, isAdded⟩ | unchanged
    · rw [found, of_decide_eq_true isAdded]
      exact Or.inl rfl
    · exact Or.inr unchanged
  · exact ⟨(mem_candidates prime hash cht).mp (List.mem_of_find?_eq_some found),
      List.find?_some found⟩
  · rw [← Option.isSome_iff_exists, List.find?_isSome]
    exact exists_congr fun index => and_congr_left' (mem_candidates prime hash cht)

/-- Three backends and seven rows.  Backend 0 is active, and backend 1 is
added. -/
theorem cht_minimal_disruption_example :
    let memory : DoubleChain := ⟨fun _ => ⟨0, 0⟩, fun _ => 0⟩
    let active := (dchainAllocateNewIndex (dchainAllocate memory 3) 0).2
    let extended := (dchainAllocateNewIndex active 1).2
    ∃ table, checkedFillCht 7 3 (some fun _ => 0) (some fun _ => 0) (fun _ => 0) =
        .ok (some table) ∧
      (chtFindPreferredAvailableBackend 4 table.cht extended 7 3 = some 1 ∨
        chtFindPreferredAvailableBackend 4 table.cht extended 7 3 =
          chtFindPreferredAvailableBackend 4 table.cht active 7 3) := by
  intro memory active extended
  obtain ⟨table, filled⟩ : ∃ table, checkedFillCht 7 3 (some fun _ => 0)
      (some fun _ => 0) (fun _ => 0) = .ok (some table) := ⟨_, rfl⟩
  have grows : ∀ index : ℤ, 0 ≤ index ∧ index < (3 : ℕ) →
      (dchainIsIndexAllocated extended index = true ↔
        index = 1 ∨ dchainIsIndexAllocated active index = true) := by
    rintro index ⟨nonnegative, small⟩
    rcases (by omega : index = 0 ∨ index = 1 ∨ index = 2) with rfl | rfl | rfl <;>
      decide
  exact ⟨table, filled, (cht_minimal_disruption (by decide) (by decide) filled grows 4).1⟩

/-! ## Every backend is preferred somewhere -/

theorem items_eq_append (rounds backendCapacity row : ℕ) :
    ∃ rest, RowFill.items row (placements (rounds + 2) backendCapacity) =
      ((List.range backendCapacity).filter fun backend =>
          permutation (rounds + 2) backend 0 = row) ++
        (((List.range backendCapacity).filter fun backend =>
          permutation (rounds + 2) backend 1 = row) ++ rest) := by
  rw [items_placements, List.range_succ_eq_map, List.range_succ_eq_map]
  simp only [List.map_cons, List.flatMap_cons]
  exact ⟨_, rfl⟩

theorem filter_eq_singleton
    (isBackend : backend < backendCapacity)
    {goes : ℕ → ℕ}
    (injective : ∀ other < backendCapacity,
      goes other = goes backend → other = backend) :
    ((List.range backendCapacity).filter fun other =>
      goes other = goes backend) = [backend] := by
  have same : ((List.range backendCapacity).filter fun other =>
      goes other = goes backend) =
        (List.range backendCapacity).filter fun other => other = backend := by
    refine List.filter_congr fun other member => ?_
    rw [decide_eq_decide]
    refine ⟨injective other (List.mem_range.mp member), ?_⟩
    rintro rfl
    rfl
  rw [same, List.filter_eq, List.count_eq_one_of_mem List.nodup_range
    (List.mem_range.mpr isBackend)]
  rfl

theorem exists_preferred
    {chtHeight backendCapacity backend : ℕ}
    (prime : chtHeight.Prime)
    (fewer : backendCapacity < chtHeight)
    (fits : chtHeight * backendCapacity < 2 ^ 32)
    (isBackend : backend < backendCapacity) :
    ∃ row < chtHeight, ∃ rest,
      RowFill.items row (placements chtHeight backendCapacity) =
        backend :: rest := by
  have small : backendCapacity < 2 ^ 16 := by
    by_contra large
    have : 2 ^ 16 * 2 ^ 16 ≤ chtHeight * backendCapacity := Nat.mul_le_mul (by omega) (by omega)
    omega
  have offset_eq (other : ℕ) (otherBackend : other < backendCapacity) :
      offset chtHeight other = other * 31 % chtHeight := by
    have unreduced : other * 31 % 2 ^ 32 = other * 31 := Nat.mod_eq_of_lt (by omega)
    rw [offset, loop, unreduced]
  have first (other : ℕ) (otherBackend : other < backendCapacity) :
      permutation chtHeight other 0 = other * 31 % chtHeight := by
    rw [permutation_eq, offset_eq other otherBackend, Nat.mul_zero, Nat.add_zero, Nat.mod_mod]
  obtain ⟨rounds, rfl⟩ : ∃ rounds, chtHeight = rounds + 2 :=
    Nat.exists_eq_add_of_le' prime.two_le
  by_cases special : rounds + 2 = 31
  · have second (other : ℕ) (otherBackend : other < backendCapacity) :
        permutation (rounds + 2) other 1 = other + 1 := by
      rw [permutation_eq, offset_eq other otherBackend, shift, loop, special]
      omega
    obtain ⟨rest, items_eq⟩ := items_eq_append rounds backendCapacity
      (permutation (rounds + 2) backend 1)
    refine ⟨_, permutation_lt prime.pos backend 1, rest, ?_⟩
    have nobody : ((List.range backendCapacity).filter fun other =>
        permutation (rounds + 2) other 0 = permutation (rounds + 2) backend 1) = [] := by
      refine List.filter_eq_nil_iff.mpr fun other member => ?_
      rw [first other (List.mem_range.mp member), second backend isBackend, special]
      simp
    rw [items_eq, nobody, filter_eq_singleton isBackend]
    · rfl
    · intro other otherBackend same
      rw [second other otherBackend, second backend isBackend] at same
      omega
  · have injective (other : ℕ) (otherBackend : other < backendCapacity)
        (same : permutation (rounds + 2) other 0 = permutation (rounds + 2) backend 0) :
        other = backend := by
      rw [first other otherBackend, first backend isBackend] at same
      have coprime : (rounds + 2).Coprime 31 := (Nat.coprime_primes prime (by decide)).mpr special
      have congruent : other ≡ backend [MOD rounds + 2] :=
        Nat.ModEq.cancel_right_of_coprime coprime same
      exact Nat.ModEq.eq_of_lt_of_lt congruent (by omega) (by omega)
    obtain ⟨rest, items_eq⟩ := items_eq_append rounds backendCapacity
      (permutation (rounds + 2) backend 0)
    rw [filter_eq_singleton isBackend injective] at items_eq
    exact ⟨_, permutation_lt prime.pos backend 0, _, items_eq⟩

/-- For every backend there is a hash for which it is selected whenever it is
active, whatever the other active backends are. -/
theorem cht_never_starves
    {chtHeight backendCapacity : ℕ}
    (prime : chtHeight.Prime)
    (fewer : backendCapacity < chtHeight)
    {permutations next : Option (ℕ → ℕ)}
    {cht : ℕ → ℕ}
    {table : FilledTable}
    (filled : checkedFillCht chtHeight backendCapacity permutations next cht =
      .ok (some table))
    {backend : ℤ}
    (inside : 0 ≤ backend ∧ backend < backendCapacity) :
    ∃ hash < 2 ^ 64, ∀ active : DoubleChain,
      dchainIsIndexAllocated active backend = true →
        chtFindPreferredAvailableBackend hash table.cht active chtHeight
          backendCapacity = some backend := by
  obtain ⟨fits, same⟩ := of_checkedFillCht_eq_some (by omega) filled
  have height : chtHeight ≤ chtHeight * backendCapacity :=
    Nat.le_mul_of_pos_right _ (by omega)
  lift backend to ℕ using inside.1
  obtain ⟨row, rowInside, rest, items_eq⟩ := exists_preferred prime fewer fits
    (by omega : backend < backendCapacity)
  refine ⟨row, by omega, fun active isActive => ?_⟩
  rw [same, chtFindPreferredAvailableBackend, candidates_chtFillCht prime,
    Nat.mod_eq_of_lt rowInside, items_eq, List.map_cons]
  exact List.find?_cons_of_pos isActive

/-- Height 31 and three backends, of which each is selected for some hash. -/
theorem cht_never_starves_example :
    ∃ table,
      checkedFillCht 31 3 (some fun _ => 0) (some fun _ => 0) (fun _ => 0) =
        .ok (some table) ∧
      ∀ backend : ℤ, 0 ≤ backend ∧ backend < 3 →
        ∃ hash < 2 ^ 64, ∀ active : DoubleChain,
          dchainIsIndexAllocated active backend = true →
            chtFindPreferredAvailableBackend hash table.cht active 31 3 =
              some backend := by
  obtain ⟨table, filled⟩ : ∃ table, checkedFillCht 31 3 (some fun _ => 0)
      (some fun _ => 0) (fun _ => 0) = .ok (some table) := by
    have room : ∀ row, (RowFill.items row (placements 31 3)).length ≤ 3 :=
      length_items_le (by decide)
    exact ⟨_, (checkedFillCht_ok (by decide) (by decide) room _ _ _).choose_spec⟩
  exact ⟨table, filled, fun backend inside =>
    cht_never_starves (by decide) (by decide) filled inside⟩

end Cht
end Vigor
