import Vigor.Cht.Fill
import Vigor.Library.FaultLoops

/-!
# Filling the table with all checks

`cht_fill_cht` with its arrays and its machine arithmetic.  It faults when it
computes a remainder by zero, when it leaves the array of the permutations, and
when a row has more entries than backends.  Without a fault it fills the table
as described in `Impl`.

The load balancer accepts every positive height and number of backends.
-/

namespace Vigor
namespace Cht

open Function

/-- `nf_config_init`: the value of an option that must be strictly positive.  It
is stored in 32 bits. -/
def positiveOption (value : ℤ) : Option ℕ :=
  let stored := (value % 2 ^ 32).toNat
  if stored ≤ 0 then none else some stored

/-- What may go wrong. -/
inductive Fault where
  | remainderByZero
  | outside
  | spill
  deriving DecidableEq, Repr

/-- `loop`, which computes a remainder. -/
def checkedLoop (k capacity : ℕ) : Except Fault ℕ :=
  if capacity = 0 then .error .remainderByZero else .ok (loop k capacity)

/-- An access to an array. -/
def checkedIndex (index size : ℕ) : Except Fault ℕ :=
  if index < size then .ok index else .error .outside

/-- The table, the array `next`, and the row and the priority of every write to
the table so far. -/
structure FilledTable where
  next : ℕ → ℕ
  cht : ℕ → ℕ
  written : List (ℕ × ℕ)

/-- Round `j` of the inner loop that generates the permutations. -/
def generateCell
    (chtHeight size i offset shift : ℕ)
    (permutations : ℕ → ℕ)
    (j : ℕ) : Except Fault (ℕ → ℕ) := do
  let permut ← checkedLoop (offset + shift * j) chtHeight
  let index ← checkedIndex ((i * chtHeight + j) % 2 ^ 32) size
  pure (update permutations index permut)

/-- Round `i` of the loop that generates the permutations. -/
def generateRow
    (chtHeight size : ℕ)
    (permutations : ℕ → ℕ)
    (i : ℕ) : Except Fault (ℕ → ℕ) := do
  let offsetAbsolut := i * 31 % 2 ^ 32
  let offset ← checkedLoop offsetAbsolut chtHeight
  let baseShift ← checkedLoop i (chtHeight - 1)
  let shift := baseShift + 1
  (List.range chtHeight).foldlM (generateCell chtHeight size i offset shift)
    permutations

/-- Round `i`, `j` of the loops that fill the table. -/
def checkedFillCell
    (chtHeight backendCapacity size : ℕ)
    (permutations : ℕ → ℕ)
    (i : ℕ)
    (table : FilledTable)
    (j : ℕ) : Except Fault FilledTable := do
  let index ← checkedIndex ((j * chtHeight + i) % 2 ^ 32) size
  let bucketId := permutations index
  let priority := table.next bucketId
  if backendCapacity ≤ priority then throw .spill
  pure
    { next := update table.next bucketId (priority + 1)
      cht := update table.cht (backendCapacity * bucketId + priority) j
      written := table.written ++ [(bucketId, priority)] }

/-- `cht_fill_cht`, with what `malloc` returns for its two arrays.  The table is
returned unless there is no memory. -/
def checkedFillCht
    (chtHeight backendCapacity : ℕ)
    (permutations next : Option (ℕ → ℕ))
    (cht : ℕ → ℕ) : Except Fault (Option FilledTable) := do
  let size := chtHeight * backendCapacity % 2 ^ 32
  let some permutations := permutations | pure none
  let permutations ← (List.range backendCapacity).foldlM (generateRow chtHeight size)
    permutations
  let some _ := next | pure none
  let table ← (List.range chtHeight).foldlM
    (fun table i => (List.range backendCapacity).foldlM
      (checkedFillCell chtHeight backendCapacity size permutations i) table)
    { next := fun _ => 0, cht := cht, written := [] }
  pure (some table)

/-! ## The permutations -/

/-- The array holds the permutations of the backends so far, and the first
rounds of the next one. -/
def Generated
    (chtHeight backends rounds : ℕ)
    (permutations : ℕ → ℕ) : Prop :=
  (∀ i < backends, ∀ j < chtHeight,
    permutations (i * chtHeight + j) = permutation chtHeight i j) ∧
  ∀ j < rounds, permutations (backends * chtHeight + j) =
    permutation chtHeight backends j

section Generate

variable {chtHeight backendCapacity : ℕ}

theorem index_lt
    (backend : i < backendCapacity)
    (inside : j < chtHeight) :
    i * chtHeight + j < chtHeight * backendCapacity := by
  calc i * chtHeight + j < i * chtHeight + chtHeight := Nat.add_lt_add_left inside _
    _ = (i + 1) * chtHeight := (Nat.succ_mul ..).symm
    _ ≤ backendCapacity * chtHeight := Nat.mul_le_mul_right _ backend
    _ = chtHeight * backendCapacity := Nat.mul_comm ..

variable (fits : chtHeight * backendCapacity < 2 ^ 32)

include fits

/-- Inside the array positions are not reduced. -/
theorem checkedIndex_of_fits
    (backend : i < backendCapacity)
    (inside : j < chtHeight) :
    checkedIndex ((i * chtHeight + j) % 2 ^ 32)
      (chtHeight * backendCapacity % 2 ^ 32) = .ok (i * chtHeight + j) := by
  have small := index_lt backend inside
  rw [Nat.mod_eq_of_lt fits, Nat.mod_eq_of_lt (by omega)]
  exact if_pos small

theorem generateCell_ok
    (backend : i < backendCapacity)
    (inside : j < chtHeight)
    (generated : Generated chtHeight i j permutations) :
    ∃ following, generateCell chtHeight (chtHeight * backendCapacity % 2 ^ 32) i
        (offset chtHeight i) (shift chtHeight i) permutations j =
          .ok following ∧
      Generated chtHeight i (j + 1) following := by
  have positive : chtHeight ≠ 0 := by omega
  refine ⟨update permutations (i * chtHeight + j) (permutation chtHeight i j), ?_, ?_, ?_⟩
  · rw [generateCell, checkedLoop, if_neg positive, checkedIndex_of_fits fits backend inside]
    rfl
  · intro other less round roundInside
    have before : other * chtHeight + round < chtHeight * i := index_lt less roundInside
    rw [update_of_ne (by rw [Nat.mul_comm i]; omega)]
    exact generated.1 other less round roundInside
  · intro round upTo
    rcases Nat.lt_succ_iff_lt_or_eq.mp upTo with earlier | rfl
    · rw [update_of_ne (by omega)]
      exact generated.2 round earlier
    · exact update_self ..

theorem generateRow_ok
    (atLeastTwo : 2 ≤ chtHeight)
    (backend : i < backendCapacity)
    (generated : Generated chtHeight i 0 permutations) :
    ∃ following, generateRow chtHeight (chtHeight * backendCapacity % 2 ^ 32)
        permutations i = .ok following ∧
      Generated chtHeight (i + 1) 0 following := by
  obtain ⟨following, returns, complete⟩ := FaultLoops.foldlM_range_ok
    (Generated chtHeight i)
    (fun j inside permutations => generateCell_ok fits backend inside) generated
  refine ⟨following, ?_, ?_, by simp⟩
  · rw [generateRow, checkedLoop, if_neg (by omega), checkedLoop, if_neg (by omega)]
    exact returns
  · intro other upTo
    rcases Nat.lt_succ_iff_lt_or_eq.mp upTo with earlier | rfl
    · exact complete.1 other earlier
    · exact complete.2

theorem generate_ok
    (atLeastTwo : 2 ≤ chtHeight)
    (memory : ℕ → ℕ) :
    ∃ permutations, (List.range backendCapacity).foldlM
        (generateRow chtHeight (chtHeight * backendCapacity % 2 ^ 32)) memory =
          .ok permutations ∧
      Generated chtHeight backendCapacity 0 permutations :=
  FaultLoops.foldlM_range_ok (fun i => Generated chtHeight i 0)
    (fun _ backend _ => generateRow_ok fits atLeastTwo backend) (by simp [Generated])

end Generate

variable {chtHeight backendCapacity : ℕ}

theorem of_generate_ok
    (positive : 0 < backendCapacity)
    (returns : (List.range backendCapacity).foldlM
      (generateRow chtHeight (chtHeight * backendCapacity % 2 ^ 32)) memory =
        .ok permutations) :
    2 ≤ chtHeight ∧ chtHeight * backendCapacity < 2 ^ 32 := by
  have divisors {i : ℕ} {before after : ℕ → ℕ}
      (round : generateRow chtHeight (chtHeight * backendCapacity % 2 ^ 32) before i = .ok after) :
      2 ≤ chtHeight ∧ (List.range chtHeight).foldlM
        (generateCell chtHeight (chtHeight * backendCapacity % 2 ^ 32) i
          (offset chtHeight i) (shift chtHeight i)) before = .ok after := by
    rw [generateRow, checkedLoop] at round
    split at round
    · cases round
    rw [checkedLoop] at round
    change (if _ then _ else _ : Except Fault ℕ) >>= _ = _ at round
    split at round
    · cases round
    · exact ⟨by omega, round⟩
  have rounds {i : ℕ} (backend : i < backendCapacity) :=
    FaultLoops.exists_round_of_foldlM_ok returns (List.mem_range.mpr backend)
  obtain ⟨_, _, first⟩ := rounds positive
  have atLeastTwo := (divisors first).1
  refine ⟨atLeastTwo, ?_⟩
  by_contra tooLarge
  -- The last position of 32 bits is outside of the array, but some round writes to it.
  have remainder : (2 ^ 32 - 1) % chtHeight < chtHeight := Nat.mod_lt _ (by omega)
  have backend : (2 ^ 32 - 1) / chtHeight < backendCapacity := Nat.div_lt_of_lt_mul (by omega)
  obtain ⟨_, _, round⟩ := rounds backend
  obtain ⟨_, _, cell⟩ := FaultLoops.exists_round_of_foldlM_ok (divisors round).2
    (List.mem_range.mpr remainder)
  have last : (2 ^ 32 - 1) / chtHeight * chtHeight + (2 ^ 32 - 1) % chtHeight =
      2 ^ 32 - 1 := by
    rw [Nat.mul_comm]
    exact Nat.div_add_mod ..
  have size : chtHeight * backendCapacity % 2 ^ 32 < 2 ^ 32 := Nat.mod_lt _ (by decide)
  rw [generateCell, checkedLoop, if_neg (by omega), last, checkedIndex, if_neg (by omega)] at cell
  cases cell

/-! ## The table -/

/-- Put a backend into its row, unless the row is full. -/
def placeChecked
    (backendCapacity : ℕ)
    (table : FilledTable)
    (placement : ℕ × ℕ) : Except Fault FilledTable :=
  let priority := table.next placement.1
  if backendCapacity ≤ priority then .error .spill
  else
    .ok
      { next := update table.next placement.1 (priority + 1)
        cht := update table.cht (backendCapacity * placement.1 + priority)
          placement.2
        written := table.written ++ [(placement.1, priority)] }

/-- The loops go through the placements. -/
theorem fillLoops_eq
    (fits : chtHeight * backendCapacity < 2 ^ 32)
    (generated : Generated chtHeight backendCapacity 0 permutations)
    (table : FilledTable) :
    (List.range chtHeight).foldlM
      (fun table i => (List.range backendCapacity).foldlM
        (checkedFillCell chtHeight backendCapacity
          (chtHeight * backendCapacity % 2 ^ 32) permutations i) table) table =
      (placements chtHeight backendCapacity).foldlM
        (placeChecked backendCapacity) table := by
  rw [placements, FaultLoops.foldlM_flatMap]
  refine FaultLoops.foldlM_congr (fun i inside table => ?_) table
  rw [List.foldlM_map]
  refine FaultLoops.foldlM_congr (fun j backend table => ?_) table
  rw [checkedFillCell, checkedIndex_of_fits fits (List.mem_range.mp backend)
    (List.mem_range.mp inside)]
  change (do
    if backendCapacity ≤ table.next (permutations (j * chtHeight + i)) then throw .spill
    pure _ : Except Fault FilledTable) = _
  rw [generated.1 j (List.mem_range.mp backend) i (List.mem_range.mp inside), placeChecked]
  split <;> rfl

theorem foldlM_placeChecked_ok
    {placements : List (ℕ × ℕ)}
    (within : ∀ slot ∈ RowFill.slots table.next placements,
      slot.2 < backendCapacity) :
    placements.foldlM (placeChecked backendCapacity) table =
      let rows := RowFill.fill backendCapacity placements { next := table.next, cells := table.cht }
      .ok
        { next := rows.next
          cht := rows.cells
          written := table.written ++ RowFill.slots table.next placements } := by
  induction placements generalizing table with
  | nil =>
      rw [RowFill.slots, List.append_nil]
      rfl
  | cons placement placements ih =>
      obtain ⟨first, rest⟩ := List.forall_mem_cons.mp within
      rw [FaultLoops.foldlM_cons_ok (if_neg (Nat.not_le.mpr first)), ih rest]
      simp only [RowFill.slots, List.append_assoc, List.singleton_append]
      rfl

theorem within_of_foldlM_placeChecked
    {placements : List (ℕ × ℕ)}
    (returns : placements.foldlM (placeChecked backendCapacity) table =
      .ok final) :
    ∀ slot ∈ RowFill.slots table.next placements, slot.2 < backendCapacity := by
  induction placements generalizing table with
  | nil => simp [RowFill.slots]
  | cons placement placements ih =>
      rcases Nat.lt_or_ge (table.next placement.1) backendCapacity with room | full
      · rw [FaultLoops.foldlM_cons_ok (if_neg (Nat.not_le.mpr room))] at returns
        exact List.forall_mem_cons.mpr ⟨room, ih returns⟩
      · rw [FaultLoops.foldlM_cons_error (if_pos full)] at returns
        cases returns

theorem within_iff {placements : List (ℕ × ℕ)} :
    (∀ slot ∈ RowFill.slots (fun _ => 0) placements, slot.2 < backendCapacity) ↔
      ∀ row, (RowFill.items row placements).length ≤ backendCapacity := by
  constructor
  · intro within row
    by_contra tooMany
    exact lt_irrefl _ (within (row, backendCapacity)
      (RowFill.mem_slots.mpr ⟨Nat.zero_le _, by omega⟩))
  · rintro fits ⟨row, rank⟩ member
    obtain ⟨_, counted⟩ := RowFill.mem_slots.mp member
    have := fits row
    change rank < backendCapacity
    omega

/-! ## Results -/

theorem checkedFillCht_ok
    (atLeastTwo : 2 ≤ chtHeight)
    (fits : chtHeight * backendCapacity < 2 ^ 32)
    (room : ∀ row, (RowFill.items row
      (placements chtHeight backendCapacity)).length ≤ backendCapacity)
    (permutations next cht : ℕ → ℕ) :
    ∃ final,
      checkedFillCht chtHeight backendCapacity (some permutations) (some next)
        cht =
      .ok (some
        { next := final
          cht := chtFillCht chtHeight backendCapacity cht
          written := RowFill.slots (fun _ => 0) (placements chtHeight backendCapacity) }) := by
  obtain ⟨generated, returns, complete⟩ := generate_ok fits atLeastTwo permutations
  refine ⟨(RowFill.fill backendCapacity (placements chtHeight backendCapacity)
    { next := fun _ => 0, cells := cht }).next, ?_⟩
  unfold checkedFillCht
  simp only [returns, fillLoops_eq fits complete, bind, Except.bind]
  rw [foldlM_placeChecked_ok (within_iff.mpr room), chtFillCht_eq]
  rfl

theorem checkedFillCht_cases
    (positive : 0 < backendCapacity)
    {cht : ℕ → ℕ}
    (returns : checkedFillCht chtHeight backendCapacity permutations next cht =
      .ok outcome) :
    (permutations = none ∧ outcome = none) ∨
      (2 ≤ chtHeight ∧ chtHeight * backendCapacity < 2 ^ 32 ∧
        ((next = none ∧ outcome = none) ∨
          ∃ table, outcome = some table ∧
            (∀ row, (RowFill.items row
              (placements chtHeight backendCapacity)).length ≤
                backendCapacity) ∧
            table.cht = chtFillCht chtHeight backendCapacity cht)) := by
  unfold checkedFillCht at returns
  cases permutations with
  | none => exact Or.inl ⟨rfl, (Except.ok.inj returns).symm⟩
  | some memory =>
      dsimp only at returns
      cases generates : (List.range backendCapacity).foldlM
          (generateRow chtHeight (chtHeight * backendCapacity % 2 ^ 32)) memory with
      | error fault =>
          rw [generates] at returns
          cases returns
      | ok permutations =>
          obtain ⟨atLeastTwo, fits⟩ := of_generate_ok positive generates
          refine Or.inr ⟨atLeastTwo, fits, ?_⟩
          obtain ⟨_, generates', complete⟩ := generate_ok fits atLeastTwo memory
          obtain rfl := Except.ok.inj (generates.symm.trans generates')
          rw [generates] at returns
          cases next with
          | none => exact Or.inl ⟨rfl, (Except.ok.inj returns).symm⟩
          | some counters =>
              simp only [bind, Except.bind, fillLoops_eq fits complete] at returns
              split at returns
              · cases returns
              · rename_i fills
                have within := within_of_foldlM_placeChecked fills
                rw [foldlM_placeChecked_ok within] at fills
                cases fills
                exact Or.inr ⟨_, (Except.ok.inj returns).symm,
                  within_iff.mp within, (chtFillCht_eq ..).symm⟩

theorem of_checkedFillCht_eq_some
    (positive : 0 < backendCapacity)
    (returns : checkedFillCht chtHeight backendCapacity permutations next cht =
      .ok (some table)) :
    chtHeight * backendCapacity < 2 ^ 32 ∧
      table.cht = chtFillCht chtHeight backendCapacity cht := by
  rcases checkedFillCht_cases positive returns with
    ⟨_, impossible⟩ | ⟨_, fits, ⟨_, impossible⟩ | ⟨_, same, _, filled⟩⟩
  · cases impossible
  · cases impossible
  · cases same
    exact ⟨fits, filled⟩

/-- `MAX_CHT_HEIGHT`. -/
def maxChtHeight : ℕ := 40000

/-- For a prime height above the number of backends, every cell is written
exactly once, no row gets an entry beyond the number of backends, and every row
becomes a permutation of the backends. -/
theorem cht_fill_permutes
    {chtHeight backendCapacity : ℕ}
    (prime : chtHeight.Prime)
    (bounded : chtHeight < maxChtHeight)
    (fewer : backendCapacity < chtHeight)
    (permutations next cht : ℕ → ℕ) :
    ∃ table,
      checkedFillCht chtHeight backendCapacity (some permutations) (some next)
        cht = .ok (some table) ∧
      (table.written.map fun slot => backendCapacity * slot.1 + slot.2).Perm
        (List.range (chtHeight * backendCapacity)) ∧
      (∀ slot ∈ table.written, slot.1 < chtHeight ∧ slot.2 < backendCapacity) ∧
      ∀ row < chtHeight, ((List.range backendCapacity).map fun i =>
        table.cht (row * backendCapacity + i)).Perm
          (List.range backendCapacity) := by
  have fits : chtHeight * backendCapacity < 2 ^ 32 := by
    calc chtHeight * backendCapacity ≤ maxChtHeight * maxChtHeight :=
          Nat.mul_le_mul bounded.le (fewer.trans bounded).le
      _ < 2 ^ 32 := by decide
  have room : ∀ row, (RowFill.items row
      (placements chtHeight backendCapacity)).length ≤ backendCapacity :=
    length_items_le prime
  obtain ⟨final, returns⟩ := checkedFillCht_ok prime.two_le fits room permutations next cht
  refine ⟨_, returns, ?_, ?_, fun row inside => ?_⟩
  · exact RowFill.perm_slots (fun _ placed => placed_lt prime.pos placed)
      fun row inside => length_items_of_prime prime inside
  · rintro ⟨row, rank⟩ member
    refine ⟨?_, within_iff.mpr room _ member⟩
    by_contra outside
    obtain ⟨_, counted⟩ := RowFill.mem_slots.mp member
    rw [items_of_le prime.pos (Nat.le_of_not_lt outside)] at counted
    exact Nat.not_lt_zero _ counted
  · rw [row_chtFillCht prime inside]
    exact perm_items prime inside

/-- Filling a table of seven rows for three backends. -/
theorem cht_fill_permutes_example :
    Nat.Prime 7 ∧ ∃ table,
        checkedFillCht 7 3 (some fun _ => 0) (some fun _ => 0) (fun _ => 0) =
          .ok (some table) ∧
      (table.written.map fun slot => 3 * slot.1 + slot.2).Perm
        (List.range (7 * 3)) ∧
      (∀ slot ∈ table.written, slot.1 < 7 ∧ slot.2 < 3) ∧
      ∀ row < 7, ((List.range 3).map fun i => table.cht (row * 3 + i)).Perm
        (List.range 3) :=
  ⟨by decide, cht_fill_permutes (by decide) (by decide) (by decide) _ _ _⟩

theorem pos_of_positiveOption (accepted : positiveOption value = some stored) :
    0 < stored := by
  unfold positiveOption at accepted
  dsimp only at accepted
  split at accepted
  · cases accepted
  · have := Option.some.inj accepted
    omega

theorem room_iff
    (positive : 0 < chtHeight)
    (backendCapacity : ℕ) :
    (∀ row, (RowFill.items row (placements chtHeight backendCapacity)).length ≤
        backendCapacity) ↔
      ∀ row < chtHeight,
        ∑ backend ∈ Finset.range backendCapacity, share chtHeight backend row ≤
          backendCapacity := by
  constructor
  · intro room row inside
    rw [← length_items inside]
    exact room row
  · intro room row
    rcases Nat.lt_or_ge row chtHeight with inside | outside
    · rw [length_items inside]
      exact room row inside
    · rw [items_of_le positive outside]
      exact Nat.zero_le _

/-- Filling an accepted table computes no remainder by zero, stays inside its
arrays and writes no priority beyond the number of backends, if and only if
there is no memory for the permutations, or the height is at least two, the size
of the table fits into 32 bits, and there is no memory for the counters or no
row gets more entries than there are backends. -/
theorem cht_fill_safe_iff
    {heightValue capacityValue : ℤ}
    {chtHeight backendCapacity : ℕ}
    (heightAccepted : positiveOption heightValue = some chtHeight)
    (capacityAccepted : positiveOption capacityValue = some backendCapacity)
    (permutations next : Option (ℕ → ℕ))
    (cht : ℕ → ℕ) :
    (∃ outcome, checkedFillCht chtHeight backendCapacity permutations next cht =
        .ok outcome) ↔
      permutations = none ∨
        (2 ≤ chtHeight ∧ chtHeight * backendCapacity < 2 ^ 32 ∧
          (next = none ∨ ∀ row < chtHeight,
            ∑ backend ∈ Finset.range backendCapacity,
              share chtHeight backend row ≤ backendCapacity)) := by
  have positive := pos_of_positiveOption heightAccepted
  have someBackend := pos_of_positiveOption capacityAccepted
  constructor
  · rintro ⟨outcome, returns⟩
    rcases checkedFillCht_cases someBackend returns with
      ⟨noMemory, _⟩ | ⟨atLeastTwo, fits, ⟨noCounters, _⟩ | ⟨_, _, room, _⟩⟩
    · exact Or.inl noMemory
    · exact Or.inr ⟨atLeastTwo, fits, Or.inl noCounters⟩
    · exact Or.inr ⟨atLeastTwo, fits, Or.inr ((room_iff positive _).mp room)⟩
  · rintro (rfl | ⟨atLeastTwo, fits, enough⟩)
    · exact ⟨none, rfl⟩
    cases permutations with
    | none => exact ⟨none, rfl⟩
    | some memory =>
        cases next with
        | none =>
            obtain ⟨_, generates, _⟩ := generate_ok fits atLeastTwo memory
            refine ⟨none, ?_⟩
            unfold checkedFillCht
            simp only [generates, bind, Except.bind]
            rfl
        | some counters =>
            obtain ⟨final, returns⟩ := checkedFillCht_ok atLeastTwo fits
              ((room_iff positive _).mpr (enough.resolve_left (by simp))) memory counters
              cht
            exact ⟨_, returns⟩

/-- A prime height, and a height that is not prime with backends whose shares
are even. -/
theorem cht_fill_safe_example :
    (∃ outcome, checkedFillCht 7 3 (some fun _ => 0) (some fun _ => 0)
      (fun _ => 0) = .ok outcome) ∧
    ∃ outcome,
      checkedFillCht 4 5 (some fun _ => 0) (some fun _ => 0) (fun _ => 0) =
      .ok outcome :=
  ⟨(cht_fill_safe_iff (show positiveOption 7 = some 7 by decide)
      (show positiveOption 3 = some 3 by decide) _ _ _).mpr
      (.inr ⟨by decide, by decide, .inr (by decide)⟩),
    (cht_fill_safe_iff (show positiveOption 4 = some 4 by decide)
      (show positiveOption 5 = some 5 by decide) _ _ _).mpr
      (.inr ⟨by decide, by decide, .inr (by decide)⟩)⟩

/-- The parser accepts a height of one, for which a remainder by zero is
computed, and a height of four with two backends, for which a row gets a third
entry. -/
theorem cht_fill_unsafe_accepted :
    positiveOption 1 = some 1 ∧ positiveOption 2 = some 2 ∧
      positiveOption 4 = some 4 ∧
      checkedFillCht 1 1 (some fun _ => 0) (some fun _ => 0) (fun _ => 0) =
        .error .remainderByZero ∧
      checkedFillCht 4 2 (some fun _ => 0) (some fun _ => 0) (fun _ => 0) =
        .error .spill :=
  ⟨by decide, by decide, by decide, rfl, rfl⟩

end Cht
end Vigor
