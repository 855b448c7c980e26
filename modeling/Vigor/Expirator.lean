import Vigor.DoubleChain.Timed
import Vigor.Library.Fuelled

/-!
# The expiry loop of `expirator.c`

`expire_items` and `expire_items_single_map` are one loop with two ways to
erase the entry of an index.  The loop here takes the erasure as a parameter.
Its contract holds for any structure that stays related to a table of entries
when the entry of the oldest index is erased.
-/

namespace Vigor
namespace Expirator

open DoubleChain

variable {σ : Type v}

/-- One round: free the oldest index if it is old, and erase its entry. -/
def expireRound
    (erase : ℤ → σ → σ)
    (time : ℤ)
    (state : ℤ × DoubleChain × σ) :
    Fuelled (Fuelled.Round (ℤ × DoubleChain × σ) (ℤ × DoubleChain × σ)) :=
  let (count, chain, store) := state
  match dchainExpireOneIndex chain time with
  | (some index, chain) =>
      pure (.next (count + 1, chain, erase index store))
  | (none, chain) => pure (.done (count, chain, store))

/-- The loop, with the number of erased entries. -/
def expireLoop
    (erase : ℤ → σ → σ)
    (time : ℤ)
    (chain : DoubleChain)
    (store : σ) : Fuelled (ℤ × DoubleChain × σ) :=
  Fuelled.loop (expireRound erase time) (0, chain, store)

/-- A relation between a chain with a store and a table of entries that
survives the erasure of the oldest entry on both sides. -/
structure Erases
    {capacity : Nat}
    {V : Type u}
    (erase : ℤ → σ → σ)
    (related : DoubleChain → σ → IndexTable capacity V → Prop) : Prop where
  tracks : ∀ {chain store table}, related chain store table →
    chain.Tracks table
  erased : ∀ {chain store table index rest}, related chain store table →
    table.alloc = index :: rest →
      related (dchainFreeIndex chain index).2 (erase index store)
        (table.remove index)

variable {capacity : Nat} {V : Type u} {erase : ℤ → σ → σ}
  {chain : DoubleChain} {table : IndexTable capacity V} {time : ℤ}

theorem expireRound_of_old
    (tracks : chain.Tracks table)
    (oldest : table.alloc = index :: rest)
    (old : table.time index < time)
    (count : ℤ)
    (store : σ) :
    (expireRound erase time (count, chain, store)).Returns
      (.next (count + 1, (dchainFreeIndex chain index).2,
        erase index store)) := by
  rw [expireRound, tracks.dchainExpireOneIndex_of_old oldest old]
  exact Fuelled.returns_pure _

theorem expireRound_of_fresh
    (erase : ℤ → σ → σ)
    (tracks : chain.Tracks table)
    (fresh : ∀ index ∈ table.alloc.head?, time ≤ table.time index)
    (count : ℤ)
    (store : σ) :
    (expireRound erase time (count, chain, store)).Returns
      (.done (count, chain, store)) := by
  rw [expireRound, tracks.dchainExpireOneIndex_of_fresh fresh]
  exact Fuelled.returns_pure _

section

variable {related : DoubleChain → σ → IndexTable capacity V → Prop} (erases : Erases erase related)

include erases

/-- The loop stops at an oldest index that is not old. -/
theorem Erases.loop_returns_of_fresh
    (fresh : ∀ index ∈ table.alloc.head?, time ≤ table.time index)
    (count : ℤ)
    (initially : related chain store table) :
    ∃ chain' store',
      (Fuelled.loop (expireRound erase time) (count, chain, store)).Returns
        (count + (table.expired time).length, chain', store') ∧
      related chain' store' (table.expire time) := by
  obtain ⟨nothing, unchanged⟩ := IndexTable.expire_of_fresh fresh
  have leaves := expireRound_of_fresh erase (erases.tracks initially) fresh count store
  refine ⟨chain, store, ?_, unchanged.symm ▸ initially⟩
  simpa [nothing] using Fuelled.loop_returns_of_done leaves

theorem Erases.loop_returns
    (time : ℤ)
    (indexes : List ℤ)
    (count : ℤ)
    (shape : table.alloc = indexes)
    (initially : related chain store table) :
    ∃ chain' store',
      (Fuelled.loop (expireRound erase time) (count, chain, store)).Returns
        (count + (table.expired time).length, chain', store') ∧
      related chain' store' (table.expire time) := by
  induction indexes generalizing chain store table count with
  | nil =>
      have fresh : ∀ index ∈ table.alloc.head?, time ≤ table.time index := by
        simp [shape]
      exact erases.loop_returns_of_fresh fresh count initially
  | cons index rest ih =>
      by_cases old : table.time index < time
      · have shorter : (table.remove index).alloc = rest := by
          rw [IndexTable.alloc_remove (by simp [shape]), shape]
          simp
        obtain ⟨chain', store', returns, kept⟩ := ih
          (count + 1) shorter (erases.erased initially shape)
        obtain ⟨expired, remaining⟩ := IndexTable.expire_of_old shape old
        refine ⟨chain', store', ?_, remaining.symm ▸ kept⟩
        have total : count + (table.expired time).length =
            count + 1 + ((table.remove index).expired time).length := by
          rw [expired, List.length_cons]
          omega
        rw [total]
        exact Fuelled.loop_returns_of_next
          (expireRound_of_old (erases.tracks initially) shape old count store)
          returns
      · have fresh : ∀ index ∈ table.alloc.head?, time ≤ table.time index := by
          intro first isFirst
          rw [shape] at isFirst
          obtain rfl : index = first := by simpa using isFirst
          exact Int.not_lt.mp old
        exact erases.loop_returns_of_fresh fresh count initially

theorem Erases.expireLoop_returns
    (time : ℤ)
    (initially : related chain store table) :
    ∃ chain' store',
      (expireLoop erase time chain store).Returns
        ((table.expired time).length, chain', store') ∧
      related chain' store' (table.expire time) := by
  have returns := erases.loop_returns time table.alloc 0 rfl initially
  rw [Int.zero_add] at returns
  exact returns

end

end Expirator
end Vigor
