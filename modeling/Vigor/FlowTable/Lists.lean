import Vigor.FlowTable.Impl

/-!
# Maps over some cells of a vector

A map whose capacity need not be that of the chain, over the cells that a list
names.  The value of a cell is its label.
-/

namespace Vigor
namespace KeyedMap

variable {K : Type u} {build : Map.Build} {ops : Map.KeyOps K} {label : ℤ → ℤ}
  {keys : KeyedMap K} {cells : List ℤ}

/-- The map refers to the listed cells, and all calls so far met their
preconditions. -/
structure Lists
    (build : Map.Build)
    (ops : Map.KeyOps K)
    (label : ℤ → ℤ)
    (keys : KeyedMap K)
    (cells : List ℤ) : Prop where
  refers : keys.map.Refers build ops keys.vector label cells
  safe : ∀ call ∈ keys.calls, call.Safe build ops

namespace Lists

theorem of_perm
    (lists : keys.Lists build ops label cells)
    (permuted : others.Perm cells) :
    keys.Lists build ops label others :=
  ⟨lists.refers.of_perm permuted, lists.safe⟩

theorem erase
    (lists : keys.Lists build ops label cells)
    (nodup : cells.Nodup)
    (listed : cell ∈ cells) :
    (keys.erase build ops (.cell cell)).Lists build ops label
      (cells.erase cell) := by
  have equal : ops.eq (keys.vector cell) ((KeyRef.cell cell).deref keys.vector) =
      true := ops.eq_refl _
  refine ⟨(lists.refers.mapErase nodup listed equal).2, fun call member => ?_⟩
  rcases List.mem_cons.mp member with rfl | earlier
  · intro missing
    have found := lists.refers.mapGet_eq_some_iff.mpr ⟨cell, listed, rfl, equal⟩
    exact Option.some_ne_none _ (found.symm.trans missing)
  · exact lists.safe call earlier

theorem foldl_erase
    (lists : keys.Lists build ops label (cells ++ erased))
    (nodup : (cells ++ erased).Nodup) :
    (erased.foldl (fun keys cell => keys.erase build ops (.cell cell))
      keys).Lists build ops label cells := by
  induction erased generalizing keys with
  | nil => simpa using lists
  | cons cell erased ih =>
      have moved : (cells ++ erased).Perm ((cells ++ cell :: erased).erase cell) := by
        exact (List.perm_middle.symm.trans (List.perm_cons_erase (by simp))).cons_inv
      apply ih
      · exact (lists.erase nodup (by simp)).of_perm moved
      · exact moved.nodup_iff.mpr (nodup.erase cell)

theorem write_put
    (lists : keys.Lists build ops label cells)
    (unlisted : cell ∉ cells)
    (key : K)
    (absent : ∀ other ∈ cells, ops.eq (keys.vector other) key = false)
    (room : cells.length < keys.map.capacity) :
    ((keys.write cell key).put build ops (.cell cell) (label cell)).Lists
      build ops label (cells ++ [cell]) := by
  have same : ∀ other ∈ cells,
      Function.update keys.vector cell key other = keys.vector other := by
    intro other listed
    refine Function.update_of_ne ?_ ..
    rintro rfl
    exact unlisted listed
  obtain ⟨stillAbsent, refers⟩ := lists.refers.mapPut_written same
    (fun other listed => by
      rw [Function.update_self]
      exact absent other listed) room
  refine ⟨refers, fun call member => ?_⟩
  rcases List.mem_cons.mp member with rfl | earlier
  · exact ⟨stillAbsent, lists.refers.size_eq.trans_lt room⟩
  rcases List.mem_cons.mp earlier with rfl | earlier
  · intro value held
    obtain ⟨other, listed, isCell, _⟩ := (lists.refers.holds_iff _ _).mp held
    exact unlisted (KeyRef.cell.inj isCell ▸ listed)
  · exact lists.safe call earlier

end Lists

end KeyedMap
end Vigor
