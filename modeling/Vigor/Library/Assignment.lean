import Mathlib.Algebra.BigOperators.Group.List.Basic
import Mathlib.Data.List.Nodup

/-!
# Assignments

A table gives an owner to each of a list of numbered items.  It is filled by
writes to places, and every owner has the total weight of its items.
-/

namespace Assignment

variable {O : Type*}

/-! ## Writes -/

/-- The table after writes to some places, one after the other. -/
def write
    (writes : List (ℕ × O))
    (table : List O) : List O :=
  writes.foldl (fun table entry => table.set entry.1 entry.2) table

theorem write_cons
    (entry : ℕ × O)
    (writes : List (ℕ × O))
    (table : List O) :
    write (entry :: writes) table = write writes (table.set entry.1 entry.2) :=
  rfl

@[simp] theorem length_write
    (writes : List (ℕ × O))
    (table : List O) :
    (write writes table).length = table.length := by
  induction writes generalizing table with
  | nil => rfl
  | cons entry writes ih => rw [write_cons, ih, List.length_set]

theorem getElem?_write_of_not_mem
    {writes : List (ℕ × O)}
    {place : ℕ}
    (absent : place ∉ writes.map Prod.fst)
    (table : List O) :
    (write writes table)[place]? = table[place]? := by
  induction writes generalizing table with
  | nil => rfl
  | cons entry writes ih =>
      rw [List.map_cons, List.mem_cons, not_or] at absent
      rw [write_cons, ih absent.2, List.getElem?_set_ne (Ne.symm absent.1)]

/-- A place that is written once has what was written. -/
theorem getElem?_write_of_mem
    {writes : List (ℕ × O)}
    (distinct : (writes.map Prod.fst).Nodup)
    {entry : ℕ × O}
    (member : entry ∈ writes)
    {table : List O}
    (inside : entry.1 < table.length) :
    (write writes table)[entry.1]? = some entry.2 := by
  induction writes generalizing table with
  | nil => cases member
  | cons first writes ih =>
      obtain ⟨notAgain, distinctRest⟩ := List.nodup_cons.mp distinct
      rw [write_cons]
      rcases List.mem_cons.mp member with rfl | later
      · rw [getElem?_write_of_not_mem notAgain, List.getElem?_set_self inside]
      · apply ih distinctRest later
        rw [List.length_set]
        exact inside

/-! ## Items of an owner -/

theorem flatMap_filter_perm
    {ι : Type*}
    (owner : ι → ℕ)
    (items : List ι)
    (count : ℕ) :
    ((List.range count).flatMap fun number => items.filter fun item =>
      owner item = number).Perm
      (items.filter fun item => owner item < count) := by
  induction count with
  | zero => simp
  | succ count ih =>
      have lower : (items.filter fun item => owner item < count + 1).filter
          (fun item => owner item < count) = items.filter fun item => owner item < count := by
        rw [List.filter_filter]
        apply List.filter_congr
        intro item _
        rw [← Bool.decide_and, decide_eq_decide]
        omega
      have last : (items.filter fun item => owner item < count + 1).filter
          (fun item => !decide (owner item < count)) =
            items.filter fun item => owner item = count := by
        rw [List.filter_filter]
        apply List.filter_congr
        intro item _
        rw [← decide_not, ← Bool.decide_and, decide_eq_decide]
        omega
      have parts := List.filter_append_perm (fun item => decide (owner item < count))
        (items.filter fun item => owner item < count + 1)
      rw [lower, last] at parts
      rw [List.range_succ, List.flatMap_append, List.flatMap_singleton]
      exact (ih.append_right _).trans parts

/-! ## Totals -/

variable [DecidableEq O] {W : Type*} [AddCommMonoid W]

/-- The weight of the items of an owner. -/
def total
    (table : List O)
    (weights : List W)
    (owner : O) : W :=
  ((table.zip weights).map fun entry => if entry.1 = owner then entry.2 else 0).sum

end Assignment
