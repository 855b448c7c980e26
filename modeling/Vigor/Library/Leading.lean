import Mathlib.Data.List.Nodup

/-!
# Chosen elements at the front

The elements of a list that are chosen by a predicate can be compared with as
many elements from the front of the list.  Both are the same if no other element
precedes a chosen one. Otherwise already the last chosen element is not among
the first ones.
-/

namespace Leading

variable {α β : Type*}

/-- No other element precedes a chosen one. -/
def Leads
    (chosen : α → Bool)
    (list : List α) : Prop :=
  list.Pairwise fun earlier later => chosen later → chosen earlier

instance (chosen : α → Bool) (list : List α) : Decidable (Leads chosen list) :=
  inferInstanceAs (Decidable (List.Pairwise _ _))

variable {chosen : α → Bool} {list : List α}

/-- The chosen elements are the first ones. -/
theorem Leads.filter_eq_take (leads : Leads chosen list) :
    list.filter chosen = list.take (list.filter chosen).length := by
  induction list with
  | nil => rfl
  | cons first rest ih =>
      have others := List.pairwise_cons.mp leads
      by_cases isChosen : chosen first
      · rw [List.filter_cons_of_pos isChosen, List.length_cons, List.take_succ_cons]
        exact congrArg _ (ih others.2)
      · have none : rest.filter chosen = [] := by
          apply List.filter_eq_nil_iff.mpr
          intro element member isChosen'
          exact isChosen (others.1 element member isChosen')
        rw [List.filter_cons_of_neg isChosen, none]
        rfl

theorem leads_append
    (all : ∀ element ∈ front, chosen element)
    (none : ∀ element ∈ back, ¬chosen element) :
    Leads chosen (front ++ back) := by
  apply List.pairwise_append.mpr
  refine ⟨?_, ?_, ?_⟩
  · exact List.pairwise_of_forall_mem_list fun earlier member _ _ _ => all earlier member
  · exact List.pairwise_of_forall_mem_list fun _ _ later member isChosen =>
      absurd isChosen (none later member)
  · intro earlier member _ _ _
    exact all earlier member

theorem leads_of_last_mem
    {name : α → β}
    (distinct : (list.map name).Nodup)
    {last : α}
    (isLast : (list.filter chosen).getLast? = some last)
    (early : name last ∈ (list.take (list.filter chosen).length).map name) :
    Leads chosen list := by
  obtain ⟨other, otherEarly, sameName⟩ := List.mem_map.mp early
  have lastMem : last ∈ list := List.mem_of_mem_filter (List.mem_of_getLast? isLast)
  have same : other = last :=
    List.inj_on_of_nodup_map distinct (List.mem_of_mem_take otherEarly) lastMem sameName
  subst same
  generalize count : (list.filter chosen).length = k at otherEarly
  have parts : list.take k ++ list.drop k = list := List.take_append_drop k list
  have filtered : (list.take k).filter chosen ++ (list.drop k).filter chosen =
      list.filter chosen := by
    rw [← List.filter_append, parts]
  -- A chosen element further back would be behind the last one.
  have none : (list.drop k).filter chosen = [] := by
    by_contra some
    rw [← filtered, List.getLast?_append_of_ne_nil _ some] at isLast
    exact List.disjoint_take_drop distinct.of_map (Nat.le_refl k) otherEarly
      (List.mem_of_mem_filter (List.mem_of_getLast? isLast))
  rw [none, List.append_nil] at filtered
  have full : (list.take k).filter chosen = list.take k := by
    apply List.filter_sublist.eq_of_length_le
    rw [filtered, count]
    exact List.length_take_le k list
  rw [← parts]
  exact leads_append (List.filter_eq_self.mp full) (List.filter_eq_nil_iff.mp none)

end Leading
