import Vigor.Validator.Nodes

/-!
# The comparison of terms

`term_eq` compares terms up to their types and up to the order of the sides of
an equality. It is symmetric and transitive.  It has no case for two null
pointers, so a term is the same as itself only if there is no null pointer in
it.
-/

namespace Vigor
namespace Validator

/-- The children of two nodes agree one by one. -/
def ChildrenEq (first second : List Tterm) : Prop :=
  List.Forall₂ (fun a b => termEq a.v b.v = true) first second

@[simp] theorem childrenEq_nil : ChildrenEq [] [] :=
  .nil

@[simp] theorem childrenEq_singleton (a b : Tterm) :
    ChildrenEq [a] [b] ↔ termEq a.v b.v = true := by
  simp [ChildrenEq]

@[simp] theorem childrenEq_pair (lhsa rhsa lhsb rhsb : Tterm) :
    ChildrenEq [lhsa, rhsa] [lhsb, rhsb] ↔
      termEq lhsa.v lhsb.v = true ∧ termEq rhsa.v rhsb.v = true := by
  simp [ChildrenEq]

theorem ttermEq_eq (a b : Tterm) : ttermEq a b = termEq a.v b.v := by
  cases a
  rfl

theorem ttermsEq_iff (first second : List Tterm) :
    ttermsEq first second = true ↔ ChildrenEq first second := by
  unfold ChildrenEq
  induction first generalizing second with
  | nil => cases second <;> simp [ttermsEq]
  | cons a first ih =>
      cases second with
      | nil => simp [ttermsEq]
      | cons b second => simp [ttermsEq, ttermEq_eq, ih]

theorem fieldsEq_iff (first second : List VarSpec) :
    fieldsEq first second = true ↔
      first.map VarSpec.name = second.map VarSpec.name ∧
        ChildrenEq (first.map VarSpec.value) (second.map VarSpec.value) := by
  unfold ChildrenEq
  induction first generalizing second with
  | nil => cases second <;> simp [fieldsEq]
  | cons a first ih =>
      cases second with
      | nil => simp [fieldsEq]
      | cons b second =>
          cases a
          simp only [fieldsEq, fieldEq, ttermEq_eq, Bool.and_eq_true, decide_eq_true_eq,
            ih, List.map_cons, List.cons.injEq, List.forall₂_cons]
          tauto

/-- Two terms are the same if their heads are, and their children in the order
in which they stand, or, for an equality, in the other order. -/
theorem termEq_iff (a b : Term) :
    termEq a b = true ↔
      a.head = b.head ∧ a.head ≠ .zeroptr ∧
        (ChildrenEq a.children b.children ∨
          a.head = .bop .eq ∧ ChildrenEq a.children b.children.reverse) := by
  cases a <;> cases b
  case bop.bop opa lhsa rhsa opb lhsb rhsb =>
    rw [termEq]
    simp only [Term.head, Term.children, ttermEq_eq, childrenEq_pair, Head.bop.injEq, ne_eq,
      reduceCtorEq, not_false_eq_true, true_and, List.reverse_cons, List.reverse_nil,
      List.nil_append, List.cons_append]
    by_cases both : opa = .eq ∧ opb = .eq
    · obtain ⟨rfl, rfl⟩ := both
      simp
    · rw [if_neg both]
      simp only [Bool.and_eq_true, decide_eq_true_eq]
      constructor
      · rintro ⟨⟨sameOp, left⟩, right⟩
        exact ⟨sameOp, .inl ⟨left, right⟩⟩
      · rintro ⟨rfl, ⟨left, right⟩ | ⟨isEq, _⟩⟩
        · exact ⟨⟨rfl, left⟩, right⟩
        · exact absurd ⟨isEq, isEq⟩ both
  case apply.apply fa argsa fb argsb =>
    rw [termEq]
    simp only [Term.head, Term.children, Bool.and_eq_true, decide_eq_true_eq, ttermsEq_iff,
      Head.apply.injEq, ne_eq, reduceCtorEq, not_false_eq_true, false_and, or_false, true_and]
    constructor
    · rintro ⟨⟨same, _⟩, agree⟩
      exact ⟨same, agree⟩
    · rintro ⟨same, agree⟩
      exact ⟨⟨same, agree.length_eq⟩, agree⟩
  case struct.struct sna fdsa snb fdsb =>
    rw [termEq]
    simp only [Term.head, Term.children, Bool.and_eq_true, decide_eq_true_eq, fieldsEq_iff,
      Head.struct.injEq, ne_eq, reduceCtorEq, not_false_eq_true, false_and, or_false, true_and]
    constructor
    · rintro ⟨⟨same, _⟩, names, agree⟩
      exact ⟨⟨same, names⟩, agree⟩
    · rintro ⟨⟨same, names⟩, agree⟩
      have lengths := agree.length_eq
      rw [List.length_map, List.length_map] at lengths
      exact ⟨⟨same, lengths⟩, names, agree⟩
  case array.array cellsA cellsB =>
    rw [termEq]
    simp only [Term.head, Term.children, Bool.and_eq_true, decide_eq_true_eq, ttermsEq_iff,
      ne_eq, reduceCtorEq, not_false_eq_true, false_and, or_false, true_and]
    exact ⟨fun both => both.2, fun agree => ⟨agree.length_eq, agree⟩⟩
  case utility.utility ua ub =>
    cases ua
    cases ub
    simp [termEq, termUtilityEq, Term.head, Term.children]
  case zeroptr.zeroptr =>
    exact iff_of_false Bool.false_ne_true (fun same => same.2.1 rfl)
  case not.not | deref.deref | addr.addr | strIdx.strIdx | cast.cast =>
    simp [termEq, Term.head, Term.children, ttermEq_eq, and_comm]
  case id.id | int.int | bool.bool | fptr.fptr | undef.undef =>
    simp [termEq, Term.head, Term.children]
  all_goals
    refine iff_of_false Bool.false_ne_true (fun same => ?_)
    cases same.1

/-! ## Equivalence -/

namespace ChildrenEq

variable {first second third : List Tterm}

theorem symm_of
    (childSymm : ∀ child ∈ first, ∀ b,
      termEq child.v b = true → termEq b child.v = true)
    (agree : ChildrenEq first second) : ChildrenEq second first := by
  induction agree with
  | nil => exact .nil
  | cons same _ ih =>
      obtain ⟨here, rest⟩ := List.forall_mem_cons.mp childSymm
      exact .cons (here _ same) (ih rest)

theorem trans_of
    (childTrans : ∀ child ∈ first, ∀ b c,
        termEq child.v b = true → termEq b c = true →
      termEq child.v c = true)
    (agree : ChildrenEq first second)
    (agreeNext : ChildrenEq second third) :
    ChildrenEq first third := by
  induction agree generalizing third with
  | nil => exact agreeNext
  | cons same _ ih =>
      obtain ⟨here, rest⟩ := List.forall_mem_cons.mp childTrans
      cases agreeNext with
      | cons sameNext agreeNext => exact .cons (here _ _ same sameNext) (ih rest agreeNext)

theorem reverse (agree : ChildrenEq first second) :
    ChildrenEq first.reverse second.reverse :=
  List.forall₂_reverse_iff.mpr agree

end ChildrenEq

theorem termEq_symm
    {a b : Term}
    (same : termEq a b = true) :
    termEq b a = true := by
  induction a using Term.induction generalizing b with
  | step a ih =>
      have childSymm : ∀ child ∈ a.children, ∀ b, termEq child.v b = true →
          termEq b child.v = true := fun child member b => ih child member
      rw [termEq_iff] at same ⊢
      obtain ⟨sameHead, notNull, straight | ⟨isEq, swapped⟩⟩ := same
      · exact ⟨sameHead.symm, sameHead ▸ notNull, .inl (straight.symm_of childSymm)⟩
      · have back := (swapped.symm_of childSymm).reverse
        rw [List.reverse_reverse] at back
        exact ⟨sameHead.symm, sameHead ▸ notNull, .inr ⟨sameHead ▸ isEq, back⟩⟩

theorem termEq_trans
    (same : termEq a b = true)
    (sameNext : termEq b c = true) :
    termEq a c = true := by
  induction a using Term.induction generalizing b c with
  | step a ih =>
      have childTrans : ∀ child ∈ a.children, ∀ b c, termEq child.v b = true →
          termEq b c = true → termEq child.v c = true :=
        fun child member b c => ih child member
      rw [termEq_iff] at same sameNext ⊢
      obtain ⟨sameHead, notNull, way⟩ := same
      obtain ⟨nextHead, _, nextWay⟩ := sameNext
      refine ⟨sameHead.trans nextHead, notNull, ?_⟩
      -- Two swaps cancel.
      rcases way with straight | ⟨isEq, swapped⟩ <;>
        rcases nextWay with nextStraight | ⟨nextIsEq, nextSwapped⟩
      · exact .inl (straight.trans_of childTrans nextStraight)
      · exact .inr ⟨sameHead ▸ nextIsEq, straight.trans_of childTrans nextSwapped⟩
      · exact .inr ⟨isEq, swapped.trans_of childTrans nextStraight.reverse⟩
      · have back := nextSwapped.reverse
        rw [List.reverse_reverse] at back
        exact .inl (swapped.trans_of childTrans back)

/-- There is no null pointer in the term. -/
def Term.NullFree (term : Term) : Prop :=
  term.Everywhere fun inside => inside ≠ .zeroptr

theorem head_ne_zeroptr_iff (term : Term) :
    term.head ≠ .zeroptr ↔ term ≠ .zeroptr := by
  cases term <;> simp [Term.head]

theorem termEq_self_iff (a : Term) : termEq a a = true ↔ a.NullFree := by
  induction a using Term.induction with
  | step a ih =>
      have children : ChildrenEq a.children a.children ↔
          ∀ child ∈ a.children, child.v.NullFree := by
        unfold ChildrenEq
        rw [List.forall₂_same]
        exact forall₂_congr ih
      unfold Term.NullFree
      rw [Term.everywhere_iff, termEq_iff, head_ne_zeroptr_iff]
      constructor
      · rintro ⟨-, notNull, straight | ⟨-, swapped⟩⟩
        · exact ⟨notNull, children.mp straight⟩
        · -- Both sides are the same as the other one, and so as themselves.
          have back := swapped.reverse
          rw [List.reverse_reverse] at back
          exact ⟨notNull, children.mp (swapped.trans_of (fun _ _ _ _ => termEq_trans) back)⟩
      · rintro ⟨notNull, inside⟩
        exact ⟨rfl, notNull, .inl (children.mpr inside)⟩

/-- On terms without null pointers the comparison is an equivalence. -/
theorem termEq_equivalence :
    Equivalence fun a b : {term : Term // term.NullFree} =>
      termEq a.1 b.1 = true where
  refl a := (termEq_self_iff a.1).mpr a.2
  symm := termEq_symm
  trans := termEq_trans

/-- The laws of an equivalence hold for three terms just if the first one is the
same as itself, and that is so if there is no null pointer in it. -/
theorem termEq_laws_iff (a b c : Term) :
    (termEq a a = true ∧ (termEq a b = true → termEq b a = true) ∧
      (termEq a b = true → termEq b c = true → termEq a c = true)) ↔
        a.NullFree := by
  rw [← termEq_self_iff]
  constructor
  · rintro ⟨reflexive, -⟩
    exact reflexive
  · intro reflexive
    exact ⟨reflexive, termEq_symm, termEq_trans⟩

/-- A null pointer is not the same as itself. -/
theorem zeroptr_not_reflexive :
    ¬∀ a b c : Term,
        termEq a a = true ∧ (termEq a b = true → termEq b a = true) ∧
      (termEq a b = true → termEq b c = true → termEq a c = true) := by
  intro laws
  have reflexive := (laws .zeroptr .zeroptr .zeroptr).1
  cases reflexive

end Validator
end Vigor
