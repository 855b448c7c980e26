import Vigor.Validator.Nodes

/-!
# Simplified terms

`simplify_tterm` goes through a term from its leaves to its root and rewrites
each node at most once.  A rewritten node is one of its grandchildren, or it has
its children in another order, and these are already simplified.  So the result
has no node that could be rewritten.
-/

namespace Vigor
namespace Validator

/-! ## Traversals -/

section Traversal

variable {f : Tterm → Attempt Error (Option Tterm)}

/-- One step of a traversal per child. -/
def ChildrenGive
    (f : Tterm → Attempt Error (Option Tterm))
    (first second : List Tterm) :
    Prop :=
  List.Forall₂ (fun child child' => (callRecursivelyOnTterm f child).Gives child') first second

theorem callOnTterms_gives_iff {first second : List Tterm} :
    (callOnTterms f first).Gives second ↔ ChildrenGive f first second := by
  unfold ChildrenGive
  induction first generalizing second with
  | nil =>
      rw [callOnTterms, Attempt.gives_pure_iff, List.forall₂_nil_left_iff]
      exact eq_comm
  | cons child first ih =>
      rw [callOnTterms]
      simp only [Attempt.gives_bind_iff, Attempt.gives_pure_iff, ih, List.forall₂_cons_left_iff]
      constructor
      · rintro ⟨child', gives, rest, givesRest, rfl⟩
        exact ⟨child', rest, gives, givesRest, rfl⟩
      · rintro ⟨child', rest, gives, givesRest, rfl⟩
        exact ⟨child', gives, rest, givesRest, rfl⟩

theorem callOnFields_gives (gives : (callOnFields f first).Gives second) :
    second.map VarSpec.name = first.map VarSpec.name ∧
      ChildrenGive f (first.map VarSpec.value) (second.map VarSpec.value) := by
  unfold ChildrenGive
  induction first generalizing second with
  | nil =>
      rw [callOnFields, Attempt.gives_pure_iff] at gives
      subst gives
      exact ⟨rfl, .nil⟩
  | cons field first ih =>
      cases field with
      | mk name value =>
          simp only [callOnFields, callOnField, Attempt.gives_bind_iff,
            Attempt.gives_pure_iff] at gives
          obtain ⟨_, ⟨value', givesValue, rfl⟩, rest, givesRest, rfl⟩ := gives
          obtain ⟨names, values⟩ := ih givesRest
          refine ⟨?_, .cons givesValue values⟩
          rw [List.map_cons, List.map_cons, names]

/-- A traversal keeps the head of a node. -/
theorem callOnChildren_gives (gives : (callOnChildren f v).Gives v') :
    v'.head = v.head ∧ ChildrenGive f v.children v'.children := by
  cases v <;>
    simp only [callOnChildren, Attempt.gives_bind_iff, Attempt.gives_pure_iff,
      callOnTterms_gives_iff] at gives
  case bop =>
    obtain ⟨lhs, givesLhs, rhs, givesRhs, rfl⟩ := gives
    exact ⟨rfl, .cons givesLhs (.cons givesRhs .nil)⟩
  case apply | array =>
    obtain ⟨args, givesArgs, rfl⟩ := gives
    exact ⟨rfl, givesArgs⟩
  case struct =>
    obtain ⟨fields, givesFields, rfl⟩ := gives
    obtain ⟨names, values⟩ := callOnFields_gives givesFields
    refine ⟨?_, values⟩
    rw [Term.head, Term.head, names]
  case not | strIdx | deref | addr | cast =>
    obtain ⟨child, givesChild, rfl⟩ := gives
    exact ⟨rfl, .cons givesChild .nil⟩
  all_goals
    subst gives
    exact ⟨rfl, .nil⟩

theorem callOnFields_self
    (give : ∀ field ∈ fields,
      (callRecursivelyOnTterm f field.value).Gives field.value) :
    (callOnFields f fields).Gives fields := by
  induction fields with
  | nil => rfl
  | cons field fields ih =>
      obtain ⟨here, rest⟩ := List.forall_mem_cons.mp give
      cases field with
      | mk name value =>
          simp only [callOnFields, callOnField, Attempt.gives_bind_iff, Attempt.gives_pure_iff]
          exact ⟨_, ⟨value, here, rfl⟩, fields, ih rest, rfl⟩

theorem callOnChildren_self
    (give : ∀ child ∈ v.children,
      (callRecursivelyOnTterm f child).Gives child) :
    (callOnChildren f v).Gives v := by
  have lists : ∀ {tterms : List Tterm},
      (∀ child ∈ tterms, (callRecursivelyOnTterm f child).Gives child) →
        (callOnTterms f tterms).Gives tterms := fun give =>
    callOnTterms_gives_iff.mpr (List.forall₂_same.mpr give)
  cases v <;> simp only [callOnChildren, Attempt.gives_bind_iff, Attempt.gives_pure_iff]
  case bop op lhs rhs =>
    exact ⟨lhs, give lhs (by simp [Term.children]), rhs, give rhs (by simp [Term.children]), rfl⟩
  case apply | array => exact ⟨_, lists give, rfl⟩
  case struct name fields =>
    refine ⟨fields, callOnFields_self ?_, rfl⟩
    intro field member
    exact give field.value (List.mem_map_of_mem member)
  all_goals exact ⟨_, give _ List.mem_cons_self, rfl⟩

theorem callOnTterms_ends
    (ends : ∀ child ∈ tterms, (callRecursivelyOnTterm f child).Ends) :
    (callOnTterms f tterms).Ends := by
  induction tterms with
  | nil => exact Attempt.ends_pure _
  | cons child tterms ih =>
      obtain ⟨here, rest⟩ := List.forall_mem_cons.mp ends
      rw [callOnTterms]
      exact here.bind fun _ _ => (ih rest).bind fun _ _ =>
        Attempt.ends_pure _

theorem callOnFields_ends
    (ends : ∀ field ∈ fields, (callRecursivelyOnTterm f field.value).Ends) :
    (callOnFields f fields).Ends := by
  induction fields with
  | nil => exact Attempt.ends_pure _
  | cons field fields ih =>
      obtain ⟨here, rest⟩ := List.forall_mem_cons.mp ends
      cases field with
      | mk name value =>
          rw [callOnFields, callOnField]
          exact (here.bind fun _ _ => Attempt.ends_pure _).bind fun _ _ =>
            (ih rest).bind fun _ _ => Attempt.ends_pure _

theorem callOnChildren_ends
    (ends : ∀ child ∈ v.children, (callRecursivelyOnTterm f child).Ends) :
    (callOnChildren f v).Ends := by
  cases v <;> rw [callOnChildren]
  case bop op lhs rhs =>
    exact (ends lhs (by simp [Term.children])).bind fun _ _ =>
      (ends rhs (by simp [Term.children])).bind fun _ _ => Attempt.ends_pure _
  case apply | array => exact (callOnTterms_ends ends).bind fun _ _ => Attempt.ends_pure _
  case struct =>
    refine (callOnFields_ends ?_).bind fun _ _ => Attempt.ends_pure _
    intro field member
    exact ends field.value (List.mem_map_of_mem member)
  case not | strIdx | deref | addr | cast =>
    exact (ends _ List.mem_cons_self).bind fun _ _ => Attempt.ends_pure _
  all_goals exact Attempt.ends_pure _

theorem ChildrenGive.forall_mem
    (give : ChildrenGive f first second)
    {P : Tterm → Prop}
    (each : ∀ child ∈ first, ∀ child',
      (callRecursivelyOnTterm f child).Gives child' → P child') :
    ∀ child' ∈ second, P child' := by
  induction give with
  | nil => nofun
  | cons gives _ ih =>
      obtain ⟨here, rest⟩ := List.forall_mem_cons.mp each
      exact List.forall_mem_cons.mpr ⟨here _ gives, ih rest⟩

theorem callRecursivelyOnTterm_gives_iff
    {f : Term → Attempt Error (Option Term)} :
    (callRecursivelyOnTterm (keepType f) ⟨v, t⟩).Gives result ↔
      ∃ v', (callOnChildren (keepType f) v).Gives v' ∧
        ∃ rewritten,
          (f v').Gives rewritten ∧ result = ⟨rewritten.getD v', t⟩ := by
  simp only [callRecursivelyOnTterm, orSame, keepType, Attempt.gives_bind_iff,
    Attempt.gives_pure_iff]
  constructor
  · rintro ⟨v', children, _, ⟨rewritten, node, rfl⟩, rfl⟩
    refine ⟨v', children, rewritten, node, ?_⟩
    cases rewritten <;> rfl
  · rintro ⟨v', children, rewritten, node, rfl⟩
    refine ⟨v', children, _, ⟨rewritten, node, rfl⟩, ?_⟩
    cases rewritten <;> rfl

end Traversal

/-! ## Normal forms -/

/-- A node that would be rewritten. -/
inductive Term.IsRedex : Term → Prop
  | addNegative
      {x : ℤ}
      (xt : Ttype)
      (rhs : Tterm)
      (negative : x < 0) :
      IsRedex (.bop .add ⟨.int x, xt⟩ rhs)
  | derefAddr (x : Tterm) (t : Ttype) : IsRedex (.deref ⟨.addr x, t⟩)
  | castCast (ctype : Ttype) (sub : Tterm) (t : Ttype) :
      IsRedex (.cast ctype ⟨.cast ctype sub, t⟩)
  | strIdxStruct
      (name : String)
      (fields : List VarSpec)
      (t : Ttype)
      (fname : String) :
      IsRedex (.strIdx ⟨.struct name fields, t⟩ fname)

/-- No node of the term would be rewritten. -/
def Term.Normal (term : Term) : Prop :=
  term.Everywhere fun inside => ¬inside.IsRedex

theorem Term.normal_iff {term : Term} :
    term.Normal ↔ ¬term.IsRedex ∧ ∀ child ∈ term.children, child.v.Normal :=
  Term.everywhere_iff

section Node

variable {simplify : Tterm → Attempt Error Tterm}

theorem simplifyNode_of_not_isRedex
    {v : Term}
    (stays : ¬v.IsRedex) :
    (simplifyNode simplify v).Gives none := by
  unfold simplifyNode
  split
  · split_ifs with negative
    · exact absurd (.addNegative _ _ negative) stays
    · rfl
  · exact absurd (.derefAddr _ _) stays
  · split_ifs with same
    · subst same
      exact absurd (.castCast _ _ _) stays
    · rfl
  · exact absurd (.strIdxStruct _ _ _ _) stays
  · rfl

/-- A node over normal children becomes normal, if the function that is called
for a cast gives normal terms. -/
theorem normal_of_simplifyNode
    (calls : ∀ {sub result : Tterm},
      (simplify sub).Gives result → result.v.Normal)
    (children : ∀ child ∈ v.children, child.v.Normal)
    (gives : (simplifyNode simplify v).Gives rewritten) :
    (rewritten.getD v).Normal := by
  by_cases redex : v.IsRedex
  · cases redex with
    | addNegative xt rhs negative =>
        rw [simplifyNode, if_pos negative, Attempt.gives_pure_iff] at gives
        subst gives
        refine Term.normal_iff.mpr ⟨?_, List.forall_mem_cons.mpr ⟨?_, ?_⟩⟩
        · intro stillRedex
          cases stillRedex
        · exact children rhs (by simp [Term.children])
        · refine List.forall_mem_singleton.mpr (Term.normal_iff.mpr ⟨?_, ?_⟩)
          · intro stillRedex
            cases stillRedex
          · intro child member
            cases member
    | derefAddr x t =>
        rw [simplifyNode, Attempt.gives_pure_iff] at gives
        subst gives
        have inside := children _ List.mem_cons_self
        exact (Term.normal_iff.mp inside).2 x List.mem_cons_self
    | castCast ctype sub t =>
        simp only [simplifyNode, if_pos, Attempt.gives_bind_iff, Attempt.gives_pure_iff] at gives
        obtain ⟨result, called, rfl⟩ := gives
        exact calls called
    | strIdxStruct name fields t fname =>
        have inside := children _ List.mem_cons_self
        rw [simplifyNode] at gives
        split at gives
        · next field found =>
            rw [Attempt.gives_pure_iff] at gives
            subst gives
            exact (Term.normal_iff.mp inside).2 field.value
              (List.mem_map_of_mem (List.mem_of_find?_eq_some found))
        · exact absurd gives (Attempt.not_gives_throw _ _)
  · obtain rfl := (simplifyNode_of_not_isRedex redex).unique gives
    exact Term.normal_iff.mpr ⟨redex, children⟩

theorem normal_of_traversal
    (calls : ∀ {sub result : Tterm},
      (simplify sub).Gives result → result.v.Normal)
    {tterm result : Tterm}
    (gives : (callRecursivelyOnTerm (simplifyNode simplify) tterm).Gives
      result) :
    result.v.Normal := by
  unfold callRecursivelyOnTerm at gives
  cases tterm with
  | mk v t =>
      induction v using Term.induction generalizing t result with
      | step v ih =>
          obtain ⟨v', children, rewritten, node, rfl⟩ :=
            callRecursivelyOnTterm_gives_iff.mp gives
          obtain ⟨_, give⟩ := callOnChildren_gives children
          refine normal_of_simplifyNode calls (give.forall_mem ?_) node
          rintro ⟨child, childType⟩ member child' givesChild
          exact ih _ member childType givesChild

theorem traversal_of_normal
    {tterm : Tterm}
    (normal : tterm.v.Normal) :
    (callRecursivelyOnTerm (simplifyNode simplify) tterm).Gives tterm := by
  unfold callRecursivelyOnTerm
  cases tterm with
  | mk v t =>
      induction v using Term.induction generalizing t with
      | step v ih =>
          obtain ⟨stays, children⟩ := Term.normal_iff.mp normal
          refine callRecursivelyOnTterm_gives_iff.mpr
            ⟨v, callOnChildren_self ?_, none, simplifyNode_of_not_isRedex stays, rfl⟩
          rintro ⟨child, childType⟩ member
          exact ih _ member childType (children _ member)

end Node

/-! ## The function -/

theorem normal_of_simplifyTterm
    (gives : (simplifyTterm fuel tterm).Gives result) :
    result.v.Normal := by
  induction fuel generalizing tterm result with
  | zero => exact absurd gives (Attempt.not_gives_giveUp _)
  | succ fuel ih => exact normal_of_traversal ih gives

theorem simplifyNode_ends
    (fuel : ℕ)
    (children : ∀ child ∈ v.children, child.v.Normal) :
    (simplifyNode (simplifyTterm (fuel + 1)) v).Ends := by
  by_cases redex : v.IsRedex
  · cases redex with
    | addNegative xt rhs negative =>
        rw [simplifyNode, if_pos negative]
        exact Attempt.ends_pure _
    | derefAddr x t => exact Attempt.ends_pure _
    | castCast ctype sub t =>
        have called : (simplifyTterm (fuel + 1) ⟨.cast ctype sub, t⟩).Gives _ :=
          traversal_of_normal (children _ List.mem_cons_self)
        rw [simplifyNode, if_pos rfl]
        exact called.ends.bind fun _ _ => Attempt.ends_pure _
    | strIdxStruct name fields t fname =>
        rw [simplifyNode]
        split
        · exact Attempt.ends_pure _
        · exact Attempt.ends_throw _
  · exact (simplifyNode_of_not_isRedex redex).ends

theorem simplifyTterm_ends
    (fuel : ℕ)
    (tterm : Tterm) :
    (simplifyTterm (fuel + 2) tterm).Ends := by
  rw [simplifyTterm, callRecursivelyOnTerm]
  cases tterm with
  | mk v t =>
      induction v using Term.induction generalizing t with
      | step v ih =>
          rw [callRecursivelyOnTterm]
          refine (callOnChildren_ends ?_).bind fun v' children => ?_
          · rintro ⟨child, childType⟩ member
            exact ih _ member childType
          · obtain ⟨_, give⟩ := callOnChildren_gives children
            have normal : ∀ child' ∈ v'.children, child'.v.Normal := by
              refine give.forall_mem fun child _ child' gives => ?_
              exact normal_of_traversal normal_of_simplifyTterm gives
            exact ((simplifyNode_ends fuel normal).bind fun _ _ =>
              Attempt.ends_pure _).bind fun _ _ => Attempt.ends_pure _

/-- The function always ends.  If it returns, the result is normal, and
simplifying it again returns it unchanged. -/
theorem simplify_reaches_normal_form (tterm : Tterm) :
    (∀ fuel, (simplifyTterm (fuel + 2) tterm).Ends) ∧
      ∀ fuel result, (simplifyTterm fuel tterm).Gives result →
        result.v.Normal ∧ ∀ again,
          (simplifyTterm (again + 1) result).Gives result := by
  refine ⟨fun fuel => simplifyTterm_ends fuel tterm, fun fuel result gives => ?_⟩
  have normal := normal_of_simplifyTterm gives
  exact ⟨normal, fun again => traversal_of_normal normal⟩

/-- All four rules at once: `*&s.f` of a struct literal `s` whose field `f` is a
sum with a negative number under two equal casts. -/
def fourRules : Tterm :=
  ⟨.deref ⟨.addr ⟨.strIdx ⟨.struct "s" [⟨"f", ⟨.cast .uint32 ⟨.cast .uint32
    ⟨.bop .add ⟨.int (-10), .uint32⟩ ⟨.id "x", .uint32⟩, .uint32⟩, .uint32⟩, .uint32⟩⟩],
    .ctm "s"⟩ "f", .uint32⟩, .ptr .uint32⟩, .uint32⟩

theorem simplify_reaches_normal_form_four_rules :
    (simplifyTterm 2 fourRules).Gives
      ⟨.cast .uint32 ⟨.bop .sub ⟨.id "x", .uint32⟩
        ⟨.int 10, .uint32⟩, .uint32⟩, .uint32⟩ ∧
      Term.Normal (.cast .uint32
        ⟨.bop .sub ⟨.id "x", .uint32⟩ ⟨.int 10, .uint32⟩, .uint32⟩) := by
  have gives : (simplifyTterm 2 fourRules).Gives ⟨.cast .uint32 ⟨.bop .sub ⟨.id "x", .uint32⟩
      ⟨.int 10, .uint32⟩, .uint32⟩, .uint32⟩ := rfl
  exact ⟨gives, ((simplify_reaches_normal_form fourRules).2 2 _ gives).1⟩

end Validator
end Vigor
