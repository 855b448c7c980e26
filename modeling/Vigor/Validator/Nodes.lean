import Vigor.Validator.Ir

/-!
# Nodes of terms

A node of a term is seen as a head, which holds everything but terms, and a list
of children.  Facts about all kinds of nodes are then stated and proved once.
-/

namespace Vigor
namespace Validator

/-- What a node holds besides its children. -/
inductive Head
  | bop (op : Bop)
  | apply (name : String)
  | id (name : String)
  | struct (name : String) (fields : List String)
  | array
  | int (i : ℤ)
  | bool (b : Bool)
  | not
  | strIdx (field : String)
  | deref
  | addr
  | fptr (name : String)
  | cast (t : Ttype)
  | zeroptr
  | undef
  | utility (util : TermUtil)

namespace Term

/-- A term without its children. -/
def head : Term → Head
  | .bop op _ _ => .bop op
  | .apply name _ => .apply name
  | .id name => .id name
  | .struct name fields => .struct name (fields.map VarSpec.name)
  | .array _ => .array
  | .int i => .int i
  | .bool b => .bool b
  | .not _ => .not
  | .strIdx _ field => .strIdx field
  | .deref _ => .deref
  | .addr _ => .addr
  | .fptr name => .fptr name
  | .cast t _ => .cast t
  | .zeroptr => .zeroptr
  | .undef => .undef
  | .utility util => .utility util

/-- The terms below a term, in order. -/
def children : Term → List Tterm
  | .bop _ lhs rhs => [lhs, rhs]
  | .apply _ args => args
  | .struct _ fields => fields.map VarSpec.value
  | .array cells => cells
  | .not x | .strIdx x _ | .deref x | .addr x | .cast _ x => [x]
  | .id _ | .int _ | .bool _ | .fptr _ | .zeroptr | .undef | .utility _ => []

theorem sizeOf_child_lt
    {term : Term}
    {child : Tterm}
    (member : child ∈ term.children) :
    sizeOf child.v < sizeOf term := by
  have inside : sizeOf child.v < sizeOf child := by
    cases child
    simp
    omega
  cases term <;> simp [children] at member ⊢
  case bop => rcases member with rfl | rfl <;> omega
  case apply | array =>
    have less := List.sizeOf_lt_of_mem member
    omega
  case struct =>
    obtain ⟨field, isField, rfl⟩ := member
    have less := List.sizeOf_lt_of_mem isField
    cases field
    simp at inside less ⊢
    omega
  all_goals
    subst member
    omega

/-- Induction on terms, with a hypothesis for every child. -/
theorem induction
    {P : Term → Prop}
    (step : ∀ term, (∀ child ∈ term.children, P child.v) → P term)
    (term : Term) :
    P term :=
  step term fun child _ => induction step child.v
termination_by sizeOf term
decreasing_by
  apply sizeOf_child_lt
  assumption

/-- All terms in a term, and it itself. -/
inductive Everywhere (p : Term → Prop) : Term → Prop
  | node
      (term : Term)
      (here : p term)
      (inside : ∀ child ∈ term.children, Everywhere p child.v) :
      Everywhere p term

theorem everywhere_iff
    {p : Term → Prop}
    {term : Term} :
    Everywhere p term ↔ p term ∧ ∀ child ∈ term.children,
      Everywhere p child.v := by
  constructor
  · rintro ⟨_, here, inside⟩
    exact ⟨here, inside⟩
  · rintro ⟨here, inside⟩
    exact .node term here inside

end Term

end Validator
end Vigor
