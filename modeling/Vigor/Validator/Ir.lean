import Mathlib.Data.List.Forall2
import Vigor.Library.Attempt
import Mathlib.Algebra.Group.Int.Defs
import Mathlib.Algebra.Group.Nat.Defs

/-!
# The intermediate language of the validator

`ir.ml`: typed terms, their comparison, and the traversal by which they are
simplified. Functions on the children of a node are written out for lists of
children, so that they compute.

Integers are those of the host language, which have 63 bits; only the negation
of an integer can leave that range.
-/

namespace Vigor
namespace Validator

/-! ## Terms -/

/-- `bop`. -/
inductive Bop
  | eq | le | lt | ge | gt
  | add | sub | mul | div | modulo | shl | aShr
  | and | or | bitAnd | bitOr
  deriving DecidableEq, Repr

/-- `ttype`. -/
inductive Ttype
  | ptr (t : Ttype)
  | array (t : Ttype)
  | sint64 | sint32 | sint16 | sint8
  | uint64 | uint32 | uint16 | uint8
  | void
  | str (name : String) (fields : List (String × Ttype))
  | ctm (name : String)
  | fptr (name : String)
  | boolean
  | sunknown | uunknown | unknown

/-- `term_util`. -/
inductive TermUtil
  | ptrPlaceholder (addr : ℤ)
  deriving DecidableEq

mutual

/-- `term`. -/
inductive Term
  | bop (op : Bop) (lhs rhs : Tterm)
  | apply (name : String) (args : List Tterm)
  | id (name : String)
  | struct (name : String) (fields : List VarSpec)
  | array (cells : List Tterm)
  | int (i : ℤ)
  | bool (b : Bool)
  | not (x : Tterm)
  | strIdx (x : Tterm) (field : String)
  | deref (x : Tterm)
  | addr (x : Tterm)
  | fptr (name : String)
  | cast (t : Ttype) (x : Tterm)
  | zeroptr
  | undef
  | utility (util : TermUtil)

/-- `tterm`. -/
structure Tterm where
  v : Term
  t : Ttype

/-- `var_spec`. -/
structure VarSpec where
  name : String
  value : Tterm

end

/-! ## Equality of types -/

mutual

/-- Structural equality of types. -/
def Ttype.same : Ttype → Ttype → Bool
  | .ptr a, .ptr b => a.same b
  | .array a, .array b => a.same b
  | .sint64, .sint64 | .sint32, .sint32 | .sint16, .sint16 | .sint8, .sint8 => true
  | .uint64, .uint64 | .uint32, .uint32 | .uint16, .uint16 | .uint8, .uint8 => true
  | .void, .void | .boolean, .boolean => true
  | .str nameA fieldsA, .str nameB fieldsB => nameA = nameB && Ttype.sameFields fieldsA fieldsB
  | .ctm nameA, .ctm nameB => nameA = nameB
  | .fptr nameA, .fptr nameB => nameA = nameB
  | .sunknown, .sunknown | .uunknown, .uunknown | .unknown, .unknown => true
  | _, _ => false

/-- Structural equality of fields. -/
def Ttype.sameFields : List (String × Ttype) → List (String × Ttype) → Bool
  | [], [] => true
  | a :: fieldsA, b :: fieldsB => Ttype.sameField a b && Ttype.sameFields fieldsA fieldsB
  | _, _ => false

/-- The same for one field. -/
def Ttype.sameField : String × Ttype → String × Ttype → Bool
  | (nameA, a), (nameB, b) => nameA = nameB && a.same b

end

mutual

theorem Ttype.same_iff (a b : Ttype) : a.same b = true ↔ a = b := by
  cases a <;> cases b <;> simp [Ttype.same, Ttype.same_iff, Ttype.sameFields_iff]

theorem Ttype.sameFields_iff (a b : List (String × Ttype)) :
    Ttype.sameFields a b = true ↔ a = b := by
  cases a <;> cases b <;> simp [Ttype.sameFields, Ttype.sameField_iff, Ttype.sameFields_iff]

theorem Ttype.sameField_iff (a b : String × Ttype) :
    Ttype.sameField a b = true ↔ a = b := by
  obtain ⟨nameA, a⟩ := a
  obtain ⟨nameB, b⟩ := b
  simp [Ttype.sameField, Ttype.same_iff]

end

instance : DecidableEq Ttype := fun a b => decidable_of_iff _ (Ttype.same_iff a b)

/-! ## Comparison of terms -/

/-- `term_utility_eq`. -/
def termUtilityEq : TermUtil → TermUtil → Bool
  | .ptrPlaceholder x, .ptrPlaceholder y => x = y

mutual

/-- `term_eq`. -/
def termEq : Term → Term → Bool
  | .bop opa lhsa rhsa, .bop opb lhsb rhsb =>
      if opa = .eq ∧ opb = .eq then
        (ttermEq lhsa lhsb && ttermEq rhsa rhsb) || (ttermEq lhsa rhsb && ttermEq rhsa lhsb)
      else opa = opb && ttermEq lhsa lhsb && ttermEq rhsa rhsb
  | .apply fa argsa, .apply fb argsb =>
      fa = fb && argsa.length = argsb.length && ttermsEq argsa argsb
  | .id a, .id b => a = b
  | .struct sna fdsa, .struct snb fdsb =>
      sna = snb && fdsa.length = fdsb.length && fieldsEq fdsa fdsb
  | .int ia, .int ib => ia = ib
  | .bool ba, .bool bb => ba = bb
  | .not tta, .not ttb => ttermEq tta ttb
  | .strIdx tta fda, .strIdx ttb fdb => ttermEq tta ttb && fda = fdb
  | .deref tta, .deref ttb => ttermEq tta ttb
  | .fptr fa, .fptr fb => fa = fb
  | .addr tta, .addr ttb => ttermEq tta ttb
  | .cast ctypea terma, .cast ctypeb termb => ctypea = ctypeb && ttermEq terma termb
  | .undef, .undef => true
  | .utility ua, .utility ub => termUtilityEq ua ub
  | .array cellsA, .array cellsB => cellsA.length = cellsB.length && ttermsEq cellsA cellsB
  | _, _ => false
termination_by structural x => x

/-- The terms without their types. -/
def ttermEq : Tterm → Tterm → Bool
  | ⟨a, _⟩, b => termEq a b.v
termination_by structural x => x

/-- `List.for_all2_exn`, which is only called for lists of the same length. -/
def ttermsEq : List Tterm → List Tterm → Bool
  | [], [] => true
  | a :: as, b :: bs => ttermEq a b && ttermsEq as bs
  | _, _ => false
termination_by structural x => x

/-- The same for fields, which have the same names. -/
def fieldsEq : List VarSpec → List VarSpec → Bool
  | [], [] => true
  | a :: as, b :: bs => fieldEq a b && fieldsEq as bs
  | _, _ => false
termination_by structural x => x

/-- The same for one field. -/
def fieldEq : VarSpec → VarSpec → Bool
  | ⟨fnamea, fvala⟩, b => fnamea = b.name && ttermEq fvala b.value
termination_by structural x => x

end

/-! ## Traversal -/

section Traversal

variable {m : Type → Type} [Monad m]

/-- The end of `call_recursively_on_tterm`. -/
def orSame
    (f : Tterm → m (Option Tterm))
    (tterm : Tterm) : m Tterm := do
  return (← f tterm).getD tterm

variable (f : Tterm → m (Option Tterm))

mutual

/-- `call_recursively_on_tterm`. -/
def callRecursivelyOnTterm : Tterm → m Tterm
  | ⟨v, t⟩ => do orSame f ⟨← callOnChildren v, t⟩

/-- The match of `call_recursively_on_tterm`. -/
def callOnChildren : Term → m Term
  | .bop op lhs rhs => do
      return .bop op (← callRecursivelyOnTterm lhs) (← callRecursivelyOnTterm rhs)
  | .apply fname args => do return .apply fname (← callOnTterms args)
  | .id x => return .id x
  | .struct name fds => do return .struct name (← callOnFields fds)
  | .array cells => do return .array (← callOnTterms cells)
  | .int i => return .int i
  | .bool b => return .bool b
  | .not x => do return .not (← callRecursivelyOnTterm x)
  | .strIdx tt fname => do return .strIdx (← callRecursivelyOnTterm tt) fname
  | .deref tt => do return .deref (← callRecursivelyOnTterm tt)
  | .fptr fname => return .fptr fname
  | .addr tt => do return .addr (← callRecursivelyOnTterm tt)
  | .cast ctype tt => do return .cast ctype (← callRecursivelyOnTterm tt)
  | .undef => return .undef
  | .zeroptr => return .zeroptr
  | .utility u => return .utility u

/-- `List.map`. -/
def callOnTterms : List Tterm → m (List Tterm)
  | [] => return []
  | tterm :: tterms => do return (← callRecursivelyOnTterm tterm) :: (← callOnTterms tterms)

/-- `List.map` over the values of fields. -/
def callOnFields : List VarSpec → m (List VarSpec)
  | [] => return []
  | field :: fields => do return (← callOnField field) :: (← callOnFields fields)

/-- The same for one field. -/
def callOnField : VarSpec → m VarSpec
  | ⟨name, value⟩ => do return ⟨name, ← callRecursivelyOnTterm value⟩

end

/-- A function on terms that leaves the types as they are. -/
def keepType
    (f : Term → m (Option Term))
    (tterm : Tterm) : m (Option Tterm) := do
  return (← f tterm.v).map fun v => ⟨v, tterm.t⟩

/-- `call_recursively_on_term`. -/
def callRecursivelyOnTerm
    (f : Term → m (Option Term))
    (tterm : Tterm) : m Tterm :=
  callRecursivelyOnTterm (keepType f) tterm

end Traversal

/-! ## Simplification -/

/-- The errors that the modelled functions can raise. -/
inductive Error
  /-- `List.find_exn`. -/
  | notFound
  deriving DecidableEq, Repr

/-- The negation of an integer of 63 bits. -/
def negateInt (x : ℤ) : ℤ :=
  (-x).bmod (2 ^ 63)

/-- The function that `simplify_tterm` calls on every node. -/
def simplifyNode (simplifyTterm : Tterm → Attempt Error Tterm) :
    Term → Attempt Error (Option Term)
  | .bop .add ⟨.int x, xt⟩ rhs =>
      if x < 0 then return some (.bop .sub rhs ⟨.int (negateInt x), xt⟩) else return none
  | .deref ⟨.addr x, _⟩ => return some x.v
  | .cast t1 ⟨.cast t2 sub, t⟩ =>
      if t1 = t2 then do return some (← simplifyTterm ⟨.cast t2 sub, t⟩).v else return none
  | .strIdx ⟨.struct _ fields, _⟩ fname =>
      match fields.find? fun field => field.name = fname with
      | some field => return some field.value.v
      | none => throw .notFound
  | _ => return none

/-- `simplify_tterm`, with an allowance for the depth of the calls of itself.
There is no result if it is used up. -/
def simplifyTterm : ℕ → Tterm → Attempt Error Tterm
  | 0, _ => .giveUp
  | fuel + 1, tterm => callRecursivelyOnTerm (simplifyNode (simplifyTterm fuel)) tterm

end Validator
end Vigor
