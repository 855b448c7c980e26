import Mathlib.Data.Int.Init
import Mathlib.Algebra.Group.Int.Defs
import Mathlib.Algebra.Group.Nat.Defs

/-!
# Generated hash functions

The code generator emits two hash functions for every struct: a C function
(`gen_hash`) and a logical function for the verifier (`gen_logical_hash`).  The
emitted text is read as the number that it stands for, and a name in it as the
field or the element that it is composed from.

Numbers are mathematical integers; where C converts a number to a type, the
conversion is written out.  The low bits of a number are its remainder by a
power of two, also for negative numbers.
-/

namespace Vigor
namespace Codegen

/-! ## Struct descriptions and values -/

/-- Integer kinds of the C front end. -/
inductive Ikind
  | iChar
  | iSChar
  | iUChar
  | iBool
  | iInt
  | iUInt
  | iShort
  | iUShort
  | iLong
  | iULong
  | iLongLong
  | iULongLong
  deriving DecidableEq

/-- Least number of a kind. -/
def Ikind.lower : Ikind → ℤ
  | .iChar | .iSChar => -2 ^ 7
  | .iShort => -2 ^ 15
  | .iInt => -2 ^ 31
  | .iLong | .iLongLong => -2 ^ 63
  | .iUChar | .iBool | .iUShort | .iUInt | .iULong | .iULongLong => 0

/-- Largest number of a kind. -/
def Ikind.upper : Ikind → ℤ
  | .iChar | .iSChar => 2 ^ 7 - 1
  | .iUChar => 2 ^ 8 - 1
  | .iBool => 1
  | .iShort => 2 ^ 15 - 1
  | .iUShort => 2 ^ 16 - 1
  | .iInt => 2 ^ 31 - 1
  | .iUInt => 2 ^ 32 - 1
  | .iLong | .iLongLong => 2 ^ 63 - 1
  | .iULong | .iULongLong => 2 ^ 64 - 1

/-- The kinds that are hashed with 64 bits. -/
def Ikind.isLong : Ikind → Bool
  | .iLong | .iULong | .iLongLong | .iULongLong => true
  | _ => false

/-- Integer types: kinds, and names for them. -/
inductive IntType
  | tInt (ikind : Ikind)
  | tNamed (ttype : IntType)

/-- The kind behind the names. -/
def IntType.ikind : IntType → Ikind
  | .tInt ikind => ikind
  | .tNamed ttype => ttype.ikind

/-- Types of fields, as far as the generator supports them: integers, structs
with the `compinfo` of the struct, and arrays of integers with a constant count.
The generator refuses an array of no elements. -/
inductive FieldType
  | basic (ttype : IntType)
  | tComp (cname : String) (cfields : List (String × FieldType))
  | tArray (element : IntType) (count : { count : ℕ // 0 < count })

/-- A field: `fname` and `ftype`. -/
abbrev Field := String × FieldType

/-- Numbers of an integer type. -/
abbrev IntType.Value (ttype : IntType) :=
  { number : ℤ // ttype.ikind.lower ≤ number ∧ number ≤ ttype.ikind.upper }

mutual

/-- Values of a field. -/
def FieldType.Value : FieldType → Type
  | .basic ttype => ttype.Value
  | .tComp _ cfields => StructValue cfields
  | .tArray element count => Fin count.1 → element.Value
termination_by structural ftype => ftype

/-- Values of the fields of a struct. -/
def StructValue : List Field → Type
  | [] => Unit
  | (_, ftype) :: rest => ftype.Value × StructValue rest
termination_by structural cfields => cfields

end

/-- The function that `crc32_hash` and both builtins stand for.  Of the
builtins, `__builtin_ia32_crc32si` takes and returns 32 bits. -/
structure Crc where
  hash : ℤ → ℤ → ℤ
  si : ∀ acc x, 0 ≤ acc → acc < 2 ^ 32 → 0 ≤ x → x < 2 ^ 32 →
    0 ≤ hash acc x ∧ hash acc x < 2 ^ 32

/-! ## The logical function -/

/-- `cutoff`: what `& 0xffffffff` after the text of a number makes of it. -/
def cutoff (hash : ℤ) : IntType → ℤ
  | .tInt ikind => if ikind.isLong then hash % 2 ^ 32 else hash
  | .tNamed ttype => cutoff hash ttype

/-- `cutoff` for the type of a field. -/
def FieldType.cutoff (hash : ℤ) : FieldType → ℤ
  | .basic ttype => Codegen.cutoff hash ttype
  | _ => hash

/-- `basic_hash`: `(x&0xfffffffffff)` or `x`. -/
def basicHash (x : ℤ) : IntType → ℤ
  | .tInt ikind => if ikind.isLong then x % 2 ^ 44 else x
  | .tNamed ttype => basicHash x ttype

/-- The element `<fname>_<index>`. -/
def item
    {ttype : IntType}
    {count : ℕ}
    (numbers : Fin count → ttype.Value)
    (index : ℕ) : ℤ :=
  if inside : index < count then (numbers ⟨index, inside⟩).1 else 0

/-- `arr_fields`; the two uses differ in what stands for the first element. -/
def arrFields
    (crc : Crc)
    (element : IntType)
    (first : ℤ)
    (item : ℕ → ℤ) : ℕ → ℤ
  | i + 2 =>
      crc.hash (arrFields crc element first item (i + 1)) (basicHash (item (i + 1)) element)
  | _ => first

mutual

/-- `field_hash`. -/
def fieldHash (crc : Crc) : (ftype : FieldType) → ftype.Value → ℤ
  | .basic ttype, number => basicHash number.1 ttype
  | .tComp _ cfields, value => genExp crc cfields value
  | .tArray element count, numbers =>
      arrFields crc element (item numbers 0) (item numbers) count.1
termination_by structural ftype => ftype

/-- `field_hash_0`. -/
def fieldHash0 (crc : Crc) : (ftype : FieldType) → ftype.Value → ℤ
  | .basic ttype, number => cutoff (crc.hash 0 (basicHash number.1 ttype)) ttype
  | .tComp _ cfields, value => crc.hash 0 (genExp crc cfields value)
  | .tArray element count, numbers =>
      arrFields crc element (crc.hash 0 (item numbers 0)) (item numbers) count.1
termination_by structural ftype => ftype

/-- `gen_exp_r`. -/
def genExpR (crc : Crc) : (cfields : List Field) → StructValue cfields → ℤ → ℤ
  | (_, ftype) :: tl, (value, values), acc =>
      genExpR crc tl values (ftype.cutoff (crc.hash acc (fieldHash crc ftype value)))
  | [], _, acc => acc
termination_by structural cfields => cfields

/-- `gen_exp`: the number that the logical function returns. -/
def genExp (crc : Crc) : (cfields : List Field) → StructValue cfields → ℤ
  | (_, ftype) :: tl, (value, values) => genExpR crc tl values (fieldHash0 crc ftype value)
  | [], _ => 0
termination_by structural cfields => cfields

end

/-! ## The C function -/

/-- `basic_hash`, with the conversions of the arguments of the builtins. -/
def cBasicHash
    (crc : Crc)
    (hash x : ℤ) : IntType → ℤ
  | .tInt ikind =>
      if ikind.isLong then crc.hash (hash % 2 ^ 64) (x % 2 ^ 44 % 2 ^ 64) % 2 ^ 32
      else crc.hash (hash % 2 ^ 32) (x % 2 ^ 32)
  | .tNamed ttype => cBasicHash crc hash x ttype

/-- `arr_fields`: the last `i` of `c` elements are assigned to `hash`. -/
def hashElements
    (crc : Crc)
    (element : IntType)
    (item : ℕ → ℤ)
    (c : ℕ) : ℕ → ℤ → ℤ
  | 0, hash => hash
  | i + 1, hash =>
      hashElements crc element item c i
        (cBasicHash crc hash (item (c - (i + 1))) element % 2 ^ 32)

mutual

/-- The variable `hash` after the statements for a field. -/
def hashField (crc : Crc) : (ftype : FieldType) → ftype.Value → ℤ → ℤ
  | .basic ttype, number, hash => cBasicHash crc hash number.1 ttype % 2 ^ 32
  | .tComp _ cfields, value, hash =>
      crc.hash (hash % 2 ^ 32) (hashFields crc cfields value 0 % 2 ^ 32) % 2 ^ 32
  | .tArray element count, numbers, hash =>
      hashElements crc element (item numbers) count.1 count.1 hash
termination_by structural ftype => ftype

/-- The variable `hash` after the statements for some fields. -/
def hashFields (crc : Crc) :
    (cfields : List Field) → StructValue cfields → ℤ → ℤ
  | [], _, hash => hash
  | (_, ftype) :: rest, (value, values), hash =>
      hashFields crc rest values (hashField crc ftype value hash)
termination_by structural cfields => cfields

end

/-- The call `<cname>_hash(&id-><fname>)` is in the scope of a local variable of
that name: of `<fname>_hash` itself, or of one that was declared for an earlier
field. -/
def FieldType.hidden
    (declared : List String)
    (fname : String) : FieldType → Bool
  | .tComp cname _ => cname = fname ∨ cname ∈ declared
  | _ => false

/-- The local variables `<fname>_hash` that are declared for a field. -/
def FieldType.declares (fname : String) : FieldType → List String
  | .tComp _ _ => [fname]
  | _ => []

mutual

/-- The functions that are called for a field compile. -/
def FieldType.compiles : FieldType → Bool
  | .tComp _ cfields => fieldsCompile [] cfields
  | _ => true
termination_by structural ftype => ftype

/-- The C function compiles from some field on, with the functions that it
calls. -/
def fieldsCompile : List String → List Field → Bool
  | _, [] => true
  | declared, (fname, ftype) :: rest =>
      !ftype.hidden declared fname && ftype.compiles &&
        fieldsCompile (ftype.declares fname ++ declared) rest
termination_by structural _ cfields => cfields

end

/-- `gen_hash`: the number that the C function returns, if it compiles. -/
def hash
    (crc : Crc)
    (cfields : List Field)
    (value : StructValue cfields) : Option ℤ :=
  if fieldsCompile [] cfields then some (hashFields crc cfields value 0) else none

end Codegen
end Vigor
