import Mathlib.Logic.Function.Basic
import Mathlib.Algebra.Group.Int.Defs
import Mathlib.Algebra.Group.Nat.Defs

/-!
# The hash map of libVig

`map-impl.c` and `map-impl-pow2.c` are the same open-addressing table with two
versions of the wrap-around function `loop`; `map.c` adds the capacity and a
size counter.  The table stores references to keys, never the keys.  Each slot
has a chain counter, and a lookup stops at a slot whose counter is zero.

The five arrays are functions on slot numbers.  Unsigned arithmetic is explicit
about its 32 bits.  A `for` loop is a recursion on the number of rounds that
are left.
-/

namespace Vigor
namespace Map

open Function

/-- The two builds of the table, chosen by `CAPACITY_POW2`. -/
inductive Build
  | modulo
  | pow2
  deriving DecidableEq, Repr

/-- `loop` of `map-impl.c`. -/
def loopModulo (k capacity : ℕ) : ℕ :=
  let g := k % capacity
  (g + capacity) % 2 ^ 32 % capacity

/-- `loop` of `map-impl-pow2.c`. -/
def loopPow2 (k capacity : ℕ) : ℕ :=
  k &&& (capacity - 1)

/-- The wrap-around function of the build. -/
def Build.loop : Build → ℕ → ℕ → ℕ
  | .modulo => loopModulo
  | .pow2 => loopPow2

/-- The arrays of one table; `κ` is the type of key references. -/
structure Arrays (κ : Type u) where
  /-- Nonzero for a slot in use. -/
  busybits : ℕ → ℤ
  /-- References to the keys. -/
  keyps : ℕ → κ
  /-- Hashes of the keys. -/
  khs : ℕ → ℕ
  /-- Chain counters. -/
  chns : ℕ → ℤ
  /-- Values. -/
  vals : ℕ → ℤ

variable {κ : Type u}

/-- The probe loop of `find_key`. -/
def findKeyLoop
    (build : Build)
    (arrays : Arrays κ)
    (keyp : κ)
    (eq : κ → κ → Bool)
    (keyHash capacity start : ℕ) : ℕ → ℕ → Option ℕ
  | 0, _ => none
  | rounds + 1, i =>
      let index := build.loop ((start + i) % 2 ^ 32) capacity
      let bb := arrays.busybits index
      let kh := arrays.khs index
      let chn := arrays.chns index
      let kp := arrays.keyps index
      if bb ≠ 0 ∧ kh = keyHash then
        if eq kp keyp then some index
        else
          findKeyLoop build arrays keyp eq keyHash capacity start rounds (i + 1)
      else if chn = 0 then none
      else
        findKeyLoop build arrays keyp eq keyHash capacity start rounds (i + 1)

/-- Slot of a key; `none` stands for -1. -/
def findKey
    (build : Build)
    (arrays : Arrays κ)
    (keyp : κ)
    (eq : κ → κ → Bool)
    (keyHash capacity : ℕ) : Option ℕ :=
  let start := build.loop keyHash capacity
  findKeyLoop build arrays keyp eq keyHash capacity start capacity 0

/-- The probe loop of `find_key_remove_chain`, which returns the slot and the
stored reference. -/
def findKeyRemoveChainLoop
    (build : Build)
    (keyp : κ)
    (eq : κ → κ → Bool)
    (keyHash capacity start : ℕ) :
    ℕ → ℕ → Arrays κ → Option (ℕ × κ) × Arrays κ
  | 0, _, arrays => (none, arrays)
  | rounds + 1, i, arrays =>
      let index := build.loop ((start + i) % 2 ^ 32) capacity
      let bb := arrays.busybits index
      let kh := arrays.khs index
      let chn := arrays.chns index
      let kp := arrays.keyps index
      if (bb ≠ 0 ∧ kh = keyHash) ∧ eq kp keyp then
        (some (index, arrays.keyps index),
          { arrays with busybits := update arrays.busybits index 0 })
      else
        findKeyRemoveChainLoop build keyp eq keyHash capacity start rounds
          (i + 1)
          { arrays with chns := update arrays.chns index (chn - 1) }

/-- Free the slot of a key and decrement the counters on the way to it. -/
def findKeyRemoveChain
    (build : Build)
    (arrays : Arrays κ)
    (keyp : κ)
    (eq : κ → κ → Bool)
    (keyHash capacity : ℕ) : Option (ℕ × κ) × Arrays κ :=
  let start := build.loop keyHash capacity
  findKeyRemoveChainLoop build keyp eq keyHash capacity start capacity 0 arrays

/-- The probe loop of `find_empty`. -/
def findEmptyLoop
    (build : Build)
    (start capacity : ℕ) : ℕ → ℕ → Arrays κ → Option ℕ × Arrays κ
  | 0, _, arrays => (none, arrays)
  | rounds + 1, i, arrays =>
      let index := build.loop ((start + i) % 2 ^ 32) capacity
      let bb := arrays.busybits index
      if 0 = bb then (some index, arrays)
      else
        let chn := arrays.chns index
        findEmptyLoop build start capacity rounds (i + 1)
          { arrays with chns := update arrays.chns index (chn + 1) }

/-- First free slot, with the counters on the way to it incremented. -/
def findEmpty
    (build : Build)
    (arrays : Arrays κ)
    (start capacity : ℕ) : Option ℕ × Arrays κ :=
  findEmptyLoop build start capacity capacity 0 arrays

/-- The loop of `map_impl_init`. -/
def mapImplInitLoop : ℕ → ℕ → Arrays κ → Arrays κ
  | 0, _, arrays => arrays
  | rounds + 1, i, arrays =>
      mapImplInitLoop rounds (i + 1)
        { arrays with
          busybits := update arrays.busybits i 0
          chns := update arrays.chns i 0 }

/-- Mark every slot as free, with no chain through it. -/
def mapImplInit
    (arrays : Arrays κ)
    (capacity : ℕ) : Arrays κ :=
  mapImplInitLoop capacity 0 arrays

/-- Value of a key; `none` stands for the return code 0. -/
def mapImplGet
    (build : Build)
    (arrays : Arrays κ)
    (keyp : κ)
    (eq : κ → κ → Bool)
    (hash capacity : ℕ) : Option ℤ :=
  match findKey build arrays keyp eq hash capacity with
  | none => none
  | some index => some (arrays.vals index)

/-- Slot that `find_empty` reports: -1 as an unsigned number when it finds
none.  The arrays of the model have that slot, those of the code do not: with
all slots busy, the writes of `map_impl_put` are out of bounds.  A put that the
contract permits finds a free slot. -/
def unsignedSlot : Option ℕ → ℕ
  | some index => index
  | none => 2 ^ 32 - 1

/-- Store a key reference and a value in the first free slot. -/
def mapImplPut
    (build : Build)
    (arrays : Arrays κ)
    (keyp : κ)
    (hash : ℕ)
    (value : ℤ)
    (capacity : ℕ) : Arrays κ :=
  let start := build.loop hash capacity
  let (found, arrays) := findEmpty build arrays start capacity
  let index := unsignedSlot found
  { arrays with
    busybits := update arrays.busybits index 1
    keyps := update arrays.keyps index keyp
    khs := update arrays.khs index hash
    vals := update arrays.vals index value }

/-- Remove a key; the stored reference is handed back when it was there. -/
def mapImplErase
    (build : Build)
    (arrays : Arrays κ)
    (keyp : κ)
    (eq : κ → κ → Bool)
    (hash capacity : ℕ) : Option κ × Arrays κ :=
  let (found, arrays) := findKeyRemoveChain build arrays keyp eq hash capacity
  (found.map Prod.snd, arrays)

end Map

/-! ## The map of `map.c` -/

/-- `struct Map` without the two function pointers, which are passed along. -/
structure Map (κ : Type u) where
  /-- The table. -/
  arrays : Map.Arrays κ
  /-- Number of slots. -/
  capacity : ℕ
  /-- Number of entries. -/
  size : ℕ

namespace Map

variable {κ : Type u}

/-- `keys_eq` and `khash`: an equivalence on key references and a hash that
respects it. -/
structure KeyOps (κ : Type u) where
  /-- Key equality. -/
  eq : κ → κ → Bool
  /-- Key hash. -/
  hash : κ → ℕ
  eq_refl : ∀ key, eq key key = true
  eq_symm : ∀ {first second}, eq first second = true → eq second first = true
  eq_trans : ∀ {first second third}, eq first second = true →
    eq second third = true → eq first third = true
  /-- Equal keys have equal hashes. -/
  hash_eq : ∀ {first second}, eq first second = true →
    hash first = hash second

/-- Key operations of a type with decidable equality and any hash. -/
def KeyOps.ofHash
    [DecidableEq κ]
    (hash : κ → ℕ) : KeyOps κ where
  eq first second := decide (first = second)
  hash := hash
  eq_refl _ := decide_eq_true rfl
  eq_symm equal := decide_eq_true (of_decide_eq_true equal).symm
  eq_trans first second :=
    decide_eq_true ((of_decide_eq_true first).trans (of_decide_eq_true second))
  hash_eq equal := congrArg hash (of_decide_eq_true equal)

/-- A map over fresh memory, or nothing when the build rejects the capacity.
Allocation failures of the system are left out. -/
def mapAllocate
    (build : Build)
    (memory : Arrays κ)
    (capacity : ℕ) : Option (Map κ) :=
  if build = .pow2 ∧ (capacity = 0 ∨ capacity &&& (capacity - 1) ≠ 0) then none
  else
    some
      { arrays := mapImplInit memory capacity
        capacity := capacity
        size := 0 }

/-- `map_get`. -/
def mapGet
    (build : Build)
    (ops : KeyOps κ)
    (map : Map κ)
    (key : κ) : Option ℤ :=
  let hash := ops.hash key
  mapImplGet build map.arrays key ops.eq hash map.capacity

/-- `map_put`. -/
def mapPut
    (build : Build)
    (ops : KeyOps κ)
    (map : Map κ)
    (key : κ)
    (value : ℤ) : Map κ :=
  let hash := ops.hash key
  { map with
    arrays := mapImplPut build map.arrays key hash value map.capacity
    size := (map.size + 1) % 2 ^ 32 }

/-- `map_erase`, with the reference that it hands back. -/
def mapErase
    (build : Build)
    (ops : KeyOps κ)
    (map : Map κ)
    (key : κ) : Option κ × Map κ :=
  let hash := ops.hash key
  let (trash, arrays) :=
    mapImplErase build map.arrays key ops.eq hash map.capacity
  (trash, { map with arrays := arrays, size := (map.size + 2 ^ 32 - 1) % 2 ^ 32 })

/-- `map_size`. -/
def mapSize (map : Map κ) : ℕ :=
  map.size

end Map
end Vigor
