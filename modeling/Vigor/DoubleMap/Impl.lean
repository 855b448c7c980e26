import Vigor.Map.Cells

/-!
# The double map of libVig

`double-map.c` keeps values in numbered slots and finds the slot of a value by
either of two keys.  The keys are parts of the stored value, so the two tables
hold pointers into the slots.  The tables are those of `map-impl.c`; the
functions of `map.c` are not used.
-/

namespace Vigor

open Map

variable {V : Type u} {A : Type v} {B : Type w}

/-- The function pointers of `struct DoubleMap`, with the promise of
`double-map.h` that extracted keys can be packed again.  The copy function is
left out, as it copies. -/
structure ValueOps (V : Type u) (A : Type v) (B : Type w) where
  /-- `eq_a` and `hsh_a`. -/
  opsA : KeyOps A
  /-- `eq_b` and `hsh_b`. -/
  opsB : KeyOps B
  /-- First result of `exk`. -/
  exkA : V → A
  /-- Second result of `exk`. -/
  exkB : V → B
  /-- Pack keys into a value. -/
  pk : V → A → B → V
  /-- What destruction leaves in the slot. -/
  dstr : V → V
  pk_exk : ∀ value, pk value (exkA value) (exkB value) = value

/-- `struct DoubleMap` without its function pointers and without `capacity`,
which no function reads. -/
structure DoubleMap (V : Type u) (A : Type v) (B : Type w) where
  values : ℤ → V
  /-- `bbs_a`, `kps_a`, `khs_a`, `chns_a` and `inds_a`. -/
  tableA : Arrays (KeyRef A)
  /-- `bbs_b`, `kps_b`, `khs_b`, `chns_b` and `inds_b`. -/
  tableB : Arrays (KeyRef B)
  nVals : ℕ
  keysCapacity : ℕ

namespace DoubleMap

/-- `dmap_allocate` on fresh memory.  Allocation failures of the system are
left out. -/
def dmapAllocate
    (build : Build)
    (memory : DoubleMap V A B)
    (keysCapacity : ℕ) : Option (DoubleMap V A B) :=
  if build = .pow2 ∧
      (keysCapacity = 0 ∨ keysCapacity &&& (keysCapacity - 1) ≠ 0) then none
  else
    some
      { values := memory.values
        tableA := mapImplInit memory.tableA keysCapacity
        tableB := mapImplInit memory.tableB keysCapacity
        nVals := 0
        keysCapacity := keysCapacity }

/-- First key of each slot. -/
def keysA
    (ops : ValueOps V A B)
    (values : ℤ → V)
    (index : ℤ) : A :=
  ops.exkA (values index)

/-- Second key of each slot. -/
def keysB
    (ops : ValueOps V A B)
    (values : ℤ → V)
    (index : ℤ) : B :=
  ops.exkB (values index)

section Functions

variable (build : Build) (ops : ValueOps V A B)

/-- `dmap_get_a`. -/
def dmapGetA
    (map : DoubleMap V A B)
    (key : KeyRef A) : Option ℤ :=
  let refOps := ops.opsA.onRefs (keysA ops map.values)
  mapImplGet build map.tableA key refOps.eq (refOps.hash key) map.keysCapacity

/-- `dmap_get_b`. -/
def dmapGetB
    (map : DoubleMap V A B)
    (key : KeyRef B) : Option ℤ :=
  let refOps := ops.opsB.onRefs (keysB ops map.values)
  mapImplGet build map.tableB key refOps.eq (refOps.hash key) map.keysCapacity

/-- `pk` on a slot, through two key pointers. -/
def packKeys
    (values : ℤ → V)
    (index : ℤ)
    (keyA : KeyRef A)
    (keyB : KeyRef B) :
    ℤ → V :=
  Function.update values index
    (ops.pk (values index) (keyA.deref (keysA ops values))
      (keyB.deref (keysB ops values)))

/-- `dmap_put`. -/
def dmapPut
    (map : DoubleMap V A B)
    (value : V)
    (index : ℤ) :
    DoubleMap V A B :=
  let values := Function.update map.values index value
  let hash1 := (ops.opsA.onRefs (keysA ops values)).hash (.cell index)
  let tableA := mapImplPut build map.tableA (.cell index) hash1 index
    map.keysCapacity
  let hash2 := (ops.opsB.onRefs (keysB ops values)).hash (.cell index)
  let tableB := mapImplPut build map.tableB (.cell index) hash2 index
    map.keysCapacity
  { values := packKeys ops values index (.cell index) (.cell index)
    tableA := tableA
    tableB := tableB
    nVals := (map.nVals + 1) % 2 ^ 32
    keysCapacity := map.keysCapacity }

/-- `dmap_get_value`. -/
def dmapGetValue
    (map : DoubleMap V A B)
    (index : ℤ) : V :=
  map.values index

/-- `dmap_erase`.  A table without the key hands no pointer back; nothing is
packed through it. -/
def dmapErase
    (map : DoubleMap V A B)
    (index : ℤ) : DoubleMap V A B :=
  let refOpsA := ops.opsA.onRefs (keysA ops map.values)
  let (outKeyA, tableA) := mapImplErase build map.tableA (.cell index)
    refOpsA.eq (refOpsA.hash (.cell index)) map.keysCapacity
  let refOpsB := ops.opsB.onRefs (keysB ops map.values)
  let (outKeyB, tableB) := mapImplErase build map.tableB (.cell index)
    refOpsB.eq (refOpsB.hash (.cell index)) map.keysCapacity
  let values := packKeys ops map.values index (.cell index) (.cell index)
  let values :=
    match outKeyA, outKeyB with
    | some keyA, some keyB => packKeys ops values index keyA keyB
    | _, _ => values
  { values := Function.update values index (ops.dstr (values index))
    tableA := tableA
    tableB := tableB
    nVals := (map.nVals + 2 ^ 32 - 1) % 2 ^ 32
    keysCapacity := map.keysCapacity }

/-- `dmap_size`. -/
def dmapSize (map : DoubleMap V A B) : ℕ :=
  map.nVals

end Functions

end DoubleMap
end Vigor
