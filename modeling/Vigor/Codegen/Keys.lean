import Vigor.Codegen.Hashes
import Vigor.Map.Refinement

/-!
# Generated functions as the callbacks of a map

`gen_eq_function` emits the comparison of two structs.  A map calls it and the
generated hash function for its keys, and then behaves as a dictionary with the
values of the struct as keys.
-/

namespace Vigor
namespace Codegen

/-! ## The C function -/

/-- `arr_fields`: the comparisons of the last `i` of `c` elements. -/
def eqElements
    (first second : ℕ → ℤ)
    (c : ℕ) : ℕ → Bool
  | 0 => true
  | i + 1 => first (c - (i + 1)) = second (c - (i + 1)) && eqElements first second c i

mutual

/-- The comparison of a field. -/
def eqField : (ftype : FieldType) → ftype.Value → ftype.Value → Bool
  | .basic _, first, second => first.1 = second.1
  | .tComp _ cfields, first, second => eqFields cfields first second
  | .tArray _ count, first, second => eqElements (item first) (item second) count.1 count.1
termination_by structural ftype => ftype

/-- The comparisons of some fields, with `AND` between them. -/
def eqFields :
    (cfields : List Field) → StructValue cfields → StructValue cfields → Bool
  | [], _, _ => true
  | (_, ftype) :: rest, (first, firsts), (second, seconds) =>
      eqField ftype first second && eqFields rest firsts seconds
termination_by structural cfields => cfields

end

mutual

/-- The structs in a field have fields. -/
def FieldType.hasFields : FieldType → Bool
  | .tComp _ cfields => !cfields.isEmpty && allHaveFields cfields
  | _ => true
termination_by structural ftype => ftype

/-- The structs in all fields have fields. -/
def allHaveFields : List Field → Bool
  | [] => true
  | (_, ftype) :: rest => ftype.hasFields && allHaveFields rest
termination_by structural cfields => cfields

end

/-- `gen_eq_function`: what the C function returns, if it compiles.  The local
variables `<fname>_eq` hide functions as `<fname>_hash` do, and a struct without
fields gets a `return` without a value. -/
def eq
    (cfields : List Field)
    (first second : StructValue cfields) : Option Bool :=
  if fieldsCompile [] cfields && !cfields.isEmpty && allHaveFields cfields then
    some (eqFields cfields first second)
  else none

/-! ## Equality of values -/

theorem eqElements_iff
    (first second : ℕ → ℤ)
    (c i : ℕ) :
    eqElements first second c i = true ↔
      ∀ index < i, first (c - (index + 1)) = second (c - (index + 1)) := by
  induction i with
  | zero => simp [eqElements]
  | succ i ih =>
      rw [eqElements, Bool.and_eq_true, decide_eq_true_iff, ih]
      constructor
      · rintro ⟨here, rest⟩ index inside
        rcases Nat.lt_succ_iff_lt_or_eq.mp inside with earlier | rfl
        · exact rest index earlier
        · exact here
      · intro all
        exact ⟨all i (Nat.lt_succ_self i), fun index inside => all index (Nat.lt_succ_of_lt inside)⟩

/-- Arrays with the same elements are equal. -/
theorem eqElements_item_iff (first second : Fin count → IntType.Value element) :
    eqElements (item first) (item second) count count = true ↔
      first = second := by
  rw [eqElements_iff]
  constructor
  · intro all
    funext index
    apply Subtype.ext
    have here := all (count - (index.1 + 1)) (by omega)
    rw [show count - (count - (index.1 + 1) + 1) = index.1 by omega, item, item,
      dif_pos index.2, dif_pos index.2] at here
    exact here
  · rintro rfl _ _
    rfl

mutual

theorem eqField_iff :
    ∀ (ftype : FieldType) (first second : ftype.Value),
      eqField ftype first second = true ↔ first = second
  | .basic _, _, _ => decide_eq_true_iff.trans Subtype.ext_iff.symm
  | .tComp _ cfields, first, second => eqFields_iff cfields first second
  | .tArray _ _, first, second => eqElements_item_iff first second

theorem eqFields_iff :
    ∀ (cfields : List Field) (first second : StructValue cfields),
      eqFields cfields first second = true ↔ first = second
  | [], _, _ => ⟨fun _ => rfl, fun _ => rfl⟩
  | (_, ftype) :: rest, (first, firsts), (second, seconds) => by
      rw [eqFields, Bool.and_eq_true, eqField_iff ftype, eqFields_iff rest]
      exact Prod.mk_inj.symm

end

/-- The key operations that the generated functions compute. -/
def keyOps
    (crc : Crc)
    (cfields : List Field) : Map.KeyOps (StructValue cfields) where
  eq := eqFields cfields
  hash value := (hashFields crc cfields value 0).toNat
  eq_refl key := (eqFields_iff cfields key key).mpr rfl
  eq_symm equal := (eqFields_iff cfields _ _).mpr ((eqFields_iff cfields _ _).mp equal).symm
  eq_trans first second := (eqFields_iff cfields _ _).mpr
    (((eqFields_iff cfields _ _).mp first).trans ((eqFields_iff cfields _ _).mp second))
  hash_eq equal := by rw [(eqFields_iff cfields _ _).mp equal]

/-- For every struct for which both functions compile, there are key operations
that the functions compute.  They compare values, and a map that calls the
functions gives, in every run of allowed calls, the replies of a dictionary with
the values as keys. -/
theorem generated_keys_serve_map
    (crc : Crc)
    {cfields : List Field}
    (compile : fieldsCompile [] cfields)
    (nonempty : cfields.isEmpty = false ∧ allHaveFields cfields)
    (build : Map.Build)
    (memory : Map.Arrays (StructValue cfields))
    {capacity : ℕ}
    {map : Map (StructValue cfields)}
    (positive : 0 < capacity)
    (bounded : capacity < 2 ^ 31)
    (allocated : Map.mapAllocate build memory capacity = some map) :
    ∃ ops : Map.KeyOps (StructValue cfields),
      (∀ first second, eq cfields first second = some (ops.eq first second)) ∧
      (∀ value, hash crc cfields value = some (ops.hash value : ℤ)) ∧
      (∀ first second, ops.eq first second = true ↔ first = second) ∧
      ∀ calls, Transcript.Permitted (Map.Call.Allowed ops capacity)
          (Map.Call.spec ops) calls [] →
        (Transcript.run (Map.Call.exec build ops) calls map).1 =
          (Transcript.run (Map.Call.spec ops) calls []).1 := by
  refine ⟨keyOps crc cfields, ?_, ?_, eqFields_iff cfields, ?_⟩
  · intro first second
    unfold eq
    rw [compile, nonempty.1, nonempty.2]
    rfl
  · intro value
    have word := IsWord.hashFields crc cfields value isWord_zero
    unfold hash
    rw [if_pos compile]
    exact congrArg some (Int.toNat_of_nonneg word.1).symm
  · intro calls permitted
    exact (Transcript.run_refines _ (fun _ _ _ represents allowed => represents.exec allowed)
      (Map.Represents.allocate positive bounded allocated) permitted).1

/-- A stored struct is found again. -/
theorem generated_keys_serve_map_tagged :
    let stored : StructValue tagWithDigest := (⟨7, by decide⟩, fun _ => ⟨1, by decide⟩, ())
    let memory : Map.Arrays (StructValue tagWithDigest) :=
      ⟨fun _ => 3, fun _ => stored, fun _ => 0, fun _ => 9, fun _ => 0⟩
    ∃ map, Map.mapAllocate .pow2 memory 2 = some map ∧ ∃ ops : Map.KeyOps _,
      (Transcript.run (Map.Call.exec .pow2 ops) [.put stored 5, .get stored] map).1 =
        [.slotFound true, .value (some 5)] := by
  intro stored memory
  refine ⟨_, rfl, ?_⟩
  obtain ⟨ops, _, _, _, refines⟩ := generated_keys_serve_map markCrc (show fieldsCompile []
    tagWithDigest by decide) ⟨rfl, by decide⟩ .pow2 memory (show 0 < 2 by decide) (by decide) rfl
  refine ⟨ops, (refines _ ?_).trans ?_⟩
  · simp [Transcript.Permitted, Map.Call.Allowed, Map.Dictionary.Present]
  · simp [Transcript.run, Map.Call.spec, Map.Dictionary.entry, ops.eq_refl]

end Codegen
end Vigor
