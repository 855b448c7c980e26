import Vigor.Codegen.Impl
import Vigor.Library.Crc

/-!
# Agreement of the generated hash functions

The two functions for a struct agree on all values if the C function compiles
and two things hold in every struct inside: only the first field is an array of
more than one element, and no number is converted by the C function alone.  Each
of them is also necessary.  The proof that they are takes values that are zero
in all other fields, and a function that keeps one number once it has seen it.
-/

namespace Vigor
namespace Codegen

/-! ## Conditions -/

/-- The field is not an array of more than one element. -/
def FieldType.isShort : FieldType → Bool
  | .tArray _ count => count.1 ≤ 1
  | _ => true

mutual

/-- Arrays in the structs of a field are short, except in the first place. -/
def FieldType.shortInside : FieldType → Bool
  | .tComp _ cfields => lateArraysShort cfields
  | _ => true
termination_by structural ftype => ftype

/-- Arrays are short, also in the structs of the fields. -/
def arraysShort : List Field → Bool
  | [] => true
  | (_, ftype) :: rest => ftype.isShort && ftype.shortInside && arraysShort rest
termination_by structural cfields => cfields

/-- Arrays after the first field are short, also in the structs of the
fields. -/
def lateArraysShort : List Field → Bool
  | [] => true
  | (_, ftype) :: rest => ftype.shortInside && arraysShort rest
termination_by structural cfields => cfields

end

/-- The kind has no negative numbers. -/
def Ikind.isUnsigned (ikind : Ikind) : Bool :=
  0 ≤ ikind.lower

mutual

/-- The C function converts no number of the type: the kinds of fields are
unsigned or long, and those of elements are unsigned and not long. -/
def FieldType.plain : FieldType → Bool
  | .basic ttype => ttype.ikind.isUnsigned || ttype.ikind.isLong
  | .tComp _ cfields => plainFields cfields
  | .tArray element _ => element.ikind.isUnsigned && !element.ikind.isLong
termination_by structural ftype => ftype

/-- All fields are plain. -/
def plainFields : List Field → Bool
  | [] => true
  | (_, ftype) :: rest => ftype.plain && plainFields rest
termination_by structural cfields => cfields

end

/-- The number is an `unsigned`. -/
def IsWord (number : ℤ) : Prop :=
  0 ≤ number ∧ number < 2 ^ 32

mutual

/-- The C function converts no number of the value: the elements of arrays are
words, after they are cut if they are not the first. -/
def FieldType.Tame : (ftype : FieldType) → ftype.Value → Prop
  | .basic ttype, number => ttype.ikind.isLong ∨ IsWord number.1
  | .tComp _ cfields, value => TameFields cfields value
  | .tArray element _, numbers =>
      IsWord (item numbers 0) ∧ ∀ index, IsWord (basicHash (item numbers (index + 1)) element)
termination_by structural ftype => ftype

/-- The values of all fields are tame. -/
def TameFields : (cfields : List Field) → StructValue cfields → Prop
  | [], _ => True
  | (_, ftype) :: rest, (value, values) => ftype.Tame value ∧ TameFields rest values
termination_by structural cfields => cfields

end

/-! ## Sufficiency -/

theorem basicHash_eq
    (x : ℤ)
    (ttype : IntType) :
    basicHash x ttype = if ttype.ikind.isLong then x % 2 ^ 44 else x := by
  induction ttype with
  | tInt ikind => rfl
  | tNamed ttype ih => exact ih

theorem cutoff_eq
    (hash : ℤ)
    (ttype : IntType) :
    cutoff hash ttype = if ttype.ikind.isLong then hash % 2 ^ 32 else hash := by
  induction ttype with
  | tInt ikind => rfl
  | tNamed ttype ih => exact ih

theorem isWord_zero : IsWord 0 :=
  ⟨Int.le_refl 0, by decide⟩

theorem isWord_one : IsWord 1 :=
  ⟨by decide, by decide⟩

theorem isWord_emod (number : ℤ) : IsWord (number % 2 ^ 32) :=
  ⟨Int.emod_nonneg _ (by decide), Int.emod_lt_of_pos _ (by decide)⟩

section Words

variable {acc number : ℤ}

theorem IsWord.emod_eq (word : IsWord number) : number % 2 ^ 32 = number :=
  Int.emod_eq_of_lt word.1 word.2

theorem IsWord.crc
    (accWord : IsWord acc)
    (crc : Crc)
    (word : IsWord number) :
    IsWord (crc.hash acc number) :=
  crc.si acc number accWord.1 accWord.2 word.1 word.2

theorem IsWord.basicHash_eq
    (word : IsWord number)
    (ttype : IntType) :
    basicHash number ttype = number := by
  rw [Codegen.basicHash_eq]
  split
  · have := word.2
    exact Int.emod_eq_of_lt word.1 (by omega)
  · rfl

section

variable (accWord : IsWord acc)
  (crc : Crc)

include accWord

/-- What the C function assigns to a hash that is a word. -/
theorem IsWord.cBasicHash_eq
    (x : ℤ)
    (ttype : IntType) :
    cBasicHash crc acc x ttype % 2 ^ 32 =
      if ttype.ikind.isLong then crc.hash acc (x % 2 ^ 44) % 2 ^ 32
      else crc.hash acc (x % 2 ^ 32) := by
  induction ttype with
  | tInt ikind =>
      have narrow := (accWord.crc crc (isWord_emod x)).emod_eq
      have low : x % 2 ^ 44 % 2 ^ 64 = x % 2 ^ 44 := by omega
      have wide : acc % 2 ^ 64 = acc := by
        have := accWord.2
        exact Int.emod_eq_of_lt accWord.1 (by omega)
      unfold cBasicHash IntType.ikind
      split
      · rw [wide, low, Int.emod_emod]
      · rw [accWord.emod_eq, narrow]
  | tNamed ttype ih => exact ih

theorem IsWord.cutoff_hash
    (tame : ttype.ikind.isLong ∨ IsWord number) :
    cutoff (crc.hash acc (basicHash number ttype)) ttype =
      cBasicHash crc acc number ttype % 2 ^ 32 := by
  rw [cutoff_eq, Codegen.basicHash_eq, accWord.cBasicHash_eq]
  cases long : ttype.ikind.isLong with
  | true => rfl
  | false =>
      have word : IsWord number := by simpa [long] using tame
      exact congrArg (crc.hash acc) word.emod_eq.symm

theorem IsWord.hash_element
    (word : IsWord (basicHash number element)) :
    cBasicHash crc acc number element % 2 ^ 32 =
      crc.hash acc (basicHash number element) := by
  rw [accWord.cBasicHash_eq]
  rw [Codegen.basicHash_eq] at word ⊢
  cases long : element.ikind.isLong with
  | true =>
      rw [long, if_pos rfl] at word
      exact (accWord.crc crc word).emod_eq
  | false =>
      rw [long] at word
      exact congrArg (crc.hash acc) word.emod_eq

theorem IsWord.hash_first
    (element : IntType)
    (word : IsWord number) :
    cBasicHash crc acc number element % 2 ^ 32 = crc.hash acc number := by
  have same := word.basicHash_eq element
  rw [accWord.hash_element crc (same.symm ▸ word), same]

end

end Words

section Arrays

variable {crc : Crc} {element : IntType} {first : ℤ} {item : ℕ → ℤ}

section

variable (words : ∀ index, IsWord (basicHash (item (index + 1)) element))

include words

theorem isWord_arrFields
    (firstWord : IsWord first) :
    ∀ count, IsWord (arrFields crc element first item count)
  | 0 => firstWord
  | 1 => firstWord
  | i + 2 => (isWord_arrFields firstWord (i + 1)).crc crc (words i)

theorem hashElements_arrFields
    (crc : Crc)
    (firstWord : IsWord first)
    (isCount : done + 1 + i = count) :
    hashElements crc element item count i
        (arrFields crc element first item (done + 1)) =
      arrFields crc element first item count := by
  induction i generalizing done with
  | zero =>
      rw [← isCount]
      rfl
  | succ i ih =>
      have next : count - (i + 1) = done + 1 := by omega
      have word : IsWord (arrFields crc element first item (done + 1)) :=
        isWord_arrFields words firstWord _
      rw [hashElements, next, word.hash_element crc (words done)]
      exact ih (show done + 1 + 1 + i = count by omega)

theorem hashElements_eq
    (crc : Crc)
    (firstWord : IsWord (item 0))
    (count : ℕ) :
    hashElements crc element item (count + 1) (count + 1) 0 =
      arrFields crc element (crc.hash 0 (item 0)) item (count + 1) := by
  rw [hashElements, Nat.sub_self, isWord_zero.hash_first crc element firstWord]
  exact hashElements_arrFields words crc (isWord_zero.crc crc firstWord) (Nat.add_comm 1 count)

end

theorem isWord_hashElements
    {hash : ℤ}
    (word : IsWord hash) :
    IsWord (hashElements crc element item count i hash) := by
  induction i generalizing hash with
  | zero => exact word
  | succ i ih => exact ih (isWord_emod _)

end Arrays

theorem IsWord.hashField
    (crc : Crc)
    {hash : ℤ}
    (word : IsWord hash) :
    ∀ ftype value, IsWord (hashField crc ftype value hash)
  | .basic _, _ => isWord_emod _
  | .tComp _ _, _ => isWord_emod _
  | .tArray _ _, _ => isWord_hashElements word

theorem IsWord.hashFields (crc : Crc) :
    ∀ (cfields : List Field) (values : StructValue cfields) {hash : ℤ},
        IsWord hash →
      IsWord (hashFields crc cfields values hash)
  | [], _, _, word => word
  | (_, ftype) :: rest, (value, values), _, word =>
      IsWord.hashFields crc rest values (word.hashField crc ftype value)

theorem IsWord.hashField_struct
    (accWord : IsWord acc)
    (crc : Crc)
    (cname : String)
    (cfields : List Field)
    (value : StructValue cfields) :
    Codegen.hashField crc (.tComp cname cfields) value acc =
      crc.hash acc (Codegen.hashFields crc cfields value 0) := by
  have word := IsWord.hashFields crc cfields value isWord_zero
  change crc.hash (acc % 2 ^ 32) (Codegen.hashFields crc cfields value 0 % 2 ^ 32) % 2 ^ 32 = _
  rw [accWord.emod_eq, word.emod_eq, (accWord.crc crc word).emod_eq]

mutual

theorem cutoff_hash_fieldHash (crc : Crc) :
    ∀ (ftype : FieldType) (value : ftype.Value),
        ftype.isShort → ftype.shortInside →
      ftype.Tame value → ∀ {acc}, IsWord acc →
        ftype.cutoff (crc.hash acc (fieldHash crc ftype value)) =
          hashField crc ftype value acc
  | .basic _, _, _, _, tame, _, accWord => accWord.cutoff_hash crc tame
  | .tComp cname cfields, value, _, short, tame, acc, accWord =>
      (congrArg (crc.hash acc) (genExp_eq crc cfields value short tame)).trans
        (accWord.hashField_struct crc cname cfields value).symm
  | .tArray element ⟨count, positive⟩, numbers, single, _, tame, _, accWord => by
      obtain rfl : count = 1 := Nat.le_antisymm (of_decide_eq_true single) positive
      exact (accWord.hash_first crc element tame.1).symm

theorem fieldHash0_eq (crc : Crc) :
    ∀ (ftype : FieldType) (value : ftype.Value),
        ftype.shortInside → ftype.Tame value →
      fieldHash0 crc ftype value = hashField crc ftype value 0
  | .basic _, _, _, tame => isWord_zero.cutoff_hash crc tame
  | .tComp cname cfields, value, short, tame =>
      (congrArg (crc.hash 0) (genExp_eq crc cfields value short tame)).trans
        (isWord_zero.hashField_struct crc cname cfields value).symm
  | .tArray _ ⟨count + 1, _⟩, _, _, tame => (hashElements_eq tame.2 crc tame.1 count).symm

theorem genExpR_eq (crc : Crc) :
    ∀ (cfields : List Field) (values : StructValue cfields),
        arraysShort cfields →
      TameFields cfields values → ∀ {acc}, IsWord acc →
        genExpR crc cfields values acc = hashFields crc cfields values acc
  | [], _, _, _, _, _ => rfl
  | (_, ftype) :: rest, (value, values), short, tame, acc, accWord => by
      rw [arraysShort, Bool.and_eq_true, Bool.and_eq_true] at short
      obtain ⟨⟨isShort, inside⟩, later⟩ := short
      rw [genExpR, cutoff_hash_fieldHash crc ftype value isShort inside tame.1 accWord]
      exact genExpR_eq crc rest values later tame.2 (accWord.hashField crc ftype value)

theorem genExp_eq (crc : Crc) :
    ∀ (cfields : List Field) (values : StructValue cfields),
        lateArraysShort cfields →
      TameFields cfields values →
        genExp crc cfields values = hashFields crc cfields values 0
  | [], _, _, _ => rfl
  | (_, ftype) :: rest, (value, values), short, tame => by
      rw [lateArraysShort, Bool.and_eq_true] at short
      rw [genExp, fieldHash0_eq crc ftype value short.1 tame.1]
      exact genExpR_eq crc rest values short.2 tame.2 (isWord_zero.hashField crc ftype value)

end

theorem Ikind.isWord_of_bounds
    {ikind : Ikind}
    (bounds : ikind.lower ≤ number ∧ number ≤ ikind.upper)
    (unsigned : ikind.isUnsigned)
    (short : ¬ikind.isLong) :
    IsWord number := by
  cases ikind <;> simp_all [Ikind.isUnsigned, Ikind.isLong, Ikind.lower, Ikind.upper, IsWord] <;>
    omega

mutual

theorem FieldType.tame_of_plain :
    ∀ (ftype : FieldType) (value : ftype.Value), ftype.plain → ftype.Tame value
  | .basic ttype, number, plain => by
      by_cases long : ttype.ikind.isLong
      · exact .inl long
      · rw [FieldType.plain, Bool.or_eq_true] at plain
        exact .inr (Ikind.isWord_of_bounds number.2 (plain.resolve_right long) long)
  | .tComp _ cfields, value, plain => tameFields_of_plain cfields value plain
  | .tArray element count, numbers, plain => by
      rw [FieldType.plain, Bool.and_eq_true, Bool.not_eq_true'] at plain
      have words : ∀ index, IsWord (item numbers index) := by
        intro index
        unfold item
        split
        · rename_i inside
          exact Ikind.isWord_of_bounds (numbers ⟨index, inside⟩).2 plain.1 (by simp [plain.2])
        · exact isWord_zero
      refine ⟨words 0, fun index => ?_⟩
      rw [(words (index + 1)).basicHash_eq]
      exact words (index + 1)

theorem tameFields_of_plain :
    ∀ (cfields : List Field) (values : StructValue cfields),
        plainFields cfields →
      TameFields cfields values
  | [], _, _ => trivial
  | (_, ftype) :: rest, (value, values), plain => by
      rw [plainFields, Bool.and_eq_true] at plain
      exact ⟨ftype.tame_of_plain value plain.1, tameFields_of_plain rest values plain.2⟩

end

/-! ## Necessity -/

/-- Numbers that the C function never hashes, with the number that stands for
them. -/
def Marked (number : ℤ) : Prop :=
  number = 2 ∨ number = -1 ∨ number = 2 ^ 44

instance (number : ℤ) : Decidable (Marked number) :=
  inferInstanceAs (Decidable (_ ∨ _))

/-- A function that keeps the mark of marked numbers, and marks two ones. -/
def markCrc : Crc where
  hash acc x := if acc = 1 ∧ x = 1 ∨ Marked acc ∨ Marked x then 2 else 0
  si acc x _ _ _ _ := by split <;> decide

theorem marked_two : Marked 2 :=
  .inl rfl

theorem Marked.hash_right
    {x : ℤ}
    (marked : Marked x)
    (acc : ℤ) :
    markCrc.hash acc x = 2 :=
  if_pos (.inr (.inr marked))

theorem Marked.hash_left
    {acc : ℤ}
    (marked : Marked acc)
    (x : ℤ) :
    markCrc.hash acc x = 2 :=
  if_pos (.inr (.inl marked))

/-- The items of the values below. -/
def Quiet (number : ℤ) : Prop :=
  number = 0 ∨ number = 1 ∨ number = -1 ∨ number = 2 ^ 44

/-- The C function does not mark quiet numbers. -/
theorem Quiet.cBasicHash_eq
    {number : ℤ}
    (quiet : Quiet number)
    (ttype : IntType) :
    cBasicHash markCrc 0 number ttype % 2 ^ 32 = 0 := by
  rw [isWord_zero.cBasicHash_eq]
  rcases quiet with rfl | rfl | rfl | rfl <;> cases ttype.ikind.isLong <;> decide

theorem hashElements_quiet
    (element : IntType)
    {item : ℕ → ℤ}
    (quiet : ∀ index, Quiet (item index))
    (count i : ℕ) :
    hashElements markCrc element item count i 0 = 0 := by
  induction i with
  | zero => rfl
  | succ i ih =>
      rw [hashElements, (quiet _).cBasicHash_eq]
      exact ih

theorem Marked.arrFields
    (marked : Marked first)
    (element : IntType)
    (item : ℕ → ℤ) :
    ∀ count, Marked (arrFields markCrc element first item count)
  | 0 => marked
  | 1 => marked
  | i + 2 => .inl ((Marked.arrFields marked element item (i + 1)).hash_left _)

theorem marked_arrFields_of_ones
    (element : IntType)
    {item : ℕ → ℤ}
    (firstIsOne : first = 1)
    (isOne : item 1 = 1) :
    ∀ count, Marked (arrFields markCrc element first item (count + 2))
  | 0 => by
      change Marked (markCrc.hash first (basicHash (item 1) element))
      rw [firstIsOne, isOne, isWord_one.basicHash_eq]
      decide
  | count + 1 => .inl ((marked_arrFields_of_ones element firstIsOne isOne count).hash_left _)

theorem arrFields_two
    (element : IntType)
    (item : ℕ → ℤ) :
    ∀ count, arrFields markCrc element 2 item count = 2
  | 0 => rfl
  | 1 => rfl
  | i + 2 => by
      rw [arrFields, arrFields_two element item (i + 1)]
      exact marked_two.hash_left _

theorem cutoff_two : ∀ ftype : FieldType, ftype.cutoff 2 = 2
  | .basic ttype => by
      rw [FieldType.cutoff, cutoff_eq]
      split <;> rfl
  | .tComp _ _ => rfl
  | .tArray _ _ => rfl

theorem genExpR_two :
    ∀ (cfields : List Field) (values : StructValue cfields),
      genExpR markCrc cfields values 2 = 2
  | [], _ => rfl
  | (_, ftype) :: rest, (value, values) => by
      rw [genExpR, marked_two.hash_left, cutoff_two]
      exact genExpR_two rest values

theorem Ikind.bounds_zero_one (ikind : Ikind) :
    (ikind.lower ≤ 0 ∧ 0 ≤ ikind.upper) ∧ ikind.lower ≤ 1 ∧
      1 ≤ ikind.upper := by
  cases ikind <;> decide

/-- Zero as a number of a type. -/
def IntType.zero (ttype : IntType) : ttype.Value :=
  ⟨0, ttype.ikind.bounds_zero_one.1⟩

mutual

/-- The value of a type that is zero in all items. -/
def FieldType.zero : (ftype : FieldType) → ftype.Value
  | .basic ttype => ttype.zero
  | .tComp _ cfields => zeroFields cfields
  | .tArray element _ => fun _ => element.zero
termination_by structural ftype => ftype

/-- Values of fields that are zero in all items. -/
def zeroFields : (cfields : List Field) → StructValue cfields
  | [] => ()
  | (_, ftype) :: rest => (ftype.zero, zeroFields rest)
termination_by structural cfields => cfields

end

/-- The hash in C stays zero after the value of a field. -/
def Silent
    (ftype : FieldType)
    (value : ftype.Value) : Prop :=
  hashField markCrc ftype value 0 = 0

/-- The hash in C stays zero after the values of fields. -/
def SilentFields
    (cfields : List Field)
    (values : StructValue cfields) : Prop :=
  hashFields markCrc cfields values 0 = 0

section Necessity

variable {fname : String} {ftype : FieldType} {value : ftype.Value}

theorem Silent.cons
    (silent : Silent ftype value)
    (later : SilentFields rest values)
    (fname : String) :
    SilentFields ((fname, ftype) :: rest) (value, values) := by
  unfold SilentFields
  rw [hashFields, silent]
  exact later

theorem SilentFields.struct
    {inner : List Field}
    {values : StructValue inner}
    (silent : SilentFields inner values)
    (cname : String) :
    Silent (.tComp cname inner) values := by
  refine (isWord_zero.hashField_struct markCrc cname inner values).trans ?_
  rw [silent]
  decide

variable {element : IntType}

theorem item_zero
    (ttype : IntType)
    (count index : ℕ) :
    item (fun _ : Fin count => ttype.zero) index = 0 := by
  unfold item
  split <;> rfl

/-- An array whose first items are a number, with zeros behind them. -/
def leading
    {element : IntType}
    (number : element.Value)
    (bound count : ℕ) :
    Fin count → element.Value :=
  fun index => if index.1 < bound then number else element.zero

theorem item_leading
    (number : element.Value)
    (bound count index : ℕ) :
    item (leading number bound count) index = number.1 ∨
      item (leading number bound count) index = 0 := by
  unfold item leading
  split
  · split
    · exact .inl rfl
    · exact .inr rfl
  · exact .inr rfl

theorem silent_leading
    {count : { count : ℕ // 0 < count }}
    (quiet : Quiet number.1) :
    Silent (.tArray element count) (leading number bound count.1) := by
  refine hashElements_quiet element (fun index => ?_) _ _
  rcases item_leading number bound count.1 index with isNumber | isZero
  · rw [isNumber]
    exact quiet
  · exact .inl isZero

theorem Ikind.bounds_neg_one
    (ikind : Ikind)
    (signed : ikind.isUnsigned = false) :
    ikind.lower ≤ -1 ∧ -1 ≤ ikind.upper := by
  cases ikind <;> first | decide | cases signed

/-- Elements that are not plain can be numbers that the C function converts. -/
theorem IntType.exists_marked
    (element : IntType)
    (notPlain : (element.ikind.isUnsigned && !element.ikind.isLong) = false) :
    ∃ number : element.Value, Quiet number.1 ∧ Marked number.1 := by
  cases long : element.ikind.isLong with
  | true =>
      have bounds : element.ikind.lower ≤ 2 ^ 44 ∧ 2 ^ 44 ≤ element.ikind.upper := by
        generalize element.ikind = ikind at long
        cases ikind <;> first | decide | cases long
      exact ⟨⟨2 ^ 44, bounds⟩, .inr (.inr (.inr rfl)), .inr (.inr rfl)⟩
  | false =>
      rw [long, Bool.not_false, Bool.and_true] at notPlain
      exact ⟨⟨-1, element.ikind.bounds_neg_one notPlain⟩, .inr (.inr (.inl rfl)), .inr (.inl rfl)⟩

mutual

theorem silent_zero : ∀ ftype : FieldType, Silent ftype ftype.zero
  | .basic ttype => Quiet.cBasicHash_eq (.inl rfl) ttype
  | .tComp cname cfields => (silentFields_zero cfields).struct cname
  | .tArray element count =>
      hashElements_quiet element (fun index => .inl (item_zero element count.1 index)) _ _

theorem silentFields_zero :
    ∀ cfields : List Field, SilentFields cfields (zeroFields cfields)
  | [] => rfl
  | (fname, ftype) :: rest => (silent_zero ftype).cons (silentFields_zero rest) fname

end

/-- Some value of the field marks the hash after it, in the logical function
alone. -/
def Spoils (ftype : FieldType) : Prop :=
  ∃ value, Silent ftype value ∧ Marked (fieldHash markCrc ftype value)

/-- The same in the first place. -/
def SpoilsFirst (ftype : FieldType) : Prop :=
  ∃ value, Silent ftype value ∧ Marked (fieldHash markCrc ftype value) ∧
    fieldHash0 markCrc ftype value = 2

theorem SpoilsFirst.spoils : SpoilsFirst ftype → Spoils ftype
  | ⟨value, silent, marked, _⟩ => ⟨value, silent, marked⟩

/-- Some values of fields mark the hash after them, in the logical function
alone. -/
def SpoiledLater (cfields : List Field) : Prop :=
  ∃ values, SilentFields cfields values ∧ ∀ acc, genExpR markCrc cfields values acc = 2

/-- Some values of the struct are marked by the logical function alone. -/
def Spoiled (cfields : List Field) : Prop :=
  ∃ values, SilentFields cfields values ∧ genExp markCrc cfields values = 2

theorem Spoils.later
    (spoils : Spoils ftype)
    (fname : String)
    (rest : List Field) :
    SpoiledLater ((fname, ftype) :: rest) := by
  obtain ⟨value, silent, marked⟩ := spoils
  refine ⟨(value, zeroFields rest), silent.cons (silentFields_zero rest) fname, ?_⟩
  intro acc
  rw [genExpR, marked.hash_right, cutoff_two]
  exact genExpR_two rest _

theorem SpoiledLater.cons
    (spoiled : SpoiledLater rest)
    (fname : String)
    (ftype : FieldType) :
    SpoiledLater ((fname, ftype) :: rest) ∧
      Spoiled ((fname, ftype) :: rest) := by
  obtain ⟨values, silent, isTwo⟩ := spoiled
  have together := (silent_zero ftype).cons silent fname
  exact ⟨⟨(ftype.zero, values), together, fun _ => isTwo _⟩,
    (ftype.zero, values), together, isTwo _⟩

theorem SpoilsFirst.spoiled
    (spoils : SpoilsFirst ftype)
    (fname : String)
    (rest : List Field) :
    Spoiled ((fname, ftype) :: rest) := by
  obtain ⟨value, silent, _, first⟩ := spoils
  refine ⟨(value, zeroFields rest), silent.cons (silentFields_zero rest) fname, ?_⟩
  rw [genExp, first]
  exact genExpR_two rest _

theorem Spoiled.struct
    {inner : List Field}
    (spoiled : Spoiled inner)
    (cname : String) :
    SpoilsFirst (.tComp cname inner) := by
  obtain ⟨values, silent, isTwo⟩ := spoiled
  exact ⟨values, silent.struct cname, .inl isTwo,
    (congrArg (markCrc.hash 0) isTwo).trans (marked_two.hash_right 0)⟩

/-- Two ones spoil an array after the first field. -/
theorem spoils_of_not_short (notShort : ftype.isShort = false) :
    Spoils ftype := by
  match ftype, notShort with
  | .tArray element ⟨0, positive⟩, _ => exact absurd positive (Nat.lt_irrefl 0)
  | .tArray element ⟨count + 2, _⟩, _ =>
      refine ⟨leading ⟨1, element.ikind.bounds_zero_one.2⟩ 2 (count + 2),
        silent_leading (.inr (.inl rfl)), ?_⟩
      change Marked (arrFields markCrc element (item _ 0) (item _) (count + 2))
      exact marked_arrFields_of_ones element (dif_pos (Nat.succ_pos _)) (dif_pos (by simp)) count

theorem spoilsFirst_basic (notPlain : FieldType.plain (.basic ttype) = false) :
    SpoilsFirst (.basic ttype) := by
  rw [FieldType.plain, Bool.or_eq_false_iff] at notPlain
  have marked : Marked (fieldHash markCrc (.basic ttype)
      ⟨-1, ttype.ikind.bounds_neg_one notPlain.1⟩) := by
    change Marked (basicHash (-1) ttype)
    rw [basicHash_eq, notPlain.2]
    exact .inr (.inl rfl)
  refine ⟨⟨-1, _⟩, Quiet.cBasicHash_eq (.inr (.inr (.inl rfl))) ttype, marked, ?_⟩
  exact (congrArg (FieldType.cutoff · (.basic ttype)) (marked.hash_right 0)).trans (cutoff_two _)

theorem spoilsFirst_array
    {count : { count : ℕ // 0 < count }}
    (notPlain : FieldType.plain (.tArray element count) = false) :
    SpoilsFirst (.tArray element count) := by
  obtain ⟨number, quiet, marked⟩ := element.exists_marked notPlain
  obtain ⟨count, positive⟩ := count
  have first : item (leading number 1 count) 0 = number.1 := by
    rw [item, dif_pos positive]
    rfl
  refine ⟨leading number 1 count, silent_leading quiet, ?_, ?_⟩
  · change Marked (arrFields markCrc element (item (leading number 1 count) 0) _ count)
    rw [first]
    exact marked.arrFields element _ count
  · change arrFields markCrc element (markCrc.hash 0 (item (leading number 1 count) 0)) _ count = 2
    rw [first, marked.hash_right]
    exact arrFields_two element _ count

mutual

theorem FieldType.spoilsFirst_of_not_shortInside :
    ∀ ftype : FieldType, ftype.shortInside = false → SpoilsFirst ftype
  | .tComp cname cfields, notShort => (spoiled_of_not_short cfields notShort).struct cname

theorem spoiledLater_of_not_short :
    ∀ cfields : List Field, arraysShort cfields = false → SpoiledLater cfields
  | (fname, ftype) :: rest, notShort => by
      rw [arraysShort, Bool.and_eq_false_iff, Bool.and_eq_false_iff] at notShort
      rcases notShort with (long | inside) | later
      · exact (spoils_of_not_short long).later fname rest
      · exact (ftype.spoilsFirst_of_not_shortInside inside).spoils.later fname rest
      · exact ((spoiledLater_of_not_short rest later).cons fname ftype).1

theorem spoiled_of_not_short :
    ∀ cfields : List Field, lateArraysShort cfields = false → Spoiled cfields
  | (fname, ftype) :: rest, notShort => by
      rw [lateArraysShort, Bool.and_eq_false_iff] at notShort
      rcases notShort with inside | later
      · exact (ftype.spoilsFirst_of_not_shortInside inside).spoiled fname rest
      · exact ((spoiledLater_of_not_short rest later).cons fname ftype).2

end

mutual

theorem FieldType.spoilsFirst_of_not_plain :
    ∀ ftype : FieldType, ftype.plain = false → SpoilsFirst ftype
  | .basic _, notPlain => spoilsFirst_basic notPlain
  | .tComp cname cfields, notPlain => (spoiled_of_not_plain cfields notPlain).2.struct cname
  | .tArray _ _, notPlain => spoilsFirst_array notPlain

theorem spoiled_of_not_plain :
    ∀ cfields : List Field,
      plainFields cfields = false → SpoiledLater cfields ∧ Spoiled cfields
  | (fname, ftype) :: rest, notPlain => by
      rw [plainFields, Bool.and_eq_false_iff] at notPlain
      rcases notPlain with here | later
      · have spoils := ftype.spoilsFirst_of_not_plain here
        exact ⟨spoils.spoils.later fname rest, spoils.spoiled fname rest⟩
      · exact (spoiled_of_not_plain rest later).1.cons fname ftype

end

end Necessity

/-! ## Agreement -/

/-- The C function computes the number that the logical function returns. -/
def Agree
    (crc : Crc)
    (cfields : List Field)
    (value : StructValue cfields) : Prop :=
  hash crc cfields value = some (genExp crc cfields value)

variable {cfields : List Field}

theorem agree_iff :
    Agree crc cfields value ↔
      fieldsCompile [] cfields ∧
        hashFields crc cfields value 0 = genExp crc cfields value := by
  unfold Agree hash
  cases fieldsCompile [] cfields <;> simp

/-- The functions differ on some value of a spoiled struct. -/
theorem Spoiled.not_agree (spoiled : Spoiled cfields) :
    ¬∀ values, Agree markCrc cfields values := by
  obtain ⟨values, silent, isTwo⟩ := spoiled
  intro agree
  have same := (agree_iff.mp (agree values)).2
  rw [silent, isTwo] at same
  exact absurd same (by decide)

/-- The functions agree on all values of a struct, for every function that is
hashed with, exactly when the C function compiles, arrays after the first field
have one element in every struct inside, and no kind has numbers that the C
function alone converts.  The first two are enough for values without such
numbers. -/
theorem generated_hashes_agree_iff (cfields : List Field) :
    ((∀ crc values, Agree crc cfields values) ↔
      fieldsCompile [] cfields ∧ lateArraysShort cfields ∧
        plainFields cfields) ∧
    (fieldsCompile [] cfields → lateArraysShort cfields →
      ∀ crc values, TameFields cfields values → Agree crc cfields values) := by
  have sufficient : fieldsCompile [] cfields → lateArraysShort cfields →
      ∀ crc values, TameFields cfields values → Agree crc cfields values := by
    intro compile short crc values tame
    exact agree_iff.mpr ⟨compile, (genExp_eq crc cfields values short tame).symm⟩
  refine ⟨⟨fun agree => ⟨(agree_iff.mp (agree markCrc (zeroFields cfields))).1, ?_, ?_⟩, ?_⟩,
    sufficient⟩
  · cases short : lateArraysShort cfields with
    | true => rfl
    | false => exact absurd (agree markCrc) (spoiled_of_not_short cfields short).not_agree
  · cases plain : plainFields cfields with
    | true => rfl
    | false => exact absurd (agree markCrc) (spoiled_of_not_plain cfields plain).2.not_agree
  · rintro ⟨compile, short, plain⟩ crc values
    exact sufficient compile short crc values (tameFields_of_plain cfields values plain)

/-- `struct { uint8_t tag; uint8_t digest[2]; }`, whose functions do not
agree. -/
def tagWithDigest : List Field :=
  [("tag", .basic (.tNamed (.tInt .iUChar))),
    ("digest", .tArray (.tNamed (.tInt .iUChar)) ⟨2, by decide⟩)]

/-- The CRC of the processor. -/
def crc32 : Crc where
  hash acc x := crc32si acc.toNat x.toNat
  si acc x _ accWord _ xWord := by
    have word := crc32si_lt (show acc.toNat < 2 ^ 32 by omega)
      (show x.toNat < 2 ^ 32 by omega)
    exact ⟨Int.natCast_nonneg _, by omega⟩

/-- The C function hashes the elements of the array one after the other into the
hash value of the tag, and the logical function hashes the second into the first
before. -/
theorem generated_hashes_differ_for_digest :
    hash crc32 tagWithDigest (⟨0, by decide⟩, fun _ => ⟨1, by decide⟩, ()) =
        some 2491013023 ∧
      genExp crc32 tagWithDigest
        (⟨0, by decide⟩, fun _ => ⟨1, by decide⟩, ()) = 0 := by
  decide +kernel

end Codegen
end Vigor
