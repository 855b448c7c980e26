import Vigor.Map.Contract
import Vigor.Library.Transcript

/-!
# Runs of the map refine a finite dictionary

The dictionary is a list of entries with pairwise different keys.  Every run
of calls that respects the two preconditions, from a freshly allocated map,
gives the replies of the dictionary.
-/

namespace Vigor
namespace Map

variable {κ : Type u} {build : Build} {ops : KeyOps κ}

/-! ## The dictionary -/

/-- Entries of a finite map: references and values. -/
abbrev Dictionary (κ : Type u) := List (κ × ℤ)

namespace Dictionary

/-- The entry of a key. -/
def entry
    (ops : KeyOps κ)
    (key : κ)
    (dictionary : Dictionary κ) :
    Option (κ × ℤ) :=
  dictionary.find? fun stored => ops.eq stored.1 key

/-- The dictionary has an entry for a key. -/
def Present
    (ops : KeyOps κ)
    (key : κ)
    (dictionary : Dictionary κ) : Prop :=
  ∃ stored ∈ dictionary, ops.eq stored.1 key = true

instance (ops : KeyOps κ) (key : κ) (dictionary : Dictionary κ) :
    Decidable (Present ops key dictionary) :=
  inferInstanceAs (Decidable (∃ stored ∈ dictionary, ops.eq stored.1 key = true))

/-- The dictionary without the entries of a key. -/
def erase
    (ops : KeyOps κ)
    (key : κ)
    (dictionary : Dictionary κ) :
    Dictionary κ :=
  dictionary.filter fun stored => !ops.eq stored.1 key

/-- No two entries have equal keys. -/
def Distinct
    (ops : KeyOps κ)
    (dictionary : Dictionary κ) : Prop :=
  dictionary.Pairwise fun first second => ops.eq first.1 second.1 = false

/-- The entry of a key is an entry of an equal key. -/
theorem mem_of_entry
    {dictionary : Dictionary κ}
    (found : dictionary.entry ops key = some stored) :
    stored ∈ dictionary ∧ ops.eq stored.1 key = true :=
  ⟨List.mem_of_find?_eq_some found,
    List.find?_some (p := fun candidate : κ × ℤ => ops.eq candidate.1 key) found⟩

theorem length_erase
    {dictionary : Dictionary κ}
    (distinct : dictionary.Distinct ops)
    (present : dictionary.Present ops key) :
    (dictionary.erase ops key).length + 1 = dictionary.length := by
  induction dictionary with
  | nil =>
      obtain ⟨_, member, _⟩ := present
      cases member
  | cons stored rest ih =>
      obtain ⟨others, restDistinct⟩ := List.pairwise_cons.mp distinct
      by_cases here : ops.eq stored.1 key = true
      · have untouched : Dictionary.erase ops key rest = rest := by
          apply List.filter_eq_self.mpr
          intro other member
          rw [Bool.not_eq_true', Bool.eq_false_iff]
          intro equal
          have same := ops.eq_trans here (ops.eq_symm equal)
          exact Bool.false_ne_true ((others other member).symm.trans same)
        rw [erase, List.filter_cons_of_neg (by simp [here])]
        exact congrArg (fun list => list.length + 1) untouched
      · have later : Dictionary.Present ops key rest := by
          obtain ⟨other, member, equal⟩ := present
          rcases List.mem_cons.mp member with same | later
          · exact absurd (same ▸ equal) here
          · exact ⟨other, later, equal⟩
        have shrunk := ih restDistinct later
        rw [erase, List.filter_cons_of_pos (by simp [here])]
        simp only [List.length_cons]
        exact congrArg (· + 1) shrunk

end Dictionary

/-! ## Calls -/

/-- A call of one of the functions of the map. -/
inductive Call (κ : Type u)
  | get (key : κ)
  | size
  | put (key : κ) (value : ℤ)
  | erase (key : κ)

/-- What a call returns.  For `map_put`, which returns nothing, the reply says
whether the probe found a free slot. -/
inductive Reply (κ : Type u)
  | value (result : Option ℤ)
  | count (result : ℕ)
  | slotFound (result : Bool)
  | trash (result : Option κ)
  deriving DecidableEq

namespace Call

/-- The call as the code executes it. -/
def exec
    (build : Build)
    (ops : KeyOps κ)
    (call : Call κ)
    (map : Map κ) :
    Reply κ × Map κ :=
  match call with
  | .get key => (.value (mapGet build ops map key), map)
  | .size => (.count (mapSize map), map)
  | .put key value =>
      let (slot, _) := findEmpty build map.arrays
        (build.loop (ops.hash key) map.capacity) map.capacity
      (.slotFound slot.isSome, mapPut build ops map key value)
  | .erase key =>
      let (trash, map) := mapErase build ops map key
      (.trash trash, map)

/-- The call on the dictionary. -/
def spec
    (ops : KeyOps κ)
    (call : Call κ)
    (dictionary : Dictionary κ) :
    Reply κ × Dictionary κ :=
  match call with
  | .get key => (.value ((dictionary.entry ops key).map Prod.snd), dictionary)
  | .size => (.count dictionary.length, dictionary)
  | .put key value => (.slotFound true, (key, value) :: dictionary)
  | .erase key =>
      (.trash ((dictionary.entry ops key).map Prod.fst),
        dictionary.erase ops key)

/-- The precondition of the call: only absent keys are put, only while there
is room, and only present keys are erased. -/
def Allowed
    (ops : KeyOps κ)
    (capacity : ℕ)
    (call : Call κ)
    (dictionary : Dictionary κ) : Prop :=
  match call with
  | .get _ | .size => True
  | .put key _ => ¬dictionary.Present ops key ∧ dictionary.length < capacity
  | .erase key => dictionary.Present ops key

instance
    (ops : KeyOps κ)
    (capacity : ℕ)
    (call : Call κ)
    (dictionary : Dictionary κ) :
    Decidable (call.Allowed ops capacity dictionary) :=
  match call with
  | .get _ | .size => inferInstanceAs (Decidable True)
  | .put key _ => inferInstanceAs (Decidable
      (¬dictionary.Present ops key ∧ dictionary.length < capacity))
  | .erase key => inferInstanceAs (Decidable (dictionary.Present ops key))

end Call

/-- The map represents the dictionary. -/
structure Represents
    (build : Build)
    (ops : KeyOps κ)
    (capacity : ℕ)
    (map : Map κ)
    (dictionary : Dictionary κ) : Prop where
  valid : map.Valid build ops
  capacity_eq : map.capacity = capacity
  holds_iff : ∀ keyp value,
    map.Holds keyp value ↔ (keyp, value) ∈ dictionary
  size_eq : map.size = dictionary.length
  distinct : dictionary.Distinct ops

namespace Represents

variable {capacity : ℕ} {map : Map κ} {dictionary : Dictionary κ}

theorem allocate
    (positive : 0 < capacity)
    (bounded : capacity < 2 ^ 31)
    (allocated : mapAllocate build memory capacity = some map) :
    Represents build ops capacity map [] := by
  obtain ⟨valid, capacityKept, empty, nothing⟩ :=
    mapAllocate_valid ops positive bounded allocated
  refine ⟨valid, capacityKept, ?_, empty, List.Pairwise.nil⟩
  intro keyp value
  constructor
  · intro held
    exact absurd held (nothing keyp value)
  · intro member
    cases member

section

variable (represents : Represents build ops capacity map dictionary)

include represents

theorem absent (missing : ¬dictionary.Present ops key) :
    map.Absent ops key := by
  intro keyp value held
  rw [Bool.eq_false_iff]
  intro equal
  exact missing ⟨_, (represents.holds_iff keyp value).mp held, equal⟩

theorem get (key : κ) :
    mapGet build ops map key = (dictionary.entry ops key).map Prod.snd := by
  cases found : dictionary.entry ops key with
  | none =>
      apply represents.valid.mapGet_eq_none_iff.mpr
      apply represents.absent
      intro present
      obtain ⟨stored, member, equal⟩ := present
      exact List.find?_eq_none.mp found stored member equal
  | some stored =>
      obtain ⟨member, equal⟩ := Dictionary.mem_of_entry found
      apply represents.valid.mapGet_eq_some_iff.mpr
      exact ⟨stored.1, (represents.holds_iff _ _).mpr member, equal⟩

theorem put
    (value : ℤ)
    (missing : ¬dictionary.Present ops key)
    (room : dictionary.length < capacity) :
    (findEmpty build map.arrays (build.loop (ops.hash key) map.capacity)
        map.capacity).1.isSome = true ∧
      Represents build ops capacity (mapPut build ops map key value)
        ((key, value) :: dictionary) := by
  have mapRoom : map.size < map.capacity := by
    rw [represents.size_eq, represents.capacity_eq]
    exact room
  obtain ⟨found, valid, grown, holds⟩ := represents.valid.mapPut value
    (represents.absent missing) mapRoom
  refine ⟨found, valid, represents.capacity_eq, ?_, ?_, ?_⟩
  · intro keyp stored
    rw [holds, represents.holds_iff, List.mem_cons, Prod.mk.injEq]
    exact Or.comm
  · rw [grown, represents.size_eq, List.length_cons]
  · refine List.pairwise_cons.mpr ⟨?_, represents.distinct⟩
    intro stored member
    rw [Bool.eq_false_iff]
    intro equal
    exact missing ⟨stored, member, ops.eq_symm equal⟩

theorem erase
    {key : κ}
    (present : dictionary.Present ops key) :
    (mapErase build ops map key).1 =
        (dictionary.entry ops key).map Prod.fst ∧
      Represents build ops capacity (mapErase build ops map key).2
        (dictionary.erase ops key) := by
  cases found : dictionary.entry ops key with
  | none =>
      obtain ⟨stored, member, equal⟩ := present
      exact absurd equal (List.find?_eq_none.mp found stored member)
  | some stored =>
      obtain ⟨member, equal⟩ := Dictionary.mem_of_entry found
      have held := (represents.holds_iff stored.1 stored.2).mpr member
      obtain ⟨trash, valid, shrunk, holds⟩ :=
        represents.valid.mapErase held equal
      refine ⟨trash, valid, represents.capacity_eq, ?_, ?_, ?_⟩
      · intro keyp value
        rw [holds, represents.holds_iff, Dictionary.erase, List.mem_filter, Bool.not_eq_true']
      · have length := Dictionary.length_erase represents.distinct present
        rw [represents.size_eq] at shrunk
        omega
      · exact represents.distinct.filter _

theorem exec
    {call : Call κ}
    (allowed : call.Allowed ops capacity dictionary) :
    (call.exec build ops map).1 = (call.spec ops dictionary).1 ∧
      Represents build ops capacity (call.exec build ops map).2
        (call.spec ops dictionary).2 := by
  cases call with
  | get key => exact ⟨congrArg Reply.value (represents.get key), represents⟩
  | size => exact ⟨congrArg Reply.count represents.size_eq, represents⟩
  | put key value =>
      obtain ⟨found, kept⟩ := represents.put value allowed.1 allowed.2
      exact ⟨congrArg Reply.slotFound found, kept⟩
  | erase key =>
      obtain ⟨trash, kept⟩ := represents.erase allowed
      exact ⟨congrArg Reply.trash trash, kept⟩

end

end Represents

/-- In every run of allowed calls from a freshly allocated map, in both builds,
`map_get` and `map_size` read the dictionary of the present keys, `map_erase`
hands back the stored key and `map_put` finds a slot; the map then represents
that dictionary. -/
theorem map_refines_dictionary
    (build : Build)
    (ops : KeyOps κ)
    (memory : Arrays κ)
    {capacity : ℕ}
    {map : Map κ}
    (positive : 0 < capacity)
    (bounded : capacity < 2 ^ 31)
    (allocated : mapAllocate build memory capacity = some map)
    (calls : List (Call κ))
    (permitted : Transcript.Permitted (Call.Allowed ops capacity)
      (Call.spec ops) calls []) :
    let outcome := Transcript.run (Call.exec build ops) calls map
    let abstract := Transcript.run (Call.spec ops) calls []
    outcome.1 = abstract.1 ∧
      Represents build ops capacity outcome.2 abstract.2 := by
  intro outcome abstract
  have initially : Represents build ops capacity map [] :=
    Represents.allocate positive bounded allocated
  have step : ∀ (call : Call κ) (map : Map κ) (dictionary : Dictionary κ),
      Represents build ops capacity map dictionary →
        call.Allowed ops capacity dictionary →
          (call.exec build ops map).1 = (call.spec ops dictionary).1 ∧
            Represents build ops capacity (call.exec build ops map).2
              (call.spec ops dictionary).2 :=
    fun _ _ _ represents allowed => represents.exec allowed
  exact Transcript.run_refines _ step initially permitted

/-- Two keys with one hash in a table of two slots: the second is still found
after the first is erased. -/
theorem map_refines_dictionary_collision :
    let ops : KeyOps ℕ := KeyOps.ofHash fun _ => 1
    let memory : Arrays ℕ := ⟨fun _ => 3, fun _ => 0, fun _ => 0, fun _ => 9,
      fun _ => 0⟩
    let calls : List (Call ℕ) := [.put 5 50, .put 6 60, .erase 5, .get 6,
      .get 5, .size]
    ∃ map, mapAllocate .pow2 memory 2 = some map ∧
      (Transcript.run (Call.exec .pow2 ops) calls map).1 =
        [.slotFound true, .slotFound true, .trash (some 5), .value (some 60),
          .value none, .count 1] := by
  intro ops memory calls
  refine ⟨_, rfl, ?_⟩
  have permitted : Transcript.Permitted (Call.Allowed ops 2) (Call.spec ops)
      calls [] := by
    simp [calls, ops, Transcript.Permitted, Call.Allowed, Call.spec,
      Dictionary.Present, KeyOps.ofHash]
  have refined := map_refines_dictionary .pow2 ops memory (by decide)
    (by decide) rfl calls permitted
  exact refined.1.trans (by decide)

end Map
end Vigor
