import Vigor.Library.AtomTree
import Mathlib.Data.Finset.Lattice.Fold

/-!
# Systems of definitions

Some atoms are names that stand for trees, in which further names may occur.
The expansion of a system is a solution of its equations: a name stands for its
definition with all names expanded, and any other atom for itself.  When no name
refers to itself through others, there is one expansion.  Rounds that replace
all names in all definitions at once have the same expansion, and they end.
-/

namespace Definitions

universe u

variable {α : Type u} {definitions : α → Option (AtomTree α)}
  {expansion : α → AtomTree α} {rank : α → ℕ}

/-- The definition of one name mentions another name. -/
def Refers
    (definitions : α → Option (AtomTree α))
    (name other : α) : Prop :=
  ∃ body, definitions name = some body ∧ other ∈ body.atoms ∧ (definitions other).isSome

/-- No name refers to itself, directly or through other names. -/
def Acyclic (definitions : α → Option (AtomTree α)) : Prop :=
  ∀ name, ¬Relation.TransGen (Refers definitions) name name

/-- References lower the rank. -/
def Ranked
    (definitions : α → Option (AtomTree α))
    (rank : α → ℕ) : Prop :=
  ∀ name other, Refers definitions name other → rank other < rank name

theorem Ranked.lt_of_occurs
    (ranked : Ranked definitions rank)
    (defined : definitions name = some body)
    (occurs : value ∈ body.atoms)
    (valueDefined : definitions value = some valueBody) :
    rank value < rank name := by
  apply ranked name value
  exact ⟨body, defined, occurs, by rw [valueDefined]; rfl⟩

theorem Ranked.acyclic (ranked : Ranked definitions rank) :
    Acyclic definitions := by
  intro name cycle
  have lower : ∀ {first last}, Relation.TransGen (Refers definitions) first last →
      rank last < rank first := by
    intro first last path
    induction path with
    | single refers => exact ranked _ _ refers
    | tail _ refers ih => exact (ranked _ _ refers).trans ih
  exact Nat.lt_irrefl _ (lower cycle)

/-- Names without cycles can be ranked by the number of names that they depend
on. -/
theorem Acyclic.exists_ranked
    (acyclic : Acyclic definitions)
    (names : Finset α)
    (isName : ∀ name, (definitions name).isSome → name ∈ names) :
    ∃ rank, Ranked definitions rank := by
  classical
  refine ⟨fun name =>
    (names.filter (Relation.TransGen (Refers definitions) name)).card, ?_⟩
  intro name other refers
  apply Finset.card_lt_card
  have otherIsName : other ∈ names := by
    obtain ⟨_, _, _, isSome⟩ := refers
    exact isName other isSome
  rw [Finset.ssubset_iff_of_subset]
  · refine ⟨other, ?_, ?_⟩
    · rw [Finset.mem_filter]
      exact ⟨otherIsName, Relation.TransGen.single refers⟩
    · rw [Finset.mem_filter]
      exact fun member => acyclic other member.2
  · intro further member
    rw [Finset.mem_filter] at member ⊢
    exact ⟨member.1, Relation.TransGen.head refers member.2⟩

/-! ## Expansions -/

/-- What an atom stands for when names stand for the given trees. -/
def meaning
    (definitions : α → Option (AtomTree α))
    (expansion : α → AtomTree α)
    (atom : α) : AtomTree α :=
  match definitions atom with
  | none => .atom atom
  | some body => body.bind expansion

variable {atom : α}

theorem meaning_of_undefined (undefined : definitions atom = none) :
    meaning definitions expansion atom = .atom atom := by
  rw [meaning, undefined]

variable {body : AtomTree α}

theorem meaning_of_defined (defined : definitions name = some body) :
    meaning definitions expansion name = body.bind expansion := by
  rw [meaning, defined]

/-- Every atom stands for what its definition says. -/
def Expands
    (definitions : α → Option (AtomTree α))
    (expansion : α → AtomTree α) : Prop :=
  ∀ atom, expansion atom = meaning definitions expansion atom

theorem Expands.eq_atom
    (expands : Expands definitions expansion)
    (undefined : definitions atom = none) :
    expansion atom = .atom atom :=
  (expands atom).trans (meaning_of_undefined undefined)

theorem Expands.eq_bind
    (expands : Expands definitions expansion)
    (defined : definitions name = some body) :
    expansion name = body.bind expansion :=
  (expands name).trans (meaning_of_defined defined)

/-- What an atom stands for depends only on what names of smaller rank stand
for. -/
theorem Ranked.meaning_congr
    (ranked : Ranked definitions rank)
    (undefined : ∀ value,
      definitions value = none → expansion value = other value)
    (lower : ∀ value, rank value < rank atom → expansion value = other value) :
    meaning definitions expansion atom = meaning definitions other atom := by
  cases defined : definitions atom with
  | none => rw [meaning_of_undefined defined, meaning_of_undefined defined]
  | some body =>
      rw [meaning_of_defined defined, meaning_of_defined defined]
      apply AtomTree.bind_congr
      intro value occurs
      cases valueDefined : definitions value with
      | none => exact undefined value valueDefined
      | some _ => exact lower value (ranked.lt_of_occurs defined occurs valueDefined)

theorem Ranked.expands_unique
    (ranked : Ranked definitions rank)
    (expands : Expands definitions expansion)
    (alsoExpands : Expands definitions other) :
    expansion = other := by
  funext atom
  -- The induction is on the rank; atoms without a definition need no hypothesis.
  induction size : rank atom using Nat.strong_induction_on generalizing atom with
  | _ size ih =>
      rw [expands atom, alsoExpands atom]
      refine ranked.meaning_congr (fun value undefined => ?_) fun value lower => ?_
      · rw [expands.eq_atom undefined, alsoExpands.eq_atom undefined]
      · exact ih (rank value) (size ▸ lower) value rfl

/-- Expansion to a limited depth. -/
def expandTo (definitions : α → Option (AtomTree α)) : ℕ → α → AtomTree α
  | 0 => .atom
  | depth + 1 => meaning definitions (expandTo definitions depth)

theorem expandTo_of_undefined
    (undefined : definitions atom = none)
    (depth : ℕ) :
    expandTo definitions depth atom = .atom atom := by
  cases depth with
  | zero => rfl
  | succ depth => exact meaning_of_undefined undefined

/-- A depth above the rank is deep enough. -/
theorem Ranked.expandTo_eq
    (ranked : Ranked definitions rank)
    (firstDeep : rank atom < first)
    (secondDeep : rank atom < second) :
    expandTo definitions first atom = expandTo definitions second atom := by
  induction first generalizing atom second with
  | zero => cases firstDeep
  | succ first ih =>
      cases second with
      | zero => cases secondDeep
      | succ second =>
          refine ranked.meaning_congr (fun value undefined => ?_) fun value lower => ?_
          · rw [expandTo_of_undefined undefined, expandTo_of_undefined undefined]
          · apply ih <;> omega

theorem Ranked.exists_expands (ranked : Ranked definitions rank) :
    ∃ expansion, Expands definitions expansion := by
  refine ⟨fun atom => expandTo definitions (rank atom + 1) atom, fun atom => ?_⟩
  refine ranked.meaning_congr (fun value undefined => ?_) fun value lower => ?_
  · rw [expandTo_of_undefined undefined, expandTo_of_undefined undefined]
  · exact ranked.expandTo_eq lower (Nat.lt_succ_self (rank value))

theorem Ranked.of_mem_atoms_expansion
    (ranked : Ranked definitions rank)
    (expands : Expands definitions expansion)
    {property : α → Prop}
    (ofBodies : ∀ name body, definitions name = some body →
      ∀ value ∈ body.atoms, property value)
    (ofSource : property source)
    (occurs : value ∈ (expansion source).atoms) :
    definitions value = none ∧ property value := by
  induction size : rank source using Nat.strong_induction_on generalizing source with
  | _ size ih =>
      cases defined : definitions source with
      | none =>
          rw [expands.eq_atom defined, AtomTree.atoms_atom, List.mem_singleton] at occurs
          rw [occurs]
          exact ⟨defined, ofSource⟩
      | some body =>
          rw [expands.eq_bind defined, AtomTree.mem_atoms_bind_iff] at occurs
          obtain ⟨between, betweenOccurs, inExpansion⟩ := occurs
          have ofBetween := ofBodies source body defined between betweenOccurs
          cases betweenDefined : definitions between with
          | none =>
              rw [expands.eq_atom betweenDefined, AtomTree.atoms_atom,
                List.mem_singleton] at inExpansion
              rw [inExpansion]
              exact ⟨betweenDefined, ofBetween⟩
          | some _ =>
              have lower := ranked.lt_of_occurs defined betweenOccurs betweenDefined
              exact ih (rank between) (size ▸ lower) ofBetween inExpansion rfl

/-! ## Rounds -/

/-- What replaces an atom in a round. -/
def replacement
    (definitions : α → Option (AtomTree α))
    (atom : α) : AtomTree α :=
  (definitions atom).getD (.atom atom)

/-- Replace all names in all definitions. -/
def round
    (definitions : α → Option (AtomTree α))
    (name : α) : Option (AtomTree α) :=
  (definitions name).map (AtomTree.bind (replacement definitions))

/-- No definition mentions a name. -/
def Settled (definitions : α → Option (AtomTree α)) : Prop :=
  ∀ name other, ¬Refers definitions name other

/-- Expanding what replaces an atom expands the atom. -/
theorem Expands.bind_replacement
    (expands : Expands definitions expansion)
    (atom : α) :
    (replacement definitions atom).bind expansion = expansion atom := by
  unfold replacement
  cases defined : definitions atom with
  | none => rfl
  | some body => rw [Option.getD_some, ← expands.eq_bind defined]

theorem round_eq_none_iff {name : α} :
    round definitions name = none ↔ definitions name = none :=
  Option.map_eq_none_iff

theorem round_of_defined (defined : definitions name = some body) :
    round definitions name = some (body.bind (replacement definitions)) := by
  rw [round, defined, Option.map_some]

theorem Expands.round (expands : Expands definitions expansion) :
    Expands (round definitions) expansion := by
  intro name
  cases defined : definitions name with
  | none => rw [meaning_of_undefined (round_eq_none_iff.mpr defined), expands.eq_atom defined]
  | some body =>
      rw [meaning_of_defined (round_of_defined defined), AtomTree.bind_assoc,
        expands.eq_bind defined]
      apply AtomTree.bind_congr
      intro value _
      exact (expands.bind_replacement value).symm

theorem Expands.replacement_eq
    (expands : Expands definitions expansion)
    (settled : Settled definitions) :
    replacement definitions = expansion := by
  funext name
  cases defined : definitions name with
  | none =>
      rw [replacement, defined, expands.eq_atom defined]
      rfl
  | some body =>
      have unchanged : body.bind expansion = body.bind .atom := by
        apply AtomTree.bind_congr
        intro value occurs
        apply expands.eq_atom
        rw [← Option.not_isSome_iff_eq_none]
        intro isSome
        exact settled name value ⟨body, defined, occurs, isSome⟩
      rw [replacement, defined, expands.eq_bind defined, unchanged, AtomTree.bind_self]
      rfl

theorem Refers.of_round (refers : Refers (round definitions) name other) :
    ∃ between,
      Refers definitions name between ∧ Refers definitions between other := by
  obtain ⟨_, roundDefined, occurs, isSome⟩ := refers
  rw [round, Option.isSome_map] at isSome
  obtain ⟨body, defined, rfl⟩ := Option.map_eq_some_iff.mp roundDefined
  obtain ⟨between, betweenOccurs, inReplacement⟩ := AtomTree.mem_atoms_bind_iff.mp occurs
  unfold replacement at inReplacement
  cases betweenDefined : definitions between with
  | none =>
      -- The atom stays as it is, and it is not a name.
      rw [betweenDefined, Option.getD_none, AtomTree.atoms_atom, List.mem_singleton]
        at inReplacement
      rw [inReplacement, betweenDefined] at isSome
      cases isSome
  | some betweenBody =>
      rw [betweenDefined, Option.getD_some] at inReplacement
      refine ⟨between, ⟨body, defined, betweenOccurs, ?_⟩,
        ⟨betweenBody, betweenDefined, inReplacement, isSome⟩⟩
      rw [betweenDefined]
      rfl

theorem Ranked.round (ranked : Ranked definitions rank) :
    Ranked (round definitions) rank := by
  intro name other refers
  obtain ⟨between, first, second⟩ := refers.of_round
  exact (ranked between other second).trans (ranked name between first)

/-- All names that are mentioned have a rank below the bound. -/
def MentionsBelow
    (definitions : α → Option (AtomTree α))
    (rank : α → ℕ)
    (bound : ℕ) :
    Prop :=
  ∀ name other, Refers definitions name other → rank other < bound

theorem Ranked.exists_mentionsBelow
    (ranked : Ranked definitions rank)
    (names : Finset α)
    (isName : ∀ name, (definitions name).isSome → name ∈ names) :
    ∃ bound, MentionsBelow definitions rank bound := by
  refine ⟨names.sup rank, ?_⟩
  intro name other refers
  have member : name ∈ names := by
    obtain ⟨_, defined, _⟩ := refers
    exact isName name (by rw [defined]; rfl)
  exact (ranked name other refers).trans_le (Finset.le_sup member)

/-- A round lowers the ranks of the names that are mentioned. -/
theorem Ranked.mentionsBelow_round
    (ranked : Ranked definitions rank)
    (below : MentionsBelow definitions rank (bound + 1)) :
    MentionsBelow (Definitions.round definitions) rank bound := by
  intro name other refers
  obtain ⟨between, first, second⟩ := refers.of_round
  have betweenBelow := below name between first
  have lower := ranked between other second
  omega

theorem MentionsBelow.settled (below : MentionsBelow definitions rank 0) :
    Settled definitions := by
  intro name other refers
  exact Nat.not_lt_zero _ (below name other refers)

end Definitions
