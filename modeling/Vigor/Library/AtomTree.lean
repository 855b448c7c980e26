import Mathlib.Data.List.Flatten
import Mathlib.Logic.Basic

/-!
# Nested lists of atoms

A tree is an atom or a list of trees.  Replacing every atom by a tree is the
bind of a monad; only the atoms that occur in a tree matter for it.
-/

universe u

/-- An atom or a list of trees. -/
inductive AtomTree (α : Type u)
  | atom (value : α)
  | list (elements : List (AtomTree α))

namespace AtomTree

variable {α β γ : Type u}

/-- A property holds of all trees if it holds of atoms, and of a list if it
holds of the elements. -/
theorem induction
    {property : AtomTree α → Prop}
    (atom : ∀ value, property (.atom value))
    (list : ∀ elements,
      (∀ element ∈ elements, property element) → property (.list elements)) :
    ∀ tree, property tree
  | .atom value => atom value
  | .list elements => list elements fun element _ => induction atom list element

/-! ## Occurring atoms -/

mutual

/-- The atoms of a tree, from left to right. -/
def atoms : AtomTree α → List α
  | .atom value => [value]
  | .list elements => atomsOf elements

/-- The atoms of a list of trees. -/
def atomsOf : List (AtomTree α) → List α
  | [] => []
  | element :: rest => element.atoms ++ atomsOf rest

end

@[simp] theorem atoms_atom (value : α) : (atom value).atoms = [value] := rfl

@[simp] theorem atoms_list (elements : List (AtomTree α)) :
    (list elements).atoms = elements.flatMap atoms := by
  unfold atoms
  induction elements with
  | nil => rfl
  | cons element rest ih => rw [atomsOf, ih, List.flatMap_cons]

/-- One tree stands somewhere in another one. -/
inductive Part (part : AtomTree α) : AtomTree α → Prop
  | self : Part part part
  | element {element : AtomTree α} {elements : List (AtomTree α)} :
      element ∈ elements → Part part element → Part part (.list elements)

@[simp] theorem part_atom_iff
    {part : AtomTree α}
    {value : α} :
    Part part (atom value) ↔ part = atom value := by
  constructor
  · rintro ⟨⟩
    rfl
  · rintro rfl
    exact Part.self

theorem part_list_iff
    {part : AtomTree α}
    {elements : List (AtomTree α)} :
    Part part (list elements) ↔ part = list elements ∨ ∃ element ∈ elements,
      Part part element := by
  constructor
  · intro isPart
    cases isPart with
    | self => exact Or.inl rfl
    | element member inside => exact Or.inr ⟨_, member, inside⟩
  · rintro (rfl | ⟨element, member, inside⟩)
    · exact Part.self
    · exact Part.element member inside

/-! ## Replacing atoms -/

mutual

/-- Replace every atom by a tree. -/
def bind (replacement : α → AtomTree β) : AtomTree α → AtomTree β
  | .atom value => replacement value
  | .list elements => .list (bindAll replacement elements)

/-- Replace every atom of a list of trees. -/
def bindAll (replacement : α → AtomTree β) :
    List (AtomTree α) → List (AtomTree β)
  | [] => []
  | element :: rest => bind replacement element :: bindAll replacement rest

end

@[simp] theorem bind_atom
    (replacement : α → AtomTree β)
    (value : α) :
    (atom value).bind replacement = replacement value := rfl

@[simp] theorem bind_list
    (replacement : α → AtomTree β)
    (elements : List (AtomTree α)) :
    (list elements).bind replacement =
      list (elements.map (bind replacement)) := by
  unfold bind
  congr 1
  induction elements with
  | nil => rfl
  | cons element rest ih => rw [bindAll, ih, List.map_cons]

theorem bind_congr
    {first second : α → AtomTree β}
    {tree : AtomTree α}
    (agree : ∀ value ∈ tree.atoms, first value = second value) :
    tree.bind first = tree.bind second := by
  induction tree using induction with
  | atom value => exact agree value (by simp)
  | list elements ih =>
      rw [bind_list, bind_list]
      congr 1
      apply List.map_congr_left
      intro element member
      apply ih element member
      intro value occurs
      apply agree
      rw [atoms_list, List.mem_flatMap]
      exact ⟨element, member, occurs⟩

@[simp] theorem bind_self (tree : AtomTree α) : tree.bind atom = tree := by
  induction tree using induction with
  | atom value => rfl
  | list elements ih => rw [bind_list, List.map_congr_left ih, List.map_id']

theorem bind_assoc
    (tree : AtomTree α)
    (first : α → AtomTree β)
    (second : β → AtomTree γ) :
    (tree.bind first).bind second = tree.bind fun value =>
      (first value).bind second := by
  induction tree using induction with
  | atom value => rfl
  | list elements ih =>
      rw [bind_list, bind_list, bind_list, List.map_map]
      congr 1
      exact List.map_congr_left ih

theorem mem_atoms_bind_iff
    {tree : AtomTree α}
    {replacement : α → AtomTree β}
    {value : β} :
    value ∈ (tree.bind replacement).atoms ↔
      ∃ source ∈ tree.atoms, value ∈ (replacement source).atoms := by
  induction tree using induction with
  | atom source => simp
  | list elements ih =>
      simp only [bind_list, atoms_list, List.mem_flatMap, List.mem_map, exists_exists_and_eq_and]
      constructor
      · rintro ⟨element, member, occurs⟩
        obtain ⟨source, isSource, inSource⟩ :=
          (ih element member).mp occurs
        exact ⟨source, ⟨element, member, isSource⟩, inSource⟩
      · rintro ⟨source, ⟨element, member, isSource⟩, inSource⟩
        exact ⟨element, member, (ih element member).mpr ⟨source, isSource, inSource⟩⟩

/-! ## Dropping atoms -/

/-- The tree is one of the chosen atoms. -/
def isChosen (chosen : α → Bool) : AtomTree α → Bool
  | .atom value => chosen value
  | .list _ => false

mutual

/-- Drop the chosen atoms from all lists of a tree. -/
def prune (chosen : α → Bool) : AtomTree α → AtomTree α
  | .atom value => .atom value
  | .list elements => .list (pruneAll chosen elements)

/-- Drop the chosen atoms from a list of trees and from all lists in it. -/
def pruneAll (chosen : α → Bool) : List (AtomTree α) → List (AtomTree α)
  | [] => []
  | element :: rest =>
      if element.isChosen chosen then pruneAll chosen rest
      else prune chosen element :: pruneAll chosen rest

end

@[simp] theorem prune_atom
    (chosen : α → Bool)
    (value : α) :
    (atom value).prune chosen = atom value := rfl

@[simp] theorem prune_list
    (chosen : α → Bool)
    (elements : List (AtomTree α)) :
    (list elements).prune chosen = list (pruneAll chosen elements) := rfl

/-- A tree that is not itself a chosen atom has no chosen atom left. -/
theorem not_chosen_of_mem_atoms_prune
    {tree : AtomTree α}
    (kept : tree.isChosen chosen = false)
    (occurs : value ∈ (tree.prune chosen).atoms) :
    chosen value = false := by
  induction tree using induction with
  | atom other =>
      rw [prune_atom, atoms_atom, List.mem_singleton] at occurs
      rw [occurs]
      exact kept
  | list elements ih =>
      rw [prune_list, atoms_list] at occurs
      clear kept
      induction elements with
      | nil => cases occurs
      | cons element rest restHypothesis =>
          have later := restHypothesis fun other member =>
            ih other (List.mem_cons_of_mem _ member)
          rw [pruneAll] at occurs
          split at occurs
          · exact later occurs
          · rename_i keep
            rw [List.flatMap_cons, List.mem_append] at occurs
            rcases occurs with inElement | inRest
            · exact ih element List.mem_cons_self (Bool.eq_false_iff.mpr keep) inElement
            · exact later inRest

end AtomTree
