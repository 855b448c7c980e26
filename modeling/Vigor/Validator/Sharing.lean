import Vigor.Library.AtomTree
import Vigor.Library.Failing
import Mathlib.Data.List.AList

/-!
# Shared subexpressions

`expand_shorted_sexp` of the importer.  An expression is printed with markers:
an atom that ends in a colon gives a name to the expression after it, and the
name stands for the expression elsewhere.  The importer collects the named
expressions, replaces names in them until there is nothing to replace, and then
replaces the names in the expression itself.

Maps with strings as keys are association lists without repeated keys; nothing
depends on the order of their entries.
-/

namespace Vigor
namespace Validator

/-- An s-expression. -/
abbrev Sexp := AtomTree String

/-- The exceptions of the expansion. -/
inductive ExpansionError
  | doubleDefinition
  | keyPresent (key : String)
  | duplicateKey
  | incompleteMapExpansion (sexp : Sexp)

/-- The map from names to their definitions. -/
abbrev Defs := AList fun _ : String => Sexp

/-- `String.is_suffix v ~suffix:":"`. -/
def isMarker (v : String) : Bool :=
  v.toList.getLast? == some ':'

/-- `String.prefix v ((String.length v) - 1)`. -/
def markedName (v : String) : String :=
  String.ofList v.toList.dropLast

/-! ## Maps -/

/-- `String.Map.add_exn`. -/
def addExn
    (defs : Defs)
    (key : String)
    (data : Sexp) : Except ExpansionError Defs :=
  if key ∈ defs then throw (.keyPresent key) else pure (defs.insert key data)

/-- `String.Map.of_alist_exn`. -/
def ofAlistExn (entries : List (Σ _ : String, Sexp)) :
    Except ExpansionError Defs :=
  if distinct : entries.keys.Nodup then pure ⟨entries, distinct⟩ else throw .duplicateKey

/-- `merge_defs`: no name has two definitions. -/
def mergeDefs (d1 d2 : Defs) : Except ExpansionError Defs :=
  if d1.keys.any (· ∈ d2) then throw .doubleDefinition else pure (d1 ∪ d2)

/-! ## Markers -/

mutual

/-- `remove_defs`. -/
def removeDefs : Sexp → Sexp
  | .list lst => .list (removeDefsDoList lst)
  | .atom v => .atom v
termination_by structural exp => exp

/-- `do_list` of `remove_defs`. -/
def removeDefsDoList : List Sexp → List Sexp
  | hd :: tl =>
      if hd.isChosen isMarker then removeDefsDoList tl
      else removeDefs hd :: removeDefsDoList tl
  | [] => []
termination_by structural lst => lst

end

mutual

/-- `get_defs`. -/
def getDefs : Sexp → Except ExpansionError Defs
  | .list lst => getDefsDoList lst
  | .atom _ => pure ∅
termination_by structural sexp => sexp

/-- `do_list` of `get_defs`. -/
def getDefsDoList : List Sexp → Except ExpansionError Defs
  | .atom v :: body :: tl =>
      if isMarker v then do
        let rest ← getDefsDoList tl
        let rest ← addExn rest (markedName v) (removeDefs body)
        mergeDefs (← getDefs body) rest
      else do
        let rest ← getDefsDoList (body :: tl)
        mergeDefs (← getDefs (.atom v)) rest
  | hd :: tl => do
      let rest ← getDefsDoList tl
      mergeDefs (← getDefs hd) rest
  | [] => pure ∅
termination_by structural lst => lst

end

/-! ## Replacing names -/

mutual

/-- `expand_exp`: also whether something was replaced. -/
def expandExp (vars : Defs) : Sexp → Sexp × Bool
  | .list lst =>
      let (expandedLst, smthChanged) := expandElements vars ([], false) lst
      (.list expandedLst.reverse, smthChanged)
  | .atom str =>
      match vars.lookup str with
      | some ex => (ex, true)
      | none => (.atom str, false)

/-- The fold of `expand_exp` over the elements of a list. -/
def expandElements (vars : Defs) :
    List Sexp × Bool → List Sexp → List Sexp × Bool
  | previous, [] => previous
  | (prevExpanded, prevChanged), el :: rest =>
      let (expanded, changed) := expandExp vars el
      expandElements vars (expanded :: prevExpanded, changed || prevChanged) rest

end

/-- `expand_map`. -/
def expandMap (map defs : Defs) : Except ExpansionError (Defs × Bool) := do
  let newMapExpanded := map.entries.map fun entry => (entry.1, expandExp defs entry.2)
  let changed := newMapExpanded.any fun entry => entry.2.2
  let newMap ← ofAlistExn (newMapExpanded.map fun entry => ⟨entry.1, entry.2.1⟩)
  pure (newMap, changed)

/-- `cross_expand_defs_fixp`. -/
def crossExpandDefsFixp (defs : Defs) : Failing ExpansionError Defs :=
  Failing.loop (fun defs => do
    let (newDefs, expanded) ← Failing.ofExcept (expandMap defs defs)
    if expanded then pure (.next newDefs) else pure (.done defs)) defs

/-- `map_expandable`. -/
def mapExpandable (map defs : Defs) : Bool :=
  map.entries.any fun entry => (expandExp defs entry.2).2

/-- `expand_shorted_sexp`. -/
def expandShortedSexp (sexp : Sexp) : Failing ExpansionError Sexp := do
  let defs ← Failing.ofExcept (getDefs sexp)
  let defs ← crossExpandDefsFixp defs
  if mapExpandable defs defs then throw (.incompleteMapExpansion sexp)
  pure (expandExp defs (removeDefs sexp)).1

end Validator
end Vigor
