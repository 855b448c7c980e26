import Vigor.Library.Definitions
import Vigor.Validator.Sharing

/-!
# The expansion of shared subexpressions is exact

The named expressions of an expression are a system of definitions.  Where every
marker stands before an expression, names are not used twice and do not refer to
themselves, `expand_shorted_sexp` returns the expression without its markers and
with every name expanded.
-/

namespace Vigor
namespace Validator

open Definitions (Refers Ranked Acyclic Expands Settled MentionsBelow replacement)

/-! ## What markers mean -/

/-- A list in which every marker stands before an expression. -/
inductive Followed : List Sexp → Prop
  | nil : Followed []
  | plain {element : Sexp} {rest : List Sexp} :
      element.isChosen isMarker = false → Followed rest →
        Followed (element :: rest)
  | marked {v : String} {body : Sexp} {rest : List Sexp} :
      isMarker v = true → body.isChosen isMarker = false → Followed rest →
      Followed (.atom v :: body :: rest)

/-- Every marker is in a list and stands before an expression of the list. -/
structure WellMarked (sexp : Sexp) : Prop where
  notMarker : sexp.isChosen isMarker = false
  followed : ∀ lst, AtomTree.Part (.list lst) sexp → Followed lst

/-- The name that an element of a list gives to the next one. -/
def nameOfNext : Sexp → List Sexp → List (String × Sexp)
  | .atom v, body :: _ => if isMarker v then [(markedName v, body)] else []
  | _, _ => []

mutual

/-- Named expressions, with their names. -/
def marked : Sexp → List (String × Sexp)
  | .atom _ => []
  | .list elements => markedOf elements
termination_by structural sexp => sexp

/-- Named expressions of a list. -/
def markedOf : List Sexp → List (String × Sexp)
  | [] => []
  | element :: rest => nameOfNext element rest ++ marked element ++ markedOf rest
termination_by structural elements => elements

end

/-- What the names of an expression stand for. -/
def definitions
    (sexp : Sexp)
    (name : String) : Option Sexp :=
  ((marked sexp).lookup name).map (AtomTree.prune isMarker)

variable {sexp : Sexp}

/-- To show a property of all well-marked expressions, show it for atoms, and
show a property of lists from the expressions in them, each of which may have a
marker. -/
theorem WellMarked.induction
    (ofTree : Sexp → Prop)
    (ofList : List Sexp → Prop)
    (atom : ∀ v, ofTree (.atom v))
    (list : ∀ elements, ofList elements → ofTree (.list elements))
    (nil : ofList [])
    (plain : ∀ element rest,
        element.isChosen isMarker = false → ofTree element →
      ofList rest → ofList (element :: rest))
    (marked : ∀ v body rest,
        isMarker v = true → body.isChosen isMarker = false →
      ofTree body → ofList rest → ofList (.atom v :: body :: rest))
    (wellMarked : WellMarked sexp) :
    ofTree sexp := by
  induction sexp using AtomTree.induction with
  | atom v => exact atom v
  | list elements ih =>
      apply list
      have inside : ∀ element ∈ elements, element.isChosen isMarker = false →
          ofTree element := by
        intro element member notMarker
        apply ih element member
        exact ⟨notMarker, fun lst part => wellMarked.followed lst (.element member part)⟩
      have followed := wellMarked.followed elements .self
      clear wellMarked ih
      induction followed with
      | nil => exact nil
      | @plain element rest notMarker _ restHypothesis =>
          apply plain element rest notMarker
          · exact inside element List.mem_cons_self notMarker
          · exact restHypothesis fun other member =>
              inside other (List.mem_cons_of_mem _ member)
      | @marked v body rest isMarked notMarker _ restHypothesis =>
          apply marked v body rest isMarked notMarker
          · exact inside body (List.mem_cons_of_mem _ List.mem_cons_self) notMarker
          · exact restHypothesis fun other member =>
              inside other (List.mem_cons_of_mem _ (List.mem_cons_of_mem _ member))

theorem markedOf_plain
    (notMarker : element.isChosen isMarker = false)
    (rest : List Sexp) :
    markedOf (element :: rest) = marked element ++ markedOf rest := by
  have noName : nameOfNext element rest = [] := by
    unfold nameOfNext
    split
    · rename_i v body _
      have plain : isMarker v = false := notMarker
      rw [plain]
      rfl
    · rfl
  rw [markedOf, noName, List.nil_append]

theorem markedOf_marked
    (isMarked : isMarker v = true)
    (notMarker : body.isChosen isMarker = false)
    (rest : List Sexp) :
    markedOf (.atom v :: body :: rest) =
      (markedName v, body) :: (marked body ++ markedOf rest) := by
  rw [markedOf, markedOf_plain notMarker, nameOfNext, isMarked, if_pos rfl]
  rfl

theorem WellMarked.notMarker_of_mem_marked (wellMarked : WellMarked sexp) :
    ∀ named ∈ marked sexp, named.2.isChosen isMarker = false := by
  apply wellMarked.induction (fun sexp => ∀ named ∈ marked sexp, named.2.isChosen isMarker = false)
    (fun elements => ∀ named ∈ markedOf elements, named.2.isChosen isMarker = false)
  · intro v named member
    cases member
  · exact fun _ ofList => ofList
  · intro named member
    cases member
  · intro element rest notMarker ofTree ofList named member
    rw [markedOf_plain notMarker, List.mem_append] at member
    exact member.elim (ofTree named) (ofList named)
  · intro v body rest isMarked notMarker ofTree ofList named member
    rw [markedOf_marked isMarked notMarker, List.mem_cons, List.mem_append] at member
    rcases member with rfl | inBody | inRest
    · exact notMarker
    · exact ofTree named inBody
    · exact ofList named inRest

theorem exists_mem_marked_of_definitions
    (defined : definitions sexp name = some body) :
    ∃ named, (name, named) ∈ marked sexp ∧ body = named.prune isMarker := by
  obtain ⟨named, found, rfl⟩ := Option.map_eq_some_iff.mp defined
  obtain ⟨before, after, split, _⟩ := List.lookup_eq_some_iff.mp found
  refine ⟨named, ?_, rfl⟩
  rw [split]
  exact List.mem_append_right before List.mem_cons_self

/-! ## Collecting definitions -/

/-- What a map says about an atom. -/
abbrev reading (defs : Defs) (name : String) : Option Sexp :=
  defs.lookup name

/-- The code drops markers as the specification does. -/
theorem removeDefs_eq (sexp : Sexp) :
    removeDefs sexp = sexp.prune isMarker := by
  induction sexp using AtomTree.induction with
  | atom v => rfl
  | list elements ih =>
      rw [removeDefs, AtomTree.prune_list]
      congr 1
      induction elements with
      | nil => rfl
      | cons element rest restHypothesis =>
          rw [removeDefsDoList, AtomTree.pruneAll,
            ih element List.mem_cons_self, restHypothesis fun other member =>
              ih other (List.mem_cons_of_mem _ member)]

/-- The entry of the map for a named expression. -/
def entry (named : String × Sexp) : Σ _ : String, Sexp :=
  ⟨named.1, named.2.prune isMarker⟩

/-- The map has the given named expressions. -/
def Collects
    (outcome : Except ExpansionError Defs)
    (named : List (String × Sexp)) : Prop :=
  ∃ defs : Defs, outcome = .ok defs ∧ defs.entries.Perm (named.map entry)

theorem keys_perm
    {defs : Defs}
    {named : List (String × Sexp)}
    (entries : defs.entries.Perm (named.map entry)) :
    defs.keys.Perm (named.map Prod.fst) := by
  have keys := entries.map Sigma.fst
  rw [List.map_map] at keys
  exact keys

theorem Collects.perm
    (collects : Collects outcome named)
    (perm : named.Perm others) :
    Collects outcome others := by
  obtain ⟨defs, isOk, entries⟩ := collects
  exact ⟨defs, isOk, entries.trans (perm.map entry)⟩

theorem kunion_eq_append
    {first second : List (Σ _ : String, Sexp)}
    (disjoint : first.keys.Disjoint second.keys) :
    first.kunion second = first ++ second := by
  induction first with
  | nil => rw [List.nil_kunion, List.nil_append]
  | cons head rest ih =>
      rw [List.keys_cons, List.disjoint_cons_left] at disjoint
      rw [List.kunion_cons, List.kerase_of_notMem_keys disjoint.1, ih disjoint.2, List.cons_append]

/-- Maps without a common name can be merged. -/
theorem Collects.merge
    {inner outer : Except ExpansionError Defs}
    {innerNamed outerNamed : List (String × Sexp)}
    (collectsInner : Collects inner innerNamed)
    (collectsOuter : Collects outer outerNamed)
    (distinct : ((innerNamed ++ outerNamed).map Prod.fst).Nodup) :
    Collects (do let rest ← outer; mergeDefs (← inner) rest)
      (innerNamed ++ outerNamed) := by
  obtain ⟨d1, rfl, innerEntries⟩ := collectsInner
  obtain ⟨d2, rfl, outerEntries⟩ := collectsOuter
  have disjoint : d1.keys.Disjoint d2.keys := by
    rw [List.map_append] at distinct
    intro key inFirst inSecond
    exact List.disjoint_of_nodup_append distinct
      ((keys_perm innerEntries).mem_iff.mp inFirst)
      ((keys_perm outerEntries).mem_iff.mp inSecond)
  have noDouble : d1.keys.any (· ∈ d2) = false := by
    rw [List.any_eq_false]
    intro key inFirst
    rw [decide_eq_true_iff]
    exact fun inSecond => disjoint inFirst inSecond
  refine ⟨d1 ∪ d2, ?_, ?_⟩
  · change mergeDefs d1 d2 = _
    rw [mergeDefs, noDouble]
    rfl
  · rw [AList.union_entries, kunion_eq_append disjoint, List.map_append]
    exact innerEntries.append outerEntries

theorem Collects.addExn
    (collects : Collects outcome named)
    (body : Sexp)
    (fresh : name ∉ named.map Prod.fst) :
    Collects (do addExn (← outcome) name (removeDefs body))
      ((name, body) :: named) := by
  obtain ⟨defs, rfl, entries⟩ := collects
  have absent : name ∉ defs := by
    rw [AList.mem_keys, (keys_perm entries).mem_iff]
    exact fresh
  refine ⟨defs.insert name (removeDefs body), ?_, ?_⟩
  · change Validator.addExn defs name (removeDefs body) = _
    rw [Validator.addExn, if_neg absent]
    rfl
  · rw [AList.entries_insert_of_notMem absent, removeDefs_eq, List.map_cons]
    exact entries.cons _

theorem getDefsDoList_plain
    (notMarker : element.isChosen isMarker = false)
    (rest : List Sexp) :
    getDefsDoList (element :: rest) = (do
      let defs ← getDefsDoList rest
      mergeDefs (← getDefs element) defs) := by
  cases element with
  | list elements => rw [getDefsDoList]; simp
  | atom v =>
      cases rest with
      | nil => rw [getDefsDoList]; simp
      | cons body rest =>
          have plain : isMarker v = false := notMarker
          rw [getDefsDoList, plain]
          rfl

theorem WellMarked.getDefs_collects
    (wellMarked : WellMarked sexp)
    (distinct : ((marked sexp).map Prod.fst).Nodup) :
    Collects (getDefs sexp) (marked sexp) := by
  revert distinct
  apply wellMarked.induction
    (fun sexp => ((marked sexp).map Prod.fst).Nodup → Collects (getDefs sexp) (marked sexp))
    (fun elements => ((markedOf elements).map Prod.fst).Nodup →
      Collects (getDefsDoList elements) (markedOf elements))
  · intro v _
    exact ⟨∅, rfl, .nil⟩
  · exact fun _ ofList => ofList
  · intro _
    exact ⟨∅, rfl, .nil⟩
  · intro element rest notMarker ofTree ofList distinct
    rw [markedOf_plain notMarker] at distinct ⊢
    rw [getDefsDoList_plain notMarker]
    have parts := List.nodup_append.mp (List.map_append ▸ distinct)
    exact (ofTree parts.1).merge (ofList parts.2.1) distinct
  · intro v body rest isMarked notMarker ofTree ofList distinct
    rw [markedOf_marked isMarked notMarker] at distinct ⊢
    rw [List.map_cons, List.nodup_cons] at distinct
    have parts := List.nodup_append.mp (List.map_append ▸ distinct.2)
    have fresh := distinct.1
    rw [List.map_append, List.mem_append, not_or] at fresh
    have added := (ofList parts.2.1).addExn body fresh.2
    have moved : (marked body ++ (markedName v, body) :: markedOf rest).Perm
        ((markedName v, body) :: (marked body ++ markedOf rest)) := List.perm_middle
    have merged := (ofTree parts.1).merge added
      ((moved.map Prod.fst).nodup_iff.mpr (List.nodup_cons.mpr distinct))
    rw [bind_assoc] at merged
    rw [getDefsDoList, isMarked]
    exact merged.perm moved

theorem dlookup_entries
    (named : List (String × Sexp))
    (name : String) :
    (named.map entry).dlookup name =
      (named.lookup name).map (AtomTree.prune isMarker) := by
  induction named with
  | nil => rfl
  | cons first rest ih =>
      obtain ⟨firstName, body⟩ := first
      by_cases same : name = firstName
      · subst same
        rw [List.map_cons, entry, List.dlookup_cons_eq, List.lookup_cons_self, Option.map_some]
      · rw [List.map_cons, List.dlookup_cons_ne _ _ same, ih,
          List.lookup_cons, beq_false_of_ne same]

theorem WellMarked.lookup_getDefs
    (wellMarked : WellMarked sexp)
    (distinct : ((marked sexp).map Prod.fst).Nodup) :
    ∃ defs, getDefs sexp = .ok defs ∧ reading defs = definitions sexp := by
  obtain ⟨defs, collected, entries⟩ := wellMarked.getDefs_collects distinct
  refine ⟨defs, collected, ?_⟩
  funext name
  unfold reading AList.lookup definitions
  rw [List.perm_dlookup name defs.nodupKeys entries, dlookup_entries]

/-! ## Replacing names -/

theorem expandElements_eq
    (ofElements : ∀ element ∈ elements, expandExp vars element =
      (element.bind (replacement (reading vars)),
        element.atoms.any fun atom => (reading vars atom).isSome))
    (prevExpanded : List Sexp)
    (prevChanged : Bool) :
    expandElements vars (prevExpanded, prevChanged) elements =
      ((elements.map (AtomTree.bind (replacement (reading vars)))).reverse ++
          prevExpanded,
        ((elements.flatMap AtomTree.atoms).any fun atom =>
          (reading vars atom).isSome) || prevChanged) := by
  induction elements generalizing prevExpanded prevChanged with
  | nil => rfl
  | cons element rest ih =>
      rw [expandElements, ofElements element List.mem_cons_self]
      dsimp only
      rw [ih fun other member =>
        ofElements other (List.mem_cons_of_mem _ member)]
      rw [List.flatMap_cons, List.any_append, List.map_cons, List.reverse_cons,
        List.append_assoc, List.singleton_append, Bool.or_assoc, Bool.or_left_comm]

theorem expandExp_eq
    (vars : Defs)
    (exp : Sexp) :
    expandExp vars exp = (exp.bind (replacement (reading vars)),
      exp.atoms.any fun atom => (reading vars atom).isSome) := by
  induction exp using AtomTree.induction with
  | atom v =>
      rw [expandExp, AtomTree.bind_atom, AtomTree.atoms_atom, replacement]
      cases found : vars.lookup v with
      | none => simp [found]
      | some ex => simp [found]
  | list elements ih =>
      rw [expandExp, expandElements_eq ih, AtomTree.bind_list,
        AtomTree.atoms_list, List.append_nil, Bool.or_false]
      dsimp only
      rw [List.reverse_reverse]

theorem mapExpandable_iff (defs : Defs) :
    mapExpandable defs defs = true ↔ ∃ name other,
      Refers (reading defs) name other := by
  rw [mapExpandable, List.any_eq_true]
  constructor
  · rintro ⟨⟨name, el⟩, member, changes⟩
    rw [expandExp_eq, List.any_eq_true] at changes
    obtain ⟨other, occurs, isSome⟩ := changes
    exact ⟨name, other, el, AList.mem_lookup_iff.mpr member, occurs, isSome⟩
  · rintro ⟨name, other, el, found, occurs, isSome⟩
    refine ⟨⟨name, el⟩, AList.mem_lookup_iff.mp found, ?_⟩
    rw [expandExp_eq, List.any_eq_true]
    exact ⟨other, occurs, isSome⟩

/-- The entry of the map after a round. -/
def expandEntry
    (defs : Defs)
    (entry : Σ _ : String, Sexp) : Σ _ : String, Sexp :=
  ⟨entry.1, entry.2.bind (replacement (reading defs))⟩

theorem nodupKeys_expandEntry (defs : Defs) :
    (defs.entries.map (expandEntry defs)).NodupKeys := by
  unfold List.NodupKeys List.keys
  rw [List.map_map]
  exact defs.nodupKeys

theorem ofAlistExn_of_nodupKeys (distinct : entries.NodupKeys) :
    ofAlistExn entries = .ok ⟨entries, distinct⟩ :=
  dif_pos distinct

/-- A round of the code is a round of the system of definitions. -/
theorem expandMap_eq (defs : Defs) :
    ∃ newDefs, expandMap defs defs = .ok (newDefs, mapExpandable defs defs) ∧
      reading newDefs = Definitions.round (reading defs) := by
  refine ⟨⟨defs.entries.map (expandEntry defs), nodupKeys_expandEntry defs⟩, ?_, ?_⟩
  · have newEntries : (defs.entries.map fun entry => (entry.1, expandExp defs entry.2)).map
        (fun entry => (⟨entry.1, entry.2.1⟩ : Σ _ : String, Sexp)) =
          defs.entries.map (expandEntry defs) := by
      rw [List.map_map]
      apply List.map_congr_left
      intro entry _
      rw [Function.comp_apply, expandExp_eq]
      rfl
    unfold expandMap
    simp only [newEntries, List.any_map]
    rw [ofAlistExn_of_nodupKeys (nodupKeys_expandEntry defs)]
    rfl
  · funext name
    exact List.dlookup_map₂ (f := fun _ => AtomTree.bind (replacement (reading defs))) name

theorem crossExpandDefsFixp_of_unchanged
    (unchanged : mapExpandable defs defs = false) :
    (crossExpandDefsFixp defs).Gives defs := by
  obtain ⟨newDefs, outcome, _⟩ := expandMap_eq defs
  apply Failing.loop_gives_of_done
  apply Failing.Gives.bind (Failing.gives_ofExcept outcome)
  rw [unchanged]
  exact Failing.gives_pure _

theorem crossExpandDefsFixp_gives
    {rank : String → ℕ}
    {expansion : String → Sexp}
    {bound : ℕ}
    {defs : Defs}
    (ranked : Ranked (reading defs) rank)
    (expands : Expands (reading defs) expansion)
    (below : MentionsBelow (reading defs) rank bound) :
    ∃ final, (crossExpandDefsFixp defs).Gives final ∧
      mapExpandable final final = false ∧
        Expands (reading final) expansion := by
  -- The induction is on the bound for the ranks of the names that are mentioned.
  induction bound generalizing defs with
  | zero =>
      have unchanged : mapExpandable defs defs = false := by
        rw [← Bool.not_eq_true, mapExpandable_iff]
        rintro ⟨name, other, refers⟩
        exact below.settled name other refers
      exact ⟨defs, crossExpandDefsFixp_of_unchanged unchanged, unchanged, expands⟩
  | succ bound ih =>
      cases changes : mapExpandable defs defs with
      | false => exact ⟨defs, crossExpandDefsFixp_of_unchanged changes, changes, expands⟩
      | true =>
          obtain ⟨newDefs, outcome, isRound⟩ := expandMap_eq defs
          have newRanked := ranked.round
          have newExpands := expands.round
          have newBelow := ranked.mentionsBelow_round below
          rw [← isRound] at newRanked newExpands newBelow
          obtain ⟨final, gives, settled, finalExpands⟩ :=
            ih newRanked newExpands newBelow
          refine ⟨final, ?_, settled, finalExpands⟩
          refine Failing.loop_gives_of_next ?_ gives
          apply Failing.Gives.bind (Failing.gives_ofExcept outcome)
          rw [changes]
          exact Failing.gives_pure _

/-- Under the conditions on markers and names, `expand_shorted_sexp` terminates
and returns the expression without its markers and with every name replaced by
its expansion.  There is exactly one expansion of the names; in the result there
is no marker and no name. -/
theorem expandShortedSexp_exact
    {sexp : Sexp}
    (wellMarked : WellMarked sexp)
    (distinct : ((marked sexp).map Prod.fst).Nodup)
    (acyclic : Acyclic (definitions sexp)) :
    ∃ expansion : String → Sexp,
      Expands (definitions sexp) expansion ∧
      (∀ other, Expands (definitions sexp) other → other = expansion) ∧
      (expandShortedSexp sexp).Gives ((sexp.prune isMarker).bind expansion) ∧
      ∀ atom ∈ ((sexp.prune isMarker).bind expansion).atoms,
        isMarker atom = false ∧ definitions sexp atom = none := by
  obtain ⟨defs, collected, reads⟩ := wellMarked.lookup_getDefs distinct
  have isName : ∀ name, (definitions sexp name).isSome →
      name ∈ ((marked sexp).map Prod.fst).toFinset := by
    intro name isSome
    obtain ⟨body, defined⟩ := Option.isSome_iff_exists.mp isSome
    obtain ⟨named, member, _⟩ := exists_mem_marked_of_definitions defined
    rw [List.mem_toFinset]
    exact List.mem_map_of_mem member
  obtain ⟨rank, ranked⟩ := acyclic.exists_ranked _ isName
  obtain ⟨expansion, expands⟩ := ranked.exists_expands
  obtain ⟨bound, below⟩ := ranked.exists_mentionsBelow _ isName
  refine ⟨expansion, expands, fun other otherExpands =>
    ranked.expands_unique otherExpands expands, ?_, ?_⟩
  · rw [← reads] at ranked expands below
    obtain ⟨final, gives, unchanged, finalExpands⟩ :=
      crossExpandDefsFixp_gives ranked expands below
    have settled : Settled (reading final) := by
      intro name other refers
      have expandable := (mapExpandable_iff final).mpr ⟨name, other, refers⟩
      rw [unchanged] at expandable
      cases expandable
    apply Failing.Gives.bind (Failing.gives_ofExcept collected)
    apply Failing.Gives.bind gives
    rw [unchanged, expandExp_eq, removeDefs_eq, finalExpands.replacement_eq settled]
    exact Failing.gives_pure _
  · intro atom occurs
    obtain ⟨source, inSource, inExpansion⟩ := AtomTree.mem_atoms_bind_iff.mp occurs
    have ofBodies : ∀ name body, definitions sexp name = some body →
        ∀ value ∈ body.atoms, isMarker value = false := by
      intro name body defined value inBody
      obtain ⟨named, member, rfl⟩ := exists_mem_marked_of_definitions defined
      exact AtomTree.not_chosen_of_mem_atoms_prune
        (wellMarked.notMarker_of_mem_marked _ member) inBody
    have ofSource := AtomTree.not_chosen_of_mem_atoms_prune wellMarked.notMarker inSource
    exact (ranked.of_mem_atoms_expansion expands ofBodies ofSource inExpansion).symm

/-- A definition inside another one, whose name is used in both. -/
theorem expandShortedSexp_exact_nested :
    let inner : Sexp := .list [.atom "x"]
    let sexp : Sexp := .list [.atom "And", .atom "N0:", .list [.atom "Or", .atom "N1:",
      inner, .atom "N1"], .atom "N0", .atom "N1"]
    let outer : Sexp := .list [.atom "Or", inner, inner]
    let result : Sexp := .list [.atom "And", outer, outer, inner]
    (expandShortedSexp sexp).Gives result ∧
      ∃ expansion, Expands (definitions sexp) expansion ∧
        result = (sexp.prune isMarker).bind expansion := by
  intro inner sexp outer result
  have wellMarked : WellMarked sexp := by
    refine ⟨rfl, ?_⟩
    intro lst part
    simp only [sexp, inner, AtomTree.part_list_iff, List.mem_cons, List.not_mem_nil, or_false,
      exists_eq_or_imp, exists_eq_left, AtomTree.part_atom_iff, reduceCtorEq, false_or,
      AtomTree.list.injEq] at part
    rcases part with rfl | rfl | rfl
    · exact .plain rfl (.marked rfl rfl (.plain rfl (.plain rfl .nil)))
    · exact .plain rfl (.marked rfl rfl (.plain rfl .nil))
    · exact .plain rfl .nil
  have ranked : Ranked (definitions sexp) fun name => if name = "N0" then 1 else 0 := by
    rintro name other ⟨body, defined, occurs, isSome⟩
    obtain ⟨named, member, rfl⟩ := exists_mem_marked_of_definitions defined
    change (name, named) ∈ [("N0", _), ("N1", _)] at member
    simp only [List.mem_cons, Prod.mk.injEq, List.not_mem_nil, or_false] at member
    rcases member with ⟨rfl, rfl⟩ | ⟨rfl, rfl⟩
    · change other ∈ ["Or", "x", "N1"] at occurs
      simp only [List.mem_cons, List.not_mem_nil, or_false] at occurs
      rcases occurs with rfl | rfl | rfl
      · cases isSome
      · cases isSome
      · decide
    · change other ∈ ["x"] at occurs
      rw [List.mem_singleton] at occurs
      subst occurs
      cases isSome
  obtain ⟨expansion, expands, _, gives, _⟩ :=
    expandShortedSexp_exact wellMarked (by decide) ranked.acyclic
  have computed : (expandShortedSexp sexp).Gives result := ⟨3, rfl⟩
  exact ⟨computed, expansion, expands, computed.unique gives⟩

end Validator
end Vigor
