import Mathlib.Data.List.Chain
import Mathlib.Data.List.Nodup

/-!
# Linked lists threaded through an array

A table of nodes, each with a `prev` and a `next` link, can hold a closed
doubly linked ring through a distinguished head, and a closed singly linked
stack whose nodes repeat their successor in both links.  This module relates
such a table to the list of nodes that a walk from the head visits, and says
what unlinking, linking, popping and pushing do to that list.
-/

namespace LinkedRing

/-- The two links of a node. -/
structure Node (α : Type u) where
  /-- The link backwards. -/
  prev : α
  /-- The link forwards. -/
  next : α
  deriving DecidableEq, Repr

/-- A table of nodes, named by the values that the links hold. -/
abbrev Links (α : Type u) := α → Node α

/-- Two nodes are equal when both of their links are. -/
theorem Node.eq_of_links
    {first second : Node α}
    (samePrev : first.prev = second.prev)
    (sameNext : first.next = second.next) :
    first = second := by
  cases first
  cases second
  simp_all

section Update

variable [DecidableEq α]

/-- Redirect the forward link of one node. -/
def Links.setNext
    (links : Links α)
    (node target : α) : Links α :=
  Function.update links node { links node with next := target }

/-- Redirect the backward link of one node. -/
def Links.setPrev
    (links : Links α)
    (node target : α) : Links α :=
  Function.update links node { links node with prev := target }

section

variable (links : Links α)
  (node target other : α)

@[simp] theorem Links.setNext_next :
    (links.setNext node target other).next =
      if other = node then target else (links other).next := by
  by_cases same : other = node <;> simp [setNext, same]

@[simp] theorem Links.setNext_prev :
    (links.setNext node target other).prev = (links other).prev := by
  by_cases same : other = node <;> simp [setNext, same]

@[simp] theorem Links.setPrev_prev :
    (links.setPrev node target other).prev =
      if other = node then target else (links other).prev := by
  by_cases same : other = node <;> simp [setPrev, same]

@[simp] theorem Links.setPrev_next :
    (links.setPrev node target other).next = (links other).next := by
  by_cases same : other = node <;> simp [setPrev, same]

end

end Update

/-- Two nodes that point at each other, the first one forwards. -/
def Linked
    (links : Links α)
    (first second : α) : Prop :=
  (links first).next = second ∧ (links second).prev = first

/-- First node of a list, or the head of the ring when the list is empty. -/
def firstOr (head : α) : List α → α
  | [] => head
  | first :: _ => first

/-- Last node of a list, or the head of the ring when the list is empty. -/
def lastOr (head : α) : List α → α
  | [] => head
  | first :: rest => lastOr first rest

@[simp] theorem firstOr_nil (head : α) : firstOr head [] = head := rfl

@[simp] theorem firstOr_cons
    (head first : α)
    (rest : List α) :
    firstOr head (first :: rest) = first := rfl

@[simp] theorem lastOr_nil (head : α) : lastOr head [] = head := rfl

@[simp] theorem lastOr_cons
    (head first : α)
    (rest : List α) :
    lastOr head (first :: rest) = lastOr first rest := rfl

@[simp] theorem lastOr_concat
    (head last : α)
    (list : List α) :
    lastOr head (list ++ [last]) = last := by
  induction list generalizing head with
  | nil => rfl
  | cons first rest ih => exact ih first

theorem dropLast_append_lastOr
    (head : α)
    (list : List α) :
    (head :: list).dropLast ++ [lastOr head list] = head :: list := by
  induction list generalizing head with
  | nil => rfl
  | cons first rest ih =>
      have tailEquality := ih first
      simp only [List.dropLast_cons_cons, List.cons_append, lastOr_cons, tailEquality]

theorem firstOr_cons_tail
    (head : α)
    (list : List α) :
    firstOr head list :: (list ++ [head]).tail = list ++ [head] := by
  cases list <;> rfl

theorem lastOr_mem
    (head : α)
    (list : List α) :
    lastOr head list ∈ head :: list := by
  rw [← dropLast_append_lastOr head list]
  simp

theorem firstOr_mem
    (head : α)
    (list : List α) :
    firstOr head list ∈ head :: list := by
  cases list <;> simp

/-- The first and the last node coincide when there is at most one. -/
theorem firstOr_eq_lastOr_iff
    (head : α)
    (nodup : list.Nodup) :
    firstOr head list = lastOr head list ↔ list.length ≤ 1 := by
  rcases list with _ | ⟨first, _ | ⟨second, rest⟩⟩
  · simp
  · simp
  · have different : first ≠ lastOr second rest :=
      (ne_of_mem_of_not_mem (lastOr_mem second rest) (List.nodup_cons.mp nodup).1).symm
    simpa using different

theorem isChain_linked_congr
    {list : List α}
    (chain : list.IsChain (Linked links))
    (sameNext : ∀ node ∈ list.dropLast, (links' node).next = (links node).next)
    (samePrev : ∀ node ∈ list.tail, (links' node).prev = (links node).prev) :
    list.IsChain (Linked links') := by
  rw [List.isChain_iff_getElem] at chain ⊢
  intro index bound
  obtain ⟨forwards, backwards⟩ := chain index bound
  have firstMember : list[index] ∈ list.dropLast := by
    rw [← List.getElem_dropLast (by simp; omega)]
    exact List.getElem_mem _
  have secondMember : list[index + 1] ∈ list.tail := by
    rw [← List.getElem_tail (by simp; omega)]
    exact List.getElem_mem _
  exact ⟨(sameNext _ firstMember).trans forwards, (samePrev _ secondMember).trans backwards⟩

theorem not_mem_others_of_not_mem
    {head node other : α}
    {before after : List α}
    (outside : other ∉ head :: (before ++ node :: after)) :
    other ∉ head :: (before ++ after) ∧ other ≠ node := by
  simp only [List.mem_cons, List.mem_append, not_or] at outside ⊢
  exact ⟨⟨outside.1, outside.2.1, outside.2.2.2⟩, outside.2.2.1⟩

/-- A doubly linked ring through `head` that visits the nodes of `list` in
order. -/
structure IsRing (links : Links α) (head : α) (list : List α) : Prop where
  /-- Consecutive nodes point at each other, and the ring is closed. -/
  chain : (head :: (list ++ [head])).IsChain (Linked links)
  /-- No node is visited twice. -/
  nodup : (head :: list).Nodup

namespace IsRing

variable {links : Links α}

theorem empty
    (next : (links head).next = head)
    (prev : (links head).prev = head) : IsRing links head [] where
  chain := by simp [Linked, next, prev]
  nodup := by simp

theorem links_of_mem (ring : IsRing links head (before ++ node :: after)) :
    (links node).prev = lastOr head before ∧
      (links node).next = firstOr head after := by
  have chain := ring.chain
  have shape : head :: (before ++ node :: after ++ [head]) =
      (head :: before).dropLast ++ lastOr head before :: node ::
        firstOr head after :: (after ++ [head]).tail := by
    rw [firstOr_cons_tail, List.append_assoc, List.cons_append,
      ← List.cons_append, ← dropLast_append_lastOr head before]
    simp
  rw [shape, List.isChain_append_cons_cons] at chain
  obtain ⟨_, ⟨_, prev⟩, rest⟩ := chain
  obtain ⟨⟨next, _⟩, _⟩ := List.isChain_cons_cons.mp rest
  exact ⟨prev, next⟩

theorem next_head (ring : IsRing links head list) :
    (links head).next = firstOr head list := by
  have chain := ring.chain
  rw [← firstOr_cons_tail] at chain
  exact (List.isChain_cons_cons.mp chain).1.1

theorem prev_head (ring : IsRing links head list) :
    (links head).prev = lastOr head list := by
  have chain := ring.chain
  rw [← List.cons_append, ← dropLast_append_lastOr head list,
    List.append_assoc, List.singleton_append,
    List.isChain_append_cons_cons] at chain
  exact chain.2.1.2

section

variable
  {links : Links α} {head node : α} {before after : List α}
  (ring : IsRing links head (before ++ node :: after))

include ring

theorem next_eq_head_of_links_eq
    (equal : (links node).next = (links node).prev) :
    (links node).next = head := by
  obtain ⟨prev, next⟩ := ring.links_of_mem
  have nodup := ring.nodup
  cases before with
  | nil =>
      rw [equal, prev]
      rfl
  | cons first rest =>
      cases after with
      | nil => exact next
      | cons following others =>
          rw [next, prev, firstOr_cons, lastOr_cons] at equal
          have lastMember : following ∈ first :: rest := by
            rw [equal]
            exact lastOr_mem first rest
          simp only [List.nodup_cons, List.nodup_append] at nodup
          exact absurd rfl (nodup.2.2.2 following lastMember following (by simp))

theorem eq_nil_of_links_eq_head
    (prev : (links node).prev = head)
    (next : (links node).next = head) :
    before = [] ∧ after = [] := by
  have nodup := ring.nodup
  rw [ring.links_of_mem.1] at prev
  rw [ring.links_of_mem.2] at next
  constructor
  · cases before with
    | nil => rfl
    | cons first rest =>
        have member := lastOr_mem first rest
        rw [lastOr_cons] at prev
        simp_all
  · cases after with
    | nil => rfl
    | cons first rest => simp_all

theorem not_mem_others : node ∉ head :: (before ++ after) := by
  have nodup := ring.nodup
  simp only [List.nodup_cons, List.mem_append, List.mem_cons, List.nodup_append] at nodup ⊢
  grind

end

variable {head : α}

theorem congr
    {list : List α}
    (ring : IsRing links head list)
    (same : ∀ node ∈ head :: list, links' node = links node) :
    IsRing links' head list where
  chain := by
    apply isChain_linked_congr ring.chain
    · intro node member
      have : node ∈ head :: list := by
        rw [← List.cons_append, List.dropLast_concat] at member
        exact member
      rw [same node this]
    · intro node member
      have : node ∈ head :: list := by
        simp only [List.tail_cons, List.mem_append, List.mem_singleton] at member
        simpa [or_comm] using member
      rw [same node this]
  nodup := ring.nodup

theorem cons_append_append_head
    (head : α)
    (before inner after : List α) :
    head :: (before ++ (inner ++ after) ++ [head]) =
      (head :: before).dropLast ++ lastOr head before ::
        (inner ++ firstOr head after :: (after ++ [head]).tail) := by
  have lower := dropLast_append_lastOr head before
  rw [firstOr_cons_tail]
  calc head :: (before ++ (inner ++ after) ++ [head])
      = (head :: before) ++ (inner ++ (after ++ [head])) := by simp
    _ = ((head :: before).dropLast ++ [lastOr head before]) ++
          (inner ++ (after ++ [head])) := by rw [lower]
    _ = _ := by simp

variable {before after : List α}

theorem lastOr_not_mem (nodup : (head :: (before ++ after)).Nodup) :
    lastOr head before ∉ (head :: before).dropLast ++ after := by
  have distinct : ((head :: before).dropLast ++
      [lastOr head before] ++ after).Nodup := by
    rw [dropLast_append_lastOr]
    simpa using nodup
  simp only [List.nodup_append, List.mem_append, List.mem_singleton] at distinct
  intro member
  rcases List.mem_append.mp member with earlier | later
  · exact distinct.1.2.2 _ earlier _ rfl rfl
  · exact distinct.2.2 _ (.inr rfl) _ later rfl

theorem firstOr_not_mem (nodup : (head :: (before ++ after)).Nodup) :
    firstOr head after ∉ before ++ (after ++ [head]).tail := by
  have distinct : (before ++ (firstOr head after ::
      (after ++ [head]).tail)).Nodup := by
    rw [firstOr_cons_tail, ← List.append_assoc, List.nodup_append_comm]
    simpa using nodup
  simp only [List.nodup_append, List.nodup_cons, List.mem_cons] at distinct
  intro member
  rcases List.mem_append.mp member with earlier | later
  · exact distinct.2.2 _ earlier _ (.inl rfl) rfl
  · exact distinct.2.1.1 later

theorem splice
    {links links' : Links α}
    (middle middle' : List α)
    (ring : IsRing links head (before ++ (middle ++ after)))
    (nodup : (head :: (before ++ (middle' ++ after))).Nodup)
    (sameNext : ∀ node ∈ head :: (before ++ after),
      node ≠ lastOr head before → (links' node).next = (links node).next)
    (samePrev : ∀ node ∈ head :: (before ++ after),
      node ≠ firstOr head after → (links' node).prev = (links node).prev)
    (bridge : (lastOr head before :: (middle' ++ [firstOr head after])).IsChain
      (Linked links')) :
    IsRing links' head (before ++ (middle' ++ after)) := by
  have outerNodup : (head :: (before ++ after)).Nodup := List.Nodup.sublist (by simp) nodup
  have lastNotOther := lastOr_not_mem outerNodup
  have firstNotOther := firstOr_not_mem outerNodup
  have chain := ring.chain
  rw [cons_append_append_head, List.isChain_split] at chain
  obtain ⟨lowerChain, upperChain⟩ := chain
  rw [← List.cons_append, List.isChain_split] at upperChain
  refine ⟨?_, nodup⟩
  rw [cons_append_append_head, List.isChain_split]
  constructor
  · apply isChain_linked_congr lowerChain
    · intro node member
      rw [List.dropLast_concat] at member
      apply sameNext
      · have := List.dropLast_subset _ member
        simp only [List.mem_cons, List.mem_append] at this ⊢
        tauto
      · rintro rfl
        exact lastNotOther (List.mem_append_left _ member)
    · intro node member
      rw [dropLast_append_lastOr, List.tail_cons] at member
      apply samePrev
      · simp [member]
      · rintro rfl
        exact firstNotOther (List.mem_append_left _ member)
  · rw [← List.cons_append, List.isChain_split]
    refine ⟨bridge, ?_⟩
    have upper := upperChain.2
    rw [firstOr_cons_tail] at upper ⊢
    apply isChain_linked_congr upper
    · intro node member
      rw [List.dropLast_concat] at member
      apply sameNext
      · simp [member]
      · rintro rfl
        exact lastNotOther (List.mem_append_right _ member)
    · intro node member
      apply samePrev
      · have := List.mem_of_mem_tail member
        simp only [List.mem_cons, List.mem_append] at this ⊢
        tauto
      · rintro rfl
        exact firstNotOther (List.mem_append_right _ member)

section Surgery

variable [DecidableEq α]

theorem insert
    (ring : IsRing links head (before ++ after))
    (fresh : node ∉ head :: (before ++ after))
    (next : ∀ other, (links' other).next =
      if other = lastOr head before then node
      else if other = node then firstOr head after else (links other).next)
    (prev : ∀ other, (links' other).prev =
      if other = firstOr head after then node
      else if other = node then lastOr head before
      else (links other).prev) :
    IsRing links' head (before ++ node :: after) := by
  have lastMember := lastOr_mem head before
  have firstMember := firstOr_mem head after
  have lastDifferent : node ≠ lastOr head before := by
    rintro rfl
    apply fresh
    simp only [List.mem_cons, List.mem_append] at lastMember ⊢
    tauto
  have firstDifferent : node ≠ firstOr head after := by
    rintro rfl
    apply fresh
    simp only [List.mem_cons, List.mem_append] at firstMember ⊢
    tauto
  have outsider : ∀ other ∈ head :: (before ++ after), other ≠ node := by
    rintro other member rfl
    exact fresh member
  apply splice [] [node] ring
  · simp only [List.mem_cons, List.mem_append] at fresh
    have nodup := ring.nodup
    simp only [List.nodup_cons, List.nodup_append, List.mem_append,
      List.mem_cons, List.singleton_append] at nodup ⊢
    grind
  · intro other member different
    rw [next, if_neg different, if_neg (outsider other member)]
  · intro other member different
    rw [prev, if_neg different, if_neg (outsider other member)]
  · simp [Linked, next, prev, lastDifferent, firstDifferent]

end Surgery

end IsRing

section Surgery

variable [DecidableEq α]

/-- Let the neighbours of a node point at each other. -/
def Links.unlink
    (links : Links α)
    (node : α) : Links α :=
  (links.setNext (links node).prev (links node).next).setPrev
    (links node).next (links node).prev

/-- Put a node between the last node of a ring and its head. -/
def Links.linkLast
    (links : Links α)
    (head node : α) : Links α :=
  (((links.setNext node head).setPrev node (links head).prev).setNext
    (links head).prev node).setPrev head node

/-- Put a node right after another one. -/
def Links.linkAfter
    (links : Links α)
    (target node : α) : Links α :=
  (((links.setPrev node target).setNext node (links target).next).setPrev
    (links target).next node).setNext target node

variable {links : Links α} {before after : List α}

theorem IsRing.unlink (ring : IsRing links head (before ++ node :: after)) :
    IsRing (links.unlink node) head (before ++ after) := by
  obtain ⟨prev, next⟩ := ring.links_of_mem
  apply IsRing.splice [node] [] ring
  · exact List.Nodup.sublist (by simp) ring.nodup
  · intro other _ different
    simp [Links.unlink, prev, different]
  · intro other _ different
    simp [Links.unlink, next, different]
  · simp [Linked, Links.unlink, prev, next]

variable {head node other : α}

theorem IsRing.unlink_of_not_mem
    (ring : IsRing links head (before ++ node :: after))
    (outside : other ∉ head :: (before ++ after)) :
    links.unlink node other = links other := by
  obtain ⟨prev, next⟩ := ring.links_of_mem
  have lastMember := lastOr_mem head before
  have firstMember := firstOr_mem head after
  simp only [List.mem_cons, List.mem_append, not_or] at outside lastMember firstMember
  have lastDifferent : other ≠ lastOr head before := by
    rintro rfl
    tauto
  have firstDifferent : other ≠ firstOr head after := by
    rintro rfl
    tauto
  apply Node.eq_of_links
  · simp [Links.unlink, next, firstDifferent]
  · simp [Links.unlink, prev, lastDifferent]

theorem IsRing.linkLast
    (ring : IsRing links head list)
    (fresh : node ∉ head :: list) :
    IsRing (links.linkLast head node) head (list ++ [node]) := by
  have whole : IsRing links head (list ++ []) := by simpa using ring
  apply whole.insert (by simpa using fresh)
  · intro other
    simp [Links.linkLast, ring.prev_head]
  · intro other
    simp only [Links.linkLast, ring.prev_head, Links.setPrev_prev, Links.setNext_prev]
    rfl

theorem IsRing.linkLast_of_not_mem
    (ring : IsRing links head list)
    (outside : other ∉ head :: list)
    (different : other ≠ node) :
    links.linkLast head node other = links other := by
  have lastMember : (links head).prev ∈ head :: list := by
    rw [ring.prev_head]
    exact lastOr_mem head list
  have lastDifferent : other ≠ (links head).prev := by
    rintro rfl
    exact outside lastMember
  have headDifferent : other ≠ head := by
    rintro rfl
    simp at outside
  apply Node.eq_of_links
  · simp [Links.linkLast, different, headDifferent]
  · simp [Links.linkLast, different, lastDifferent]

theorem IsRing.linkAfter
    (ring : IsRing links head (before ++ target :: after))
    (fresh : node ∉ head :: (before ++ target :: after)) :
    IsRing (links.linkAfter target node) head
      (before ++ target :: node :: after) := by
  have targetNext := ring.links_of_mem.2
  have split : IsRing links head ((before ++ [target]) ++ after) := by
    simpa using ring
  have different : node ≠ target := by
    rintro rfl
    simp at fresh
  have inserted : IsRing (links.linkAfter target node) head
      ((before ++ [target]) ++ node :: after) := by
    apply split.insert (by simpa using fresh)
    · intro other
      simp [Links.linkAfter, targetNext]
    · intro other
      simp [Links.linkAfter, targetNext]
  simpa using inserted

theorem IsRing.linkAfter_of_not_mem
    (ring : IsRing links head (before ++ target :: after))
    (outside : other ∉ head :: (before ++ target :: after))
    (different : other ≠ node) :
    links.linkAfter target node other = links other := by
  have targetNext := ring.links_of_mem.2
  have firstMember := firstOr_mem head after
  simp only [List.mem_cons, List.mem_append, not_or] at outside firstMember
  have firstDifferent : other ≠ firstOr head after := by
    rintro rfl
    tauto
  apply Node.eq_of_links
  · simp [Links.linkAfter, targetNext, different, firstDifferent]
  · simp [Links.linkAfter, different, outside.2.2.1]

section

variable (ring : IsRing links head (before ++ node :: after))

include ring

theorem IsRing.moveLast :
    IsRing ((links.unlink node).linkLast head node) head
      (before ++ after ++ [node]) :=
  ring.unlink.linkLast ring.not_mem_others

theorem IsRing.moveAfter
    (rest : before ++ after = lower ++ target :: upper) :
    IsRing ((links.unlink node).linkAfter target node) head
      (lower ++ target :: node :: upper) := by
  have unlinked := ring.unlink
  have fresh := ring.not_mem_others
  rw [rest] at unlinked fresh
  exact unlinked.linkAfter fresh

theorem IsRing.moveLast_of_not_mem
    (outside : other ∉ head :: (before ++ node :: after)) :
    (links.unlink node).linkLast head node other = links other := by
  obtain ⟨notOther, different⟩ := not_mem_others_of_not_mem outside
  exact (ring.unlink.linkLast_of_not_mem notOther different).trans (ring.unlink_of_not_mem notOther)

theorem IsRing.moveAfter_of_not_mem
    (rest : before ++ after = lower ++ target :: upper)
    (outside : other ∉ head :: (before ++ node :: after)) :
    (links.unlink node).linkAfter target node other = links other := by
  obtain ⟨notOther, different⟩ := not_mem_others_of_not_mem outside
  have unlinked := ring.unlink
  have untouched := ring.unlink_of_not_mem notOther
  rw [rest] at unlinked notOther
  exact (unlinked.linkAfter_of_not_mem notOther different).trans untouched

end

end Surgery

/-! ## Stacks -/

/-- A node of a stack repeats its successor in both links. -/
def Stacked
    (links : Links α)
    (first second : α) : Prop :=
  links first = ⟨second, second⟩

/-- A chain of stacked nodes only reads the links of all nodes but the last. -/
theorem isChain_stacked_congr
    {list : List α}
    (chain : list.IsChain (Stacked links))
    (same : ∀ node ∈ list.dropLast, links' node = links node) :
    list.IsChain (Stacked links') := by
  rw [List.isChain_iff_getElem] at chain ⊢
  intro index bound
  have member : list[index] ∈ list.dropLast := by
    rw [← List.getElem_dropLast (by simp; omega)]
    exact List.getElem_mem _
  exact (same _ member).trans (chain index bound)

/-- A stack that hangs off `head` and closes back to it. -/
structure IsStack (links : Links α) (head : α) (list : List α) : Prop where
  /-- Consecutive nodes are stacked, and the last one leads back. -/
  chain : (head :: (list ++ [head])).IsChain (Stacked links)
  /-- No node is visited twice. -/
  nodup : (head :: list).Nodup

namespace IsStack

variable {list : List α}

theorem links_head (stack : IsStack links head list) :
    links head = ⟨firstOr head list, firstOr head list⟩ := by
  have chain := stack.chain
  rw [← firstOr_cons_tail] at chain
  exact (List.isChain_cons_cons.mp chain).1

theorem links_of_mem
    (stack : IsStack links head list)
    (member : node ∈ list) :
    ∃ successor ∈ head :: list, links node = ⟨successor, successor⟩ := by
  obtain ⟨before, after, rfl⟩ := List.append_of_mem member
  have chain := stack.chain
  rw [List.append_assoc, List.cons_append, ← firstOr_cons_tail,
    ← List.cons_append, List.isChain_append_cons_cons] at chain
  refine ⟨firstOr head after, ?_, chain.2.1⟩
  have successorMember := firstOr_mem head after
  simp only [List.mem_cons, List.mem_append] at successorMember ⊢
  tauto

variable {links links' : Links α}

theorem congr
    {head : α}
    (stack : IsStack links head list)
    (same : ∀ node ∈ head :: list, links' node = links node) :
    IsStack links' head list where
  chain := by
    apply isChain_stacked_congr stack.chain
    intro node member
    rw [← List.cons_append, List.dropLast_concat] at member
    exact same node member
  nodup := stack.nodup

theorem pop
    {head node : α}
    (stack : IsStack links head (node :: list))
    (newHead : links' head = ⟨(links node).next, (links node).next⟩)
    (same : ∀ other ∈ list, links' other = links other) :
    IsStack links' head list := by
  have nodup : (head :: list).Nodup := List.Nodup.sublist (by simp) stack.nodup
  have chain := (List.isChain_cons_cons.mp stack.chain).2
  refine ⟨?_, nodup⟩
  rw [List.append_eq, ← firstOr_cons_tail] at chain
  obtain ⟨nodeLinks, rest⟩ := List.isChain_cons_cons.mp chain
  rw [Stacked] at nodeLinks
  rw [nodeLinks] at newHead
  rw [← firstOr_cons_tail]
  refine List.isChain_cons_cons.mpr ⟨newHead, ?_⟩
  rw [firstOr_cons_tail] at rest ⊢
  apply isChain_stacked_congr rest
  intro other member
  rw [List.dropLast_concat] at member
  exact same other member

theorem push
    {head node : α}
    (stack : IsStack links head list)
    (fresh : node ∉ head :: list)
    (newHead : links' head = ⟨node, node⟩)
    (newNode : links' node = ⟨(links head).next, (links head).next⟩)
    (same : ∀ other ∈ list, links' other = links other) :
    IsStack links' head (node :: list) := by
  have headLinks := stack.links_head
  have chain := stack.chain
  refine ⟨?_, ?_⟩
  · refine List.isChain_cons_cons.mpr ⟨newHead, ?_⟩
    rw [List.append_eq, ← firstOr_cons_tail] at *
    obtain ⟨_, rest⟩ := List.isChain_cons_cons.mp chain
    refine List.isChain_cons_cons.mpr ⟨?_, ?_⟩
    · rw [Stacked, newNode, headLinks]
    · rw [firstOr_cons_tail] at rest ⊢
      apply isChain_stacked_congr rest
      intro other member
      rw [List.dropLast_concat] at member
      exact same other member
  · have nodup := stack.nodup
    simp only [List.nodup_cons, List.mem_cons, not_or] at nodup fresh ⊢
    exact ⟨⟨Ne.symm fresh.1, nodup.1⟩, fresh.2, nodup.2⟩

end IsStack

end LinkedRing
