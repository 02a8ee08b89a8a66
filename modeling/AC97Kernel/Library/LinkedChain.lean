/-
Linked lists threaded through nodes of any type.

`next` and `prev` are read from wherever the nodes keep them, so the same facts
serve lists in arrays of words and lists of records.  The lists are never
stored: a statement names the list of nodes that the links visit.
-/

import Mathlib.Data.List.Basic
import Mathlib.Logic.Function.Basic

set_option autoImplicit false

namespace LinkedChain

variable {Node : Type}

/-- Following `next` from `head` visits exactly `nodes` and arrives at `stop`. -/
def Segment (next : Node → Node) : Node → List Node → Node → Prop
  | head, [], stop => head = stop
  | head, node :: rest, stop => head = node ∧ Segment next (next node) rest stop

/-- `prev` leads from every node back to the one before it. -/
def Backward (prev : Node → Node) : Node → List Node → Prop
  | _, [] => True
  | before, node :: rest => prev node = before ∧ Backward prev node rest

theorem segment_append (next : Node → Node) (head stop : Node) (first second : List Node) :
    Segment next head (first ++ second) stop ↔
      ∃ middle, Segment next head first middle ∧ Segment next middle second stop := by
  induction first generalizing head with
  | nil => simp [Segment]
  | cons node rest ih => simp [Segment, ih, and_assoc]

theorem Segment.congr {next other : Node → Node} {head stop : Node} {nodes : List Node}
    (segment : Segment next head nodes stop)
    (agree : ∀ node ∈ nodes, other node = next node) : Segment other head nodes stop := by
  induction nodes generalizing head with
  | nil => exact segment
  | cons node rest ih =>
      refine ⟨segment.1, ?_⟩
      rw [agree node (List.mem_cons_self)]
      exact ih segment.2 (fun item member => agree item (List.mem_cons_of_mem node member))

theorem Backward.congr {prev other : Node → Node} {before : Node} {nodes : List Node}
    (backward : Backward prev before nodes)
    (agree : ∀ node ∈ nodes, other node = prev node) : Backward other before nodes := by
  induction nodes generalizing before with
  | nil => trivial
  | cons node rest ih =>
      refine ⟨(agree node List.mem_cons_self).trans backward.1, ?_⟩
      exact ih backward.2 (fun item member => agree item (List.mem_cons_of_mem node member))

/-- The links decide which nodes are visited. -/
theorem Segment.unique {next : Node → Node} {null head : Node} {first second : List Node}
    (left : Segment next head first null) (leftReal : null ∉ first)
    (right : Segment next head second null) (rightReal : null ∉ second) : first = second := by
  induction first generalizing head second with
  | nil =>
      cases second with
      | nil => rfl
      | cons node rest =>
          have same : node = null := right.1.symm.trans left
          exact absurd (same ▸ List.mem_cons_self) rightReal
  | cons node rest ih =>
      cases second with
      | nil =>
          have same : node = null := left.1.symm.trans right
          exact absurd (same ▸ List.mem_cons_self) leftReal
      | cons other tail =>
          have same : node = other := left.1.symm.trans right.1
          subst same
          congr 1
          exact ih left.2 (fun member => leftReal (List.mem_cons_of_mem _ member))
            right.2 (fun member => rightReal (List.mem_cons_of_mem _ member))

/-- Only the last node's link has to change for a segment to arrive elsewhere. -/
theorem Segment.redirect [DecidableEq Node] {next : Node → Node} {head stop target last : Node}
    {nodes : List Node} (segment : Segment next head (nodes ++ [last]) stop)
    (absent : last ∉ nodes) :
    Segment (Function.update next last target) head (nodes ++ [last]) target := by
  rw [segment_append] at segment ⊢
  obtain ⟨middle, before, atLast, _⟩ := segment
  refine ⟨middle, before.congr ?_, atLast, ?_⟩
  · intro node member
    apply Function.update_of_ne
    intro same
    subst same
    exact absent member
  · exact Function.update_self _ _ _

/-- The second part leads back to the last node of the first. -/
theorem backward_append (prev : Node → Node) (before : Node) (first second : List Node) :
    Backward prev before (first ++ second) ↔
      Backward prev before first ∧ Backward prev (first.getLast?.getD before) second := by
  induction first generalizing before with
  | nil => simp [Backward]
  | cons node rest ih => simp [Backward, ih, and_assoc, List.getLast?_cons]

/-- The pointers of a doubly linked list. -/
structure Links (Node : Type) where
  next : Node → Node
  prev : Node → Node
  head : Node

namespace Links

/-- The links visit `nodes` in order, forwards to `null` and backwards from it. -/
structure Lists (links : Links Node) (null : Node) (nodes : List Node) : Prop where
  forward : Segment links.next links.head nodes null
  backward : Backward links.prev null nodes
  real : null ∉ nodes
  distinct : nodes.Nodup

theorem Lists.congr {links other : Links Node} {null : Node} {nodes : List Node}
    (lists : links.Lists null nodes) (sameHead : other.head = links.head)
    (sameNext : ∀ node ∈ nodes, other.next node = links.next node)
    (samePrev : ∀ node ∈ nodes, other.prev node = links.prev node) :
    other.Lists null nodes := by
  refine ⟨?_, lists.backward.congr samePrev, lists.real, lists.distinct⟩
  rw [sameHead]
  exact lists.forward.congr sameNext

/-- A node of the list has its neighbours in its own links. -/
theorem Lists.around {links : Links Node} {null node : Node} {first second : List Node}
    (lists : links.Lists null (first ++ node :: second)) :
    Segment links.next links.head first node ∧
      Segment links.next (links.next node) second null ∧
      links.prev node = (first.getLast?).getD null := by
  have forward := lists.forward
  rw [segment_append] at forward
  obtain ⟨middle, before, atNode, after⟩ := forward
  subst atNode
  refine ⟨before, after, ?_⟩
  exact ((backward_append _ _ _ _).mp lists.backward).2.1

theorem head_of_segment {next : Node → Node} {head stop : Node} {nodes : List Node}
    (segment : Segment next head nodes stop) : head = (nodes.head?).getD stop := by
  cases nodes with
  | nil => exact segment
  | cons node rest => exact segment.1

theorem Lists.head_mem {links : Links Node} {null : Node} {nodes : List Node}
    (lists : links.Lists null nodes) : links.head = null ∨ links.head ∈ nodes := by
  have headIs := head_of_segment lists.forward
  cases nodes with
  | nil => exact Or.inl headIs
  | cons node rest =>
      have same : links.head = node := headIs
      exact Or.inr (same ▸ List.mem_cons_self)

theorem Lists.next_mem {links : Links Node} {null node : Node} {nodes : List Node}
    (lists : links.Lists null nodes) (member : node ∈ nodes) :
    links.next node = null ∨ links.next node ∈ nodes := by
  obtain ⟨first, second, split⟩ := List.append_of_mem member
  subst split
  have follower := head_of_segment lists.around.2.1
  cases second with
  | nil => exact Or.inl follower
  | cons successor rest =>
      have same : links.next node = successor := follower
      rw [same]
      exact Or.inr (by simp)

theorem Lists.prev_mem {links : Links Node} {null node : Node} {nodes : List Node}
    (lists : links.Lists null nodes) (member : node ∈ nodes) :
    links.prev node = null ∨ links.prev node ∈ nodes := by
  obtain ⟨first, second, split⟩ := List.append_of_mem member
  subst split
  have previous := lists.around.2.2
  cases before : first.getLast? with
  | none =>
      rw [before] at previous
      exact Or.inl previous
  | some last =>
      rw [before] at previous
      have same : links.prev node = last := previous
      rw [same]
      exact Or.inr (List.mem_append_left _ (List.mem_of_getLast? before))

section Editing

variable [DecidableEq Node]

/-- Take `node` out: its neighbours are joined, the head moves when it was first. -/
def unlink (links : Links Node) (null node : Node) : Links Node :=
  { head := if links.prev node = null then links.next node else links.head
    next := if links.prev node = null then links.next
      else Function.update links.next (links.prev node) (links.next node)
    prev := if links.next node = null then links.prev
      else Function.update links.prev (links.next node) (links.prev node) }

/-- Put `node` in front of the list. -/
def push (links : Links Node) (null node : Node) : Links Node :=
  { head := node
    next := Function.update links.next node links.head
    prev := if links.head = null then Function.update links.prev node null
      else Function.update (Function.update links.prev node null) links.head node }

/-- The predecessor of `node`, or the head, skips it. -/
private theorem Lists.unlink_forward {links : Links Node} {null node : Node}
    {first second : List Node} (lists : links.Lists null (first ++ node :: second)) :
    Segment (links.unlink null node).next (links.unlink null node).head (first ++ second)
      null := by
  obtain ⟨before, after, previous⟩ := lists.around
  obtain ⟨firstDistinct, _, separate⟩ := List.nodup_append.mp lists.distinct
  rcases List.eq_nil_or_concat first with empty | ⟨front, last, split⟩
  · subst empty
    have atHead : links.prev node = null := previous
    simp only [Links.unlink, atHead, if_true, List.nil_append]
    exact after
  · rw [List.concat_eq_append] at split
    subst split
    have lastIs : links.prev node = last := by
      rw [previous, List.getLast?_append, List.getLast?_singleton]
      rfl
    have lastReal : last ≠ null := by
      intro same
      subst same
      exact lists.real (by simp)
    have lastFresh : last ∉ front := by
      intro inFront
      have parts := List.nodup_append.mp firstDistinct
      exact parts.2.2 last inFront last (by simp) rfl
    simp only [Links.unlink, lastIs, if_neg lastReal]
    rw [segment_append]
    refine ⟨links.next node, before.redirect lastFresh, after.congr ?_⟩
    intro item inSecond
    apply Function.update_of_ne
    intro same
    subst same
    exact separate item (by simp) item (List.mem_cons_of_mem _ inSecond) rfl

/-- Its follower, when there is one, points at its predecessor. -/
private theorem Lists.unlink_backward {links : Links Node} {null node : Node}
    {first second : List Node} (lists : links.Lists null (first ++ node :: second)) :
    Backward (links.unlink null node).prev null (first ++ second) := by
  have follower := head_of_segment lists.around.2.1
  have previous := lists.around.2.2
  obtain ⟨_, restDistinct, separate⟩ := List.nodup_append.mp lists.distinct
  obtain ⟨toFirst, _, fromNode⟩ := (backward_append _ _ _ _).mp lists.backward
  cases second with
  | nil =>
      have last : links.next node = null := follower
      simp only [Links.unlink, last, if_true, List.append_nil]
      exact toFirst
  | cons successor tail =>
      have nextIs : links.next node = successor := follower
      have successorReal : successor ≠ null := by
        intro same
        subst same
        exact lists.real (by simp)
      simp only [Links.unlink, nextIs, if_neg successorReal]
      rw [backward_append]
      refine ⟨toFirst.congr ?_, ?_, fromNode.2.congr ?_⟩
      · intro item inFirst
        apply Function.update_of_ne
        intro same
        subst same
        exact separate item inFirst item (by simp) rfl
      · rw [Function.update_self, previous]
      · intro item inTail
        apply Function.update_of_ne
        intro same
        subst same
        exact (List.nodup_cons.mp (List.nodup_cons.mp restDistinct).2).1 inTail

theorem Lists.unlink {links : Links Node} {null node : Node} {nodes : List Node}
    (lists : links.Lists null nodes) (member : node ∈ nodes) :
    (links.unlink null node).Lists null (nodes.erase node) := by
  obtain ⟨first, second, split⟩ := List.append_of_mem member
  subst split
  have fewer : (first ++ second).Sublist (first ++ node :: second) :=
    (List.sublist_cons_self node second).append_left first
  have notFirst : node ∉ first := fun inFirst =>
    (List.nodup_append.mp lists.distinct).2.2 node inFirst node List.mem_cons_self rfl
  have erased : (first ++ node :: second).erase node = first ++ second := by
    rw [List.erase_append_right _ notFirst, List.erase_cons_head]
  rw [erased]
  constructor
  · exact lists.unlink_forward
  · exact lists.unlink_backward
  · exact fun present => lists.real (fewer.subset present)
  · exact lists.distinct.sublist fewer

theorem Lists.push {links : Links Node} {null node : Node} {nodes : List Node}
    (lists : links.Lists null nodes) (fresh : node ∉ nodes) (nodeReal : node ≠ null) :
    (links.push null node).Lists null (node :: nodes) := by
  have kept : ∀ item ∈ nodes, item ≠ node := fun item member same => fresh (same ▸ member)
  refine ⟨⟨rfl, ?_⟩, ?_, ?_, List.nodup_cons.mpr ⟨fresh, lists.distinct⟩⟩
  · change Segment _ (Function.update links.next node links.head node) nodes null
    rw [Function.update_self]
    exact lists.forward.congr (fun item member => Function.update_of_ne (kept item member) _ _)
  · have headIs := head_of_segment lists.forward
    cases nodes with
    | nil =>
        have empty : links.head = null := headIs
        exact ⟨by simp [Links.push, empty], trivial⟩
    | cons first rest =>
        have headFirst : links.head = first := headIs
        have firstReal : first ≠ null := fun same => lists.real (same ▸ List.mem_cons_self)
        have nodeFirst : node ≠ first := fun same => kept first List.mem_cons_self same.symm
        simp only [Links.push, headFirst, if_neg firstReal]
        refine ⟨?_, ?_, lists.backward.2.congr ?_⟩
        · rw [Function.update_of_ne nodeFirst, Function.update_self]
        · rw [Function.update_self]
        · intro item member
          have notFirst : item ≠ first := by
            intro same
            subst same
            exact (List.nodup_cons.mp lists.distinct).1 member
          rw [Function.update_of_ne notFirst,
            Function.update_of_ne (kept item (List.mem_cons_of_mem _ member))]
  · intro member
    rcases List.mem_cons.mp member with same | inNodes
    · exact nodeReal same.symm
    · exact lists.real inNodes

end Editing

end Links

end LinkedChain
