/-
Custody of items that are handed out and taken back.

Every outstanding item has a holder: one named place, or the hands of whoever
is moving it at the moment.  `held` says which item a place holds and `flight`
lists the items between places.  No item has two holders.  When `exact` holds
no outstanding item is without one; a development that has to follow losses
takes `exact` to be false and keeps the rest.
-/

import Mathlib.Data.List.Nodup
import Mathlib.Logic.Function.Basic

set_option autoImplicit false

structure Custody {Place Item : Type} (held : Place → Option Item) (flight : List Item)
    (outstanding : Item → Prop) (exact : Prop) : Prop where
  single : ∀ first second item, held first = some item → held second = some item →
    first = second
  distinct : flight.Nodup
  apart : ∀ place item, held place = some item → item ∉ flight
  heldKnown : ∀ place item, held place = some item → outstanding item
  flightKnown : ∀ item ∈ flight, outstanding item
  complete : exact → ∀ item, outstanding item →
    item ∈ flight ∨ ∃ place, held place = some item

namespace Custody

variable {Place Item : Type} {held other : Place → Option Item} {flight : List Item}
  {outstanding known : Item → Prop} {exact : Prop}

theorem congr (custody : Custody held flight outstanding exact)
    (sameHeld : ∀ place, other place = held place)
    (sameKnown : ∀ item, known item ↔ outstanding item) :
    Custody other flight known exact := by
  have heldIs : other = held := funext sameHeld
  have knownIs : known = outstanding := funext (fun item => propext (sameKnown item))
  rw [heldIs, knownIs]
  exact custody

/-- A new item is handed out. -/
theorem issue (custody : Custody held flight outstanding exact) {fresh : Item}
    (unknown : ¬ outstanding fresh)
    (added : ∀ item, known item ↔ outstanding item ∨ item = fresh) :
    Custody held (fresh :: flight) known exact := by
  constructor
  · exact custody.single
  · refine List.nodup_cons.mpr ⟨?_, custody.distinct⟩
    intro member
    exact unknown (custody.flightKnown fresh member)
  · intro place item holds member
    rcases List.mem_cons.mp member with same | inFlight
    · subst same
      exact unknown (custody.heldKnown place item holds)
    · exact custody.apart place item holds inFlight
  · intro place item holds
    exact (added item).mpr (Or.inl (custody.heldKnown place item holds))
  · intro item member
    rcases List.mem_cons.mp member with same | inFlight
    · exact (added item).mpr (Or.inr same)
    · exact (added item).mpr (Or.inl (custody.flightKnown item inFlight))
  · intro exactly item present
    rcases (added item).mp present with before | same
    · rcases custody.complete exactly item before with inFlight | placed
      · exact Or.inl (List.mem_cons_of_mem _ inFlight)
      · exact Or.inr placed
    · subst same
      exact Or.inl List.mem_cons_self

/-- An item in flight is given back. -/
theorem giveBack {item : Item} (custody : Custody held (item :: flight) outstanding exact)
    (removed : ∀ other, known other ↔ outstanding other ∧ other ≠ item) :
    Custody held flight known exact := by
  obtain ⟨fresh, distinct⟩ := List.nodup_cons.mp custody.distinct
  constructor
  · exact custody.single
  · exact distinct
  · intro place other holds member
    exact custody.apart place other holds (List.mem_cons_of_mem item member)
  · intro place other holds
    refine (removed other).mpr ⟨custody.heldKnown place other holds, ?_⟩
    intro same
    subst same
    exact custody.apart place other holds List.mem_cons_self
  · intro other member
    refine (removed other).mpr ⟨custody.flightKnown other (List.mem_cons_of_mem item member), ?_⟩
    intro same
    subst same
    exact fresh member
  · intro exactly other present
    obtain ⟨before, different⟩ := (removed other).mp present
    rcases custody.complete exactly other before with inFlight | placed
    · exact Or.inl ((List.mem_cons.mp inFlight).resolve_left different)
    · exact Or.inr placed

/-- Where losses do not count an item in flight may be dropped. -/
theorem abandon {item : Item} (custody : Custody held (item :: flight) outstanding False) :
    Custody held flight outstanding False := by
  constructor
  · exact custody.single
  · exact (List.nodup_cons.mp custody.distinct).2
  · intro place other holds member
    exact custody.apart place other holds (List.mem_cons_of_mem item member)
  · exact custody.heldKnown
  · intro other member
    exact custody.flightKnown other (List.mem_cons_of_mem item member)
  · intro impossible
    cases impossible

section Moving

variable [DecidableEq Place]

private theorem held_after {place : Place} {item : Item} {entry : Option Item} {at' : Place}
    (holds : Function.update held place entry at' = some item) :
    (at' = place ∧ entry = some item) ∨ (at' ≠ place ∧ held at' = some item) := by
  by_cases same : at' = place
  · subst same
    rw [Function.update_self] at holds
    exact Or.inl ⟨rfl, holds⟩
  · rw [Function.update_of_ne same] at holds
    exact Or.inr ⟨same, holds⟩

/-- An empty place takes over an item in flight.  When nothing is promised about
losses the place may also be a full one, whose item is then lost. -/
theorem deposit {place : Place} {item : Item}
    (custody : Custody held (item :: flight) outstanding exact)
    (empty : exact → held place = none) :
    Custody (Function.update held place (some item)) flight outstanding exact := by
  obtain ⟨fresh, distinct⟩ := List.nodup_cons.mp custody.distinct
  have notHeld : ∀ at', held at' ≠ some item := fun at' holds =>
    custody.apart at' item holds List.mem_cons_self
  constructor
  · intro first second other holdsFirst holdsSecond
    rcases held_after holdsFirst with ⟨firstIs, itemFirst⟩ | ⟨_, oldFirst⟩
    · rcases held_after holdsSecond with ⟨secondIs, _⟩ | ⟨_, oldSecond⟩
      · rw [firstIs, secondIs]
      · cases itemFirst
        exact absurd oldSecond (notHeld second)
    · rcases held_after holdsSecond with ⟨_, itemSecond⟩ | ⟨_, oldSecond⟩
      · cases itemSecond
        exact absurd oldFirst (notHeld first)
      · exact custody.single first second other oldFirst oldSecond
  · exact distinct
  · intro at' other holds member
    rcases held_after holds with ⟨_, itemIs⟩ | ⟨_, old⟩
    · cases itemIs
      exact fresh member
    · exact custody.apart at' other old (List.mem_cons_of_mem item member)
  · intro at' other holds
    rcases held_after holds with ⟨_, itemIs⟩ | ⟨_, old⟩
    · cases itemIs
      exact custody.flightKnown item List.mem_cons_self
    · exact custody.heldKnown at' other old
  · intro other member
    exact custody.flightKnown other (List.mem_cons_of_mem item member)
  · intro exactly other present
    rcases custody.complete exactly other present with inFlight | ⟨at', holds⟩
    · rcases List.mem_cons.mp inFlight with same | member
      · subst same
        exact Or.inr ⟨place, Function.update_self _ _ _⟩
      · exact Or.inl member
    · refine Or.inr ⟨at', ?_⟩
      rw [Function.update_of_ne]
      · exact holds
      · intro same
        subst same
        rw [empty exactly] at holds
        cases holds

/-- A place lets go of its item. -/
theorem withdraw {place : Place} {item : Item}
    (custody : Custody held flight outstanding exact) (holds : held place = some item) :
    Custody (Function.update held place none) (item :: flight) outstanding exact := by
  have old : ∀ {at' : Place} {other : Item},
      Function.update held place none at' = some other → at' ≠ place ∧ held at' = some other := by
    intro at' other present
    rcases held_after present with ⟨_, impossible⟩ | kept
    · cases impossible
    · exact kept
  constructor
  · intro first second other holdsFirst holdsSecond
    exact custody.single first second other (old holdsFirst).2 (old holdsSecond).2
  · exact List.nodup_cons.mpr ⟨custody.apart place item holds, custody.distinct⟩
  · intro at' other present member
    obtain ⟨different, before⟩ := old present
    rcases List.mem_cons.mp member with same | inFlight
    · subst same
      exact different (custody.single at' place other before holds)
    · exact custody.apart at' other before inFlight
  · intro at' other present
    exact custody.heldKnown at' other (old present).2
  · intro other member
    rcases List.mem_cons.mp member with same | inFlight
    · subst same
      exact custody.heldKnown place other holds
    · exact custody.flightKnown other inFlight
  · intro exactly other present
    rcases custody.complete exactly other present with inFlight | ⟨at', before⟩
    · exact Or.inl (List.mem_cons_of_mem item inFlight)
    · by_cases same : at' = place
      · subst same
        rw [holds] at before
        cases before
        exact Or.inl List.mem_cons_self
      · exact Or.inr ⟨at', by rw [Function.update_of_ne same]; exact before⟩

end Moving

/-- A group of places closes down; what they held is in flight now. -/
theorem retire (custody : Custody held flight outstanding exact) (closing : Place → Prop)
    {released : List Item} (releasedDistinct : released.Nodup)
    (released_iff : ∀ item, item ∈ released ↔ ∃ place, closing place ∧ held place = some item)
    (closed : ∀ place, closing place → other place = none)
    (kept : ∀ place, ¬ closing place → other place = held place) :
    Custody other (released ++ flight) outstanding exact := by
  have old : ∀ place item, other place = some item →
      ¬ closing place ∧ held place = some item := by
    intro place item holds
    by_cases isClosing : closing place
    · rw [closed place isClosing] at holds
      cases holds
    · rw [kept place isClosing] at holds
      exact ⟨isClosing, holds⟩
  constructor
  · intro first second item holdsFirst holdsSecond
    exact custody.single first second item (old first item holdsFirst).2
      (old second item holdsSecond).2
  · rw [List.nodup_append]
    refine ⟨releasedDistinct, custody.distinct, ?_⟩
    intro left inReleased right inFlight same
    subst same
    obtain ⟨place, _, holds⟩ := (released_iff left).mp inReleased
    exact custody.apart place left holds inFlight
  · intro place item holds member
    obtain ⟨open', before⟩ := old place item holds
    rcases List.mem_append.mp member with inReleased | inFlight
    · obtain ⟨source, isClosing, sourceHolds⟩ := (released_iff item).mp inReleased
      have same := custody.single place source item before sourceHolds
      exact open' (same ▸ isClosing)
    · exact custody.apart place item before inFlight
  · intro place item holds
    exact custody.heldKnown place item (old place item holds).2
  · intro item member
    rcases List.mem_append.mp member with inReleased | inFlight
    · obtain ⟨source, _, sourceHolds⟩ := (released_iff item).mp inReleased
      exact custody.heldKnown source item sourceHolds
    · exact custody.flightKnown item inFlight
  · intro exactly item present
    rcases custody.complete exactly item present with inFlight | ⟨place, holds⟩
    · exact Or.inl (List.mem_append_right released inFlight)
    · by_cases isClosing : closing place
      · exact Or.inl (List.mem_append_left flight
          ((released_iff item).mpr ⟨place, isClosing, holds⟩))
      · exact Or.inr ⟨place, (kept place isClosing).trans holds⟩

end Custody
