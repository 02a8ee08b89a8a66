/-
Items of which each is in exactly one place.

`located` says which items a place has.  A step that relocates some items is
described by where it takes each of them; all others stay.
-/

import Mathlib.Logic.ExistsUnique

set_option autoImplicit false

structure OnePlace {Place Item : Type} (located : Place → Item → Prop) (known : Item → Prop) :
    Prop where
  somewhere : ∀ item, known item → ∃ place, located place item
  once : ∀ item first second, located first item → located second item → first = second
  known : ∀ place item, located place item → known item

namespace OnePlace

variable {Place Item : Type} {located after : Place → Item → Prop} {known knownAfter : Item → Prop}

theorem existsUnique (one : OnePlace located known) {item : Item} (present : known item) :
    ∃! place, located place item := by
  obtain ⟨place, at_⟩ := one.somewhere item present
  exact ⟨place, at_, fun other there => one.once item other place there at_⟩

/-- One item is taken to a place, and may be new. -/
theorem relocate (one : OnePlace located known) (moved : Item) (target : Place)
    (goes : ∀ place item, after place item ↔
      (item = moved ∧ place = target) ∨ (item ≠ moved ∧ located place item))
    (added : ∀ item, knownAfter item ↔ item = moved ∨ known item) :
    OnePlace after knownAfter where
  somewhere item present := by
    by_cases same : item = moved
    · exact ⟨target, (goes target item).2 (.inl ⟨same, rfl⟩)⟩
    · obtain ⟨place, at_⟩ := one.somewhere item (((added item).1 present).resolve_left same)
      exact ⟨place, (goes place item).2 (.inr ⟨same, at_⟩)⟩
  once item first second atFirst atSecond := by
    rcases (goes first item).1 atFirst with ⟨same, first_⟩ | ⟨other, before⟩
    · rcases (goes second item).1 atSecond with ⟨_, second_⟩ | ⟨other, _⟩
      · exact first_.trans second_.symm
      · exact absurd same other
    · rcases (goes second item).1 atSecond with ⟨same, _⟩ | ⟨_, also⟩
      · exact absurd same other
      · exact one.once item first second before also
  known place item at_ := by
    rcases (goes place item).1 at_ with ⟨same, _⟩ | ⟨_, before⟩
    · exact (added item).2 (.inl same)
    · exact (added item).2 (.inr (one.known place item before))

/-- An item leaves one place for another. -/
theorem move (one : OnePlace located known) {moved : Item} (source target : Place)
    (at_ : located source moved) (apart : source ≠ target)
    (left : ∀ item, after source item ↔ item ≠ moved ∧ located source item)
    (arrived : ∀ item, after target item ↔ item = moved ∨ located target item)
    (others : ∀ place item, place ≠ source → place ≠ target →
      (after place item ↔ located place item))
    (sameKnown : ∀ item, knownAfter item ↔ known item) : OnePlace after knownAfter := by
  refine one.relocate moved target ?_ ?_
  · intro place item
    have elsewhere (there : located place item) (notSource : place ≠ source) : item ≠ moved := by
      intro same
      exact notSource (one.once item place source there (same ▸ at_))
    by_cases isSource : place = source
    · subst isSource
      rw [left]
      exact ⟨.inr, fun or_ => or_.resolve_left fun here => apart here.2⟩
    · by_cases isTarget : place = target
      · subst isTarget
        rw [arrived]
        constructor
        · rintro (same | there)
          · exact .inl ⟨same, rfl⟩
          · exact .inr ⟨elsewhere there isSource, there⟩
        · rintro (⟨same, _⟩ | ⟨_, there⟩)
          · exact .inl same
          · exact .inr there
      · rw [others place item isSource isTarget]
        constructor
        · exact fun there => .inr ⟨elsewhere there isSource, there⟩
        · exact fun or_ => (or_.resolve_left fun here => isTarget here.2).2
  · intro item
    rw [sameKnown]
    exact ⟨.inr, fun or_ => or_.elim (fun same => same ▸ one.known source moved at_) id⟩

/-- An item that was not known comes to a place. -/
theorem arrive (one : OnePlace located known) {new : Item} (target : Place) (fresh : ¬ known new)
    (arrived : ∀ item, after target item ↔ item = new ∨ located target item)
    (others : ∀ place item, place ≠ target → (after place item ↔ located place item))
    (added : ∀ item, knownAfter item ↔ item = new ∨ known item) : OnePlace after knownAfter := by
  refine one.relocate new target ?_ added
  intro place item
  have old (there : located place item) : item ≠ new := by
    intro same
    exact fresh (same ▸ one.known place item there)
  by_cases isTarget : place = target
  · subst isTarget
    rw [arrived]
    constructor
    · rintro (same | there)
      · exact .inl ⟨same, rfl⟩
      · exact .inr ⟨old there, there⟩
    · rintro (⟨same, _⟩ | ⟨_, there⟩)
      · exact .inl same
      · exact .inr there
  · rw [others place item isTarget]
    constructor
    · exact fun there => .inr ⟨old there, there⟩
    · exact fun or_ => (or_.resolve_left fun here => isTarget here.2).2

/-- An item ceases to be. -/
theorem retire (one : OnePlace located known) {gone : Item} {source : Place}
    (at_ : located source gone)
    (left : ∀ item, after source item ↔ item ≠ gone ∧ located source item)
    (others : ∀ place item, place ≠ source → (after place item ↔ located place item))
    (removed : ∀ item, knownAfter item ↔ item ≠ gone ∧ known item) :
    OnePlace after knownAfter := by
  have stays (place : Place) (item : Item) :
      after place item ↔ item ≠ gone ∧ located place item := by
    by_cases isSource : place = source
    · subst isSource
      exact left item
    · rw [others place item isSource]
      refine ⟨fun there => ⟨?_, there⟩, And.right⟩
      intro same
      exact isSource (one.once item place source there (same ▸ at_))
  constructor
  · intro item present
    obtain ⟨other, before⟩ := (removed item).1 present
    obtain ⟨place, there⟩ := one.somewhere item before
    exact ⟨place, (stays place item).2 ⟨other, there⟩⟩
  · intro item first second atFirst atSecond
    exact one.once item first second ((stays first item).1 atFirst).2
      ((stays second item).1 atSecond).2
  · intro place item there
    obtain ⟨other, before⟩ := (stays place item).1 there
    exact (removed item).2 ⟨other, one.known place item before⟩

theorem congr (one : OnePlace located known)
    (same : ∀ place item, after place item ↔ located place item)
    (sameKnown : ∀ item, knownAfter item ↔ known item) : OnePlace after knownAfter where
  somewhere item present := by
    obtain ⟨place, at_⟩ := one.somewhere item ((sameKnown item).1 present)
    exact ⟨place, (same place item).2 at_⟩
  once item first second atFirst atSecond :=
    one.once item first second ((same first item).1 atFirst) ((same second item).1 atSecond)
  known place item at_ := (sameKnown item).2 (one.known place item ((same place item).1 at_))

end OnePlace
