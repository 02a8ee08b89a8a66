/-
A list in the slots of a ring.

The item number `i` is in the slot `(first + i) % size`.  The first slot is given
by any number that has the right remainder.
-/

import Mathlib.Data.Nat.ModEq
import Mathlib.Logic.Function.Basic

set_option autoImplicit false

open Function

namespace Ring

variable {Item : Type} {size first : Nat} {slots : Nat → Item} {items : List Item}

def slot (size first i : Nat) : Nat := (first + i) % size

/-- The slots from `first` on hold the items. -/
def Holds (size : Nat) (slots : Nat → Item) (first : Nat) (items : List Item) : Prop :=
  ∀ i item, items[i]? = some item → slots (slot size first i) = item

/-- One of so many slots from `first` on. -/
def Among (size first length index : Nat) : Prop := ∃ i < length, index = slot size first i

theorem slot_lt (positive : 0 < size) (first i : Nat) : slot size first i < size :=
  Nat.mod_lt _ positive

theorem slot_mod (size first i : Nat) : slot size (first % size) i = slot size first i :=
  Nat.mod_add_mod first size i

theorem slot_succ (size first i : Nat) : slot size (first + 1) i = slot size first (i + 1) := by
  unfold slot
  rw [Nat.add_right_comm, Nat.add_assoc]

/-- Fewer items than slots are in slots of their own. -/
theorem slot_inj {i j : Nat} (left : i < size) (right : j < size)
    (same : slot size first i = slot size first j) : i = j :=
  Nat.ModEq.eq_of_lt_of_lt (Nat.ModEq.add_left_cancel' first same) left right

theorem Among.mod {length index : Nat} :
    Among size (first % size) length index ↔ Among size first length index := by
  simp only [Among, slot_mod]

theorem not_among_next {length : Nat} (room : length < size) :
    ¬ Among size first length (slot size first length) := by
  intro ⟨i, below, same⟩
  have equal := slot_inj room (Nat.lt_trans below room) same
  omega

theorem among_first {length : Nat} (some_ : 0 < length) (inside : first < size) :
    Among size first length first :=
  ⟨0, some_, (Nat.mod_eq_of_lt inside).symm⟩

theorem among_push {length index : Nat} :
    Among size first (length + 1) index ↔
      index = slot size first length ∨ Among size first length index := by
  constructor
  · intro ⟨i, below, same⟩
    rcases Nat.lt_succ_iff_lt_or_eq.mp below with before | last
    · exact .inr ⟨i, before, same⟩
    · exact .inl (last ▸ same)
  · intro either
    rcases either with last | ⟨i, before, same⟩
    · exact ⟨length, Nat.lt_succ_self length, last⟩
    · exact ⟨i, Nat.lt_succ_of_lt before, same⟩

/-- Without the first slot, the others are left. -/
theorem among_pop {length index : Nat} (fits : length + 1 ≤ size) (inside : first < size) :
    Among size (first + 1) length index ↔
      index ≠ first ∧ Among size first (length + 1) index := by
  have start : slot size first 0 = first := Nat.mod_eq_of_lt inside
  constructor
  · intro ⟨i, below, same⟩
    rw [slot_succ] at same
    refine ⟨?_, i + 1, by omega, same⟩
    intro isFirst
    have equal := slot_inj (by omega) (by omega)
      (same.symm.trans (isFirst.trans start.symm))
    omega
  · intro ⟨notFirst, i, below, same⟩
    cases i with
    | zero => exact absurd (same.trans start) notFirst
    | succ i => exact ⟨i, by omega, same.trans (slot_succ size first i).symm⟩

namespace Holds

theorem mod (holds : Holds size slots first items) : Holds size slots (first % size) items := by
  intro i item at_
  rw [slot_mod]
  exact holds i item at_

theorem push (holds : Holds size slots first items) (room : items.length < size) (item : Item) :
    Holds size (update slots (slot size first items.length) item) first (items ++ [item]) := by
  intro i other at_
  by_cases last : i = items.length
  · subst last
    rw [List.getElem?_append_right (Nat.le_refl _), Nat.sub_self] at at_
    rw [update_self]
    exact Option.some.inj at_
  · have below : i < items.length := by
      obtain ⟨bound, _⟩ := List.getElem?_eq_some_iff.mp at_
      rw [List.length_append, List.length_singleton] at bound
      omega
    rw [List.getElem?_append_left below] at at_
    rw [update_of_ne]
    · exact holds i other at_
    · intro same
      exact last (slot_inj (by omega) room same)

theorem head {item : Item} {rest : List Item}
    (holds : Holds size slots first (item :: rest)) (inside : first < size) :
    slots first = item := by
  have found := holds 0 item rfl
  rwa [slot, Nat.add_zero, Nat.mod_eq_of_lt inside] at found

theorem pop {item : Item} {rest : List Item} (holds : Holds size slots first (item :: rest)) :
    Holds size slots (first + 1) rest := by
  intro i other at_
  rw [slot_succ]
  exact holds (i + 1) other at_

end Holds

end Ring
