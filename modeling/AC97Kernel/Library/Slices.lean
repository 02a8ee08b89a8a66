/-
Slices of a list, by offset and count.

A slice is cut off where the list ends.  Consecutive slices join to one slice,
which is what a reader that takes a few elements at a time relies on.
-/

import Mathlib.Algebra.Group.Nat.Defs
import Mathlib.Data.List.Basic

set_option autoImplicit false

namespace Slices

variable {Item : Type}

def slice (content : List Item) (offset count : Nat) : List Item :=
  (content.drop offset).take count

@[simp] theorem length_slice (content : List Item) (offset count : Nat) :
    (slice content offset count).length = min count (content.length - offset) := by
  simp [slice]

@[simp] theorem slice_none (content : List Item) (offset : Nat) : slice content offset 0 = [] := by
  simp [slice]

/-- Two slices, the second from the end of the first, are one. -/
theorem slice_add (content : List Item) (offset first second : Nat) :
    slice content offset (first + second) =
      slice content offset first ++ slice content (offset + first) second := by
  unfold slice
  rw [List.take_add, List.drop_drop]

theorem slice_beyond {content : List Item} {offset : Nat} (beyond : content.length ≤ offset)
    (count : Nat) : slice content offset count = [] := by
  unfold slice
  rw [List.drop_eq_nil_of_le beyond, List.take_nil]

theorem slice_whole (content : List Item) : slice content 0 content.length = content := by
  simp [slice]

/-- A slice that lies in a slice is a slice of the whole. -/
theorem slice_slice (content : List Item) {offset count inner part : Nat}
    (inside : inner + part ≤ count) :
    slice (slice content offset count) inner part = slice content (offset + inner) part := by
  unfold slice
  rw [List.drop_take, List.take_take, List.drop_drop]
  congr 1
  omega

theorem slice_getElem? (content : List Item) {offset count index : Nat} (inside : index < count) :
    (slice content offset count)[index]? = content[offset + index]? := by
  unfold slice
  rw [List.getElem?_take_of_lt inside, List.getElem?_drop]

/-- The first `count` values of a sequence. -/
def tabulate (sequence : Nat → Item) (count : Nat) : List Item := (List.range count).map sequence

@[simp] theorem length_tabulate (sequence : Nat → Item) (count : Nat) :
    (tabulate sequence count).length = count := by
  simp [tabulate]

theorem getElem?_tabulate (sequence : Nat → Item) {count index : Nat} (inside : index < count) :
    (tabulate sequence count)[index]? = some (sequence index) := by
  simp [tabulate, inside]

theorem tabulate_congr {sequence other : Nat → Item} {count : Nat}
    (same : ∀ index < count, sequence index = other index) :
    tabulate sequence count = tabulate other count := by
  unfold tabulate
  rw [List.map_inj_left]
  intro index member
  exact same index (List.mem_range.mp member)

/-- A slice of a sequence is a sequence that starts later. -/
theorem tabulate_eq_replicate {sequence : Nat → Item} {count : Nat} {item : Item} :
    tabulate sequence count = List.replicate count item ↔
      ∀ index < count, sequence index = item := by
  rw [List.eq_replicate_iff]
  simp [tabulate]

theorem slice_tabulate (sequence : Nat → Item) (size offset count : Nat) :
    slice (tabulate sequence size) offset count =
      tabulate (fun index => sequence (offset + index)) (min count (size - offset)) := by
  apply List.ext_getElem?
  intro index
  by_cases inside : index < min count (size - offset)
  · rw [slice_getElem? _ (by omega), getElem?_tabulate _ (by omega), getElem?_tabulate _ inside]
  · rw [List.getElem?_eq_none (by rw [length_slice, length_tabulate]; omega),
      List.getElem?_eq_none (by rw [length_tabulate]; omega)]

/-- `part` stands in `content` from `offset` on. -/
def OccursAt (content : List Item) (offset : Nat) (part : List Item) : Prop :=
  slice content offset part.length = part

variable {content part first second : List Item} {offset : Nat}

theorem OccursAt.whole (content : List Item) : OccursAt content 0 content := slice_whole content

theorem OccursAt.length_le (occurs : OccursAt content offset part) :
    part.length ≤ content.length - offset := by
  have length := congrArg List.length occurs
  rw [length_slice] at length
  omega

/-- Something longer than nothing ends before the content does. -/
theorem OccursAt.fits (occurs : OccursAt content offset part) (some : 0 < part.length) :
    offset + part.length ≤ content.length := by
  have length := occurs.length_le
  omega

theorem occursAt_append :
    OccursAt content offset (first ++ second) ↔
      OccursAt content offset first ∧ OccursAt content (offset + first.length) second := by
  unfold OccursAt
  rw [List.length_append, slice_add]
  constructor
  · intro joined
    have length := congrArg List.length joined
    simp only [List.length_append, length_slice] at length
    exact List.append_inj joined (by rw [length_slice]; omega)
  · intro both
    rw [both.1, both.2]

end Slices
