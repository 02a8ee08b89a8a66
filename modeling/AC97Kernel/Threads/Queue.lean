/-
The intrusive queues of kernel/queue.h.

All queues of a kind thread their elements through one `next` field.  An address
of 0 is the null pointer.  Adding and removing happen under the lock of the queue
and are one step each.
-/

import AC97Kernel.Library.LinkedChain
import Mathlib.Data.List.Nodup

set_option autoImplicit false

namespace AC97Kernel

open LinkedChain

structure Queue where
  first : Nat
  last : Nat
  deriving DecidableEq

namespace Queue

def empty : Queue := { first := 0, last := 0 }

/-- The queue and the `next` fields after `add`. -/
def add (queue : Queue) (next : Nat → Nat) (t : Nat) : Queue × (Nat → Nat) :=
  let next := Function.update next t 0
  if queue.first = 0 then ({ first := t, last := t }, next)
  else ({ queue with last := t }, Function.update next queue.last t)

/-- What `remove` returns, and the queue after it. -/
def remove (queue : Queue) (next : Nat → Nat) : Option Nat × Queue :=
  if queue.first = 0 then (none, queue)
  else
    let it := queue.first
    if next it = 0 then (some it, { first := 0, last := 0 })
    else (some it, { queue with first := next it })

/-- The elements of the queue, the oldest first. -/
structure Holds (queue : Queue) (next : Nat → Nat) (items : List Nat) : Prop where
  chain : Segment next queue.first items 0
  real : 0 ∉ items
  distinct : items.Nodup
  ends : queue.last = items.getLast?.getD 0

variable {queue : Queue} {next other : Nat → Nat} {items : List Nat} {t : Nat}

theorem holds_empty (next : Nat → Nat) : empty.Holds next [] where
  chain := rfl
  real := List.not_mem_nil
  distinct := List.nodup_nil
  ends := rfl

theorem Holds.unique (holds : queue.Holds next items) {others : List Nat}
    (also : queue.Holds next others) : items = others :=
  holds.chain.unique holds.real also.chain also.real

theorem Holds.congr (holds : queue.Holds next items)
    (same : ∀ item ∈ items, other item = next item) : queue.Holds other items where
  chain := holds.chain.congr same
  real := holds.real
  distinct := holds.distinct
  ends := holds.ends

theorem Holds.first_eq (holds : queue.Holds next items) : queue.first = items.head?.getD 0 :=
  Links.head_of_segment holds.chain

/-- `last` is an element unless there is none. -/
theorem Holds.last_mem (holds : queue.Holds next items) (some_ : queue.first ≠ 0) :
    queue.last ∈ items := by
  rw [holds.ends]
  cases last : items.getLast? with
  | none =>
      rw [List.getLast?_eq_none_iff] at last
      subst last
      exact absurd holds.chain some_
  | some item => exact List.mem_of_getLast? last

theorem Holds.add (holds : queue.Holds next items) (real : t ≠ 0) (fresh : t ∉ items) :
    (queue.add next t).1.Holds (queue.add next t).2 (items ++ [t]) := by
  have kept : Segment (Function.update next t 0) queue.first items 0 :=
    holds.chain.congr fun item member =>
      Function.update_of_ne (fun same : item = t => fresh (same ▸ member)) _ _
  have realAfter : 0 ∉ items ++ [t] := by
    rw [List.mem_append, List.mem_singleton]
    rintro (member | same)
    · exact holds.real member
    · exact real same.symm
  have distinct : (items ++ [t]).Nodup := by
    rw [List.nodup_append]
    refine ⟨holds.distinct, List.nodup_singleton t, ?_⟩
    intro item member last atLast same
    rw [List.mem_singleton.1 atLast] at same
    exact fresh (same ▸ member)
  have ends : t = (items ++ [t]).getLast?.getD 0 := by
    rw [List.getLast?_append, List.getLast?_singleton]
    rfl
  unfold Queue.add
  rcases List.eq_nil_or_concat items with nothing | ⟨front, last, split⟩
  · subst nothing
    have null : queue.first = 0 := holds.chain
    simp only [if_pos null]
    exact
      { chain := ⟨rfl, Function.update_self _ _ _⟩
        real := realAfter
        distinct := distinct
        ends := ends }
  · rw [List.concat_eq_append] at split
    have some_ : queue.first ≠ 0 := by
      intro null
      have first := holds.first_eq
      rw [null] at first
      cases front with
      | nil =>
          subst split
          exact holds.real (first ▸ List.mem_cons_self)
      | cons head rest =>
          subst split
          exact holds.real (first ▸ List.mem_cons_self)
    have lastIs : queue.last = last := by
      rw [holds.ends, split, List.getLast?_append, List.getLast?_singleton]
      rfl
    simp only [if_neg some_]
    refine { chain := ?_, real := realAfter, distinct := distinct, ends := ends }
    rw [split] at kept ⊢
    have absent : last ∉ front := by
      have apart := holds.distinct
      rw [split, List.nodup_append] at apart
      exact fun member => apart.2.2 last member last List.mem_cons_self rfl
    have redirected : Segment (Function.update (Function.update next t 0) last t) queue.first
        (front ++ [last]) t := kept.redirect absent
    rw [lastIs, segment_append]
    refine ⟨t, redirected, rfl, ?_⟩
    have other : t ≠ last := by
      intro same
      rw [split] at fresh
      exact fresh (same ▸ List.mem_append_right _ List.mem_cons_self)
    rw [Function.update_of_ne other, Function.update_self]
    rfl

/-- Adding to one queue leaves the others alone. -/
theorem Holds.add_other {one : Queue} {members : List Nat} (holds : queue.Holds next items)
    (also : one.Holds next members) (apart : ∀ item ∈ items, item ∉ members) (absent : t ∉ items) :
    queue.Holds (one.add next t).2 items := by
  apply holds.congr
  intro item member
  have notNew : item ≠ t := fun same => absent (same ▸ member)
  unfold Queue.add
  by_cases null : one.first = 0
  · simp only [if_pos null]
    exact Function.update_of_ne notNew _ _
  · simp only [if_neg null]
    have notLast : item ≠ one.last := by
      intro same
      exact apart item member (same ▸ also.last_mem null)
    rw [Function.update_of_ne notLast, Function.update_of_ne notNew]

theorem Holds.remove (holds : queue.Holds next items) :
    (queue.remove next).1 = items.head? ∧ (queue.remove next).2.Holds next items.tail := by
  unfold Queue.remove
  cases items with
  | nil =>
      have null : queue.first = 0 := holds.chain
      rw [if_pos null]
      exact ⟨rfl, holds⟩
  | cons it rest =>
      obtain ⟨first, chain⟩ := holds.chain
      have real : queue.first ≠ 0 := by
        intro null
        exact holds.real (by rw [← null, first]; exact List.mem_cons_self)
      have realRest : 0 ∉ rest := fun member => holds.real (List.mem_cons_of_mem _ member)
      have distinct := (List.nodup_cons.1 holds.distinct).2
      rw [if_neg real]
      simp only [first]
      cases rest with
      | nil =>
          have last : next it = 0 := chain
          rw [if_pos last]
          exact ⟨rfl, { chain := rfl, real := realRest, distinct := distinct, ends := rfl }⟩
      | cons second later =>
          have follows : next it = second := chain.1
          have some_ : next it ≠ 0 := by
            intro null
            exact realRest (by rw [← null, follows]; exact List.mem_cons_self)
          rw [if_neg some_]
          refine ⟨rfl, { chain := chain, real := realRest, distinct := distinct, ends := ?_ }⟩
          have ends := holds.ends
          rw [List.getLast?_cons_cons] at ends
          exact ends

theorem remove_none : (queue.remove next).1 = none ↔ queue.first = 0 := by
  unfold Queue.remove
  by_cases null : queue.first = 0
  · rw [if_pos null]
    exact iff_of_true rfl null
  · rw [if_neg null]
    refine iff_of_false ?_ null
    by_cases last : next queue.first = 0
    · simp only [if_pos last]
      exact Option.some_ne_none _
    · simp only [if_neg last]
      exact Option.some_ne_none _

end Queue

end AC97Kernel
