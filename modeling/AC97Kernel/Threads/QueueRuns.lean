/-
Queues over whole histories.

Elements go from one queue to another, and what is in the `next` field of an element
that is in no queue is anybody's.  Beside the fields stands what each queue holds as a
list: that is what the history alone says.
-/

import AC97Kernel.Library.StepMachine
import AC97Kernel.Threads.Queue
import Mathlib.Data.Fintype.Basic

set_option autoImplicit false

namespace AC97Kernel

open Function LinkedChain

/-- What `remove_all` returns, and the queue after it. -/
def Queue.removeAll (queue : Queue) : Nat × Queue :=
  let it := queue.first
  (it, { first := 0, last := 0 })

/-- Some queues and the `next` fields that they share. -/
structure Linked (Name : Type) where
  queues : Name → Queue
  next : Nat → Nat

inductive QueueAction (Name : Type) where
  | add (name : Name) (t : Nat)
  | remove (name : Name)
  | removeAll (name : Name)
  /-- Somebody else stores into the field of an element. -/
  | stray (t value : Nat)

namespace Linked

variable {Name : Type} [DecidableEq Name]

def step (linked : Linked Name) : QueueAction Name → Linked Name
  | .add name t =>
      let (queue, next) := (linked.queues name).add linked.next t
      { queues := update linked.queues name queue, next := next }
  | .remove name =>
      { linked with
        queues := update linked.queues name ((linked.queues name).remove linked.next).2 }
  | .removeAll name =>
      { linked with queues := update linked.queues name (linked.queues name).removeAll.2 }
  | .stray t value => { linked with next := update linked.next t value }

/-- What has been added to each queue and not been removed since, the oldest first. -/
def after (contents : Name → List Nat) : QueueAction Name → Name → List Nat
  | .add name t => update contents name (contents name ++ [t])
  | .remove name => update contents name (contents name).tail
  | .removeAll name => update contents name []
  | .stray _ _ => contents

/-- The element is in no queue. -/
def Outside (contents : Name → List Nat) (t : Nat) : Prop := ∀ name, t ∉ contents name

def allowed (contents : Name → List Nat) : QueueAction Name → Prop
  | .add _ t => t ≠ 0 ∧ Outside contents t
  | .stray t _ => Outside contents t
  | _ => True

def machine (Name : Type) [DecidableEq Name] :
    StepMachine (Linked Name × (Name → List Nat)) (QueueAction Name) where
  allowed state := allowed state.2
  step state action := some (state.1.step action, after state.2 action)

/-- New queues; the fields of the elements are whatever they are. -/
def start (next : Nat → Nat) : Linked Name × (Name → List Nat) :=
  ({ queues := fun _ => .empty, next := next }, fun _ => [])

instance instDecidableAllowed [Fintype Name] (state : Linked Name × (Name → List Nat))
    (action : QueueAction Name) : Decidable ((machine Name).allowed state action) :=
  match action with
  | .add _ t => inferInstanceAs (Decidable (t ≠ 0 ∧ ∀ name, t ∉ state.2 name))
  | .remove _ => inferInstanceAs (Decidable True)
  | .removeAll _ => inferInstanceAs (Decidable True)
  | .stray t _ => inferInstanceAs (Decidable (∀ name, t ∉ state.2 name))

/-- The fields hold the lists, and no element is in two queues. -/
structure Represents (linked : Linked Name) (contents : Name → List Nat) : Prop where
  holds : ∀ name, (linked.queues name).Holds linked.next (contents name)
  apart : ∀ one other, one ≠ other → ∀ t ∈ contents one, t ∉ contents other

variable {linked : Linked Name} {contents : Name → List Nat} {name : Name} {t : Nat}

omit [DecidableEq Name] in
theorem represents_start (next : Nat → Nat) :
    Represents (start next : Linked Name × (Name → List Nat)).1 (start next).2 where
  holds _ := Queue.holds_empty next
  apart _ _ _ _ member := absurd member List.not_mem_nil

namespace Represents

theorem add (represents : Represents linked contents) (real : t ≠ 0)
    (outside : Outside contents t) :
    Represents (linked.step (.add name t)) (after contents (.add name t)) where
  holds other := by
    change ((update linked.queues name ((linked.queues name).add linked.next t).1) other).Holds
      ((linked.queues name).add linked.next t).2 (update contents name (contents name ++ [t]) other)
    by_cases same : other = name
    · subst same
      rw [update_self, update_self]
      exact (represents.holds other).add real (outside other)
    · rw [update_of_ne same, update_of_ne same]
      exact (represents.holds other).add_other (represents.holds name)
        (represents.apart other name same) (outside other)
  apart one other different item member := by
    change item ∈ update contents name (contents name ++ [t]) one at member
    change item ∉ update contents name (contents name ++ [t]) other
    by_cases atOne : one = name
    · subst atOne
      rw [update_self] at member
      rw [update_of_ne (Ne.symm different)]
      rcases List.mem_append.mp member with old | new
      · exact represents.apart one other different item old
      · rw [List.mem_singleton.mp new]
        exact outside other
    · rw [update_of_ne atOne] at member
      by_cases atOther : other = name
      · subst atOther
        rw [update_self, List.mem_append, List.mem_singleton, not_or]
        refine ⟨represents.apart one other different item member, ?_⟩
        intro same
        exact outside one (same ▸ member)
      · rw [update_of_ne atOther]
        exact represents.apart one other different item member

/-- A queue changes alone, and holds fewer elements than before. -/
theorem shrink (represents : Represents linked contents) {queue : Queue} {items : List Nat}
    (holds : queue.Holds linked.next items) (fewer : items ⊆ contents name) :
    Represents { linked with queues := update linked.queues name queue }
      (update contents name items) where
  holds other := by
    change (update linked.queues name queue other).Holds linked.next
      (update contents name items other)
    by_cases same : other = name
    · subst same
      rw [update_self, update_self]
      exact holds
    · rw [update_of_ne same, update_of_ne same]
      exact represents.holds other
  apart one other different item member := by
    have kept (place : Name) (inside : item ∈ update contents name items place) :
        item ∈ contents place := by
      by_cases same : place = name
      · subst same
        rw [update_self] at inside
        exact fewer inside
      · rw [update_of_ne same] at inside
        exact inside
    exact fun also => represents.apart one other different item (kept one member) (kept other also)

omit [DecidableEq Name] in
theorem stray (represents : Represents linked contents) (outside : Outside contents t)
    (value : Nat) :
    Represents { linked with next := update linked.next t value } contents where
  holds name := by
    apply (represents.holds name).congr
    intro item member
    exact update_of_ne (fun same : item = t => outside name (same ▸ member)) _ _
  apart := represents.apart

theorem step (represents : Represents linked contents) {action : QueueAction Name}
    (permitted : allowed contents action) :
    Represents (linked.step action) (after contents action) := by
  cases action with
  | add name t => exact represents.add permitted.1 permitted.2
  | remove name =>
      exact represents.shrink (represents.holds name).remove.2 fun _ => List.mem_of_mem_tail
  | removeAll name =>
      exact represents.shrink (Queue.holds_empty linked.next) (List.nil_subset _)
  | stray t value => exact represents.stray permitted value

end Represents

end Linked

/-! ### One queue of a history -/

namespace Queue.Holds

variable {queue : Queue} {next : Nat → Nat} {items : List Nat}

theorem last_null (holds : queue.Holds next items) (some_ : items ≠ []) :
    items.getLast? = some queue.last ∧ next queue.last = 0 := by
  obtain ⟨front, last, split⟩ := (List.eq_nil_or_concat items).resolve_left some_
  rw [List.concat_eq_append] at split
  subst split
  have ends := holds.ends
  rw [List.getLast?_append, List.getLast?_singleton] at ends
  have atLast : queue.last = last := ends
  refine ⟨?_, ?_⟩
  · rw [List.getLast?_append, List.getLast?_singleton, atLast]
    rfl
  · obtain ⟨middle, _, _, stops⟩ := (segment_append _ _ _ _ _).mp holds.chain
    rw [atLast]
    exact stops

/-- `first` is null exactly when `last` is. -/
theorem null_iff (holds : queue.Holds next items) : queue.first = 0 ↔ queue.last = 0 := by
  by_cases nothing : items = []
  · subst nothing
    exact iff_of_true holds.chain holds.ends
  · have lastMember := List.mem_of_getLast? (holds.last_null nothing).1
    refine iff_of_false ?_ ?_
    · intro null
      have first := holds.first_eq
      cases items with
      | nil => exact nothing rfl
      | cons head rest => exact holds.real (null.symm.trans first ▸ List.mem_cons_self)
    · intro null
      exact holds.real (null ▸ lastMember)

end Queue.Holds

open Linked

/-- In every history the `next` fields list what was added and not removed, in order; the
last one is null, the ends of a queue are null together, and `remove` and `remove_all`
return the head of the list. -/
theorem queue_refines {Name : Type} [DecidableEq Name] {next : Nat → Nat} {linked : Linked Name}
    {contents : Name → List Nat}
    (reached : (machine Name).Reached (start next) (linked, contents)) (name : Name) :
    (Segment linked.next (linked.queues name).first (contents name) 0 ∧ 0 ∉ contents name) ∧
      (contents name ≠ [] → (contents name).getLast? = some (linked.queues name).last ∧
        linked.next (linked.queues name).last = 0) ∧
      ((linked.queues name).first = 0 ↔ (linked.queues name).last = 0) ∧
      ((linked.queues name).remove linked.next).1 = (contents name).head? ∧
      (linked.queues name).removeAll = ((contents name).head?.getD 0, .empty) := by
  have represents : Represents linked contents :=
    reached.preserves (fun state => Represents state.1 state.2)
      (by
        intro state action after represents permitted stepped
        cases stepped
        exact represents.step permitted)
      (represents_start next)
  have holds := represents.holds name
  refine ⟨⟨holds.chain, holds.real⟩, holds.last_null, holds.null_iff, holds.remove.1, ?_⟩
  unfold Queue.removeAll
  rw [holds.first_eq]
  rfl

/-- Two queues, with fields full of stale links; an element goes from one to the other. -/
def wander : List (QueueAction Bool) :=
  [.add false 3, .add false 5, .add true 7, .remove false, .stray 3 5, .add true 3, .add false 4]

theorem queue_refines_sample :
    ∃ linked contents, (machine Bool).run (start fun t => t) wander = some (linked, contents) ∧
      contents true = [7, 3] ∧ (linked.queues true).removeAll = (7, .empty) ∧
      ((linked.queues false).remove linked.next).1 = some 5 := by
  have lawful : (machine Bool).Lawful (start fun t => t) wander := by decide
  obtain ⟨_, _, _, _, all⟩ := queue_refines ⟨wander, lawful, rfl⟩ true
  obtain ⟨_, _, _, first, _⟩ := queue_refines ⟨wander, lawful, rfl⟩ false
  exact ⟨_, _, rfl, rfl, all, first⟩

end AC97Kernel
