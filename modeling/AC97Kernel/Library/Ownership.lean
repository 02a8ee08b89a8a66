/-
What a program owes to a store of blocks.

A block is taken and given back by its key; a counted block goes when the last handle
on it goes.  `Owes outside blocks handles now` says how the store `now` differs from
the store `outside` in which the program began: by the blocks, and by one count for
each handle, on a block of its own or on one that was there before.
-/

import Mathlib.Data.Set.Insert
import Mathlib.Data.List.Nodup

set_option autoImplicit false

open Function

namespace Ownership

structure Store (Key : Type) where
  live : Set Key
  count : Key → Int

variable {Key : Type}

namespace Store

def take (store : Store Key) (key : Key) : Store Key :=
  { store with live := insert key store.live }

def give (store : Store Key) (key : Key) : Store Key :=
  { store with live := store.live \ {key} }

variable [DecidableEq Key]

def setCount (store : Store Key) (key : Key) (count : Int) : Store Key :=
  { store with count := update store.count key count }

@[simp] theorem setCount_self (store : Store Key) (key : Key) (count : Int) :
    (store.setCount key count).count key = count := by
  change update store.count key count key = count
  rw [update_self]

theorem setCount_other (store : Store Key) {key other : Key} (apart : other ≠ key)
    (count : Int) : (store.setCount key count).count other = store.count other := by
  change update store.count key count other = store.count other
  rw [update_of_ne apart]

end Store

/-- How often a key is counted from outside. -/
noncomputable def outer (outside : Store Key) (key : Key) : Int :=
  open Classical in if key ∈ outside.live then outside.count key else 0

theorem outer_of_live {outside : Store Key} {key : Key} (live : key ∈ outside.live) :
    outer outside key = outside.count key := if_pos live

theorem outer_of_fresh {outside : Store Key} {key : Key} (fresh : key ∉ outside.live) :
    outer outside key = 0 := if_neg fresh

variable [DecidableEq Key]

structure Owes (outside : Store Key) (blocks handles : List Key) (now : Store Key) : Prop where
  live : ∀ key, key ∈ now.live ↔ key ∈ blocks ∨ key ∈ handles ∨ key ∈ outside.live
  distinct : blocks.Nodup
  apart : ∀ key ∈ blocks, key ∉ handles ∧ key ∉ outside.live
  counts : ∀ key, key ∈ handles ∨ key ∈ outside.live →
    now.count key = handles.count key + outer outside key
  held : ∀ key ∈ handles, key ∈ outside.live → 1 ≤ outside.count key

variable {outside now : Store Key} {blocks handles : List Key} {key other : Key}

/-- A program that has done nothing owes nothing. -/
theorem Owes.start (outside : Store Key) : Owes outside [] [] outside where
  live key := by
    rw [List.mem_nil_iff, false_or, false_or]
  distinct := List.nodup_nil
  apart _ member := by cases member
  counts key known := by
    rcases known with impossible | live
    · cases impossible
    · rw [outer_of_live live]
      exact (Int.zero_add _).symm
  held _ member := by cases member

/-- The order of the blocks does not matter. -/
theorem Owes.perm {blocks' : List Key} (owes : Owes outside blocks handles now)
    (same : blocks.Perm blocks') : Owes outside blocks' handles now where
  live key := by
    rw [owes.live, same.mem_iff]
  distinct := same.nodup_iff.mp owes.distinct
  apart key member := owes.apart key (same.mem_iff.mpr member)
  counts := owes.counts
  held := owes.held

/-- Nor does the order of the handles. -/
theorem Owes.permHandles {handles' : List Key} (owes : Owes outside blocks handles now)
    (same : handles.Perm handles') : Owes outside blocks handles' now where
  live key := by
    rw [owes.live, same.mem_iff]
  distinct := owes.distinct
  apart key member := by
    rw [← same.mem_iff]
    exact owes.apart key member
  counts key known := by
    rw [← same.count_eq key]
    rw [← same.mem_iff] at known
    exact owes.counts key known
  held key member := owes.held key (same.mem_iff.mpr member)

/-- A key that is not in use is neither owed nor outside. -/
theorem Owes.fresh (owes : Owes outside blocks handles now) (fresh : key ∉ now.live) :
    key ∉ blocks ∧ key ∉ handles ∧ key ∉ outside.live := by
  rw [owes.live, not_or, not_or] at fresh
  exact fresh

theorem Owes.take (owes : Owes outside blocks handles now) (fresh : key ∉ now.live) :
    Owes outside (key :: blocks) handles (now.take key) where
  live other := by
    change other ∈ insert key now.live ↔ _
    rw [Set.mem_insert_iff, owes.live, List.mem_cons, or_assoc]
  distinct := List.nodup_cons.mpr ⟨(owes.fresh fresh).1, owes.distinct⟩
  apart other member := by
    rcases List.mem_cons.mp member with same | before
    · rw [same]
      exact (owes.fresh fresh).2
    · exact owes.apart other before
  counts := owes.counts
  held := owes.held

theorem Owes.give (owes : Owes outside (key :: blocks) handles now) :
    Owes outside blocks handles (now.give key) where
  live other := by
    obtain ⟨notBlock, _⟩ := List.nodup_cons.mp owes.distinct
    obtain ⟨notHandle, notOutside⟩ := owes.apart key List.mem_cons_self
    change other ∈ now.live \ {key} ↔ _
    rw [Set.mem_sdiff, Set.mem_singleton_iff, owes.live, List.mem_cons]
    constructor
    · rintro ⟨(same | block) | rest, different⟩
      · exact absurd same different
      · exact .inl block
      · exact .inr rest
    · rintro (block | handle | before)
      · exact ⟨.inl (.inr block), fun same => notBlock (same ▸ block)⟩
      · exact ⟨.inr (.inl handle), fun same => notHandle (same ▸ handle)⟩
      · exact ⟨.inr (.inr before), fun same => notOutside (same ▸ before)⟩
  distinct := (List.nodup_cons.mp owes.distinct).2
  apart other member := owes.apart other (List.mem_cons_of_mem _ member)
  counts := owes.counts
  held := owes.held

/-- A handle on a new block. -/
theorem Owes.make (owes : Owes outside blocks handles now) (fresh : key ∉ now.live) :
    Owes outside blocks (key :: handles) ((now.take key).setCount key 1) where
  live other := by
    change other ∈ insert key now.live ↔ _
    rw [Set.mem_insert_iff, owes.live, List.mem_cons]
    tauto
  distinct := owes.distinct
  apart other member := by
    have before := owes.apart other member
    refine ⟨fun handle => ?_, before.2⟩
    rcases List.mem_cons.mp handle with same | old
    · exact (owes.fresh fresh).1 (same ▸ member)
    · exact before.1 old
  counts other known := by
    obtain ⟨_, notHandle, notOutside⟩ := owes.fresh fresh
    by_cases same : other = key
    · subst same
      rw [Store.setCount_self, List.count_cons_self, List.count_eq_zero_of_not_mem notHandle,
        outer_of_fresh notOutside]
      rfl
    · rw [Store.setCount_other _ same, List.count_cons_of_ne (Ne.symm same)]
      exact owes.counts other (known.imp_left fun handle =>
        (List.mem_cons.mp handle).resolve_left same)
  held other member live := by
    rcases List.mem_cons.mp member with same | old
    · exact absurd (same ▸ live) (owes.fresh fresh).2.2
    · exact owes.held other old live

/-- One more handle on a block that has been counted. -/
theorem Owes.add (owes : Owes outside blocks handles now)
    (known : key ∈ handles ∨ key ∈ outside.live ∧ 1 ≤ outside.count key) :
    Owes outside blocks (key :: handles) (now.setCount key (now.count key + 1)) where
  live other := by
    change other ∈ now.live ↔ _
    rw [owes.live, List.mem_cons]
    constructor
    · tauto
    · rintro (block | (same | handle) | before)
      · exact .inl block
      · subst same
        exact .inr (known.imp_right And.left)
      · exact .inr (.inl handle)
      · exact .inr (.inr before)
  distinct := owes.distinct
  apart other member := by
    have before := owes.apart other member
    refine ⟨fun handle => ?_, before.2⟩
    rcases List.mem_cons.mp handle with same | old
    · subst same
      rcases known with handle | ⟨live, _⟩
      · exact before.1 handle
      · exact before.2 live
    · exact before.1 old
  counts other was := by
    by_cases same : other = key
    · subst same
      rw [Store.setCount_self, List.count_cons_self,
        owes.counts other (known.imp_right And.left)]
      push_cast
      omega
    · rw [Store.setCount_other _ same, List.count_cons_of_ne (Ne.symm same)]
      exact owes.counts other (was.imp_left fun handle =>
        (List.mem_cons.mp handle).resolve_left same)
  held other member live := by
    rcases List.mem_cons.mp member with same | old
    · subst same
      rcases known with handle | ⟨_, counted⟩
      · exact owes.held other handle live
      · exact counted
    · exact owes.held other old live

/-- What the count of a handle's block is without the handle. -/
theorem Owes.count_handle (owes : Owes outside blocks (key :: handles) now) :
    now.count key - 1 = handles.count key + outer outside key := by
  rw [owes.counts key (.inl List.mem_cons_self), List.count_cons_self]
  push_cast
  omega

/-- A handle goes, and somebody else still counts the block. -/
theorem Owes.drop (owes : Owes outside blocks (key :: handles) now)
    (more : now.count key - 1 ≠ 0) :
    Owes outside blocks handles (now.setCount key (now.count key - 1)) where
  live other := by
    change other ∈ now.live ↔ _
    rw [owes.live, List.mem_cons]
    constructor
    · rintro (block | (same | handle) | before)
      · exact .inl block
      · subst same
        rw [owes.count_handle] at more
        by_contra gone
        rw [not_or, not_or] at gone
        rw [List.count_eq_zero_of_not_mem gone.2.1, outer_of_fresh gone.2.2] at more
        exact more rfl
      · exact .inr (.inl handle)
      · exact .inr (.inr before)
    · tauto
  distinct := owes.distinct
  apart other member :=
    ⟨fun handle => (owes.apart other member).1 (List.mem_cons_of_mem _ handle),
      (owes.apart other member).2⟩
  counts other known := by
    by_cases same : other = key
    · subst same
      rw [Store.setCount_self, owes.count_handle]
    · rw [Store.setCount_other _ same, owes.counts other (known.imp_left (List.mem_cons_of_mem _)),
        List.count_cons_of_ne (Ne.symm same)]
  held other member := owes.held other (List.mem_cons_of_mem _ member)

/-- The last handle goes, and its block with it. -/
theorem Owes.drop_last (owes : Owes outside blocks (key :: handles) now)
    (last : now.count key - 1 = 0) :
    Owes outside blocks handles ((now.setCount key 0).give key) := by
  have alone : key ∉ handles ∧ key ∉ outside.live := by
    rw [owes.count_handle] at last
    constructor
    · intro handle
      have counted := List.count_pos_iff.mpr handle
      by_cases live : key ∈ outside.live
      · have held := owes.held key List.mem_cons_self live
        rw [outer_of_live live] at last
        omega
      · rw [outer_of_fresh live] at last
        omega
    · intro live
      have held := owes.held key List.mem_cons_self live
      rw [outer_of_live live] at last
      omega
  have notBlock : key ∉ blocks := fun member =>
    (owes.apart key member).1 List.mem_cons_self
  refine ⟨?_, owes.distinct, ?_, ?_, fun other member =>
    owes.held other (List.mem_cons_of_mem _ member)⟩
  · intro other
    change other ∈ now.live \ {key} ↔ _
    rw [Set.mem_sdiff, Set.mem_singleton_iff, owes.live, List.mem_cons]
    constructor
    · rintro ⟨block | (same | handle) | before, different⟩
      · exact .inl block
      · exact absurd same different
      · exact .inr (.inl handle)
      · exact .inr (.inr before)
    · rintro (block | handle | before)
      · exact ⟨.inl block, fun same => notBlock (same ▸ block)⟩
      · exact ⟨.inr (.inl (.inr handle)), fun same => alone.1 (same ▸ handle)⟩
      · exact ⟨.inr (.inr before), fun same => alone.2 (same ▸ before)⟩
  · intro other member
    exact ⟨fun handle => (owes.apart other member).1 (List.mem_cons_of_mem _ handle),
      (owes.apart other member).2⟩
  · intro other known
    have different : other ≠ key := by
      rintro rfl
      exact known.elim alone.1 alone.2
    change (now.setCount key 0).count other = _
    rw [Store.setCount_other _ different,
      owes.counts other (known.imp_left (List.mem_cons_of_mem _)),
      List.count_cons_of_ne (Ne.symm different)]

end Ownership
