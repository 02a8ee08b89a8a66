/-
The cascade that one `drop` of kernel/shared.h sets off.

An object that has an owner outside the cascade stays.  What is deleted is on the
way to deletion once: nothing that counts points to it any more.
-/

import AC97Kernel.Sync.SharedCounts

set_option autoImplicit false

namespace AC97Kernel.Shared

open Function

namespace Memory

def count (memory : Memory) (object : Nat) : Int := (memory.refCount object).getD 0

/-- The objects that can still be deleted. -/
def positive (memory : Memory) : Nat :=
  ((Finset.range memory.made).filter fun object => 0 < memory.count object).card

end Memory

/-- What a cascade has done.  `spared` objects keep all their handles but the excepted ones. -/
structure Fell (spared : Nat → Prop) (except : List Handle) (before after : Memory) : Prop where
  same : ∀ handle, Rooted spared handle → handle ∉ except → after.ptr handle = before.ptr handle
  fewer : ∀ handle object, after.ptr handle = some (some object) →
    before.ptr handle = some (some object)
  members : ∀ object, spared object → after.members object = before.members object
  made : after.made = before.made
  falls : ∀ object, 0 < after.count object → 0 < before.count object
  zero : ∀ object, after.refCount object = some 0 → before.refCount object = some 0
  grows : ∀ object ∈ before.deleted, object ∈ after.deleted
  deleted : ∀ object ∈ after.deleted, object ∈ before.deleted ∨ 0 < before.count object

namespace Fell

variable {spared : Nat → Prop} {except : List Handle} {before middle after : Memory}

theorem refl (spared : Nat → Prop) (except : List Handle) (memory : Memory) :
    Fell spared except memory memory where
  same := fun _ _ _ => rfl
  fewer := fun _ _ at_ => at_
  members := fun _ _ => rfl
  made := rfl
  falls := fun _ positive => positive
  zero := fun _ present => present
  grows := fun _ member => member
  deleted := fun _ member => .inl member

theorem trans (first : Fell spared except before middle)
    (second : Fell spared except middle after) : Fell spared except before after where
  same := fun handle rooted outside =>
    (second.same handle rooted outside).trans (first.same handle rooted outside)
  fewer := fun handle object at_ => first.fewer handle object (second.fewer handle object at_)
  members := fun object isSpared =>
    (second.members object isSpared).trans (first.members object isSpared)
  made := second.made.trans first.made
  falls := fun object positive => first.falls object (second.falls object positive)
  zero := fun object present => first.zero object (second.zero object present)
  grows := fun object member => second.grows object (first.grows object member)
  deleted := by
    intro object member
    rcases second.deleted object member with earlier | positive
    · exact first.deleted object earlier
    · exact .inr (first.falls object positive)

theorem positive_le (fell : Fell spared except before after) : after.positive ≤ before.positive := by
  unfold Memory.positive
  rw [fell.made]
  apply Finset.card_le_card
  intro object member
  obtain ⟨inside, positive⟩ := Finset.mem_filter.mp member
  exact Finset.mem_filter.mpr ⟨inside, fell.falls object positive⟩

end Fell

/-- The invariant of a cascade: what is kept has an owner that is kept, and the objects on the
path, whose destructors run, have none. -/
structure Ready (kept : Nat → Prop) (path : List Nat) (stack : List Handle) (memory : Memory) :
    Prop where
  sound : Sound stack memory
  live : ∀ object, kept object → memory.Live object
  owned : ∀ object, kept object →
    (∀ handle, memory.counted stack handle ≠ some (some object)) ∨
    ∃ handle, memory.counted stack handle = some (some object) ∧ Rooted kept handle
  doomed : ∀ object ∈ path, memory.Live object ∧
    ∀ handle, memory.counted stack handle ≠ some (some object)

namespace Ready

variable {kept : Nat → Prop} {path newPath : List Nat} {stack newStack : List Handle}
  {memory : Memory} {handle : Handle} {object : Nat}

theorem move (ready : Ready kept path stack memory) {other : Memory}
    (sound : Sound newStack other) (same : other.counted newStack = memory.counted stack)
    (fewer : ∀ object ∈ newPath, object ∈ path)
    (live : ∀ object, kept object ∨ object ∈ newPath → other.Live object) :
    Ready kept newPath newStack other where
  sound := sound
  live := fun object isKept => live object (.inl isKept)
  owned := by
    rw [same]
    exact ready.owned
  doomed := by
    intro object member
    rw [same]
    exact ⟨live object (.inr member), (ready.doomed object (fewer object member)).2⟩

/-- A handle stops to count; what is kept has another owner. -/
theorem owned_without (ready : Ready kept path stack memory)
    (other : ∀ object, kept object → memory.counted stack handle = some (some object) →
      ∃ other, memory.counted (handle :: stack) other = some (some object) ∧ Rooted kept other)
    (isKept : kept object) :
    (∀ other, memory.counted (handle :: stack) other ≠ some (some object)) ∨
      ∃ other, memory.counted (handle :: stack) other = some (some object) ∧ Rooted kept other := by
  rcases ready.owned object isKept with nobody | ⟨owner, at_, rooted⟩
  · exact .inl fun other there => nobody other (Memory.counted_of_cons there).2
  · by_cases same : owner = handle
    · subst same
      exact .inr (other object isKept at_)
    · exact .inr ⟨owner, (Memory.counted_cons_of_ne same).trans at_, rooted⟩

theorem doomed_without (ready : Ready kept path stack memory) (handle : Handle)
    (member : object ∈ path) : memory.Live object ∧
      ∀ other, memory.counted (handle :: stack) other ≠ some (some object) := by
  obtain ⟨live, nobody⟩ := ready.doomed object member
  exact ⟨live, fun other there => nobody other (Memory.counted_of_cons there).2⟩

end Ready

/-- When a handle may be dropped in the course of a cascade. -/
structure Droppable (kept : Nat → Prop) (path : List Nat) (stack : List Handle)
    (memory : Memory) (handle : Handle) : Prop where
  ready : Ready kept path stack memory
  apart : ∀ object ∈ path, ¬ kept object
  rooted : ∀ other ∈ handle :: stack, Rooted (fun object => kept object ∨ object ∈ path) other
  outside : handle ∉ stack
  there : memory.There handle
  owned : ∀ object, kept object → memory.counted stack handle = some (some object) →
    ∃ other, memory.counted (handle :: stack) other = some (some object) ∧ Rooted kept other

/-- With this much fuel a `drop` succeeds. -/
def Drops (kept : Nat → Prop) (fuel : Nat) : Prop :=
  ∀ path stack memory handle, Droppable kept path stack memory handle →
    memory.positive < fuel →
    ∃ next, memory.drop fuel handle = some next ∧ Ready kept path (handle :: stack) next ∧
      next.There handle ∧
      Fell (fun object => kept object ∨ object ∈ path) [handle] memory next

section Destructor

variable {kept : Nat → Prop} {path : List Nat} {stack : List Handle} {memory : Memory}
  {object : Nat}

/-- One member is destroyed: its `drop`, and then its life ends. -/
theorem destroyMember_spec {fuel : Nat} (drops : Drops kept fuel)
    (ready : Ready kept (object :: path) stack memory)
    (apart : ∀ other ∈ object :: path, ¬ kept other) (fresh : object ∉ path)
    (rooted : ∀ other ∈ stack, Rooted (fun object => kept object ∨ object ∈ path) other)
    {index : Nat} (members : memory.members object = index + 1) (enough : memory.positive < fuel) :
    ∃ next, memory.drop fuel (.inside object index) = some next ∧
      Ready kept (object :: path) stack (next.vacate (.inside object index)) ∧
      (next.vacate (.inside object index)).members object = index ∧
      Fell (fun object => kept object ∨ object ∈ path) [] memory
        (next.vacate (.inside object index)) := by
  have notKept : ¬ kept object := apart object List.mem_cons_self
  have live : memory.Live object := (ready.doomed object List.mem_cons_self).1
  have unrooted : ¬ Rooted (fun object => kept object ∨ object ∈ path) (.inside object index) :=
    fun either => either.elim notKept fresh
  have outside : Handle.inside object index ∉ stack := fun member => unrooted (rooted _ member)
  have wider : ∀ handle, Rooted (fun object => kept object ∨ object ∈ path) handle →
      Rooted (fun other => kept other ∨ other ∈ object :: path) handle := by
    intro handle isRooted
    cases handle with
    | loose name => trivial
    | inside holder place => exact isRooted.imp id (List.mem_cons_of_mem object)
  have droppable : Droppable kept (object :: path) stack memory (.inside object index) := by
    refine
      { ready := ready
        apart := apart
        rooted := ?_
        outside := outside
        there := (ready.sound.members object index).mpr ⟨live, by omega⟩
        owned := ?_ }
    · intro other member
      rcases List.mem_cons.mp member with same | before
      · subst same
        exact .inr List.mem_cons_self
      · exact wider other (rooted other before)
    · intro target isKept at_
      rcases ready.owned target isKept with nobody | ⟨owner, atOwner, isRooted⟩
      · exact absurd at_ (nobody _)
      · refine ⟨owner, (Memory.counted_cons_of_ne ?_).trans atOwner, isRooted⟩
        intro same
        rw [same] at isRooted
        exact notKept isRooted
  obtain ⟨next, dropped, after, _, fell⟩ := drops _ _ _ _ droppable enough
  have stays : next.members object = index + 1 :=
    (fell.members object (.inr List.mem_cons_self)).trans members
  refine ⟨next, dropped, ?_, update_self _ _ _, ?_⟩
  · exact after.move (after.sound.vacate stays) (Memory.counted_vacate _ _ _)
      (fun _ member => member)
      (fun other either => either.elim (after.live other) fun member => (after.doomed other member).1)
  · constructor
    · intro handle isRooted _
      have different : handle ≠ .inside object index := by
        intro same
        rw [same] at isRooted
        exact unrooted isRooted
      rw [Memory.vacate_other different]
      exact fell.same handle (wider handle isRooted) (by simpa using different)
    · intro handle target at_
      by_cases same : handle = .inside object index
      · rw [same, Memory.vacate_self] at at_
        cases at_
      · rw [Memory.vacate_other same] at at_
        exact fell.fewer handle target at_
    · intro other isSpared
      have different : other ≠ object := by
        intro same
        subst same
        exact isSpared.elim notKept fresh
      have same : (next.vacate (.inside object index)).members other = next.members other :=
        update_of_ne different _ _
      rw [same]
      exact fell.members other (isSpared.imp id (List.mem_cons_of_mem object))
    · exact fell.made
    · exact fell.falls
    · exact fell.zero
    · exact fell.grows
    · exact fell.deleted

theorem destroyMembers_spec {fuel : Nat} (drops : Drops kept fuel)
    (apart : ∀ other ∈ object :: path, ¬ kept other) (fresh : object ∉ path)
    (rooted : ∀ other ∈ stack, Rooted (fun object => kept object ∨ object ∈ path) other)
    (count : Nat) (memory : Memory) (ready : Ready kept (object :: path) stack memory)
    (members : memory.members object = count) (enough : memory.positive < fuel) :
    ∃ next, Memory.destroyMembers (Memory.drop fuel) object count memory = some next ∧
      Ready kept (object :: path) stack next ∧ next.members object = 0 ∧
      Fell (fun object => kept object ∨ object ∈ path) [] memory next := by
  induction count generalizing memory with
  | zero => exact ⟨memory, rfl, ready, members, .refl _ _ _⟩
  | succ index ih =>
      obtain ⟨dropped, result, after, fewer, fell⟩ :=
        destroyMember_spec drops ready apart fresh rooted members enough
      obtain ⟨next, rest, afterRest, empty, fellRest⟩ :=
        ih _ after fewer (Nat.lt_of_le_of_lt fell.positive_le enough)
      refine ⟨next, ?_, afterRest, empty, fell.trans fellRest⟩
      unfold Memory.destroyMembers
      rw [result]
      exact rest

end Destructor

/-! ### One drop -/

namespace Memory

variable {memory : Memory} {handle : Handle} {object : Nat} {count : Int}

theorem drop_null (at_ : memory.ptr handle = some none) (fuel : Nat) :
    memory.drop (fuel + 1) handle = some memory := by
  unfold drop
  rw [at_]
  rfl

theorem drop_shared (at_ : memory.ptr handle = some (some object))
    (present : memory.refCount object = some count) (others : count + -1 ≠ 0) (fuel : Nat) :
    memory.drop (fuel + 1) handle = some (memory.setCount object (count + -1)) := by
  unfold drop addFetch
  rw [at_]
  simp only [present, Option.map_some, Option.bind_eq_bind, Option.bind_some, if_neg others]

/-- The last handle takes the object with it. -/
theorem drop_last (at_ : memory.ptr handle = some (some object))
    (present : memory.refCount object = some count) (last : count + -1 = 0) {fuel : Nat}
    {next : Memory}
    (destroyed : destroyMembers (drop fuel) object (memory.members object)
      (memory.setCount object (count + -1)) = some next)
    (live : next.Live object) (there : next.There handle) :
    memory.drop (fuel + 1) handle = some ((next.erase object).setPtr handle none) := by
  obtain ⟨zero, atZero⟩ := count_of_live live
  obtain ⟨content, atHandle⟩ := Option.isSome_iff_exists.mp there
  have members : (memory.setCount object (count + -1)).members object = memory.members object := rfl
  have kept : (next.erase object).ptr handle = some content := atHandle
  unfold drop addFetch
  rw [at_]
  simp only [present, Option.map_some, Option.bind_eq_bind, Option.bind_some, if_pos last, members]
  rw [destroyed]
  simp only [Option.bind_some, release, atZero, Option.map_some, store, kept]

theorem positive_lt (after : Memory) (made : after.made = memory.made)
    (falls : ∀ other, 0 < after.count other → 0 < memory.count other)
    (inside : object < memory.made) (before : 0 < memory.count object)
    (now : ¬ 0 < after.count object) : after.positive < memory.positive := by
  unfold positive
  rw [made]
  apply Finset.card_lt_card
  refine Finset.ssubset_iff_of_subset ?_ |>.mpr ⟨object, ?_, ?_⟩
  · intro other member
    obtain ⟨known, positive⟩ := Finset.mem_filter.mp member
    exact Finset.mem_filter.mpr ⟨known, falls other positive⟩
  · exact Finset.mem_filter.mpr ⟨Finset.mem_range.mpr inside, before⟩
  · exact fun member => now (Finset.mem_filter.mp member).2

theorem count_eq (present : memory.refCount object = some count) :
    memory.count object = count := by
  unfold Memory.count
  rw [present]
  rfl

theorem count_setCount_other {other : Nat} (different : other ≠ object) (count : Int) :
    (memory.setCount object count).count other = memory.count other := by
  unfold Memory.count
  rw [setCount_other different]

theorem count_setCount_self (count : Int) : (memory.setCount object count).count object = count :=
  count_eq (setCount_self memory object count)

end Memory

namespace Droppable

variable {kept : Nat → Prop} {path : List Nat} {stack : List Handle} {memory : Memory}
  {handle : Handle} {object : Nat} {count : Int}

theorem counted (droppable : Droppable kept path stack memory handle)
    (at_ : memory.ptr handle = some (some object)) :
    memory.counted stack handle = some (some object) :=
  (Memory.counted_of_not_mem droppable.outside).trans at_

theorem enter (droppable : Droppable kept path stack memory handle)
    (at_ : memory.ptr handle = some (some object))
    (present : memory.refCount object = some count) :
    Ready kept path (handle :: stack) (memory.setCount object (count + -1)) where
  sound := droppable.ready.sound.enter droppable.outside at_ present
  live := fun other isKept =>
    (Memory.live_setCount (Memory.live_of_count present) _ other).mpr
      (droppable.ready.live other isKept)
  owned := fun _ isKept => droppable.ready.owned_without droppable.owned isKept
  doomed := by
    intro other member
    obtain ⟨live, nobody⟩ := droppable.ready.doomed_without handle member
    exact ⟨(Memory.live_setCount (Memory.live_of_count present) _ other).mpr live, nobody⟩

theorem count_pos (droppable : Droppable kept path stack memory handle)
    (at_ : memory.ptr handle = some (some object))
    (present : memory.refCount object = some count) : 0 < count := by
  have number := droppable.ready.sound.counts object count present
  have some_ := Memory.pointing_pos droppable.ready.sound.sparse (droppable.counted at_)
  omega

theorem fell_shared (droppable : Droppable kept path stack memory handle)
    (at_ : memory.ptr handle = some (some object))
    (present : memory.refCount object = some count) (others : count + -1 ≠ 0)
    (spared : Nat → Prop) :
    Fell spared [handle] memory (memory.setCount object (count + -1)) where
  same := fun _ _ _ => rfl
  fewer := fun _ _ there => there
  members := fun _ _ => rfl
  made := rfl
  falls := by
    intro other positive
    by_cases same : other = object
    · rw [same, Memory.count_eq present]
      exact droppable.count_pos at_ present
    · rw [Memory.count_setCount_other same] at positive
      exact positive
  zero := by
    intro other isZero
    by_cases same : other = object
    · rw [same, Memory.setCount_self] at isZero
      exact absurd (Option.some.inj isZero) others
    · rw [Memory.setCount_other same] at isZero
      exact isZero
  grows := fun _ member => member
  deleted := fun _ member => .inl member

/-- An object that goes was not kept, and was not on its way before. -/
theorem last_not_kept (droppable : Droppable kept path stack memory handle)
    (at_ : memory.ptr handle = some (some object))
    (present : memory.refCount object = some count) (last : count + -1 = 0) :
    (∀ other, memory.counted (handle :: stack) other ≠ some (some object)) ∧
      ¬ kept object ∧ object ∉ path := by
  have after := droppable.enter at_ present
  have zero := after.sound.counts object _ (Memory.setCount_self memory object (count + -1))
  have nobody : ∀ other, memory.counted (handle :: stack) other ≠ some (some object) := by
    intro other there
    have positive := Memory.pointing_pos after.sound.sparse there
    omega
  refine ⟨nobody, ?_, ?_⟩
  · intro isKept
    obtain ⟨other, there, _⟩ := droppable.owned object isKept (droppable.counted at_)
    exact nobody other there
  · intro member
    exact (droppable.ready.doomed object member).2 handle (droppable.counted at_)

/-- The destructor of the object has run; its memory goes, and the handle is cleared. -/
theorem fell_last (droppable : Droppable kept path stack memory handle)
    (at_ : memory.ptr handle = some (some object))
    (present : memory.refCount object = some count) {next : Memory}
    (fell : Fell (fun object => kept object ∨ object ∈ path) []
      (memory.setCount object (count + -1)) next) :
    Fell (fun object => kept object ∨ object ∈ path) [handle] memory
      ((next.erase object).setPtr handle none) where
  same := by
    intro other rooted outside
    have different : other ≠ handle := by simpa using outside
    exact (Memory.setPtr_other different none).trans (fell.same other rooted List.not_mem_nil)
  fewer := by
    intro other target there
    by_cases same : other = handle
    · rw [same, Memory.setPtr_self] at there
      cases there
    · rw [Memory.setPtr_other same] at there
      exact fell.fewer other target there
  members := fell.members
  made := fell.made
  falls := by
    intro other positive
    by_cases same : other = object
    · rw [same, Memory.count_eq present]
      exact droppable.count_pos at_ present
    · have before : 0 < next.count other := by
        unfold Memory.count at positive ⊢
        rw [Memory.setPtr_refCount, Memory.erase_other same] at positive
        exact positive
      have earlier := fell.falls other before
      rw [Memory.count_setCount_other same] at earlier
      exact earlier
  zero := by
    intro other isZero
    rw [Memory.setPtr_refCount] at isZero
    by_cases same : other = object
    · rw [same, Memory.erase_self] at isZero
      cases isZero
    · rw [Memory.erase_other same] at isZero
      have earlier := fell.zero other isZero
      rw [Memory.setCount_other same] at earlier
      exact earlier
  grows := fun other member => List.mem_cons_of_mem object (fell.grows other member)
  deleted := by
    intro other member
    by_cases same : other = object
    · right
      rw [same, Memory.count_eq present]
      exact droppable.count_pos at_ present
    · rcases fell.deleted other ((List.mem_cons.mp member).resolve_left same) with earlier | positive
      · exact .inl earlier
      · rw [Memory.count_setCount_other same] at positive
        exact .inr positive

theorem drop_last {fuel : Nat} (droppable : Droppable kept path stack memory handle)
    (drops : Drops kept fuel) (at_ : memory.ptr handle = some (some object))
    (present : memory.refCount object = some count) (last : count + -1 = 0)
    (enough : memory.positive < fuel + 1) :
    ∃ next, memory.drop (fuel + 1) handle = some next ∧ Ready kept path (handle :: stack) next ∧
      next.There handle ∧
      Fell (fun object => kept object ∨ object ∈ path) [handle] memory next := by
  obtain ⟨nobody, notKept, fresh⟩ := droppable.last_not_kept at_ present last
  have after := droppable.enter at_ present
  have live : (memory.setCount object (count + -1)).Live object :=
    Memory.live_of_count (Memory.setCount_self memory object (count + -1))
  have ready : Ready kept (object :: path) (handle :: stack)
      (memory.setCount object (count + -1)) := by
    refine { after with doomed := ?_ }
    intro other member
    rcases List.mem_cons.mp member with same | before
    · subst same
      exact ⟨live, nobody⟩
    · exact after.doomed other before
  have apart : ∀ other ∈ object :: path, ¬ kept other := by
    intro other member
    rcases List.mem_cons.mp member with same | before
    · subst same
      exact notKept
    · exact droppable.apart other before
  have known : object < memory.made :=
    droppable.ready.sound.known object (Memory.live_of_count present)
  have less : (memory.setCount object (count + -1)).positive < fuel := by
    have below : (memory.setCount object (count + -1)).positive < memory.positive := by
      refine Memory.positive_lt (memory.setCount object (count + -1)) rfl ?_ known ?_ ?_
      · intro other positive
        by_cases same : other = object
        · rw [same, Memory.count_eq present]
          exact droppable.count_pos at_ present
        · rw [Memory.count_setCount_other same] at positive
          exact positive
      · rw [Memory.count_eq present]
        exact droppable.count_pos at_ present
      · rw [Memory.count_setCount_self]
        omega
    omega
  obtain ⟨next, destroyed, done, empty, fell⟩ :=
    destroyMembers_spec drops apart fresh droppable.rooted _ _ ready rfl less
  have thereNext : next.There handle := by
    unfold Memory.There
    rw [fell.same handle (droppable.rooted handle List.mem_cons_self) List.not_mem_nil]
    exact droppable.there
  obtain ⟨liveNext, nobodyNext⟩ := done.doomed object List.mem_cons_self
  have erased := done.sound.erase liveNext nobodyNext empty
  have stays : ∀ other, kept other ∨ other ∈ path → (next.erase object).Live other := by
    intro other either
    have different : other ≠ object := by
      intro same
      subst same
      exact either.elim notKept fresh
    unfold Memory.Live
    rw [Memory.erase_other different]
    exact either.elim (done.live other) fun member =>
      (done.doomed other (List.mem_cons_of_mem _ member)).1
  have readyErased : Ready kept path (handle :: stack) (next.erase object) :=
    done.move erased rfl (fun _ member => List.mem_cons_of_mem object member) stays
  have cleared := erased.setPtr List.mem_cons_self thereNext none
  refine ⟨_, Memory.drop_last at_ present last destroyed liveNext thereNext, ?_, ?_,
    droppable.fell_last at_ present fell⟩
  · exact readyErased.move cleared (Memory.counted_setPtr List.mem_cons_self none)
      (fun _ member => member) stays
  · unfold Memory.There
    rw [Memory.setPtr_self]
    rfl

end Droppable

/-- By induction on the fuel: each deletion under way leaves one object less that can go. -/
theorem drop_spec (kept : Nat → Prop) (fuel : Nat) : Drops kept fuel := by
  induction fuel with
  | zero =>
      intro path stack memory handle _ enough
      exact absurd enough (Nat.not_lt_zero _)
  | succ fuel ih =>
      intro path stack memory handle droppable enough
      obtain ⟨content, at_⟩ := Option.isSome_iff_exists.mp droppable.there
      cases content with
      | none =>
          refine ⟨memory, Memory.drop_null at_ fuel, ?_, droppable.there, .refl _ _ _⟩
          exact
            { sound := droppable.ready.sound.enter_null at_
              live := droppable.ready.live
              owned := fun _ isKept => droppable.ready.owned_without droppable.owned isKept
              doomed := fun _ member => droppable.ready.doomed_without handle member }
      | some object =>
          obtain ⟨count, present⟩ := Memory.count_of_live
            (droppable.ready.sound.targets handle object (droppable.counted at_))
          by_cases last : count + -1 = 0
          · exact droppable.drop_last ih at_ present last enough
          · exact ⟨_, Memory.drop_shared at_ present last fuel, droppable.enter at_ present,
              droppable.there, droppable.fell_shared at_ present last _⟩

end AC97Kernel.Shared
