/-
What programs of kernel/shared.h may rely on.

An assignment drops what its handle had before it counts the new pointer, and the
move assignment reads its source after that.  Where the old object owns what is
assigned, and nothing else does, it is gone by then.
-/

import AC97Kernel.Sync.SharedDrop
import Mathlib.Order.WellFounded
import Mathlib.Data.Fintype.Card

set_option autoImplicit false

namespace AC97Kernel.Shared

open Function Relation

namespace Memory

theorem live_of_there {memory : Memory} {stack : List Handle} (sound : Sound stack memory)
    {object index : Nat} (there : memory.There (.inside object index)) : memory.Live object :=
  ((sound.members object index).mp there).1

theorem there_of_ptr {memory : Memory} {handle : Handle} {content : Option Nat}
    (at_ : memory.ptr handle = some content) : memory.There handle := by
  unfold There
  rw [at_]
  rfl

end Memory

/-! ### Owners -/

section Owners

variable {memory : Memory} {handle : Handle} {object : Nat}

/-- In an acyclic memory every way up to the owners ends. -/
theorem owners_end (sound : Sound [] memory) (acyclic : memory.Acyclic) :
    WellFounded memory.Holds := by
  have known : ∀ holder object, memory.Holds holder object → holder < memory.made := by
    intro holder object holds
    obtain ⟨index, at_⟩ := holds
    exact sound.known holder (Memory.live_of_there sound (Memory.there_of_ptr at_))
  have transitive : IsTrans (Fin memory.made) fun one other =>
      TransGen memory.Holds one.val other.val := ⟨fun _ _ _ first second => first.trans second⟩
  have irreflexive : Std.Irrefl fun one other : Fin memory.made =>
      TransGen memory.Holds one.val other.val := ⟨fun one => acyclic one.val⟩
  have finite : WellFounded fun one other : Fin memory.made =>
      TransGen memory.Holds one.val other.val := Finite.wellFounded_of_trans_of_irrefl _
  have inside : ∀ one : Fin memory.made, Acc memory.Holds one.val := by
    intro one
    induction one using finite.induction with
    | _ one ih =>
        constructor
        intro holder holds
        exact ih ⟨holder, known _ _ holds⟩ (.single holds)
  constructor
  intro object
  constructor
  intro holder holds
  exact inside ⟨holder, known _ _ holds⟩

theorem Kept.live (sound : Sound [] memory) (kept : Kept memory handle object) :
    memory.Live object := by
  cases kept with
  | unowned _ live _ => exact live
  | loose name _ _ points => exact sound.targets _ _ points
  | inside holder index _ _ _ points => exact sound.targets _ _ points

/-- A kept object that something points to has an owner that is kept. -/
theorem Kept.owner (kept : Kept memory handle object) :
    (∀ other, memory.ptr other ≠ some (some object)) ∨
      ∃ other, other ≠ handle ∧ memory.ptr other = some (some object) ∧
        Rooted (Kept memory handle) other := by
  cases kept with
  | unowned _ _ nobody => exact .inl nobody
  | loose name _ apart points => exact .inr ⟨_, apart, points, trivial⟩
  | inside holder index _ owner apart points => exact .inr ⟨_, apart, points, owner⟩

/-- The object of a handle does not depend on what the handle owns. -/
theorem kept_holder (sound : Sound [] memory) (acyclic : memory.Acyclic) {holder index : Nat}
    (there : memory.There (.inside holder index)) : Kept memory (.inside holder index) holder := by
  have above : ∀ object, ReflTransGen memory.Holds object holder → memory.Live object →
      Kept memory (.inside holder index) object := by
    intro object
    induction object using (owners_end sound acyclic).induction with
    | _ object ih =>
        intro reaches live
        by_cases owned : ∃ other, memory.ptr other = some (some object)
        · obtain ⟨other, points⟩ := owned
          have apart : other ≠ .inside holder index := by
            intro same
            subst same
            exact acyclic object (TransGen.tail' reaches ⟨index, points⟩)
          cases other with
          | loose name => exact .loose name object apart points
          | inside owner place =>
              have holds : memory.Holds owner object := ⟨place, points⟩
              have ownerLive := Memory.live_of_there sound (Memory.there_of_ptr points)
              exact .inside owner place object (ih owner holds (.head holds reaches) ownerLive)
                apart points
        · exact .unowned object live (not_exists.mp owned)
  exact above holder .refl (Memory.live_of_there sound there)

/-- The object that a handle is in, if there is one, is kept. -/
theorem rooted_kept (sound : Sound [] memory) (acyclic : memory.Acyclic)
    (there : memory.There handle) : Rooted (Kept memory handle) handle := by
  cases handle with
  | loose name => trivial
  | inside holder index => exact kept_holder sound acyclic there

end Owners

/-! ### One drop by the program -/

/-- What a `drop` has done that no other one is part of. -/
structure Dropped (memory : Memory) (handle : Handle) (next : Memory) : Prop where
  sound : Sound [handle] next
  there : next.There handle
  live : ∀ object, Kept memory handle object → next.Live object
  fell : Fell (Kept memory handle) [handle] memory next

section Drop

variable {memory next : Memory} {handle : Handle} {object : Nat}

theorem drop_total (sound : Sound [] memory) (acyclic : memory.Acyclic)
    (there : memory.There handle) :
    ∃ next, memory.drop memory.depth handle = some next ∧ Dropped memory handle next := by
  have same : (fun object => Kept memory handle object ∨ object ∈ ([] : List Nat)) =
      Kept memory handle := by
    funext object
    simp only [List.not_mem_nil, or_false]
  have owner : ∀ object, Kept memory handle object →
      memory.ptr handle = some (some object) → ∃ other,
        memory.counted [handle] other = some (some object) ∧ Rooted (Kept memory handle) other := by
    intro object kept at_
    rcases kept.owner with nobody | ⟨other, apart, points, rooted⟩
    · exact absurd at_ (nobody handle)
    · exact ⟨other, (Memory.counted_cons_of_ne apart).trans points, rooted⟩
  have droppable : Droppable (Kept memory handle) [] [] memory handle := by
    refine
      { ready :=
          { sound := sound
            live := fun _ kept => kept.live sound
            owned := ?_
            doomed := fun _ member => absurd member List.not_mem_nil }
        apart := fun _ member => absurd member List.not_mem_nil
        rooted := ?_
        outside := List.not_mem_nil
        there := there
        owned := owner }
    · intro object kept
      rcases kept.owner with nobody | ⟨other, _, points, rooted⟩
      · exact .inl nobody
      · exact .inr ⟨other, points, rooted⟩
    · intro other member
      rw [same, List.mem_singleton.mp member]
      exact rooted_kept sound acyclic there
  have enough : memory.positive < memory.depth := by
    have all := Finset.card_filter_le (Finset.range memory.made) fun object =>
      0 < memory.count object
    rw [Finset.card_range] at all
    exact Nat.lt_succ_of_le all
  obtain ⟨next, dropped, ready, thereNext, fell⟩ :=
    drop_spec (Kept memory handle) memory.depth [] [] memory handle droppable enough
  rw [same] at fell
  exact ⟨next, dropped, ready.sound, thereNext, ready.live, fell⟩

/-- Only what is kept is left: the way up the owners ends in one that `drop` does not reach. -/
theorem Dropped.kept (dropped : Dropped memory handle next) (sound : Sound [] memory)
    (acyclic : memory.Acyclic) (left : next.Live object) : Kept memory handle object := by
  induction object using (owners_end sound acyclic).induction with
  | _ object ih =>
      obtain ⟨count, present⟩ := Memory.count_of_live left
      have number := dropped.sound.counts object count present
      by_cases zero : count = 0
      · rw [zero] at present
        have before := dropped.fell.zero object present
        have nobody : ∀ other, memory.ptr other ≠ some (some object) := by
          intro other points
          have content : memory.counted [] other = some (some object) := points
          have positive := Memory.pointing_pos sound.sparse content
          have none_ := sound.counts object 0 before
          omega
        exact .unowned object (Memory.live_of_count before) nobody
      · have positive : 0 < next.pointing [handle] object := by omega
        obtain ⟨other, at_⟩ := Memory.exists_pointing positive
        obtain ⟨apart, there⟩ := Memory.counted_of_cons at_
        have points := dropped.fell.fewer other object there
        cases other with
        | loose name => exact .loose name object apart points
        | inside holder index =>
            have holderLeft := Memory.live_of_there dropped.sound (Memory.there_of_ptr there)
            exact .inside holder index object (ih holder ⟨index, points⟩ holderLeft) apart points

end Drop

/-! ### After every operation -/

/-- Every count is the number of live handles, and no live handle dangles. -/
structure Counted (memory : Memory) : Prop where
  counts : ∀ object count, memory.refCount object = some count →
    count = (memory.handles object : Int)
  targets : ∀ handle object, memory.ptr handle = some (some object) → memory.Live object
  once : memory.deleted.Nodup
  gone : ∀ object ∈ memory.deleted, ¬ memory.Live object

/-- The objects that were deleted are those whose number of handles has dropped to zero. -/
def Deletes (memory next : Memory) : Prop :=
  ∀ object, object ∈ next.deleted ↔
    object ∈ memory.deleted ∨ (0 < memory.handles object ∧ next.handles object = 0)

theorem Sound.counted {memory : Memory} (sound : Sound [] memory) : Counted memory where
  counts := sound.counts
  targets := sound.targets
  once := sound.once
  gone := fun object member => ((sound.deleted object).mp member).2

/-- Counts were raised, or written as they are. -/
structure Raised (memory next : Memory) : Prop where
  made : next.made = memory.made
  deleted : next.deleted = memory.deleted
  zero : ∀ object, next.refCount object = some 0 → memory.refCount object = some 0

section Changes

variable {memory middle next : Memory} {handle : Handle} {object : Nat} {value : Option Nat}

theorem Raised.trans (first : Raised memory middle) (second : Raised middle next) :
    Raised memory next where
  made := second.made.trans first.made
  deleted := second.deleted.trans first.deleted
  zero := fun object isZero => first.zero object (second.zero object isZero)

theorem raised_of_counts (made : next.made = memory.made)
    (deleted : next.deleted = memory.deleted) (same : next.refCount = memory.refCount) :
    Raised memory next where
  made := made
  deleted := deleted
  zero := fun object isZero => by rw [← same]; exact isZero

theorem deletes (sound : Sound [] memory) (after : Sound [] next)
    (made : memory.made ≤ next.made) (grows : ∀ object ∈ memory.deleted, object ∈ next.deleted)
    (deleted : ∀ object ∈ next.deleted, object ∈ memory.deleted ∨ 0 < memory.count object)
    (zero : ∀ object, next.refCount object = some 0 → memory.count object ≤ 0) :
    Deletes memory next := by
  intro object
  constructor
  · intro member
    rcases deleted object member with before | positive
    · exact .inl before
    · right
      obtain ⟨_, gone⟩ := (after.deleted object).mp member
      constructor
      · unfold Memory.count at positive
        cases present : memory.refCount object with
        | none =>
            rw [present] at positive
            exact absurd positive (lt_irrefl 0)
        | some count =>
            rw [present] at positive
            have number := sound.counts object count present
            rw [Memory.pointing_nil] at number
            change 0 < count at positive
            omega
      · by_contra some_
        obtain ⟨other, at_⟩ := Memory.exists_handle (Nat.pos_of_ne_zero some_)
        exact gone (after.targets other object at_)
  · rintro (before | ⟨positive, none_⟩)
    · exact grows object before
    · obtain ⟨other, at_⟩ := Memory.exists_handle positive
      have live := sound.targets other object at_
      apply (after.deleted object).mpr
      refine ⟨Nat.lt_of_lt_of_le (sound.known object live) made, ?_⟩
      intro left
      obtain ⟨count, present⟩ := Memory.count_of_live left
      obtain ⟨old, before⟩ := Memory.count_of_live live
      have number := after.counts object count present
      have oldNumber := sound.counts object old before
      rw [Memory.pointing_nil] at number oldNumber
      have isZero : count = 0 := by omega
      rw [isZero] at present
      have small := zero object present
      rw [Memory.count_eq before] at small
      omega

theorem deletes_of_fell {spared : Nat → Prop} {except : List Handle} (sound : Sound [] memory)
    (fell : Fell spared except memory middle) (raised : Raised middle next)
    (after : Sound [] next) : Deletes memory next := by
  apply deletes sound after
  · rw [raised.made, fell.made]
  · intro object member
    rw [raised.deleted]
    exact fell.grows object member
  · intro object member
    rw [raised.deleted] at member
    exact fell.deleted object member
  · intro object isZero
    rw [Memory.count_eq (fell.zero object (raised.zero object isZero))]

/-- The new pointer is counted. -/
theorem add_total (sound : Sound [handle] memory) (at_ : memory.ptr handle = some value)
    (valid : memory.Valid value) :
    ∃ next, memory.add handle = some next ∧ Sound [] next ∧ Raised memory next := by
  cases value with
  | none =>
      refine ⟨memory, ?_, sound.leave_null at_, raised_of_counts rfl rfl rfl⟩
      unfold Memory.add
      rw [at_]
      rfl
  | some object =>
      obtain ⟨count, present⟩ := Memory.count_of_live (valid object rfl)
      have number := sound.counts object count present
      refine ⟨memory.setCount object (count + 1), ?_,
        sound.leave List.not_mem_nil at_ present, rfl, rfl, ?_⟩
      · unfold Memory.add Memory.addFetch
        rw [at_]
        simp only [present, Option.bind_eq_bind, Option.bind_some, Option.map_some]
      · intro other isZero
        by_cases same : other = object
        · rw [same, Memory.setCount_self] at isZero
          have impossible := Option.some.inj isZero
          omega
        · rw [Memory.setCount_other same] at isZero
          exact isZero

/-- A pointer to a deleted object cannot be counted. -/
theorem valid_of_add (at_ : memory.ptr handle = some value)
    (added : memory.add handle = some next) : memory.Valid value := by
  intro object member
  cases member
  unfold Memory.add Memory.addFetch at added
  rw [at_] at added
  cases present : memory.refCount object with
  | none =>
      simp only [present, Option.bind_eq_bind, Option.bind_some, Option.map_none] at added
      cases added
  | some count => exact Memory.live_of_count present

end Changes

/-! ### Constructors and the destructor -/

section Operations

variable {memory next : Memory} {handle rhs : Handle} {value : Option Nat}

theorem store_eq (there : memory.There handle) (value : Option Nat) :
    memory.store handle value = some (memory.setPtr handle value) := by
  obtain ⟨content, at_⟩ := Option.isSome_iff_exists.mp there
  unfold Memory.store
  rw [at_, Option.map_some]

theorem valid_ptr (sound : Sound [] memory) (source : memory.ptr rhs = some value) :
    memory.Valid value := by
  intro object member
  cases member
  exact sound.targets rhs object source

theorem construct_total (sound : Sound [] memory) (vacant : memory.Vacant handle)
    (valid : memory.Valid value) :
    ∃ next, memory.construct handle value = some next ∧ Sound [] next ∧ Raised memory next := by
  obtain ⟨next, added, after, raised⟩ := add_total (sound.occupy vacant value)
    (Memory.occupy_self memory handle value) valid
  have unchanged : Raised memory (memory.occupy handle value) := raised_of_counts rfl rfl rfl
  exact ⟨next, added, after, unchanged.trans raised⟩

theorem constructNull_total (sound : Sound [] memory) (vacant : memory.Vacant handle) :
    Sound [] (memory.occupy handle none) :=
  (sound.occupy vacant none).leave_null (Memory.occupy_self memory handle none)

theorem constructMove_total (sound : Sound [] memory) (vacant : memory.Vacant handle)
    (there : memory.There rhs) :
    ∃ next, memory.constructMove handle rhs = some next ∧ Sound [] next ∧ Raised memory next := by
  obtain ⟨value, source⟩ := Option.isSome_iff_exists.mp there
  have apart : rhs ≠ handle := by
    intro same
    rw [same, sound.vacant_ptr vacant] at source
    cases source
  have occupied := sound.occupy vacant value
  have thereHandle : (memory.occupy handle value).There handle :=
    Memory.there_of_ptr (Memory.occupy_self memory handle value)
  have stays : (memory.occupy handle value).ptr rhs = some value :=
    (Memory.occupy_other apart value).trans source
  have moved := occupied.transfer thereHandle apart stays
  have same : (memory.occupy handle value).setPtr handle value = memory.occupy handle value := by
    unfold Memory.setPtr
    rw [← Memory.occupy_self memory handle value, update_eq_self]
  rw [same] at moved
  refine ⟨(memory.occupy handle value).setPtr rhs none, ?_, moved,
    raised_of_counts rfl rfl rfl⟩
  unfold Memory.constructMove
  rw [source]
  exact store_eq (Memory.there_of_ptr stays) none

/-- `new T` and the handle that takes it. -/
theorem make_total (sound : Sound [] memory) (vacant : memory.Vacant handle) :
    ∃ next, memory.make handle = some next ∧ Sound [] next ∧ Raised memory.new next := by
  have live : memory.new.Live memory.made := by
    unfold Memory.Live
    have atNew : memory.new.refCount memory.made = some 0 := update_self _ _ _
    rw [atNew]
    rfl
  have stays : memory.new.Vacant handle := by
    cases handle with
    | loose name => exact vacant
    | inside object index =>
        obtain ⟨present, isNext⟩ := vacant
        have different : object ≠ memory.made := Nat.ne_of_lt (sound.known object present)
        have sameCount : memory.new.refCount object = memory.refCount object :=
          update_of_ne different _ _
        have sameMembers : memory.new.members object = memory.members object :=
          update_of_ne different _ _
        refine ⟨?_, isNext.trans sameMembers.symm⟩
        unfold Memory.Live
        rw [sameCount]
        exact present
  exact construct_total sound.new stays fun object member => by
    cases member
    exact live

theorem zero_new (sound : Sound [] memory) {object : Nat}
    (isZero : memory.new.refCount object = some 0) : memory.count object ≤ 0 := by
  unfold Memory.count
  by_cases same : object = memory.made
  · have absent : memory.refCount object = none := by
      apply Option.not_isSome_iff_eq_none.mp
      intro live
      exact absurd (sound.known object live) (by omega)
    rw [absent]
    exact le_refl 0
  · have before : memory.new.refCount object = memory.refCount object := update_of_ne same _ _
    rw [← before, isZero]
    exact le_refl 0

theorem destroy_total (sound : Sound [] memory) (acyclic : memory.Acyclic) {name : Nat}
    (there : memory.There (.loose name)) :
    ∃ next, memory.destroy (.loose name) = some next ∧ Sound [] next ∧ Deletes memory next := by
  obtain ⟨next, result, dropped⟩ := drop_total sound acyclic there
  have after : Sound [] (next.vacate (.loose name)) := dropped.sound.vacate trivial
  refine ⟨next.vacate (.loose name), ?_, after,
    deletes_of_fell sound dropped.fell (raised_of_counts rfl rfl rfl) after⟩
  unfold Memory.destroy
  rw [result, Option.map_some]

/-! ### The assignments -/

/-- What both copying assignments do when the pointer is a new one. -/
def Memory.replace (memory : Memory) (handle : Handle) (value : Option Nat) : Option Memory := do
  let memory ← memory.drop memory.depth handle
  let memory ← memory.store handle value
  memory.add handle

theorem assignRaw_eq {old : Option Nat} (at_ : memory.ptr handle = some old) :
    memory.assignRaw handle value =
      if old ≠ value then memory.replace handle value else some memory := by
  unfold Memory.assignRaw
  rw [at_]
  rfl

theorem assignCopy_eq {old : Option Nat} (at_ : memory.ptr handle = some old)
    (source : memory.ptr rhs = some value) :
    memory.assignCopy handle rhs =
      if old ≠ value then memory.replace handle value else some memory := by
  unfold Memory.assignCopy
  rw [at_, source]
  rfl

theorem replace_total (sound : Sound [] memory) (acyclic : memory.Acyclic)
    (there : memory.There handle) (kept : ∀ object ∈ value, Kept memory handle object) :
    ∃ next, memory.replace handle value = some next ∧ Sound [] next ∧ Deletes memory next := by
  obtain ⟨middle, result, dropped⟩ := drop_total sound acyclic there
  have stored := dropped.sound.setPtr List.mem_cons_self dropped.there value
  have valid : (middle.setPtr handle value).Valid value :=
    fun object member => dropped.live object (kept object member)
  obtain ⟨next, added, after, raised⟩ :=
    add_total stored (Memory.setPtr_self middle handle value) valid
  have unchanged : Raised middle (middle.setPtr handle value) := raised_of_counts rfl rfl rfl
  refine ⟨next, ?_, after,
    deletes_of_fell sound dropped.fell (unchanged.trans raised) after⟩
  unfold Memory.replace
  rw [result, Option.bind_eq_bind, Option.bind_some, store_eq dropped.there]
  exact added

/-- Where it succeeds, the object had another owner. -/
theorem replace_kept (sound : Sound [] memory) (acyclic : memory.Acyclic)
    (there : memory.There handle) (replaced : memory.replace handle value = some next) :
    ∀ object ∈ value, Kept memory handle object := by
  obtain ⟨middle, result, dropped⟩ := drop_total sound acyclic there
  unfold Memory.replace at replaced
  rw [result, Option.bind_eq_bind, Option.bind_some, store_eq dropped.there] at replaced
  have valid := valid_of_add (Memory.setPtr_self middle handle value) replaced
  intro object member
  exact dropped.kept sound acyclic (valid object member)

theorem assign_total (sound : Sound [] memory) (acyclic : memory.Acyclic) {old : Option Nat}
    (at_ : memory.ptr handle = some old) (spares : Spares memory handle value) :
    ∃ next, (if old ≠ value then memory.replace handle value else some memory) = some next ∧
      Sound [] next ∧ Deletes memory next := by
  by_cases same : old = value
  · rw [if_neg (not_not_intro same)]
    exact ⟨memory, rfl, sound, deletes_of_fell sound (.refl (fun _ => True) [] memory)
      (raised_of_counts rfl rfl rfl) sound⟩
  · rw [if_pos same]
    refine replace_total sound acyclic (Memory.there_of_ptr at_) (spares.resolve_left ?_)
    intro isOld
    rw [at_] at isOld
    exact same (Option.some.inj isOld)

theorem assign_spares (sound : Sound [] memory) (acyclic : memory.Acyclic) {old : Option Nat}
    (at_ : memory.ptr handle = some old)
    (assigned : (if old ≠ value then memory.replace handle value else some memory) = some next) :
    Spares memory handle value := by
  by_cases same : old = value
  · rw [same] at at_
    exact .inl at_
  · rw [if_pos same] at assigned
    exact .inr (replace_kept sound acyclic (Memory.there_of_ptr at_) assigned)

theorem assignMove_total (sound : Sound [] memory) (acyclic : memory.Acyclic)
    (there : memory.There handle) (source : memory.There rhs)
    (rooted : Rooted (Kept memory handle) rhs) :
    ∃ next, memory.assignMove handle rhs = some next ∧ Sound [] next ∧ Deletes memory next := by
  obtain ⟨middle, result, dropped⟩ := drop_total sound acyclic there
  have finish : ∀ value, middle.ptr rhs = some value →
      Sound [] ((middle.setPtr handle value).setPtr rhs none) →
      ∃ next, memory.assignMove handle rhs = some next ∧ Sound [] next ∧ Deletes memory next := by
    intro value at_ after
    have thereRhs : (middle.setPtr handle value).There rhs :=
      (Memory.there_setPtr dropped.there value rhs).mpr (Memory.there_of_ptr at_)
    refine ⟨(middle.setPtr handle value).setPtr rhs none, ?_, after,
      deletes_of_fell sound dropped.fell (raised_of_counts rfl rfl rfl) after⟩
    unfold Memory.assignMove
    rw [result]
    simp only [Option.bind_eq_bind, Option.bind_some, at_, store_eq dropped.there]
    exact store_eq thereRhs none
  by_cases same : rhs = handle
  · subst same
    obtain ⟨value, at_⟩ := Option.isSome_iff_exists.mp dropped.there
    have stored := dropped.sound.setPtr List.mem_cons_self dropped.there value
    have thereStored := (Memory.there_setPtr dropped.there value rhs).mpr dropped.there
    exact finish value at_ ((stored.setPtr List.mem_cons_self thereStored none).leave_null
      (Memory.setPtr_self _ rhs none))
  · obtain ⟨value, before⟩ := Option.isSome_iff_exists.mp source
    have at_ : middle.ptr rhs = some value :=
      (dropped.fell.same rhs rooted (by simpa using same)).trans before
    exact finish value at_ (dropped.sound.transfer dropped.there same at_)

/-- Where it succeeds, its source was not in an object that went. -/
theorem assignMove_rooted (sound : Sound [] memory) (acyclic : memory.Acyclic)
    (there : memory.There handle) (moved : memory.assignMove handle rhs = some next) :
    Rooted (Kept memory handle) rhs := by
  obtain ⟨middle, result, dropped⟩ := drop_total sound acyclic there
  cases rhs with
  | loose name => trivial
  | inside object index =>
      unfold Memory.assignMove at moved
      rw [result] at moved
      simp only [Option.bind_eq_bind, Option.bind_some] at moved
      obtain ⟨value, at_, _⟩ := Option.bind_eq_some_iff.mp moved
      exact dropped.kept sound acyclic
        (Memory.live_of_there dropped.sound (Memory.there_of_ptr at_))

/-- A step that goes through, and keeps the counts. -/
def Goes (memory : Memory) (action : Action) : Prop :=
  ∃ next, step memory action = some next ∧ Sound [] next ∧ Deletes memory next

theorem goes_of_raised (sound : Sound [] memory) {action : Action}
    (total : ∃ next, step memory action = some next ∧ Sound [] next ∧ Raised memory next) :
    Goes memory action := by
  obtain ⟨next, result, after, raised⟩ := total
  exact ⟨next, result, after,
    deletes_of_fell sound (.refl (fun _ => True) [] memory) raised after⟩

theorem goes_of_new (sound : Sound [] memory) {action : Action}
    (total : ∃ next, step memory action = some next ∧ Sound [] next ∧ Raised memory.new next) :
    Goes memory action := by
  obtain ⟨next, result, after, raised⟩ := total
  refine ⟨next, result, after, deletes sound after ?_ ?_ ?_ ?_⟩
  · rw [raised.made]
    exact Nat.le_succ memory.made
  · intro object member
    rw [raised.deleted]
    exact member
  · intro object member
    rw [raised.deleted] at member
    exact .inl member
  · intro object isZero
    exact zero_new sound (raised.zero object isZero)

theorem constructCopy_eq (source : memory.ptr rhs = some value) :
    memory.constructCopy handle rhs = memory.construct handle value := by
  unfold Memory.constructCopy
  rw [source]
  rfl

/-- An operation that spares what it reads goes through. -/
theorem step_goes (sound : Sound [] memory) {action : Action} (permitted : allowed memory action)
    (spares : sparing memory action) : Goes memory action := by
  obtain ⟨acyclic, permitted⟩ := permitted
  cases action with
  | new => exact goes_of_new sound ⟨memory.new, rfl, sound.new, raised_of_counts rfl rfl rfl⟩
  | make handle => exact goes_of_new sound (make_total sound permitted)
  | construct handle it =>
      exact goes_of_raised sound (construct_total sound permitted.1 permitted.2)
  | constructNull handle =>
      exact goes_of_raised sound
        ⟨_, rfl, constructNull_total sound permitted, raised_of_counts rfl rfl rfl⟩
  | constructCopy handle rhs =>
      obtain ⟨value, source⟩ := Option.isSome_iff_exists.mp permitted.2
      apply goes_of_raised sound
      change ∃ next, memory.constructCopy handle rhs = some next ∧ _
      rw [constructCopy_eq source]
      exact construct_total sound permitted.1 (valid_ptr sound source)
  | constructMove handle rhs =>
      exact goes_of_raised sound (constructMove_total sound permitted.1 permitted.2)
  | assignRaw handle value =>
      obtain ⟨old, at_⟩ := Option.isSome_iff_exists.mp permitted.1
      change ∃ next, memory.assignRaw handle value = some next ∧ _
      rw [assignRaw_eq at_]
      exact assign_total sound acyclic at_ spares
  | assignCopy handle rhs =>
      obtain ⟨old, at_⟩ := Option.isSome_iff_exists.mp permitted.1
      obtain ⟨value, source⟩ := Option.isSome_iff_exists.mp permitted.2
      change ∃ next, memory.assignCopy handle rhs = some next ∧ _
      rw [assignCopy_eq at_ source]
      exact assign_total sound acyclic at_ (spares value source)
  | assignMove handle rhs => exact assignMove_total sound acyclic permitted.1 permitted.2 spares
  | destroy name => exact destroy_total sound acyclic permitted

/-- An operation that does not spare what it reads touches something that is gone. -/
theorem step_sparing (sound : Sound [] memory) {action : Action}
    (permitted : allowed memory action) (result : step memory action = some next) :
    sparing memory action := by
  obtain ⟨acyclic, permitted⟩ := permitted
  cases action with
  | assignRaw handle value =>
      obtain ⟨old, at_⟩ := Option.isSome_iff_exists.mp permitted.1
      change memory.assignRaw handle value = some next at result
      rw [assignRaw_eq at_] at result
      exact assign_spares sound acyclic at_ result
  | assignCopy handle rhs =>
      obtain ⟨old, at_⟩ := Option.isSome_iff_exists.mp permitted.1
      intro value source
      change memory.assignCopy handle rhs = some next at result
      rw [assignCopy_eq at_ source] at result
      exact assign_spares sound acyclic at_ result
  | assignMove handle rhs => exact assignMove_rooted sound acyclic permitted.1 result
  | new | make | construct | constructNull | constructCopy | constructMove | destroy =>
      exact trivial

end Operations

/-! ### Runs -/

/-- After each operation the counts are right, and what was deleted is what lost its last
handle. -/
def Keeps : Memory → List Action → Prop
  | _, [] => True
  | memory, action :: rest => ∃ next, step memory action = some next ∧ Counted next ∧
      Deletes memory next ∧ Keeps next rest

theorem keeps_iff {memory : Memory} (sound : Sound [] memory) (actions : List Action)
    (lawful : machine.Lawful memory actions) :
    Keeps memory actions ↔ sparingMachine.Lawful memory actions := by
  induction actions generalizing memory with
  | nil => exact Iff.rfl
  | cons action rest ih =>
      obtain ⟨permitted, onward⟩ := lawful
      constructor
      · rintro ⟨next, result, _, _, keeps⟩
        have spares := step_sparing sound permitted result
        obtain ⟨reached, same, after, _⟩ := step_goes sound permitted spares
        refine ⟨⟨permitted, spares⟩, ?_⟩
        intro other isNext
        change step memory action = some other at isNext
        rw [result] at isNext
        cases isNext
        rw [result] at same
        cases same
        exact (ih after (onward next result)).mp keeps
      · rintro ⟨both, later⟩
        obtain ⟨next, result, after, deleted⟩ := step_goes sound permitted both.2
        exact ⟨next, result, after.counted, deleted,
          (ih after (onward next result)).mpr (later next result)⟩

theorem lawful_of_sparing {memory : Memory} {actions : List Action}
    (spares : sparingMachine.Lawful memory actions) : machine.Lawful memory actions := by
  induction actions generalizing memory with
  | nil => trivial
  | cons action rest ih => exact ⟨spares.1.1, fun next isNext => ih (spares.2 next isNext)⟩

/-! ### Members that point to newer objects -/

/-- Members point to newer objects only. -/
def Newer (ptr : Handle → Option (Option Nat)) : Prop :=
  ∀ holder index object, ptr (.inside holder index) = some (some object) → holder < object

theorem acyclic_of_newer {memory : Memory} (newer : Newer memory.ptr) : memory.Acyclic := by
  have below : ∀ holder object, TransGen memory.Holds holder object → holder < object := by
    intro holder object reaches
    induction reaches with
    | single holds =>
        obtain ⟨index, at_⟩ := holds
        exact newer _ _ _ at_
    | tail _ holds ih =>
        obtain ⟨index, at_⟩ := holds
        exact Nat.lt_trans ih (newer _ _ _ at_)
  intro object reaches
  exact absurd (below object object reaches) (Nat.lt_irrefl object)

theorem newer_start : Newer start.ptr := fun _ _ _ at_ => nomatch at_

theorem Newer.loose {ptr : Handle → Option (Option Nat)} (newer : Newer ptr) (name : Nat)
    (content : Option (Option Nat)) : Newer (update ptr (.loose name) content) := by
  intro holder index object at_
  rw [update_of_ne (fun same => by cases same)] at at_
  exact newer holder index object at_

theorem Newer.inside {ptr : Handle → Option (Option Nat)} (newer : Newer ptr) (holder index : Nat)
    {object : Nat} (later : holder < object) :
    Newer (update ptr (.inside holder index) (some (some object))) := by
  intro other place target at_
  by_cases same : Handle.inside other place = .inside holder index
  · rw [same, update_self] at at_
    cases at_
    cases same
    exact later
  · rw [update_of_ne same] at at_
    exact newer other place target at_

/-! ### The contract -/

/-- A run keeps the counts, and touches nothing that is gone, if and only if each of its
assignments spares what it reads. -/
theorem shared_counts (actions : List Action) (lawful : machine.Lawful start actions) :
    Keeps start actions ↔ sparingMachine.Lawful start actions :=
  keeps_iff start_sound actions lawful

/-- With another handle to the rest, the head can be cut off. -/
theorem shared_counts_sample : Keeps start
    [.make (.loose 0), .make (.inside 0 0), .constructCopy (.loose 1) (.inside 0 0),
      .assignCopy (.loose 0) (.inside 0 0)] := by
  have list : Newer (update (update start.ptr (.loose 0) (some (some 0))) (.inside 0 0)
      (some (some 1))) := (newer_start.loose 0 _).inside 0 0 Nat.zero_lt_one
  have spares : sparingMachine.Lawful start
      [.make (.loose 0), .make (.inside 0 0), .constructCopy (.loose 1) (.inside 0 0),
        .assignCopy (.loose 0) (.inside 0 0)] := by
    refine ⟨⟨⟨acyclic_of_newer newer_start, rfl⟩, trivial⟩, ?_⟩
    intro first isFirst
    cases isFirst
    refine ⟨⟨⟨acyclic_of_newer (newer_start.loose 0 _), rfl, rfl⟩, trivial⟩, ?_⟩
    intro second isSecond
    cases isSecond
    refine ⟨⟨⟨acyclic_of_newer list, rfl, rfl⟩, trivial⟩, ?_⟩
    intro third isThird
    cases isThird
    refine ⟨⟨⟨acyclic_of_newer (list.loose 1 _), rfl, rfl⟩, ?_⟩, ?_⟩
    · intro value isValue
      cases isValue
      right
      intro object isObject
      cases isObject
      exact .loose 1 1 (by decide) rfl
    · intro fourth _
      trivial
  exact (shared_counts _ (lawful_of_sparing spares)).mpr spares

/-- `a = make(); a->next = make(); a = a->next;` counts in an object that is gone. -/
theorem assign_next_faults : ∃ actions, machine.Lawful start actions ∧
    machine.run start actions = none ∧ ¬ Keeps start actions := by
  refine ⟨[.make (.loose 0), .make (.inside 0 0), .assignCopy (.loose 0) (.inside 0 0)],
    ?_, rfl, ?_⟩
  · refine ⟨⟨acyclic_of_newer newer_start, rfl⟩, ?_⟩
    intro first isFirst
    cases isFirst
    refine ⟨⟨acyclic_of_newer (newer_start.loose 0 _), rfl, rfl⟩, ?_⟩
    intro second isSecond
    cases isSecond
    refine ⟨⟨acyclic_of_newer ((newer_start.loose 0 _).inside 0 0 Nat.zero_lt_one), rfl, rfl⟩, ?_⟩
    intro third isThird
    cases isThird
  · rintro ⟨first, isFirst, _, _, second, isSecond, _, _, third, isThird, _⟩
    cases isFirst
    cases isSecond
    cases isThird

end AC97Kernel.Shared
