/-
Counts of the handles of kernel/shared.h.

While a cascade of destructors runs, the handles whose `drop` is under way no
longer count.  They are kept on a stack; the count of an object is the number of
the other handles that point to it.
-/

import AC97Kernel.Sync.Shared
import Mathlib.Data.Set.Finite.Basic

set_option autoImplicit false

namespace AC97Kernel.Shared

open Function Census

/-- The weight of a handle for the count of an object. -/
def points (object : Nat) (content : Option (Option Nat)) : Nat :=
  if content = some (some object) then 1 else 0

namespace Memory

/-- The number of live handles that point to the object. -/
noncomputable def handles (memory : Memory) (object : Nat) : Nat :=
  census (points object) memory.ptr

/-- The handles that count: those on the stack do not. -/
def counted (memory : Memory) (stack : List Handle) (handle : Handle) : Option (Option Nat) :=
  if handle ∈ stack then none else memory.ptr handle

noncomputable def pointing (memory : Memory) (stack : List Handle) (object : Nat) : Nat :=
  census (points object) (memory.counted stack)

theorem counted_nil (memory : Memory) : memory.counted [] = memory.ptr := rfl

theorem pointing_nil (memory : Memory) (object : Nat) :
    memory.pointing [] object = memory.handles object := rfl

theorem counted_cons (memory : Memory) (stack : List Handle) (handle : Handle) :
    memory.counted (handle :: stack) = update (memory.counted stack) handle none := by
  funext other
  unfold counted
  by_cases same : other = handle
  · subst same
    rw [update_self, if_pos List.mem_cons_self]
  · rw [update_of_ne same]
    simp only [List.mem_cons, same, false_or]

theorem counted_some {memory : Memory} {stack : List Handle} {handle : Handle}
    {content : Option Nat} (counts : memory.counted stack handle = some content) :
    handle ∉ stack ∧ memory.ptr handle = some content := by
  unfold counted at counts
  split at counts
  · cases counts
  · exact ⟨‹_›, counts⟩

theorem counted_of_not_mem {memory : Memory} {stack : List Handle} {handle : Handle}
    (outside : handle ∉ stack) : memory.counted stack handle = memory.ptr handle :=
  if_neg outside

/-! ### Writes -/

@[simp] theorem setCount_ptr (memory : Memory) (object : Nat) (count : Int) :
    (memory.setCount object count).ptr = memory.ptr := rfl

@[simp] theorem setPtr_refCount (memory : Memory) (handle : Handle) (value : Option Nat) :
    (memory.setPtr handle value).refCount = memory.refCount := rfl

theorem setCount_self (memory : Memory) (object : Nat) (count : Int) :
    (memory.setCount object count).refCount object = some count := update_self _ _ _

theorem setCount_other {memory : Memory} {object other : Nat} (different : other ≠ object)
    (count : Int) : (memory.setCount object count).refCount other = memory.refCount other :=
  update_of_ne different _ _

theorem setPtr_self (memory : Memory) (handle : Handle) (value : Option Nat) :
    (memory.setPtr handle value).ptr handle = some value := update_self _ _ _

theorem setPtr_other {memory : Memory} {handle other : Handle} (different : other ≠ handle)
    (value : Option Nat) : (memory.setPtr handle value).ptr other = memory.ptr other :=
  update_of_ne different _ _

theorem erase_self (memory : Memory) (object : Nat) :
    (memory.erase object).refCount object = none := update_self _ _ _

theorem erase_other {memory : Memory} {object other : Nat} (different : other ≠ object) :
    (memory.erase object).refCount other = memory.refCount other := update_of_ne different _ _

theorem occupy_self (memory : Memory) (handle : Handle) (value : Option Nat) :
    (memory.occupy handle value).ptr handle = some value := update_self _ _ _

theorem occupy_other {memory : Memory} {handle other : Handle} (different : other ≠ handle)
    (value : Option Nat) : (memory.occupy handle value).ptr other = memory.ptr other :=
  update_of_ne different _ _

theorem vacate_self (memory : Memory) (handle : Handle) :
    (memory.vacate handle).ptr handle = none := update_self _ _ _

theorem vacate_other {memory : Memory} {handle other : Handle} (different : other ≠ handle) :
    (memory.vacate handle).ptr other = memory.ptr other := update_of_ne different _ _

theorem counted_setPtr {memory : Memory} {stack : List Handle} {handle : Handle}
    (dropped : handle ∈ stack) (value : Option Nat) :
    (memory.setPtr handle value).counted stack = memory.counted stack := by
  funext other
  unfold counted
  by_cases same : other = handle
  · rw [same, if_pos dropped, if_pos dropped]
  · rw [setPtr_other same]

theorem counted_vacate (memory : Memory) (stack : List Handle) (handle : Handle) :
    (memory.vacate handle).counted stack = memory.counted (handle :: stack) := by
  funext other
  unfold counted
  by_cases same : other = handle
  · rw [same, if_pos List.mem_cons_self, vacate_self, ite_self]
  · rw [vacate_other same]
    simp only [List.mem_cons, same, false_or]

theorem live_setCount {memory : Memory} {object : Nat} (live : memory.Live object) (count : Int)
    (other : Nat) : (memory.setCount object count).Live other ↔ memory.Live other := by
  unfold Live
  by_cases same : other = object
  · rw [same, setCount_self]
    exact ⟨fun _ => live, fun _ => rfl⟩
  · rw [setCount_other same]

theorem there_setPtr {memory : Memory} {handle : Handle} (there : memory.There handle)
    (value : Option Nat) (other : Handle) :
    (memory.setPtr handle value).There other ↔ memory.There other := by
  unfold There
  by_cases same : other = handle
  · rw [same, setPtr_self]
    exact ⟨fun _ => there, fun _ => rfl⟩
  · rw [setPtr_other same]

end Memory

theorem points_none (object : Nat) : points object none = 0 := rfl

theorem points_eq_one (object : Nat) : points object (some (some object)) = 1 := if_pos rfl

theorem points_pos {object : Nat} {content : Option (Option Nat)}
    (positive : 0 < points object content) : content = some (some object) := by
  unfold points at positive
  split at positive
  · assumption
  · exact absurd positive (Nat.lt_irrefl 0)

theorem points_other {object other : Nat} (different : other ≠ object) :
    points other (some (some object)) = 0 :=
  if_neg fun same => different (by cases same; rfl)

namespace Memory

variable {memory : Memory} {stack : List Handle} {handle : Handle} {object : Nat}

theorem sparse_counted (sparse : Sparse none memory.ptr) (stack : List Handle) :
    Sparse none (memory.counted stack) := by
  apply sparse.subset
  intro other busy
  change memory.counted stack other ≠ none at busy
  change memory.ptr other ≠ none
  unfold counted at busy
  split at busy
  · exact absurd rfl busy
  · exact busy

/-- A handle that counts is one of the number. -/
theorem pointing_cons (sparse : Sparse none memory.ptr) (stack : List Handle) (handle : Handle)
    (object : Nat) :
    memory.pointing (handle :: stack) object + points object (memory.counted stack handle) =
      memory.pointing stack object := by
  unfold pointing
  rw [counted_cons]
  have moved := census_move (sparse_counted sparse stack) (points_none object) handle none
  rw [points_none] at moved
  exact moved

theorem pointing_pos (sparse : Sparse none memory.ptr)
    (counts : memory.counted stack handle = some (some object)) :
    0 < memory.pointing stack object := by
  have atLeast := le_census (sparse_counted sparse stack) (points_none object) handle
  rw [counts, points_eq_one] at atLeast
  exact atLeast

/-- Where the number is not zero, there is a handle. -/
theorem exists_pointing (positive : 0 < memory.pointing stack object) :
    ∃ handle, memory.counted stack handle = some (some object) := by
  by_contra nobody
  have zero : memory.pointing stack object = 0 := by
    apply census_zero
    intro other
    by_contra heavy
    exact nobody ⟨other, points_pos (Nat.pos_of_ne_zero heavy)⟩
  omega

theorem exists_handle (positive : 0 < memory.handles object) :
    ∃ handle, memory.ptr handle = some (some object) := by
  rw [← pointing_nil] at positive
  exact exists_pointing positive

theorem counted_of_cons {content : Option Nat} {other : Handle}
    (there : memory.counted (handle :: stack) other = some content) :
    other ≠ handle ∧ memory.counted stack other = some content := by
  rw [counted_cons] at there
  by_cases same : other = handle
  · rw [same, update_self] at there
    cases there
  · rw [update_of_ne same] at there
    exact ⟨same, there⟩

theorem counted_cons_of_ne {other : Handle} (different : other ≠ handle) :
    memory.counted (handle :: stack) other = memory.counted stack other := by
  rw [counted_cons, update_of_ne different]

theorem live_of_count {count : Int} (present : memory.refCount object = some count) :
    memory.Live object := by
  unfold Live
  rw [present]
  rfl

theorem count_of_live (live : memory.Live object) :
    ∃ count, memory.refCount object = some count := Option.isSome_iff_exists.mp live

/-- The handle was the last one of its object. -/
def Last (memory : Memory) : Handle → Prop
  | .loose _ => True
  | .inside object index => memory.members object = index + 1

end Memory

/-- What holds of the memory when the handles on the stack do not count. -/
structure Sound (stack : List Handle) (memory : Memory) : Prop where
  counts : ∀ object count, memory.refCount object = some count →
    count = (memory.pointing stack object : Int)
  targets : ∀ handle object, memory.counted stack handle = some (some object) → memory.Live object
  members : ∀ object index,
    memory.There (.inside object index) ↔ memory.Live object ∧ index < memory.members object
  sparse : Sparse none memory.ptr
  known : ∀ object, memory.Live object → object < memory.made
  deleted : ∀ object, object ∈ memory.deleted ↔ object < memory.made ∧ ¬ memory.Live object
  once : memory.deleted.Nodup

namespace Sound

variable {stack newStack : List Handle} {memory : Memory} {handle : Handle} {object : Nat}

/-- The count of one object is written, and is right for the new stack. -/
theorem recount (sound : Sound stack memory) {newCount : Int} (live : memory.Live object)
    (targets : ∀ handle target, memory.counted newStack handle = some (some target) →
      memory.Live target)
    (same : ∀ other, other ≠ object →
      memory.pointing newStack other = memory.pointing stack other)
    (right : newCount = (memory.pointing newStack object : Int)) :
    Sound newStack (memory.setCount object newCount) := by
  have sameLive := Memory.live_setCount live newCount
  refine
    { counts := ?_
      targets := fun other target at_ => (sameLive target).mpr (targets other target at_)
      members := ?_
      sparse := sound.sparse
      known := fun other at_ => sound.known other ((sameLive other).mp at_)
      deleted := ?_
      once := sound.once }
  · intro other count present
    by_cases isObject : other = object
    · rw [isObject, Memory.setCount_self] at present
      cases present
      rw [isObject]
      exact right
    · rw [Memory.setCount_other isObject] at present
      rw [sound.counts other count present]
      exact congrArg Nat.cast (same other isObject).symm
  · intro other index
    rw [sameLive]
    exact sound.members other index
  · intro other
    rw [sameLive]
    exact sound.deleted other

/-- Handles are written, and no number changes. -/
theorem rewire (sound : Sound stack memory) (other : Memory)
    (sameCount : other.refCount = memory.refCount) (sameMade : other.made = memory.made)
    (sameDeleted : other.deleted = memory.deleted) (sparse : Sparse none other.ptr)
    (sameNumber : ∀ object, other.pointing newStack object = memory.pointing stack object)
    (targets : ∀ handle object, other.counted newStack handle = some (some object) →
      memory.Live object)
    (members : ∀ object index,
      other.There (.inside object index) ↔ memory.Live object ∧ index < other.members object) :
    Sound newStack other := by
  have sameLive : ∀ object, other.Live object ↔ memory.Live object := by
    intro object
    unfold Memory.Live
    rw [sameCount]
  refine
    { counts := ?_
      targets := fun handle object at_ => (sameLive object).mpr (targets handle object at_)
      members := ?_
      sparse := sparse
      known := ?_
      deleted := ?_
      once := sameDeleted ▸ sound.once }
  · intro object count present
    rw [sameCount] at present
    rw [sound.counts object count present, sameNumber]
  · intro object index
    rw [sameLive]
    exact members object index
  · intro object live
    rw [sameMade]
    exact sound.known object ((sameLive object).mp live)
  · intro object
    rw [sameDeleted, sameMade, sameLive]
    exact sound.deleted object

/-- Handles are written, and those that count are as before. -/
theorem rewire_same (sound : Sound stack memory) (other : Memory)
    (sameCount : other.refCount = memory.refCount) (sameMade : other.made = memory.made)
    (sameDeleted : other.deleted = memory.deleted) (sparse : Sparse none other.ptr)
    (same : other.counted newStack = memory.counted stack)
    (members : ∀ object index,
      other.There (.inside object index) ↔ memory.Live object ∧ index < other.members object) :
    Sound newStack other := by
  apply sound.rewire other sameCount sameMade sameDeleted sparse
  · intro object
    unfold Memory.pointing
    rw [same]
  · intro handle object at_
    rw [same] at at_
    exact sound.targets handle object at_
  · exact members

/-! ### The number goes down and up -/

/-- A handle is dropped: it counts no more. -/
theorem enter (sound : Sound stack memory) (outside : handle ∉ stack)
    (at_ : memory.ptr handle = some (some object)) {count : Int}
    (present : memory.refCount object = some count) :
    Sound (handle :: stack) (memory.setCount object (count + -1)) := by
  have content : memory.counted stack handle = some (some object) :=
    (Memory.counted_of_not_mem outside).trans at_
  have fewer := Memory.pointing_cons sound.sparse stack handle
  apply sound.recount (Memory.live_of_count present)
  · intro other target there
    exact sound.targets other target (Memory.counted_of_cons there).2
  · intro other different
    have step := fewer other
    rw [content, points_other different] at step
    exact step
  · have step := fewer object
    have before := sound.counts object count present
    rw [content, points_eq_one] at step
    omega

/-- A handle counts again. -/
theorem leave (sound : Sound (handle :: stack) memory) (outside : handle ∉ stack)
    (at_ : memory.ptr handle = some (some object)) {count : Int}
    (present : memory.refCount object = some count) :
    Sound stack (memory.setCount object (count + 1)) := by
  have content : memory.counted stack handle = some (some object) :=
    (Memory.counted_of_not_mem outside).trans at_
  have more := Memory.pointing_cons sound.sparse stack handle
  apply sound.recount (Memory.live_of_count present)
  · intro other target there
    by_cases same : other = handle
    · rw [same, content] at there
      cases there
      exact Memory.live_of_count present
    · rw [← Memory.counted_cons_of_ne same] at there
      exact sound.targets other target there
  · intro other different
    have step := more other
    rw [content, points_other different] at step
    exact step.symm
  · have step := more object
    have before := sound.counts object count present
    rw [content, points_eq_one] at step
    omega

private theorem points_null (at_ : memory.ptr handle = some none) (stack : List Handle)
    (object : Nat) : points object (memory.counted stack handle) = 0 := by
  unfold Memory.counted
  split
  · rfl
  · rw [at_]
    rfl

theorem enter_null (sound : Sound stack memory) (at_ : memory.ptr handle = some none) :
    Sound (handle :: stack) memory := by
  apply sound.rewire memory rfl rfl rfl sound.sparse
  · intro object
    have step := Memory.pointing_cons sound.sparse stack handle object
    rw [points_null at_] at step
    exact step
  · intro other object there
    exact sound.targets other object (Memory.counted_of_cons there).2
  · exact sound.members

theorem leave_null (sound : Sound (handle :: stack) memory)
    (at_ : memory.ptr handle = some none) : Sound stack memory := by
  apply sound.rewire memory rfl rfl rfl sound.sparse
  · intro object
    have step := Memory.pointing_cons sound.sparse stack handle object
    rw [points_null at_] at step
    exact step.symm
  · intro other object there
    by_cases same : other = handle
    · rw [same] at there
      have content := (Memory.counted_some there).2
      rw [at_] at content
      cases content
    · rw [← Memory.counted_cons_of_ne same] at there
      exact sound.targets other object there
  · exact sound.members

/-! ### Handles come and go -/

theorem setPtr (sound : Sound stack memory) (dropped : handle ∈ stack)
    (there : memory.There handle) (value : Option Nat) :
    Sound stack (memory.setPtr handle value) := by
  apply sound.rewire_same (memory.setPtr handle value) rfl rfl rfl (sound.sparse.move handle _)
  · exact Memory.counted_setPtr dropped value
  · intro object index
    rw [Memory.there_setPtr there]
    exact sound.members object index

theorem vacant_ptr (sound : Sound stack memory) (vacant : memory.Vacant handle) :
    memory.ptr handle = none := by
  cases handle with
  | loose name => exact vacant
  | inside object index =>
      have absent : ¬ memory.There (.inside object index) := by
        intro there
        have below := ((sound.members object index).mp there).2
        exact absurd vacant.2 (Nat.ne_of_lt below)
      exact Option.not_isSome_iff_eq_none.mp absent

theorem occupy (sound : Sound stack memory) (vacant : memory.Vacant handle)
    (value : Option Nat) : Sound (handle :: stack) (memory.occupy handle value) := by
  have before := sound.vacant_ptr vacant
  apply sound.rewire_same (memory.occupy handle value) rfl rfl rfl (sound.sparse.move handle _)
  · funext other
    by_cases same : other = handle
    · rw [same]
      unfold Memory.counted
      rw [if_pos List.mem_cons_self, before, ite_self]
    · rw [Memory.counted_cons_of_ne same]
      unfold Memory.counted
      rw [Memory.occupy_other same]
  · intro object index
    cases handle with
    | loose name => exact sound.members object index
    | inside holder last =>
        obtain ⟨live, isNext⟩ := vacant
        unfold Memory.There
        change _ ↔ memory.Live object ∧ index < update memory.members holder (last + 1) object
        by_cases sameObject : object = holder
        · rw [sameObject, update_self]
          by_cases sameIndex : index = last
          · rw [sameIndex, Memory.occupy_self]
            exact ⟨fun _ => ⟨live, Nat.lt_succ_self last⟩, fun _ => rfl⟩
          · rw [Memory.occupy_other (by simpa using sameIndex)]
            have known := sound.members holder index
            unfold Memory.There at known
            rw [known]
            constructor <;> intro both <;> exact ⟨both.1, by omega⟩
        · rw [update_of_ne sameObject, Memory.occupy_other (by simp [sameObject])]
          exact sound.members object index

theorem vacate (sound : Sound (handle :: stack) memory) (last : memory.Last handle) :
    Sound stack (memory.vacate handle) := by
  apply sound.rewire_same (memory.vacate handle) rfl rfl rfl (sound.sparse.move handle _)
  · exact Memory.counted_vacate memory stack handle
  · intro object index
    cases handle with
    | loose name => exact sound.members object index
    | inside holder lastIndex =>
        unfold Memory.There
        change _ ↔ memory.Live object ∧ index < update memory.members holder lastIndex object
        have known := sound.members object index
        unfold Memory.There at known
        by_cases sameObject : object = holder
        · subst sameObject
          have members : memory.members object = lastIndex + 1 := last
          rw [update_self]
          by_cases sameIndex : index = lastIndex
          · rw [sameIndex, Memory.vacate_self]
            exact ⟨fun impossible => absurd impossible Bool.false_ne_true,
              fun impossible => absurd impossible.2 (Nat.lt_irrefl _)⟩
          · rw [Memory.vacate_other (by simpa using sameIndex), known, members]
            constructor <;> intro both <;> exact ⟨both.1, by omega⟩
        · rw [update_of_ne sameObject, Memory.vacate_other (by simp [sameObject])]
          exact known

/-- An object that no handle points to and that has no members left goes. -/
theorem erase (sound : Sound stack memory) (live : memory.Live object)
    (nobody : ∀ handle, memory.counted stack handle ≠ some (some object))
    (empty : memory.members object = 0) : Sound stack (memory.erase object) := by
  have gone : ¬ (memory.erase object).Live object := by
    unfold Memory.Live
    rw [Memory.erase_self]
    exact Bool.false_ne_true
  have others : ∀ other, other ≠ object →
      ((memory.erase object).Live other ↔ memory.Live other) := by
    intro other different
    unfold Memory.Live
    rw [Memory.erase_other different]
  constructor
  · intro other count present
    by_cases same : other = object
    · rw [same, Memory.erase_self] at present
      cases present
    · rw [Memory.erase_other same] at present
      exact sound.counts other count present
  · intro handle other there
    have different : other ≠ object := by
      intro same
      subst same
      exact nobody handle there
    exact (others other different).mpr (sound.targets handle other there)
  · intro other index
    by_cases same : other = object
    · subst same
      constructor
      · intro there
        have below := ((sound.members other index).mp there).2
        omega
      · intro impossible
        exact absurd impossible.1 gone
    · rw [others other same]
      exact sound.members other index
  · exact sound.sparse
  · intro other present
    by_cases same : other = object
    · subst same
      exact absurd present gone
    · exact sound.known other ((others other same).mp present)
  · intro other
    change other ∈ object :: memory.deleted ↔ other < memory.made ∧ _
    rw [List.mem_cons]
    by_cases same : other = object
    · subst same
      exact ⟨fun _ => ⟨sound.known other live, gone⟩, fun _ => .inl rfl⟩
    · rw [others other same, sound.deleted other]
      exact ⟨fun either => either.resolve_left same, .inr⟩
  · refine List.nodup_cons.mpr ⟨?_, sound.once⟩
    intro before
    exact ((sound.deleted object).mp before).2 live

/-- What one handle points to goes over to another that did not count. -/
theorem transfer (sound : Sound [handle] memory) (there : memory.There handle) {rhs : Handle}
    (different : rhs ≠ handle) {value : Option Nat} (source : memory.ptr rhs = some value) :
    Sound [] ((memory.setPtr handle value).setPtr rhs none) := by
  have moved : Sound [rhs] (memory.setPtr handle value) := by
    have before : memory.counted [handle] = update memory.ptr handle none :=
      Memory.counted_cons memory [] handle
    have after : (memory.setPtr handle value).counted [rhs] =
        update (update (update memory.ptr rhs none) handle none) handle (some value) := by
      rw [Memory.counted_cons, Memory.counted_nil]
      unfold Memory.setPtr
      rw [update_idem, update_comm different]
    have sparseRest : Sparse none (update (update memory.ptr rhs none) handle none) :=
      (sound.sparse.move rhs none).move handle none
    apply sound.rewire (memory.setPtr handle value) rfl rfl rfl (sound.sparse.move handle _)
    · intro object
      unfold Memory.pointing
      have gained := census_move sparseRest (points_none object) handle (some value)
      have lost := census_move (sound.sparse.move handle none) (points_none object) rhs none
      rw [update_self, points_none] at gained
      rw [update_of_ne different, source, points_none, update_comm different.symm] at lost
      rw [after, before]
      omega
    · intro other object at_
      rw [after] at at_
      by_cases same : other = handle
      · rw [same, update_self] at at_
        apply sound.targets rhs object
        rw [Memory.counted_cons_of_ne different, Memory.counted_nil, source]
        exact at_
      · rw [update_of_ne same, update_of_ne same] at at_
        by_cases isSource : other = rhs
        · rw [isSource, update_self] at at_
          cases at_
        · rw [update_of_ne isSource] at at_
          apply sound.targets other object
          rw [Memory.counted_cons_of_ne same, Memory.counted_nil]
          exact at_
    · intro object index
      rw [Memory.there_setPtr there]
      exact sound.members object index
  have sourceThere : (memory.setPtr handle value).There rhs := by
    unfold Memory.There
    rw [Memory.setPtr_other different, source]
    rfl
  exact (moved.setPtr List.mem_cons_self sourceThere none).leave_null (Memory.setPtr_self _ _ _)

/-- A new object has no handles yet, and nothing points to it. -/
theorem new (sound : Sound [] memory) : Sound [] memory.new := by
  have fresh : ¬ memory.Live memory.made := fun live =>
    absurd (sound.known _ live) (Nat.lt_irrefl _)
  have atNew : memory.new.refCount memory.made = some 0 := update_self _ _ _
  have others : ∀ object, object ≠ memory.made →
      memory.new.refCount object = memory.refCount object :=
    fun object different => update_of_ne different _ _
  have live : ∀ object,
      memory.new.Live object ↔ object = memory.made ∨ memory.Live object := by
    intro object
    unfold Memory.Live
    by_cases same : object = memory.made
    · rw [same, atNew]
      exact ⟨fun _ => .inl rfl, fun _ => rfl⟩
    · rw [others object same]
      exact ⟨.inr, fun either => either.resolve_left same⟩
  constructor
  · intro object count present
    by_cases same : object = memory.made
    · subst same
      rw [atNew] at present
      cases present
      by_contra some_
      obtain ⟨handle, at_⟩ := Memory.exists_pointing
        (Nat.pos_of_ne_zero (fun zero => some_ (congrArg Nat.cast zero.symm)))
      exact fresh (sound.targets handle _ at_)
    · rw [others object same] at present
      exact sound.counts object count present
  · intro handle object at_
    exact (live object).mpr (.inr (sound.targets handle object at_))
  · intro object index
    change memory.There (.inside object index) ↔
      _ ∧ index < update memory.members memory.made 0 object
    rw [live, sound.members object index]
    by_cases same : object = memory.made
    · subst same
      rw [update_self]
      exact ⟨fun both => absurd both.1 fresh, fun both => absurd both.2 (Nat.not_lt_zero _)⟩
    · rw [update_of_ne same]
      exact ⟨fun both => ⟨.inr both.1, both.2⟩,
        fun both => ⟨both.1.resolve_left same, both.2⟩⟩
  · exact sound.sparse
  · intro object present
    change object < memory.made + 1
    rcases (live object).mp present with same | before
    · omega
    · have below := sound.known object before
      omega
  · intro object
    change object ∈ memory.deleted ↔ object < memory.made + 1 ∧ _
    rw [live, sound.deleted object]
    constructor
    · intro both
      exact ⟨by omega, fun either => either.elim (by omega) both.2⟩
    · intro both
      have different : object ≠ memory.made := fun same => both.2 (.inl same)
      exact ⟨by omega, fun before => both.2 (.inr before)⟩
  · exact sound.once

end Sound

theorem start_sound : Sound [] start where
  counts := fun _ _ present => nomatch present
  targets := fun _ _ at_ => nomatch at_
  members := fun _ _ => ⟨fun impossible => absurd impossible Bool.false_ne_true,
    fun impossible => absurd impossible.2 (Nat.not_lt_zero _)⟩
  sparse := sparse_rest none
  known := fun _ present => absurd present Bool.false_ne_true
  deleted := fun _ => ⟨fun impossible => absurd impossible List.not_mem_nil,
    fun impossible => absurd impossible.1 (Nat.not_lt_zero _)⟩
  once := List.nodup_nil

end AC97Kernel.Shared
