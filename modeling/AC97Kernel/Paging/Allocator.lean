/-
The frame allocator and its callers.

The callers ask for frames, give back frames they hold and store anything into
them, the first word included, where a free frame keeps its link.  The result is
about every sequence of such requests that starts with `init`.
-/

import AC97Kernel.Library.StepMachine
import AC97Kernel.Paging.Frames
import Mathlib.Data.List.Nodup

set_option autoImplicit false

namespace AC97Kernel.PhysMem

/-- The memory and the frames that the callers have got and not given back. -/
structure Callers where
  mem : PhysMem
  holding : List Nat

inductive Request where
  | allocFrame
  | deallocFrame (frame : Nat)
  | write (frame : Nat) (words : Nat → Nat)

namespace Callers

def allowed (callers : Callers) : Request → Prop
  | .allocFrame => True
  | .deallocFrame frame => frame ∈ callers.holding
  | .write frame _ => frame ∈ callers.holding

instance (callers : Callers) (request : Request) : Decidable (callers.allowed request) := by
  cases request <;> unfold allowed <;> infer_instance

def step (callers : Callers) : Request → Option Callers
  | .allocFrame =>
      callers.mem.allocFrame.map fun (mem, frame) =>
        { mem := mem, holding := frame :: callers.holding }
  | .deallocFrame frame =>
      (callers.mem.deallocFrame frame).map fun mem =>
        { mem := mem, holding := callers.holding.erase frame }
  | .write frame words =>
      some
        { callers with
          mem := { callers.mem with
            frames := Function.update callers.mem.frames frame words } }

def machine : StepMachine Callers Request :=
  { allowed := allowed
    step := step }

instance (callers : Callers) (request : Request) : Decidable (machine.allowed callers request) :=
  inferInstanceAs (Decidable (callers.allowed request))

/-- The allocator over `[start, limit)` is sound, and the frames that are out are
those the callers hold. -/
structure Kept (start limit : Nat) (callers : Callers) (free : List Nat) : Prop where
  sound : callers.mem.Sound start free
  limit : callers.mem.limit = limit
  distinct : callers.holding.Nodup
  held : ∀ frame, frame ∈ callers.holding ↔ callers.mem.Outstanding start free frame

variable {start limit frame : Nat} {callers : Callers} {mem : PhysMem} {free : List Nat}

namespace Kept

theorem alloc (kept : Kept start limit callers free)
    (allocated : callers.mem.allocFrame = some (mem, frame)) :
    ∃ left, Allocated start callers.mem free mem frame left ∧
      Kept start limit { mem := mem, holding := frame :: callers.holding } left := by
  obtain ⟨left, facts⟩ := kept.sound.alloc allocated
  refine ⟨left, facts, ?_⟩
  constructor
  · exact facts.sound
  · exact facts.limit.trans kept.limit
  · exact List.nodup_cons.mpr ⟨fun held => facts.fresh ((kept.held frame).mp held), kept.distinct⟩
  · intro other
    rw [List.mem_cons, kept.held, facts.outstanding]
    exact or_comm

theorem dealloc (kept : Kept start limit callers free) (held : frame ∈ callers.holding) :
    ∃ mem, callers.mem.deallocFrame frame = some mem ∧
      Deallocated start callers.mem free mem frame ∧
      Kept start limit { mem := mem, holding := callers.holding.erase frame } (frame :: free) := by
  obtain ⟨mem, released, facts⟩ := kept.sound.dealloc ((kept.held frame).mp held)
  refine ⟨mem, released, facts, ?_⟩
  constructor
  · exact facts.sound
  · exact facts.limit.trans kept.limit
  · exact kept.distinct.erase frame
  · intro other
    rw [kept.distinct.mem_erase_iff, kept.held, facts.outstanding]
    exact and_comm

/-- A caller's store never reaches the link of a free frame. -/
theorem write (kept : Kept start limit callers free) (held : frame ∈ callers.holding)
    (words : Nat → Nat) :
    Kept start limit
      { callers with
        mem := { callers.mem with
          frames := Function.update callers.mem.frames frame words } } free := by
  have notFree := ((kept.held frame).mp held).2
  constructor
  · refine Sound.congr kept.sound rfl rfl rfl ?_
    intro other member
    have different : other ≠ frame := fun same => notFree (same ▸ member)
    exact congrFun (Function.update_of_ne different _ _) 0
  · exact kept.limit
  · exact kept.distinct
  · intro other
    exact (kept.held other).trans (outstanding_congr rfl other).symm

theorem step (kept : Kept start limit callers free) {request : Request} {next : Callers}
    (permitted : callers.allowed request) (stepped : callers.step request = some next) :
    ∃ left, Kept start limit next left := by
  cases request with
  | allocFrame =>
      obtain ⟨⟨mem, frame⟩, allocated, result⟩ := Option.map_eq_some_iff.mp stepped
      subst result
      obtain ⟨left, _, keptNext⟩ := kept.alloc allocated
      exact ⟨left, keptNext⟩
  | deallocFrame frame =>
      obtain ⟨mem, released, _, keptNext⟩ := kept.dealloc permitted
      simp only [Callers.step, released, Option.map_some, Option.some.injEq] at stepped
      subst stepped
      exact ⟨frame :: free, keptNext⟩
  | write frame words =>
      cases stepped
      exact ⟨free, kept.write permitted words⟩

end Kept

/-- The frames of a range, in order. -/
def framesFrom (start count : Nat) : List Nat :=
  (List.range count).map fun index => start + index * frameSize

theorem mem_framesFrom {start count frame : Nat} (aligned : start % 4096 = 0) :
    frame ∈ framesFrom start count ↔
      start ≤ frame ∧ frame < start + count * 4096 ∧ frame % 4096 = 0 := by
  simp only [framesFrom, frameSize, List.mem_map, List.mem_range]
  constructor
  · intro listed
    obtain ⟨index, inside, same⟩ := listed
    omega
  · intro inside
    exact ⟨(frame - start) / 4096, by omega, by omega⟩

theorem framesFrom_nodup (start count : Nat) : (framesFrom start count).Nodup := by
  apply List.Nodup.map _ List.nodup_range
  intro left right same
  simp only [frameSize] at same
  omega

/-- What the callers may rely on. -/
structure Serves (start size : Nat) (callers : Callers) : Prop where
  fresh : ∀ mem frame, callers.mem.allocFrame = some (mem, frame) →
    frame % 4096 = 0 ∧ start ≤ frame ∧ frame + 4096 ≤ start + size ∧
      frame ∉ callers.holding ∧ ∀ index, mem.frames frame index = 0
  exhausted : callers.mem.allocFrame = none →
    callers.holding.length = size / 4096 ∧
      ∀ frame, start ≤ frame → frame < start + size → frame % 4096 = 0 → frame ∈ callers.holding
  distinct : callers.holding.Nodup
  allocFrame : ∀ mem frame, callers.mem.allocFrame = some (mem, frame) →
    ∀ other ∈ callers.holding, mem.frames other = callers.mem.frames other
  deallocFrame : ∀ frame ∈ callers.holding, ∃ mem, callers.mem.deallocFrame frame = some mem ∧
    ∀ other ∈ callers.holding, other ≠ frame → mem.frames other = callers.mem.frames other

namespace Kept

/-- The allocator gives up only when the whole range is out. -/
theorem exhausted {size : Nat} (kept : Kept start (start + size) callers free)
    (sizeAligned : size % 4096 = 0) (failed : callers.mem.allocFrame = none) :
    callers.holding.Perm (framesFrom start (size / 4096)) := by
  have full : free = [] ∧ callers.mem.avail = callers.mem.limit := by
    by_contra room
    have notFull : free ≠ [] ∨ callers.mem.avail ≠ callers.mem.limit := by
      by_cases empty : free = []
      · exact Or.inr fun same => room ⟨empty, same⟩
      · exact Or.inl empty
    obtain ⟨mem, frame, left, allocated, _⟩ := kept.sound.alloc_total notFull
    rw [failed] at allocated
    cases allocated
  obtain ⟨noneFree, reached⟩ := full
  subst noneFree
  rw [List.perm_ext_iff_of_nodup kept.distinct (framesFrom_nodup start (size / 4096))]
  intro frame
  rw [kept.held, mem_framesFrom kept.sound.startAligned, Outstanding, HandedOut, reached,
    kept.limit, Nat.div_mul_cancel (Nat.dvd_of_mod_eq_zero sizeAligned)]
  exact and_iff_left List.not_mem_nil

theorem serves {size : Nat} (kept : Kept start (start + size) callers free)
    (sizeAligned : size % 4096 = 0) : Serves start size callers := by
  constructor
  · intro mem frame allocated
    obtain ⟨left, facts, keptNext⟩ := kept.alloc allocated
    obtain ⟨above, below, aligned⟩ := facts.out
    have bound := facts.sound.availBelow
    have availAligned := facts.sound.availAligned
    have limit : mem.limit = start + size := keptNext.limit
    refine ⟨aligned, above, by omega, ?_, ?_⟩
    · intro held
      exact facts.fresh ((kept.held frame).mp held)
    · intro index
      rw [facts.frames, Function.update_self]
  · intro failed
    have listed := kept.exhausted sizeAligned failed
    constructor
    · rw [listed.length_eq, framesFrom, List.length_map, List.length_range]
    · intro frame above below aligned
      rw [listed.mem_iff, mem_framesFrom kept.sound.startAligned]
      omega
  · exact kept.distinct
  · intro mem frame allocated other held
    obtain ⟨left, facts, _⟩ := kept.alloc allocated
    have different : other ≠ frame :=
      fun same => facts.fresh ((kept.held frame).mp (same ▸ held))
    rw [facts.frames, Function.update_of_ne different]
  · intro frame held
    obtain ⟨mem, released, facts, _⟩ := kept.dealloc held
    exact ⟨mem, released, fun other _ different => facts.frames other different⟩

end Kept

theorem init_kept {frames : Nat → Nat → Nat} {size : Nat}
    (started : init frames start size = some mem) (startReal : 0 < start)
    (word : start + size < 2 ^ 32) :
    Kept start (start + size) { mem := mem, holding := [] } [] := by
  obtain ⟨sound, limit, avail⟩ := init_sound started startReal word
  constructor
  · exact sound
  · exact limit
  · exact List.nodup_nil
  · intro frame
    simp only [List.not_mem_nil, false_iff]
    intro outstanding
    have below := outstanding.1.2.1
    have above := outstanding.1.1
    simp only [avail] at below
    omega

/-- Whatever the callers did since `init`, a frame they get is a clean one of the
range that nobody holds, the allocator gives up only when they hold all of them,
and neither operation touches what they hold. -/
theorem frame_allocator_serves (frames : Nat → Nat → Nat) (start size : Nat)
    (startAligned : start % 4096 = 0) (sizeAligned : size % 4096 = 0) (startReal : 0 < start)
    (word : start + size < 2 ^ 32) :
    ∃ mem, init frames start size = some mem ∧
      ∀ callers, machine.Reached { mem := mem, holding := [] } callers →
        Serves start size callers := by
  have started : init frames start size = some
      { frames := frames
        firstFree := 0
        avail := start
        limit := (start + size) % 2 ^ 32 } := by
    rw [init, offset_eq, offset_eq, if_pos ⟨startAligned, sizeAligned⟩]
  refine ⟨_, started, ?_⟩
  intro callers reached
  obtain ⟨free, kept⟩ := reached.preserves
    (fun callers => ∃ free, Kept start (start + size) callers free)
    (by
      intro before request after invariant permitted stepped
      obtain ⟨free, kept⟩ := invariant
      exact kept.step permitted stepped)
    ⟨[], init_kept started startReal word⟩
  exact kept.serves sizeAligned

/-- A frame is scribbled over, given back and asked for again. -/
def sampleRequests : List Request :=
  [.allocFrame, .write 0x1000 (fun _ => 5), .deallocFrame 0x1000, .allocFrame]

private theorem sampleRequests_come_back :
    ∀ mem ∈ init (fun _ _ => 7) 0x1000 0x2000,
      machine.Lawful { mem := mem, holding := [] } sampleRequests ∧
        (machine.run { mem := mem, holding := [] } sampleRequests).isSome := by
  decide

theorem frame_allocator_serves_sample :
    ∃ mem callers, init (fun _ _ => 7) 0x1000 0x2000 = some mem ∧
      machine.run { mem := mem, holding := [] } sampleRequests = some callers ∧
      Serves 0x1000 0x2000 callers := by
  obtain ⟨mem, started, serves⟩ := frame_allocator_serves (fun _ _ => 7) 0x1000 0x2000
    (by decide) (by decide) (by decide) (by decide)
  obtain ⟨lawful, finished⟩ := sampleRequests_come_back mem started
  obtain ⟨callers, ran⟩ := Option.isSome_iff_exists.mp finished
  exact ⟨mem, callers, started, ran, serves callers ⟨sampleRequests, lawful, ran⟩⟩

end Callers

end AC97Kernel.PhysMem
