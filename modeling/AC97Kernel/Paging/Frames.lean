/-
The frame allocator.

Free frames are chained through their first words; the frames above `avail`
have never been handed out.  An outstanding frame is one that was handed out
and is not on the chain.
-/

import AC97Kernel.Library.LinkedChain
import AC97Kernel.Paging.Entries

set_option autoImplicit false

namespace AC97Kernel.PhysMem

open LinkedChain

def HandedOut (start : Nat) (mem : PhysMem) (frame : Nat) : Prop :=
  start ≤ frame ∧ frame < mem.avail ∧ frame % 4096 = 0

/-- Following `next` from `firstFree` visits the frames of `free` and ends at null. -/
def FreeList (mem : PhysMem) (free : List Nat) : Prop :=
  Segment (fun frame => mem.frames frame 0) mem.firstFree free 0

def Outstanding (start : Nat) (mem : PhysMem) (free : List Nat) (frame : Nat) : Prop :=
  HandedOut start mem frame ∧ frame ∉ free

structure Sound (start : Nat) (mem : PhysMem) (free : List Nat) : Prop where
  chain : mem.FreeList free
  distinct : free.Nodup
  known : ∀ frame ∈ free, HandedOut start mem frame
  startReal : 0 < start
  startAligned : start % 4096 = 0
  availAligned : mem.avail % 4096 = 0
  limitAligned : mem.limit % 4096 = 0
  availAbove : start ≤ mem.avail
  availBelow : mem.avail ≤ mem.limit
  limitWord : mem.limit < 2 ^ 32

variable {start frame : Nat} {mem next : PhysMem} {free : List Nat}

theorem HandedOut.real (out : HandedOut start mem frame) (startReal : 0 < start) : frame ≠ 0 := by
  have lower := out.1
  omega

theorem Sound.word (sound : Sound start mem free) (out : HandedOut start mem frame) :
    frame < 2 ^ 32 := by
  have below := sound.availBelow
  have word := sound.limitWord
  have inside := out.2.1
  omega

/-- Only the first words of free frames and the two bounds matter. -/
theorem Sound.congr (sound : Sound start mem free) (sameFirst : next.firstFree = mem.firstFree)
    (sameAvail : next.avail = mem.avail) (sameLimit : next.limit = mem.limit)
    (sameFree : ∀ frame ∈ free, next.frames frame 0 = mem.frames frame 0) :
    Sound start next free := by
  constructor
  · unfold FreeList
    rw [sameFirst]
    exact Segment.congr sound.chain sameFree
  · exact sound.distinct
  · intro frame member
    obtain ⟨lower, upper, aligned⟩ := sound.known frame member
    exact ⟨lower, sameAvail ▸ upper, aligned⟩
  · exact sound.startReal
  · exact sound.startAligned
  · exact sameAvail ▸ sound.availAligned
  · exact sameLimit ▸ sound.limitAligned
  · exact sameAvail ▸ sound.availAbove
  · rw [sameAvail, sameLimit]
    exact sound.availBelow
  · exact sameLimit ▸ sound.limitWord

theorem outstanding_congr (sameAvail : next.avail = mem.avail) (frame : Nat) :
    Outstanding start next free frame ↔ Outstanding start mem free frame := by
  unfold Outstanding HandedOut
  rw [sameAvail]

/-- What `alloc_frame` has done when it returns `frame`; `left` are the frames
still free. -/
structure Allocated (start : Nat) (mem : PhysMem) (free : List Nat) (next : PhysMem)
    (frame : Nat) (left : List Nat) : Prop where
  sound : Sound start next left
  frames : next.frames = Function.update mem.frames frame (fun _ => 0)
  limit : next.limit = mem.limit
  fresh : ¬ Outstanding start mem free frame
  out : HandedOut start next frame
  outstanding : ∀ other, Outstanding start next left other ↔
    Outstanding start mem free other ∨ other = frame
  source : free = frame :: left ∨ free = [] ∧ left = [] ∧ frame = mem.avail

private theorem Sound.alloc_listed {rest : List Nat} (sound : Sound start mem (frame :: rest)) :
    ∃ next, mem.allocFrame = some (next, frame) ∧
      Allocated start mem (frame :: rest) next frame rest := by
  have headIs : mem.firstFree = frame := sound.chain.1
  have out := sound.known frame List.mem_cons_self
  have real := out.real sound.startReal
  obtain ⟨absent, restDistinct⟩ := List.nodup_cons.mp sound.distinct
  refine ⟨({ mem with firstFree := mem.frames frame 0 } : PhysMem).bzero frame, ?_, ?_⟩
  · have aligned : offset frame = 0 := (offset_eq frame).trans out.2.2
    simp only [allocFrame, headIs, ne_eq, real, not_false_eq_true, if_true, Option.bind_some,
      aligned]
  · constructor
    · constructor
      · refine Segment.congr sound.chain.2 ?_
        intro other member
        have different : other ≠ frame := fun same => absent (same ▸ member)
        exact congrFun (Function.update_of_ne different _ _) 0
      · exact restDistinct
      · intro other member
        exact sound.known other (List.mem_cons_of_mem frame member)
      · exact sound.startReal
      · exact sound.startAligned
      · exact sound.availAligned
      · exact sound.limitAligned
      · exact sound.availAbove
      · exact sound.availBelow
      · exact sound.limitWord
    · rfl
    · rfl
    · intro outstanding
      exact outstanding.2 List.mem_cons_self
    · exact out
    · intro other
      constructor
      · intro outstanding
        by_cases same : other = frame
        · exact Or.inr same
        · refine Or.inl ⟨outstanding.1, ?_⟩
          intro member
          exact outstanding.2 ((List.mem_cons.mp member).resolve_left same)
      · intro source
        rcases source with outstanding | same
        · exact ⟨outstanding.1, fun member =>
            outstanding.2 (List.mem_cons_of_mem frame member)⟩
        · subst same
          exact ⟨out, absent⟩
    · exact Or.inl rfl

private theorem Sound.alloc_bumped (sound : Sound start mem []) (room : mem.avail ≠ mem.limit) :
    ∃ next, mem.allocFrame = some (next, mem.avail) ∧
      Allocated start mem [] next mem.avail [] := by
  have noneFree : mem.firstFree = 0 := sound.chain
  have availAligned := sound.availAligned
  have limitAligned := sound.limitAligned
  have below := sound.availBelow
  have above := sound.availAbove
  have word := sound.limitWord
  have bumped : (mem.avail + frameSize) % 2 ^ 32 = mem.avail + 4096 := by
    unfold frameSize
    omega
  refine ⟨({ mem with avail := mem.avail + 4096 } : PhysMem).bzero mem.avail, ?_, ?_⟩
  · have aligned : offset mem.avail = 0 := (offset_eq mem.avail).trans availAligned
    simp only [allocFrame, noneFree, ne_eq, not_true_eq_false, if_false, room, bumped,
      Option.bind_some, aligned, if_true]
  · constructor
    · constructor
      · exact noneFree
      · exact List.nodup_nil
      · intro other member
        cases member
      · exact sound.startReal
      · exact sound.startAligned
      · change (mem.avail + 4096) % 4096 = 0
        omega
      · exact limitAligned
      · change start ≤ mem.avail + 4096
        omega
      · change mem.avail + 4096 ≤ mem.limit
        omega
      · exact word
    · rfl
    · rfl
    · intro outstanding
      exact Nat.lt_irrefl _ outstanding.1.2.1
    · refine ⟨above, ?_, availAligned⟩
      change mem.avail < mem.avail + 4096
      omega
    · intro other
      simp only [Outstanding, HandedOut, List.not_mem_nil, not_false_eq_true, and_true, bzero]
      constructor
      · intro inside
        by_cases same : other = mem.avail
        · exact Or.inr same
        · exact Or.inl ⟨inside.1, by omega, inside.2.2⟩
      · intro source
        rcases source with inside | same
        · exact ⟨inside.1, by omega, inside.2.2⟩
        · subst same
          exact ⟨above, by omega, availAligned⟩
    · exact Or.inr ⟨rfl, rfl, rfl⟩

/-- `alloc_frame` panics only when every frame it owns is in use. -/
theorem Sound.alloc_total (sound : Sound start mem free)
    (room : free ≠ [] ∨ mem.avail ≠ mem.limit) :
    ∃ next frame left, mem.allocFrame = some (next, frame) ∧
      Allocated start mem free next frame left := by
  cases free with
  | nil =>
      have notFull : mem.avail ≠ mem.limit := room.resolve_left (fun nonempty => nonempty rfl)
      obtain ⟨next, allocated, facts⟩ := sound.alloc_bumped notFull
      exact ⟨next, mem.avail, [], allocated, facts⟩
  | cons frame rest =>
      obtain ⟨next, allocated, facts⟩ := sound.alloc_listed
      exact ⟨next, frame, rest, allocated, facts⟩

theorem Sound.alloc_none (sound : Sound start mem []) (full : mem.avail = mem.limit) :
    mem.allocFrame = none := by
  have noneFree : mem.firstFree = 0 := sound.chain
  simp only [allocFrame, noneFree, ne_eq, not_true_eq_false, if_false, full, if_true,
    Option.bind_none]

theorem Sound.alloc (sound : Sound start mem free)
    (allocated : mem.allocFrame = some (next, frame)) :
    ∃ left, Allocated start mem free next frame left := by
  have room : free ≠ [] ∨ mem.avail ≠ mem.limit := by
    by_cases empty : free = []
    · subst empty
      refine Or.inr (fun full => ?_)
      rw [sound.alloc_none full] at allocated
      cases allocated
    · exact Or.inl empty
  obtain ⟨other, chosen, left, same, facts⟩ := sound.alloc_total room
  rw [same] at allocated
  cases allocated
  exact ⟨left, facts⟩

/-- What `dealloc_frame` has done: `frame` is the first free frame now. -/
structure Deallocated (start : Nat) (mem : PhysMem) (free : List Nat) (next : PhysMem)
    (frame : Nat) : Prop where
  sound : Sound start next (frame :: free)
  frames : ∀ other, other ≠ frame → next.frames other = mem.frames other
  limit : next.limit = mem.limit
  outstanding : ∀ other, Outstanding start next (frame :: free) other ↔
    Outstanding start mem free other ∧ other ≠ frame

theorem Sound.dealloc (sound : Sound start mem free) (outstanding : Outstanding start mem free frame) :
    ∃ next, mem.deallocFrame frame = some next ∧ Deallocated start mem free next frame := by
  obtain ⟨out, notFree⟩ := outstanding
  refine ⟨{ mem.setWord frame 0 mem.firstFree with firstFree := frame }, ?_, ?_⟩
  · have aligned : offset frame = 0 := (offset_eq frame).trans out.2.2
    rw [deallocFrame, if_pos aligned]
  · have kept : ∀ other, other ≠ frame →
        (mem.setWord frame 0 mem.firstFree).frames other = mem.frames other :=
      fun other different => Function.update_of_ne different _ _
    constructor
    · constructor
      · refine ⟨rfl, ?_⟩
        change Segment _ ((mem.setWord frame 0 mem.firstFree).frames frame 0) free 0
        have linked : (mem.setWord frame 0 mem.firstFree).frames frame 0 = mem.firstFree := by
          simp [setWord]
        rw [linked]
        refine Segment.congr sound.chain ?_
        intro other member
        exact congrFun (kept other (fun same => notFree (same ▸ member))) 0
      · exact List.nodup_cons.mpr ⟨notFree, sound.distinct⟩
      · intro other member
        rcases List.mem_cons.mp member with same | inFree
        · subst same
          exact out
        · exact sound.known other inFree
      · exact sound.startReal
      · exact sound.startAligned
      · exact sound.availAligned
      · exact sound.limitAligned
      · exact sound.availAbove
      · exact sound.availBelow
      · exact sound.limitWord
    · exact kept
    · rfl
    · intro other
      constructor
      · intro outstanding
        refine ⟨⟨outstanding.1, fun member =>
          outstanding.2 (List.mem_cons_of_mem frame member)⟩, ?_⟩
        intro same
        subst same
        exact outstanding.2 List.mem_cons_self
      · intro both
        refine ⟨both.1.1, ?_⟩
        intro member
        rcases List.mem_cons.mp member with same | inFree
        · exact both.2 same
        · exact both.1.2 inFree

theorem init_sound {frames : Nat → Nat → Nat} {size : Nat}
    (started : init frames start size = some mem) (startReal : 0 < start)
    (word : start + size < 2 ^ 32) :
    Sound start mem [] ∧ mem.limit = start + size ∧ mem.avail = start := by
  unfold init at started
  split at started
  · rename_i aligned
    cases started
    obtain ⟨startOffset, sizeOffset⟩ := aligned
    rw [offset_eq] at startOffset sizeOffset
    have limitIs : (start + size) % 2 ^ 32 = start + size := Nat.mod_eq_of_lt word
    refine ⟨?_, limitIs, rfl⟩
    constructor
    · rfl
    · exact List.nodup_nil
    · intro frame member
      cases member
    · exact startReal
    · exact startOffset
    · exact startOffset
    · change (start + size) % 2 ^ 32 % 4096 = 0
      omega
    · exact Nat.le_refl start
    · change start ≤ (start + size) % 2 ^ 32
      omega
    · change (start + size) % 2 ^ 32 < 2 ^ 32
      omega
  · cases started

end AC97Kernel.PhysMem
