/-
How many frames the allocator can still give, and how many a fork takes.

A fork takes at most three frames for the new directory and as many as the
parent has tables and pages.  The allocator panics only when it has no frame
left, so a fork with that much room comes back.
-/

import AC97Kernel.Paging.Fork
import Mathlib.Algebra.BigOperators.Intervals

set_option autoImplicit false

namespace AC97Kernel

open LinkedChain Loops

namespace PhysMem

variable {start frame count : Nat} {mem next : PhysMem} {free left : List Nat}

/-- The free list and the memory above `avail` are `count` frames or more. -/
def Room (start : Nat) (mem : PhysMem) (count : Nat) : Prop :=
  ∃ free, mem.Sound start free ∧ count ≤ free.length + (mem.limit - mem.avail) / 4096

/-- The memory says itself which frames are free. -/
theorem Sound.unique (one : mem.Sound start free) (other : mem.Sound start left) : free = left := by
  have real : ∀ {frames : List Nat}, mem.Sound start frames → 0 ∉ frames := by
    intro frames sound member
    exact (sound.known 0 member).real sound.startReal rfl
  exact Segment.unique one.chain (real one) other.chain (real other)

theorem Room.fewer {less : Nat} (room : Room start mem count) (fewer : less ≤ count) :
    Room start mem less := by
  obtain ⟨free, sound, enough⟩ := room
  exact ⟨free, sound, Nat.le_trans fewer enough⟩

/-- What `alloc_frame` takes is one frame. -/
private theorem alloc_counts (sound : mem.Sound start free)
    (allocated : mem.allocFrame = some (next, frame))
    (facts : Allocated start mem free next frame left) :
    free.length + (mem.limit - mem.avail) / 4096 =
      left.length + (next.limit - next.avail) / 4096 + 1 := by
  rcases facts.source with listed | ⟨bumped, none_, _⟩
  · have first : mem.firstFree = frame := by
      have chain := sound.chain
      rw [listed] at chain
      exact chain.1
    have out := sound.known frame (listed ▸ List.mem_cons_self)
    have real := out.real sound.startReal
    have aligned : offset frame = 0 := (offset_eq frame).trans out.2.2
    simp only [allocFrame, first, ne_eq, real, not_false_eq_true, if_true, Option.bind_some,
      aligned] at allocated
    cases allocated
    rw [listed, List.length_cons]
    change _ = left.length + (mem.limit - mem.avail) / 4096 + 1
    omega
  · subst bumped none_
    have first : mem.firstFree = 0 := sound.chain
    have availAligned := sound.availAligned
    have limitAligned := sound.limitAligned
    have below := sound.availBelow
    have word := sound.limitWord
    have aligned : offset mem.avail = 0 := (offset_eq mem.avail).trans availAligned
    have room : mem.avail ≠ mem.limit := by
      intro full
      rw [sound.alloc_none full] at allocated
      cases allocated
    simp only [allocFrame, first, ne_eq, not_true_eq_false, if_false, room, Option.bind_some,
      aligned, if_true] at allocated
    cases allocated
    change 0 + _ = 0 + (mem.limit - (mem.avail + frameSize) % 2 ^ 32) / 4096 + 1
    unfold frameSize
    omega

theorem Room.alloc (room : Room start mem (count + 1)) :
    ∃ next frame, mem.allocFrame = some (next, frame) ∧ Room start next count := by
  obtain ⟨free, sound, enough⟩ := room
  have some_ : free ≠ [] ∨ mem.avail ≠ mem.limit := by
    by_cases empty : free = []
    · subst empty
      refine Or.inr (fun full => ?_)
      rw [full, Nat.sub_self] at enough
      exact absurd enough (Nat.not_succ_le_zero count)
    · exact Or.inl empty
  obtain ⟨next, frame, left, allocated, facts⟩ := sound.alloc_total some_
  have counts := alloc_counts sound allocated facts
  exact ⟨next, frame, allocated, left, facts.sound, by omega⟩

/-- A frame that is not free may be written. -/
theorem Room.write (room : Room start mem count) (sound : mem.Sound start free)
    (notFree : frame ∉ free) (words : Nat → Nat) :
    Room start { mem with frames := Function.update mem.frames frame words } count := by
  obtain ⟨same, known, enough⟩ := room
  have unique := known.unique sound
  subst unique
  refine ⟨same, known.congr rfl rfl rfl ?_, enough⟩
  intro other member
  have different : other ≠ frame := fun equal => notFree (equal ▸ member)
  exact congrFun (Function.update_of_ne different _ _) 0

end PhysMem

namespace VMM

open PhysMem

variable {config : Config} {start : Nat} {exact : Prop} {vm : Vm} {whole free flight : List Nat}
  {pd pdi pti count : Nat}

theorem Owned.enterTable_succeeds (owned : Owned config start exact vm whole free flight)
    (known : pd = vm.shared ∨ pd ∈ vm.live) (pdi num : Nat)
    (room : Room start vm.mem (count + if Absent (vm.pde pd pdi) then 1 else 0)) :
    ∃ next, VMM.enterTable vm.mem pd pdi num = some next ∧ Room start next count := by
  unfold VMM.enterTable
  by_cases absent : Absent (vm.mem.frames pd pdi)
  · have absentEntry : Absent (vm.pde pd pdi) := absent
    rw [if_pos absentEntry] at room
    rw [if_pos absent]
    obtain ⟨middle, frame, allocated, roomMiddle⟩ := room.alloc
    obtain ⟨left, facts⟩ := owned.sound.alloc allocated
    have structural : Structural vm pd := known.imp id Or.inl
    have outstanding := (facts.outstanding pd).mpr
      (Or.inl (owned.structural_outstanding structural))
    refine ⟨_, by rw [allocated]; rfl, ?_⟩
    exact roomMiddle.write facts.sound outstanding.2 _
  · have presentEntry : ¬ Absent (vm.pde pd pdi) := absent
    rw [if_neg presentEntry] at room
    rw [if_neg absent]
    exact ⟨vm.mem, rfl, room⟩

theorem Owned.mapApic_succeeds {va : Nat} (owned : Owned config start exact vm whole free flight)
    (valid : config.Valid) (live : pd ∈ vm.live) (apic : Apic config va)
    (room : Room start vm.mem (count + 1)) :
    ∃ next, map config vm.mem pd va va = some next ∧ Room start next count := by
  have flagsIs := flagsFor_apic valid apic
  have notShared : pd ≠ vm.shared := owned.not_shared live
  have covers : vm.Covers pd (directoryIndex va) :=
    Owned.covers_live valid live apic
  have one : (if Absent (vm.pde pd (directoryIndex va)) then 1 else 0) ≤ 1 := by
    split <;> decide
  obtain ⟨middle, entered, roomMiddle⟩ := owned.enterTable_succeeds (Or.inr live)
    (directoryIndex va) 3 (room.fewer (Nat.add_le_add_left one count))
  obtain ⟨left, table⟩ := owned.enterTable valid covers rfl (by decide)
    (fun same => absurd same notShared) (fun noSlot => absurd apic.slot noSlot) entered
  have structural : Structural { vm with mem := middle }
      (frameOf (middle.frames pd (directoryIndex va))) :=
    Or.inr (Or.inr ⟨pd, directoryIndex va, covers, table.present, rfl⟩)
  have outstanding := table.owned.structural_outstanding structural
  refine ⟨_, by rw [map_eq, flagsIs, entered]; rfl, ?_⟩
  exact roomMiddle.write table.owned.sound outstanding.2 _

theorem Owned.makePd_succeeds (owned : Owned config start exact vm whole free flight)
    (valid : config.Valid) (room : Room start vm.mem (count + 3)) :
    ∃ next pd, VMM.makePd config vm.shared vm.mem = some (next, pd) ∧ Room start next count := by
  obtain ⟨first, pd, allocated, roomFirst⟩ := room.alloc
  obtain ⟨left, sound, notFree, _, ownedThird, _⟩ := owned.copyShared valid allocated
  have roomThird := roomFirst.write sound notFree (fun index =>
    if index < sharedEntries config then first.frames vm.shared index else first.frames pd index)
  obtain ⟨fourth, mappedIo, roomFourth⟩ :=
    ownedThird.mapApic_succeeds valid List.mem_cons_self (Or.inl rfl) roomThird
  obtain ⟨_, ownedFourth, _⟩ :=
    ownedThird.mapApic valid List.mem_cons_self (Or.inl rfl) mappedIo
  obtain ⟨next, mappedLocal, roomNext⟩ :=
    ownedFourth.mapApic_succeeds valid List.mem_cons_self (Or.inr rfl) roomFourth
  refine ⟨next, pd, Option.bind_eq_some_iff.mpr ⟨_, allocated, ?_⟩, roomNext⟩
  refine Option.bind_eq_some_iff.mpr ⟨fourth, mappedIo, ?_⟩
  exact Option.map_eq_some_iff.mpr ⟨next, mappedLocal, rfl⟩

end VMM

namespace Process

open PhysMem VMM

variable {config : Config} {start : Nat} {exact : Prop} {vm : Vm} {whole free : List Nat}
  {parent child pdi pti count : Nat}

/-- The frames that the entry of a table makes fork allocate, and those that a table does. -/
def entryFrames (entry : Nat) : Nat := if Absent entry then 0 else 1

def tableFrames (vm : Vm) (parent pdi : Nat) : Nat :=
  if Absent (vm.pde parent pdi) then 0
  else 1 + ∑ pti ∈ Finset.Ico 0 1024, entryFrames (vm.pte parent pdi pti)

/-- Enough frames for a fork. -/
def forkFrames (vm : Vm) (parent : Nat) : Nat :=
  3 + ∑ pdi ∈ Finset.Ico 512 1024, tableFrames vm parent pdi

section OneTable

variable {mem : PhysMem} {parentEntry childEntry : Nat}

private theorem copyEntry_succeeds (valid : config.Valid)
    (copying : Copying config start exact vm whole parent child (pdi * 1024 + pti) mem)
    (tables : TablesOpen config vm parent child pdi parentEntry childEntry mem)
    (room : Room start mem (count + entryFrames (vm.pte parent pdi pti))) :
    ∃ next, copyEntry (frameOf parentEntry) (frameOf childEntry) pti mem = some next ∧
      Room start next count := by
  obtain ⟨free, owned⟩ := copying.owned
  have parentPte : mem.frames (frameOf parentEntry) pti = vm.pte parent pdi pti := by
    unfold Vm.pte
    rw [tables.parentIs]
    exact congrFun (copying.aside.contents (.table parent pdi) _ tables.different
      tables.parentTable) pti
  have alike : count ≤ count + entryFrames (vm.pte parent pdi pti) := Nat.le_add_right _ _
  unfold copyEntry
  by_cases taken : mem.frames (frameOf childEntry) pti &&& 1 = 1
  · exact ⟨mem, if_pos taken, room.fewer alike⟩
  · rw [if_neg taken]
    by_cases empty : mem.frames (frameOf parentEntry) pti &&& 1 = 0
    · exact ⟨mem, if_pos empty, room.fewer alike⟩
    · have present : ¬ Absent (vm.pte parent pdi pti) := parentPte ▸ empty
      have one : entryFrames (vm.pte parent pdi pti) = 1 := if_neg present
      rw [one] at room
      obtain ⟨middle, childFrame, allocated, roomMiddle⟩ := room.alloc
      obtain ⟨left, facts, ownedMiddle⟩ := owned.alloc valid allocated
      have childOut := ownedMiddle.custody.flightKnown childFrame List.mem_cons_self
      have roomCopy := roomMiddle.write facts.sound childOut.2 (fun index =>
        if index < 1024 then middle.frames (frameOf (mem.frames (frameOf parentEntry) pti)) index
        else middle.frames childFrame index)
      have structural : Structural { vm with mem := mem } (frameOf childEntry) := by
        refine Or.inr (Or.inr ⟨child, pdi, Or.inr ⟨tables.childLive, tables.lower, tables.upper⟩,
          ?_⟩)
        unfold Vm.pde
        rw [tables.childIs]
        exact ⟨tables.childPresent, rfl⟩
      have tableOut := (facts.outstanding _).mpr (Or.inl (owned.structural_outstanding structural))
      have soundCopy : (middle.memcpy childFrame
          (frameOf (mem.frames (frameOf parentEntry) pti)) 1024).Sound start left := by
        refine facts.sound.congr rfl rfl rfl ?_
        intro other member
        have different : other ≠ childFrame := fun same => childOut.2 (same ▸ member)
        exact congrFun (Function.update_of_ne different _ _) 0
      refine ⟨_, by simp only [if_neg empty, allocated]; rfl, ?_⟩
      exact roomCopy.write soundCopy tableOut.2 _

end OneTable

/-- The table for the copies is the one that `enterTable` provides. -/
private theorem prepared_of_table {mem next : PhysMem} (sound : mem.Sound start free)
    (ran : enterTable mem child pdi 7 = some next) :
    (if mem.frames child pdi &&& 1 = 0 then
        mem.allocFrame.map fun (mem, childPt) => (mem.setWord child pdi (childPt ||| 7), childPt)
      else some (mem, mem.frames child pdi &&& 0xFFFFF000)) =
      some (next, frameOf (next.frames child pdi)) := by
  unfold enterTable at ran
  by_cases absent : Absent (mem.frames child pdi)
  · rw [if_pos absent] at ran ⊢
    obtain ⟨⟨middle, frame⟩, allocated, results⟩ := Option.map_eq_some_iff.mp ran
    obtain ⟨left, facts⟩ := sound.alloc allocated
    subst results
    rw [allocated, setWord_same,
      frameOf_entry facts.out.2.2 (facts.sound.word facts.out) (by decide)]
    rfl
  · rw [if_neg absent] at ran ⊢
    cases ran
    rfl

private theorem copyTable_succeeds {mem : PhysMem} (valid : config.Valid)
    (childWhole : child ∈ whole) (parentLive : parent ∈ vm.live) (childLive : child ∈ vm.live)
    (different : parent ≠ child) (lower : 512 ≤ pdi) (upper : pdi < 1024)
    (copying : Copying config start exact vm whole parent child (pdi * 1024) mem)
    (room : Room start mem (count + tableFrames vm parent pdi)) :
    ∃ next, copyTable parent child pdi mem = some next ∧ Room start next count := by
  obtain ⟨free, owned⟩ := copying.owned
  have parentDirectory : held config vm (.directory parent) = some parent :=
    held_directory.mpr ⟨Or.inr parentLive, rfl⟩
  have parentPde : mem.frames parent pdi = vm.pde parent pdi :=
    congrFun (copying.aside.contents (.directory parent) parent different parentDirectory) pdi
  unfold copyTable
  rw [parentPde]
  by_cases absent : Absent (vm.pde parent pdi)
  · exact ⟨mem, if_pos absent, room.fewer (Nat.le_add_right _ _)⟩
  · have frames : tableFrames vm parent pdi =
        1 + ∑ pti ∈ Finset.Ico 0 1024, entryFrames (vm.pte parent pdi pti) := if_neg absent
    have one : (if Absent (({ vm with mem := mem } : Vm).pde child pdi) then 1 else 0) ≤ 1 := by
      split <;> decide
    have enough : count + ∑ pti ∈ Finset.Ico 0 1024, entryFrames (vm.pte parent pdi pti) +
        (if Absent (({ vm with mem := mem } : Vm).pde child pdi) then 1 else 0) ≤
          count + tableFrames vm parent pdi := by
      omega
    obtain ⟨entered, tableRan, roomEntered⟩ :=
      owned.enterTable_succeeds (Or.inr childLive) pdi 7 (room.fewer enough)
    obtain ⟨opened, childPresent⟩ := copying.enterTable valid childLive lower upper tableRan
    rw [← Nat.add_zero (pdi * 1024)] at opened
    obtain ⟨next, ran, _, roomNext⟩ := forRange_succeeds
      (copyEntry (frameOf (vm.pde parent pdi)) (frameOf (entered.frames child pdi))) 0 1024 entered
      (fun pti current =>
        (Copying config start exact vm whole parent child (pdi * 1024 + pti) current ∧
          current.frames child = entered.frames child) ∧
        Room start current
          (count + ∑ pti ∈ Finset.Ico pti 1024, entryFrames (vm.pte parent pdi pti)))
      (by
        intro pti before _ inside invariant
        obtain ⟨⟨copied, same⟩, roomBefore⟩ := invariant
        rw [Finset.sum_eq_sum_Ico_succ_bot (by omega), Nat.add_comm (entryFrames _), ← Nat.add_assoc]
          at roomBefore
        have tables : TablesOpen config vm parent child pdi (vm.pde parent pdi)
            (entered.frames child pdi) before :=
          ⟨parentLive, childLive, different, lower, upper, rfl, absent, congrFun same pdi,
            childPresent⟩
        obtain ⟨after, stepped, roomAfter⟩ := copyEntry_succeeds valid copied tables roomBefore
        obtain ⟨copiedNext, sameNext⟩ :=
          copyEntry_step valid childWhole copied tables (by omega) stepped
        exact ⟨after, stepped, ⟨copiedNext, sameNext.trans same⟩, roomAfter⟩)
      ⟨⟨opened, rfl⟩, roomEntered⟩
    refine ⟨next, ?_, roomNext.fewer (Nat.le_add_right _ _)⟩
    have prepared := prepared_of_table owned.sound tableRan
    simp only [if_neg absent]
    exact Option.bind_eq_some_iff.mpr ⟨_, prepared, ran⟩

/-- With enough frames the copy comes back. -/
theorem copyPrivate_succeeds (owned : Owned config start exact vm whole free [])
    (valid : config.Valid) (childWhole : child ∈ whole) (parentLive : parent ∈ vm.live)
    (different : parent ≠ child)
    (blank : ∀ pdi pti, held config vm (.page child pdi pti) = none)
    (room : Room start vm.mem
      (count + ∑ pdi ∈ Finset.Ico 512 1024, tableFrames vm parent pdi)) :
    ∃ next, copyPrivate parent child vm.mem = some next ∧ Room start next count := by
  have childLive := owned.wholeLive child childWhole
  obtain ⟨next, ran, _, roomNext⟩ := forRange_succeeds (copyTable parent child) 512 512 vm.mem
    (fun pdi current => Copying config start exact vm whole parent child (pdi * 1024) current ∧
      Room start current (count + ∑ pdi ∈ Finset.Ico pdi 1024, tableFrames vm parent pdi))
    (by
      intro pdi before lower upper invariant
      obtain ⟨copied, roomBefore⟩ := invariant
      rw [Finset.sum_eq_sum_Ico_succ_bot (by omega), Nat.add_comm (tableFrames _ _ _),
        ← Nat.add_assoc] at roomBefore
      obtain ⟨after, stepped, roomAfter⟩ := copyTable_succeeds valid childWhole parentLive childLive
        different lower (by omega) copied roomBefore
      exact ⟨after, stepped, (copyTable_step valid childWhole parentLive childLive different lower
        (by omega) copied stepped).1, roomAfter⟩)
    ⟨copying_start parent owned blank, room⟩
  exact ⟨next, ran, roomNext.fewer (Nat.le_add_right _ _)⟩

/-- What a fork takes does not depend on the other directories. -/
theorem forkFrames_aside {next : Vm} (aside : Aside config child vm next)
    (parentLive : parent ∈ vm.live) (different : parent ≠ child) :
    forkFrames next parent = forkFrames vm parent := by
  have parentDirectory : held config vm (.directory parent) = some parent :=
    held_directory.mpr ⟨Or.inr parentLive, rfl⟩
  have samePde (pdi : Nat) : next.pde parent pdi = vm.pde parent pdi :=
    congrFun (aside.contents (.directory parent) parent different parentDirectory) pdi
  unfold forkFrames
  refine congrArg (3 + ·) (Finset.sum_congr rfl ?_)
  intro pdi bounds
  obtain ⟨lower, upper⟩ := Finset.mem_Ico.mp bounds
  unfold tableFrames
  rw [samePde]
  by_cases absent : Absent (vm.pde parent pdi)
  · rw [if_pos absent, if_pos absent]
  · rw [if_neg absent, if_neg absent]
    have table : held config vm (.table parent pdi) = some (frameOf (vm.pde parent pdi)) :=
      held_table.mpr ⟨Or.inr ⟨parentLive, lower, upper⟩, absent, rfl⟩
    have samePte (pti : Nat) : next.pte parent pdi pti = vm.pte parent pdi pti := by
      unfold Vm.pte
      rw [samePde]
      exact congrFun (aside.contents (.table parent pdi) _ different table) pti
    simp only [samePte]

variable {File Semaphore Output : Type}

/-- With a free slot for the child and enough frames, fork makes a child. -/
theorem fork_succeeds {process : Process File Semaphore Output} {slot : Fin 10}
    (owned : Owned config start exact vm whole free []) (valid : config.Valid)
    (live : process.pd ∈ vm.live)
    (free' : (List.finRange 10).find? (fun index => (process.children index).isNone) = some slot)
    (output : Output) (room : Room start vm.mem (count + forkFrames vm process.pd)) :
    ∃ mem childPd, Room start mem count ∧ fork config vm.shared vm.mem process output = some
      { mem := mem
        parent := { process with children := Function.update process.children slot (some output) }
        child := some
          { files := process.files
            sems := process.sems
            children := fun _ => none
            output := output
            pd := childPd }
        id := ((0x10000000 ||| slot.val : Nat) : Int) } := by
  have frames : forkFrames vm process.pd =
      3 + ∑ pdi ∈ Finset.Ico 512 1024, tableFrames vm process.pd pdi := rfl
  obtain ⟨made, childPd, makeRan, roomMade⟩ := owned.makePd_succeeds valid
    (room.fewer (Nat.le_of_eq (by rw [frames, ← Nat.add_assoc, Nat.add_right_comm])))
  obtain ⟨_, ownedMade, fresh, asideMade, blank, _⟩ := owned.makePd valid makeRan
  have different : process.pd ≠ childPd := fun same => fresh (same ▸ live)
  have same := forkFrames_aside asideMade live different
  have tables : ∑ pdi ∈ Finset.Ico 512 1024,
      tableFrames { vm with mem := made, live := childPd :: vm.live } process.pd pdi =
        ∑ pdi ∈ Finset.Ico 512 1024, tableFrames vm process.pd pdi := Nat.add_left_cancel same
  obtain ⟨last, copyRan, roomLast⟩ := copyPrivate_succeeds ownedMade valid List.mem_cons_self
    (List.mem_cons_of_mem _ live) different blank (tables.symm ▸ roomMade)
  refine ⟨last, childPd, roomLast, ?_⟩
  unfold fork
  rw [free']
  refine Option.bind_eq_some_iff.mpr ⟨_, makeRan, ?_⟩
  exact Option.map_eq_some_iff.mpr ⟨last, copyRan, rfl⟩

end Process

end AC97Kernel
