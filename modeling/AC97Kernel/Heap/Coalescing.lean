/-
What is left of the order in which blocks are freed.

A layout never has two free blocks side by side, so its tiling is known by the
taken blocks alone.  Freeing takes the block of the freed pointer out of these
and does nothing else to them.
-/

import AC97Kernel.Heap.Contract

set_option autoImplicit false

namespace AC97Kernel

open BoundaryTags

namespace Client

variable {client next : Client} {blocks : Set Block} {order : List Int}

theorem step_len {action : Action} (stepped : client.step action = some next) :
    next.heap.len = client.heap.len := by
  cases action with
  | malloc bytes =>
      obtain ⟨result, allocated, same⟩ := Option.map_eq_some_iff.mp stepped
      subst same
      simp only
      unfold Heap.malloc at allocated
      split at allocated
      · cases allocated
        rfl
      · obtain ⟨best, _, chosen⟩ := Option.map_eq_some_iff.mp allocated
        simp only at chosen
        split at chosen
        · split at chosen
          · subst chosen
            simp
          · subst chosen
            simp
        · subst chosen
          rfl
  | free p =>
      obtain ⟨heap, freed, same⟩ := Option.map_eq_some_iff.mp stepped
      subst same
      simp only
      unfold Heap.free at freed
      split at freed
      · cases freed
        rfl
      · split at freed
        · cases freed
          rfl
        · simp only at freed
          split at freed
          · cases freed
          · cases freed
            split <;> split <;> simp
  | write p index value =>
      cases stepped
      rfl

namespace Invariant

/-- The blocks that are taken after freeing: all that were, but for the freed one. -/
private theorem taken_after (invariant : Invariant client blocks order)
    {before block after : Block} (around : Heap.Layout.Between client.heap blocks before block after)
    {item : Block} (taken : item.free = false) :
    item ∈ insert (Heap.merged before block after) (blocks \ Heap.absorbed before block after) ↔
      item ∈ blocks ∧ Heap.Layout.payloadAddress client.heap item ≠
        Heap.Layout.payloadAddress client.heap block := by
  constructor
  · rintro (isMerged | ⟨member, kept⟩)
    · rw [isMerged] at taken
      cases taken
    · refine ⟨member, ?_⟩
      intro same
      exact kept (Or.inl (invariant.payload_injective member around.member same))
  · rintro ⟨member, different⟩
    refine Or.inr ⟨member, ?_⟩
    rintro (same | ⟨same, free⟩ | ⟨same, free⟩)
    · exact different (congrArg (Heap.Layout.payloadAddress client.heap) same)
    · rw [same, free] at taken
      cases taken
    · rw [same, free] at taken
      cases taken

/-- Freeing live pointers one after the other never fails.  It leaves the taken
blocks whose pointers are not among them. -/
theorem free_all (invariant : Invariant client blocks order) (pointers : List Int)
    (distinct : pointers.Nodup) (live : ∀ p ∈ pointers, p ∈ client.live) :
    ∃ final blocks' order', machine.run client (pointers.map .free) = some final ∧
      Invariant final blocks' order' ∧ final.heap.len = client.heap.len ∧
      ∀ block, block.free = false →
        (block ∈ blocks' ↔
          block ∈ blocks ∧ Heap.Layout.payloadAddress client.heap block ∉ pointers) := by
  induction pointers generalizing client blocks order with
  | nil => exact ⟨client, blocks, order, rfl, invariant, rfl, by simp⟩
  | cons p pointers ih =>
      obtain ⟨fresh, distinctRest⟩ := List.nodup_cons.mp distinct
      obtain ⟨before, block, after, around, address, freed⟩ :=
        invariant.free_between (live p List.mem_cons_self)
      have kept := invariant.free_served around
      have stepped : client.step (.free p) = some
          { heap := client.heap.releaseBlock before block after
            live := client.live.erase (Heap.Layout.payloadAddress client.heap block) } := by
        rw [step, freed, address]
        rfl
      obtain ⟨final, blocks', order', ran, holds, length, taken⟩ := ih kept distinctRest (by
        intro q member
        rw [invariant.distinct.mem_erase_iff, ← address]
        refine ⟨?_, live q (List.mem_cons_of_mem p member)⟩
        intro same
        exact fresh (same ▸ member))
      refine ⟨final, blocks', order', ?_, holds, ?_, ?_⟩
      · rw [List.map_cons, StepMachine.run]
        change (client.step (.free p)).bind _ = _
        rw [stepped]
        exact ran
      · rw [length, Heap.releaseBlock_len]
      · intro item itemTaken
        have sameAddress : Heap.Layout.payloadAddress
            (client.heap.releaseBlock before block after) item =
              Heap.Layout.payloadAddress client.heap item := by
          unfold Heap.Layout.payloadAddress
          rw [Heap.releaseBlock_base]
        rw [taken item itemTaken, sameAddress, invariant.taken_after around itemTaken, ← address,
          List.mem_cons, not_or, and_assoc]

/-- A sentinel is not among pointers that are live. -/
private theorem sentinel_not_freed {client : Client} {blocks : Set Block} {order : List Int}
    (invariant : Invariant client blocks order) {pointers : List Int}
    (live : ∀ p ∈ pointers, p ∈ client.live) {sentinel : Block} (member : sentinel ∈ blocks)
    (isSentinel : ¬ client.heap.Held sentinel) :
    Heap.Layout.payloadAddress client.heap sentinel ∉ pointers := by
  intro present
  obtain ⟨item, itemMember, isHeld, address⟩ := invariant.held_block (live _ present)
  exact isSentinel (invariant.payload_injective member itemMember address ▸ isHeld)

/-- Once everything is freed the sentinels are what is taken. -/
private theorem taken_of_freed {client : Client} {blocks : Set Block} {order : List Int}
    (invariant : Invariant client blocks order) {pointers : List Int}
    (everything : pointers.Perm client.live) {block : Block} (taken : block.free = false) :
    (block ∈ blocks ∧ Heap.Layout.payloadAddress client.heap block ∉ pointers) ↔
      block ∈ Heap.initialBlocks client.heap.len := by
  have live (p : Int) (member : p ∈ pointers) : p ∈ client.live := everything.mem_iff.mp member
  constructor
  · rintro ⟨member, kept⟩
    by_cases isFirst : block = Heap.firstSentinel
    · exact Or.inl isFirst
    · by_cases isLast : block = Heap.lastSentinel client.heap.len
      · exact Or.inr (Or.inr isLast)
      · exact absurd (everything.mem_iff.mpr ((invariant.held _).mpr
          ⟨block, member, ⟨taken, isFirst, isLast⟩, rfl⟩)) kept
  · rintro (isFirst | isInitial | isLast)
    · rw [isFirst]
      exact ⟨invariant.layout.first, invariant.sentinel_not_freed live invariant.layout.first
        (fun isHeld => isHeld.notFirst rfl)⟩
    · rw [isInitial] at taken
      cases taken
    · rw [isLast]
      exact ⟨invariant.layout.last, invariant.sentinel_not_freed live invariant.layout.last
        (fun isHeld => isHeld.notLast rfl)⟩

end Invariant

/-- The tiling after freeing depends on which pointers are freed only, and freeing
all of them leaves the tiling that `heapInit` lays out. -/
theorem free_all_tiling (base : UInt32) (memory : Int → Int) (bytes : UInt32)
    (mapped : base ≠ 0) (room : 32 ≤ bytes.toNat)
    (reached : machine.Reached (start base memory bytes) client) (first second : List Int)
    (distinct : first.Nodup) (live : ∀ p ∈ first, p ∈ client.live) (reordered : second.Perm first) :
    ∃ left right blocks leftOrder rightOrder,
      machine.run client (first.map .free) = some left ∧
      machine.run client (second.map .free) = some right ∧
      left.heap.Layout blocks leftOrder ∧ right.heap.Layout blocks rightOrder ∧
      (first.Perm client.live → blocks = Heap.initialBlocks (bytes.toNat / 4 : Nat)) := by
  have started := start_invariant base memory bytes mapped room
  have startLen : (start base memory bytes).heap.len = (bytes.toNat / 4 : Nat) :=
    Heap.initBlocks_len base memory bytes
  obtain ⟨⟨blocks, order, invariant⟩, sameLen⟩ := reached.preserves
    (fun state => (∃ blocks order, Invariant state blocks order) ∧
      state.heap.len = (bytes.toNat / 4 : Nat))
    (by
      rintro state action next ⟨⟨blocks, order, invariant⟩, length⟩ permitted stepped
      obtain ⟨next', stepped', kept⟩ := invariant.step_total action permitted
      have same : next' = next := Option.some.inj (stepped'.symm.trans stepped)
      subst same
      exact ⟨kept, (step_len stepped).trans length⟩)
    ⟨⟨_, _, started⟩, startLen⟩
  obtain ⟨left, leftBlocks, leftOrder, leftRan, leftHolds, leftLen, leftTaken⟩ :=
    invariant.free_all first distinct live
  obtain ⟨right, rightBlocks, rightOrder, rightRan, rightHolds, rightLen, rightTaken⟩ :=
    invariant.free_all second (reordered.nodup_iff.mpr distinct)
      (fun p member => live p (reordered.mem_iff.mp member))
  have leftTiling := leftHolds.layout.tiling
  have rightTiling := rightHolds.layout.tiling
  rw [leftLen, sameLen] at leftTiling
  rw [rightLen, sameLen] at rightTiling
  have same : leftBlocks = rightBlocks := by
    apply leftTiling.eq_of_taken rightTiling leftHolds.layout.coalesced
      rightHolds.layout.coalesced
    intro block taken
    rw [leftTaken block taken, rightTaken block taken, reordered.mem_iff]
  refine ⟨left, right, leftBlocks, leftOrder, rightOrder, leftRan, rightRan, leftHolds.layout,
    same ▸ rightHolds.layout, ?_⟩
  intro everything
  have startTiling := started.layout.tiling
  rw [startLen] at startTiling
  apply leftTiling.eq_of_taken startTiling leftHolds.layout.coalesced started.layout.coalesced
  intro block taken
  rw [leftTaken block taken, invariant.taken_of_freed everything taken, sameLen]

/-- The lock and one more block of a heap of 32 ints, freed in both orders. -/
theorem free_all_tiling_sample :
    ∃ client, machine.Reached (start 0x100000 (fun _ => 7) 128) client ∧
      client.live = [0x100034, 0x10000C] ∧
      ∃ left right leftOrder rightOrder,
        machine.run client [.free 0x100034, .free 0x10000C] = some left ∧
        machine.run client [.free 0x10000C, .free 0x100034] = some right ∧
        left.heap.Layout (Heap.initialBlocks 32) leftOrder ∧
        right.heap.Layout (Heap.initialBlocks 32) rightOrder := by
  have live : (machine.run (start 0x100000 (fun _ => 7) 128)
      [.malloc Heap.sizeofBlockingLock, .malloc 9]).map Client.live =
        some [0x100034, 0x10000C] := by decide
  obtain ⟨client, ran, liveIs⟩ := Option.map_eq_some_iff.mp live
  have reached : machine.Reached (start 0x100000 (fun _ => 7) 128) client :=
    ⟨_, by decide, ran⟩
  obtain ⟨left, right, blocks, leftOrder, rightOrder, leftRan, rightRan, leftLayout, rightLayout,
    all⟩ := free_all_tiling 0x100000 (fun _ => 7) 128 (by decide) (by decide) reached
      [0x100034, 0x10000C] [0x10000C, 0x100034] (by decide) (by rw [liveIs]; exact fun _ => id)
      (by decide)
  have blocksAre := all (by rw [liveIs])
  subst blocksAre
  exact ⟨client, reached, liveIs, left, right, leftOrder, rightOrder, leftRan, rightRan,
    leftLayout, rightLayout⟩

end Client

end AC97Kernel
