/-
What one free does to the layout of the heap.

The freed block absorbs its neighbours as far as they are available.  The four
coalescing cases are one statement: a neighbour is detached when it is free, and
the merged block covers whatever was absorbed.
-/

import AC97Kernel.Heap.Layout
import Mathlib.Order.BooleanAlgebra.Set

set_option autoImplicit false

namespace AC97Kernel

open BoundaryTags LinkedChain

namespace Heap

/-- A neighbour leaves the free list when it is on it. -/
def detach (heap : Heap) (block : Block) : Heap :=
  if block.free then heap.remove block.start else heap

def detachOrder (block : Block) (order : List Int) : List Int :=
  if block.free then order.erase block.start else order

/-- The blocks that a freed `block` between `before` and `after` takes in. -/
def absorbed (before block after : Block) : Set Block :=
  { item | item = block ∨ (item = before ∧ before.free = true) ∨
    (item = after ∧ after.free = true) }

def merged (before block after : Block) : Block :=
  { start := if before.free then before.start else block.start
    size := block.size + (if before.free then before.size else 0) +
      (if after.free then after.size else 0)
    free := true }

def freedOrder (before block after : Block) (order : List Int) : List Int :=
  (merged before block after).start :: detachOrder after (detachOrder before order)

/-- The body of `free` once the neighbours are known. -/
def releaseBlock (heap : Heap) (before block after : Block) : Heap :=
  ((heap.detach before).detach after).makeAvail (merged before block after).start
    (merged before block after).size

@[simp] theorem detach_base (heap : Heap) (block : Block) :
    (heap.detach block).base = heap.base := by
  unfold detach
  split <;> simp

@[simp] theorem detach_len (heap : Heap) (block : Block) :
    (heap.detach block).len = heap.len := by
  unfold detach
  split <;> simp

@[simp] theorem releaseBlock_base (heap : Heap) (before block after : Block) :
    (heap.releaseBlock before block after).base = heap.base := by
  simp [releaseBlock]

@[simp] theorem releaseBlock_len (heap : Heap) (before block after : Block) :
    (heap.releaseBlock before block after).len = heap.len := by
  simp [releaseBlock]

theorem detach_shape {heap : Heap} {blocks : Set Block} {order : List Int} {high : Int}
    (shape : Shape heap.arena blocks order high) {block : Block}
    (isListed : block.free = true → block.start ∈ order) :
    Shape (heap.detach block).arena blocks (detachOrder block order) high := by
  unfold detach detachOrder
  cases free : block.free with
  | true =>
      rw [if_pos rfl, if_pos rfl, remove_arena]
      exact shape.unlink (isListed free)
  | false => exact shape

theorem detach_word {heap : Heap} {blocks : Set Block} {order : List Int} {high : Int}
    (shape : Shape heap.arena blocks order high) {block : Block}
    (isListed : block.free = true → block.start ∈ order) {word : Int}
    (avoids : ∀ node ∈ order, word ≠ node + 1 ∧ word ≠ node + 2) :
    (heap.detach block).array word = heap.array word := by
  unfold detach
  cases free : block.free with
  | true =>
      have unlinked := shape.unlink_word (isListed free) avoids
      rw [← remove_arena] at unlinked
      exact unlinked
  | false => rfl

theorem mem_of_mem_detachOrder {block : Block} {order : List Int} {index : Int}
    (member : index ∈ detachOrder block order) : index ∈ order := by
  unfold detachOrder at member
  cases free : block.free with
  | true =>
      rw [free, if_pos rfl] at member
      exact List.mem_of_mem_erase member
  | false =>
      rw [free] at member
      exact member

theorem mem_detachOrder_iff {block : Block} {order : List Int} (distinct : order.Nodup)
    (index : Int) :
    index ∈ detachOrder block order ↔
      index ∈ order ∧ (block.free = true → index ≠ block.start) := by
  unfold detachOrder
  cases free : block.free with
  | true =>
      rw [if_pos rfl, distinct.mem_erase_iff]
      simp [and_comm]
  | false => simp

theorem detachOrder_nodup (block : Block) {order : List Int} (distinct : order.Nodup) :
    (detachOrder block order).Nodup := by
  unfold detachOrder
  split
  · exact distinct.erase _
  · exact distinct

namespace Layout

variable {heap : Heap} {blocks : Set Block} {order : List Int}

/-- A taken block between its two neighbours. -/
structure Between (heap : Heap) (blocks : Set Block) (before block after : Block) : Prop where
  member : block ∈ blocks
  taken : block.free = false
  notFirst : block ≠ firstSentinel
  notLast : block ≠ lastSentinel heap.len
  beforeMember : before ∈ blocks
  afterMember : after ∈ blocks
  meetsBefore : before.stop = block.start
  meetsAfter : block.stop = after.start

theorem exists_between (layout : Layout heap blocks order) {block : Block}
    (member : block ∈ blocks) (taken : block.free = false) (notFirst : block ≠ firstSentinel)
    (notLast : block ≠ lastSentinel heap.len) :
    ∃ before after, Between heap blocks before block after := by
  have between := layout.free_between member notFirst notLast
  obtain ⟨before, beforeMember, meetsBefore⟩ :=
    layout.tiling.left_neighbour member (by omega)
  obtain ⟨after, afterMember, meetsAfter⟩ :=
    layout.tiling.right_neighbour member (by omega)
  exact ⟨before, after, member, taken, notFirst, notLast, beforeMember, afterMember,
    meetsBefore, meetsAfter.symm⟩

variable {before block after : Block}

theorem absorbed_sub (around : Between heap blocks before block after) :
    absorbed before block after ⊆ blocks := by
  rintro item (same | ⟨same, _⟩ | ⟨same, _⟩)
  · exact same ▸ around.member
  · exact same ▸ around.beforeMember
  · exact same ▸ around.afterMember

theorem merged_bounds (layout : Layout heap blocks order)
    (around : Between heap blocks before block after) :
    2 ≤ (merged before block after).start ∧ 4 ≤ (merged before block after).size ∧
      (merged before block after).start ≤ block.start ∧
      block.stop ≤ (merged before block after).stop ∧
      (merged before block after).stop ≤ heap.len - 2 := by
  have large := layout.large block around.member around.notFirst around.notLast
  have between := layout.free_between around.member around.notFirst around.notLast
  have meetsBefore := around.meetsBefore
  have meetsAfter := around.meetsAfter
  have beforeSize := layout.size_ge_two around.beforeMember
  have afterSize := layout.size_ge_two around.afterMember
  have beforeStart : before.free = true → 2 ≤ before.start := fun free =>
    layout.start_pos_of_free around.beforeMember free
  have afterStop : after.free = true → after.stop ≤ heap.len - 2 := fun free =>
    (layout.free_between around.afterMember (ne_sentinel_of_free free heap.len).1
      (ne_sentinel_of_free free heap.len).2).2
  simp only [merged, Block.stop] at between meetsBefore meetsAfter afterStop ⊢
  cases beforeFree : before.free <;> cases afterFree : after.free <;>
    simp [beforeFree, afterFree] at beforeStart afterStop ⊢ <;> omega

/-- The absorbed blocks fill the merged one. -/
theorem absorbed_tiling (layout : Layout heap blocks order)
    (around : Between heap blocks before block after) :
    Tiling (absorbed before block after) (merged before block after).start
      (merged before block after).stop := by
  have meetsBefore := around.meetsBefore
  have meetsAfter := around.meetsAfter
  have size := layout.size_ge_two around.member
  have beforeSize := layout.size_ge_two around.beforeMember
  have afterSize := layout.size_ge_two around.afterMember
  have self := Tiling.singleton block (by omega)
  -- the absorbed blocks up to the end of the freed one
  have upTo : Tiling { item | item = block ∨ (item = before ∧ before.free = true) }
      (merged before block after).start block.stop := by
    unfold merged
    cases free : before.free with
    | true =>
        have left := Tiling.singleton before (by omega)
        rw [meetsBefore] at left
        have joined := left.union self (by simp only [Block.stop] at meetsBefore; omega)
          (by simp only [Block.stop]; omega)
        have sameSet : ({before} ∪ {block} : Set Block) =
            { item | item = block ∨ (item = before ∧ true = true) } := by
          ext item
          simp [or_comm]
        rw [sameSet] at joined
        exact joined
    | false =>
        have sameSet : ({block} : Set Block) =
            { item | item = block ∨ (item = before ∧ false = true) } := by
          ext item
          simp
        rw [sameSet] at self
        exact self
  have stopIs : (merged before block after).stop =
      if after.free then after.stop else block.stop := by
    simp only [Block.stop] at meetsBefore meetsAfter
    unfold merged
    simp only [Block.stop]
    cases before.free <;> cases after.free <;> simp <;> omega
  have startLe : (merged before block after).start ≤ block.stop := by
    have bounds := layout.merged_bounds around
    simp only [Block.stop] at bounds ⊢
    omega
  rw [stopIs]
  unfold absorbed
  cases free : after.free with
  | true =>
      have right := Tiling.singleton after (by omega)
      rw [← meetsAfter] at right
      have joined := upTo.union right startLe (by
        rw [meetsAfter]
        simp only [Block.stop]
        omega)
      rw [if_pos rfl]
      convert joined using 1
      ext item
      simp only [Set.mem_ofPred_eq, Set.mem_union, Set.mem_singleton_iff, and_true]
      tauto
  | false =>
      simp only [Bool.false_eq_true, and_false, or_false, if_false]
      exact upTo

/-! ### The words -/

theorem detach_listed (layout : Layout heap blocks order)
    (around : Between heap blocks before block after) :
    (before.free = true → before.start ∈ order) ∧
      (after.free = true → after.start ∈ detachOrder before order) := by
  refine ⟨fun free => (layout.listed _).mpr ⟨before, around.beforeMember, free, rfl⟩, ?_⟩
  intro free
  rw [mem_detachOrder_iff layout.visits.distinct]
  refine ⟨(layout.listed _).mpr ⟨after, around.afterMember, free, rfl⟩, ?_⟩
  intro _ same
  have size := layout.size_ge_two around.member
  have beforeSize := layout.size_ge_two around.beforeMember
  have meetsBefore := around.meetsBefore
  have meetsAfter := around.meetsAfter
  simp only [Block.stop] at meetsBefore meetsAfter
  omega

theorem detached_shape (layout : Layout heap blocks order)
    (around : Between heap blocks before block after) :
    Shape ((heap.detach before).detach after).arena blocks
      (detachOrder after (detachOrder before order)) heap.len := by
  have isListed := layout.detach_listed around
  exact detach_shape (detach_shape layout.shape isListed.1) isListed.2

private theorem mem_detached_iff (layout : Layout heap blocks order) (index : Int) :
    index ∈ detachOrder after (detachOrder before order) ↔
      index ∈ order ∧ (before.free = true → index ≠ before.start) ∧
        (after.free = true → index ≠ after.start) := by
  rw [mem_detachOrder_iff (detachOrder_nodup before layout.visits.distinct),
    mem_detachOrder_iff layout.visits.distinct, and_assoc]

/-- What is still listed once the neighbours are detached was not absorbed. -/
private theorem detached_listed (layout : Layout heap blocks order)
    (around : Between heap blocks before block after) (index : Int) :
    index ∈ detachOrder after (detachOrder before order) ↔
      ∃ item ∈ blocks \ absorbed before block after, item.free = true ∧ item.start = index := by
  rw [layout.mem_detached_iff, layout.listed]
  constructor
  · rintro ⟨⟨item, member, free, atIndex⟩, notBefore, notAfter⟩
    refine ⟨item, ⟨member, ?_⟩, free, atIndex⟩
    rintro (same | ⟨same, beforeFree⟩ | ⟨same, afterFree⟩)
    · rw [same, around.taken] at free
      cases free
    · exact notBefore beforeFree (same ▸ atIndex.symm)
    · exact notAfter afterFree (same ▸ atIndex.symm)
  · rintro ⟨item, ⟨member, notAbsorbed⟩, free, atIndex⟩
    refine ⟨⟨item, member, free, atIndex⟩, ?_, ?_⟩
    · intro beforeFree same
      exact notAbsorbed (Or.inr (Or.inl
        ⟨layout.eq_of_start member around.beforeMember (atIndex.trans same), beforeFree⟩))
    · intro afterFree same
      exact notAbsorbed (Or.inr (Or.inr
        ⟨layout.eq_of_start member around.afterMember (atIndex.trans same), afterFree⟩))

private theorem outside_merged (layout : Layout heap blocks order)
    (around : Between heap blocks before block after) {other : Block} (member : other ∈ blocks)
    (notAbsorbed : other ∉ absorbed before block after) :
    other.Apart (merged before block after) := by
  have bounds := layout.merged_bounds around
  have outside := layout.tiling.outside (absorbed_sub around) (layout.absorbed_tiling around)
    (by simp only [Block.stop] at bounds ⊢; omega) member notAbsorbed
  exact outside

private theorem release_shape (layout : Layout heap blocks order)
    (around : Between heap blocks before block after) :
    Shape (heap.releaseBlock before block after).arena
      (insert (merged before block after) (blocks \ absorbed before block after))
      (freedOrder before block after order) heap.len := by
  have bounds := layout.merged_bounds around
  have detached := layout.detached_shape around
  have restricted := detached.restrict (blocks \ absorbed before block after)
    Set.sdiff_subset (fun index member => (layout.detached_listed around index).mp member)
  have released := restricted.release (merged before block after).start
    (merged before block after).size
    ⟨by simp only []; omega, by simp only [Block.stop] at bounds ⊢; omega,
      by simp only []; omega,
      fun other member => layout.outside_merged around member.1 member.2⟩
    (by omega) (by omega)
  unfold releaseBlock
  rw [makeAvail_arena _ _ (by omega)]
  exact released

/-- Freeing writes into no other taken block. -/
theorem release_frame (layout : Layout heap blocks order)
    (around : Between heap blocks before block after) {other : Block}
    (member : other ∈ blocks) (different : other ≠ block) (taken : other.free = false)
    {word : Int} (lower : other.start ≤ word) (upper : word < other.stop) :
    (heap.releaseBlock before block after).array word = heap.array word := by
  have bounds := layout.merged_bounds around
  have isListed := layout.detach_listed around
  have avoids := fun node (nodeListed : node ∈ order) =>
    layout.shape.link_outside nodeListed member taken lower upper
  have notAbsorbed : other ∉ absorbed before block after := by
    rintro (same | ⟨same, free⟩ | ⟨same, free⟩)
    · exact different same
    · rw [same, free] at taken
      cases taken
    · rw [same, free] at taken
      cases taken
  have separate := layout.outside_merged around member notAbsorbed
  simp only [Block.Apart] at separate
  have first : (heap.detach before).array word = heap.array word :=
    detach_word layout.shape isListed.1 avoids
  have second : ((heap.detach before).detach after).array word = heap.array word :=
    (detach_word (detach_shape layout.shape isListed.1) isListed.2
      (fun node nodeListed => avoids node (mem_of_mem_detachOrder nodeListed))).trans first
  unfold releaseBlock
  rw [makeAvail_word _ (by omega) (by simp only [Block.stop] at separate upper ⊢; omega)]
  · exact second
  · intro occupied
    have headListed := (layout.detached_shape around).lists.head_mem.resolve_left occupied
    exact (avoids _ (mem_of_mem_detachOrder (mem_of_mem_detachOrder headListed))).2

/-! ### The layout -/

private theorem release_coalesced (layout : Layout heap blocks order)
    (around : Between heap blocks before block after) :
    ∀ left ∈ insert (merged before block after) (blocks \ absorbed before block after),
      ∀ right ∈ insert (merged before block after) (blocks \ absorbed before block after),
        left.stop = right.start → left.free = false ∨ right.free = false := by
  have bounds := layout.merged_bounds around
  have meetsBefore := around.meetsBefore
  have meetsAfter := around.meetsAfter
  rintro left (leftMerged | leftOld) right (rightMerged | rightOld) adjacent
  · subst leftMerged
    subst rightMerged
    simp only [Block.stop] at adjacent
    omega
  · -- what follows the merged block: the right neighbour, or what follows it
    subst leftMerged
    right
    cases afterFree : after.free with
    | true =>
        have stopIs : (merged before block after).stop = after.stop := by
          simp only [Block.stop] at meetsBefore meetsAfter
          unfold merged
          simp only [Block.stop, afterFree]
          cases before.free <;> simp <;> omega
        rw [stopIs] at adjacent
        have known := layout.coalesced after around.afterMember right rightOld.1 adjacent
        rw [afterFree] at known
        exact known.resolve_left (by decide)
    | false =>
        have stopIs : (merged before block after).stop = block.stop := by
          simp only [Block.stop] at meetsBefore
          unfold merged
          simp only [Block.stop, afterFree]
          cases before.free <;> simp
          omega
        have same : right = after := layout.eq_of_start rightOld.1 around.afterMember
          (adjacent.symm.trans (stopIs.trans meetsAfter))
        exact same ▸ afterFree
  · subst rightMerged
    left
    cases beforeFree : before.free with
    | true =>
        have startIs : (merged before block after).start = before.start := by
          simp only [merged, beforeFree, if_true]
        rw [startIs] at adjacent
        have known := layout.coalesced left leftOld.1 before around.beforeMember adjacent
        rw [beforeFree] at known
        exact known.resolve_right (by decide)
    | false =>
        have startIs : (merged before block after).start = block.start := by
          simp only [merged, beforeFree, Bool.false_eq_true, if_false]
        have same : left = before := layout.eq_of_stop leftOld.1 around.beforeMember
          (adjacent.trans (startIs.trans meetsBefore.symm))
        exact same ▸ beforeFree
  · exact layout.coalesced left leftOld.1 right rightOld.1 adjacent

/-- Freeing a taken block keeps the layout; the merged block replaces what it absorbed. -/
theorem release (layout : Layout heap blocks order)
    (around : Between heap blocks before block after) :
    Layout (heap.releaseBlock before block after)
      (insert (merged before block after) (blocks \ absorbed before block after))
      (freedOrder before block after order) := by
  have shape := layout.release_shape around
  have bounds := layout.merged_bounds around
  have sentinelKept : ∀ sentinel : Block, sentinel.free = false → sentinel ≠ block →
      sentinel ∉ absorbed before block after := by
    rintro sentinel taken different (same | ⟨same, free⟩ | ⟨same, free⟩)
    · exact different same
    · rw [same, free] at taken
      cases taken
    · rw [same, free] at taken
      cases taken
  refine ⟨?_, shape.tagged, ?_, ?_, ?_, ?_, shape.lists, ?_⟩
  · rw [releaseBlock_len, Set.insert_eq, Set.union_comm]
    exact layout.tiling.replace (absorbed_sub around) (layout.absorbed_tiling around)
      (Tiling.singleton (merged before block after) (by omega))
      (by simp only [Block.stop] at bounds ⊢; omega) (by omega) (by omega)
  · exact Or.inr ⟨layout.first,
      sentinelKept firstSentinel rfl (fun same => around.notFirst same.symm)⟩
  · rw [releaseBlock_len]
    exact Or.inr ⟨layout.last,
      sentinelKept (lastSentinel heap.len) rfl (fun same => around.notLast same.symm)⟩
  · rw [releaseBlock_len]
    rintro item (isMerged | old) notFirst notLast
    · subst isMerged
      omega
    · exact layout.large item old.1 notFirst notLast
  · exact layout.release_coalesced around
  · intro index
    unfold freedOrder
    rw [List.mem_cons, layout.detached_listed around]
    constructor
    · rintro (atMerged | ⟨item, member, rest⟩)
      · exact ⟨_, Or.inl rfl, rfl, atMerged.symm⟩
      · exact ⟨item, Or.inr member, rest⟩
    · rintro ⟨item, isMerged | old, free, atIndex⟩
      · subst isMerged
        exact Or.inl atIndex.symm
      · exact Or.inr ⟨item, old, free, atIndex⟩

/-! ### free -/

/-- The address `malloc` returned for a block. -/
def payloadAddress (heap : Heap) (block : Block) : Int := heap.base + 4 * (block.start + 1)

theorem free_eq (layout : Layout heap blocks order)
    (around : Between heap blocks before block after) (short : heap.len ≤ 0x40000000)
    (based : 0 < heap.base) :
    heap.free (payloadAddress heap block) = some (heap.releaseBlock before block after) := by
  have between := layout.free_between around.member around.notFirst around.notLast
  have size := layout.size_ge_two around.member
  have isListed := layout.detach_listed around
  have index : (payloadAddress heap block - heap.base) % 4294967296 / 4 - 1 = block.start := by
    unfold payloadAddress
    simp only [Block.stop] at between
    omega
  have notNull : payloadAddress heap block ≠ 0 := by
    unfold payloadAddress
    omega
  have notArray : payloadAddress heap block ≠ heap.base := by
    unfold payloadAddress
    omega
  have isTaken : heap.isTaken block.start = true := by
    rw [isTaken_of_tagged (layout.tagged block around.member) size, around.taken]
    rfl
  have beforeSize := layout.size_ge_two around.beforeMember
  have afterSize := layout.size_ge_two around.afterMember
  have firstShape := detach_shape layout.shape isListed.1
  have secondShape := layout.detached_shape around
  -- tags are read again after the neighbours are unlinked, and are unchanged
  have beforeAvail : heap.isAvail before.start = before.free := layout.isAvail_eq around.beforeMember
  have beforeRead : (heap.detach before).size before.start = before.size :=
    size_of_tagged (firstShape.tagged before around.beforeMember) beforeSize
  have afterAvail : (heap.detach before).isAvail after.start = after.free :=
    isAvail_of_tagged (firstShape.tagged after around.afterMember) afterSize
  have afterRead : ((heap.detach before).detach after).size after.start = after.size :=
    size_of_tagged (secondShape.tagged after around.afterMember) afterSize
  unfold Heap.free
  rw [if_neg notNull, if_neg notArray]
  simp only [index, isTaken, Bool.not_true, Bool.false_eq_true, if_false,
    layout.size_eq around.member, layout.left_eq around.beforeMember around.meetsBefore,
    layout.right_eq around.member, around.meetsAfter, beforeAvail]
  unfold releaseBlock merged
  unfold detach at beforeRead afterAvail afterRead ⊢
  cases beforeFree : before.free <;> cases afterFree : after.free <;>
    simp_all

end Layout

end Heap

end AC97Kernel
