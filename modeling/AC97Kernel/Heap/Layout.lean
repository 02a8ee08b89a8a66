/-
The representation invariant of the kernel heap.

`Layout` says which blocks the array holds and in which order the free list
visits the available ones.  It is a statement about the words of the array
only; which block belongs to which caller is the business of the contract.
-/

import AC97Kernel.Heap.Model

set_option autoImplicit false

namespace AC97Kernel

open BoundaryTags LinkedChain

namespace Heap

/-! ### What the code reads off a tagged block -/

theorem abs_tag {block : Block} (nonneg : 0 ≤ block.size) : abs block.tag = block.size := by
  unfold Block.tag
  cases block.free with
  | true => exact abs_of_nonneg nonneg
  | false => exact abs_neg_of_nonneg nonneg

theorem size_of_tagged {heap : Heap} {block : Block} (tagged : block.Tagged heap.array)
    (least : 2 ≤ block.size) : heap.size block.start = block.size := by
  unfold Heap.size
  rw [tagged.1]
  exact abs_tag (by omega)

theorem isAvail_of_tagged {heap : Heap} {block : Block} (tagged : block.Tagged heap.array)
    (least : 2 ≤ block.size) : heap.isAvail block.start = block.free := by
  unfold Heap.isAvail
  rw [tagged.1]
  unfold Block.tag
  cases block.free with
  | true => exact decide_eq_true (by simp only [if_true]; omega)
  | false => exact decide_eq_false (by simp only [Bool.false_eq_true, if_false]; omega)

theorem isTaken_of_tagged {heap : Heap} {block : Block} (tagged : block.Tagged heap.array)
    (least : 2 ≤ block.size) : heap.isTaken block.start = !block.free := by
  unfold Heap.isTaken
  rw [tagged.1]
  unfold Block.tag
  cases block.free with
  | true => exact decide_eq_false (by simp only [if_true]; omega)
  | false => exact decide_eq_true (by simp only [Bool.false_eq_true, if_false]; omega)

/-- The taken block at the beginning of the array. -/
def firstSentinel : Block := ⟨0, 2, false⟩

/-- The taken block at the end of an array of `len` ints. -/
def lastSentinel (len : Int) : Block := ⟨len - 2, 2, false⟩

/-- `blocks` tile the array and the free list visits `order`. -/
structure Layout (heap : Heap) (blocks : Set Block) (order : List Int) : Prop where
  tiling : Tiling blocks 0 heap.len
  tagged : ∀ block ∈ blocks, block.Tagged heap.array
  first : firstSentinel ∈ blocks
  last : lastSentinel heap.len ∈ blocks
  large : ∀ block ∈ blocks, block ≠ firstSentinel → block ≠ lastSentinel heap.len →
    4 ≤ block.size
  coalesced : ∀ left ∈ blocks, ∀ right ∈ blocks, left.stop = right.start →
    left.free = false ∨ right.free = false
  visits : heap.arena.links.Lists 0 order
  listed : ∀ index, index ∈ order ↔ ∃ block ∈ blocks, block.free = true ∧ block.start = index

namespace Layout

variable {heap : Heap} {blocks : Set Block} {order : List Int}

theorem size_ge_two (layout : Layout heap blocks order) {block : Block}
    (member : block ∈ blocks) : 2 ≤ block.size := by
  by_cases isFirst : block = firstSentinel
  · subst isFirst
    exact le_refl _
  · by_cases isLast : block = lastSentinel heap.len
    · subst isLast
      exact le_refl _
    · have large := layout.large block member isFirst isLast
      omega

theorem size_ge_four (layout : Layout heap blocks order) {block : Block}
    (member : block ∈ blocks) (free : block.free = true) : 4 ≤ block.size := by
  apply layout.large block member
  · intro same
    subst same
    cases free
  · intro same
    subst same
    cases free

/-- A layout is a shape whose free list is complete. -/
theorem shape (layout : Layout heap blocks order) : Shape heap.arena blocks order heap.len :=
  { within := fun block member =>
      ⟨(layout.tiling.within block member).1, layout.size_ge_two member,
        (layout.tiling.within block member).2.2⟩
    roomy := fun _block member free => layout.size_ge_four member free
    apart := layout.tiling.apart
    tagged := layout.tagged
    lists := layout.visits
    listed := fun index member => (layout.listed index).mp member }

/-- A free block starts after the first sentinel and ends before the last. -/
theorem free_between (layout : Layout heap blocks order) {block : Block}
    (member : block ∈ blocks)
    (notFirst : block ≠ firstSentinel) (notLast : block ≠ lastSentinel heap.len) :
    2 ≤ block.start ∧ block.stop ≤ heap.len - 2 := by
  have inside := layout.tiling.within block member
  have fromFirst := layout.tiling.apart block member _ layout.first notFirst
  have fromLast := layout.tiling.apart block member _ layout.last notLast
  simp only [Block.Apart, Block.stop, firstSentinel, lastSentinel] at inside fromFirst fromLast ⊢
  omega

theorem ne_sentinel_of_free {block : Block} (free : block.free = true) (len : Int) :
    block ≠ firstSentinel ∧ block ≠ lastSentinel len := by
  constructor
  · intro same
    subst same
    cases free
  · intro same
    subst same
    cases free

theorem start_pos_of_free (layout : Layout heap blocks order) {block : Block}
    (member : block ∈ blocks) (free : block.free = true) : 2 ≤ block.start := by
  have between := ne_sentinel_of_free free heap.len
  exact (layout.free_between member between.1 between.2).1

theorem eq_of_start (layout : Layout heap blocks order) {left right : Block}
    (leftMember : left ∈ blocks) (rightMember : right ∈ blocks)
    (same : left.start = right.start) : left = right := by
  have leftSize := layout.size_ge_two leftMember
  have rightSize := layout.size_ge_two rightMember
  apply layout.tiling.eq_of_contains left.start leftMember rightMember
  · simp only [Block.stop]
    omega
  · simp only [Block.stop]
    omega

theorem eq_of_stop (layout : Layout heap blocks order) {left right : Block}
    (leftMember : left ∈ blocks) (rightMember : right ∈ blocks)
    (same : left.stop = right.stop) : left = right := by
  have leftSize := layout.size_ge_two leftMember
  have rightSize := layout.size_ge_two rightMember
  apply layout.tiling.eq_of_contains (left.stop - 1) leftMember rightMember
  · simp only [Block.stop] at same ⊢
    omega
  · simp only [Block.stop] at same ⊢
    omega

theorem size_eq (layout : Layout heap blocks order) {block : Block} (member : block ∈ blocks) :
    heap.size block.start = block.size :=
  size_of_tagged (layout.tagged block member) (layout.size_ge_two member)

theorem isAvail_eq (layout : Layout heap blocks order) {block : Block}
    (member : block ∈ blocks) : heap.isAvail block.start = block.free :=
  isAvail_of_tagged (layout.tagged block member) (layout.size_ge_two member)

theorem right_eq (layout : Layout heap blocks order) {block : Block} (member : block ∈ blocks) :
    heap.right block.start = block.stop := by
  unfold Heap.right Heap.sanity Block.stop
  rw [layout.size_eq member]

theorem left_eq (layout : Layout heap blocks order) {block before : Block}
    (member : before ∈ blocks) (adjacent : before.stop = block.start) :
    heap.left block.start = before.start := by
  have positive := layout.size_ge_two member
  have footer : block.start - 1 = before.footer := by
    rw [← adjacent]
    rfl
  have size : heap.size before.footer = before.size := by
    have tag := (layout.tagged before member).2
    unfold Heap.size
    rw [tag]
    exact abs_tag (by omega)
  unfold Heap.left Heap.sanity Heap.headerFromFooter
  rw [footer, size]
  simp only [Block.footer]
  omega

end Layout

/-! ### The layout after heapInit -/

/-- The one available block of a fresh heap. -/
def initialBlock (len : Int) : Block := ⟨2, len - 4, true⟩

def initialBlocks (len : Int) : Set Block :=
  {firstSentinel, initialBlock len, lastSentinel len}

theorem initialBlocks_tiling {len : Int} (room : 8 ≤ len) :
    Tiling (initialBlocks len) 0 len := by
  have front : Tiling {firstSentinel} 0 2 := Tiling.singleton firstSentinel (by decide)
  have middle : Tiling {initialBlock len} 2 (len - 2) := by
    have single := Tiling.singleton (initialBlock len) (by simp only [initialBlock]; omega)
    have ends : (initialBlock len).stop = len - 2 := by
      simp only [initialBlock, Block.stop]
      omega
    rw [ends] at single
    exact single
  have back : Tiling {lastSentinel len} (len - 2) len := by
    have single := Tiling.singleton (lastSentinel len) (by simp only [lastSentinel]; omega)
    have ends : (lastSentinel len).stop = len := by
      simp only [lastSentinel, Block.stop]
      omega
    rw [ends] at single
    exact single
  have joined := front.union (middle.union back (by omega) (by omega)) (by omega) (by omega)
  exact joined

theorem initBlocks_len (base : UInt32) (memory : Int → Int) (bytes : UInt32) :
    (initBlocks base memory bytes).len = (bytes.toNat / 4 : Nat) := by
  simp [initBlocks]

theorem initBlocks_base (base : UInt32) (memory : Int → Int) (bytes : UInt32) :
    (initBlocks base memory bytes).base = base.toNat := by
  simp [initBlocks]

/-- Between the writes of `heapInit` nothing is laid out or listed yet. -/
private theorem empty_shape (arena : Arena) (high : Int) (noList : arena.head = 0) :
    Shape arena ∅ [] high :=
  { within := fun _block member => absurd member (Set.notMem_empty _)
    roomy := fun _block member => absurd member (Set.notMem_empty _)
    apart := fun _block member => absurd member (Set.notMem_empty _)
    tagged := fun _block member => absurd member (Set.notMem_empty _)
    lists := ⟨noList, trivial, List.not_mem_nil, List.nodup_nil⟩
    listed := fun _index member => absurd member List.not_mem_nil }

theorem initBlocks_layout (base : UInt32) (memory : Int → Int) (bytes : UInt32)
    (room : 32 ≤ bytes.toNat) :
    Layout (initBlocks base memory bytes)
      (initialBlocks (bytes.toNat / 4 : Nat)) [2] := by
  have wide : (8 : Int) ≤ (bytes.toNat / 4 : Nat) := by omega
  have tiling := initialBlocks_tiling wide
  generalize widthIs : ((bytes.toNat / 4 : Nat) : Int) = width at wide tiling ⊢
  -- the three tagging steps, as steps on the arena
  let bare : Heap := ⟨base.toNat, memory, width, 0⟩
  have asSteps : (initBlocks base memory bytes).arena =
      ((bare.arena.claim 0 2).release 2 (width - 4)).claim (width - 2) 2 := by
    have lengthIs : ((bytes / 4).toNat : Int) = width := by
      rw [← widthIs]
      simp
    unfold initBlocks
    simp only [lengthIs]
    simp only [makeAvail_len, makeTaken_len]
    rw [makeTaken_arena _ _ (by omega), makeAvail_arena _ _ (by omega),
      makeTaken_arena _ _ (by omega)]
  have shape₀ : Shape bare.arena ∅ [] width := empty_shape _ _ rfl
  have shape₁ := shape₀.claim 0 2
    ⟨by simp, by simp only [Block.stop]; omega, by simp,
      fun _block member => absurd member (Set.notMem_empty _)⟩
  have shape₂ := shape₁.release 2 (width - 4)
    ⟨by simp, by simp only [Block.stop]; omega, by simp only []; omega, by
      rintro block (rfl | member)
      · exact Or.inl (by simp only [Block.stop]; omega)
      · exact absurd member (Set.notMem_empty _)⟩ (by omega) (by omega)
  have shape₃ := shape₂.claim (width - 2) 2
    ⟨by simp only []; omega, by simp only [Block.stop]; omega, by simp, by
      rintro block (rfl | rfl | member)
      · exact Or.inl (by simp only [Block.stop]; omega)
      · exact Or.inl (by simp only [Block.stop]; omega)
      · exact absurd member (Set.notMem_empty _)⟩
  rw [← asSteps] at shape₃
  have lengthIs : (initBlocks base memory bytes).len = width := by
    rw [initBlocks_len, widthIs]
  have shaped : ∀ block ∈ initialBlocks width,
      block.Tagged (initBlocks base memory bytes).array := by
    rintro block (rfl | rfl | rfl)
    · exact shape₃.tagged _ (Or.inr (Or.inr (Or.inl rfl)))
    · exact shape₃.tagged _ (Or.inr (Or.inl rfl))
    · exact shape₃.tagged _ (Or.inl rfl)
  rw [← lengthIs] at tiling shaped wide ⊢
  refine ⟨tiling, shaped, Or.inl rfl, Or.inr (Or.inr rfl), ?_, ?_, shape₃.lists, ?_⟩
  · rintro block (rfl | rfl | rfl) notFirst notLast
    · exact absurd rfl notFirst
    · simp only [initialBlock]
      omega
    · exact absurd rfl notLast
  · rintro left (rfl | rfl | rfl) right (rfl | rfl | rfl) adjacent
    · exact Or.inl rfl
    · exact Or.inl rfl
    · exact Or.inl rfl
    · exact Or.inr rfl
    · simp only [initialBlock, Block.stop] at adjacent
      omega
    · exact Or.inr rfl
    · exact Or.inl rfl
    · exact Or.inl rfl
    · exact Or.inl rfl
  · intro index
    constructor
    · intro member
      rw [List.mem_singleton] at member
      subst member
      exact ⟨_, Or.inr (Or.inl rfl), rfl, rfl⟩
    · rintro ⟨block, rfl | rfl | rfl, free, atIndex⟩
      · cases free
      · subst atIndex
        exact List.mem_singleton.mpr rfl
      · cases free

end Heap

end AC97Kernel
