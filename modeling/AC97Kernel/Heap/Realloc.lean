/-
What realloc reaches, and what is left when it fails.

On a heap that is laid out `malloc`, `free` and the copy between them stay inside
the array, so the only index outside comes from the pointer that `malloc` returns
for no bytes: it has no block.  A `realloc` that finds no block to move to frees
the old one all the same.
-/

import AC97Kernel.Heap.CheckedModel
import AC97Kernel.Heap.Requests

set_option autoImplicit false

namespace AC97Kernel.UserHeap

open BoundaryTags LinkedChain Heap

namespace Checked

/-! ### The free list -/

section Lists

variable {heap : Heap} {blocks : Set Block} {order : List Int} {node : Int}

theorem node_inside (shape : Shape heap.arena blocks order INTS) (member : node ∈ order) :
    0 ≤ node ∧ node + 4 ≤ INTS := by
  obtain ⟨block, blockMember, free, atNode⟩ := shape.listed node member
  have inside := shape.within block blockMember
  have room := shape.roomy block blockMember free
  simp only [Block.stop] at inside
  omega

theorem unlink_ok (shape : Shape heap.arena blocks order INTS) (length : heap.len = INTS)
    (member : node ∈ order) : remove heap node = .ok (heap.remove node) := by
  have inside := node_inside shape member
  apply remove_ok length
  · exact ⟨by omega, by omega⟩
  · exact ⟨by omega, by omega⟩
  · intro occupied
    have previous := node_inside shape ((shape.lists.prev_mem member).resolve_left occupied)
    rw [arena_prev] at previous
    exact ⟨by omega, by omega⟩
  · intro occupied
    have follower := node_inside shape ((shape.lists.next_mem member).resolve_left occupied)
    rw [arena_next] at follower
    exact ⟨by omega, by omega⟩

theorem head_inside (shape : Shape heap.arena blocks order INTS) (occupied : heap.avail ≠ 0) :
    0 ≤ heap.avail ∧ heap.avail + 4 ≤ INTS :=
  node_inside shape (shape.lists.head_mem.resolve_left occupied)

/-- A block that becomes available goes in front of the list. -/
theorem link_ok {i ints : Int} (head : heap.avail ≠ 0 → 0 ≤ heap.avail ∧ heap.avail + 4 ≤ INTS)
    (lower : 0 ≤ i) (upper : i + ints ≤ INTS) (least : 4 ≤ ints) :
    makeAvail heap i ints = .ok (heap.makeAvail i ints) := by
  apply makeAvail_ok (by omega)
  · exact ⟨by omega, by omega⟩
  · exact ⟨by omega, by omega⟩
  · exact ⟨by omega, by omega⟩
  · exact ⟨by omega, by omega⟩
  · intro occupied
    have inside := head occupied
    exact ⟨by omega, by omega⟩

end Lists

/-! ### malloc -/

section Malloc

variable {heap : Heap} {blocks : Set Block} {order : List Int} {block : Block} {ints : Int}

theorem take_ok (layout : heap.Layout blocks order) (length : heap.len = INTS)
    (member : block ∈ blocks) (free : block.free = true) (least : 4 ≤ ints)
    (fits : ints ≤ block.size) :
    take heap block.start ints =
      .ok (heap.carveBlock block ints, Layout.payloadAddress heap block) := by
  have inside := layout.tiling.within block member
  have listed : block.start ∈ order := (layout.listed _).mpr ⟨block, member, free, rfl⟩
  have shape := layout.shape
  have removed := layout.removed_shape member free
  rw [length] at shape removed
  simp only [Block.stop] at inside
  have header : InArray block.start := ⟨by omega, by omega⟩
  have claimed : ∀ count, 4 ≤ count → count ≤ block.size →
      makeTaken (heap.remove block.start) block.start count =
        .ok ((heap.remove block.start).makeTaken block.start count) := by
    intro count large small
    exact makeTaken_ok (by omega) header ⟨by omega, by omega⟩
  unfold take carveBlock
  simp only [size_ok header, layout.size_eq member, unlink_ok shape length listed, ok_bind]
  by_cases split : ints + 4 ≤ block.size
  · -- the list is that of the heap without the block when the rest is linked
    have rest : makeAvail ((heap.remove block.start).makeTaken block.start ints)
        (block.start + ints) (block.size - ints) =
          .ok (((heap.remove block.start).makeTaken block.start ints).makeAvail
            (block.start + ints) (block.size - ints)) := by
      apply link_ok
      · have head := head_inside removed
        exact head
      · omega
      · omega
      · omega
    rw [if_pos split, if_pos (by omega), claimed ints least fits, ok_bind, rest]
    rfl
  · rw [if_neg split, if_neg (by omega), claimed block.size (by omega) (le_refl _)]
    rfl

/-- `malloc` walks the list up to the block that it takes. -/
private theorem malloc_searches (layout : heap.Layout blocks order) (length : heap.len = INTS)
    {bytes : UInt32} (nonzero : bytes ≠ 0) :
    malloc heap bytes =
      if (firstFit heap (intsFor bytes) order).getD 0 ≠ 0 then
        take heap ((firstFit heap (intsFor bytes) order).getD 0) (intsFor bytes)
      else .ok (heap, 0) := by
  have shape := layout.shape
  rw [length] at shape
  have nodes : ∀ node ∈ order, InArray node ∧ InArray (node + 1) := by
    intro node member
    have inside := node_inside shape member
    exact ⟨⟨by omega, by omega⟩, ⟨by omega, by omega⟩⟩
  have head : heap.avail = 0 ∨ heap.avail ∈ order := shape.lists.head_mem
  have searched := search_ok length nodes (fun node member => shape.lists.next_mem member) head
    (search_firstFit layout (intsFor bytes))
  unfold malloc
  rw [if_neg nonzero, sanity_ok length, ok_bind, searched, ok_bind]
  rfl

theorem malloc_refused (layout : heap.Layout blocks order) (length : heap.len = INTS)
    {bytes : UInt32} (nonzero : bytes ≠ 0)
    (refused : firstFit heap (intsFor bytes) order = none) :
    malloc heap bytes = .ok (heap, 0) := by
  rw [malloc_searches layout length nonzero, refused]
  rfl

theorem malloc_served (layout : heap.Layout blocks order) (length : heap.len = INTS)
    {bytes : UInt32} (nonzero : bytes ≠ 0) (member : block ∈ blocks) (free : block.free = true)
    (fits : intsFor bytes ≤ block.size)
    (chosen : firstFit heap (intsFor bytes) order = some block.start) :
    malloc heap bytes =
      .ok (heap.carveBlock block (intsFor bytes), Layout.payloadAddress heap block) := by
  have start := layout.start_pos_of_free member free
  rw [malloc_searches layout length nonzero, chosen, Option.getD_some, if_pos (by omega)]
  exact take_ok layout length member free (intsFor_ge_four bytes) fits

end Malloc

/-! ### free -/

section Free

variable {heap : Heap} {blocks : Set Block} {order : List Int} {before block after : Block}

theorem absorb_ok (shape : Shape heap.arena blocks order INTS) (length : heap.len = INTS)
    (member : block ∈ blocks) (isListed : block.free = true → block.start ∈ order) (sz : Int) :
    absorb block.free heap block.start sz =
      .ok (heap.detach block, sz + if block.free then block.size else 0) := by
  have inside := shape.within block member
  have header : InArray block.start := by
    simp only [Block.stop] at inside
    exact ⟨by omega, by omega⟩
  have detached := detach_shape shape isListed
  unfold absorb
  unfold detach at detached ⊢
  cases free : block.free with
  | true =>
      rw [free, if_pos rfl] at detached
      have size := size_of_tagged (detached.tagged block member) inside.2.1
      simp only [if_true, unlink_ok shape length (isListed free), size_ok header, ok_bind, size]
      rfl
  | false =>
      simp only [Bool.false_eq_true, if_false, Int.add_zero]

theorem free_ok (layout : heap.Layout blocks order) (length : heap.len = INTS)
    (based : 0 < heap.base) (around : Layout.Between heap blocks before block after)
    (index : indexOf heap (Layout.payloadAddress heap block) = block.start) :
    free heap (Layout.payloadAddress heap block) =
      .ok (heap.releaseBlock before block after) := by
  have between := layout.free_between around.member around.notFirst around.notLast
  have size := layout.size_ge_two around.member
  have isListed := layout.detach_listed around
  have bounds := layout.merged_bounds around
  have meetsAfter := around.meetsAfter
  have beforeInside := layout.tiling.within before around.beforeMember
  have shape := layout.shape
  have firstShape := detach_shape shape isListed.1
  have secondShape := layout.detached_shape around
  have firstLength : (heap.detach before).len = INTS := (detach_len heap before).trans length
  rw [length] at shape firstShape secondShape between bounds
  have afterInside := shape.within after around.afterMember
  simp only [Block.stop] at between bounds meetsAfter beforeInside afterInside
  have notNull : Layout.payloadAddress heap block ≠ 0 := by
    unfold Layout.payloadAddress
    omega
  have notArray : Layout.payloadAddress heap block ≠ heap.base := by
    unfold Layout.payloadAddress
    omega
  have header : InArray block.start := ⟨by omega, by omega⟩
  have footerBefore : InArray (block.start - 1) := ⟨by omega, by omega⟩
  have headerBefore : InArray before.start := ⟨by omega, by omega⟩
  have headerAfter : InArray after.start := ⟨by omega, by omega⟩
  have isTaken : heap.isTaken block.start = true := by
    rw [isTaken_of_tagged (layout.tagged block around.member) size, around.taken]
    rfl
  have afterAvail : (heap.detach before).isAvail after.start = after.free :=
    isAvail_of_tagged (firstShape.tagged after around.afterMember) afterInside.2.1
  have linked : makeAvail ((heap.detach before).detach after) (merged before block after).start
      (merged before block after).size = .ok (heap.releaseBlock before block after) := by
    exact link_ok (head_inside secondShape) (by omega) (by omega) (by omega)
  unfold free
  rw [if_neg notNull, if_neg notArray]
  simp only [index, sanity_ok length, isTaken_ok header, isTaken, size_ok header,
    left_ok length footerBefore, right_ok length header, Bool.not_true, Bool.false_eq_true,
    if_false, ok_bind, layout.size_eq around.member,
    layout.left_eq around.beforeMember around.meetsBefore, layout.right_eq around.member,
    around.meetsAfter, isAvail_ok headerBefore, layout.isAvail_eq around.beforeMember,
    absorb_ok shape length around.beforeMember isListed.1, isAvail_ok headerAfter, afterAvail,
    absorb_ok firstShape firstLength around.afterMember isListed.2]
  exact linked

end Free

/-! ### realloc -/

section Realloc

variable {client : Client} {blocks : Set Block} {order : List Int} {old block : Block}
  {newSize : UInt32} {p : Int}

theorem freed_ok (sound : Sound client blocks order) (live : p ∈ client.live) :
    free client.heap p = .ok (UserHeap.free client.heap p) := by
  obtain ⟨before, block, after, around, address, result, _⟩ := sound.freed live
  subst address
  rw [result]
  exact free_ok sound.invariant.layout sound.length sound.invariant.based around
    (sound.index around.member)

/-- `realloc` of a held pointer up to its `malloc`. -/
private theorem realloc_asks (sound : Sound client blocks order) (member : old ∈ blocks)
    (taken : old.free = false) (nonzero : newSize ≠ 0) :
    realloc client.heap (Layout.payloadAddress client.heap old) newSize = do
      let (heap, newPtr) ← malloc client.heap newSize
      let heap ←
        if newPtr ≠ 0 then
          copy (Sound.copied old newSize) heap newPtr (Layout.payloadAddress client.heap old)
        else .ok heap
      return (← free heap (Layout.payloadAddress client.heap old), newPtr) := by
  have bounds := sound.bounds member
  have real := sound.real member
  have header : InArray old.start := by
    unfold InArray INTS
    omega
  have isTaken : client.heap.isTaken old.start = true := by
    rw [isTaken_of_tagged (sound.invariant.layout.tagged old member) bounds.2.1, taken]
    rfl
  unfold realloc
  rw [if_neg real, if_neg nonzero]
  simp only [sound.index member, sanity_ok sound.length, isTaken_ok header, isTaken,
    size_ok header, sound.invariant.layout.size_eq member, Bool.not_true, Bool.false_eq_true,
    if_false, ok_bind, memcpy, sound.copied_count member newSize]

theorem realloc_refused (sound : Sound client blocks order) (live : p ∈ client.live)
    (nonzero : newSize ≠ 0) (refused : firstFit client.heap (intsFor newSize) order = none) :
    realloc client.heap p newSize = .ok (UserHeap.free client.heap p, 0) := by
  obtain ⟨old, oldMember, isHeld, atOld⟩ := sound.held live
  have freed := freed_ok sound live
  subst atOld
  rw [realloc_asks sound oldMember isHeld.taken nonzero,
    malloc_refused sound.invariant.layout sound.length nonzero refused]
  simp only [ok_bind, ne_eq, not_true_eq_false, if_false, freed]
  rfl

theorem realloc_served (sound : Sound client blocks order) (live : p ∈ client.live)
    (bound : newSize.toNat ≤ 0xFFFFFFFC) (nonzero : newSize ≠ 0) (member : block ∈ blocks)
    (free : block.free = true) (fits : intsFor newSize ≤ block.size)
    (chosen : firstFit client.heap (intsFor newSize) order = some block.start)
    (oldMember : old ∈ blocks) (isHeld : client.heap.Held old)
    (atOld : p = Layout.payloadAddress client.heap old) :
    realloc client.heap p newSize =
      .ok (UserHeap.free (Sound.moved client.heap old block newSize) p,
        Layout.payloadAddress client.heap block) := by
  have next := sound.moved_sound old bound member free fits
  have freed := freed_ok next (List.mem_cons_of_mem _ live)
  have notNull := sound.real member
  have room := Sound.copied_le old bound fits
  have oldBounds := sound.bounds oldMember
  have newBounds := sound.bounds member
  have limit : Sound.copied old newSize ≤ (old.size * 4).toNat := Nat.min_le_left _ _
  have between := sound.invariant.layout.free_between oldMember isHeld.notFirst isHeld.notLast
  have length := sound.length
  have copies : copy (Sound.copied old newSize) (client.heap.carveBlock block (intsFor newSize))
      (Layout.payloadAddress client.heap block) (Layout.payloadAddress client.heap old) =
        .ok (Sound.moved client.heap old block newSize) := by
    apply copy_ok
    intro k small
    rw [carveBlock_base]
    unfold Layout.payloadAddress InArray
    simp only [Block.stop] at between
    unfold INTS at length ⊢
    constructor
    · omega
    · omega
  subst atOld
  rw [realloc_asks sound oldMember isHeld.taken nonzero,
    malloc_served sound.invariant.layout sound.length nonzero member free fits chosen]
  simp only [ok_bind, if_pos notNull, copies, freed]
  rfl

/-- The pointer that `malloc` returned for no bytes leads in front of the array. -/
theorem realloc_base (heap : Heap) (based : 0 < heap.base) (nonzero : newSize ≠ 0) :
    realloc heap heap.base newSize = .error (.outside (-1)) := by
  have index : indexOf heap heap.base = -1 := by
    unfold indexOf
    rw [Int.sub_self]
    rfl
  unfold realloc
  rw [if_neg (by omega), if_neg nonzero, index]
  rfl

end Realloc

end Checked

/-- A `realloc` that comes back without an index outside the array, and that leaves the
heap alone when it returns 0. -/
def Atomic (heap : Heap) (p : Int) (newSize : UInt32) : Prop :=
  ∃ next q, realloc heap p newSize = some (next, q) ∧
    Checked.realloc heap p newSize = .ok (next, q) ∧ (q = 0 → next = heap)

namespace Sound

variable {client : Client} {blocks : Set Block} {order : List Int} {newSize : UInt32} {p : Int}

/-- The header of the freed block, or of the one before it, is written. -/
theorem free_changes (sound : Sound client blocks order) (live : p ∈ client.live) :
    UserHeap.free client.heap p ≠ client.heap := by
  obtain ⟨before, block, after, around, _, result, soundNext⟩ := sound.freed live
  intro same
  rw [result] at same
  have next := (soundNext.invariant.layout.tagged _ (Or.inl rfl)).1
  simp only [same] at next
  have layout := sound.invariant.layout
  have size := layout.size_ge_two around.member
  have beforeSize := layout.size_ge_two around.beforeMember
  have afterSize := layout.size_ge_two around.afterMember
  have blockTag := (layout.tagged block around.member).1
  have beforeTag := (layout.tagged before around.beforeMember).1
  unfold Block.tag at next blockTag beforeTag
  rw [around.taken] at blockTag
  unfold merged at next
  cases beforeFree : before.free <;> cases afterFree : after.free <;>
    simp [beforeFree, afterFree] at next beforeTag blockTag <;> omega

theorem atomic_iff (sound : Sound client blocks order)
    (known : p ∈ client.live ∨ p = client.heap.base) (nonzero : newSize ≠ 0)
    (size : newSize.toNat ≤ 0xFFFFFFFC ∨ p = client.heap.base ∨ client.heap.avail = 0) :
    Atomic client.heap p newSize ↔ p ≠ client.heap.base ∧
      ∃ block ∈ blocks, block.free = true ∧ intsFor newSize ≤ block.size := by
  have layout := sound.invariant.layout
  by_cases atBase : p = client.heap.base
  · subst atBase
    constructor
    · rintro ⟨next, q, _, checked, _⟩
      rw [Checked.realloc_base client.heap sound.invariant.based nonzero] at checked
      cases checked
    · rintro ⟨impossible, _⟩
      exact absurd rfl impossible
  · have live := known.resolve_right atBase
    cases chosen : firstFit client.heap (intsFor newSize) order with
    | none =>
        -- nothing fits: the old block is freed and 0 returned
        have small := (firstFit_none_iff layout _).mp chosen
        constructor
        · rintro ⟨next, q, _, checked, unchanged⟩
          rw [Checked.realloc_refused sound live nonzero chosen] at checked
          cases checked
          exact absurd (unchanged rfl) (sound.free_changes live)
        · rintro ⟨_, block, member, free, fits⟩
          have below := small block member free
          omega
    | some it =>
        obtain ⟨block, member, free, atIndex, fits, result⟩ := malloc_some layout nonzero chosen
        subst atIndex
        refine ⟨fun _ => ⟨atBase, block, member, free, fits⟩, fun _ => ?_⟩
        have bound : newSize.toNat ≤ 0xFFFFFFFC := by
          rcases size with bound | impossible | empty
          · exact bound
          · exact absurd impossible atBase
          · rw [layout.avail_eq_zero_iff.mp empty block member] at free
            cases free
        obtain ⟨old, oldMember, isHeld, atOld⟩ := sound.held live
        have real := sound.real member
        refine ⟨_, _, ?_, Checked.realloc_served sound live bound nonzero member free fits chosen
          oldMember isHeld atOld, fun null => absurd null real⟩
        rw [atOld, sound.realloc_eq oldMember isHeld.taken nonzero, result, Option.map_some]
        simp only [if_pos real]
        rfl

end Sound

/-- Wherever the callers have come to, `realloc` of a held pointer, or of the one for no
bytes, keeps to the array and to its promise exactly when the pointer has a block and
another block fits. -/
theorem realloc_atomic (base : UInt32) (memory : Int → Int) (mapped : base ≠ 0)
    (actions : List Action) (lawful : callers.Lawful (start base memory) actions) :
    ∃ client, callers.run (start base memory) actions = some client ∧
      ∃ blocks order, client.heap.Layout blocks order ∧
        ∀ p, p ∈ client.live ∨ p = client.heap.base → ∀ newSize : UInt32, newSize ≠ 0 →
          newSize.toNat ≤ 0xFFFFFFFC ∨ p = client.heap.base ∨ client.heap.avail = 0 →
          (Atomic client.heap p newSize ↔ p ≠ client.heap.base ∧
            ∃ block ∈ blocks, block.free = true ∧ intsFor newSize ≤ block.size) := by
  obtain ⟨client, ran, blocks, order, sound⟩ := callers_sound base memory mapped actions lawful
  refine ⟨client, ran, blocks, order, sound.invariant.layout, ?_⟩
  intro p known newSize nonzero size
  exact sound.atomic_iff known nonzero size

/-- A block is moved, and then no block is large enough for another one. -/
theorem realloc_atomic_sample :
    ∃ client, callers.run (start 0x100000 (fun _ => 7))
        [.malloc 8, .realloc 0x10000C 40, .malloc 1, .realloc 0x10000C 0x500000] = some client ∧
      ∃ blocks order, client.heap.Layout blocks order ∧
        ∀ p, p ∈ client.live ∨ p = client.heap.base → ∀ newSize : UInt32, newSize ≠ 0 →
          newSize.toNat ≤ 0xFFFFFFFC ∨ p = client.heap.base ∨ client.heap.avail = 0 →
          (Atomic client.heap p newSize ↔ p ≠ client.heap.base ∧
            ∃ block ∈ blocks, block.free = true ∧ intsFor newSize ≤ block.size) :=
  realloc_atomic 0x100000 (fun _ => 7) (by decide) _ (by decide +kernel)

/-- The pointer for no bytes leads out of the array, and a failed `realloc` frees its block. -/
theorem realloc_fails :
    ¬ Atomic (start 0x100000 (fun _ => 7)).heap 0x100000 8 ∧
      ∃ client, callers.run (start 0x100000 (fun _ => 7)) [.malloc 8] = some client ∧
        client.live = [0x10000C] ∧ ¬ Atomic client.heap 0x10000C 0x500000 := by
  constructor
  · rintro ⟨next, q, _, checked, _⟩
    rw [show (0x100000 : Int) = (start 0x100000 (fun _ => 7)).heap.base from rfl,
      Checked.realloc_base _ (by decide) (by decide)] at checked
    cases checked
  · have seen : (callers.run (start 0x100000 (fun _ => 7)) [.malloc 8]).map (fun client =>
        (client.live, client.heap.array 2, (realloc client.heap 0x10000C 0x500000).map
          fun made => (made.2, made.1.array 2))) = some ([0x10000C], -4, some (0, 1048572)) := by
      decide +kernel
    obtain ⟨client, ran, view⟩ := Option.map_eq_some_iff.mp seen
    refine ⟨client, ran, congrArg Prod.fst view, ?_⟩
    rintro ⟨next, q, result, _, unchanged⟩
    rw [result] at view
    have word : client.heap.array 2 = -4 := congrArg (fun part => part.2.1) view
    have after : (q, next.array 2) = (0, 1048572) :=
      Option.some.inj (congrArg (fun part => part.2.2) view)
    have null : q = 0 := congrArg Prod.fst after
    have changed : next.array 2 = 1048572 := congrArg Prod.snd after
    rw [unchanged null, word] at changed
    exact absurd changed (by decide)

end AC97Kernel.UserHeap
