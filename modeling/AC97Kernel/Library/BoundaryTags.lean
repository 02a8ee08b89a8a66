/-
Blocks with boundary tags in an array of words.

A block keeps its size in its first and last word, positive while the block is
free and negative while it is taken.  Free blocks keep two links in the words
after their header.  `Shape` says that a set of blocks is laid out this way; it
does not ask the blocks to cover the array, so it also holds between the writes
of one operation.  `Tiling` is the covering condition on its own.
-/

import AC97Kernel.Library.LinkedChain
import Mathlib.Data.Set.Insert

set_option autoImplicit false

namespace BoundaryTags

open LinkedChain

structure Block where
  start : Int
  size : Int
  free : Bool
deriving DecidableEq, Repr

namespace Block

/-- The first index after the block. -/
def stop (block : Block) : Int := block.start + block.size

def footer (block : Block) : Int := block.start + block.size - 1

def tag (block : Block) : Int := if block.free then block.size else -block.size

def Tagged (words : Int → Int) (block : Block) : Prop :=
  words block.start = block.tag ∧ words block.footer = block.tag

def Apart (left right : Block) : Prop :=
  left.stop ≤ right.start ∨ right.stop ≤ left.start

/-- The words strictly between header and footer. -/
def Payload (block : Block) (index : Int) : Prop :=
  block.start < index ∧ index < block.footer

theorem Apart.symm {left right : Block} (apart : left.Apart right) : right.Apart left :=
  Or.symm apart

end Block

/-! ### Tilings -/

/-- The blocks fill `[low, high)` without overlap. -/
structure Tiling (blocks : Set Block) (low high : Int) : Prop where
  within : ∀ block ∈ blocks, low ≤ block.start ∧ 0 < block.size ∧ block.stop ≤ high
  apart : ∀ left ∈ blocks, ∀ right ∈ blocks, left ≠ right → left.Apart right
  covers : ∀ index, low ≤ index → index < high →
    ∃ block ∈ blocks, block.start ≤ index ∧ index < block.stop

namespace Tiling

variable {blocks : Set Block} {low high : Int}

theorem singleton (block : Block) (positive : 0 < block.size) :
    Tiling {block} block.start block.stop := by
  refine ⟨?_, ?_, ?_⟩
  · intro item same
    cases same
    exact ⟨le_refl _, positive, le_refl _⟩
  · intro left same right same' different
    cases same
    cases same'
    exact absurd rfl different
  · intro index lower upper
    exact ⟨block, rfl, lower, upper⟩

theorem union {first second : Set Block} {middle : Int} (left : Tiling first low middle)
    (right : Tiling second middle high) (lowMiddle : low ≤ middle) (middleHigh : middle ≤ high) :
    Tiling (first ∪ second) low high := by
  refine ⟨?_, ?_, ?_⟩
  · rintro block (inFirst | inSecond)
    · have inside := left.within block inFirst
      omega
    · have inside := right.within block inSecond
      omega
  · rintro block (inFirst | inSecond) other (otherFirst | otherSecond) different
    · exact left.apart block inFirst other otherFirst different
    · have inside := left.within block inFirst
      have inside' := right.within other otherSecond
      exact Or.inl (by omega)
    · have inside := right.within block inSecond
      have inside' := left.within other otherFirst
      exact Or.inr (by omega)
    · exact right.apart block inSecond other otherSecond different
  · intro index lower upper
    by_cases before : index < middle
    · obtain ⟨block, member, inside⟩ := left.covers index lower before
      exact ⟨block, Or.inl member, inside⟩
    · obtain ⟨block, member, inside⟩ := right.covers index (by omega) upper
      exact ⟨block, Or.inr member, inside⟩

/-- A block outside a tiled part does not reach into the range of that part. -/
theorem outside {part : Set Block} {near far : Int} (tiling : Tiling blocks low high)
    (sub : part ⊆ blocks) (partTiling : Tiling part near far) (extent : near < far)
    {block : Block} (member : block ∈ blocks) (notPart : block ∉ part) :
    block.stop ≤ near ∨ far ≤ block.start := by
  by_contra overlap
  have inside := tiling.within block member
  simp only [Block.stop, not_or, not_le] at inside overlap
  -- an index that both the block and the part contain
  obtain ⟨other, otherPart, reaches⟩ := partTiling.covers (max block.start near)
    (le_max_right _ _) (by omega)
  have different : block ≠ other := fun same => notPart (same ▸ otherPart)
  have separate := tiling.apart block member other (sub otherPart) different
  simp only [Block.Apart, Block.stop] at separate reaches
  omega

/-- Replacing a tiled part by another tiling of its range keeps the tiling. -/
theorem replace {part fresh : Set Block} {near far : Int} (tiling : Tiling blocks low high)
    (sub : part ⊆ blocks) (partTiling : Tiling part near far)
    (freshTiling : Tiling fresh near far) (extent : near < far)
    (lower : low ≤ near) (upper : far ≤ high) :
    Tiling ((blocks \ part) ∪ fresh) low high := by
  have outsidePart : ∀ block ∈ blocks \ part, ∀ other ∈ fresh, block.Apart other := by
    intro block member other inFresh
    have inside := freshTiling.within other inFresh
    rcases tiling.outside sub partTiling extent member.1 member.2 with before | after
    · exact Or.inl (by omega)
    · exact Or.inr (by omega)
  refine ⟨?_, ?_, ?_⟩
  · rintro block (old | inFresh)
    · exact tiling.within block old.1
    · have inside := freshTiling.within block inFresh
      omega
  · rintro block (old | inFresh) other (otherOld | otherFresh) different
    · exact tiling.apart block old.1 other otherOld.1 different
    · exact outsidePart block old other otherFresh
    · exact (outsidePart other otherOld block inFresh).symm
    · exact freshTiling.apart block inFresh other otherFresh different
  · intro index lowerIndex upperIndex
    by_cases inRange : near ≤ index ∧ index < far
    · obtain ⟨block, member, reaches⟩ := freshTiling.covers index inRange.1 inRange.2
      exact ⟨block, Or.inr member, reaches⟩
    · obtain ⟨block, member, reaches⟩ := tiling.covers index lowerIndex upperIndex
      refine ⟨block, Or.inl ⟨member, ?_⟩, reaches⟩
      intro inPart
      have inside := partTiling.within block inPart
      omega

/-- The block that begins where another one ends. -/
theorem right_neighbour (tiling : Tiling blocks low high) {block : Block}
    (member : block ∈ blocks) (more : block.stop < high) :
    ∃ right ∈ blocks, right.start = block.stop := by
  have inside := tiling.within block member
  obtain ⟨right, rightMember, reaches⟩ := tiling.covers block.stop
    (by simp only [Block.stop] at inside ⊢; omega) more
  refine ⟨right, rightMember, ?_⟩
  have different : block ≠ right := by
    intro same
    subst same
    omega
  have separate := tiling.apart block member right rightMember different
  simp only [Block.Apart, Block.stop] at separate reaches inside ⊢
  omega

theorem left_neighbour (tiling : Tiling blocks low high) {block : Block}
    (member : block ∈ blocks) (more : low < block.start) :
    ∃ left ∈ blocks, left.stop = block.start := by
  have inside := tiling.within block member
  obtain ⟨left, leftMember, reaches⟩ := tiling.covers (block.start - 1) (by omega)
    (by simp only [Block.stop] at inside; omega)
  refine ⟨left, leftMember, ?_⟩
  have different : left ≠ block := by
    intro same
    subst same
    omega
  have separate := tiling.apart left leftMember block member different
  simp only [Block.Apart, Block.stop] at separate reaches inside ⊢
  omega

/-- In a tiling a block is known by any index it contains. -/
theorem eq_of_contains (tiling : Tiling blocks low high) {left right : Block} (index : Int)
    (leftMember : left ∈ blocks) (rightMember : right ∈ blocks)
    (inLeft : left.start ≤ index ∧ index < left.stop)
    (inRight : right.start ≤ index ∧ index < right.stop) : left = right := by
  by_contra different
  have separate := tiling.apart left leftMember right rightMember different
  simp only [Block.Apart] at separate
  omega

/-- Of two blocks that meet one is taken. -/
def Coalesced (blocks : Set Block) : Prop :=
  ∀ left ∈ blocks, ∀ right ∈ blocks, left.stop = right.start →
    left.free = false ∨ right.free = false

private theorem free_mem_of_taken {other : Set Block} (tiling : Tiling blocks low high)
    (also : Tiling other low high) (coalesced : Coalesced blocks) (coalescedToo : Coalesced other)
    (sameTaken : ∀ block, block.free = false → (block ∈ blocks ↔ block ∈ other))
    {block : Block} (member : block ∈ blocks) (free : block.free = true) : block ∈ other := by
  have inside := tiling.within block member
  simp only [Block.stop] at inside
  -- no taken block of the other tiling reaches into this one
  have noTaken : ∀ item ∈ other, item.free = false → block.Apart item := by
    intro item itemMember taken
    apply tiling.apart block member item ((sameTaken item taken).mpr itemMember)
    intro same
    rw [same, taken] at free
    cases free
  have isFree : ∀ item ∈ other, ∀ index, block.start ≤ index → index < block.stop →
      item.start ≤ index → index < item.stop → item.free = true := by
    intro item itemMember index lower upper itemLower itemUpper
    cases status : item.free with
    | true => rfl
    | false =>
        have separate := noTaken item itemMember status
        simp only [Block.Apart] at separate
        omega
  obtain ⟨item, itemMember, reaches⟩ := also.covers block.start inside.1 (by omega)
  have itemFree := isFree item itemMember block.start (le_refl _)
    (by simp only [Block.stop]; omega) reaches.1 reaches.2
  have itemInside := also.within item itemMember
  simp only [Block.stop] at itemInside reaches
  have sameStart : item.start = block.start := by
    by_contra different
    obtain ⟨left, leftMember, meets⟩ := tiling.left_neighbour member (by omega)
    have taken : left.free = false := (coalesced left leftMember block member meets).resolve_right
      (by rw [free]; decide)
    have separate := also.apart left ((sameTaken left taken).mp leftMember) item itemMember (by
      intro same
      rw [same, itemFree] at taken
      cases taken)
    have leftInside := tiling.within left leftMember
    simp only [Block.Apart, Block.stop] at separate meets leftInside
    omega
  have notLonger : item.stop ≤ block.stop := by
    by_contra longer
    simp only [Block.stop] at longer
    obtain ⟨right, rightMember, meets⟩ := tiling.right_neighbour member
      (by simp only [Block.stop]; omega)
    have taken : right.free = false :=
      (coalesced block member right rightMember meets.symm).resolve_left (by rw [free]; decide)
    have separate := also.apart item itemMember right ((sameTaken right taken).mp rightMember) (by
      intro same
      rw [← same, itemFree] at taken
      cases taken)
    have rightInside := tiling.within right rightMember
    simp only [Block.Apart, Block.stop] at separate meets rightInside
    omega
  have notShorter : block.stop ≤ item.stop := by
    by_contra shorter
    simp only [Block.stop] at shorter
    obtain ⟨next, nextMember, meets⟩ := also.right_neighbour itemMember
      (by simp only [Block.stop]; omega)
    have nextInside := also.within next nextMember
    simp only [Block.stop] at nextInside meets
    have nextFree := isFree next nextMember next.start (by omega)
      (by simp only [Block.stop]; omega) (le_refl _) (by simp only [Block.stop]; omega)
    rcases coalescedToo item itemMember next nextMember
      (by simp only [Block.stop]; omega) with taken | taken
    · rw [itemFree] at taken
      cases taken
    · rw [nextFree] at taken
      cases taken
  have same : item = block := by
    simp only [Block.stop] at notLonger notShorter
    cases item
    cases block
    simp only at sameStart itemFree free notLonger notShorter
    subst sameStart
    rw [itemFree, free]
    congr 1
    omega
  exact same ▸ itemMember

/-- A tiling in which no two free blocks meet is known by its taken blocks. -/
theorem eq_of_taken {other : Set Block} (tiling : Tiling blocks low high)
    (also : Tiling other low high) (coalesced : Coalesced blocks) (coalescedToo : Coalesced other)
    (sameTaken : ∀ block, block.free = false → (block ∈ blocks ↔ block ∈ other)) :
    blocks = other := by
  ext block
  cases status : block.free with
  | false => exact sameTaken block status
  | true =>
      constructor
      · intro member
        exact free_mem_of_taken tiling also coalesced coalescedToo sameTaken member status
      · intro member
        exact free_mem_of_taken also tiling coalescedToo coalesced
          (fun item taken => (sameTaken item taken).symm) member status

end Tiling

/-! ### The words of the blocks -/

/-- An array of words with the head of its free list. -/
@[ext] structure Arena where
  words : Int → Int
  head : Int

namespace Arena

def links (arena : Arena) : Links Int :=
  { next := fun index => arena.words (index + 1)
    prev := fun index => arena.words (index + 2)
    head := arena.head }

@[simp] theorem links_head (arena : Arena) : arena.links.head = arena.head := rfl

def unlinkHead (arena : Arena) (index : Int) : Int :=
  if arena.links.prev index = 0 then arena.links.next index else arena.head

def unlinkWords (arena : Arena) (index : Int) : Int → Int :=
  let forward := if arena.links.prev index = 0 then arena.words
    else Function.update arena.words (arena.links.prev index + 1) (arena.links.next index)
  if arena.links.next index = 0 then forward
    else Function.update forward (arena.links.next index + 2) (arena.links.prev index)

/-- Take the block at `index` out of the free list. -/
def unlink (arena : Arena) (index : Int) : Arena :=
  { words := arena.unlinkWords index
    head := arena.unlinkHead index }

/-- Tag `[index, index + count)` as one taken block. -/
def claim (arena : Arena) (index count : Int) : Arena :=
  { arena with
    words := Function.update (Function.update arena.words index (-count))
      (index + count - 1) (-count) }

def releaseWords (arena : Arena) (index count : Int) : Int → Int :=
  let tagged := Function.update (Function.update arena.words index count)
    (index + count - 1) count
  let linked := Function.update (Function.update tagged (index + 1) arena.head) (index + 2) 0
  if arena.head = 0 then linked else Function.update linked (arena.head + 2) index

/-- Tag `[index, index + count)` as one free block and list it first. -/
def release (arena : Arena) (index count : Int) : Arena :=
  { words := arena.releaseWords index count
    head := index }

end Arena

/-- `blocks` are laid out below `high`, and the free list visits `order`. -/
structure Shape (arena : Arena) (blocks : Set Block) (order : List Int) (high : Int) : Prop where
  within : ∀ block ∈ blocks, 0 ≤ block.start ∧ 2 ≤ block.size ∧ block.stop ≤ high
  roomy : ∀ block ∈ blocks, block.free = true → 4 ≤ block.size
  apart : ∀ left ∈ blocks, ∀ right ∈ blocks, left ≠ right → left.Apart right
  tagged : ∀ block ∈ blocks, block.Tagged arena.words
  lists : arena.links.Lists 0 order
  listed : ∀ index ∈ order, ∃ block ∈ blocks, block.free = true ∧ block.start = index

namespace Shape

variable {arena : Arena} {blocks : Set Block} {order : List Int} {high : Int}

/-- Two listed blocks are the same or at least four words apart. -/
theorem spaced (shape : Shape arena blocks order high) {left right : Int}
    (leftListed : left ∈ order) (rightListed : right ∈ order) :
    left = right ∨ left + 4 ≤ right ∨ right + 4 ≤ left := by
  obtain ⟨block, member, free, atLeft⟩ := shape.listed left leftListed
  obtain ⟨other, otherMember, otherFree, atRight⟩ := shape.listed right rightListed
  by_cases same : block = other
  · subst same
    exact Or.inl (atLeft.symm.trans atRight)
  · have separate := shape.apart block member other otherMember same
    have room := shape.roomy block member free
    have otherRoom := shape.roomy other otherMember otherFree
    simp only [Block.Apart, Block.stop] at separate
    omega

/-- A link word of a listed block is no block's header or footer. -/
theorem link_not_tag (shape : Shape arena blocks order high) {index : Int}
    (isListed : index ∈ order) {block : Block} (member : block ∈ blocks) :
    index + 1 ≠ block.start ∧ index + 2 ≠ block.start ∧
      index + 1 ≠ block.footer ∧ index + 2 ≠ block.footer := by
  obtain ⟨owner, ownerMember, free, atIndex⟩ := shape.listed index isListed
  have room := shape.roomy owner ownerMember free
  have size := (shape.within block member).2.1
  by_cases same : owner = block
  · subst same
    simp only [Block.footer]
    omega
  · have separate := shape.apart owner ownerMember block member same
    simp only [Block.Apart, Block.stop, Block.footer] at separate ⊢
    omega

/-- A link word of a listed block lies in no taken block. -/
theorem link_outside (shape : Shape arena blocks order high) {index : Int}
    (isListed : index ∈ order) {block : Block} (member : block ∈ blocks)
    (taken : block.free = false) {word : Int} (inside : block.start ≤ word)
    (inside' : word < block.stop) : word ≠ index + 1 ∧ word ≠ index + 2 := by
  obtain ⟨owner, ownerMember, free, atIndex⟩ := shape.listed index isListed
  have room := shape.roomy owner ownerMember free
  have different : owner ≠ block := by
    intro same
    subst same
    rw [free] at taken
    cases taken
  have separate := shape.apart owner ownerMember block member different
  simp only [Block.Apart, Block.stop] at separate inside'
  omega

/-- Tags survive writes that avoid them. -/
theorem tagged_of_agree {words other : Int → Int} {block : Block} (tagged : block.Tagged words)
    (agree : ∀ index, index = block.start ∨ index = block.footer →
      other index = words index) : block.Tagged other :=
  ⟨(agree _ (Or.inl rfl)).trans tagged.1, (agree _ (Or.inr rfl)).trans tagged.2⟩

/-- Forgetting blocks that are not listed. -/
theorem restrict (shape : Shape arena blocks order high) (fewer : Set Block)
    (sub : fewer ⊆ blocks)
    (kept : ∀ index ∈ order, ∃ block ∈ fewer, block.free = true ∧ block.start = index) :
    Shape arena fewer order high :=
  { within := fun block member => shape.within block (sub member)
    roomy := fun block member => shape.roomy block (sub member)
    apart := fun left leftMember right rightMember =>
      shape.apart left (sub leftMember) right (sub rightMember)
    tagged := fun block member => shape.tagged block (sub member)
    lists := shape.lists
    listed := kept }

/-! ### Unlinking -/

theorem unlink_word (shape : Shape arena blocks order high) {index word : Int}
    (isListed : index ∈ order)
    (avoids : ∀ node ∈ order, word ≠ node + 1 ∧ word ≠ node + 2) :
    (arena.unlink index).words word = arena.words word := by
  have previous := shape.lists.prev_mem isListed
  have follower := shape.lists.next_mem isListed
  have forward : (if arena.links.prev index = 0 then arena.words
      else Function.update arena.words (arena.links.prev index + 1)
        (arena.links.next index)) word = arena.words word := by
    by_cases atHead : arena.links.prev index = 0
    · rw [if_pos atHead]
    · rw [if_neg atHead, Function.update_of_ne]
      exact (avoids _ (previous.resolve_left atHead)).1
  simp only [Arena.unlink, Arena.unlinkWords]
  by_cases atEnd : arena.links.next index = 0
  · rw [if_pos atEnd]
    exact forward
  · rw [if_neg atEnd, Function.update_of_ne]
    · exact forward
    · exact (avoids _ (follower.resolve_left atEnd)).2

theorem unlink_next (shape : Shape arena blocks order high) {index node : Int}
    (isListed : index ∈ order) (member : node ∈ order) :
    (arena.unlink index).links.next node = (arena.links.unlink 0 index).next node := by
  have previous := shape.lists.prev_mem isListed
  have follower := shape.lists.next_mem isListed
  have forward : (if arena.links.prev index = 0 then arena.words
      else Function.update arena.words (arena.links.prev index + 1)
        (arena.links.next index)) (node + 1) =
      (arena.links.unlink 0 index).next node := by
    simp only [Links.unlink]
    by_cases atHead : arena.links.prev index = 0
    · rw [if_pos atHead, if_pos atHead]
      rfl
    · rw [if_neg atHead, if_neg atHead]
      by_cases same : node = arena.links.prev index
      · subst same
        rw [Function.update_self, Function.update_self]
      · rw [Function.update_of_ne same, Function.update_of_ne (by omega)]
        rfl
  change (arena.unlinkWords index) (node + 1) = _
  simp only [Arena.unlinkWords]
  by_cases atEnd : arena.links.next index = 0
  · rw [if_pos atEnd]
    exact forward
  · rw [if_neg atEnd, Function.update_of_ne]
    · exact forward
    · have apart := shape.spaced member (follower.resolve_left atEnd)
      omega

theorem unlink_prev (shape : Shape arena blocks order high) {index node : Int}
    (isListed : index ∈ order) (member : node ∈ order) :
    (arena.unlink index).links.prev node = (arena.links.unlink 0 index).prev node := by
  have previous := shape.lists.prev_mem isListed
  have forward : (if arena.links.prev index = 0 then arena.words
      else Function.update arena.words (arena.links.prev index + 1)
        (arena.links.next index)) (node + 2) = arena.links.prev node := by
    by_cases atHead : arena.links.prev index = 0
    · rw [if_pos atHead]
      rfl
    · rw [if_neg atHead, Function.update_of_ne]
      · rfl
      · have apart := shape.spaced member (previous.resolve_left atHead)
        omega
  change (arena.unlinkWords index) (node + 2) = _
  simp only [Arena.unlinkWords, Links.unlink]
  by_cases atEnd : arena.links.next index = 0
  · rw [if_pos atEnd, if_pos atEnd]
    exact forward
  · rw [if_neg atEnd, if_neg atEnd]
    by_cases same : node = arena.links.next index
    · subst same
      rw [Function.update_self, Function.update_self]
    · rw [Function.update_of_ne same, Function.update_of_ne (by omega)]
      exact forward

/-- Unlinking changes link words only: every block keeps its tags. -/
theorem unlink (shape : Shape arena blocks order high) {index : Int} (isListed : index ∈ order) :
    Shape (arena.unlink index) blocks (order.erase index) high := by
  refine ⟨shape.within, shape.roomy, shape.apart, ?_, ?_, ?_⟩
  · intro block member
    apply tagged_of_agree (shape.tagged block member)
    intro word isTag
    apply shape.unlink_word isListed
    intro node nodeListed
    have clear := shape.link_not_tag nodeListed member
    rcases isTag with atStart | atFooter
    · subst atStart
      exact ⟨clear.1.symm, clear.2.1.symm⟩
    · subst atFooter
      exact ⟨clear.2.2.1.symm, clear.2.2.2.symm⟩
  · apply (shape.lists.unlink isListed).congr
    · rfl
    · intro node member
      exact shape.unlink_next isListed (List.mem_of_mem_erase member)
    · intro node member
      exact shape.unlink_prev isListed (List.mem_of_mem_erase member)
  · intro node member
    exact shape.listed node (List.mem_of_mem_erase member)

/-! ### Tagging new blocks -/

/-- The place where a block is about to be tagged. -/
structure Vacant (blocks : Set Block) (high : Int) (fresh : Block) : Prop where
  lower : 0 ≤ fresh.start
  upper : fresh.stop ≤ high
  least : 2 ≤ fresh.size
  apart : ∀ block ∈ blocks, block.Apart fresh

private theorem apart_insert {fresh : Block} (shape : Shape arena blocks order high)
    (vacant : Vacant blocks high fresh) :
    ∀ left ∈ insert fresh blocks, ∀ right ∈ insert fresh blocks,
      left ≠ right → left.Apart right := by
  rintro left (rfl | leftOld) right (rfl | rightOld) different
  · exact absurd rfl different
  · exact (vacant.apart right rightOld).symm
  · exact vacant.apart left leftOld
  · exact shape.apart left leftOld right rightOld different

private theorem within_insert {fresh : Block} (shape : Shape arena blocks order high)
    (vacant : Vacant blocks high fresh) :
    ∀ block ∈ insert fresh blocks, 0 ≤ block.start ∧ 2 ≤ block.size ∧ block.stop ≤ high := by
  rintro block (rfl | old)
  · exact ⟨vacant.lower, vacant.least, vacant.upper⟩
  · exact shape.within block old

theorem claim_word (arena : Arena) {index count word : Int}
    (notHeader : word ≠ index) (notFooter : word ≠ index + count - 1) :
    (arena.claim index count).words word = arena.words word := by
  simp only [Arena.claim]
  rw [Function.update_of_ne notFooter, Function.update_of_ne notHeader]

/-- A word of an existing block is outside a vacant place. -/
theorem Vacant.word_outside {fresh block : Block} (vacant : Vacant blocks high fresh)
    (member : block ∈ blocks) {word : Int} (lower : block.start ≤ word)
    (upper : word < block.stop) : word < fresh.start ∨ fresh.stop ≤ word := by
  have separate := vacant.apart block member
  simp only [Block.Apart] at separate
  omega

theorem claim (shape : Shape arena blocks order high) (index count : Int)
    (vacant : Vacant blocks high ⟨index, count, false⟩) :
    Shape (arena.claim index count) (insert ⟨index, count, false⟩ blocks) order high := by
  have least : 2 ≤ count := vacant.least
  have agree : ∀ block ∈ blocks, ∀ word, block.start ≤ word → word < block.stop →
      (arena.claim index count).words word = arena.words word := by
    intro block member word lower upper
    have outside := vacant.word_outside member lower upper
    simp only [Block.stop] at outside
    exact claim_word arena (by omega) (by omega)
  refine ⟨within_insert shape vacant, ?_, apart_insert shape vacant, ?_, ?_, ?_⟩
  · rintro block (rfl | old) free
    · cases free
    · exact shape.roomy block old free
  · rintro block (rfl | old)
    · refine ⟨?_, ?_⟩
      · change Function.update (Function.update arena.words index (-count))
          (index + count - 1) (-count) index = -count
        rw [Function.update_of_ne (by omega), Function.update_self]
      · exact Function.update_self _ _ _
    · have size := (shape.within block old).2.1
      apply tagged_of_agree (shape.tagged block old)
      intro word isTag
      apply agree block old word
      · simp only [Block.footer] at isTag
        omega
      · simp only [Block.footer, Block.stop] at isTag ⊢
        omega
  · apply shape.lists.congr
    · rfl
    · intro node member
      obtain ⟨owner, ownerMember, free, atNode⟩ := shape.listed node member
      have room := shape.roomy owner ownerMember free
      exact agree owner ownerMember (node + 1) (by omega) (by simp only [Block.stop]; omega)
    · intro node member
      obtain ⟨owner, ownerMember, free, atNode⟩ := shape.listed node member
      have room := shape.roomy owner ownerMember free
      exact agree owner ownerMember (node + 2) (by omega) (by simp only [Block.stop]; omega)
  · intro node member
    obtain ⟨owner, ownerMember, rest⟩ := shape.listed node member
    exact ⟨owner, Or.inr ownerMember, rest⟩

/-! ### Releasing -/

theorem release_word (arena : Arena) {index count word : Int} (least : 4 ≤ count)
    (outside : word < index ∨ index + count ≤ word)
    (notHeadLink : arena.head ≠ 0 → word ≠ arena.head + 2) :
    (arena.release index count).words word = arena.words word := by
  have linked : Function.update (Function.update (Function.update (Function.update arena.words
      index count) (index + count - 1) count) (index + 1) arena.head) (index + 2) 0 word =
      arena.words word := by
    rw [Function.update_of_ne (by omega), Function.update_of_ne (by omega),
      Function.update_of_ne (by omega), Function.update_of_ne (by omega)]
  simp only [Arena.release, Arena.releaseWords]
  by_cases empty : arena.head = 0
  · rw [if_pos empty]
    exact linked
  · rw [if_neg empty, Function.update_of_ne (notHeadLink empty)]
    exact linked

private theorem release_own (shape : Shape arena blocks order high) {index count word : Int}
    (vacant : Vacant blocks high ⟨index, count, true⟩)
    (lower : index ≤ word) (upper : word < index + count) :
    (arena.release index count).words word =
      Function.update (Function.update (Function.update (Function.update arena.words
        index count) (index + count - 1) count) (index + 1) arena.head) (index + 2) 0 word := by
  simp only [Arena.release, Arena.releaseWords]
  by_cases empty : arena.head = 0
  · rw [if_pos empty]
  · rw [if_neg empty, Function.update_of_ne]
    have headListed : arena.head ∈ order := shape.lists.head_mem.resolve_left empty
    obtain ⟨owner, ownerMember, free, atHead⟩ := shape.listed _ headListed
    have room := shape.roomy owner ownerMember free
    have separate := vacant.apart owner ownerMember
    simp only [Block.Apart, Block.stop] at separate
    omega

private theorem Vacant.release_kept {index count word : Int}
    (vacant : Vacant blocks high ⟨index, count, true⟩) (arena : Arena) (room : 4 ≤ count)
    {block : Block} (member : block ∈ blocks) (lower : block.start ≤ word)
    (upper : word < block.stop) (notLink : arena.head ≠ 0 → word ≠ arena.head + 2) :
    (arena.release index count).words word = arena.words word :=
  release_word arena room (vacant.word_outside member lower upper) notLink

/-- Nothing is listed where a block is about to be tagged. -/
theorem Vacant.not_listed {index count : Int} {free : Bool}
    (vacant : Vacant blocks high ⟨index, count, free⟩) (shape : Shape arena blocks order high) :
    index ∉ order := by
  intro present
  obtain ⟨owner, ownerMember, free, atIndex⟩ := shape.listed index present
  have ownerRoom := shape.roomy owner ownerMember free
  have least := vacant.least
  have separate := vacant.apart owner ownerMember
  simp only [Block.Apart, Block.stop] at separate least
  omega

private theorem release_tagged (shape : Shape arena blocks order high) {index count : Int}
    (vacant : Vacant blocks high ⟨index, count, true⟩) (room : 4 ≤ count) {block : Block}
    (member : block ∈ insert ⟨index, count, true⟩ blocks) :
    block.Tagged (arena.release index count).words := by
  rcases member with rfl | old
  · constructor
    · change (arena.release index count).words index = count
      rw [shape.release_own vacant (le_refl _) (by omega), Function.update_of_ne (by omega),
        Function.update_of_ne (by omega), Function.update_of_ne (by omega),
        Function.update_self]
    · change (arena.release index count).words (index + count - 1) = count
      rw [shape.release_own vacant (by omega) (by omega), Function.update_of_ne (by omega),
        Function.update_of_ne (by omega), Function.update_self]
  · have size := (shape.within block old).2.1
    apply tagged_of_agree (shape.tagged block old)
    intro word isTag
    apply vacant.release_kept arena room old
    · simp only [Block.footer] at isTag
      omega
    · simp only [Block.footer, Block.stop] at isTag ⊢
      omega
    · intro occupied
      have clear := shape.link_not_tag (shape.lists.head_mem.resolve_left occupied) old
      rcases isTag with atStart | atFooter
      · subst atStart
        exact clear.2.1.symm
      · subst atFooter
        exact clear.2.2.2.symm

theorem release_next (shape : Shape arena blocks order high) {index count node : Int}
    (vacant : Vacant blocks high ⟨index, count, true⟩) (room : 4 ≤ count)
    (member : node ∈ index :: order) :
    (arena.release index count).links.next node = (arena.links.push 0 index).next node := by
  change (arena.release index count).words (node + 1) =
    Function.update arena.links.next index arena.head node
  rcases List.mem_cons.mp member with same | old
  · subst same
    rw [shape.release_own vacant (by omega) (by omega), Function.update_of_ne (by omega),
      Function.update_self, Function.update_self]
  · obtain ⟨owner, ownerMember, free, atNode⟩ := shape.listed node old
    have ownerRoom := shape.roomy owner ownerMember free
    have notIndex : node ≠ index := fun same => vacant.not_listed shape (same ▸ old)
    rw [Function.update_of_ne notIndex]
    apply vacant.release_kept arena room ownerMember (by omega) (by simp only [Block.stop]; omega)
    intro occupied
    have apart := shape.spaced old (shape.lists.head_mem.resolve_left occupied)
    rw [Arena.links_head] at apart
    omega

theorem release_prev (shape : Shape arena blocks order high) {index count node : Int}
    (vacant : Vacant blocks high ⟨index, count, true⟩) (room : 4 ≤ count)
    (member : node ∈ index :: order) :
    (arena.release index count).links.prev node = (arena.links.push 0 index).prev node := by
  have fresh := vacant.not_listed shape
  change (arena.release index count).words (node + 2) = (arena.links.push 0 index).prev node
  simp only [Links.push]
  rcases List.mem_cons.mp member with same | old
  · subst same
    rw [shape.release_own vacant (by omega) (by omega), Function.update_self]
    by_cases empty : arena.links.head = 0
    · rw [if_pos empty, Function.update_self]
    · have headListed := shape.lists.head_mem.resolve_left empty
      have notHead : node ≠ arena.links.head := fun same => fresh (same ▸ headListed)
      rw [if_neg empty, Function.update_of_ne notHead, Function.update_self]
  · obtain ⟨owner, ownerMember, free, atNode⟩ := shape.listed node old
    have ownerRoom := shape.roomy owner ownerMember free
    have notIndex : node ≠ index := fun same => fresh (same ▸ old)
    have kept (notLink : arena.head ≠ 0 → node + 2 ≠ arena.head + 2) :
        (arena.release index count).words (node + 2) = arena.links.prev node :=
      vacant.release_kept arena room ownerMember (by omega) (by simp only [Block.stop]; omega)
        notLink
    by_cases empty : arena.links.head = 0
    · rw [if_pos empty, Function.update_of_ne notIndex]
      exact kept fun occupied => absurd empty occupied
    · rw [if_neg empty]
      by_cases atHead : node = arena.links.head
      · -- the old head now points back at the released block
        subst atHead
        rw [Function.update_self]
        change arena.releaseWords index count (arena.head + 2) = index
        simp only [Arena.releaseWords]
        rw [Arena.links_head] at empty
        rw [if_neg empty]
        exact Function.update_self _ _ _
      · rw [Function.update_of_ne atHead, Function.update_of_ne notIndex]
        apply kept
        intro occupied same
        exact atHead (by change node = arena.head; omega)

theorem release (shape : Shape arena blocks order high) (index count : Int)
    (vacant : Vacant blocks high ⟨index, count, true⟩) (room : 4 ≤ count) (real : index ≠ 0) :
    Shape (arena.release index count) (insert ⟨index, count, true⟩ blocks)
      (index :: order) high := by
  constructor
  · exact within_insert shape vacant
  · rintro block (rfl | old) free
    · exact room
    · exact shape.roomy block old free
  · exact apart_insert shape vacant
  · exact fun block member => shape.release_tagged vacant room member
  · apply (shape.lists.push (vacant.not_listed shape) real).congr
    · rfl
    · exact fun node member => shape.release_next vacant room member
    · exact fun node member => shape.release_prev vacant room member
  · intro node member
    rcases List.mem_cons.mp member with same | old
    · subst same
      exact ⟨_, Or.inl rfl, rfl, rfl⟩
    · obtain ⟨owner, ownerMember, rest⟩ := shape.listed node old
      exact ⟨owner, Or.inr ownerMember, rest⟩

end Shape

end BoundaryTags
