/-
What one malloc does to the layout of the heap.

The search loop is identified with a choice on the free-list order: the
smallest of the first twenty fitting blocks, the earliest on ties.  The block
it chooses is then carved, and nothing else changes.
-/

import AC97Kernel.Heap.Layout
import Mathlib.Order.Interval.Finset.Defs
import Mathlib.Data.Int.Interval

set_option autoImplicit false

namespace AC97Kernel

open BoundaryTags LinkedChain

namespace Heap

/-! ### The choice -/

/-- The blocks `malloc` looks at: the first twenty that fit. -/
def candidates (heap : Heap) (ints : Int) (order : List Int) : List Int :=
  (order.filter (fun p => decide (ints ≤ heap.size p))).take 20

def choice (heap : Heap) (ints : Int) (order : List Int) : Option Int :=
  (heap.candidates ints order).minOn? heap.size

/-- One round of the loop on its two accumulators. -/
def better (heap : Heap) (best : Int × Int) (p : Int) : Int × Int :=
  if heap.size p < best.1 then (heap.size p, p) else best

theorem search_eq (heap : Heap) (ints : Int) (rest : List Int)
    (usable : ∀ p ∈ rest, heap.isAvail p = true) (real : 0 ∉ rest)
    (fuel : Nat) (p : Int) (countDown : Nat) (best : Int × Int)
    (follows : Segment heap.next p rest 0) (enough : rest.length < fuel)
    (counting : 0 < countDown) :
    heap.search ints fuel p countDown best.1 best.2 =
      some (((rest.filter (fun q => decide (ints ≤ heap.size q))).take countDown).foldl
        heap.better best) := by
  induction rest generalizing fuel p countDown best with
  | nil =>
      obtain ⟨more, rfl⟩ : ∃ more, fuel = more + 1 := ⟨fuel - 1, by omega⟩
      have atEnd : p = 0 := follows
      unfold search
      rw [if_pos atEnd]
      simp
  | cons node rest ih =>
      obtain ⟨more, rfl⟩ : ∃ more, fuel = more + 1 := ⟨fuel - 1, by omega⟩
      obtain ⟨atNode, onward⟩ := follows
      subst atNode
      have nodeReal : p ≠ 0 := fun same => real (same ▸ List.mem_cons_self)
      have nodeUsable := usable p List.mem_cons_self
      have restUsable : ∀ q ∈ rest, heap.isAvail q = true :=
        fun q member => usable q (List.mem_cons_of_mem _ member)
      have restReal : 0 ∉ rest := fun member => real (List.mem_cons_of_mem _ member)
      have restEnough : rest.length < more := by
        rw [List.length_cons] at enough
        omega
      have continue' := fun countDown best positive =>
        ih restUsable restReal more (heap.next p) countDown best onward restEnough positive
      unfold search
      rw [if_neg nodeReal, nodeUsable]
      simp only [Bool.not_true, Bool.false_eq_true, if_false]
      by_cases fits : ints ≤ heap.size p
      · have listed : (p :: rest).filter (fun q => decide (ints ≤ heap.size q)) =
            p :: rest.filter (fun q => decide (ints ≤ heap.size q)) := by
          rw [List.filter_cons_of_pos (by simpa using fits)]
        obtain ⟨left, rfl⟩ : ∃ left, countDown = left + 1 := ⟨countDown - 1, by omega⟩
        rw [if_pos fits, listed, List.take_succ_cons, List.foldl_cons]
        change (if left + 1 - 1 = 0 then some (heap.better best p)
          else heap.search ints more (heap.next p) (left + 1 - 1)
            (heap.better best p).1 (heap.better best p).2) = _
        by_cases finished : left = 0
        · subst finished
          rfl
        · rw [if_neg (by omega)]
          exact continue' left (heap.better best p) (by omega)
      · have skipped : (p :: rest).filter (fun q => decide (ints ≤ heap.size q)) =
            rest.filter (fun q => decide (ints ≤ heap.size q)) := by
          rw [List.filter_cons_of_neg (by simpa using fits)]
        rw [if_neg fits, skipped]
        exact continue' countDown best counting

/-- From a block with its size on, the accumulators are the least block so far with its size. -/
private theorem foldl_better (heap : Heap) (nodes : List Int) (it : Int) :
    nodes.foldl heap.better (heap.size it, it) =
      (heap.size (nodes.foldl (minOn heap.size) it), nodes.foldl (minOn heap.size) it) := by
  induction nodes generalizing it with
  | nil => rfl
  | cons node rest ih =>
      have stepped : heap.better (heap.size it, it) node =
          (heap.size (minOn heap.size it node), minOn heap.size it node) := by
        unfold better minOn
        by_cases smaller : heap.size node < heap.size it
        · rw [if_pos smaller, if_neg (by omega)]
        · rw [if_neg smaller, if_pos (by omega)]
      rw [List.foldl_cons, List.foldl_cons, stepped]
      exact ih _

/-- The sentinel pair loses to the first block, so the loop ends on the least of all. -/
private theorem foldl_better_sentinel (heap : Heap) (nodes : List Int)
    (small : ∀ p ∈ nodes, heap.size p < 0x7FFFFFFF) :
    nodes.foldl heap.better (0x7FFFFFFF, 0) =
      match nodes.minOn? heap.size with
      | some it => (heap.size it, it)
      | none => (0x7FFFFFFF, 0) := by
  cases nodes with
  | nil => rfl
  | cons node rest =>
      have first : heap.better (0x7FFFFFFF, 0) node = (heap.size node, node) :=
        if_pos (small node List.mem_cons_self)
      rw [List.foldl_cons, first, foldl_better]
      rfl

namespace Layout

variable {heap : Heap} {blocks : Set Block} {order : List Int}

theorem block_of_listed (layout : Layout heap blocks order) {index : Int}
    (member : index ∈ order) :
    ∃ block ∈ blocks, block.free = true ∧ block.start = index ∧
      heap.size index = block.size := by
  obtain ⟨block, blockMember, free, atIndex⟩ := (layout.listed index).mp member
  refine ⟨block, blockMember, free, atIndex, ?_⟩
  rw [← atIndex]
  exact layout.size_eq blockMember

theorem order_length_le (layout : Layout heap blocks order) :
    order.length ≤ heap.len.toNat := by
  have inside : order.toFinset ⊆ Finset.Ico 0 heap.len := by
    intro index member
    obtain ⟨block, blockMember, free, atIndex, _⟩ :=
      layout.block_of_listed (List.mem_toFinset.mp member)
    have bounds := layout.tiling.within block blockMember
    rw [Finset.mem_Ico]
    simp only [Block.stop] at bounds
    omega
  have counted := Finset.card_le_card inside
  rw [List.toFinset_card_of_nodup layout.visits.distinct, Int.card_Ico] at counted
  omega

/-- The search loop comes back, with the chosen block or with nothing. -/
theorem search_choice (layout : Layout heap blocks order) (short : heap.len < 0x7FFFFFFF)
    (ints : Int) :
    heap.search ints (heap.len.toNat + 1) heap.avail 20 0x7FFFFFFF 0 =
      some (match heap.choice ints order with
        | none => (0x7FFFFFFF, 0)
        | some it => (heap.size it, it)) := by
  have usable : ∀ p ∈ order, heap.isAvail p = true := by
    intro p member
    obtain ⟨block, blockMember, free, atIndex⟩ := (layout.listed p).mp member
    rw [← atIndex, layout.isAvail_eq blockMember]
    exact free
  have small : ∀ p ∈ heap.candidates ints order, heap.size p < 0x7FFFFFFF := by
    intro p member
    have listed := List.mem_of_mem_filter (List.mem_of_mem_take member)
    obtain ⟨block, blockMember, _, _, sizeIs⟩ := layout.block_of_listed listed
    have bounds := layout.tiling.within block blockMember
    simp only [Block.stop] at bounds
    omega
  have length := layout.order_length_le
  have searched := search_eq heap ints order usable layout.visits.real
    (heap.len.toNat + 1) heap.avail 20 (0x7FFFFFFF, 0) layout.visits.forward
    (by omega) (by omega)
  rw [searched]
  have folded := foldl_better_sentinel heap (heap.candidates ints order) small
  unfold choice
  cases chosen : (heap.candidates ints order).minOn? heap.size with
  | none =>
      rw [chosen] at folded
      exact congrArg some folded
  | some it =>
      rw [chosen] at folded
      exact congrArg some folded

theorem choice_spec (layout : Layout heap blocks order) {ints it : Int}
    (chosen : heap.choice ints order = some it) :
    ∃ block ∈ blocks, block.free = true ∧ block.start = it ∧ ints ≤ block.size := by
  have member : it ∈ heap.candidates ints order := List.minOn?_mem chosen
  have filtered := List.mem_of_mem_take member
  have listed := List.mem_of_mem_filter filtered
  have fits : ints ≤ heap.size it := by simpa using (List.mem_filter.mp filtered).2
  obtain ⟨block, blockMember, free, atIndex, sizeIs⟩ := layout.block_of_listed listed
  exact ⟨block, blockMember, free, atIndex, sizeIs ▸ fits⟩

theorem choice_none_iff (layout : Layout heap blocks order) (ints : Int) :
    heap.choice ints order = none ↔
      ∀ block ∈ blocks, block.free = true → block.size < ints := by
  unfold choice candidates
  rw [← Option.not_isSome_iff_eq_none, List.isSome_minOn?_iff, not_not, List.take_eq_nil_iff]
  constructor
  · intro empty block member free
    have noneFits := empty.resolve_left (by omega)
    rw [List.filter_eq_nil_iff] at noneFits
    have listed : block.start ∈ order := (layout.listed _).mpr ⟨block, member, free, rfl⟩
    have small := noneFits block.start listed
    rw [layout.size_eq member] at small
    simpa using small
  · intro small
    right
    rw [List.filter_eq_nil_iff]
    intro p listed
    obtain ⟨block, member, free, _, sizeIs⟩ := layout.block_of_listed listed
    have below := small block member free
    rw [sizeIs]
    simpa using below

end Layout

/-! ### Carving -/

/-- What becomes of a free block that a request of `ints` takes. -/
def carve (block : Block) (ints : Int) : Set Block :=
  if ints + 4 ≤ block.size then
    {⟨block.start, ints, false⟩, ⟨block.start + ints, block.size - ints, true⟩}
  else {⟨block.start, block.size, false⟩}

theorem intsFor_ge_four (bytes : UInt32) : 4 ≤ intsFor bytes := by
  unfold intsFor
  simp only
  split <;> omega

theorem carve_tiling (block : Block) {ints : Int} (positive : 0 < ints)
    (fits : ints ≤ block.size) :
    Tiling (carve block ints) block.start block.stop := by
  unfold carve
  by_cases split : ints + 4 ≤ block.size
  · rw [if_pos split]
    have taken := Tiling.singleton (⟨block.start, ints, false⟩ : Block) positive
    have extra := Tiling.singleton
      (⟨block.start + ints, block.size - ints, true⟩ : Block) (by simp only []; omega)
    have meets : (⟨block.start + ints, block.size - ints, true⟩ : Block).stop = block.stop := by
      simp only [Block.stop]
      omega
    rw [meets] at extra
    have first : (⟨block.start, ints, false⟩ : Block).stop = block.start + ints := rfl
    rw [first] at taken
    exact taken.union extra (show block.start ≤ block.start + ints by omega)
      (by simp only [Block.stop]; omega)
  · rw [if_neg split]
    exact Tiling.singleton (⟨block.start, block.size, false⟩ : Block) (by simp only []; omega)

/-- The free list after a request of `ints` takes `block`. -/
def carveOrder (block : Block) (ints : Int) (order : List Int) : List Int :=
  if ints + 4 ≤ block.size then (block.start + ints) :: order.erase block.start
  else order.erase block.start

/-- The block that the caller gets. -/
def carved (block : Block) (ints : Int) : Block :=
  ⟨block.start, if ints + 4 ≤ block.size then ints else block.size, false⟩

theorem carved_mem (block : Block) (ints : Int) : carved block ints ∈ carve block ints := by
  unfold carved carve
  by_cases split : ints + 4 ≤ block.size
  · rw [if_pos split, if_pos split]
    exact Or.inl rfl
  · rw [if_neg split, if_neg split]
    rfl

/-- Only the last piece of a carved block can be free, and then it is the tail. -/
theorem mem_carve {block piece : Block} {ints : Int} (member : piece ∈ carve block ints) :
    piece = carved block ints ∨
      (ints + 4 ≤ block.size ∧ piece = ⟨block.start + ints, block.size - ints, true⟩) := by
  unfold carve at member
  unfold carved
  by_cases split : ints + 4 ≤ block.size
  · rw [if_pos split] at member ⊢
    rcases member with same | same
    · exact Or.inl same
    · exact Or.inr ⟨split, same⟩
  · rw [if_neg split] at member ⊢
    exact Or.inl member

/-- The body of `malloc` once a block is chosen. -/
def carveBlock (heap : Heap) (block : Block) (ints : Int) : Heap :=
  if ints + 4 ≤ block.size then
    ((heap.remove block.start).makeTaken block.start ints).makeAvail
      (block.start + ints) (block.size - ints)
  else (heap.remove block.start).makeTaken block.start block.size

@[simp] theorem carveBlock_base (heap : Heap) (block : Block) (ints : Int) :
    (heap.carveBlock block ints).base = heap.base := by
  unfold carveBlock
  split <;> simp

@[simp] theorem carveBlock_len (heap : Heap) (block : Block) (ints : Int) :
    (heap.carveBlock block ints).len = heap.len := by
  unfold carveBlock
  split <;> simp

namespace Layout

variable {heap : Heap} {blocks : Set Block} {order : List Int}

/-- The shape left once the chosen block is unlinked and no longer counted. -/
theorem removed_shape (layout : Layout heap blocks order) {block : Block}
    (member : block ∈ blocks) (free : block.free = true) :
    Shape (heap.remove block.start).arena (blocks \ {block}) (order.erase block.start)
      heap.len := by
  have isListed : block.start ∈ order := (layout.listed _).mpr ⟨block, member, free, rfl⟩
  have unlinked := layout.shape.unlink isListed
  rw [← remove_arena] at unlinked
  apply unlinked.restrict _ Set.sdiff_subset
  intro index inErased
  rw [layout.visits.distinct.mem_erase_iff] at inErased
  obtain ⟨other, otherMember, otherFree, atIndex⟩ := (layout.listed index).mp inErased.2
  refine ⟨other, ⟨otherMember, ?_⟩, otherFree, atIndex⟩
  intro same
  cases same
  exact inErased.1 atIndex.symm

private theorem apart_of_within (layout : Layout heap blocks order) {block piece other : Block}
    (member : block ∈ blocks) (lower : block.start ≤ piece.start)
    (upper : piece.stop ≤ block.stop) (otherMember : other ∈ blocks \ {block}) :
    other.Apart piece := by
  have separate := layout.tiling.apart other otherMember.1 block member otherMember.2
  simp only [Block.Apart] at separate ⊢
  omega

/-- The shape after the chosen block is carved. -/
private theorem carve_shape (layout : Layout heap blocks order) {block : Block}
    (member : block ∈ blocks) (free : block.free = true) {ints : Int} (least : 4 ≤ ints)
    (fits : ints ≤ block.size) :
    Shape (heap.carveBlock block ints).arena ((blocks \ {block}) ∪ carve block ints)
      (carveOrder block ints order) heap.len := by
  have inside := layout.tiling.within block member
  have start := layout.start_pos_of_free member free
  have removed := layout.removed_shape member free
  unfold carveBlock carve carveOrder
  by_cases split : ints + 4 ≤ block.size
  · rw [if_pos split, if_pos split, if_pos split]
    have claimed := removed.claim block.start ints
      ⟨inside.1, by simp only [Block.stop] at inside ⊢; omega, by simp only []; omega,
        fun other otherMember => layout.apart_of_within member (le_refl _)
          (by simp only [Block.stop]; omega) otherMember⟩
    have released := claimed.release (block.start + ints) (block.size - ints)
      ⟨by simp only []; omega, by simp only [Block.stop] at inside ⊢; omega,
        by simp only []; omega, by
        rintro other (rfl | otherMember)
        · exact Or.inl (by simp only [Block.stop]; omega)
        · exact layout.apart_of_within member (by simp only []; omega)
            (by simp only [Block.stop]; omega) otherMember⟩ (by omega) (by omega)
    rw [makeAvail_arena _ _ (by omega), makeTaken_arena _ _ (by omega)]
    have sameSet : (blocks \ {block}) ∪ {(⟨block.start, ints, false⟩ : Block),
        ⟨block.start + ints, block.size - ints, true⟩} =
        insert (⟨block.start + ints, block.size - ints, true⟩ : Block)
          (insert ⟨block.start, ints, false⟩ (blocks \ {block})) := by
      ext item
      simp only [Set.mem_union, Set.mem_insert_iff, Set.mem_singleton_iff]
      tauto
    rw [sameSet]
    exact released
  · rw [if_neg split, if_neg split, if_neg split]
    have claimed := removed.claim block.start block.size
      ⟨inside.1, inside.2.2, by simp only []; omega,
        fun other otherMember => layout.apart_of_within member (le_refl _) (le_refl _)
          otherMember⟩
    rw [makeTaken_arena _ _ (by omega), Set.union_singleton]
    exact claimed

/-- Carving writes into no block that was taken before. -/
theorem carve_frame (layout : Layout heap blocks order) {block : Block}
    (member : block ∈ blocks) (free : block.free = true) {ints : Int} (least : 4 ≤ ints)
    (fits : ints ≤ block.size) {other : Block} (otherMember : other ∈ blocks)
    (taken : other.free = false) {word : Int} (lower : other.start ≤ word)
    (upper : word < other.stop) :
    (heap.carveBlock block ints).array word = heap.array word := by
  have isListed : block.start ∈ order := (layout.listed _).mpr ⟨block, member, free, rfl⟩
  have different : other ≠ block := by
    intro same
    subst same
    rw [free] at taken
    cases taken
  have separate := layout.tiling.apart other otherMember block member different
  have avoids := fun node (nodeListed : node ∈ order) =>
    layout.shape.link_outside nodeListed otherMember taken lower upper
  simp only [Block.Apart, Block.stop] at separate upper
  have removed : (heap.remove block.start).array word = heap.array word := by
    have unlinked := layout.shape.unlink_word isListed avoids
    rw [← remove_arena] at unlinked
    exact unlinked
  unfold carveBlock
  by_cases split : ints + 4 ≤ block.size
  · rw [if_pos split, makeAvail_word _ (by omega) (by omega),
      makeTaken_word _ (by omega) (by omega)]
    · exact removed
    · intro occupied
      have headListed := (layout.removed_shape member free).lists.head_mem.resolve_left occupied
      exact (avoids _ (List.mem_of_mem_erase headListed)).2
  · rw [if_neg split, makeTaken_word _ (by omega) (by omega)]
    exact removed

/-- The neighbours of the carved pieces: two free blocks never meet. -/
private theorem carve_coalesced (layout : Layout heap blocks order) {block : Block}
    (member : block ∈ blocks) (free : block.free = true) {ints : Int} (least : 4 ≤ ints)
    (fits : ints ≤ block.size) :
    ∀ left ∈ (blocks \ {block}) ∪ carve block ints,
      ∀ right ∈ (blocks \ {block}) ∪ carve block ints, left.stop = right.start →
        left.free = false ∨ right.free = false := by
  have oldApart : ∀ other ∈ blocks \ {block}, other.Apart block := fun other otherMember =>
    layout.tiling.apart other otherMember.1 block member otherMember.2
  intro left leftMember right rightMember adjacent
  rcases leftMember with leftOld | leftPiece
  · rcases rightMember with rightOld | rightPiece
    · exact layout.coalesced left leftOld.1 right rightOld.1 adjacent
    · rcases mem_carve rightPiece with same | ⟨split, same⟩
      · subst same
        exact Or.inr rfl
      · -- nothing outside the block ends where its tail begins
        have separate := oldApart left leftOld
        have positive := layout.size_ge_two leftOld.1
        subst same
        simp only [Block.Apart, Block.stop] at separate adjacent
        omega
  · rcases mem_carve leftPiece with same | ⟨split, same⟩
    · subst same
      exact Or.inl rfl
    · have tailStop : left.stop = block.stop := by
        subst same
        simp only [Block.stop]
        omega
      rw [tailStop] at adjacent
      rcases rightMember with rightOld | rightPiece
      · have known := layout.coalesced block member right rightOld.1 adjacent
        rw [free] at known
        exact Or.inr (known.resolve_left (by decide))
      · have inside := (carve_tiling block (by omega) fits).within right rightPiece
        simp only [Block.stop] at inside adjacent
        omega

private theorem carve_listed (layout : Layout heap blocks order) {block : Block}
    (member : block ∈ blocks) (ints index : Int) :
    index ∈ carveOrder block ints order ↔
      ∃ piece ∈ (blocks \ {block}) ∪ carve block ints, piece.free = true ∧
        piece.start = index := by
  have erased : index ∈ order.erase block.start ↔
      ∃ piece ∈ blocks \ {block}, piece.free = true ∧ piece.start = index := by
    rw [layout.visits.distinct.mem_erase_iff, layout.listed]
    constructor
    · rintro ⟨different, piece, pieceMember, pieceFree, atIndex⟩
      refine ⟨piece, ⟨pieceMember, ?_⟩, pieceFree, atIndex⟩
      intro same
      cases same
      exact different atIndex.symm
    · rintro ⟨piece, pieceMember, pieceFree, atIndex⟩
      refine ⟨?_, piece, pieceMember.1, pieceFree, atIndex⟩
      intro same
      exact pieceMember.2 (layout.eq_of_start pieceMember.1 member (atIndex.trans same))
  unfold carveOrder
  by_cases split : ints + 4 ≤ block.size
  · rw [if_pos split, List.mem_cons, erased]
    constructor
    · rintro (atTail | ⟨piece, pieceMember, rest⟩)
      · subst atTail
        refine ⟨⟨block.start + ints, block.size - ints, true⟩, Or.inr ?_, rfl, rfl⟩
        unfold carve
        rw [if_pos split]
        exact Or.inr rfl
      · exact ⟨piece, Or.inl pieceMember, rest⟩
    · rintro ⟨piece, old | fresh, pieceFree, atIndex⟩
      · exact Or.inr ⟨piece, old, pieceFree, atIndex⟩
      · rcases mem_carve fresh with same | ⟨_, same⟩
        · subst same
          cases pieceFree
        · subst same
          exact Or.inl atIndex.symm
  · rw [if_neg split, erased]
    constructor
    · rintro ⟨piece, pieceMember, rest⟩
      exact ⟨piece, Or.inl pieceMember, rest⟩
    · rintro ⟨piece, old | fresh, pieceFree, atIndex⟩
      · exact ⟨piece, old, pieceFree, atIndex⟩
      · rcases mem_carve fresh with same | ⟨wide, _⟩
        · subst same
          cases pieceFree
        · exact absurd wide split

/-- Carving a free block keeps the layout. -/
theorem carve (layout : Layout heap blocks order) {block : Block} (member : block ∈ blocks)
    (free : block.free = true) {ints : Int} (least : 4 ≤ ints) (fits : ints ≤ block.size) :
    Layout (heap.carveBlock block ints) ((blocks \ {block}) ∪ Heap.carve block ints)
      (carveOrder block ints order) := by
  have shape := layout.carve_shape member free least fits
  have inside := layout.tiling.within block member
  have notSentinel := ne_sentinel_of_free free heap.len
  refine ⟨?_, shape.tagged, ?_, ?_, ?_, ?_, shape.lists, ?_⟩
  · rw [carveBlock_len]
    exact layout.tiling.replace (Set.singleton_subset_iff.mpr member)
      (Tiling.singleton block inside.2.1) (carve_tiling block (by omega) fits)
      (by simp only [Block.stop]; omega) inside.1 inside.2.2
  · exact Or.inl ⟨layout.first, fun same => notSentinel.1 same.symm⟩
  · rw [carveBlock_len]
    exact Or.inl ⟨layout.last, fun same => notSentinel.2 same.symm⟩
  · rw [carveBlock_len]
    rintro piece (old | fresh) notFirst notLast
    · exact layout.large piece old.1 notFirst notLast
    · rcases mem_carve fresh with same | ⟨split, same⟩
      · subst same
        unfold carved
        simp only
        split <;> omega
      · subst same
        simp only
        omega
  · exact layout.carve_coalesced member free least fits
  · exact layout.carve_listed member ints

/-! ### malloc -/

/-- What `malloc` returns for a non-zero request, by what its search chooses. -/
theorem malloc_eq (layout : Layout heap blocks order) (short : heap.len < 0x7FFFFFFF)
    {bytes : UInt32} (nonzero : bytes ≠ 0) :
    heap.malloc bytes = some (match heap.choice (intsFor bytes) order with
      | none => (heap, 0)
      | some it => (heap.carveBlock ⟨it, heap.size it, true⟩ (intsFor bytes),
          heap.base + 4 * (it + 1))) := by
  unfold Heap.malloc
  rw [if_neg nonzero]
  simp only [layout.search_choice short, Option.map_some]
  cases chosen : heap.choice (intsFor bytes) order with
  | none => rfl
  | some it =>
      obtain ⟨block, member, free, atIndex, _⟩ := layout.choice_spec chosen
      have real : it ≠ 0 := by
        have start := layout.start_pos_of_free member free
        omega
      simp only []
      rw [if_pos real]
      unfold carveBlock
      by_cases split : intsFor bytes + 4 ≤ heap.size it
      · rw [if_pos split, if_pos (by omega)]
      · rw [if_neg split, if_neg (by omega)]

/-- A request that is served carves a free block and leaves every taken block alone. -/
theorem malloc_some (layout : Layout heap blocks order) (short : heap.len < 0x7FFFFFFF)
    {bytes : UInt32} (nonzero : bytes ≠ 0) {it : Int}
    (chosen : heap.choice (intsFor bytes) order = some it) :
    ∃ block ∈ blocks, block.free = true ∧ block.start = it ∧ intsFor bytes ≤ block.size ∧
      heap.malloc bytes =
        some (heap.carveBlock block (intsFor bytes), heap.base + 4 * (block.start + 1)) := by
  obtain ⟨block, member, free, atIndex, fits⟩ := layout.choice_spec chosen
  refine ⟨block, member, free, atIndex, fits, ?_⟩
  rw [layout.malloc_eq short nonzero, chosen]
  have sameBlock : (⟨it, heap.size it, true⟩ : Block) = block := by
    rw [← atIndex, layout.size_eq member, ← free]
  simp only [sameBlock, atIndex]

theorem malloc_none (layout : Layout heap blocks order) (short : heap.len < 0x7FFFFFFF)
    {bytes : UInt32} (nonzero : bytes ≠ 0)
    (refused : heap.choice (intsFor bytes) order = none) :
    heap.malloc bytes = some (heap, 0) := by
  rw [layout.malloc_eq short nonzero, refused]

end Layout

end Heap

end AC97Kernel
