/-
The kernel heap and its callers.

A client state is a heap with the pointers that `malloc` returned for non-zero
requests and that were not freed since.  A client may ask for any number of
bytes, free a pointer it holds, and store anything into the words between the
header and the footer of a block it holds.  The results are about every
sequence of such actions that starts from a fresh heap.
-/

import AC97Kernel.Library.StepMachine
import AC97Kernel.Heap.Malloc
import AC97Kernel.Heap.Free

set_option autoImplicit false

namespace AC97Kernel

open BoundaryTags LinkedChain

namespace Heap

/-- The header index that `free` computes from a pointer. -/
def indexOf (heap : Heap) (p : Int) : Int := (p - heap.base) % 4294967296 / 4 - 1

/-- The words strictly between header and footer of the block at `p`. -/
def Owns (heap : Heap) (p index : Int) : Prop :=
  heap.indexOf p < index ∧ index < heap.footerFromHeader (heap.indexOf p)

instance (heap : Heap) (p index : Int) : Decidable (heap.Owns p index) :=
  inferInstanceAs (Decidable (_ ∧ _))

/-- Carving does not move the block. -/
theorem carved_address (heap : Heap) (block : Block) (ints : Int) :
    Layout.payloadAddress (heap.carveBlock block ints) (carved block ints) =
      Layout.payloadAddress heap block := by
  unfold Layout.payloadAddress
  rw [carveBlock_base]
  rfl

/-- A block that some caller holds. -/
structure Held (heap : Heap) (block : Block) : Prop where
  taken : block.free = false
  notFirst : block ≠ firstSentinel
  notLast : block ≠ lastSentinel heap.len

end Heap

structure Client where
  heap : Heap
  live : List Int

namespace Client

inductive Action where
  | malloc (bytes : UInt32)
  | free (p : Int)
  | write (p index value : Int)

def allowed (client : Client) : Action → Prop
  | .malloc _ => True
  | .free p => p ∈ client.live
  | .write p index _ => p ∈ client.live ∧ client.heap.Owns p index

instance (client : Client) (action : Action) : Decidable (client.allowed action) := by
  cases action <;> unfold allowed <;> infer_instance

def step (client : Client) : Action → Option Client
  | .malloc bytes =>
      (client.heap.malloc bytes).map fun (heap, p) =>
        { heap := heap
          live := if bytes = 0 ∨ p = 0 then client.live else p :: client.live }
  | .free p =>
      (client.heap.free p).map fun heap =>
        { heap := heap
          live := client.live.erase p }
  | .write _ index value =>
      some { client with heap := client.heap.set index value }

def machine : StepMachine Client Action :=
  { allowed := allowed
    step := step }

/-- A fresh heap over `bytes` bytes of arbitrary memory; nothing is held. -/
def start (base : UInt32) (memory : Int → Int) (bytes : UInt32) : Client :=
  { heap := Heap.initBlocks base memory bytes
    live := [] }

instance (client : Client) (action : Action) : Decidable (machine.allowed client action) :=
  inferInstanceAs (Decidable (client.allowed action))

/-! ### The invariant of a run -/

/-- The heap is laid out, and the pointers held are those of its held blocks. -/
structure Invariant (client : Client) (blocks : Set Block) (order : List Int) : Prop where
  layout : client.heap.Layout blocks order
  based : 0 < client.heap.base
  short : client.heap.len < 0x40000000
  distinct : client.live.Nodup
  held : ∀ p, p ∈ client.live ↔
    ∃ block ∈ blocks, client.heap.Held block ∧ p = Heap.Layout.payloadAddress client.heap block

namespace Invariant

variable {client : Client} {blocks : Set Block} {order : List Int}

/-- No block is as long as the size with which the search begins. -/
theorem below_sentinel (invariant : Invariant client blocks order) :
    client.heap.len < 0x7FFFFFFF := by
  have short := invariant.short
  omega

theorem indexOf_payload (invariant : Invariant client blocks order) {block : Block}
    (member : block ∈ blocks) :
    client.heap.indexOf (Heap.Layout.payloadAddress client.heap block) = block.start := by
  have inside := invariant.layout.tiling.within block member
  have short := invariant.short
  unfold Heap.indexOf Heap.Layout.payloadAddress
  simp only [Block.stop] at inside
  omega

theorem owns_payload (invariant : Invariant client blocks order) {block : Block}
    (member : block ∈ blocks) (index : Int) :
    client.heap.Owns (Heap.Layout.payloadAddress client.heap block) index ↔
      block.Payload index := by
  unfold Heap.Owns Heap.footerFromHeader Block.Payload Block.footer
  rw [invariant.indexOf_payload member, invariant.layout.size_eq member]

theorem payload_injective (invariant : Invariant client blocks order) {left right : Block}
    (leftMember : left ∈ blocks) (rightMember : right ∈ blocks)
    (same : Heap.Layout.payloadAddress client.heap left =
      Heap.Layout.payloadAddress client.heap right) : left = right := by
  apply invariant.layout.eq_of_start leftMember rightMember
  unfold Heap.Layout.payloadAddress at same
  omega

theorem held_block (invariant : Invariant client blocks order) {p : Int}
    (member : p ∈ client.live) :
    ∃ block ∈ blocks, client.heap.Held block ∧
      p = Heap.Layout.payloadAddress client.heap block :=
  (invariant.held p).mp member

/-- A store between header and footer of a taken block touches nothing laid out. -/
theorem write (invariant : Invariant client blocks order) {p index : Int}
    (member : p ∈ client.live) (owns : client.heap.Owns p index) (value : Int) :
    Invariant { client with heap := client.heap.set index value } blocks order := by
  obtain ⟨block, blockMember, isHeld, address⟩ := invariant.held_block member
  subst address
  have inside := (invariant.owns_payload blockMember index).mp owns
  unfold Block.Payload Block.footer at inside
  have layout := invariant.layout
  have other : ∀ word, word ≠ index →
      (client.heap.set index value).array word = client.heap.array word :=
    fun word different => Function.update_of_ne different _ _
  have avoids : ∀ node ∈ order, index ≠ node + 1 ∧ index ≠ node + 2 :=
    fun node listed => layout.shape.link_outside listed blockMember isHeld.taken
      (by omega) (by simp only [Block.stop]; omega)
  have kept : (client.heap.set index value).Layout blocks order := by
    refine ⟨layout.tiling, ?_, layout.first, layout.last, layout.large, layout.coalesced,
      ?_, layout.listed⟩
    · intro item itemMember
      apply Shape.tagged_of_agree (layout.tagged item itemMember)
      intro word isTag
      apply other
      intro same
      subst same
      have size := layout.size_ge_two itemMember
      by_cases sameBlock : item = block
      · subst sameBlock
        simp only [Block.footer] at isTag
        omega
      · have separate := layout.tiling.apart item itemMember block blockMember sameBlock
        simp only [Block.Apart, Block.stop, Block.footer] at separate isTag
        omega
    · apply layout.visits.congr
      · rfl
      · intro node listed
        exact other _ (avoids node listed).1.symm
      · intro node listed
        exact other _ (avoids node listed).2.symm
  refine ⟨kept, invariant.based, invariant.short, invariant.distinct, ?_⟩
  intro p
  rw [invariant.held p]
  constructor
  · rintro ⟨item, itemMember, itemHeld, atItem⟩
    exact ⟨item, itemMember, ⟨itemHeld.taken, itemHeld.notFirst, itemHeld.notLast⟩, atItem⟩
  · rintro ⟨item, itemMember, itemHeld, atItem⟩
    exact ⟨item, itemMember, ⟨itemHeld.taken, itemHeld.notFirst, itemHeld.notLast⟩, atItem⟩

/-- A request that is served hands out a block nobody held. -/
theorem malloc_served (invariant : Invariant client blocks order) {bytes : UInt32}
    {block : Block} (member : block ∈ blocks) (free : block.free = true)
    (fits : Heap.intsFor bytes ≤ block.size) :
    Invariant
      { heap := client.heap.carveBlock block (Heap.intsFor bytes)
        live := Heap.Layout.payloadAddress client.heap block :: client.live }
      ((blocks \ {block}) ∪ Heap.carve block (Heap.intsFor bytes))
      (Heap.carveOrder block (Heap.intsFor bytes) order) := by
  have layout := invariant.layout
  have least := Heap.intsFor_ge_four bytes
  have notSentinel := Heap.Layout.ne_sentinel_of_free free client.heap.len
  have between := layout.free_between member notSentinel.1 notSentinel.2
  have size := layout.size_ge_four member free
  have fresh : Heap.Layout.payloadAddress client.heap block ∉ client.live := by
    intro present
    obtain ⟨other, otherMember, isHeld, address⟩ := invariant.held_block present
    have same := invariant.payload_injective member otherMember address
    subst same
    have taken := isHeld.taken
    rw [free] at taken
    cases taken
  refine ⟨layout.carve member free least fits, ?_, ?_,
    List.nodup_cons.mpr ⟨fresh, invariant.distinct⟩, ?_⟩
  · rw [Heap.carveBlock_base]
    exact invariant.based
  · rw [Heap.carveBlock_len]
    exact invariant.short
  · intro p
    have address : ∀ item, Heap.Layout.payloadAddress
        (client.heap.carveBlock block (Heap.intsFor bytes)) item =
        Heap.Layout.payloadAddress client.heap item := by
      intro item
      unfold Heap.Layout.payloadAddress
      rw [Heap.carveBlock_base]
    rw [List.mem_cons, invariant.held p]
    constructor
    · rintro (isNew | ⟨item, itemMember, isHeld, atItem⟩)
      · refine ⟨Heap.carved block (Heap.intsFor bytes), Or.inr (Heap.carved_mem _ _),
          ⟨rfl, ?_, ?_⟩, ?_⟩
        · intro same
          have startIs := congrArg Block.start same
          simp only [Heap.carved, Heap.firstSentinel] at startIs
          omega
        · intro same
          have startIs := congrArg Block.start same
          simp only [Heap.carved, Heap.lastSentinel, Heap.carveBlock_len, Block.stop]
            at startIs between
          omega
        · rw [address]
          exact isNew
      · refine ⟨item, Or.inl ⟨itemMember, ?_⟩, ⟨isHeld.taken, isHeld.notFirst, ?_⟩, ?_⟩
        · intro same
          cases same
          have taken := isHeld.taken
          rw [free] at taken
          cases taken
        · rw [Heap.carveBlock_len]
          exact isHeld.notLast
        · rw [address]
          exact atItem
    · rintro ⟨item, old | piece, isHeld, atItem⟩
      · right
        refine ⟨item, old.1, ⟨isHeld.taken, isHeld.notFirst, ?_⟩, ?_⟩
        · have notLast := isHeld.notLast
          rw [Heap.carveBlock_len] at notLast
          exact notLast
        · rw [address] at atItem
          exact atItem
      · left
        rcases Heap.mem_carve piece with same | ⟨_, same⟩
        · subst same
          rw [address] at atItem
          exact atItem
        · subst same
          cases isHeld.taken

theorem malloc (invariant : Invariant client blocks order) (bytes : UInt32) :
    ∃ next, client.step (.malloc bytes) = some next ∧
      ∃ blocks' order', Invariant next blocks' order' := by
  by_cases zero : bytes = 0
  · subst zero
    exact ⟨client, by simp [step, Heap.malloc], blocks, order, invariant⟩
  · cases chosen : client.heap.choice (Heap.intsFor bytes) order with
    | none =>
        refine ⟨client, ?_, blocks, order, invariant⟩
        simp only [step, invariant.layout.malloc_none invariant.below_sentinel zero chosen,
          Option.map_some]
        simp
    | some it =>
        obtain ⟨block, member, free, _, fits, result⟩ :=
          invariant.layout.malloc_some invariant.below_sentinel zero chosen
        refine ⟨_, ?_, _, _, invariant.malloc_served member free fits⟩
        have start := invariant.layout.start_pos_of_free member free
        have based := invariant.based
        simp only [step, result, Option.map_some]
        rw [if_neg (by simp only [zero, false_or]; omega)]
        rfl

/-- Freeing a held pointer gives its block back and keeps every other one held. -/
theorem free_served (invariant : Invariant client blocks order) {before block after : Block}
    (around : Heap.Layout.Between client.heap blocks before block after) :
    Invariant
      { heap := client.heap.releaseBlock before block after
        live := client.live.erase (Heap.Layout.payloadAddress client.heap block) }
      (insert (Heap.merged before block after) (blocks \ Heap.absorbed before block after))
      (Heap.freedOrder before block after order) := by
  have layout := invariant.layout
  refine ⟨layout.release around, ?_, ?_, invariant.distinct.erase _, ?_⟩
  · rw [Heap.releaseBlock_base]
    exact invariant.based
  · rw [Heap.releaseBlock_len]
    exact invariant.short
  · intro p
    have address : ∀ item, Heap.Layout.payloadAddress
        (client.heap.releaseBlock before block after) item =
        Heap.Layout.payloadAddress client.heap item := by
      intro item
      unfold Heap.Layout.payloadAddress
      rw [Heap.releaseBlock_base]
    rw [invariant.distinct.mem_erase_iff, invariant.held p]
    constructor
    · rintro ⟨different, item, itemMember, isHeld, atItem⟩
      refine ⟨item, Or.inr ⟨itemMember, ?_⟩, ⟨isHeld.taken, isHeld.notFirst, ?_⟩, ?_⟩
      · rintro (same | ⟨same, free⟩ | ⟨same, free⟩)
        · exact different (same ▸ atItem)
        · have taken := isHeld.taken
          rw [same, free] at taken
          cases taken
        · have taken := isHeld.taken
          rw [same, free] at taken
          cases taken
      · rw [Heap.releaseBlock_len]
        exact isHeld.notLast
      · rw [address]
        exact atItem
    · rintro ⟨item, isMerged | old, isHeld, atItem⟩
      · subst isMerged
        cases isHeld.taken
      · rw [address] at atItem
        have notLast := isHeld.notLast
        rw [Heap.releaseBlock_len] at notLast
        refine ⟨?_, item, old.1, ⟨isHeld.taken, isHeld.notFirst, notLast⟩, atItem⟩
        intro same
        exact old.2 (Or.inl (invariant.payload_injective old.1 around.member
          (atItem.symm.trans same)))

theorem free_between (invariant : Invariant client blocks order) {p : Int}
    (member : p ∈ client.live) :
    ∃ before block after, Heap.Layout.Between client.heap blocks before block after ∧
      p = Heap.Layout.payloadAddress client.heap block ∧
      client.heap.free p = some (client.heap.releaseBlock before block after) := by
  obtain ⟨block, blockMember, isHeld, address⟩ := invariant.held_block member
  obtain ⟨before, after, around⟩ := invariant.layout.exists_between blockMember isHeld.taken
    isHeld.notFirst isHeld.notLast
  refine ⟨before, block, after, around, address, ?_⟩
  rw [address]
  exact invariant.layout.free_eq around (by have short := invariant.short; omega)
    invariant.based

theorem free (invariant : Invariant client blocks order) {p : Int} (member : p ∈ client.live) :
    ∃ next, client.step (.free p) = some next ∧
      ∃ blocks' order', Invariant next blocks' order' := by
  obtain ⟨before, block, after, around, address, result⟩ := invariant.free_between member
  subst address
  refine ⟨_, ?_, _, _, invariant.free_served around⟩
  simp only [step, result, Option.map_some]

/-- No allowed action panics or hangs, and each keeps the invariant. -/
theorem step_total (invariant : Invariant client blocks order) (action : Action)
    (permitted : client.allowed action) :
    ∃ next, client.step action = some next ∧ ∃ blocks' order', Invariant next blocks' order' := by
  cases action with
  | malloc bytes => exact invariant.malloc bytes
  | free p => exact invariant.free permitted
  | write p index value =>
      exact ⟨_, rfl, blocks, order, invariant.write permitted.1 permitted.2 value⟩

end Invariant

theorem start_invariant (base : UInt32) (memory : Int → Int) (bytes : UInt32)
    (mapped : base ≠ 0) (room : 32 ≤ bytes.toNat) :
    Invariant (start base memory bytes) (Heap.initialBlocks (bytes.toNat / 4 : Nat)) [2] := by
  have layout := Heap.initBlocks_layout base memory bytes room
  have bound := bytes.toNat_lt
  refine ⟨layout, ?_, ?_, List.nodup_nil, ?_⟩
  · change 0 < (Heap.initBlocks base memory bytes).base
    rw [Heap.initBlocks_base]
    have nonzero : base.toNat ≠ 0 := fun same => mapped (UInt32.toNat_inj.mp same)
    omega
  · change (Heap.initBlocks base memory bytes).len < 0x40000000
    rw [Heap.initBlocks_len]
    omega
  · intro p
    constructor
    · intro member
      cases member
    · rintro ⟨block, rfl | rfl | rfl, isHeld, _⟩
      · exact absurd rfl isHeld.notFirst
      · cases isHeld.taken
      · have notLast := isHeld.notLast
        change Heap.lastSentinel _ ≠ Heap.lastSentinel (Heap.initBlocks base memory bytes).len
          at notLast
        rw [Heap.initBlocks_len] at notLast
        exact absurd rfl notLast

/-- The run lemma: every lawful sequence of actions ends in an invariant state. -/
theorem run_invariant (base : UInt32) (memory : Int → Int) (bytes : UInt32)
    (mapped : base ≠ 0) (room : 32 ≤ bytes.toNat) (actions : List Action)
    (lawful : machine.Lawful (start base memory bytes) actions) :
    ∃ client, machine.run (start base memory bytes) actions = some client ∧
      ∃ blocks order, Invariant client blocks order := by
  apply StepMachine.run_succeeds (fun client => ∃ blocks order, Invariant client blocks order)
  · rintro client action ⟨blocks, order, invariant⟩ permitted
    exact invariant.step_total action permitted
  · exact ⟨_, _, start_invariant base memory bytes mapped room⟩
  · exact lawful

/-- `heapInit` itself is such a run: its lock is the first block handed out. -/
theorem heapInit_run (base : UInt32) (memory : Int → Int) (bytes : UInt32) {heap : Heap}
    {theLock : Int} (made : Heap.heapInit base memory bytes = some (heap, theLock)) :
    machine.run (start base memory bytes) [.malloc Heap.sizeofBlockingLock] =
      some { heap := heap, live := [theLock] } := by
  unfold Heap.heapInit Heap.operatorNew at made
  obtain ⟨result, allocated, returned⟩ := Option.bind_eq_some_iff.mp made
  by_cases failed : result.2 = 0
  · rw [if_pos failed] at returned
    cases returned
  · rw [if_neg failed] at returned
    cases returned
    have taken : ¬(Heap.sizeofBlockingLock = 0 ∨ theLock = 0) := by
      rintro (zero | zero)
      · exact absurd zero (by decide)
      · exact failed zero
    simp [StepMachine.run, machine, step, start, allocated, taken]

/-! ### The representation invariant -/

/-- Wherever a run of mallocs, frees of held pointers and stores into held blocks
has come to, the array is laid out.  No action of such a run panics or hangs. -/
theorem kernel_heap_invariant (base : UInt32) (memory : Int → Int) (bytes : UInt32)
    (mapped : base ≠ 0) (room : 32 ≤ bytes.toNat) (actions : List Action)
    (lawful : machine.Lawful (start base memory bytes) actions) :
    ∃ client, machine.run (start base memory bytes) actions = some client ∧
      ∃ blocks order, client.heap.Layout blocks order := by
  obtain ⟨client, ran, blocks, order, invariant⟩ :=
    run_invariant base memory bytes mapped room actions lawful
  exact ⟨client, ran, blocks, order, invariant.layout⟩

/-- Two blocks are taken from a heap of 24 ints, one is written and freed. -/
theorem kernel_heap_invariant_sample :
    ∃ client, machine.run (start 0x100000 (fun _ => 7) 96)
        [.malloc 9, .malloc 1, .write 0x10000C 4 5, .free 0x10000C] = some client ∧
      ∃ blocks order, client.heap.Layout blocks order :=
  kernel_heap_invariant 0x100000 (fun _ => 7) 96 (by decide) (by decide) _ (by decide)

/-! ### The contract with the callers -/

/-- The block size for a request, without the wrap of 32-bit arithmetic. -/
def requestedInts (bytes : UInt32) : Int := max 4 (((bytes.toNat + 3) / 4 + 2 : Nat) : Int)

/-- What the callers may rely on in a state whose blocks and free list are given. -/
structure Contract (client : Client) (blocks : Set Block) (order : List Int) : Prop where
  inside : ∀ p ∈ client.live, ∀ index, client.heap.Owns p index →
    1 < index ∧ index < client.heap.len - 2
  disjoint : ∀ p ∈ client.live, ∀ q ∈ client.live, p ≠ q →
    ∀ index, ¬(client.heap.Owns p index ∧ client.heap.Owns q index)
  mallocFrame : ∀ bytes, ∃ heap q, client.heap.malloc bytes = some (heap, q) ∧
    ∀ p ∈ client.live, ∀ index, client.heap.Owns p index →
      heap.array index = client.heap.array index
  freeFrame : ∀ p ∈ client.live, ∃ heap, client.heap.free p = some heap ∧
    ∀ q ∈ client.live, q ≠ p → ∀ index, client.heap.Owns q index →
      heap.array index = client.heap.array index
  refused : ∀ bytes : UInt32, 1 ≤ bytes.toNat → bytes.toNat ≤ 0xFFFFFFFC →
    ∃ heap q, client.heap.malloc bytes = some (heap, q) ∧
      (q = 0 ↔ ∀ block ∈ blocks, block.free = true → block.size < requestedInts bytes)
  served : ∀ bytes : UInt32, 1 ≤ bytes.toNat → bytes.toNat ≤ 0xFFFFFFFC →
    ∀ heap q, client.heap.malloc bytes = some (heap, q) → q ≠ 0 →
      ∃ it, ((order.filter (fun p => decide
            (requestedInts bytes ≤ client.heap.size p))).take 20).minOn?
            client.heap.size = some it ∧
        q = client.heap.base + 4 * (it + 1) ∧
        ∃ blocks' order', heap.Layout blocks' order' ∧ it ∉ order' ∧
          ∃ block ∈ blocks', heap.Held block ∧ block.start = it

theorem nonzero_of_pos {bytes : UInt32} (least : 1 ≤ bytes.toNat) : bytes ≠ 0 := by
  intro zero
  subst zero
  exact absurd least (by decide)

theorem intsFor_eq {bytes : UInt32} (bound : bytes.toNat ≤ 0xFFFFFFFC) :
    Heap.intsFor bytes = requestedInts bytes := by
  have size : ((bytes + 3) / 4 + 2).toNat = (bytes.toNat + 3) / 4 + 2 := by
    rw [UInt32.toNat_add, UInt32.toNat_div, UInt32.toNat_add]
    have three : (3 : UInt32).toNat = 3 := rfl
    have four : (4 : UInt32).toNat = 4 := rfl
    have two : (2 : UInt32).toNat = 2 := rfl
    rw [three, four, two]
    omega
  unfold Heap.intsFor requestedInts
  simp only [size]
  omega

namespace Invariant

variable {client : Client} {blocks : Set Block} {order : List Int}

private theorem owned_inside (invariant : Invariant client blocks order) {p : Int}
    (member : p ∈ client.live) (index : Int) (owns : client.heap.Owns p index) :
    ∃ block ∈ blocks, client.heap.Held block ∧
      p = Heap.Layout.payloadAddress client.heap block ∧
      block.start ≤ index ∧ index < block.stop := by
  obtain ⟨block, blockMember, isHeld, address⟩ := invariant.held_block member
  rw [address] at owns
  have inside := (invariant.owns_payload blockMember index).mp owns
  simp only [Block.Payload, Block.footer] at inside
  exact ⟨block, blockMember, isHeld, address, by omega, by simp only [Block.stop]; omega⟩

private theorem malloc_frame (invariant : Invariant client blocks order) (bytes : UInt32) :
    ∃ heap q, client.heap.malloc bytes = some (heap, q) ∧
      ∀ p ∈ client.live, ∀ index, client.heap.Owns p index →
        heap.array index = client.heap.array index := by
  by_cases zero : bytes = 0
  · exact ⟨client.heap, client.heap.base, by simp [Heap.malloc, zero],
      fun _ _ _ _ => rfl⟩
  · cases chosen : client.heap.choice (Heap.intsFor bytes) order with
    | none =>
        exact ⟨client.heap, 0, invariant.layout.malloc_none invariant.below_sentinel zero chosen,
          fun _ _ _ _ => rfl⟩
    | some it =>
        obtain ⟨block, member, free, _, fits, result⟩ :=
          invariant.layout.malloc_some invariant.below_sentinel zero chosen
        refine ⟨_, _, result, ?_⟩
        intro p live index owns
        obtain ⟨other, otherMember, isHeld, _, lower, upper⟩ :=
          invariant.owned_inside live index owns
        exact invariant.layout.carve_frame member free (Heap.intsFor_ge_four bytes) fits
          otherMember isHeld.taken lower upper

private theorem free_frame (invariant : Invariant client blocks order) {p : Int}
    (member : p ∈ client.live) :
    ∃ heap, client.heap.free p = some heap ∧
      ∀ q ∈ client.live, q ≠ p → ∀ index, client.heap.Owns q index →
        heap.array index = client.heap.array index := by
  obtain ⟨before, block, after, around, address, result⟩ := invariant.free_between member
  refine ⟨_, result, ?_⟩
  intro q live different index owns
  obtain ⟨other, otherMember, isHeld, otherAddress, lower, upper⟩ :=
    invariant.owned_inside live index owns
  have distinct : other ≠ block := by
    intro same
    subst same
    exact different (otherAddress.trans address.symm)
  exact invariant.layout.release_frame around otherMember distinct isHeld.taken lower upper

private theorem malloc_null_iff (invariant : Invariant client blocks order) {bytes : UInt32}
    (least : 1 ≤ bytes.toNat) :
    ∃ heap q, client.heap.malloc bytes = some (heap, q) ∧
      (q = 0 ↔ ∀ block ∈ blocks, block.free = true → block.size < Heap.intsFor bytes) := by
  have nonzero := nonzero_of_pos least
  rw [← invariant.layout.choice_none_iff]
  cases chosen : client.heap.choice (Heap.intsFor bytes) order with
  | none =>
      exact ⟨client.heap, 0, invariant.layout.malloc_none invariant.below_sentinel nonzero chosen,
        fun _ => rfl, fun _ => rfl⟩
  | some it =>
      obtain ⟨block, member, free, _, _, result⟩ :=
        invariant.layout.malloc_some invariant.below_sentinel nonzero chosen
      have start := invariant.layout.start_pos_of_free member free
      have based := invariant.based
      refine ⟨_, _, result, ?_, ?_⟩
      · intro null
        omega
      · intro impossible
        cases impossible

private theorem malloc_takes (invariant : Invariant client blocks order) {bytes : UInt32}
    (least : 1 ≤ bytes.toNat) {heap : Heap} {q : Int}
    (result : client.heap.malloc bytes = some (heap, q)) (notNull : q ≠ 0) :
    ∃ it, client.heap.choice (Heap.intsFor bytes) order = some it ∧
      q = client.heap.base + 4 * (it + 1) ∧
      ∃ blocks' order', heap.Layout blocks' order' ∧ it ∉ order' ∧
        ∃ block ∈ blocks', heap.Held block ∧ block.start = it := by
  have nonzero := nonzero_of_pos least
  cases chosen : client.heap.choice (Heap.intsFor bytes) order with
  | none =>
      rw [invariant.layout.malloc_none invariant.below_sentinel nonzero chosen] at result
      cases result
      exact absurd rfl notNull
  | some it =>
      obtain ⟨block, member, free, atIndex, fits, expected⟩ :=
        invariant.layout.malloc_some invariant.below_sentinel nonzero chosen
      rw [expected] at result
      cases result
      have served := invariant.malloc_served member free fits
      have address : client.heap.base + 4 * (block.start + 1) ∈
          Heap.Layout.payloadAddress client.heap block :: client.live := List.mem_cons_self
      obtain ⟨taken, takenMember, isHeld, takenAddress⟩ := (served.held _).mp address
      have startIs : taken.start = it := by
        unfold Heap.Layout.payloadAddress at takenAddress
        simp only [Heap.carveBlock_base] at takenAddress
        omega
      refine ⟨it, rfl, by rw [atIndex], _, _, served.layout, ?_, taken, takenMember, isHeld,
        startIs⟩
      intro listed
      obtain ⟨other, otherMember, otherFree, atIt⟩ := (served.layout.listed it).mp listed
      have same := served.layout.eq_of_start otherMember takenMember (atIt.trans startIs.symm)
      rw [same, isHeld.taken] at otherFree
      cases otherFree

theorem contract (invariant : Invariant client blocks order) :
    Contract client blocks order := by
  refine ⟨?_, ?_, invariant.malloc_frame, fun p member => invariant.free_frame member, ?_, ?_⟩
  · intro p member index owns
    obtain ⟨block, blockMember, isHeld, _, lower, upper⟩ :=
      invariant.owned_inside member index owns
    have between := invariant.layout.free_between blockMember isHeld.notFirst isHeld.notLast
    omega
  · intro p pMember q qMember different index both
    obtain ⟨block, blockMember, _, address, lower, upper⟩ :=
      invariant.owned_inside pMember index both.1
    obtain ⟨other, otherMember, _, otherAddress, otherLower, otherUpper⟩ :=
      invariant.owned_inside qMember index both.2
    have same := invariant.layout.tiling.eq_of_contains index blockMember otherMember
      ⟨lower, upper⟩ ⟨otherLower, otherUpper⟩
    exact different (address.trans (same ▸ otherAddress.symm))
  · intro bytes least bound
    rw [← intsFor_eq bound]
    exact invariant.malloc_null_iff least
  · intro bytes least bound heap q result notNull
    rw [← intsFor_eq bound]
    exact invariant.malloc_takes least result notNull

end Invariant

/-- Every state that a run of the clients reaches keeps the contract. -/
theorem kernel_heap_contract (base : UInt32) (memory : Int → Int) (bytes : UInt32)
    (mapped : base ≠ 0) (room : 32 ≤ bytes.toNat) (actions : List Action)
    (lawful : machine.Lawful (start base memory bytes) actions) :
    ∃ client, machine.run (start base memory bytes) actions = some client ∧
      ∃ blocks order, client.heap.Layout blocks order ∧ Contract client blocks order := by
  obtain ⟨client, ran, blocks, order, invariant⟩ :=
    run_invariant base memory bytes mapped room actions lawful
  exact ⟨client, ran, blocks, order, invariant.layout, invariant.contract⟩

theorem kernel_heap_contract_sample :
    ∃ client, machine.run (start 0x100000 (fun _ => 7) 96)
        [.malloc 9, .malloc 1, .write 0x10000C 4 5, .free 0x10000C] = some client ∧
      ∃ blocks order, client.heap.Layout blocks order ∧ Contract client blocks order :=
  kernel_heap_contract 0x100000 (fun _ => 7) 96 (by decide) (by decide) _ (by decide)

end Client

end AC97Kernel
