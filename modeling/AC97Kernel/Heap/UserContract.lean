/-
The heap of a user program and its callers.

A client may ask for memory, free or reallocate a pointer that it holds, and store
bytes into the payload of one.  The layout is that of the kernel heap, and so are
the steps that carve a block and give one back.
-/

import AC97Kernel.Heap.UserModel

set_option autoImplicit false

namespace AC97Kernel.UserHeap

open BoundaryTags LinkedChain Heap WordBytes

/-! ### The same functions -/

theorem sanity_eq (heap : Heap) (i : Int) : sanity heap i = i := by
  unfold sanity
  by_cases null : i = 0
  · rw [if_pos null, null]
  · rw [if_neg null]
    split
    · rfl
    · simp only [ite_self]

theorem left_eq (heap : Heap) (i : Int) : left heap i = heap.left i := sanity_eq heap _

theorem right_eq (heap : Heap) (i : Int) : right heap i = heap.right i := sanity_eq heap _

theorem next1_eq (heap : Heap) (i : Int) : next1 heap i = heap.next i := sanity_eq heap _

theorem prev1_eq (heap : Heap) (i : Int) : prev1 heap i = heap.prev i := sanity_eq heap _

theorem remove_eq (heap : Heap) (i : Int) : remove heap i = heap.remove i := by
  unfold remove
  rw [next1_eq, prev1_eq]
  rfl

theorem heapInit_eq (base : UInt32) (memory : Int → Int) :
    heapInit base memory = Heap.initBlocks base memory 0x400000 := rfl

/-! ### First fit -/

/-- The first block of the list that fits. -/
def firstFit (heap : Heap) (ints : Int) (order : List Int) : Option Int :=
  order.find? fun p => decide (ints ≤ heap.size p)

theorem search_eq (heap : Heap) (ints : Int) (rest : List Int) (real : 0 ∉ rest) (fuel : Nat)
    (p : Int) (follows : Segment heap.next p rest 0) (enough : rest.length < fuel) :
    search heap ints fuel p = some ((firstFit heap ints rest).getD 0) := by
  induction rest generalizing fuel p with
  | nil =>
      obtain ⟨more, rfl⟩ : ∃ more, fuel = more + 1 := ⟨fuel - 1, by omega⟩
      have atEnd : p = 0 := follows
      unfold search
      rw [if_pos atEnd]
      rfl
  | cons node rest ih =>
      obtain ⟨more, rfl⟩ : ∃ more, fuel = more + 1 := ⟨fuel - 1, by omega⟩
      obtain ⟨atNode, onward⟩ := follows
      subst atNode
      have nodeReal : p ≠ 0 := fun same => real (same ▸ List.mem_cons_self)
      have restReal : 0 ∉ rest := fun member => real (List.mem_cons_of_mem _ member)
      unfold search firstFit
      rw [if_neg nodeReal]
      by_cases fits : ints ≤ heap.size p
      · rw [if_pos fits, List.find?_cons_of_pos (by simpa using fits)]
        rfl
      · rw [if_neg fits, List.find?_cons_of_neg (by simpa using fits), next1_eq]
        rw [List.length_cons] at enough
        exact ih restReal more (heap.next p) onward (by omega)

section Layout

variable {heap : Heap} {blocks : Set Block} {order : List Int}

theorem firstFit_spec (layout : heap.Layout blocks order) {ints it : Int}
    (chosen : firstFit heap ints order = some it) :
    ∃ block ∈ blocks, block.free = true ∧ block.start = it ∧ ints ≤ block.size := by
  have fits : ints ≤ heap.size it := by simpa using List.find?_some chosen
  obtain ⟨block, member, free, atIndex, sizeIs⟩ :=
    layout.block_of_listed (List.mem_of_find?_eq_some chosen)
  exact ⟨block, member, free, atIndex, sizeIs ▸ fits⟩

theorem firstFit_none_iff (layout : heap.Layout blocks order) (ints : Int) :
    firstFit heap ints order = none ↔ ∀ block ∈ blocks, block.free = true → block.size < ints := by
  unfold firstFit
  rw [List.find?_eq_none]
  constructor
  · intro small block member free
    have listed : block.start ∈ order := (layout.listed _).mpr ⟨block, member, free, rfl⟩
    have below := small block.start listed
    rw [layout.size_eq member] at below
    simpa using below
  · intro small p listed
    obtain ⟨block, member, free, _, sizeIs⟩ := layout.block_of_listed listed
    have below := small block member free
    rw [sizeIs]
    simpa using below

/-- The whole search of `malloc`. -/
theorem search_firstFit (layout : heap.Layout blocks order) (ints : Int) :
    search heap ints (heap.len.toNat + 1) heap.avail =
      some ((firstFit heap ints order).getD 0) := by
  have length := layout.order_length_le
  exact search_eq heap ints order layout.visits.real (heap.len.toNat + 1) heap.avail
    layout.visits.forward (by omega)

theorem malloc_none (layout : heap.Layout blocks order) {bytes : UInt32} (nonzero : bytes ≠ 0)
    (refused : firstFit heap (intsFor bytes) order = none) :
    malloc heap bytes = some (heap, 0) := by
  have searched := search_firstFit layout (intsFor bytes)
  rw [refused] at searched
  unfold malloc
  rw [if_neg nonzero]
  simp only [searched]
  rfl

/-- A request that is served carves the first block that fits. -/
theorem malloc_some (layout : heap.Layout blocks order) {bytes : UInt32} (nonzero : bytes ≠ 0)
    {it : Int} (chosen : firstFit heap (intsFor bytes) order = some it) :
    ∃ block ∈ blocks, block.free = true ∧ block.start = it ∧ intsFor bytes ≤ block.size ∧
      malloc heap bytes =
        some (heap.carveBlock block (intsFor bytes), Layout.payloadAddress heap block) := by
  obtain ⟨block, member, free, atIndex, fits⟩ := firstFit_spec layout chosen
  have start := layout.start_pos_of_free member free
  have real : block.start ≠ 0 := by omega
  refine ⟨block, member, free, atIndex, fits, ?_⟩
  subst atIndex
  have searched := search_firstFit layout (intsFor bytes)
  rw [chosen, Option.getD_some] at searched
  unfold malloc
  rw [if_neg nonzero]
  simp only [searched, Option.map_some, if_pos real, layout.size_eq member, remove_eq]
  unfold carveBlock
  by_cases split : intsFor bytes + 4 ≤ block.size
  · rw [if_pos split, if_pos (by omega)]
    rfl
  · rw [if_neg split, if_neg (by omega)]
    rfl

end Layout

/-! ### free -/

theorem indexOf_eq {heap : Heap} {p : Int} (least : 0 ≤ p - heap.base)
    (most : p - heap.base < 0x80000000) : indexOf heap p = heap.indexOf p := by
  have whole : Int.bmod (p - heap.base) (2 ^ 32) = p - heap.base := by
    unfold Int.bmod
    simp only
    split <;> omega
  unfold indexOf Heap.indexOf
  rw [whole, Int.tdiv_eq_ediv_of_nonneg least]
  omega

theorem free_eq {heap result : Heap} {p : Int} (index : indexOf heap p = heap.indexOf p)
    (freed : heap.free p = some result) : free heap p = result := by
  unfold Heap.indexOf at index
  unfold Heap.free at freed
  unfold free
  split
  · rename_i null
    rw [if_pos null] at freed
    exact Option.some.inj freed
  · rename_i real
    rw [if_neg real] at freed
    split
    · rename_i start
      rw [if_pos start] at freed
      exact Option.some.inj freed
    · rename_i notStart
      rw [if_neg notStart] at freed
      simp only [index, left_eq, right_eq, remove_eq]
      split
      · rename_i notTaken
        rw [if_pos notTaken] at freed
        cases freed
      · rename_i taken
        rw [if_neg taken] at freed
        exact Option.some.inj freed

/-! ### The machine -/

/-- The bytes between header and footer. -/
def payloadBytes (heap : Heap) (p : Int) : Int := 4 * (heap.size (indexOf heap p) - 2)

def InPayload (heap : Heap) (p address : Int) : Prop :=
  p ≤ address ∧ address < p + payloadBytes heap p

instance (heap : Heap) (p address : Int) : Decidable (InPayload heap p address) :=
  inferInstanceAs (Decidable (_ ∧ _))

inductive Action where
  | malloc (bytes : UInt32)
  | free (p : Int)
  | realloc (p : Int) (newSize : UInt32)
  | write (p address value : Int)

def allowed (client : Client) : Action → Prop
  | .malloc bytes => bytes.toNat ≤ 0xFFFFFFFC
  | .free p => p ∈ client.live
  | .realloc p newSize => p ∈ client.live ∧ newSize.toNat ≤ 0xFFFFFFFC
  | .write p address _ => p ∈ client.live ∧ InPayload client.heap p address

instance (client : Client) (action : Action) : Decidable (allowed client action) := by
  cases action <;> unfold allowed <;> infer_instance

def step (client : Client) : Action → Option Client
  | .malloc bytes =>
      (malloc client.heap bytes).map fun (heap, p) =>
        { heap := heap
          live := if bytes = 0 ∨ p = 0 then client.live else p :: client.live }
  | .free p => some { heap := free client.heap p, live := client.live.erase p }
  | .realloc p newSize =>
      (realloc client.heap p newSize).map fun (heap, q) =>
        { heap := heap
          live := if q = 0 then client.live.erase p else q :: client.live.erase p }
  | .write _ address value => some { client with heap := storeByte client.heap address value }

def machine : StepMachine Client Action :=
  { allowed := allowed
    step := step }

/-- After `heap_init`; nothing is held. -/
def start (base : UInt32) (memory : Int → Int) : Client :=
  { heap := heapInit base memory
    live := [] }

instance (client : Client) (action : Action) : Decidable (machine.allowed client action) :=
  inferInstanceAs (Decidable (allowed client action))

/-- What a call of `realloc` has done when it returns `q`. -/
structure Reallocated (client : Client) (p : Int) (newSize : UInt32) (heap : Heap) (q : Int) :
    Prop where
  large : q ≠ 0 → newSize.toNat ≤ payloadBytes heap q
  contents : q ≠ 0 → ∀ k : Nat, (k : Int) < min (payloadBytes client.heap p) newSize.toNat →
    loadByte heap (q + k) = loadByte client.heap (p + k)
  others : ∀ other ∈ client.live, other ≠ p → ∀ address, InPayload client.heap other address →
    loadByte heap address = loadByte client.heap address

/-- The invariant. -/
structure Sound (client : Client) (blocks : Set Block) (order : List Int) : Prop where
  invariant : Client.Invariant client blocks order
  length : client.heap.len = INTS

namespace Sound

variable {client : Client} {blocks : Set Block} {order : List Int} {block : Block} {p : Int}

/-- A block lies within the 4 MB of the array. -/
theorem bounds (sound : Sound client blocks order) (member : block ∈ blocks) :
    0 ≤ block.start ∧ 2 ≤ block.size ∧ block.start + block.size ≤ 0x100000 := by
  have inside := sound.invariant.layout.tiling.within block member
  have size := sound.invariant.layout.size_ge_two member
  have length := sound.length
  simp only [Block.stop, INTS] at inside length
  omega

theorem index (sound : Sound client blocks order) (member : block ∈ blocks) :
    indexOf client.heap (Layout.payloadAddress client.heap block) = block.start := by
  have inside := sound.bounds member
  have address : Layout.payloadAddress client.heap block - client.heap.base =
      4 * (block.start + 1) := by
    unfold Layout.payloadAddress
    omega
  rw [indexOf_eq, sound.invariant.indexOf_payload member]
  · omega
  · omega

theorem payloadBytes_eq (sound : Sound client blocks order) (member : block ∈ blocks) :
    payloadBytes client.heap (Layout.payloadAddress client.heap block) = 4 * (block.size - 2) := by
  unfold payloadBytes
  rw [sound.index member, sound.invariant.layout.size_eq member]

theorem inPayload_iff (sound : Sound client blocks order) (member : block ∈ blocks)
    (address : Int) : InPayload client.heap (Layout.payloadAddress client.heap block) address ↔
      block.Payload ((address - client.heap.base) / 4) := by
  unfold InPayload Block.Payload Block.footer
  rw [sound.payloadBytes_eq member]
  unfold Layout.payloadAddress
  omega

theorem real (sound : Sound client blocks order) (member : block ∈ blocks) :
    Layout.payloadAddress client.heap block ≠ 0 := by
  have based := sound.invariant.based
  have inside := sound.bounds member
  unfold Layout.payloadAddress
  omega

/-- A byte stored into the payload of a held block. -/
theorem store (sound : Sound client blocks order) (member : block ∈ blocks)
    (live : Layout.payloadAddress client.heap block ∈ client.live) {offset : Int}
    (inside : block.Payload (offset / 4)) (value : Int) :
    Sound { client with
      heap := { client.heap with array := WordBytes.store client.heap.array offset value } }
      blocks order where
  invariant := sound.invariant.write live
    ((sound.invariant.owns_payload member (offset / 4)).mpr inside) _
  length := sound.length

theorem copy (count : Nat) (sound : Sound client blocks order) (member : block ∈ blocks)
    (live : Layout.payloadAddress client.heap block ∈ client.live) (target source : Int)
    (inside : ∀ k : Nat, k < count → block.Payload ((target + k) / 4)) :
    Sound { client with
      heap :=
        { client.heap with
          array := WordBytes.copy count client.heap.array target source } } blocks order := by
  induction count generalizing client target source with
  | zero => exact sound
  | succ count ih =>
      have first := inside 0 (Nat.succ_pos count)
      rw [Int.natCast_zero, Int.add_zero] at first
      have stored := sound.store member live first (load client.heap.array source)
      refine ih stored live (target + 1) (source + 1) ?_
      intro k small
      have next := inside (k + 1) (Nat.succ_lt_succ small)
      have same : target + 1 + (k : Int) = target + ((k + 1 : Nat) : Int) := by omega
      rw [same]
      exact next

/-- A request that is served hands out a block nobody held. -/
theorem served (sound : Sound client blocks order) {bytes : UInt32} (member : block ∈ blocks)
    (free : block.free = true) (fits : intsFor bytes ≤ block.size) :
    Sound
      { heap := client.heap.carveBlock block (intsFor bytes)
        live := Layout.payloadAddress client.heap block :: client.live }
      ((blocks \ {block}) ∪ carve block (intsFor bytes))
      (carveOrder block (intsFor bytes) order) where
  invariant := sound.invariant.malloc_served member free fits
  length := (carveBlock_len _ _ _).trans sound.length

/-- The payload of a block that was just handed out. -/
theorem payload_served (sound : Sound client blocks order) {bytes : UInt32}
    (member : block ∈ blocks) (free : block.free = true) (fits : intsFor bytes ≤ block.size) :
    UserHeap.payloadBytes (client.heap.carveBlock block (intsFor bytes))
        (Layout.payloadAddress client.heap block) =
      4 * ((carved block (intsFor bytes)).size - 2) := by
  have isNew : carved block (intsFor bytes) ∈
      (blocks \ {block}) ∪ carve block (intsFor bytes) := Or.inr (carved_mem _ _)
  have size := (sound.served member free fits).payloadBytes_eq isNew
  simp only [carved_address] at size
  exact size

/-- A held pointer is given back. -/
theorem freed (sound : Sound client blocks order) (live : p ∈ client.live) :
    ∃ before block after, Layout.Between client.heap blocks before block after ∧
      p = Layout.payloadAddress client.heap block ∧
      free client.heap p = client.heap.releaseBlock before block after ∧
      Sound
        { heap := client.heap.releaseBlock before block after
          live := client.live.erase p }
        (insert (merged before block after) (blocks \ absorbed before block after))
        (freedOrder before block after order) := by
  obtain ⟨before, block, after, around, address, result⟩ := sound.invariant.free_between live
  subst address
  refine ⟨before, block, after, around, rfl, free_eq ?_ result,
    sound.invariant.free_served around, (releaseBlock_len _ _ _ _).trans sound.length⟩
  rw [sound.index around.member, sound.invariant.indexOf_payload around.member]

/-! ### What the others see -/

theorem loadByte_congr {heap other : Heap} (base : other.base = heap.base) {address : Int}
    (word : other.array ((address - heap.base) / 4) = heap.array ((address - heap.base) / 4)) :
    loadByte other address = loadByte heap address := by
  unfold loadByte load
  rw [base, word]

/-- The block of a held pointer, and the words under its bytes. -/
theorem held (sound : Sound client blocks order) (live : p ∈ client.live) :
    ∃ block ∈ blocks, client.heap.Held block ∧
      p = Layout.payloadAddress client.heap block := sound.invariant.held_block live

theorem word_inside (sound : Sound client blocks order) (member : block ∈ blocks) {address : Int}
    (inside : InPayload client.heap (Layout.payloadAddress client.heap block) address) :
    block.start ≤ (address - client.heap.base) / 4 ∧
      (address - client.heap.base) / 4 < block.stop := by
  have word := (sound.inPayload_iff member address).mp inside
  unfold Block.Payload Block.footer at word
  simp only [Block.stop]
  omega

theorem carve_keeps (sound : Sound client blocks order) {bytes : UInt32} (member : block ∈ blocks)
    (free : block.free = true) (fits : intsFor bytes ≤ block.size) {address : Int}
    (live : p ∈ client.live) (inside : InPayload client.heap p address) :
    loadByte (client.heap.carveBlock block (intsFor bytes)) address =
      loadByte client.heap address := by
  obtain ⟨other, otherMember, isHeld, atOther⟩ := sound.held live
  subst atOther
  obtain ⟨lower, upper⟩ := sound.word_inside otherMember inside
  exact loadByte_congr (carveBlock_base _ _ _) (sound.invariant.layout.carve_frame member free
    (intsFor_ge_four bytes) fits otherMember isHeld.taken lower upper)

theorem release_keeps (sound : Sound client blocks order) {before after : Block}
    (around : Layout.Between client.heap blocks before block after) {q address : Int}
    (live : q ∈ client.live) (different : q ≠ Layout.payloadAddress client.heap block)
    (inside : InPayload client.heap q address) :
    loadByte (client.heap.releaseBlock before block after) address =
      loadByte client.heap address := by
  obtain ⟨other, otherMember, isHeld, atOther⟩ := sound.held live
  subst atOther
  obtain ⟨lower, upper⟩ := sound.word_inside otherMember inside
  exact loadByte_congr (releaseBlock_base _ _ _ _) (sound.invariant.layout.release_frame around
    otherMember (fun same => different (same ▸ rfl)) isHeld.taken lower upper)

theorem payloads_apart (sound : Sound client blocks order) {q : Int} (pLive : p ∈ client.live)
    (qLive : q ∈ client.live) (different : p ≠ q) (address : Int) :
    ¬ (InPayload client.heap p address ∧ InPayload client.heap q address) := by
  intro both
  obtain ⟨one, oneMember, _, atOne⟩ := sound.held pLive
  obtain ⟨other, otherMember, _, atOther⟩ := sound.held qLive
  subst atOne atOther
  have same := sound.invariant.layout.tiling.eq_of_contains _ oneMember otherMember
    (sound.word_inside oneMember both.1) (sound.word_inside otherMember both.2)
  exact different (same ▸ rfl)

/-! ### realloc -/

/-- The bytes that `realloc` copies: the block with its metadata is the limit. -/
def copied (block : Block) (newSize : UInt32) : Nat := min (block.size * 4).toNat newSize.toNat

/-- The count that `memcpy` is given is small, so it does not wrap. -/
theorem copied_count (sound : Sound client blocks order) (member : block ∈ blocks)
    (newSize : UInt32) :
    (Int.bmod (if (newSize.toNat : Int) > block.size * 4 then
      UInt32.ofNat (block.size * 4).toNat else newSize).toNat (2 ^ 32)).toNat =
        copied block newSize := by
  have bounds := sound.bounds member
  have word : (UInt32.ofNat (block.size * 4).toNat).toNat = (block.size * 4).toNat := by
    rw [UInt32.toNat_ofNat']
    omega
  unfold copied Int.bmod
  by_cases more : (newSize.toNat : Int) > block.size * 4
  · rw [if_pos more, word]
    simp only
    split <;> omega
  · rw [if_neg more]
    simp only
    split <;> omega

theorem realloc_eq (sound : Sound client blocks order) (member : block ∈ blocks)
    (taken : block.free = false) {newSize : UInt32} (nonzero : newSize ≠ 0) :
    realloc client.heap (Layout.payloadAddress client.heap block) newSize =
      (malloc client.heap newSize).map fun (heap, newPtr) =>
        (free
          (if newPtr ≠ 0 then
            { heap with
              array := WordBytes.copy (copied block newSize) heap.array (newPtr - heap.base)
                (Layout.payloadAddress client.heap block - heap.base) }
          else heap) (Layout.payloadAddress client.heap block), newPtr) := by
  have bounds := sound.bounds member
  have isTaken : client.heap.isTaken block.start = true := by
    rw [isTaken_of_tagged (sound.invariant.layout.tagged block member) bounds.2.1, taken]
    rfl
  unfold realloc
  rw [if_neg (sound.real member), if_neg nonzero]
  simp only [sound.index member, isTaken, Bool.not_true, Bool.false_eq_true, if_false,
    sound.invariant.layout.size_eq member, memcpy, sound.copied_count member newSize]

/-- With no block to take it is a `free`. -/
theorem realloc_refused (sound : Sound client blocks order) (live : p ∈ client.live)
    {newSize : UInt32} (nonzero : newSize ≠ 0)
    (refused : firstFit client.heap (intsFor newSize) order = none) :
    realloc client.heap p newSize = some (free client.heap p, 0) := by
  obtain ⟨old, oldMember, isHeld, atOld⟩ := sound.held live
  subst atOld
  rw [sound.realloc_eq oldMember isHeld.taken nonzero,
    malloc_none sound.invariant.layout nonzero refused]
  rfl

/-- The old block is freed, whether there is a new one or not. -/
theorem free_reallocated (sound : Sound client blocks order) (live : p ∈ client.live)
    (newSize : UInt32) : Reallocated client p newSize (free client.heap p) 0 ∧
      ∃ blocks' order',
        Sound { heap := free client.heap p, live := client.live.erase p } blocks' order' := by
  obtain ⟨before, block, after, around, address, result, soundNext⟩ := sound.freed live
  rw [result]
  refine ⟨⟨fun impossible => absurd rfl impossible, fun impossible => absurd rfl impossible, ?_⟩,
    _, _, soundNext⟩
  intro other otherLive different byte inside
  exact sound.release_keeps around otherLive (address ▸ different) inside

theorem intsFor_room {bytes : UInt32} (bound : bytes.toNat ≤ 0xFFFFFFFC) :
    bytes.toNat ≤ 4 * (intsFor bytes - 2) := by
  rw [Client.intsFor_eq bound]
  unfold Client.requestedInts
  omega

/-- What `realloc` has made of the heap when it comes to its `free`. -/
def moved (heap : Heap) (old block : Block) (newSize : UInt32) : Heap :=
  let carved := heap.carveBlock block (intsFor newSize)
  { carved with
    array := WordBytes.copy (copied old newSize) carved.array
      (Layout.payloadAddress heap block - carved.base)
      (Layout.payloadAddress heap old - carved.base) }

@[simp] theorem moved_base (heap : Heap) (old block : Block) (newSize : UInt32) :
    (moved heap old block newSize).base = heap.base := carveBlock_base _ _ _

section Move

variable {old : Block} {newSize : UInt32}

theorem carved_room (bound : newSize.toNat ≤ 0xFFFFFFFC) (fits : intsFor newSize ≤ block.size) :
    newSize.toNat ≤ 4 * ((carved block (intsFor newSize)).size - 2) := by
  have room := intsFor_room bound
  simp only [carved]
  split <;> omega

/-- Of the new block the copy leaves the header and the footer alone. -/
theorem copied_le (old : Block) (bound : newSize.toNat ≤ 0xFFFFFFFC)
    (fits : intsFor newSize ≤ block.size) :
    copied old newSize ≤ 4 * ((carved block (intsFor newSize)).size - 2) ∧
      copied old newSize ≤ 4 * (block.size - 2) := by
  have room := intsFor_room bound
  have count : copied old newSize ≤ newSize.toNat := Nat.min_le_right _ _
  simp only [carved]
  split <;> omega

/-- The copy stays within the payload of the new block. -/
theorem moved_sound (sound : Sound client blocks order) (old : Block)
    (bound : newSize.toNat ≤ 0xFFFFFFFC) (member : block ∈ blocks) (free : block.free = true)
    (fits : intsFor newSize ≤ block.size) :
    Sound
      { heap := moved client.heap old block newSize
        live := Layout.payloadAddress client.heap block :: client.live }
      ((blocks \ {block}) ∪ carve block (intsFor newSize))
      (carveOrder block (intsFor newSize) order) := by
  have served := sound.served member free fits
  have isNew : carved block (intsFor newSize) ∈
      (blocks \ {block}) ∪ carve block (intsFor newSize) := Or.inr (carved_mem _ _)
  have address := carved_address client.heap block (intsFor newSize)
  refine served.copy (copied old newSize) isNew (address ▸ List.mem_cons_self) _ _ ?_
  intro k small
  have room := copied_le old bound fits
  have start : (carved block (intsFor newSize)).start = block.start := rfl
  unfold Block.Payload Block.footer
  rw [start]
  unfold Layout.payloadAddress
  simp only [carveBlock_base]
  omega

theorem moved_others (sound : Sound client blocks order) (old : Block)
    (bound : newSize.toNat ≤ 0xFFFFFFFC) (member : block ∈ blocks)
    (free : block.free = true) (fits : intsFor newSize ≤ block.size)
    (live : p ∈ client.live) {address : Int} (inside : InPayload client.heap p address) :
    loadByte (moved client.heap old block newSize) address = loadByte client.heap address := by
  obtain ⟨other, otherMember, isHeld, atOther⟩ := sound.held live
  have different : other ≠ block := by
    intro same
    have taken := isHeld.taken
    rw [same, free] at taken
    cases taken
  have apart := sound.invariant.layout.tiling.apart other otherMember block member different
  obtain ⟨lower, upper⟩ := sound.word_inside otherMember (atOther ▸ inside)
  have room := copied_le old bound fits
  rw [← sound.carve_keeps member free fits live inside]
  refine load_copy_outside _ _ _ _ _ ?_
  simp only [Block.Apart, Block.stop] at apart lower upper
  unfold Layout.payloadAddress
  simp only [carveBlock_base, moved_base]
  omega

/-- The old block may be copied with the tag of its neighbour: it does not reach the new one. -/
theorem moved_contents (sound : Sound client blocks order) (oldMember : old ∈ blocks)
    (live : Layout.payloadAddress client.heap old ∈ client.live) (taken : old.free = false)
    (bound : newSize.toNat ≤ 0xFFFFFFFC) (member : block ∈ blocks) (free : block.free = true)
    (fits : intsFor newSize ≤ block.size) {k : Nat}
    (payload : (k : Int) < payloadBytes client.heap (Layout.payloadAddress client.heap old))
    (small : k < newSize.toNat) :
    loadByte (moved client.heap old block newSize)
        (Layout.payloadAddress client.heap block + k) =
      loadByte client.heap (Layout.payloadAddress client.heap old + k) := by
  have different : old ≠ block := by
    intro same
    rw [same, free] at taken
    cases taken
  have apart := sound.invariant.layout.tiling.apart old oldMember block member different
  have room := copied_le old bound fits
  have limit : copied old newSize ≤ (old.size * 4).toNat := Nat.min_le_left _ _
  have within : InPayload client.heap (Layout.payloadAddress client.heap old)
      (Layout.payloadAddress client.heap old + k) := ⟨by omega, by omega⟩
  rw [← sound.carve_keeps member free fits live within]
  rw [sound.payloadBytes_eq oldMember] at payload
  have inside : k < copied old newSize := by
    unfold copied
    omega
  unfold loadByte
  have target : Layout.payloadAddress client.heap block + k -
        (moved client.heap old block newSize).base =
      Layout.payloadAddress client.heap block - client.heap.base + k := by
    rw [moved_base]
    omega
  have source : Layout.payloadAddress client.heap old + k -
        (client.heap.carveBlock block (intsFor newSize)).base =
      Layout.payloadAddress client.heap old - client.heap.base + k := by
    rw [carveBlock_base]
    omega
  rw [target, source]
  unfold moved
  simp only [carveBlock_base]
  refine load_copy _ _ _ _ ?_ inside
  simp only [Block.Apart, Block.stop] at apart
  have size := (sound.bounds oldMember).2.1
  unfold Layout.payloadAddress
  omega

theorem moved_address (heap : Heap) (item : Block) :
    Layout.payloadAddress (moved heap old block newSize) item = Layout.payloadAddress heap item := by
  unfold Layout.payloadAddress
  rw [moved_base]

/-- Other blocks have the same payload after the copy. -/
theorem moved_inPayload (sound : Sound client blocks order) (bound : newSize.toNat ≤ 0xFFFFFFFC)
    (member : block ∈ blocks) (free : block.free = true) (fits : intsFor newSize ≤ block.size)
    (live : p ∈ client.live) {address : Int} (inside : InPayload client.heap p address) :
    InPayload (moved client.heap old block newSize) p address := by
  obtain ⟨other, otherMember, isHeld, atOther⟩ := sound.held live
  have next := moved_sound sound old bound member free fits
  have stays : other ∈ (blocks \ {block}) ∪ carve block (intsFor newSize) := by
    refine Or.inl ⟨otherMember, ?_⟩
    intro same
    have taken := isHeld.taken
    rw [same, free] at taken
    cases taken
  subst atOther
  have word := (sound.inPayload_iff otherMember address).mp inside
  have same := next.inPayload_iff stays address
  rw [moved_address, moved_base] at same
  exact same.mpr word

/-- The new block gets what the old one held, and then the old one is freed. -/
theorem move_reallocated (sound : Sound client blocks order) (oldMember : old ∈ blocks)
    (live : Layout.payloadAddress client.heap old ∈ client.live) (taken : old.free = false)
    (bound : newSize.toNat ≤ 0xFFFFFFFC) (member : block ∈ blocks)
    (free : block.free = true) (fits : intsFor newSize ≤ block.size) :
    Reallocated client (Layout.payloadAddress client.heap old) newSize
        (UserHeap.free (moved client.heap old block newSize)
          (Layout.payloadAddress client.heap old))
        (Layout.payloadAddress client.heap block) ∧
      ∃ blocks' order', Sound
        { heap := UserHeap.free (moved client.heap old block newSize)
            (Layout.payloadAddress client.heap old)
          live := Layout.payloadAddress client.heap block ::
            client.live.erase (Layout.payloadAddress client.heap old) } blocks' order' := by
  have different : Layout.payloadAddress client.heap block ≠
      Layout.payloadAddress client.heap old := by
    intro same
    have isOld := sound.invariant.payload_injective member oldMember same
    rw [isOld, taken] at free
    cases free
  have next := moved_sound sound old bound member free fits
  obtain ⟨before, given, after, around, address, result, soundNext⟩ :=
    next.freed (p := Layout.payloadAddress client.heap old) (List.mem_cons_of_mem _ live)
  simp only at result
  rw [result]
  rw [List.erase_cons_tail (by simpa using different)] at soundNext
  have kept : Layout.payloadAddress client.heap block ≠
      Layout.payloadAddress (moved client.heap old block newSize) given := address ▸ different
  have isNew : carved block (intsFor newSize) ∈
      (blocks \ {block}) ∪ carve block (intsFor newSize) := Or.inr (carved_mem _ _)
  have atNew : Layout.payloadAddress (moved client.heap old block newSize)
      (carved block (intsFor newSize)) = Layout.payloadAddress client.heap block :=
    moved_address client.heap _
  have room := next.payloadBytes_eq isNew
  have least := carved_room bound fits
  refine ⟨⟨?_, ?_, ?_⟩, _, _, soundNext⟩
  · intro _
    have stays : carved block (intsFor newSize) ∉ absorbed before given after := by
      rintro (same | ⟨same, isFree⟩ | ⟨same, isFree⟩)
      · exact kept (same ▸ atNew).symm
      · rw [← same] at isFree
        cases isFree
      · rw [← same] at isFree
        cases isFree
    have size := soundNext.payloadBytes_eq (Or.inr ⟨isNew, stays⟩)
    have atEnd : Layout.payloadAddress
        ((moved client.heap old block newSize).releaseBlock before given after)
        (carved block (intsFor newSize)) = Layout.payloadAddress client.heap block := by
      rw [← atNew]
      unfold Layout.payloadAddress
      rw [releaseBlock_base]
    simp only [atEnd] at size
    omega
  · intro _ k inside
    rw [← moved_contents sound oldMember live taken bound member free fits (by omega) (by omega)]
    refine next.release_keeps around List.mem_cons_self kept ?_
    simp only [atNew] at room
    unfold InPayload
    simp only [room]
    omega
  · intro other otherLive notOld byte inside
    rw [← sound.moved_others old bound member free fits otherLive inside]
    exact next.release_keeps around (List.mem_cons_of_mem _ otherLive) (address ▸ notOld)
      (sound.moved_inPayload bound member free fits otherLive inside)

end Move

/-! ### Every action -/

theorem malloc (sound : Sound client blocks order) (bytes : UInt32) :
    ∃ heap q, UserHeap.malloc client.heap bytes = some (heap, q) ∧
      ∃ blocks' order', Sound
        { heap := heap
          live := if bytes = 0 ∨ q = 0 then client.live else q :: client.live } blocks' order' := by
  by_cases zero : bytes = 0
  · refine ⟨client.heap, client.heap.base, ?_, blocks, order, ?_⟩
    · unfold UserHeap.malloc
      rw [if_pos zero]
    · rw [if_pos (Or.inl zero)]
      exact sound
  · cases chosen : firstFit client.heap (intsFor bytes) order with
    | none =>
        refine ⟨client.heap, 0, malloc_none sound.invariant.layout zero chosen, blocks, order, ?_⟩
        rw [if_pos (Or.inr rfl)]
        exact sound
    | some it =>
        obtain ⟨block, member, free, _, fits, result⟩ :=
          malloc_some sound.invariant.layout zero chosen
        have notNull := sound.real member
        refine ⟨_, _, result, (blocks \ {block}) ∪ carve block (intsFor bytes),
          carveOrder block (intsFor bytes) order, ?_⟩
        rw [if_neg (fun either => either.elim zero notNull)]
        exact sound.served member free fits

theorem realloc (sound : Sound client blocks order) (live : p ∈ client.live) {newSize : UInt32}
    (bound : newSize.toNat ≤ 0xFFFFFFFC) :
    ∃ heap q, UserHeap.realloc client.heap p newSize = some (heap, q) ∧
      Reallocated client p newSize heap q ∧ ∃ blocks' order', Sound
        { heap := heap
          live := if q = 0 then client.live.erase p else q :: client.live.erase p }
        blocks' order' := by
  obtain ⟨old, oldMember, isHeld, atOld⟩ := sound.held live
  obtain ⟨released, soundReleased⟩ := sound.free_reallocated live newSize
  have notNull := sound.real oldMember
  by_cases zero : newSize = 0
  · refine ⟨_, 0, ?_, released, ?_⟩
    · unfold UserHeap.realloc
      rw [if_neg (atOld ▸ notNull), if_pos zero]
    · rw [if_pos rfl]
      exact soundReleased
  · cases chosen : firstFit client.heap (intsFor newSize) order with
    | none =>
        refine ⟨_, 0, sound.realloc_refused live zero chosen, released, ?_⟩
        rw [if_pos rfl]
        exact soundReleased
    | some it =>
        subst atOld
        obtain ⟨block, member, free, _, fits, result⟩ :=
          malloc_some sound.invariant.layout zero chosen
        obtain ⟨done, soundDone⟩ := sound.move_reallocated oldMember live isHeld.taken bound
          member free fits
        have newNotNull := sound.real member
        refine ⟨_, _, ?_, done, ?_⟩
        · rw [sound.realloc_eq oldMember isHeld.taken zero, result, Option.map_some]
          simp only [if_pos newNotNull]
          rfl
        · rw [if_neg newNotNull]
          exact soundDone

theorem malloc_steps (sound : Sound client blocks order) (bytes : UInt32) :
    ∃ next, step client (.malloc bytes) = some next ∧
      ∃ blocks' order', Sound next blocks' order' := by
  obtain ⟨heap, q, result, after⟩ := sound.malloc bytes
  refine ⟨_, ?_, after⟩
  simp only [step, result, Option.map_some]

/-- No allowed action hangs, and each keeps the invariant. -/
theorem step_total (sound : Sound client blocks order) (action : Action)
    (permitted : allowed client action) :
    ∃ next, step client action = some next ∧ ∃ blocks' order', Sound next blocks' order' := by
  cases action with
  | malloc bytes => exact sound.malloc_steps bytes
  | free p =>
      obtain ⟨_, after⟩ := sound.free_reallocated permitted 0
      exact ⟨_, rfl, after⟩
  | realloc p newSize =>
      obtain ⟨heap, q, result, _, after⟩ := sound.realloc permitted.1 permitted.2
      refine ⟨_, ?_, after⟩
      simp only [step, result, Option.map_some]
  | write p address value =>
      obtain ⟨block, member, _, atBlock⟩ := sound.held permitted.1
      obtain ⟨live, inside⟩ := permitted
      subst atBlock
      exact ⟨_, rfl, blocks, order,
        sound.store member live ((sound.inPayload_iff member address).mp inside) value⟩

end Sound

theorem start_sound (base : UInt32) (memory : Int → Int) (mapped : base ≠ 0) :
    Sound (start base memory) (initialBlocks INTS) [2] where
  invariant := Client.start_invariant base memory 0x400000 mapped (by decide)
  length := rfl

/-- The run lemma. -/
theorem run_sound (base : UInt32) (memory : Int → Int) (mapped : base ≠ 0)
    (actions : List Action) (lawful : machine.Lawful (start base memory) actions) :
    ∃ client, machine.run (start base memory) actions = some client ∧
      ∃ blocks order, Sound client blocks order := by
  apply StepMachine.run_succeeds (fun client => ∃ blocks order, Sound client blocks order)
  · intro client action before permitted
    obtain ⟨blocks, order, sound⟩ := before
    exact sound.step_total action permitted
  · exact ⟨_, _, start_sound base memory mapped⟩
  · exact lawful

/-! ### The contract with the callers -/

/-- What a call of `malloc` has done when it returns `q`. -/
structure Served (client : Client) (blocks : Set Block) (order : List Int) (bytes : UInt32)
    (heap : Heap) (q : Int) : Prop where
  refused : q = 0 ↔ ∀ block ∈ blocks, block.free = true → block.size < Client.requestedInts bytes
  first : q ≠ 0 → ∃ it, order.find? (fun p =>
      decide (Client.requestedInts bytes ≤ client.heap.size p)) = some it ∧
    q = client.heap.base + 4 * (it + 1)
  large : q ≠ 0 → bytes.toNat ≤ payloadBytes heap q
  others : ∀ p ∈ client.live, ∀ address, InPayload client.heap p address →
    loadByte heap address = loadByte client.heap address

/-- What the callers may rely on in a state whose blocks and free list are given. -/
structure Contract (client : Client) (blocks : Set Block) (order : List Int) : Prop where
  layout : client.heap.Layout blocks order
  distinct : client.live.Nodup
  disjoint : ∀ p ∈ client.live, ∀ q ∈ client.live, p ≠ q →
    ∀ address, ¬ (InPayload client.heap p address ∧ InPayload client.heap q address)
  malloc : ∀ bytes : UInt32, bytes ≠ 0 → bytes.toNat ≤ 0xFFFFFFFC →
    ∃ heap q, malloc client.heap bytes = some (heap, q) ∧
      Served client blocks order bytes heap q
  free : ∀ p ∈ client.live, ∀ other ∈ client.live, other ≠ p →
    ∀ address, InPayload client.heap other address →
      loadByte (free client.heap p) address = loadByte client.heap address
  realloc : ∀ p ∈ client.live, ∀ newSize : UInt32, newSize.toNat ≤ 0xFFFFFFFC →
    ∃ heap q, realloc client.heap p newSize = some (heap, q) ∧
      Reallocated client p newSize heap q ∧
      (q ≠ 0 → ∃ blocks' order', heap.Layout blocks' order' ∧
        ∃ block ∈ blocks', heap.Held block ∧ q = Layout.payloadAddress heap block)

namespace Sound

variable {client : Client} {blocks : Set Block} {order : List Int}

theorem malloc_served (sound : Sound client blocks order) {bytes : UInt32} (nonzero : bytes ≠ 0)
    (bound : bytes.toNat ≤ 0xFFFFFFFC) :
    ∃ heap q, UserHeap.malloc client.heap bytes = some (heap, q) ∧
      Served client blocks order bytes heap q := by
  have layout := sound.invariant.layout
  cases chosen : firstFit client.heap (intsFor bytes) order with
  | none =>
      have small := (firstFit_none_iff layout (intsFor bytes)).mp chosen
      rw [Client.intsFor_eq bound] at small
      exact ⟨client.heap, 0, malloc_none layout nonzero chosen,
        { refused := ⟨fun _ => small, fun _ => rfl⟩
          first := fun impossible => absurd rfl impossible
          large := fun impossible => absurd rfl impossible
          others := fun _ _ _ _ => rfl }⟩
  | some it =>
      obtain ⟨block, member, free, atIndex, fits, result⟩ := malloc_some layout nonzero chosen
      have notNull := sound.real member
      refine ⟨_, _, result, ⟨?_, ?_, ?_, ?_⟩⟩
      · constructor
        · intro null
          exact absurd null notNull
        · intro small
          have below := small block member free
          rw [← Client.intsFor_eq bound] at below
          omega
      · intro _
        refine ⟨it, ?_, ?_⟩
        · rw [← Client.intsFor_eq bound]
          exact chosen
        · rw [← atIndex]
          rfl
      · intro _
        rw [sound.payload_served member free fits]
        exact carved_room bound fits
      · intro p live address inside
        exact sound.carve_keeps member free fits live inside

theorem free_keeps (sound : Sound client blocks order) {p other address : Int}
    (live : p ∈ client.live) (otherLive : other ∈ client.live) (different : other ≠ p)
    (inside : InPayload client.heap other address) :
    loadByte (UserHeap.free client.heap p) address = loadByte client.heap address :=
  (sound.free_reallocated live 0).1.others other otherLive different address inside

theorem contract (sound : Sound client blocks order) : Contract client blocks order where
  layout := sound.invariant.layout
  distinct := sound.invariant.distinct
  disjoint := fun _ pLive _ qLive different address =>
    sound.payloads_apart pLive qLive different address
  malloc := fun _ nonzero bound => sound.malloc_served nonzero bound
  free := fun _ live _ otherLive different _ inside =>
    sound.free_keeps live otherLive different inside
  realloc := by
    intro p live newSize bound
    obtain ⟨heap, q, result, done, blocks', order', next⟩ := sound.realloc live bound
    refine ⟨heap, q, result, done, ?_⟩
    intro notNull
    rw [if_neg notNull] at next
    exact ⟨blocks', order', next.invariant.layout, next.held List.mem_cons_self⟩

end Sound

/-- Every state that a run of the clients reaches keeps the contract. -/
theorem user_heap_contract (base : UInt32) (memory : Int → Int) (mapped : base ≠ 0)
    (actions : List Action) (lawful : machine.Lawful (start base memory) actions) :
    ∃ client, machine.run (start base memory) actions = some client ∧
      ∃ blocks order, Contract client blocks order := by
  obtain ⟨client, ran, blocks, order, sound⟩ := run_sound base memory mapped actions lawful
  exact ⟨client, ran, blocks, order, sound.contract⟩

/-- A block is taken and written, a second one taken, and the first one grown and freed. -/
theorem user_heap_contract_sample :
    ∃ client, machine.run (start 0x100000 (fun _ => 7))
        [.malloc 9, .write 0x10000C 0x10000D 65, .malloc 1, .realloc 0x10000C 40,
          .free 0x100030] = some client ∧
      ∃ blocks order, Contract client blocks order :=
  user_heap_contract 0x100000 (fun _ => 7) (by decide) _ (by decide +kernel)

end AC97Kernel.UserHeap
