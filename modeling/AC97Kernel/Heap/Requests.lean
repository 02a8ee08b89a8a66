/-
How much memory a request of any size gets.

Both heaps compute the block size in `intsFor`.  The sum `bytes + 3` wraps for the
three largest requests, and these are served like the smallest one.  The results
are about every state that callers reach who ask for any number of bytes.
-/

import AC97Kernel.Heap.UserContract

set_option autoImplicit false

namespace AC97Kernel

open BoundaryTags LinkedChain

namespace Heap

/-- The bytes between header and footer of the block at `p`. -/
def payloadBytes (heap : Heap) (p : Int) : Int := 4 * (heap.size (heap.indexOf p) - 2)

/-- A call for `bytes` bytes comes back, and a pointer it returns leads to that many bytes. -/
def Enough (payload : Heap → Int → Int) (result : Option (Heap × Int)) (bytes : UInt32) : Prop :=
  ∃ heap q, result = some (heap, q) ∧ (q ≠ 0 → (bytes.toNat : Int) ≤ payload heap q)

/-- What both `malloc`s do, whichever of the fitting blocks they take. -/
def Serves (heap : Heap) (blocks : Set Block) (bytes : UInt32)
    (result : Option (Heap × Int)) : Prop :=
  (result = some (heap, 0) ∧ ∀ block ∈ blocks, block.free = true → block.size < intsFor bytes) ∨
    ∃ block ∈ blocks, block.free = true ∧ intsFor bytes ≤ block.size ∧
      result = some (heap.carveBlock block (intsFor bytes), Layout.payloadAddress heap block)

/-! ### The size computation -/

theorem intsFor_wrapped {bytes : UInt32} (wraps : 0xFFFFFFFC < bytes.toNat) :
    intsFor bytes = 4 := by
  have bound := bytes.toNat_lt
  have size : ((bytes + 3) / 4 + 2).toNat = 2 := by
    rw [UInt32.toNat_add, UInt32.toNat_div, UInt32.toNat_add]
    have three : (3 : UInt32).toNat = 3 := rfl
    have four : (4 : UInt32).toNat = 4 := rfl
    have two : (2 : UInt32).toNat = 2 := rfl
    rw [three, four, two]
    omega
  unfold intsFor
  simp only [size]
  rfl

/-- A block of an array below 4 GB holds the request exactly when the sum did not wrap. -/
theorem carved_holds_iff {block : Block} {bytes : UInt32} (fits : intsFor bytes ≤ block.size)
    (short : block.size < 0x40000000) :
    (bytes.toNat : Int) ≤ 4 * ((carved block (intsFor bytes)).size - 2) ↔
      bytes.toNat ≤ 0xFFFFFFFC := by
  constructor
  · intro holds
    have within : (carved block (intsFor bytes)).size ≤ block.size := by
      simp only [carved]
      split <;> omega
    omega
  · intro bound
    exact UserHeap.Sound.carved_room bound fits

namespace Layout

variable {heap : Heap} {blocks : Set Block} {order : List Int}

theorem avail_eq_zero_iff (layout : Layout heap blocks order) :
    heap.avail = 0 ↔ ∀ block ∈ blocks, block.free = false := by
  constructor
  · intro empty block member
    cases status : block.free with
    | false => rfl
    | true =>
        have listed : block.start ∈ order := (layout.listed _).mpr ⟨block, member, status, rfl⟩
        have isHead := Links.head_of_segment layout.visits.forward
        cases order with
        | nil => cases listed
        | cons node rest =>
            have atHead : heap.avail = node := isHead
            exact absurd (List.mem_cons.mpr (Or.inl (empty.symm.trans atHead))) layout.visits.real
  · intro allTaken
    rcases layout.visits.head_mem with empty | listed
    · exact empty
    · obtain ⟨block, member, free, _⟩ := (layout.listed _).mp listed
      rw [allTaken block member] at free
      cases free

end Layout

end Heap

namespace Client.Invariant

open Heap

variable {client : Client} {blocks : Set Block} {order : List Int} {bytes : UInt32}

/-- The payload of a block that was just carved. -/
theorem payload_served (invariant : Invariant client blocks order) {block : Block}
    (member : block ∈ blocks) (free : block.free = true) (fits : intsFor bytes ≤ block.size) :
    Heap.payloadBytes (client.heap.carveBlock block (intsFor bytes))
        (Layout.payloadAddress client.heap block) =
      4 * ((carved block (intsFor bytes)).size - 2) := by
  have next := invariant.malloc_served member free fits
  have isNew : carved block (intsFor bytes) ∈
      (blocks \ {block}) ∪ carve block (intsFor bytes) := Or.inr (carved_mem _ _)
  have index := next.indexOf_payload isNew
  simp only [carved_address] at index
  unfold Heap.payloadBytes
  rw [index, next.layout.size_eq isNew]

/-- Either the sum does not wrap, or there is nothing to hand out. -/
theorem enough_iff (invariant : Invariant client blocks order) {payload : Heap → Int → Int}
    {result : Option (Heap × Int)} (serves : Serves client.heap blocks bytes result)
    (reads : ∀ block ∈ blocks, block.free = true → intsFor bytes ≤ block.size →
      payload (client.heap.carveBlock block (intsFor bytes))
        (Layout.payloadAddress client.heap block) =
          4 * ((carved block (intsFor bytes)).size - 2)) :
    Enough payload result bytes ↔ bytes.toNat ≤ 0xFFFFFFFC ∨ client.heap.avail = 0 := by
  have layout := invariant.layout
  rcases serves with ⟨refused, small⟩ | ⟨block, member, free, fits, served⟩
  · -- nothing is returned: a wrapped request is refused only when no block is free
    have comesBack : Enough payload result bytes :=
      ⟨client.heap, 0, refused, fun impossible => absurd rfl impossible⟩
    refine ⟨fun _ => ?_, fun _ => comesBack⟩
    by_cases bound : bytes.toNat ≤ 0xFFFFFFFC
    · exact Or.inl bound
    · right
      rw [layout.avail_eq_zero_iff]
      intro block member
      cases status : block.free with
      | false => rfl
      | true =>
          have below := small block member status
          rw [intsFor_wrapped (by omega)] at below
          have least := layout.size_ge_four member status
          omega
  · have inside := layout.tiling.within block member
    have short := invariant.short
    have based := invariant.based
    simp only [Block.stop] at inside
    have real : Layout.payloadAddress client.heap block ≠ 0 := by
      unfold Layout.payloadAddress
      omega
    have holds := carved_holds_iff fits (by omega)
    rw [← reads block member free fits] at holds
    have occupied : client.heap.avail ≠ 0 := by
      intro empty
      rw [layout.avail_eq_zero_iff.mp empty block member] at free
      cases free
    rw [or_iff_left occupied, ← holds]
    constructor
    · rintro ⟨heap, q, same, enough⟩
      rw [served] at same
      cases same
      exact enough real
    · intro enough
      exact ⟨_, _, served, fun _ => enough⟩

theorem malloc_serves (invariant : Invariant client blocks order) (nonzero : bytes ≠ 0) :
    Serves client.heap blocks bytes (client.heap.malloc bytes) := by
  have layout := invariant.layout
  cases chosen : client.heap.choice (intsFor bytes) order with
  | none =>
      exact Or.inl ⟨layout.malloc_none invariant.below_sentinel nonzero chosen,
        (layout.choice_none_iff _).mp chosen⟩
  | some it =>
      obtain ⟨block, member, free, _, fits, result⟩ :=
        layout.malloc_some invariant.below_sentinel nonzero chosen
      exact Or.inr ⟨block, member, free, fits, result⟩

end Client.Invariant

namespace UserHeap

open Heap

/-! ### The callers of the user heap -/

/-- Calls with any size; a `realloc` keeps clear of the sizes that wrap while there is a block
to take, since it would copy the old block past the end of the new one. -/
def permits (client : Client) : Action → Prop
  | .malloc _ => True
  | .free p => p = 0 ∨ p = client.heap.base ∨ p ∈ client.live
  | .realloc p newSize =>
      p ∈ client.live ∧ (newSize.toNat ≤ 0xFFFFFFFC ∨ client.heap.avail = 0)
  | .write p address _ => p ∈ client.live ∧ InPayload client.heap p address

instance (client : Client) (action : Action) : Decidable (permits client action) :=
  match action with
  | .malloc _ => isTrue trivial
  | .free p => inferInstanceAs (Decidable (p = 0 ∨ p = client.heap.base ∨ p ∈ client.live))
  | .realloc p newSize =>
      inferInstanceAs (Decidable (p ∈ client.live ∧
        (newSize.toNat ≤ 0xFFFFFFFC ∨ client.heap.avail = 0)))
  | .write p address _ =>
      inferInstanceAs (Decidable (p ∈ client.live ∧ InPayload client.heap p address))

def callers : StepMachine Client Action :=
  { allowed := permits
    step := step }

instance (client : Client) (action : Action) : Decidable (callers.allowed client action) :=
  inferInstanceAs (Decidable (permits client action))

namespace Sound

variable {client : Client} {blocks : Set Block} {order : List Int} {bytes : UInt32} {p : Int}

theorem malloc_serves (sound : Sound client blocks order) (nonzero : bytes ≠ 0) :
    Serves client.heap blocks bytes (UserHeap.malloc client.heap bytes) := by
  have layout := sound.invariant.layout
  cases chosen : firstFit client.heap (intsFor bytes) order with
  | none =>
      exact Or.inl ⟨malloc_none layout nonzero chosen, (firstFit_none_iff layout _).mp chosen⟩
  | some it =>
      obtain ⟨block, member, free, _, fits, result⟩ := malloc_some layout nonzero chosen
      exact Or.inr ⟨block, member, free, fits, result⟩

theorem free_nothing (client : Client) (nothing : p = 0 ∨ p = client.heap.base) :
    UserHeap.free client.heap p = client.heap := by
  unfold UserHeap.free
  rcases nothing with null | start
  · rw [if_pos null]
  · by_cases null : p = 0
    · rw [if_pos null]
    · rw [if_neg null, if_pos start]

/-- No permitted call hangs, and each keeps the invariant. -/
theorem step_permitted (sound : Sound client blocks order) (action : Action)
    (permitted : permits client action) :
    ∃ next, step client action = some next ∧ ∃ blocks' order', Sound next blocks' order' := by
  cases action with
  | malloc bytes => exact sound.malloc_steps bytes
  | free p =>
      by_cases live : p ∈ client.live
      · exact sound.step_total (.free p) live
      · have nothing : p = 0 ∨ p = client.heap.base :=
          permitted.imp_right (fun either => either.resolve_right live)
        refine ⟨client, ?_, blocks, order, sound⟩
        simp only [step, free_nothing client nothing, List.erase_of_not_mem live]
  | realloc p newSize =>
      obtain ⟨live, size⟩ := permitted
      by_cases bound : newSize.toNat ≤ 0xFFFFFFFC
      · exact sound.step_total (.realloc p newSize) ⟨live, bound⟩
      · have allTaken := sound.invariant.layout.avail_eq_zero_iff.mp (size.resolve_left bound)
        have nonzero : newSize ≠ 0 := by
          intro zero
          subst zero
          exact bound (by decide)
        have none : firstFit client.heap (intsFor newSize) order = none :=
          (firstFit_none_iff sound.invariant.layout _).mpr fun block member free => by
            rw [allTaken block member] at free
            cases free
        have refused := sound.realloc_refused live nonzero none
        obtain ⟨_, after⟩ := sound.free_reallocated live newSize
        refine ⟨_, ?_, after⟩
        simp only [step, refused, Option.map_some, if_true]
  | write p address value => exact sound.step_total (.write p address value) permitted

end Sound

/-- The run lemma. -/
theorem callers_sound (base : UInt32) (memory : Int → Int) (mapped : base ≠ 0)
    (actions : List Action) (lawful : callers.Lawful (start base memory) actions) :
    ∃ client, callers.run (start base memory) actions = some client ∧
      ∃ blocks order, Sound client blocks order := by
  apply StepMachine.run_succeeds (fun client => ∃ blocks order, Sound client blocks order)
  · intro client action before permitted
    obtain ⟨blocks, order, sound⟩ := before
    exact sound.step_permitted action permitted
  · exact ⟨_, _, start_sound base memory mapped⟩
  · exact lawful

end UserHeap

/-! ### The guarantee of malloc -/

private theorem kernel_enough (base : UInt32) (memory : Int → Int) (length : UInt32)
    (mapped : base ≠ 0) (room : 32 ≤ length.toNat) (actions : List Client.Action)
    (lawful : Client.machine.Lawful (Client.start base memory length) actions) :
    ∃ client, Client.machine.run (Client.start base memory length) actions = some client ∧
      ∀ bytes : UInt32, bytes ≠ 0 →
        (Heap.Enough Heap.payloadBytes (client.heap.malloc bytes) bytes ↔
          bytes.toNat ≤ 0xFFFFFFFC ∨ client.heap.avail = 0) := by
  obtain ⟨client, ran, blocks, order, invariant⟩ :=
    Client.run_invariant base memory length mapped room actions lawful
  refine ⟨client, ran, ?_⟩
  intro bytes nonzero
  exact invariant.enough_iff (invariant.malloc_serves nonzero)
    (fun block member free fits => invariant.payload_served member free fits)

private theorem user_enough (base : UInt32) (memory : Int → Int) (mapped : base ≠ 0)
    (actions : List UserHeap.Action)
    (lawful : UserHeap.callers.Lawful (UserHeap.start base memory) actions) :
    ∃ client, UserHeap.callers.run (UserHeap.start base memory) actions = some client ∧
      ∀ bytes : UInt32, bytes ≠ 0 →
        (Heap.Enough UserHeap.payloadBytes (UserHeap.malloc client.heap bytes) bytes ↔
          bytes.toNat ≤ 0xFFFFFFFC ∨ client.heap.avail = 0) := by
  obtain ⟨client, ran, blocks, order, sound⟩ :=
    UserHeap.callers_sound base memory mapped actions lawful
  refine ⟨client, ran, ?_⟩
  intro bytes nonzero
  refine sound.invariant.enough_iff (sound.malloc_serves nonzero) ?_
  intro block member free fits
  exact sound.payload_served member free fits

/-- Wherever the callers of the two heaps have come to, `malloc` gives a block of the size
asked for exactly when the size computation does not wrap, or when no block is left. -/
theorem malloc_gives_enough (base : UInt32) (memory : Int → Int) (mapped : base ≠ 0)
    (length : UInt32) (room : 32 ≤ length.toNat) (kernelActions : List Client.Action)
    (kernelLawful : Client.machine.Lawful (Client.start base memory length) kernelActions)
    (userActions : List UserHeap.Action)
    (userLawful : UserHeap.callers.Lawful (UserHeap.start base memory) userActions) :
    (∃ client, Client.machine.run (Client.start base memory length) kernelActions = some client ∧
      ∀ bytes : UInt32, bytes ≠ 0 →
        (Heap.Enough Heap.payloadBytes (client.heap.malloc bytes) bytes ↔
          bytes.toNat ≤ 0xFFFFFFFC ∨ client.heap.avail = 0)) ∧
    (∃ client, UserHeap.callers.run (UserHeap.start base memory) userActions = some client ∧
      ∀ bytes : UInt32, bytes ≠ 0 →
        (Heap.Enough UserHeap.payloadBytes (UserHeap.malloc client.heap bytes) bytes ↔
          bytes.toNat ≤ 0xFFFFFFFC ∨ client.heap.avail = 0)) := by
  constructor
  · exact kernel_enough base memory length mapped room kernelActions kernelLawful
  · exact user_enough base memory mapped userActions userLawful

/-- Blocks are taken, one of them by a request that wraps, written, grown and freed. -/
theorem malloc_gives_enough_sample :
    (∃ client, Client.machine.run (Client.start 0x100000 (fun _ => 7) 96)
        [.malloc 9, .malloc 0xFFFFFFFD, .write 0x10000C 4 5, .free 0x10000C] = some client ∧
      ∀ bytes : UInt32, bytes ≠ 0 →
        (Heap.Enough Heap.payloadBytes (client.heap.malloc bytes) bytes ↔
          bytes.toNat ≤ 0xFFFFFFFC ∨ client.heap.avail = 0)) ∧
    (∃ client, UserHeap.callers.run (UserHeap.start 0x100000 (fun _ => 7))
        [.malloc 9, .malloc 0xFFFFFFFD, .realloc 0x10000C 40, .free 0x100000] = some client ∧
      ∀ bytes : UInt32, bytes ≠ 0 →
        (Heap.Enough UserHeap.payloadBytes (UserHeap.malloc client.heap bytes) bytes ↔
          bytes.toNat ≤ 0xFFFFFFFC ∨ client.heap.avail = 0)) :=
  malloc_gives_enough 0x100000 (fun _ => 7) (by decide) 96 (by decide) _ (by decide) _
    (by decide +kernel)

/-- What a call returned, read off with the payload it leads to. -/
private theorem not_enough {payload : Heap → Int → Int} {result : Option (Heap × Int)}
    {bytes : UInt32} {q room : Int}
    (seen : result.map (fun made => (made.2, payload made.1 made.2)) = some (q, room))
    (real : q ≠ 0) (small : room < bytes.toNat) : ¬ Heap.Enough payload result bytes := by
  rintro ⟨heap, r, returned, enough⟩
  rw [returned] at seen
  cases seen
  exact absurd (enough real) (not_le.mpr small)

/-- On fresh heaps the request of 2^32 - 3 bytes gets a block with room for eight. -/
theorem malloc_wraps :
    ¬ Heap.Enough Heap.payloadBytes
        ((Client.start 0x100000 (fun _ => 7) 96).heap.malloc 0xFFFFFFFD) 0xFFFFFFFD ∧
      ¬ Heap.Enough UserHeap.payloadBytes
        (UserHeap.malloc (UserHeap.start 0x100000 (fun _ => 7)).heap 0xFFFFFFFD) 0xFFFFFFFD := by
  constructor
  · have seen : ((Client.start 0x100000 (fun _ => 7) 96).heap.malloc 0xFFFFFFFD).map
        (fun made => (made.2, Heap.payloadBytes made.1 made.2)) = some (0x10000C, 8) := by
      decide +kernel
    exact not_enough seen (by decide) (by decide)
  · have seen : (UserHeap.malloc (UserHeap.start 0x100000 (fun _ => 7)).heap 0xFFFFFFFD).map
        (fun made => (made.2, UserHeap.payloadBytes made.1 made.2)) = some (0x10000C, 8) := by
      decide +kernel
    exact not_enough seen (by decide) (by decide)

end AC97Kernel
