/-
The block map of an inode.

The format assigns to each block of a file a way: a pointer of the inode and the slots
of the pointer blocks behind it.  A pointer of 0 is a hole, and what lies behind it reads
as zeros.  `read_block` follows the ways with one and two slots; a 0 is a block number to
it like any other.
-/

import AC97Kernel.Storage.Files

set_option autoImplicit false

namespace AC97Kernel

open Slices LittleEndian

/-! ### What the format has -/

/-- A pointer of the inode, and the slots that lead on from it. -/
structure Way where
  first : Nat
  slots : List Nat
  deriving DecidableEq

/-- The way to a block of a file, with `r` pointers to a block. -/
def wayTo (r index : Nat) : Option Way :=
  if index < 12 then some { first := index, slots := [] }
  else if index < 12 + r then some { first := 12, slots := [index - 12] }
  else if index < 12 + r + r * r then
    let index := index - 12 - r
    some { first := 13, slots := [index / r, index % r] }
  else if index < 12 + r + r * r + r * r * r then
    let index := index - 12 - r - r * r
    some { first := 14, slots := [index / (r * r), index / r % r, index % r] }
  else none

/-- The end of a way: a block of the disk, or a hole with the slots that are left. -/
inductive Mapped where
  | stored (block : Nat)
  | hole (left : List Nat)
  deriving DecidableEq

def follow (image : Nat → UInt8) (blockSize : Nat) : Nat → List Nat → Mapped
  | block, [] => if block = 0 then .hole [] else .stored block
  | block, slot :: slots =>
      if block = 0 then .hole (slot :: slots)
      else follow image blockSize (wordOn image (block * blockSize + slot * 4)) slots

/-- What the format assigns to a block of the file. -/
def mapped (image : Nat → UInt8) (blockSize : Nat) (data : NodeData) (index : Nat) :
    Option Mapped :=
  (wayTo (blockSize / 4) index).map fun way =>
    follow image blockSize (data.pointer way.first) way.slots

/-- The blocks on the way, the last one included. -/
def blocksOn (image : Nat → UInt8) (blockSize : Nat) : Nat → List Nat → List Nat
  | block, [] => [block]
  | block, slot :: slots =>
      block ::
        if block = 0 then []
        else blocksOn image blockSize (wordOn image (block * blockSize + slot * 4)) slots

/-- Where and how much is to be read on the way. -/
def readsOn (image : Nat → UInt8) (blockSize : Nat) : Nat → List Nat → List (Nat × Nat)
  | block, [] => [(block * blockSize, blockSize)]
  | block, slot :: slots =>
      (block * blockSize + slot * 4, 4) ::
        readsOn image blockSize (wordOn image (block * blockSize + slot * 4)) slots

/-- The bytes that the format has in a block of a file. -/
def Mapped.bytes (image : Nat → UInt8) (blockSize : Nat) : Mapped → List UInt8
  | .stored block => tabulate (fun offset => image (block * blockSize + offset)) blockSize
  | .hole _ => List.replicate blockSize 0

def blocksTo (image : Nat → UInt8) (blockSize : Nat) (data : NodeData) (index : Nat) : List Nat :=
  match wayTo (blockSize / 4) index with
  | some way => blocksOn image blockSize (data.pointer way.first) way.slots
  | none => []

def readsTo (image : Nat → UInt8) (blockSize : Nat) (data : NodeData) (index : Nat) :
    List (Nat × Nat) :=
  match wayTo (blockSize / 4) index with
  | some way => readsOn image blockSize (data.pointer way.first) way.slots
  | none => []

/-! ### What the kernel makes of a way -/

/-- The pointers of a way, one after the other. -/
def chase (ide : BlockIO) (blockSize : Nat) : Nat → List Nat → Reading Nat
  | block, [] => pure block
  | block, slot :: slots => do
      let next ← pointerAt ide (block * blockSize + slot * 4)
      chase ide blockSize next slots

/-- Where a way ends whose addresses are words, if it does not leave the disk. -/
def arrive (image : Nat → UInt8) (blockSize : Nat) : Nat → List Nat → Option Nat
  | block, [] => some block
  | block, slot :: slots =>
      let address := (block * blockSize + slot * 4) % 2 ^ 32
      if address + 4 < 2 ^ 32 then arrive image blockSize (wordOn image address) slots else none

/-- The pointers that the disk has from a block on lead to zeros, with addresses that
are words. -/
def LeadsToZeros (image : Nat → UInt8) (blockSize : Nat) : Nat → List Nat → Prop
  | block, [] =>
      block * blockSize % 2 ^ 32 + blockSize < 2 ^ 32 ∧
        ∀ offset < blockSize, image (block * blockSize % 2 ^ 32 + offset) = 0
  | block, slot :: slots =>
      let address := (block * blockSize + slot * 4) % 2 ^ 32
      address + 4 < 2 ^ 32 ∧ LeadsToZeros image blockSize (wordOn image address) slots

/-- The block is one for which `read_block` follows a way. -/
def Followed (blockSize index : Nat) : Prop :=
  index < 12 + blockSize / 4 ∨
    (blockSize / 4 < 2 ^ 16 ∧ index < 12 + blockSize / 4 + blockSize / 4 * (blockSize / 4))

section Ways

variable {image : Nat → UInt8} {blockSize block index r : Nat} {slots left : List Nat}
  {data : NodeData} {way : Way}

theorem wayTo_slots (found : wayTo r index = some way) (some : 0 < r) :
    ∀ slot ∈ way.slots, slot < r := by
  unfold wayTo at found
  split at found
  · cases found
    intro slot member
    cases member
  · split at found
    · cases found
      intro slot member
      rw [List.mem_singleton.1 member]
      omega
    · split at found
      · cases found
        intro slot member
        have outer : (index - 12 - r) / r < r := by
          rw [Nat.div_lt_iff_lt_mul some]
          omega
        have inner := Nat.mod_lt (index - 12 - r) some
        simp only [List.mem_cons, List.not_mem_nil, or_false] at member
        rcases member with rfl | rfl
        · exact outer
        · exact inner
      · split at found
        · cases found
          intro slot member
          have outer : (index - 12 - r - r * r) / (r * r) < r := by
            rw [Nat.div_lt_iff_lt_mul (Nat.mul_pos some some), ← Nat.mul_assoc]
            omega
          have middle := Nat.mod_lt ((index - 12 - r - r * r) / r) some
          have inner := Nat.mod_lt (index - 12 - r - r * r) some
          simp only [List.mem_cons, List.not_mem_nil, or_false] at member
          rcases member with rfl | rfl | rfl
          · exact outer
          · exact middle
          · exact inner
        · cases found

theorem follow_stored {last : Nat} (leads : follow image blockSize block slots = .stored last) :
    slots.foldl (fun block slot => wordOn image (block * blockSize + slot * 4)) block = last := by
  induction slots generalizing block with
  | nil =>
      rw [follow] at leads
      split at leads
      · cases leads
      · cases leads
        rfl
  | cons slot slots ih =>
      rw [follow] at leads
      split at leads
      · cases leads
      · exact ih leads

/-- Up to the doubly indirect pointers, a stored block is the one that files are read
from. -/
theorem mapped_diskBlock (stored : mapped image blockSize data index = some (.stored block))
    (inside : index < 12 + blockSize / 4 + blockSize / 4 * (blockSize / 4)) :
    diskBlock image blockSize data index = block := by
  unfold mapped at stored
  obtain ⟨way, found, leads⟩ := Option.map_eq_some_iff.mp stored
  rw [← follow_stored leads]
  unfold wayTo at found
  unfold diskBlock
  by_cases direct : index < 12
  · simp only [if_pos direct] at found ⊢
    cases found
    rfl
  · by_cases single : index < 12 + blockSize / 4
    · simp only [if_neg direct, if_pos single] at found ⊢
      cases found
      rfl
    · simp only [if_neg direct, if_neg single, if_pos inside] at found ⊢
      cases found
      rfl

theorem chase_ide (block : Nat) (slots : List Nat) :
    (chase (Ide image) blockSize block slots).result =
      match arrive image blockSize block slots with
      | some last => .ok last
      | none => .error .panicked := by
  induction slots generalizing block with
  | nil => rfl
  | cons slot slots ih =>
      have next := pointerAt_wrapped image (block * blockSize + slot * 4)
      rw [chase, arrive]
      by_cases inside : (block * blockSize + slot * 4) % 2 ^ 32 + 4 < 2 ^ 32
      · rw [if_pos inside] at next
        rw [Reading.bind_result next, ih]
        simp only [if_pos inside]
      · rw [if_neg inside] at next
        rw [Reading.bind_error next]
        simp only [if_neg inside]

/-! ### The branches of read_block -/

theorem bind_pure_result {Result : Type} (reading : Reading Result) :
    (reading >>= pure).result = reading.result := by
  cases found : reading.result with
  | error fault => exact Reading.bind_error found
  | ok value => exact Reading.bind_result found

theorem bind_result_congr {First Second : Type} {first : Reading First}
    {next other : First → Reading Second}
    (same : ∀ value, (next value).result = (other value).result) :
    (first >>= next).result = (first >>= other).result := by
  cases found : first.result with
  | error fault => rw [Reading.bind_error found, Reading.bind_error found]
  | ok value => rw [Reading.bind_result found, Reading.bind_result found, same]

/-- From 2^16 pointers to a block on, their square vanishes in the guard. -/
theorem guard_iff {k : Nat} (power : r = 256 * 2 ^ k) (small : r < 2 ^ 30)
    (behind : ¬ index < 12 + r) :
    index < (12 + r + r * r) % 2 ^ 32 ↔ r < 2 ^ 16 ∧ index < 12 + r + r * r := by
  by_cases few : r < 2 ^ 16
  · have square : r * r ≤ (2 ^ 16 - 1) * (2 ^ 16 - 1) := Nat.mul_le_mul (by omega) (by omega)
    rw [Nat.mod_eq_of_lt (by omega), and_iff_right few]
  · have eight : 8 ≤ k := by
      by_contra less
      have most : 2 ^ k ≤ 2 ^ 7 := Nat.pow_le_pow_right (by decide) (by omega)
      omega
    have split : 2 ^ k = 2 ^ 8 * 2 ^ (k - 8) := by rw [← Nat.pow_add, Nat.add_sub_cancel' eight]
    have square : r * r = 2 ^ 32 * (2 ^ (k - 8) * 2 ^ (k - 8)) := by
      rw [power, split]
      generalize 2 ^ (k - 8) = rest
      simp only [Nat.mul_assoc, Nat.mul_left_comm rest]
      omega
    rw [square, Nat.add_mul_mod_self_left, Nat.mod_eq_of_lt (by omega)]
    exact iff_of_false behind fun both => few both.1

variable {k : Nat} {ide : BlockIO}

/-- A block size that is a word. -/
structure Sized (blockSize k : Nat) : Prop where
  power : blockSize = 1024 * 2 ^ k
  word : blockSize < 2 ^ 32

theorem Sized.refs (sized : Sized blockSize k) :
    blockSize / 4 = 256 * 2 ^ k ∧ blockSize = 4 * (blockSize / 4) ∧ 256 ≤ blockSize / 4 := by
  have power := sized.power
  have positive : 0 < 2 ^ k := Nat.two_pow_pos k
  generalize 2 ^ k = unit at *
  omega

theorem blockIndex_refused (sized : Sized blockSize k)
    (refused : ¬ index < data.nSectors / (blockSize / 512)) :
    (blockIndex ide blockSize data index).result = .error .panicked := by
  have refs := sized.refs
  have stops : (Reading.assert (index < data.nSectors / (blockSize / 512))).result =
      .error .panicked := if_neg refused
  unfold blockIndex
  rw [Reading.bind_result (Reading.divide_result (by omega))]
  exact Reading.bind_error stops

theorem blockIndex_followed (sized : Sized blockSize k)
    (passes : index < data.nSectors / (blockSize / 512)) (followed : Followed blockSize index) :
    ∃ way, wayTo (blockSize / 4) index = some way ∧
      (blockIndex ide blockSize data index).result =
        (chase ide blockSize (data.pointer way.first) way.slots).result := by
  obtain ⟨power, _, _⟩ := sized.refs
  have word := sized.word
  have firstGuard : (12 + blockSize / 4) % 2 ^ 32 = 12 + blockSize / 4 :=
    Nat.mod_eq_of_lt (by omega)
  unfold blockIndex wayTo
  rw [Reading.bind_result (Reading.divide_result (by omega)),
    Reading.bind_result (Reading.assert_result passes)]
  simp only [firstGuard]
  by_cases direct : index < 12
  · rw [if_pos direct, if_pos direct]
    exact ⟨_, rfl, rfl⟩
  · rw [if_neg direct, if_neg direct]
    by_cases single : index < 12 + blockSize / 4
    · rw [if_pos single, if_pos single]
      exact ⟨_, rfl, (bind_pure_result _).symm⟩
    · have double := followed.resolve_left single
      rw [if_neg single, if_neg single, if_pos ((guard_iff power (by omega) single).2 double),
        if_pos double.2]
      exact ⟨_, rfl, bind_result_congr fun next => (bind_pure_result _).symm⟩

theorem blockIndex_beyond (sized : Sized blockSize k)
    (passes : index < data.nSectors / (blockSize / 512)) (beyond : ¬ Followed blockSize index) :
    (blockIndex ide blockSize data index).result = .error .panicked := by
  obtain ⟨power, _, _⟩ := sized.refs
  have word := sized.word
  have firstGuard : (12 + blockSize / 4) % 2 ^ 32 = 12 + blockSize / 4 :=
    Nat.mod_eq_of_lt (by omega)
  have single : ¬ index < 12 + blockSize / 4 := fun before => beyond (.inl before)
  have double : ¬ index < (12 + blockSize / 4 + blockSize / 4 * (blockSize / 4)) % 2 ^ 32 :=
    fun before => beyond (.inr ((guard_iff power (by omega) single).1 before))
  unfold blockIndex
  rw [Reading.bind_result (Reading.divide_result (by omega)),
    Reading.bind_result (Reading.assert_result passes)]
  simp only [firstGuard]
  rw [if_neg (by omega), if_neg single, if_neg double, if_neg double]
  rfl

/-- The transfer of the block at the end of a way. -/
theorem nodeFill_found (found : (blockIndex (Ide image) blockSize data index).result = .ok block) :
    nodeFill (Ide image) blockSize data index =
      { bytes := tabulate (fun offset => image (block * blockSize % 2 ^ 32 + offset))
          (min blockSize (2 ^ 32 - 1 - block * blockSize % 2 ^ 32))
        returned := decide (block * blockSize % 2 ^ 32 + blockSize < 2 ^ 32) } := by
  have start := Nat.mod_lt (block * blockSize) (by decide : 0 < 2 ^ 32)
  have reads := (Ide_serves image).readAll (n := blockSize)
    (by rw [length_tabulate]; omega : block * blockSize % 2 ^ 32 ≤ _)
  rw [length_tabulate, slice_tabulate] at reads
  unfold nodeFill readDataBlock
  rw [Reading.bind_result found]
  simp only [reads, Outcome.returned.injEq]
  congr 1
  rw [decide_eq_decide]
  omega

theorem nodeFill_failed {fault : Fault}
    (failed : (blockIndex (Ide image) blockSize data index).result = .error fault) :
    nodeFill (Ide image) blockSize data index = { bytes := [], returned := false } := by
  unfold nodeFill readDataBlock
  rw [Reading.bind_error failed]

/-- A block is delivered when `read_block` follows the way and finds its end on the
disk. -/
theorem nodeFill_iff (sized : Sized blockSize k) (found : wayTo (blockSize / 4) index = some way)
    (bytes : List UInt8) :
    nodeFill (Ide image) blockSize data index = { bytes := bytes, returned := true } ↔
      index < data.nSectors / (blockSize / 512) ∧ Followed blockSize index ∧
        ∃ block, arrive image blockSize (data.pointer way.first) way.slots = some block ∧
          block * blockSize % 2 ^ 32 + blockSize < 2 ^ 32 ∧
          tabulate (fun offset => image (block * blockSize % 2 ^ 32 + offset)) blockSize =
            bytes := by
  by_cases passes : index < data.nSectors / (blockSize / 512)
  · by_cases followed : Followed blockSize index
    · obtain ⟨other, same, ran⟩ := blockIndex_followed sized passes followed
      rw [found] at same
      cases same
      rw [chase_ide] at ran
      rw [and_iff_right passes, and_iff_right followed]
      cases arrived : arrive image blockSize (data.pointer way.first) way.slots with
      | none =>
          rw [arrived] at ran
          rw [nodeFill_failed ran]
          simp
      | some block =>
          rw [arrived] at ran
          rw [nodeFill_found ran]
          simp only [Fill.mk.injEq, decide_eq_true_eq, Option.some.injEq]
          constructor
          · intro both
            obtain ⟨delivered, inside⟩ := both
            refine ⟨block, rfl, inside, ?_⟩
            rw [← delivered, Nat.min_eq_left (by omega)]
          · intro reached
            obtain ⟨last, same, inside, delivered⟩ := reached
            cases same
            refine ⟨?_, inside⟩
            rw [← delivered, Nat.min_eq_left (by omega)]
    · rw [nodeFill_failed (blockIndex_beyond sized passes followed)]
      simp [followed]
  · rw [nodeFill_failed (blockIndex_refused sized passes)]
    simp [passes]

/-! ### Ways on the disk -/

/-- The last block of a disk of 2^32 bytes ends with it. -/
theorem Sized.block_ends (sized : Sized blockSize k) (starts : block * blockSize < 2 ^ 32) :
    block * blockSize + blockSize ≤ 2 ^ 32 := by
  have power := sized.power
  have few : k < 22 := by
    by_contra many
    have most : 2 ^ 22 ≤ 2 ^ k := Nat.pow_le_pow_right (by decide) (by omega)
    have word := sized.word
    omega
  have whole : 2 ^ 32 = 2 ^ (22 - k) * blockSize := by
    rw [power, ← Nat.mul_assoc, Nat.mul_right_comm, ← Nat.pow_add, Nat.sub_add_cancel (by omega)]
    rfl
  rw [whole] at starts ⊢
  rw [← Nat.succ_mul]
  exact Nat.mul_le_mul_right _ (Nat.lt_of_mul_lt_mul_right starts)

/-- A way whose blocks start on the disk leads to what the format assigns if every read
of it ends before the last byte. -/
theorem arrive_stored (sized : Sized blockSize k) {last : Nat}
    (inBlock : ∀ slot ∈ slots, slot < blockSize / 4)
    (words : ∀ block' ∈ blocksOn image blockSize block slots, block' * blockSize < 2 ^ 32)
    (leads : follow image blockSize block slots = .stored last) :
    last * blockSize < 2 ^ 32 ∧
    (∀ other, arrive image blockSize block slots = some other → other = last) ∧
    (arrive image blockSize block slots = some last ∧ last * blockSize + blockSize < 2 ^ 32 ↔
      ∀ read ∈ readsOn image blockSize block slots, read.1 + read.2 < 2 ^ 32) := by
  induction slots generalizing block with
  | nil =>
      rw [follow] at leads
      split at leads
      · cases leads
      · cases leads
        refine ⟨words _ (List.mem_singleton_self _), ?_, ?_⟩
        · intro other same
          cases same
          rfl
        · simp [arrive, readsOn]
  | cons slot slots ih =>
      rw [follow] at leads
      split at leads
      · cases leads
      · rename_i pointer
        rw [blocksOn, if_neg pointer] at words
        have starts := words block (List.mem_cons_self ..)
        have ends := sized.block_ends starts
        have within := inBlock slot (List.mem_cons_self ..)
        have exact : (block * blockSize + slot * 4) % 2 ^ 32 = block * blockSize + slot * 4 :=
          Nat.mod_eq_of_lt (by omega)
        obtain ⟨word, unique, reads⟩ := ih
          (fun other member => inBlock other (List.mem_cons_of_mem _ member))
          (fun other member => words other (List.mem_cons_of_mem _ member)) leads
        rw [arrive, readsOn]
        simp only [exact, List.forall_mem_cons]
        by_cases inside : block * blockSize + slot * 4 + 4 < 2 ^ 32
        · simp only [if_pos inside]
          exact ⟨word, unique, by rw [reads, and_iff_right inside]⟩
        · simp only [if_neg inside]
          refine ⟨word, by simp, ?_⟩
          constructor
          · intro both
            cases both.1
          · intro all
            exact absurd all.1 inside

/-- A way all of whose blocks are on the disk leads to what the format assigns, and from
a hole on through the block 0. -/
theorem arrive_follow
    (inBlock : ∀ slot ∈ slots, slot < blockSize / 4)
    (onDisk : ∀ block' ∈ blocksOn image blockSize block slots,
      block' * blockSize + blockSize < 2 ^ 32) :
    match follow image blockSize block slots with
    | .stored last =>
        arrive image blockSize block slots = some last ∧ last * blockSize + blockSize < 2 ^ 32
    | .hole left => arrive image blockSize block slots = arrive image blockSize 0 left := by
  induction slots generalizing block with
  | nil =>
      rw [follow]
      by_cases hole : block = 0
      · rw [if_pos hole, hole]
      · rw [if_neg hole]
        exact ⟨rfl, onDisk block (List.mem_singleton_self _)⟩
  | cons slot slots ih =>
      rw [follow]
      by_cases hole : block = 0
      · rw [if_pos hole, hole]
      · rw [blocksOn, if_neg hole] at onDisk
        have ends := onDisk block (List.mem_cons_self ..)
        have within := inBlock slot (List.mem_cons_self ..)
        have exact : (block * blockSize + slot * 4) % 2 ^ 32 = block * blockSize + slot * 4 :=
          Nat.mod_eq_of_lt (by omega)
        have rest := ih (fun other member => inBlock other (List.mem_cons_of_mem _ member))
          (fun other member => onDisk other (List.mem_cons_of_mem _ member))
        have step : arrive image blockSize block (slot :: slots) =
            arrive image blockSize (wordOn image (block * blockSize + slot * 4)) slots := by
          rw [arrive]
          simp only [exact]
          rw [if_pos (by omega)]
        rw [if_neg hole, step]
        exact rest

theorem leadsToZeros_iff :
    LeadsToZeros image blockSize block slots ↔
      ∃ last, arrive image blockSize block slots = some last ∧
        last * blockSize % 2 ^ 32 + blockSize < 2 ^ 32 ∧
        ∀ offset < blockSize, image (last * blockSize % 2 ^ 32 + offset) = 0 := by
  induction slots generalizing block with
  | nil => simp [LeadsToZeros, arrive]
  | cons slot slots ih =>
      rw [LeadsToZeros, arrive, ih]
      by_cases inside : (block * blockSize + slot * 4) % 2 ^ 32 + 4 < 2 ^ 32
      · simp only [if_pos inside, and_iff_right inside]
      · simp only [if_neg inside]
        constructor
        · intro both
          exact absurd both.1 inside
        · intro reached
          obtain ⟨last, impossible, _⟩ := reached
          cases impossible

end Ways

/-! ### Files without holes -/

/-- A block that the format assigns is delivered exactly if it is not behind the triply
indirect pointer, the number of pointers of a block has a square of 32 bits, and nothing on
the way ends with the last byte that the driver could count. -/
theorem read_block_maps (image : Nat → UInt8) (blockSize k : Nat) (data : NodeData)
    (index block : Nat) (sized : Sized blockSize k)
    (stored : mapped image blockSize data index = some (.stored block))
    (passes : index < data.nSectors / (blockSize / 512))
    (words : ∀ onWay ∈ blocksTo image blockSize data index, onWay * blockSize < 2 ^ 32) :
    nodeFill (Ide image) blockSize data index =
        { bytes := (Mapped.stored block).bytes image blockSize, returned := true } ↔
      Followed blockSize index ∧
        ∀ read ∈ readsTo image blockSize data index, read.1 + read.2 < 2 ^ 32 := by
  unfold mapped at stored
  obtain ⟨way, found, leads⟩ := Option.map_eq_some_iff.mp stored
  have refs := sized.refs
  unfold blocksTo at words
  unfold readsTo
  simp only [found] at words ⊢
  obtain ⟨word, unique, reads⟩ := arrive_stored sized (wayTo_slots found (by omega)) words leads
  have exact : block * blockSize % 2 ^ 32 = block * blockSize := Nat.mod_eq_of_lt word
  rw [nodeFill_iff sized found, and_iff_right passes, ← reads]
  constructor
  · intro delivered
    obtain ⟨followed, other, arrived, inside, _⟩ := delivered
    cases unique other arrived
    exact ⟨followed, arrived, by omega⟩
  · intro both
    obtain ⟨followed, arrived, inside⟩ := both
    exact ⟨followed, block, arrived, by omega, by rw [exact, Mapped.bytes]⟩

/-- The pointer blocks of a file of 65805 blocks. -/
def largeWord (block slot : Nat) : Nat :=
  if block = 300 ∨ block = 301 then block + 1
  else if block = 302 then 70000
  else if block = 303 then 304 + slot
  else if 304 ≤ block ∧ block < 560 then 1000 + (block - 304) * 256 + slot
  else if block = 560 then 600 + slot
  else 0

def largeDisk (address : Nat) : UInt8 :=
  UInt8.ofNat (largeWord (address / 1024) (address % 1024 / 4) / 256 ^ (address % 4))

def largeFile : NodeData :=
  { mode := 0x8000
    sizeLow := 65805 * 1024
    nSectors := 2 * (65805 + 1 + 257 + 3)
    pointers := (tabulate (fun index => encode 4 (20 + index)) 12).flatten ++
      encode 4 560 ++ encode 4 303 ++ encode 4 300 }

theorem kilobytes : Sized 1024 0 := ⟨rfl, by decide⟩

theorem read_block_maps_sample :
    nodeFill (Ide largeDisk) 1024 largeFile 600 =
      { bytes := (Mapped.stored 1332).bytes largeDisk 1024, returned := true } :=
  (read_block_maps largeDisk 1024 0 largeFile 600 1332 kilobytes (by decide +kernel) (by decide)
    (by decide +kernel)).2 ⟨.inr (by decide), by decide +kernel⟩

/-- The last block of the file is the first one behind the triply indirect pointer. -/
theorem read_block_of_large_file :
    mapped largeDisk 1024 largeFile 65804 = some (.stored 70000) ∧
      65804 < largeFile.nSectors / (1024 / 512) ∧
      nodeFill (Ide largeDisk) 1024 largeFile 65804 = { bytes := [], returned := false } := by
  have passes : 65804 < largeFile.nSectors / (1024 / 512) := by decide
  have beyond : ¬ Followed 1024 65804 := by
    unfold Followed
    omega
  exact ⟨by decide +kernel, passes, nodeFill_failed (blockIndex_beyond kilobytes passes beyond)⟩

/-! ### Files with holes -/

/-- What a file has in a block is delivered exactly if the count of sectors admits the
block, `read_block` follows its way, and from a hole on the way goes through block 0 to
zeros. -/
theorem read_block_of_holes (image : Nat → UInt8) (blockSize k : Nat) (data : NodeData)
    (index : Nat) (content : Mapped) (sized : Sized blockSize k)
    (assigned : mapped image blockSize data index = some content)
    (onDisk : ∀ block ∈ blocksTo image blockSize data index,
      block * blockSize + blockSize < 2 ^ 32) :
    nodeFill (Ide image) blockSize data index =
        { bytes := content.bytes image blockSize, returned := true } ↔
      index < data.nSectors / (blockSize / 512) ∧ Followed blockSize index ∧
        ∀ left, content = .hole left → LeadsToZeros image blockSize 0 left := by
  unfold mapped at assigned
  obtain ⟨way, found, leads⟩ := Option.map_eq_some_iff.mp assigned
  have refs := sized.refs
  unfold blocksTo at onDisk
  simp only [found] at onDisk
  have reached := arrive_follow (wayTo_slots found (by omega)) onDisk
  rw [leads] at reached
  rw [nodeFill_iff sized found]
  refine and_congr_right fun _ => and_congr_right fun _ => ?_
  cases content with
  | stored block =>
      obtain ⟨arrived, inside⟩ := reached
      have exact : block * blockSize % 2 ^ 32 = block * blockSize := Nat.mod_eq_of_lt (by omega)
      constructor
      · intro _ left impossible
        cases impossible
      · intro _
        exact ⟨block, arrived, by omega, by rw [exact, Mapped.bytes]⟩
  | hole left =>
      simp only [Mapped.hole.injEq, forall_eq', leadsToZeros_iff, reached, Mapped.bytes,
        tabulate_eq_replicate]

theorem read_block_of_holes_sample :
    nodeFill (Ide largeDisk) 1024 largeFile 0 =
      { bytes := (Mapped.stored 20).bytes largeDisk 1024, returned := true } :=
  (read_block_of_holes largeDisk 1024 0 largeFile 0 (.stored 20) kilobytes (by decide +kernel)
    (by decide +kernel)).2 ⟨by decide, .inl (by decide), by
      intro left impossible
      cases impossible⟩

/-- A file of two blocks the first of which is a hole. -/
def sparseFile : NodeData :=
  { mode := 0x8000, sizeLow := 2048, nSectors := 2, pointers := encode 4 0 ++ encode 4 5 }

/-- Its stored block is refused, and the hole has the bytes of the block 0. -/
theorem read_block_of_sparse_file :
    mapped (fun _ => 1) 1024 sparseFile 0 = some (.hole []) ∧
      mapped (fun _ => 1) 1024 sparseFile 1 = some (.stored 5) ∧
      nodeFill (Ide fun _ => 1) 1024 sparseFile 0 =
        { bytes := List.replicate 1024 1, returned := true } ∧
      nodeFill (Ide fun _ => 1) 1024 sparseFile 1 = { bytes := [], returned := false } := by
  have first : wayTo (1024 / 4) 0 = some { first := 0, slots := [] } := rfl
  have refused : ¬ 1 < sparseFile.nSectors / (1024 / 512) := by decide
  refine ⟨by decide +kernel, by decide +kernel, ?_, ?_⟩
  · exact (nodeFill_iff kilobytes first (List.replicate 1024 1)).2
      ⟨by decide, .inl (by decide), 0, rfl, by decide, tabulate_eq_replicate.2 fun _ _ => rfl⟩
  · exact nodeFill_failed (blockIndex_refused kilobytes refused)

end AC97Kernel
