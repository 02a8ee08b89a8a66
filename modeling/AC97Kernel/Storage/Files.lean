/-
The contents of files on the disk.

Two devices are stacked: the file is read in blocks of the file system and each
of these in sectors of the disk.  The contents are given by the inode's pointers
alone, so that nothing here says how a read is cut up.
-/

import AC97Kernel.Storage.Ext2

set_option autoImplicit false

namespace AC97Kernel

open Slices LittleEndian

/-- A block pointer in the image of a disk. -/
def wordOn (image : Nat → UInt8) (address : Nat) : Nat :=
  decode (tabulate (fun index => image (address + index)) 4)

/-- The block in which the doubly indirect pointers have the pointer of a block of
the file. -/
def singlyBlock (image : Nat → UInt8) (blockSize : Nat) (data : NodeData) (index : Nat) : Nat :=
  let refsPerBlock := blockSize / 4
  wordOn image (data.indirect2 * blockSize + (index - 12 - refsPerBlock) / refsPerBlock * 4)

/-- The disk block that the pointers of an inode assign to a block of the file. -/
def diskBlock (image : Nat → UInt8) (blockSize : Nat) (data : NodeData) (index : Nat) : Nat :=
  let refsPerBlock := blockSize / 4
  if index < 12 then data.pointer index
  else if index < 12 + refsPerBlock then
    wordOn image (data.indirect1 * blockSize + (index - 12) * 4)
  else
    wordOn image (singlyBlock image blockSize data index * blockSize +
      (index - 12 - refsPerBlock) % refsPerBlock * 4)

/-- The bytes of a file, as far as its pointers go. -/
def fileByte (image : Nat → UInt8) (blockSize : Nat) (data : NodeData) (position : Nat) : UInt8 :=
  image (diskBlock image blockSize data (position / blockSize) * blockSize + position % blockSize)

/-- An inode all of whose blocks the file system can read: enough pointers and
sectors for the size, and each block that is on the way to a byte of the file ends
below `limit`. -/
structure Readable (image : Nat → UInt8) (limit blockSize : Nat) (data : NodeData) : Prop where
  pointers : data.sizeLow ≤ (12 + blockSize / 4 + blockSize / 4 * (blockSize / 4)) * blockSize
  sectors : (data.sizeLow + blockSize - 1) / blockSize * (blockSize / 512) ≤ data.nSectors
  below : ∀ index, index * blockSize < data.sizeLow →
    (diskBlock image blockSize data index + 1) * blockSize ≤ limit
  singly : ∀ index, index * blockSize < data.sizeLow → 12 ≤ index → index < 12 + blockSize / 4 →
    (data.indirect1 + 1) * blockSize ≤ limit
  doubly : ∀ index, index * blockSize < data.sizeLow → 12 + blockSize / 4 ≤ index →
    (data.indirect2 + 1) * blockSize ≤ limit ∧
      (singlyBlock image blockSize data index + 1) * blockSize ≤ limit

section Blocks

variable {ide : BlockIO} {image : Nat → UInt8} {limit blockSize index : Nat} {data : NodeData}

/-- What lies on the disk as a whole is fetched. -/
theorem fetch_result (serves : ide.Serves (tabulate image limit)) {address size : Nat}
    (some : 0 < size) (inside : address + size ≤ limit) :
    (Reading.fetch ide address size).result =
      .ok (tabulate (fun index => image (address + index)) size) := by
  have word := ide.sizeWord
  have served := serves.size
  rw [length_tabulate] at served
  have exact : address % 2 ^ 32 = address := Nat.mod_eq_of_lt (by omega)
  have whole : min size (limit - address) = size := by omega
  unfold Reading.fetch
  simp only [exact]
  rw [serves.readThing _ some, length_tabulate, if_pos inside, slice_tabulate, whole]

theorem pointerAt_result (serves : ide.Serves (tabulate image limit)) {address : Nat}
    (inside : address + 4 ≤ limit) :
    (pointerAt ide address).result = .ok (wordOn image address) := by
  unfold pointerAt
  rw [Reading.bind_result (fetch_result serves (by decide) inside)]
  rfl

/-- The disk is given the address modulo 2^32. -/
theorem pointerAt_wrapped (image : Nat → UInt8) (address : Nat) :
    (pointerAt (Ide image) address).result =
      if address % 2 ^ 32 + 4 < 2 ^ 32 then .ok (wordOn image (address % 2 ^ 32))
      else .error .panicked := by
  have served := (Ide_serves image).readThing (address % 2 ^ 32) (by decide : 0 < 4)
  rw [length_tabulate] at served
  by_cases inside : address % 2 ^ 32 + 4 < 2 ^ 32
  · rw [if_pos (by omega), slice_tabulate, Nat.min_eq_left (by omega)] at served
    have fetched : (Reading.fetch (Ide image) address 4).result =
        .ok (tabulate (fun index => image (address % 2 ^ 32 + index)) 4) := by
      unfold Reading.fetch
      rw [served]
    unfold pointerAt
    rw [Reading.bind_result fetched, if_pos inside]
    rfl
  · rw [if_neg (by omega)] at served
    have refused : (Reading.fetch (Ide image) address 4).result = .error .panicked := by
      unfold Reading.fetch
      rw [served]
    unfold pointerAt
    rw [Reading.bind_error refused, if_neg inside]

/-- The number of blocks that the guards of `read_block` compare with does not wrap
for an index of a file of less than 2^32 bytes. -/
theorem refs_guard (word : index * blockSize < 2 ^ 32)
    (inside : index < 12 + blockSize / 4 + blockSize / 4 * (blockSize / 4))
    (single : ¬ index < 12 + blockSize / 4) :
    index < (12 + blockSize / 4 + blockSize / 4 * (blockSize / 4)) % 2 ^ 32 := by
  have refs : blockSize / 4 * 4 ≤ blockSize := Nat.div_mul_le_self blockSize 4
  generalize blockSize / 4 = r at *
  -- a block of the file behind the singly indirect ones lies at r blocks of 4r bytes at least
  have square : r * (r * 4) ≤ index * blockSize :=
    Nat.mul_le_mul (by omega) (by omega)
  have small : r < 2 ^ 15 := by
    by_contra big
    have least : 2 ^ 15 * (2 ^ 15 * 4) ≤ r * (r * 4) :=
      Nat.mul_le_mul (by omega) (by omega)
    omega
  have product : r * r ≤ 2 ^ 15 * 2 ^ 15 := Nat.mul_le_mul (by omega) (by omega)
  rw [Nat.mod_eq_of_lt (by omega)]
  exact inside

/-- `read_block` finds the disk block that the pointers assign. -/
theorem blockIndex_result (serves : ide.Serves (tabulate image limit))
    (readable : Readable image limit blockSize data) (large : 512 ≤ blockSize)
    (short : blockSize < 2 ^ 31) (sizeWord : data.sizeLow < 2 ^ 32)
    (inside : index * blockSize < data.sizeLow) :
    (blockIndex ide blockSize data index).result = .ok (diskBlock image blockSize data index) := by
  have unit : 0 < blockSize / 512 := by omega
  have refsPos : 0 < blockSize / 4 := by omega
  have refsBlock : blockSize / 4 * 4 ≤ blockSize := Nat.div_mul_le_self blockSize 4
  have counted : index < (data.sizeLow + blockSize - 1) / blockSize := by
    rw [Nat.lt_iff_add_one_le, Nat.le_div_iff_mul_le (by omega), Nat.add_mul]
    omega
  have blocks : index < data.nSectors / (blockSize / 512) :=
    Nat.lt_of_lt_of_le counted ((Nat.le_div_iff_mul_le unit).mpr readable.sectors)
  have pointers : index < 12 + blockSize / 4 + blockSize / 4 * (blockSize / 4) :=
    Nat.lt_of_mul_lt_mul_right (Nat.lt_of_lt_of_le inside readable.pointers)
  have firstGuard : (12 + blockSize / 4) % 2 ^ 32 = 12 + blockSize / 4 :=
    Nat.mod_eq_of_lt (by omega)
  unfold blockIndex diskBlock
  rw [Reading.bind_result (Reading.divide_result (by omega)),
    Reading.bind_result (Reading.assert_result blocks)]
  simp only [firstGuard]
  by_cases direct : index < 12
  · rw [if_pos direct, if_pos direct]
    rfl
  · rw [if_neg direct, if_neg direct]
    by_cases single : index < 12 + blockSize / 4
    · rw [if_pos single, if_pos single]
      have block := readable.singly index inside (by omega) single
      rw [Nat.add_mul] at block
      exact pointerAt_result serves (by omega)
    · rw [if_neg single, if_neg single,
        if_pos (refs_guard (by omega) pointers single)]
      obtain ⟨outer, inner⟩ := readable.doubly index inside (by omega)
      rw [Nat.add_mul] at outer inner
      have group : (index - 12 - blockSize / 4) / (blockSize / 4) < blockSize / 4 := by
        rw [Nat.div_lt_iff_lt_mul refsPos]
        omega
      have within := Nat.mod_lt (index - 12 - blockSize / 4) refsPos
      rw [Reading.bind_result (pointerAt_result serves (by omega))]
      exact pointerAt_result serves (by unfold singlyBlock at inner; simp only at inner; omega)

/-- A block of the file is the block of the disk. -/
theorem nodeFill_eq (serves : ide.Serves (tabulate image limit))
    (readable : Readable image limit blockSize data) (large : 512 ≤ blockSize)
    (short : blockSize < 2 ^ 31) (sizeWord : data.sizeLow < 2 ^ 32)
    (inside : index * blockSize < data.sizeLow) :
    nodeFill ide blockSize data index =
      { bytes := tabulate
          (fun offset => image (diskBlock image blockSize data index * blockSize + offset)) blockSize
        returned := true } := by
  have found := blockIndex_result serves readable large short sizeWord inside
  have below := readable.below index inside
  have word := ide.sizeWord
  have size := serves.size
  rw [length_tabulate] at size
  rw [Nat.add_mul] at below
  have exact : diskBlock image blockSize data index * blockSize % 2 ^ 32 =
      diskBlock image blockSize data index * blockSize := Nat.mod_eq_of_lt (by omega)
  have whole : min blockSize (limit - diskBlock image blockSize data index * blockSize) =
      blockSize := by omega
  unfold nodeFill readDataBlock
  rw [Reading.bind_result found]
  simp only [exact]
  rw [serves.readAll (by rw [length_tabulate]; omega), length_tabulate, slice_tabulate, whole]
  simp only [decide_true]

/-- The device of the node serves the bytes that the pointers lead to. -/
theorem Node.make_serves (serves : ide.Serves (tabulate image limit))
    (readable : Readable image limit blockSize data) (large : 512 ≤ blockSize)
    (short : blockSize < 2 ^ 31) (sizeWord : data.sizeLow < 2 ^ 32) :
    (Node.make ide blockSize data (by omega) short sizeWord).io.Serves
      (tabulate (fileByte image blockSize data) data.sizeLow) := by
  have positive : 0 < blockSize := by omega
  constructor
  · exact length_tabulate _ _
  · intro number starts
    rw [length_tabulate] at starts
    exact congrArg Fill.returned (nodeFill_eq serves readable large short sizeWord starts)
  · intro number starts
    rw [length_tabulate] at starts ⊢
    have filled := congrArg Fill.bytes
      (nodeFill_eq serves readable large short sizeWord starts)
    change slice (nodeFill ide blockSize data number).bytes 0 _ =
      slice _ (number * blockSize) blockSize
    rw [filled, slice_tabulate, slice_tabulate, Nat.sub_zero, Nat.min_comm]
    apply tabulate_congr
    intro offset before
    have inBlock : offset < blockSize := by omega
    have block : (number * blockSize + offset) / blockSize = number := by
      rw [Nat.mul_comm, Nat.mul_add_div positive, Nat.div_eq_of_lt inBlock, Nat.add_zero]
    have within : (number * blockSize + offset) % blockSize = offset := by
      rw [Nat.mul_comm, Nat.mul_add_mod, Nat.mod_eq_of_lt inBlock]
    unfold fileByte
    rw [block, within, Nat.zero_add]

end Blocks

end AC97Kernel
