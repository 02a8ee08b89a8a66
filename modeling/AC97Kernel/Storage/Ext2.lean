/-
The file system, as kernel/ext2.cc reads it from the disk.

Numbers are 32-bit words; sizes and offsets are computed in 32 bits as well.  A
`Reading` lists the byte addresses at which a function has read the disk, with
their exact values: what the disk is given is the value modulo 2^32.  A shift by
32 or more uses the low five bits of the count, as the processor does.  `new`
always finds room here.
-/

import AC97Kernel.Library.LittleEndian
import AC97Kernel.Storage.BlockIO

set_option autoImplicit false

namespace AC97Kernel

open Slices LittleEndian

/-- The driver of a disk whose sectors are those of a fixed image.  It does not ask
for the size of the disk. -/
def Ide (image : Nat → UInt8) : BlockIO where
  blockSize := 512
  sizeInBytes := 2 ^ 32 - 1
  readBlock sector := { bytes := tabulate (fun index => image (sector * 512 + index)) 512
                        returned := true }
  positive := BlockIO.sector_positive
  short := BlockIO.sector_short
  sizeWord := by decide
  fills sector := by rw [length_tabulate]
  fillsWhole sector _ := by rw [length_tabulate]

theorem Ide_bytes (image : Nat → UInt8) (sector : Nat) :
    ((Ide image).readBlock sector).bytes =
      tabulate (fun index => image (sector * 512 + index)) 512 := by
  simp only [Ide]

theorem Ide_serves (image : Nat → UInt8) :
    (Ide image).Serves (tabulate image (2 ^ 32 - 1)) := by
  have sectors : (Ide image).blockSize = 512 := rfl
  constructor
  · rw [length_tabulate]
    rfl
  · intro sector _
    rfl
  · intro sector _
    rw [Ide_bytes, sectors, length_tabulate, slice_tabulate, slice_tabulate, Nat.min_comm]
    simp only [Nat.zero_add, Nat.sub_zero]

/-- Why a function of the file system does not come back. -/
inductive Fault where
  | panicked
  | divided
  deriving DecidableEq

structure Reading (Result : Type) where
  addresses : List Nat
  result : Except Fault Result

namespace Reading

variable {First Second : Type}

def bind (first : Reading First) (next : First → Reading Second) : Reading Second :=
  match first.result with
  | .ok value =>
      { addresses := first.addresses ++ (next value).addresses, result := (next value).result }
  | .error fault => { addresses := first.addresses, result := .error fault }

instance : Monad Reading where
  pure value := { addresses := [], result := .ok value }
  bind := bind

/-- `ASSERT`. -/
def assert (holds : Prop) [Decidable holds] : Reading Unit :=
  { addresses := [], result := if holds then .ok () else .error .panicked }

def panic : Reading First := { addresses := [], result := .error .panicked }

/-- `dividend / divisor`, which the processor refuses to divide by 0. -/
def divide (dividend divisor : Nat) : Reading Nat :=
  { addresses := [], result := if divisor = 0 then .error .divided else .ok (dividend / divisor) }

/-- The template `read` of the disk for a thing of `size` bytes. -/
def fetch (ide : BlockIO) (address size : Nat) : Reading (List UInt8) :=
  { addresses := [address]
    result :=
      match ide.readThing (address % 2 ^ 32) size with
      | some bytes => .ok bytes
      | none => .error .panicked }

/-! ### Steps that succeed -/

variable {first : Reading First} {next : First → Reading Second} {value : First}

theorem bind_result (ran : first.result = .ok value) :
    (first >>= next).result = (next value).result := by
  change (Reading.bind first next).result = _
  unfold Reading.bind
  rw [ran]

theorem bind_error {fault : Fault} (failed : first.result = .error fault) :
    (first >>= next).result = .error fault := by
  change (Reading.bind first next).result = _
  unfold Reading.bind
  rw [failed]

@[simp] theorem pure_result (value : First) : (pure value : Reading First).result = .ok value := rfl

theorem assert_result {holds : Prop} [Decidable holds] (true' : holds) :
    (assert holds).result = .ok () := if_pos true'

theorem divide_result {dividend divisor : Nat} (nonzero : divisor ≠ 0) :
    (divide dividend divisor).result = .ok (dividend / divisor) := if_neg nonzero

end Reading

/-- A little-endian field of a structure. -/
def fieldOf (bytes : List UInt8) (offset size : Nat) : Nat := decode (slice bytes offset size)

/-- The fields of `SuperBlock` that mounting reads. -/
structure SuperBlock where
  inodesCount : Nat
  blocksCount : Nat
  logBlockSize : Nat
  blocksPerGroup : Nat
  inodesPerGroup : Nat
  inodeSize : Nat

def SuperBlock.size : Nat := 140

def SuperBlock.ofBytes (bytes : List UInt8) : SuperBlock :=
  { inodesCount := fieldOf bytes 0 4
    blocksCount := fieldOf bytes 4 4
    logBlockSize := fieldOf bytes 24 4
    blocksPerGroup := fieldOf bytes 32 4
    inodesPerGroup := fieldOf bytes 40 4
    inodeSize := fieldOf bytes 88 2 }

def BlockGroup.size : Nat := 32

/-- The fields of an inode that are used.  `pointers` are the bytes of `direct0` to
`indirect_3`; a short symbolic link keeps its target there. -/
structure NodeData where
  mode : Nat
  sizeLow : Nat
  nSectors : Nat
  pointers : List UInt8
  deriving DecidableEq

namespace NodeData

def size : Nat := 128

def ofBytes (bytes : List UInt8) : NodeData :=
  { mode := fieldOf bytes 0 2
    sizeLow := fieldOf bytes 4 4
    nSectors := fieldOf bytes 28 4
    pointers := slice bytes 40 60 }

/-- The words from `direct0` on. -/
def pointer (data : NodeData) (index : Nat) : Nat := fieldOf data.pointers (4 * index) 4

def indirect1 (data : NodeData) : Nat := data.pointer 12

def indirect2 (data : NodeData) : Nat := data.pointer 13

def indirect3 (data : NodeData) : Nat := data.pointer 14

def getType (data : NodeData) : Nat := data.mode >>> 12

def isDir (data : NodeData) : Bool := data.getType = 4

def isFile (data : NodeData) : Bool := data.getType = 8

def isSymlink (data : NodeData) : Bool := data.getType = 0xA

end NodeData

/-- One block pointer at a byte address of the disk. -/
def pointerAt (ide : BlockIO) (address : Nat) : Reading Nat := do
  let bytes ← Reading.fetch ide address 4
  return decode bytes

/-- The first half of `Node::read_block`: the disk block of a block of the file. -/
def blockIndex (ide : BlockIO) (blockSize : Nat) (data : NodeData) (index : Nat) :
    Reading Nat := do
  let blocks ← Reading.divide data.nSectors (blockSize / 512)
  Reading.assert (index < blocks)
  let refsPerBlock := blockSize / 4
  if index < 12 then
    return data.pointer index
  else if index < (12 + refsPerBlock) % 2 ^ 32 then
    let index := index - 12
    pointerAt ide (data.indirect1 * blockSize + index * 4)
  else if index < (12 + refsPerBlock + refsPerBlock * refsPerBlock) % 2 ^ 32 then
    let index := index - 12 - refsPerBlock
    let singlyBlock ← pointerAt ide (data.indirect2 * blockSize + index / refsPerBlock * 4)
    pointerAt ide (singlyBlock * blockSize + index % refsPerBlock * 4)
  else if index < (12 + refsPerBlock + refsPerBlock * refsPerBlock) % 2 ^ 32 then
    -- the guard is the one above, so that no index comes here
    let index := index - 12 - refsPerBlock - refsPerBlock * refsPerBlock
    let doublyBlock ← pointerAt ide
      (data.indirect3 * blockSize + index / (refsPerBlock * refsPerBlock) * 4)
    let singlyBlock ← pointerAt ide
      (doublyBlock * blockSize + index / refsPerBlock % refsPerBlock * 4)
    pointerAt ide (singlyBlock * blockSize + index % refsPerBlock)
  else
    Reading.panic

/-- The second half: the transfer of that block, whose count is asserted. -/
def readDataBlock (ide : BlockIO) (blockSize : Nat) (data : NodeData) (index : Nat) :
    Reading Transfer := do
  let block ← blockIndex ide blockSize data index
  { addresses := [block * blockSize]
    result := .ok (ide.readAll (block * blockSize % 2 ^ 32) blockSize) }

/-- `Node::read_block` as the device of the node sees it. -/
def nodeFill (ide : BlockIO) (blockSize : Nat) (data : NodeData) (index : Nat) : Fill :=
  match (readDataBlock ide blockSize data index).result with
  | .ok transfer =>
      { bytes := transfer.bytes, returned := transfer.outcome = .returned blockSize }
  | .error _ => { bytes := [], returned := false }

theorem nodeFill_length (ide : BlockIO) (blockSize : Nat) (data : NodeData) (index : Nat) :
    (nodeFill ide blockSize data index).bytes.length ≤ blockSize := by
  unfold nodeFill readDataBlock
  cases found : (blockIndex ide blockSize data index).result with
  | error fault =>
      rw [Reading.bind_error found]
      exact Nat.zero_le _
  | ok block =>
      rw [Reading.bind_result found]
      exact Nat.le_trans ide.readAll_length (Nat.min_le_left _ _)

theorem nodeFill_whole (ide : BlockIO) (blockSize : Nat) (data : NodeData) (index : Nat)
    (returned : (nodeFill ide blockSize data index).returned = true) :
    (nodeFill ide blockSize data index).bytes.length = blockSize := by
  unfold nodeFill readDataBlock at returned ⊢
  cases found : (blockIndex ide blockSize data index).result with
  | error fault =>
      rw [Reading.bind_error found] at returned
      cases returned
  | ok block =>
      rw [Reading.bind_result found] at returned ⊢
      have counted := ide.readAllLoop_returned _ _ _ (Int.le_refl 0) (of_decide_eq_true returned)
        (by omega)
      change (ide.readAll _ _).bytes.length = blockSize
      unfold BlockIO.readAll
      omega

/-- An inode together with the device that its bytes are read from. -/
structure Node where
  io : BlockIO
  data : NodeData
  sized : io.sizeInBytes = data.sizeLow

/-- A node of a file system with blocks of less than 2 GB. -/
def Node.make (ide : BlockIO) (blockSize : Nat) (data : NodeData) (positive : 0 < blockSize)
    (short : blockSize < 2 ^ 31) (sizeWord : data.sizeLow < 2 ^ 32) : Node where
  io :=
    { blockSize := blockSize
      sizeInBytes := data.sizeLow
      readBlock := nodeFill ide blockSize data
      positive := positive
      short := short
      sizeWord := sizeWord
      fills := nodeFill_length ide blockSize data
      fillsWhole := nodeFill_whole ide blockSize data }
  data := data
  sized := rfl

/-- A mounted file system. -/
structure Ext2 where
  ide : BlockIO
  blockSize : Nat
  numberOfNodes : Nat
  numberOfBlocks : Nat
  iNodeSize : Nat
  nGroups : Nat
  iNodeTables : List Nat
  iNodesPerGroup : Nat

namespace Ext2

/-- The groups that it takes for all blocks, counted in 32 bits. -/
def groupsFor (blocksCount blocksPerGroup : Nat) : Reading Nat :=
  Reading.divide ((blocksCount + blocksPerGroup + (2 ^ 32 - 1)) % 2 ^ 32) blocksPerGroup

def getNode (fs : Ext2) (number : Nat) : Reading NodeData := do
  Reading.assert (number > 0)
  Reading.assert (number ≤ fs.numberOfNodes)
  let index := number - 1
  let groupIndex ← Reading.divide index fs.iNodesPerGroup
  Reading.assert (groupIndex < fs.nGroups)
  let indexInGroup := index % fs.iNodesPerGroup
  let iTableBase := fs.iNodeTables.getD groupIndex 0
  Reading.assert (iTableBase ≤ fs.numberOfBlocks)
  let bytes ← Reading.fetch fs.ide (iTableBase * fs.blockSize + indexInGroup * fs.iNodeSize)
    NodeData.size
  return .ofBytes bytes

/-- The constructor, up to the root directory.  A group table of 2^32 bytes or more
is one that `new` has no room for. -/
def tables (ide : BlockIO) : Reading Ext2 := do
  let bytes ← Reading.fetch ide 1024 SuperBlock.size
  let sb := SuperBlock.ofBytes bytes
  let blockSize := 2 ^ ((sb.logBlockSize + 10) % 32)
  let nGroups ← groupsFor sb.blocksCount sb.blocksPerGroup
  Reading.assert (nGroups * sb.blocksPerGroup % 2 ^ 32 ≥ sb.blocksCount)
  let groupTableNumber := 1024 / blockSize + 1
  let groupTableSize := BlockGroup.size * nGroups
  Reading.assert (groupTableSize < 2 ^ 32)
  let table := ide.readAll (groupTableNumber * blockSize % 2 ^ 32) groupTableSize
  Reading.assert (table.outcome = .returned groupTableSize)
  return {
    ide := ide
    blockSize := blockSize
    numberOfNodes := sb.inodesCount
    numberOfBlocks := sb.blocksCount
    iNodeSize := sb.inodeSize
    nGroups := nGroups
    iNodeTables := tabulate (fun group => fieldOf table.bytes (BlockGroup.size * group + 8) 4) nGroups
    iNodesPerGroup := sb.inodesPerGroup }

/-- The constructor: mounting reads the root directory, too. -/
def mount (ide : BlockIO) : Reading Ext2 := do
  let fs ← tables ide
  let _root ← fs.getNode 2
  return fs

end Ext2

end AC97Kernel
