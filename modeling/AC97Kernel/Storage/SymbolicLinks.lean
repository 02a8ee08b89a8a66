/-
The targets of symbolic links, from the inode to the caller's buffer.

A target of less than 60 bytes lies in the block pointers of the inode, a longer
one in the block that the first pointer names.  `get_symbol` decides for itself
which of the two it reads.
-/

import AC97Kernel.Library.ByteRuns
import AC97Kernel.Storage.Directories
import AC97Kernel.Storage.Files

set_option autoImplicit false

namespace AC97Kernel

open Slices LittleEndian ByteRuns

/-- `get_symbol` with its buffer: what has been copied, and the NUL behind it. -/
def Node.putSymbol (node : Node) (buffer : Nat) (memory : Nat → UInt8) :
    Except Stop (Nat → UInt8) := do
  let symbol ← node.getSymbol
  return put (put memory buffer symbol) (buffer + node.io.sizeInBytes) [0]

/-- The inode of a link to `target` on a disk, by the convention of the format. -/
structure StoresTarget (image : Nat → UInt8) (blockSize : Nat) (data : NodeData)
    (target : List UInt8) : Prop where
  type : data.getType = 0xA
  size : data.sizeLow = target.length
  words : data.pointers.length = 60
  inline : target.length < 60 → data.pointers.take target.length = target
  sectors : 60 ≤ target.length → blockSize / 512 ≤ data.nSectors
  onDisk : 60 ≤ target.length → (data.pointer 0 + 1) * blockSize ≤ 2 ^ 32 - 1
  block : 60 ≤ target.length →
    tabulate (fun index => image (data.pointer 0 * blockSize + index)) target.length = target

section Links

variable {image : Nat → UInt8} {blockSize : Nat} {data : NodeData} {target : List UInt8}

/-- A target of one block is a file that can be read. -/
theorem StoresTarget.readable (stores : StoresTarget image blockSize data target)
    (long : 60 ≤ target.length) (fits : target.length ≤ blockSize) :
    Readable image (2 ^ 32 - 1) blockSize data := by
  have size := stores.size
  have first : ∀ index, index * blockSize < data.sizeLow → index = 0 := by
    intro index inside
    by_contra later
    have one : 1 * blockSize ≤ index * blockSize := Nat.mul_le_mul_right _ (by omega)
    omega
  constructor
  · have some : 1 * blockSize ≤
        (12 + blockSize / 4 + blockSize / 4 * (blockSize / 4)) * blockSize :=
      Nat.mul_le_mul_right _ (by omega)
    omega
  · have blocks : (data.sizeLow + blockSize - 1) / blockSize ≤ 1 := by
      rw [← Nat.lt_succ_iff, Nat.div_lt_iff_lt_mul (by omega)]
      omega
    have sectors := stores.sectors long
    have unit := Nat.mul_le_mul_right (blockSize / 512) blocks
    omega
  · intro index inside
    rw [first index inside]
    exact stores.onDisk long
  · intro index inside behind
    rw [first index inside] at behind
    exact absurd behind (by decide)
  · intro index inside behind
    rw [first index inside] at behind
    omega

/-- The bytes of the file are those of the target. -/
theorem StoresTarget.contents (stores : StoresTarget image blockSize data target)
    (long : 60 ≤ target.length) (fits : target.length ≤ blockSize) :
    tabulate (fileByte image blockSize data) data.sizeLow = target := by
  rw [stores.size]
  refine Eq.trans (tabulate_congr ?_) (stores.block long)
  intro index before
  have inBlock : index < blockSize := Nat.lt_of_lt_of_le before fits
  unfold fileByte diskBlock
  rw [Nat.div_eq_of_lt inBlock, Nat.mod_eq_of_lt inBlock]
  rfl

/-- The node is a link of the tree, whose pointers are kept apart from the target. -/
theorem StoresTarget.stores (stores : StoresTarget image blockSize data target)
    (large : 512 ≤ blockSize) (short : blockSize < 2 ^ 31) (sizeWord : data.sizeLow < 2 ^ 32)
    (fits : target.length ≤ blockSize) :
    (Node.make (Ide image) blockSize data (Nat.lt_of_lt_of_le (by decide) large) short
      sizeWord).Stores (.symlink target data.pointers) := by
  refine ⟨stores.type, rfl, stores.size, fun long => ?_⟩
  have serves := Node.make_serves (Ide_serves image) (stores.readable long fits) large short sizeWord
  rw [stores.contents long fits] at serves
  exact serves

/-- What `get_symbol` leaves: the pointers up to 60 bytes, then the block. -/
theorem StoresTarget.putSymbol_eq (stores : StoresTarget image blockSize data target)
    (large : 512 ≤ blockSize) (short : blockSize < 2 ^ 31) (sizeWord : data.sizeLow < 2 ^ 32)
    (fits : target.length ≤ blockSize) (buffer : Nat) (memory : Nat → UInt8) :
    (Node.make (Ide image) blockSize data (Nat.lt_of_lt_of_le (by decide) large) short
      sizeWord).putSymbol buffer memory =
      .ok (put memory buffer ((if target.length = 60 then data.pointers else target) ++ [0])) := by
  have read := FileSystem.getSymbol_stored (stores.stores large short sizeWord fits)
  have words := stores.words
  have chosen : (if target.length ≤ 60 then data.pointers.take target.length else target) =
      if target.length = 60 then data.pointers else target := by
    rcases Nat.lt_trichotomy target.length 60 with less | same | more
    · rw [if_pos (by omega), if_neg (by omega), stores.inline less]
    · rw [if_pos (by omega), if_pos same, same, List.take_of_length_le (by omega)]
    · rw [if_neg (by omega), if_neg (by omega)]
  have length : (if target.length = 60 then data.pointers else target).length = data.sizeLow := by
    rw [stores.size]
    split <;> omega
  unfold Node.putSymbol
  rw [read, chosen]
  change Except.ok (put _ (buffer + data.sizeLow) [0]) = _
  rw [← length, put_append]

end Links

/-- `get_symbol` writes a target and its NUL, unless the target has exactly 60
bytes: these are stored in a block, and what is read are the pointers. -/
theorem symbol_decodes {image : Nat → UInt8} {blockSize : Nat} {data : NodeData}
    {target : List UInt8} (large : 512 ≤ blockSize) (short : blockSize < 2 ^ 31)
    (sizeWord : data.sizeLow < 2 ^ 32) (stores : StoresTarget image blockSize data target)
    (fits : target.length ≤ blockSize) (buffer : Nat) (memory : Nat → UInt8) :
    (Node.make (Ide image) blockSize data (Nat.lt_of_lt_of_le (by decide) large) short
      sizeWord).putSymbol buffer memory = .ok (put memory buffer (target ++ [0])) ↔
      (target.length ≠ 60 ∨ data.pointers = target) := by
  have words := stores.words
  rw [stores.putSymbol_eq large short sizeWord fits]
  constructor
  · intro same
    by_cases sixty : target.length = 60
    · rw [if_pos sixty] at same
      have bytes := put_injective (by simp only [List.length_append]; omega) (Except.ok.inj same)
      exact .inr (List.append_cancel_right bytes)
    · exact .inl sixty
  · intro holds
    split
    · rename_i sixty
      rw [holds.resolve_left (fun other => other sixty)]
    · rfl

/-! ### Links to targets of the letter a -/

namespace LinkOf

def target (length : Nat) : List UInt8 := List.replicate length 0x61

/-- Block 5 is full of the letter. -/
def image (_ : Nat) : UInt8 := 0x61

/-- The inode of a target that is too long for the pointers. -/
def data (length : Nat) : NodeData :=
  { mode := 0xA000, sizeLow := length, nSectors := 2
    pointers := encode 4 5 ++ List.replicate 56 0 }

theorem stores {length : Nat} (long : 60 ≤ length) :
    StoresTarget image 1024 (data length) (target length) where
  type := by
    change 0xA000 >>> 12 = 0xA
    decide
  size := List.length_replicate.symm
  words := rfl
  inline short := by
    rw [target, List.length_replicate] at short
    omega
  sectors _ := Nat.le_refl 2
  onDisk _ := by
    change (fieldOf (encode 4 5 ++ List.replicate 56 0) 0 4 + 1) * 1024 ≤ 2 ^ 32 - 1
    decide
  block _ := by
    rw [target, List.length_replicate]
    exact tabulate_eq_replicate.2 fun _ _ => rfl

end LinkOf

theorem symbol_decodes_sample :
    (Node.make (Ide LinkOf.image) 1024 (LinkOf.data 61) (by decide) (by decide)
      (by decide)).putSymbol 0 (fun _ => 0) =
      .ok (put (fun _ => 0) 0 (LinkOf.target 61 ++ [0])) :=
  (symbol_decodes (by decide) (by decide) (by decide) (LinkOf.stores (by decide)) (by decide)
    0 (fun _ => 0)).2 (.inl (by decide))

/-- A target of 60 bytes comes out as the number of its block. -/
theorem symbol_of_sixty :
    StoresTarget LinkOf.image 1024 (LinkOf.data 60) (LinkOf.target 60) ∧
      (Node.make (Ide LinkOf.image) 1024 (LinkOf.data 60) (by decide) (by decide)
        (by decide)).putSymbol 0 (fun _ => 0) ≠
        .ok (put (fun _ => 0) 0 (LinkOf.target 60 ++ [0])) := by
  have stores := LinkOf.stores (Nat.le_refl 60)
  refine ⟨stores, ?_⟩
  rw [stores.putSymbol_eq (by decide) (by decide) (by decide) (by decide)]
  intro same
  have bytes := put_injective (by rfl) (Except.ok.inj same)
  exact absurd bytes (by decide)

end AC97Kernel
