/-
The block numbers that reads pass on, and the number of blocks there are.

A device is here its block size and its size alone, which may be any words: the
numbers that `read` and `read_all` pass to `read_block` depend on nothing else,
and on whether `read_block` comes back.
-/

import AC97Kernel.Storage.Ext2
import AC97Kernel.Storage.ReadAll

set_option autoImplicit false

namespace AC97Kernel

/-- `size_in_blocks()`. -/
def sizeInBlocks (blockSize size : Nat) : Nat := (size + blockSize - 1) % 2 ^ 32 / blockSize

/-- The number that `read` passes to `read_block`, with the count that it then
returns; nothing when it returns before or an assertion fails. -/
def readCall (blockSize size offset desired : Nat) : Option (Nat × Nat) :=
  if offset > size then none
  else if offset = size then none
  else
    let n := min desired (size - offset)
    let blockNumber := offset / blockSize
    let offsetInBlock := offset % blockSize
    let actual := min (blockSize - offsetInBlock) n
    if ¬ (actual ≤ n ∧ (offset + actual) % 2 ^ 32 ≤ size) then none
    else if actual = blockSize then
      if offsetInBlock ≠ 0 then none else some (blockNumber, actual)
    else if ¬ (offsetInBlock + actual) % 2 ^ 32 ≤ blockSize then none
    else some (blockNumber, actual)

/-- The numbers that the loop of `read_all` passes on in at most `turns` turns. -/
def readAllCalls (blockSize size : Nat) (returns : Nat → Bool) : Nat → Nat → Nat → List Nat
  | 0, _, _ => []
  | turns + 1, offset, n =>
      if n = 0 then []
      else
        match readCall blockSize size offset n with
        | none => []
        | some (number, count) =>
            if returns number ∧ count ≠ 0 then
              number ::
                readAllCalls blockSize size returns turns ((offset + count) % 2 ^ 32) (n - count)
            else [number]

section Calls

variable {blockSize size offset n : Nat}

theorem readCall_end (atEnd : size ≤ offset) : readCall blockSize size offset n = none := by
  unfold readCall
  split
  · rfl
  · rw [if_pos (by omega)]

/-- No assertion fails and no sum wraps, whatever the block size. -/
theorem readCall_inside (positive : 0 < blockSize) (word : blockSize < 2 ^ 32)
    (sizeWord : size < 2 ^ 32) (inside : offset < size) :
    readCall blockSize size offset n =
      some (offset / blockSize, min (blockSize - offset % blockSize) (min n (size - offset))) := by
  have within := Nat.mod_lt offset positive
  generalize part : min (blockSize - offset % blockSize) (min n (size - offset)) = actual
  have exact : (offset + actual) % 2 ^ 32 = offset + actual := Nat.mod_eq_of_lt (by omega)
  have inBlock : (offset % blockSize + actual) % 2 ^ 32 = offset % blockSize + actual :=
    Nat.mod_eq_of_lt (by omega)
  unfold readCall
  simp only [part, exact, inBlock]
  rw [if_neg (by omega), if_neg (by omega), if_neg (by omega)]
  by_cases whole : actual = blockSize
  · rw [if_pos whole, if_neg (by omega)]
  · rw [if_neg whole, if_neg (by omega)]

/-- A sum that does not wrap counts every block that has a byte. -/
theorem number_below (positive : 0 < blockSize) (whole : size + blockSize ≤ 2 ^ 32)
    (inside : offset < size) : offset / blockSize < sizeInBlocks blockSize size := by
  unfold sizeInBlocks
  rw [Nat.mod_eq_of_lt (by omega), Nat.lt_iff_add_one_le, Nat.le_div_iff_mul_le positive,
    Nat.add_mul]
  have start := Nat.div_mul_le_self offset blockSize
  omega

/-- A sum that wraps leaves less than a block, so that there is none. -/
theorem sizeInBlocks_wrapped (positive : 0 < blockSize) (word : blockSize < 2 ^ 32)
    (sizeWord : size < 2 ^ 32) (wraps : ¬ size + blockSize ≤ 2 ^ 32) :
    sizeInBlocks blockSize size = 0 := by
  unfold sizeInBlocks
  have rest : (size + blockSize - 1) % 2 ^ 32 = size + blockSize - 1 - 2 ^ 32 := by
    rw [Nat.mod_eq_sub_mod (by omega), Nat.mod_eq_of_lt (by omega)]
  rw [rest]
  exact Nat.div_eq_of_lt (by omega)

/-- The numbers of a loop all come from offsets inside the device. -/
theorem readAllCalls_inside (positive : 0 < blockSize) (word : blockSize < 2 ^ 32)
    (sizeWord : size < 2 ^ 32) (returns : Nat → Bool) (turns : Nat) {number : Nat}
    (passed : number ∈ readAllCalls blockSize size returns turns offset n) :
    ∃ place < size, number = place / blockSize := by
  induction turns generalizing offset n with
  | zero => cases passed
  | succ turns ih =>
      rw [readAllCalls] at passed
      split at passed
      · cases passed
      · by_cases inside : offset < size
        · rw [readCall_inside positive word sizeWord inside] at passed
          simp only at passed
          split at passed
          · rcases List.mem_cons.mp passed with first | later
            · exact ⟨offset, inside, first⟩
            · exact ih later
          · exact ⟨offset, inside, List.mem_singleton.mp passed⟩
        · rw [readCall_end (by omega)] at passed
          cases passed

/-- Where nothing is wanted or nothing is left, the loop passes no number on. -/
theorem readAllCalls_idle {returns : Nat → Bool} {turns : Nat} (idle : n = 0 ∨ size ≤ offset) :
    readAllCalls blockSize size returns turns offset n = [] := by
  cases turns with
  | zero => rfl
  | succ turns =>
      rw [readAllCalls]
      rcases idle with nothing | atEnd
      · rw [if_pos nothing]
      · rw [readCall_end atEnd]
        split <;> rfl

/-- Where something is wanted, the call of the first turn is one of the loop. -/
theorem readAllCalls_first {returns : Nat → Bool} {turns : Nat} {call : Nat × Nat}
    (passed : readCall blockSize size offset n = some call) (some : 0 < turns) (wanted : n ≠ 0) :
    call.1 ∈ readAllCalls blockSize size returns turns offset n := by
  cases turns with
  | zero => cases some
  | succ turns =>
      rw [readAllCalls, if_neg wanted, passed]
      simp only
      split
      · exact List.mem_cons_self
      · exact List.mem_singleton_self _

/-- So are those of the turns behind one that has delivered something. -/
theorem readAllCalls_rest {returns : Nat → Bool} {turns number count : Nat}
    (passed : readCall blockSize size offset n = some (number, count)) (wanted : n ≠ 0)
    (came : returns number = true) (delivered : count ≠ 0) :
    readAllCalls blockSize size returns (turns + 1) offset n =
      number :: readAllCalls blockSize size returns turns ((offset + count) % 2 ^ 32)
        (n - count) := by
  rw [readAllCalls, if_neg wanted, passed]
  simp only
  rw [if_pos ⟨came, delivered⟩]

end Calls

/-! ### Reads of a device depend on these blocks alone -/

namespace BlockIO

variable {device other : BlockIO} {offset n : Nat}

theorem read_agrees (sameBlock : device.blockSize = other.blockSize)
    (sameSize : device.sizeInBytes = other.sizeInBytes)
    (agree : ∀ call ∈ readCall device.blockSize device.sizeInBytes offset n,
      device.readBlock call.1 = other.readBlock call.1) :
    device.read offset n = other.read offset n := by
  have word := device.short
  rcases Nat.lt_trichotomy offset device.sizeInBytes with inside | atEnd | past
  · have block := agree _ (readCall_inside device.positive (by omega) device.sizeWord inside)
    simp only at block
    rw [device.read_inside inside, other.read_inside (sameSize ▸ inside), block]
    unfold share
    rw [sameBlock, sameSize]
  · rw [atEnd, device.read_end, sameSize, other.read_end]
  · rw [device.read_past past, other.read_past (sameSize ▸ past)]

/-- A read that delivers something has had its block. -/
theorem readBlock_returned {count : Int} (inside : offset < device.sizeInBytes)
    (returned : (device.read offset n).outcome = .returned count) :
    (device.readBlock (offset / device.blockSize)).returned = true := by
  by_contra failed
  rw [device.read_inside inside] at returned
  by_cases block : device.share offset n = device.blockSize
  · simp [block, failed] at returned
  · simp [block, failed, Transfer.panic] at returned

theorem readAllLoop_agrees (sameBlock : device.blockSize = other.blockSize)
    (sameSize : device.sizeInBytes = other.sizeInBytes) (turns : Nat) (total : Int)
    (agree : ∀ number ∈ readAllCalls device.blockSize device.sizeInBytes
      (fun number => (device.readBlock number).returned) turns offset n,
      device.readBlock number = other.readBlock number) :
    device.readAllLoop turns offset n total = other.readAllLoop turns offset n total := by
  have word := device.short
  induction turns generalizing offset n total with
  | zero => rfl
  | succ turns ih =>
      rw [readAllLoop, readAllLoop]
      by_cases nothing : n = 0
      · rw [if_pos nothing, if_pos nothing]
      · rw [if_neg nothing, if_neg nothing]
        have same : device.read offset n = other.read offset n :=
          read_agrees sameBlock sameSize fun call passed =>
            agree _ (readAllCalls_first passed (Nat.succ_pos turns) nothing)
        rw [← same]
        cases returned : (device.read offset n).outcome with
        | panicked => simp only [returned]
        | unfinished => simp only [returned]
        | returned count =>
            simp only [returned]
            by_cases negative : count < 0
            · rw [if_pos negative, if_pos negative]
            · rw [if_neg negative, if_neg negative]
              by_cases zero : count = 0
              · rw [if_pos zero, if_pos zero]
              · rw [if_neg zero, if_neg zero]
                obtain ⟨inside, countIs⟩ := read_goes_on returned (by omega)
                have call := readCall_inside (n := n) device.positive (by omega)
                  device.sizeWord inside
                have part : min (device.blockSize - offset % device.blockSize)
                    (min n (device.sizeInBytes - offset)) = device.share offset n := rfl
                rw [part] at call
                rw [readAllCalls_rest call nothing (readBlock_returned inside returned)
                  (by omega)] at agree
                rw [countIs, Int.toNat_natCast,
                  ih _ fun number member => agree number (List.mem_cons_of_mem _ member)]

/-- What `read_all` does is determined by the blocks whose numbers it passes on. -/
theorem readAll_agrees (sameBlock : device.blockSize = other.blockSize)
    (sameSize : device.sizeInBytes = other.sizeInBytes)
    (agree : ∀ number ∈ readAllCalls device.blockSize device.sizeInBytes
      (fun number => (device.readBlock number).returned) (n + 1) offset n,
      device.readBlock number = other.readBlock number) :
    device.readAll offset n = other.readAll offset n :=
  readAllLoop_agrees sameBlock sameSize (n + 1) 0 agree

end BlockIO

/-- Both reads stay below the number of blocks exactly where no block is passed on
or the sum that rounds the number up does not wrap. -/
theorem block_numbers_stay_below {blockSize size offset : Nat} (positive : 0 < blockSize)
    (word : blockSize < 2 ^ 32) (sizeWord : size < 2 ^ 32) (inside : offset ≤ size)
    (returns : Nat → Bool) (n turns : Nat) (enough : n < turns) :
    ((∀ call ∈ readCall blockSize size offset n, call.1 < sizeInBlocks blockSize size) ↔
      offset = size ∨ size + blockSize - 1 < 2 ^ 32) ∧
    ((∀ number ∈ readAllCalls blockSize size returns turns offset n,
        number < sizeInBlocks blockSize size) ↔
      n = 0 ∨ offset = size ∨ size + blockSize - 1 < 2 ^ 32) := by
  by_cases whole : size + blockSize ≤ 2 ^ 32
  · have below : size + blockSize - 1 < 2 ^ 32 := by omega
    constructor
    · refine iff_of_true ?_ (.inr below)
      intro call passed
      by_cases before : offset < size
      · rw [readCall_inside positive word sizeWord before] at passed
        cases passed
        exact number_below positive whole before
      · rw [readCall_end (by omega)] at passed
        cases passed
    · refine iff_of_true ?_ (.inr (.inr below))
      intro number passed
      obtain ⟨place, before, rfl⟩ :=
        readAllCalls_inside positive word sizeWord returns turns passed
      exact number_below positive whole before
  · have none := sizeInBlocks_wrapped positive word sizeWord whole
    have wraps : ¬ size + blockSize - 1 < 2 ^ 32 := by omega
    have reads (before : offset < size) := readCall_inside (n := n) positive word sizeWord before
    simp only [none, wraps, or_false]
    constructor
    · constructor
      · intro bounded
        by_contra other
        exact Nat.not_lt_zero _ (bounded _ (reads (by omega)))
      · intro atEnd call passed
        rw [readCall_end (Nat.le_of_eq atEnd.symm)] at passed
        cases passed
    · constructor
      · intro bounded
        by_contra other
        have call := reads (by omega)
        exact Nat.not_lt_zero _ (bounded _ (readAllCalls_first call (by omega) (by omega)))
      · intro idle number passed
        rw [readAllCalls_idle (by omega)] at passed
        cases passed

theorem block_numbers_stay_below_sample :
    (∀ call ∈ readCall 512 1024 500 600, call.1 < sizeInBlocks 512 1024) ∧
      ∀ number ∈ readAllCalls 512 1024 (fun _ => true) 601 500 600,
        number < sizeInBlocks 512 1024 := by
  have both := block_numbers_stay_below (by decide : 0 < 512) (by decide : 512 < 2 ^ 32)
    (by decide : 1024 < 2 ^ 32) (by decide : 500 ≤ 1024) (fun _ => true) 600 601 (by decide)
  exact ⟨both.1.2 (.inr (by decide)), both.2.2 (.inr (.inr (by decide)))⟩

/-- The disk has no block by its own count: 2^32 - 1 bytes and 511 more wrap. -/
theorem block_of_disk :
    let disk := Ide fun _ => 0
    readAllCalls disk.blockSize disk.sizeInBytes (fun _ => true) 2 0 1 = [0] ∧
      sizeInBlocks disk.blockSize disk.sizeInBytes = 0 := by
  decide

end AC97Kernel
