/-
Byte-wise reads of a block device, as kernel/block_io.cc computes them.

Offsets and counts are 32-bit words, the totals are 64-bit.  `read_block` is
virtual and belongs to the device; what it does may be short of a block when it
panics.  A device `Serves` some content when its blocks are the blocks of that
content.
-/

import AC97Kernel.Library.Slices
import Mathlib.Algebra.Group.Int.Defs

set_option autoImplicit false

namespace AC97Kernel

open Slices

/-- `unfinished` is a loop that has used up the turns it was given. -/
inductive Outcome where
  | returned (count : Int)
  | panicked
  | unfinished
  deriving DecidableEq

/-- The bytes that a read has stored, one after the other, from the start of its
buffer on. -/
structure Transfer where
  bytes : List UInt8
  outcome : Outcome
  deriving DecidableEq

namespace Transfer

def nothing (count : Int) : Transfer := { bytes := [], outcome := .returned count }

def panic : Transfer := { bytes := [], outcome := .panicked }

end Transfer

/-- What `read_block` stored in its buffer, and whether it came back. -/
structure Fill where
  bytes : List UInt8
  returned : Bool

/-- A device with blocks of less than 2 GB. -/
structure BlockIO where
  blockSize : Nat
  sizeInBytes : Nat
  readBlock : Nat → Fill
  positive : 0 < blockSize
  short : blockSize < 2 ^ 31
  sizeWord : sizeInBytes < 2 ^ 32
  fills : ∀ number, (readBlock number).bytes.length ≤ blockSize
  fillsWhole : ∀ number, (readBlock number).returned = true →
    (readBlock number).bytes.length = blockSize

namespace BlockIO

def read (device : BlockIO) (offset desired : Nat) : Transfer :=
  let size := device.sizeInBytes
  if offset > size then .nothing (-1)
  else if offset = size then .nothing 0
  else
    let n := min desired (size - offset)
    let blockNumber := offset / device.blockSize
    let offsetInBlock := offset % device.blockSize
    let actual := min (device.blockSize - offsetInBlock) n
    if ¬ (actual ≤ n ∧ (offset + actual) % 2 ^ 32 ≤ size) then .panic
    else if actual = device.blockSize then
      if offsetInBlock ≠ 0 then .panic
      else
        let fill := device.readBlock blockNumber
        { bytes := fill.bytes
          outcome := if fill.returned then .returned actual else .panicked }
    else if ¬ (offsetInBlock + actual) % 2 ^ 32 ≤ device.blockSize then .panic
    else
      let temp := device.readBlock blockNumber
      if temp.returned then
        { bytes := slice temp.bytes offsetInBlock actual
          outcome := .returned actual }
      else .panic

/-- The loop of `read_all`, for at most `turns` turns. -/
def readAllLoop (device : BlockIO) : Nat → Nat → Nat → Int → Transfer
  | 0, _, _, _ => { bytes := [], outcome := .unfinished }
  | turns + 1, offset, n, total =>
      if n = 0 then .nothing total
      else
        let first := device.read offset n
        match first.outcome with
        | .returned count =>
            if count < 0 then { bytes := first.bytes, outcome := .returned count }
            else if count = 0 then { bytes := first.bytes, outcome := .returned total }
            else
              let rest := device.readAllLoop turns ((offset + count.toNat) % 2 ^ 32)
                (n - count.toNat) (total + count)
              { bytes := first.bytes ++ rest.bytes, outcome := rest.outcome }
        | stopped => { bytes := first.bytes, outcome := stopped }

/-- Every turn of the loop but the last reads a byte or more. -/
def readAll (device : BlockIO) (offset n : Nat) : Transfer :=
  device.readAllLoop (n + 1) offset n 0

section Reads

variable (device : BlockIO) {offset desired n : Nat}

/-- How much of a block one call of `read` delivers. -/
def share (offset desired : Nat) : Nat :=
  min (device.blockSize - offset % device.blockSize)
    (min desired (device.sizeInBytes - offset))

theorem share_pos (inside : offset < device.sizeInBytes) (wanted : 0 < desired) :
    0 < device.share offset desired := by
  have within := Nat.mod_lt offset device.positive
  unfold share
  omega

theorem share_le (offset desired : Nat) :
    device.share offset desired ≤ min desired (device.sizeInBytes - offset) := by
  unfold share
  omega

theorem read_past (past : device.sizeInBytes < offset) :
    device.read offset desired = .nothing (-1) := by
  unfold read
  rw [if_pos past]

theorem read_end : device.read device.sizeInBytes desired = .nothing 0 := by
  unfold read
  rw [if_neg (Nat.lt_irrefl _), if_pos rfl]

/-- No assertion of `read` fails and its sums do not wrap. -/
theorem read_inside (inside : offset < device.sizeInBytes) :
    device.read offset desired =
      if device.share offset desired = device.blockSize then
        { bytes := (device.readBlock (offset / device.blockSize)).bytes
          outcome :=
            if (device.readBlock (offset / device.blockSize)).returned then
              .returned (device.share offset desired)
            else .panicked }
      else if (device.readBlock (offset / device.blockSize)).returned then
        { bytes := slice (device.readBlock (offset / device.blockSize)).bytes
            (offset % device.blockSize) (device.share offset desired)
          outcome := .returned (device.share offset desired) }
      else .panic := by
  have within := Nat.mod_lt offset device.positive
  have sizeWord := device.sizeWord
  have short := device.short
  have shareIs : min (device.blockSize - offset % device.blockSize)
      (min desired (device.sizeInBytes - offset)) = device.share offset desired := rfl
  have shareBelow := device.share_le offset desired
  have shareBlock : device.share offset desired ≤
      device.blockSize - offset % device.blockSize := Nat.min_le_left _ _
  have noWrap : (offset + device.share offset desired) % 2 ^ 32 =
      offset + device.share offset desired := Nat.mod_eq_of_lt (by omega)
  have blockNoWrap : (offset % device.blockSize + device.share offset desired) % 2 ^ 32 =
      offset % device.blockSize + device.share offset desired := Nat.mod_eq_of_lt (by omega)
  unfold read
  simp only [shareIs, noWrap, blockNoWrap]
  rw [if_neg (by omega), if_neg (by omega), if_neg (by omega)]
  by_cases whole : device.share offset desired = device.blockSize
  · rw [if_pos whole, if_pos whole, if_neg (by omega)]
  · rw [if_neg whole, if_neg whole, if_neg (by omega)]

/-- One call stores no more than was asked for and is there. -/
theorem read_length :
    (device.read offset desired).bytes.length ≤ min desired (device.sizeInBytes - offset) := by
  rcases Nat.lt_trichotomy offset device.sizeInBytes with inside | atEnd | past
  · have bound := device.share_le offset desired
    have fills := device.fills (offset / device.blockSize)
    rw [device.read_inside inside]
    split
    · rename_i whole
      exact Nat.le_trans fills (whole ▸ bound)
    · split
      · rw [length_slice]
        omega
      · exact Nat.zero_le _
  · rw [atEnd, read_end]
    exact Nat.zero_le _
  · rw [device.read_past past]
    exact Nat.zero_le _

/-- What `read` says when it comes back from inside the device. -/
theorem read_returned (inside : offset < device.sizeInBytes) {count : Int}
    (returned : (device.read offset desired).outcome = .returned count) :
    count = device.share offset desired ∧
      (device.read offset desired).bytes.length = device.share offset desired := by
  have whole := device.fillsWhole (offset / device.blockSize)
  have within := Nat.mod_lt offset device.positive
  rw [device.read_inside inside] at returned ⊢
  by_cases came : (device.readBlock (offset / device.blockSize)).returned = true
  · by_cases block : device.share offset desired = device.blockSize
    · rw [if_pos block] at returned ⊢
      simp only [came, if_true, Outcome.returned.injEq] at returned
      exact ⟨returned.symm, (whole came).trans block.symm⟩
    · rw [if_neg block, if_pos came] at returned ⊢
      simp only [Outcome.returned.injEq] at returned
      refine ⟨returned.symm, ?_⟩
      rw [length_slice, whole came]
      unfold share
      omega
  · by_cases block : device.share offset desired = device.blockSize
    · simp [block, came] at returned
    · simp [block, came, Transfer.panic] at returned

theorem read_finishes : (device.read offset desired).outcome ≠ .unfinished := by
  rcases Nat.lt_trichotomy offset device.sizeInBytes with inside | atEnd | past
  · rw [device.read_inside inside]
    split
    · split <;> simp
    · split <;> simp [Transfer.panic]
  · rw [atEnd, read_end]
    simp [Transfer.nothing]
  · rw [device.read_past past]
    simp [Transfer.nothing]

/-- One turn of the loop either ends it or is followed by the rest. -/
theorem readAllLoop_turn (turns offset : Nat) {n : Nat} (total : Int) (wanted : 0 < n) :
    (∃ outcome, outcome ≠ .unfinished ∧
      device.readAllLoop (turns + 1) offset n total =
        { bytes := (device.read offset n).bytes, outcome := outcome }) ∨
    (offset < device.sizeInBytes ∧
      (device.read offset n).bytes.length = device.share offset n ∧
      device.readAllLoop (turns + 1) offset n total =
        let rest := device.readAllLoop turns (offset + device.share offset n)
          (n - device.share offset n) (total + device.share offset n)
        { bytes := (device.read offset n).bytes ++ rest.bytes, outcome := rest.outcome }) := by
  have finishes : (device.read offset n).outcome ≠ .unfinished := device.read_finishes
  rw [readAllLoop, if_neg (by omega)]
  cases returned : (device.read offset n).outcome with
  | panicked => exact Or.inl ⟨.panicked, by simp, by simp only [returned]⟩
  | unfinished => exact absurd returned finishes
  | returned count =>
      rcases Nat.lt_trichotomy offset device.sizeInBytes with inside | atEnd | past
      · obtain ⟨countIs, length⟩ := device.read_returned inside returned
        have some := device.share_pos inside wanted
        have bound := device.share_le offset n
        have sizeWord := device.sizeWord
        have noWrap : (offset + device.share offset n) % 2 ^ 32 =
            offset + device.share offset n := Nat.mod_eq_of_lt (by omega)
        refine Or.inr ⟨inside, length, ?_⟩
        simp only [returned, countIs, Int.toNat_natCast, noWrap]
        rw [if_neg (by omega), if_neg (by omega)]
      · rw [atEnd, read_end] at returned
        cases returned
        exact Or.inl ⟨.returned total, by simp, by simp [atEnd, read_end, Transfer.nothing]⟩
      · rw [device.read_past past] at returned
        cases returned
        exact Or.inl ⟨.returned (-1), by simp, by simp [device.read_past past, Transfer.nothing]⟩

/-- All that the loop stores lies between the offset and the end of the device. -/
theorem readAllLoop_length (turns offset n : Nat) (total : Int) :
    (device.readAllLoop turns offset n total).bytes.length ≤
      min n (device.sizeInBytes - offset) := by
  induction turns generalizing offset n total with
  | zero => exact Nat.zero_le _
  | succ turns ih =>
      rcases Nat.eq_zero_or_pos n with nothing | wanted
      · rw [readAllLoop, if_pos nothing]
        exact Nat.zero_le _
      · rcases device.readAllLoop_turn turns offset total wanted with
          ⟨outcome, _, stops⟩ | ⟨inside, length, goesOn⟩
        · rw [stops]
          exact device.read_length
        · have bound := device.share_le offset n
          have rest := ih (offset + device.share offset n) (n - device.share offset n)
            (total + device.share offset n)
          rw [goesOn, List.length_append, length]
          omega

theorem readAll_length :
    (device.readAll offset n).bytes.length ≤ min n (device.sizeInBytes - offset) :=
  device.readAllLoop_length (n + 1) offset n 0

theorem readAllLoop_finishes (turns offset n : Nat) (total : Int) (enough : n < turns) :
    (device.readAllLoop turns offset n total).outcome ≠ .unfinished := by
  induction turns generalizing offset n total with
  | zero => omega
  | succ turns ih =>
      rcases Nat.eq_zero_or_pos n with nothing | wanted
      · rw [readAllLoop, if_pos nothing]
        simp [Transfer.nothing]
      · rcases device.readAllLoop_turn turns offset total wanted with
          ⟨outcome, finishes, stops⟩ | ⟨inside, length, goesOn⟩
        · rw [stops]
          exact finishes
        · have some := device.share_pos inside wanted
          rw [goesOn]
          exact ih _ _ _ (by omega)

/-- The loop of `read_all` ends. -/
theorem readAll_finishes : (device.readAll offset n).outcome ≠ .unfinished :=
  device.readAllLoop_finishes (n + 1) offset n 0 (Nat.lt_succ_self n)

/-- A count that is not an error is that of the bytes stored. -/
theorem readAllLoop_returned (turns offset n : Nat) {total count : Int} (started : 0 ≤ total)
    (returned : (device.readAllLoop turns offset n total).outcome = .returned count)
    (counted : 0 ≤ count) :
    count = total + (device.readAllLoop turns offset n total).bytes.length := by
  induction turns generalizing offset n total with
  | zero => cases returned
  | succ turns ih =>
      rw [readAllLoop] at returned ⊢
      by_cases nothing : n = 0
      · rw [if_pos nothing] at returned ⊢
        cases returned
        simp [Transfer.nothing]
      · rw [if_neg nothing] at returned ⊢
        rcases Nat.lt_trichotomy offset device.sizeInBytes with inside | atEnd | past
        · cases came : (device.read offset n).outcome with
          | panicked =>
              simp only [came] at returned
              cases returned
          | unfinished =>
              simp only [came] at returned
              cases returned
          | returned first =>
              obtain ⟨firstIs, length⟩ := device.read_returned inside came
              have some : 0 < device.share offset n := device.share_pos inside (by omega)
              simp only [came] at returned ⊢
              rw [if_neg (by omega), if_neg (by omega)] at returned ⊢
              have rest := ih _ _ (by omega) returned
              rw [List.length_append, length]
              omega
        · rw [atEnd, read_end] at returned ⊢
          cases returned
          simp [Transfer.nothing]
        · rw [device.read_past past] at returned
          cases returned
          exact absurd counted (by decide)

end Reads

/-- The blocks of the device are those of `content`; the rest of the last block
may be anything. -/
structure Serves (device : BlockIO) (content : List UInt8) : Prop where
  size : content.length = device.sizeInBytes
  returns : ∀ number, number * device.blockSize < content.length →
    (device.readBlock number).returned = true
  blocks : ∀ number, number * device.blockSize < content.length →
    slice (device.readBlock number).bytes 0 (content.length - number * device.blockSize) =
      slice content (number * device.blockSize) device.blockSize

section Contents

variable {device : BlockIO} {content : List UInt8} {offset n : Nat}

theorem Serves.read_inside (serves : device.Serves content) (inside : offset < content.length) :
    device.read offset n =
      { bytes := slice content offset (device.share offset n)
        outcome := .returned (device.share offset n) } := by
  have within := Nat.mod_lt offset device.positive
  have shareBlock : device.share offset n ≤ device.blockSize - offset % device.blockSize :=
    Nat.min_le_left _ _
  have shareRest := device.share_le offset n
  have size := serves.size
  have split : offset / device.blockSize * device.blockSize + offset % device.blockSize = offset := by
    rw [Nat.mul_comm]
    exact Nat.div_add_mod offset device.blockSize
  have starts : offset / device.blockSize * device.blockSize < content.length := by omega
  have came := serves.returns _ starts
  have length := device.fillsWhole _ came
  have block := serves.blocks _ starts
  -- the bytes of the block that `read` delivers are those of the content
  have delivered : slice (device.readBlock (offset / device.blockSize)).bytes
      (offset % device.blockSize) (device.share offset n) =
        slice content offset (device.share offset n) := by
    have inBlock := congrArg
      (fun bytes => slice bytes (offset % device.blockSize) (device.share offset n)) block
    rw [slice_slice _ (by omega), slice_slice _ (by omega), Nat.zero_add, split] at inBlock
    exact inBlock
  rw [device.read_inside (by omega)]
  by_cases whole : device.share offset n = device.blockSize
  · rw [if_pos whole, if_pos came]
    have start : offset % device.blockSize = 0 := by omega
    have all := slice_whole (device.readBlock (offset / device.blockSize)).bytes
    rw [length] at all
    rw [start, whole, all] at delivered
    rw [delivered, whole]
  · rw [if_neg whole, if_pos came, delivered]

theorem Serves.readAllLoop (serves : device.Serves content) (turns offset n : Nat)
    (total : Int) (enough : n < turns) (inside : offset ≤ content.length) :
    device.readAllLoop turns offset n total =
      { bytes := slice content offset n
        outcome := .returned (total + (min n (content.length - offset) : Nat)) } := by
  induction turns generalizing offset n total with
  | zero => omega
  | succ turns ih =>
      unfold BlockIO.readAllLoop
      by_cases nothing : n = 0
      · subst nothing
        simp [Transfer.nothing]
      · rw [if_neg nothing]
        rcases Nat.eq_or_lt_of_le inside with atEnd | before
        · have none : device.read offset n = .nothing 0 := by
            rw [atEnd, serves.size, read_end]
          rw [none, slice_beyond (by omega)]
          simp [Transfer.nothing, atEnd]
        · have size := serves.size
          have sizeWord := device.sizeWord
          have wanted : 0 < n := by omega
          have room : offset < device.sizeInBytes := by omega
          have some := device.share_pos room wanted
          have bound := device.share_le offset n
          have noWrap : (offset + device.share offset n) % 2 ^ 32 =
              offset + device.share offset n := Nat.mod_eq_of_lt (by omega)
          have rest := ih (offset + device.share offset n) (n - device.share offset n)
            (total + device.share offset n) (by omega) (by omega)
          have joined := slice_add content offset (device.share offset n)
            (n - device.share offset n)
          rw [Nat.add_sub_cancel' (by omega)] at joined
          rw [serves.read_inside before]
          simp only [Int.toNat_natCast, noWrap]
          rw [if_neg (by omega), if_neg (by omega), rest, joined]
          simp only [Transfer.mk.injEq, Outcome.returned.injEq, true_and]
          omega

/-- `read_all` stores exactly the bytes of the content that were asked for and
are there. -/
theorem Serves.readAll (serves : device.Serves content) (inside : offset ≤ content.length) :
    device.readAll offset n =
      { bytes := slice content offset n
        outcome := .returned (min n (content.length - offset) : Nat) } := by
  unfold BlockIO.readAll
  rw [serves.readAllLoop (n + 1) offset n 0 (Nat.lt_succ_self n) inside]
  simp

/-- The template `read` for a thing of `size` bytes, with its assertion. -/
def readThing (device : BlockIO) (offset size : Nat) : Option (List UInt8) :=
  let transfer := device.readAll offset size
  if transfer.outcome = .returned size then some transfer.bytes else none

theorem readAll_past (past : device.sizeInBytes < offset) (wanted : 0 < n) :
    device.readAll offset n = .nothing (-1) := by
  unfold BlockIO.readAll BlockIO.readAllLoop
  rw [if_neg (by omega), device.read_past past]
  rfl

/-- The bytes that are stored are a slice of the content, also from an offset past
its end. -/
theorem Serves.readAll_stores (serves : device.Serves content) (offset n : Nat) :
    (device.readAll offset n).bytes = slice content offset n ∧
      ∃ count, (device.readAll offset n).outcome = .returned count := by
  have size := serves.size
  by_cases inside : offset ≤ content.length
  · rw [serves.readAll inside]
    exact ⟨rfl, _, rfl⟩
  · rw [slice_beyond (by omega)]
    rcases Nat.eq_zero_or_pos n with nothing | wanted
    · subst nothing
      exact ⟨rfl, 0, rfl⟩
    · rw [readAll_past (by omega) wanted]
      exact ⟨rfl, -1, rfl⟩

theorem Serves.readThing (serves : device.Serves content) (offset : Nat) {size : Nat}
    (some : 0 < size) :
    device.readThing offset size =
      if offset + size ≤ content.length then .some (slice content offset size) else none := by
  have length := serves.size
  unfold BlockIO.readThing
  by_cases inside : offset ≤ content.length
  · rw [serves.readAll inside]
    by_cases whole : offset + size ≤ content.length
    · rw [if_pos whole]
      simp only [Outcome.returned.injEq]
      rw [if_pos (by omega)]
    · rw [if_neg whole]
      simp only [Outcome.returned.injEq]
      rw [if_neg (by omega)]
  · have outside : ¬ offset + size ≤ content.length := by omega
    have short : ¬ Outcome.returned (-1) = .returned size := by
      simp only [Outcome.returned.injEq]
      omega
    rw [readAll_past (by omega) some, if_neg outside]
    exact if_neg short

end Contents

/-! ### A device made from its content -/

/-- The device with the given content whose last block is filled up with zeros. -/
def ofBytes (blockSize : Nat) (content : List UInt8) (positive : 0 < blockSize)
    (short : blockSize < 2 ^ 31) (sizeWord : content.length < 2 ^ 32) : BlockIO where
  blockSize := blockSize
  sizeInBytes := content.length
  readBlock number :=
    { bytes := (slice content (number * blockSize) blockSize).rightpad blockSize 0
      returned := true }
  positive := positive
  short := short
  sizeWord := sizeWord
  fills number := by
    rw [List.length_rightpad, length_slice]
    omega
  fillsWhole number _ := by
    rw [List.length_rightpad, length_slice]
    omega

theorem sector_positive : 0 < 512 := by decide

theorem sector_short : 512 < 2 ^ 31 := by decide

theorem one_small : ([0] : List UInt8).length < 2 ^ 32 := by decide

theorem ofBytes_serves {blockSize : Nat} {content : List UInt8} (positive : 0 < blockSize)
    (short : blockSize < 2 ^ 31) (sizeWord : content.length < 2 ^ 32) :
    (ofBytes blockSize content positive short sizeWord).Serves content := by
  constructor
  · rfl
  · intro number _
    rfl
  · intro number _
    change slice (List.rightpad blockSize 0 (slice content (number * blockSize) blockSize)) 0
      (content.length - number * blockSize) = slice content (number * blockSize) blockSize
    have length := length_slice content (number * blockSize) blockSize
    rw [slice, List.drop_zero, List.rightpad]
    by_cases whole : blockSize ≤ content.length - number * blockSize
    · have full : blockSize - (slice content (number * blockSize) blockSize).length = 0 := by omega
      rw [full, List.replicate_zero, List.append_nil, List.take_of_length_le (by omega)]
    · have last : content.length - number * blockSize =
          (slice content (number * blockSize) blockSize).length := by omega
      rw [last, List.take_left]

end BlockIO

end AC97Kernel
