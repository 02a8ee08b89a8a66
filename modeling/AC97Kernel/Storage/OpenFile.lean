/-
Open files, as kernel/openfilestruct.h and kernel/u8250.h have them.

`off_t` is a 32-bit unsigned word, so that the error value of `seek` is 2^32 - 1,
and a read keeps its 64-bit result in an `int`.
-/

import AC97Kernel.Storage.BlockIO

set_option autoImplicit false

namespace AC97Kernel

open Slices

/-- The `int` that a 64-bit value is stored in. -/
def toInt (value : Int) : Int := value.bmod (2 ^ 32)

structure OpenFileStruct where
  node : BlockIO
  myOffset : Nat

namespace OpenFileStruct

def make (node : BlockIO) : OpenFileStruct := { node := node, myOffset := 0 }

def getOffset (file : OpenFileStruct) : Nat := file.myOffset

def size (file : OpenFileStruct) : Nat := file.node.sizeInBytes

def seek (file : OpenFileStruct) (offset : Nat) : Nat × OpenFileStruct :=
  if offset > file.node.sizeInBytes then (2 ^ 32 - 1, file)
  else (offset, { file with myOffset := offset })

def read (file : OpenFileStruct) (n : Nat) : Transfer × OpenFileStruct :=
  if n = 0 then (.nothing 0, file)
  else
    let transfer := file.node.readAll file.myOffset n
    match transfer.outcome with
    | .returned count =>
        let result := toInt count
        ({ transfer with outcome := .returned result },
          { file with myOffset := ((file.myOffset + result) % 2 ^ 32).toNat })
    | _ => (transfer, file)

variable {file : OpenFileStruct} {content : List UInt8} {n offset : Nat}

/-- What a read does besides moving the offset. -/
theorem read_eq (wanted : 0 < n) :
    (file.read n).1.bytes = (file.node.readAll file.myOffset n).bytes ∧
      (file.read n).2.node = file.node := by
  unfold read
  rw [if_neg (by omega)]
  cases ended : (file.node.readAll file.myOffset n).outcome <;> simp only [ended, and_self]

/-- Wherever the offset is, a read stores what is between it and the end of the
file at most. -/
theorem read_length :
    (file.read n).1.bytes.length ≤ min n (file.node.sizeInBytes - file.myOffset) := by
  rcases Nat.eq_zero_or_pos n with nothing | wanted
  · simp [read, nothing, Transfer.nothing]
  · rw [(read_eq wanted).1]
    exact file.node.readAll_length

@[simp] theorem seek_node (file : OpenFileStruct) (offset : Nat) :
    (file.seek offset).2.node = file.node := by
  unfold seek
  split <;> rfl

/-- The offset advances by the whole count, also where an `int` cannot hold it. -/
private theorem sum_toInt {start count : Nat} (small : start + count < 2 ^ 32) :
    (((start : Int) + toInt count) % 2 ^ 32).toNat = start + count := by
  unfold toInt
  rw [Int.bmod_def]
  split <;> omega

/-- A read of a file with fixed contents delivers the next bytes and moves on by
as many. -/
theorem read_serves (serves : file.node.Serves content) (inside : file.myOffset ≤ content.length) :
    file.read n =
      ({ bytes := slice content file.myOffset n
         outcome := .returned (toInt (min n (content.length - file.myOffset) : Nat)) },
        { file with myOffset := file.myOffset + min n (content.length - file.myOffset) }) := by
  have word := file.node.sizeWord
  have size := serves.size
  unfold read
  by_cases nothing : n = 0
  · rw [if_pos nothing, nothing]
    simp [Transfer.nothing, toInt]
  · rw [if_neg nothing, serves.readAll inside]
    simp only
    rw [sum_toInt (by omega)]

/-- The file has fixed contents and stands at a position of them. -/
structure Stands (file : OpenFileStruct) (content : List UInt8) (position : Nat) : Prop where
  serves : file.node.Serves content
  offset : file.myOffset = position
  inside : position ≤ content.length

/-- A read delivers what comes next and stands behind it. -/
theorem Stands.read {position : Nat} (stands : file.Stands content position) (count : Nat) :
    ∃ result next, file.read count =
        ({ bytes := slice content position count, outcome := .returned result }, next) ∧
      next.Stands content (position + min count (content.length - position)) := by
  have inside := stands.inside
  have reads := read_serves (n := count) stands.serves (by rw [stands.offset]; exact inside)
  rw [stands.offset] at reads
  exact ⟨_, _, reads, stands.serves, rfl, by omega⟩

/-- With fixed contents all of it is stored. -/
theorem read_length_serves (serves : file.node.Serves content) :
    (file.read n).1.bytes.length = min n (file.node.sizeInBytes - file.myOffset) := by
  have size := serves.size
  by_cases inside : file.myOffset ≤ content.length
  · rw [read_serves serves inside, length_slice, size]
  · have bound := file.read_length (n := n)
    omega

theorem seek_inside (inside : offset ≤ file.node.sizeInBytes) :
    file.seek offset = (offset, { file with myOffset := offset }) := by
  unfold seek
  rw [if_neg (by omega)]

end OpenFileStruct

end AC97Kernel
