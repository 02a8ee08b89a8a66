/-
RIFF files: a row of chunks, each with a tag, a length and a body.

A body of odd length is followed by one byte that pads it.  `Meets` is the walk
of a reader that goes from chunk to chunk by 8 bytes and the length, so that it
does not know of the padding; where all lengths are even it visits the chunks.
-/

import AC97Kernel.Library.LittleEndian
import AC97Kernel.Library.Slices

set_option autoImplicit false

namespace Riff

open Slices LittleEndian

structure Chunk where
  tag : List UInt8
  body : List UInt8
  pad : UInt8
  tagLength : tag.length = 4
  short : body.length < 2 ^ 32

namespace Chunk

def padding (chunk : Chunk) : List UInt8 :=
  if chunk.body.length % 2 = 0 then [] else [chunk.pad]

def unpadded (chunk : Chunk) : List UInt8 :=
  chunk.tag ++ LittleEndian.encode 4 chunk.body.length ++ chunk.body

def encode (chunk : Chunk) : List UInt8 := chunk.unpadded ++ chunk.padding

end Chunk

def encodeAll (chunks : List Chunk) : List UInt8 := chunks.flatMap Chunk.encode

/-- The four bytes at a position, as a tag. -/
def tagAt (content : List UInt8) (position : Nat) : List UInt8 := slice content position 4

/-- The length that stands behind the tag at a position. -/
def lengthAt (content : List UInt8) (position : Nat) : Nat :=
  decode (slice content (position + 4) 4)

/-- The walk from a position meets the tag, inside the file, at another one. -/
inductive Meets (content tag : List UInt8) : Nat → Nat → Prop where
  | here {position : Nat} : position + 4 ≤ content.length → tagAt content position = tag →
      Meets content tag position position
  | later {position found : Nat} : tagAt content position ≠ tag →
      Meets content tag (position + 8 + lengthAt content position) found →
      Meets content tag position found

/-- A reader that has some bytes as the tag of the chunk at a position, be they
those that stand there or not, finds the wanted tag at another position. -/
def Enters (content tag shown : List UInt8) (position found : Nat) : Prop :=
  shown = tag ∧ found = position ∨
    shown ≠ tag ∧ Meets content tag (position + 8 + lengthAt content position) found

/-- The walk from a position comes to the very end of the file, past no chunk with
the tag. -/
inductive Leaves (content tag : List UInt8) : Nat → Prop where
  | last {position : Nat} : position = content.length → Leaves content tag position
  | later {position : Nat} : position + 8 ≤ content.length → tagAt content position ≠ tag →
      Leaves content tag (position + 8 + lengthAt content position) → Leaves content tag position

variable {content tag : List UInt8} {position found : Nat} {chunk : Chunk} {chunks : List Chunk}

theorem Meets.ends (meets : Meets content tag position found) :
    position ≤ found ∧ found + 4 ≤ content.length ∧ tagAt content found = tag := by
  induction meets with
  | here inside same => exact ⟨Nat.le_refl _, inside, same⟩
  | later _ _ ih => exact ⟨by omega, ih.2⟩

@[simp] theorem length_unpadded : chunk.unpadded.length = 8 + chunk.body.length := by
  have tagLength := chunk.tagLength
  simp only [Chunk.unpadded, List.length_append, length_encode]
  omega

/-- What stands at the position of a chunk. -/
theorem chunk_at (occurs : OccursAt content position chunk.unpadded) :
    tagAt content position = chunk.tag ∧ lengthAt content position = chunk.body.length ∧
      OccursAt content (position + 8) chunk.body ∧
      position + 8 + chunk.body.length ≤ content.length := by
  have tagLength := chunk.tagLength
  have fits := occurs.fits (by rw [length_unpadded]; omega)
  rw [length_unpadded] at fits
  rw [Chunk.unpadded, List.append_assoc, occursAt_append, occursAt_append, length_encode,
    tagLength] at occurs
  obtain ⟨tagOccurs, lengthOccurs, bodyOccurs⟩ := occurs
  unfold OccursAt at tagOccurs lengthOccurs
  rw [tagLength] at tagOccurs
  rw [length_encode] at lengthOccurs
  refine ⟨tagOccurs, ?_, bodyOccurs, by omega⟩
  rw [lengthAt, lengthOccurs, decode_encode]
  exact Nat.mod_eq_of_lt chunk.short

theorem length_encode_even (even : chunk.body.length % 2 = 0) :
    chunk.encode.length = 8 + chunk.body.length := by
  rw [Chunk.encode, Chunk.padding, if_pos even, List.append_nil, length_unpadded]

/-- The walk passes over chunks of even length that have other tags. -/
theorem Meets.skip (even : ∀ chunk ∈ chunks, chunk.body.length % 2 = 0)
    (other : ∀ chunk ∈ chunks, chunk.tag ≠ tag)
    (occurs : OccursAt content position (encodeAll chunks))
    (meets : Meets content tag (position + (encodeAll chunks).length) found) :
    Meets content tag position found := by
  induction chunks generalizing position with
  | nil => exact meets
  | cons chunk chunks ih =>
      rw [encodeAll, List.flatMap_cons, occursAt_append] at occurs
      obtain ⟨tagIs, lengthIs, _⟩ := chunk_at (occursAt_append.mp occurs.1).1
      have size := length_encode_even (even chunk List.mem_cons_self)
      apply Meets.later
      · rw [tagIs]
        exact other chunk List.mem_cons_self
      · rw [lengthIs, Nat.add_assoc, ← size]
        apply ih (fun chunk member => even chunk (List.mem_cons_of_mem _ member))
          (fun chunk member => other chunk (List.mem_cons_of_mem _ member)) occurs.2
        rw [encodeAll, List.flatMap_cons, List.length_append] at meets
        rw [Nat.add_assoc]
        exact meets

/-- Chunks of even length without the tag, up to the end of the file. -/
theorem Leaves.past (even : ∀ chunk ∈ chunks, chunk.body.length % 2 = 0)
    (other : ∀ chunk ∈ chunks, chunk.tag ≠ tag)
    (occurs : OccursAt content position (encodeAll chunks))
    (last : position + (encodeAll chunks).length = content.length) :
    Leaves content tag position := by
  induction chunks generalizing position with
  | nil => exact Leaves.last last
  | cons chunk chunks ih =>
      rw [encodeAll, List.flatMap_cons, occursAt_append] at occurs
      rw [encodeAll, List.flatMap_cons, List.length_append] at last
      obtain ⟨tagIs, lengthIs, _, inside⟩ := chunk_at (occursAt_append.mp occurs.1).1
      have size := length_encode_even (even chunk List.mem_cons_self)
      apply Leaves.later (by omega)
      · rw [tagIs]
        exact other chunk List.mem_cons_self
      · rw [lengthIs, Nat.add_assoc, ← size]
        apply ih (fun chunk member => even chunk (List.mem_cons_of_mem _ member))
          (fun chunk member => other chunk (List.mem_cons_of_mem _ member)) occurs.2
        rw [Nat.add_assoc]
        exact last

end Riff
