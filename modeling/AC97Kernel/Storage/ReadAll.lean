/-
The contract of `read_all`, down to the bytes of the caller's buffer.

The sums of the two functions are 32-bit words.  They are listed here with their
exact values, so that a sum that wraps is one that is not below 2^32.
-/

import AC97Kernel.Storage.BlockIO

set_option autoImplicit false

namespace AC97Kernel

open Slices

/-- Memory in which what a read has stored starts at `buffer`. -/
def Transfer.into (transfer : Transfer) (buffer : Nat) (memory : Nat → UInt8) (address : Nat) :
    UInt8 :=
  if buffer ≤ address then transfer.bytes.getD (address - buffer) (memory address)
  else memory address

namespace BlockIO

variable (device : BlockIO)

/-- The sums that one call of `read` computes. -/
def readSums (offset desired : Nat) : List Nat :=
  let size := device.sizeInBytes
  if offset > size then []
  else if offset = size then []
  else
    let n := min desired (size - offset)
    let offsetInBlock := offset % device.blockSize
    let actual := min (device.blockSize - offsetInBlock) n
    if actual = device.blockSize then [offset + actual]
    else [offset + actual, offsetInBlock + actual]

/-- Those of the loop of `read_all`: the ones of each `read`, and the new offset of
each turn that is followed by another. -/
def readAllSums : Nat → Nat → Nat → List Nat
  | 0, _, _ => []
  | turns + 1, offset, n =>
      if n = 0 then []
      else
        device.readSums offset n ++
          match (device.read offset n).outcome with
          | .returned count =>
              if count ≤ 0 then []
              else
                (offset + count.toNat) ::
                  readAllSums turns ((offset + count.toNat) % 2 ^ 32) (n - count.toNat)
          | _ => []

/-- The sums that move the buffer on. -/
def readAllBuffers : Nat → Nat → Nat → Nat → List Nat
  | 0, _, _, _ => []
  | turns + 1, offset, n, buffer =>
      if n = 0 then []
      else
        match (device.read offset n).outcome with
        | .returned count =>
            if count ≤ 0 then []
            else
              (buffer + count.toNat) ::
                readAllBuffers turns ((offset + count.toNat) % 2 ^ 32) (n - count.toNat)
                  ((buffer + count.toNat) % 2 ^ 32)
        | _ => []

variable {device} {offset desired n buffer : Nat}

theorem readSums_small : ∀ sum ∈ device.readSums offset desired, sum < 2 ^ 32 := by
  have sizeWord := device.sizeWord
  have short := device.short
  have within := Nat.mod_lt offset device.positive
  intro sum member
  unfold readSums at member
  simp only at member
  split at member
  · cases member
  · split at member
    · cases member
    · split at member
      · simp only [List.mem_singleton] at member
        omega
      · simp only [List.mem_cons, List.not_mem_nil, or_false] at member
        omega

/-- A turn that is followed by another has read its share. -/
theorem read_goes_on {count : Int}
    (returned : (device.read offset n).outcome = .returned count) (some : ¬ count ≤ 0) :
    offset < device.sizeInBytes ∧ count = device.share offset n := by
  rcases Nat.lt_trichotomy offset device.sizeInBytes with inside | atEnd | past
  · exact ⟨inside, (device.read_returned inside returned).1⟩
  · rw [atEnd, read_end] at returned
    cases returned
    exact absurd (Int.le_refl 0) some
  · rw [device.read_past past] at returned
    cases returned
    exact absurd (by decide) some

/-- No sum of the loop wraps. -/
theorem readAllSums_small (turns offset n : Nat) :
    ∀ sum ∈ device.readAllSums turns offset n, sum < 2 ^ 32 := by
  induction turns generalizing offset n with
  | zero =>
      intro sum impossible
      cases impossible
  | succ turns ih =>
      intro sum member
      rw [readAllSums] at member
      split at member
      · cases member
      · rcases List.mem_append.mp member with ofRead | ofTurn
        · exact readSums_small sum ofRead
        · split at ofTurn
          · rename_i count returned
            split at ofTurn
            · cases ofTurn
            · rename_i some
              obtain ⟨inside, countIs⟩ := read_goes_on returned some
              subst countIs
              have sizeWord := device.sizeWord
              have bound := device.share_le offset n
              rcases List.mem_cons.mp ofTurn with same | later
              · omega
              · exact ih _ _ sum later
          · cases ofTurn

/-- The buffer does not wrap either when the bytes that are delivered end below 2^32. -/
theorem readAllBuffers_small (turns offset n buffer : Nat)
    (room : buffer + min n (device.sizeInBytes - offset) < 2 ^ 32) :
    ∀ sum ∈ device.readAllBuffers turns offset n buffer, sum < 2 ^ 32 := by
  induction turns generalizing offset n buffer with
  | zero =>
      intro sum impossible
      cases impossible
  | succ turns ih =>
      intro sum member
      rw [readAllBuffers] at member
      split at member
      · cases member
      · split at member
        · rename_i count returned
          split at member
          · cases member
          · rename_i some
            obtain ⟨inside, countIs⟩ := read_goes_on returned some
            subst countIs
            have sizeWord := device.sizeWord
            have bound := device.share_le offset n
            simp only [Int.toNat_natCast] at member
            have nextWord : offset + device.share offset n < 2 ^ 32 := by omega
            have behindWord : buffer + device.share offset n < 2 ^ 32 := by omega
            rcases List.mem_cons.mp member with same | later
            · omega
            · rw [Nat.mod_eq_of_lt nextWord, Nat.mod_eq_of_lt behindWord] at later
              exact ih _ _ _ (by omega) sum later
        · cases member

/-- A slice that is put into memory changes the bytes it is put at and no others. -/
theorem into_slice {content : List UInt8} {transfer : Transfer} {count : Nat}
    (stored : transfer.bytes = slice content offset count) (memory : Nat → UInt8) (address : Nat) :
    transfer.into buffer memory address =
      if buffer ≤ address ∧ address < buffer + min count (content.length - offset) then
        content.getD (offset + (address - buffer)) 0
      else memory address := by
  unfold Transfer.into
  rw [stored]
  by_cases from' : buffer ≤ address
  · rw [if_pos from', List.getD_eq_getElem?_getD]
    by_cases inside : address - buffer < min count (content.length - offset)
    · rw [if_pos ⟨from', by omega⟩, slice_getElem? content (by omega),
        List.getD_eq_getElem?_getD, List.getElem?_eq_getElem (by omega)]
      rfl
    · rw [if_neg (by omega), List.getElem?_eq_none (by rw [length_slice]; omega)]
      rfl
  · rw [if_neg from', if_neg (by omega)]

end BlockIO

end AC97Kernel
