/-
Numbers as bytes, the lowest byte first.
-/

import Mathlib.Algebra.Group.Nat.Defs
import Mathlib.Data.Nat.Basic

set_option autoImplicit false

namespace LittleEndian

/-- The lowest `count` bytes of a number. -/
def encode : Nat → Nat → List UInt8
  | 0, _ => []
  | count + 1, word => UInt8.ofNat word :: encode count (word / 256)

def decode : List UInt8 → Nat
  | [] => 0
  | byte :: bytes => byte.toNat + 256 * decode bytes

@[simp] theorem length_encode (count word : Nat) : (encode count word).length = count := by
  induction count generalizing word with
  | zero => rfl
  | succ count ih => rw [encode, List.length_cons, ih]

theorem decode_lt (bytes : List UInt8) : decode bytes < 256 ^ bytes.length := by
  induction bytes with
  | nil => exact Nat.one_pos
  | cons byte bytes ih =>
      have small := byte.toNat_lt
      rw [decode, List.length_cons, Nat.pow_succ]
      omega

/-- The bytes keep what fits into them. -/
theorem decode_encode (count word : Nat) : decode (encode count word) = word % 256 ^ count := by
  induction count generalizing word with
  | zero => simp [encode, decode, Nat.mod_one]
  | succ count ih =>
      have byte : (UInt8.ofNat word).toNat = word % 256 := by simp
      rw [encode, decode, ih, byte, Nat.pow_succ, Nat.mul_comm (256 ^ count), Nat.mod_mul]

end LittleEndian
