/-
Arrays of 32-bit words seen as bytes.

The words are signed, the lowest byte of a word comes first, and a byte is a
number from 0 to 255.  Addresses count bytes from the first word on.
-/

import Mathlib.Algebra.Group.Int.Defs
import Mathlib.Algebra.Group.Nat.Defs
import Mathlib.Data.Int.Basic
import Mathlib.Logic.Function.Basic

set_option autoImplicit false

namespace WordBytes

def byteAt (word : Int) (place : Nat) : Int := word / 256 ^ place % 256

/-- The word with another byte in this place; of `value` its lowest byte is taken. -/
def putByte (word : Int) (place : Nat) (value : Int) : Int :=
  Int.bmod (word + (value % 256 - byteAt word place) * 256 ^ place) (2 ^ 32)

theorem byteAt_bmod (word : Int) {place : Nat} (inside : place < 4) :
    byteAt (Int.bmod word (2 ^ 32)) place = byteAt word place := by
  unfold byteAt Int.bmod
  match place, inside with
  | 0, _ => simp only; split <;> omega
  | 1, _ => simp only; split <;> omega
  | 2, _ => simp only; split <;> omega
  | 3, _ => simp only; split <;> omega

theorem byteAt_putByte (word value : Int) {place : Nat} (inside : place < 4) :
    byteAt (putByte word place value) place = value % 256 := by
  unfold putByte
  rw [byteAt_bmod _ inside]
  unfold byteAt
  match place, inside with
  | 0, _ => omega
  | 1, _ => omega
  | 2, _ => omega
  | 3, _ => omega

theorem byteAt_putByte_other (word value : Int) {place other : Nat} (inside : place < 4)
    (otherInside : other < 4) (different : other ≠ place) :
    byteAt (putByte word place value) other = byteAt word other := by
  unfold putByte
  rw [byteAt_bmod _ otherInside]
  unfold byteAt
  match place, inside, other, otherInside with
  | 0, _, 1, _ => omega
  | 0, _, 2, _ => omega
  | 0, _, 3, _ => omega
  | 1, _, 0, _ => omega
  | 1, _, 2, _ => omega
  | 1, _, 3, _ => omega
  | 2, _, 0, _ => omega
  | 2, _, 1, _ => omega
  | 2, _, 3, _ => omega
  | 3, _, 0, _ => omega
  | 3, _, 1, _ => omega
  | 3, _, 2, _ => omega
  | 0, _, 0, _ => exact absurd rfl different
  | 1, _, 1, _ => exact absurd rfl different
  | 2, _, 2, _ => exact absurd rfl different
  | 3, _, 3, _ => exact absurd rfl different

def load (words : Int → Int) (address : Int) : Int :=
  byteAt (words (address / 4)) (address % 4).toNat

def store (words : Int → Int) (address value : Int) : Int → Int :=
  Function.update words (address / 4)
    (putByte (words (address / 4)) (address % 4).toNat value)

theorem place_lt (address : Int) : (address % 4).toNat < 4 := by omega

theorem load_mod (words : Int → Int) (address : Int) :
    load words address % 256 = load words address :=
  Int.emod_emod_of_dvd _ (Int.dvd_refl 256)

theorem load_store (words : Int → Int) (address value : Int) :
    load (store words address value) address = value % 256 := by
  unfold load store
  rw [Function.update_self]
  exact byteAt_putByte _ _ (place_lt address)

theorem load_store_other (words : Int → Int) {address other : Int} (different : other ≠ address)
    (value : Int) : load (store words address value) other = load words other := by
  unfold load store
  by_cases same : other / 4 = address / 4
  · rw [same, Function.update_self]
    exact byteAt_putByte_other _ _ (place_lt address) (place_lt other) (by omega)
  · rw [Function.update_of_ne same]

/-- `count` bytes from `source` on go to `target`, one after the other. -/
def copy : Nat → (Int → Int) → (target source : Int) → Int → Int
  | 0, words, _, _ => words
  | count + 1, words, target, source =>
      copy count (store words target (load words source)) (target + 1) (source + 1)

/-- Outside the target nothing changes. -/
theorem load_copy_outside (count : Nat) (words : Int → Int) (target source address : Int)
    (outside : address < target ∨ target + count ≤ address) :
    load (copy count words target source) address = load words address := by
  induction count generalizing words target source with
  | zero => rfl
  | succ count ih =>
      rw [copy, ih _ _ _ (by omega)]
      exact load_store_other _ (by omega) _

/-- Between ranges that do not overlap the bytes come over as they are. -/
theorem load_copy (count : Nat) (words : Int → Int) (target source : Int)
    (apart : target + count ≤ source ∨ source + count ≤ target) {index : Nat}
    (inside : index < count) :
    load (copy count words target source) (target + index) = load words (source + index) := by
  induction count generalizing words target source index with
  | zero => exact absurd inside (Nat.not_lt_zero index)
  | succ count ih =>
      rw [copy]
      cases index with
      | zero =>
          have first := load_copy_outside count (store words target (load words source))
            (target + 1) (source + 1) target (by omega)
          have start : target + ((0 : Nat) : Int) = target := by omega
          have origin : source + ((0 : Nat) : Int) = source := by omega
          rw [start, origin, first, load_store, load_mod]
      | succ index =>
          have later := ih (store words target (load words source)) (target + 1) (source + 1)
            (by omega) (Nat.lt_of_succ_lt_succ inside)
          have place : target + ((index + 1 : Nat) : Int) = target + 1 + index := by omega
          have origin : source + ((index + 1 : Nat) : Int) = source + 1 + index := by omega
          rw [place, origin, later]
          exact load_store_other _ (by omega) _

end WordBytes
