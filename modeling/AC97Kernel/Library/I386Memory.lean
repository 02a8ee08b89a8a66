/-
A memory with a byte at each of 2^32 addresses.

Addresses wrap, so that the bytes from an address on are those at a small distance from
it.  The lowest byte of a word comes first.
-/

import Mathlib.Algebra.Group.Nat.Defs
import Mathlib.Data.BitVec
import Mathlib.Logic.Function.Basic
import Mathlib.Logic.Relation

set_option autoImplicit false

namespace I386

abbrev Word := BitVec 32
abbrev Byte := BitVec 8

abbrev Memory := Word → Byte

/-- `place` is none of the `count` bytes from `start` on. -/
def Beyond (start : Word) (count : Nat) (place : Word) : Prop := count ≤ (place - start).toNat

instance instDecidableBeyond (start : Word) (count : Nat) (place : Word) :
    Decidable (Beyond start count place) :=
  inferInstanceAs (Decidable (_ ≤ _))

/-- Two words have no byte in common. -/
def Apart (first second : Word) : Prop := Beyond first 4 second ∧ Beyond second 4 first

section Ranges

variable {start place : Word} {count : Nat}

theorem Beyond.ne (beyond : Beyond start (count + 1) place) : place ≠ start := by
  rintro rfl
  unfold Beyond at beyond
  rw [BitVec.sub_self] at beyond
  cases beyond

theorem Beyond.next (beyond : Beyond start (count + 1) place) :
    Beyond (start + 1) count place := by
  unfold Beyond at *
  bv_omega

theorem add_index (start : Word) (index : Nat) :
    start + BitVec.ofNat 32 (index + 1) = start + 1 + BitVec.ofNat 32 index := by
  rw [BitVec.add_assoc, Nat.add_comm, BitVec.ofNat_add]
  rfl

end Ranges

namespace Memory

def put (memory : Memory) (address : Word) (byte : Byte) : Memory :=
  fun other => if other = address then byte else memory other

def load (memory : Memory) (address : Word) : Word :=
  memory (address + 3) ++ memory (address + 2) ++ memory (address + 1) ++ memory address

def store (memory : Memory) (address value : Word) : Memory :=
  (((memory.put address (value.extractLsb' 0 8)).put (address + 1) (value.extractLsb' 8 8)).put
    (address + 2) (value.extractLsb' 16 8)).put (address + 3) (value.extractLsb' 24 8)

/-- `count` bytes from `source` on go to `target`, one after the other. -/
def copy : Nat → Memory → (target source : Word) → Memory
  | 0, memory, _, _ => memory
  | count + 1, memory, target, source =>
      copy count (memory.put target (memory source)) (target + 1) (source + 1)

/-- `count` bytes from `start` on become `byte`. -/
def fill (memory : Memory) (start : Word) (count : Nat) (byte : Byte) : Memory :=
  fun place => if Beyond start count place then memory place else byte

variable {memory other : Memory} {address start target source place value : Word} {byte : Byte}
  {count : Nat}

theorem put_self : memory.put address byte address = byte := if_pos rfl

theorem put_of_ne (different : place ≠ address) : memory.put address byte place = memory place :=
  if_neg different

/-- A byte keeps off a word. -/
theorem store_beyond (beyond : Beyond address 4 place) :
    memory.store address value place = memory place := by
  unfold Beyond at beyond
  unfold store
  rw [put_of_ne, put_of_ne, put_of_ne, put_of_ne]
  all_goals
    bv_omega

theorem bytes_append (value : BitVec (8 + 8 + 8 + 8)) :
    value.extractLsb' 24 8 ++ value.extractLsb' 16 8 ++ value.extractLsb' 8 8 ++
      value.extractLsb' 0 8 = value := by
  rw [BitVec.extractLsb'_append_extractLsb'_eq_extractLsb' (by decide),
    BitVec.extractLsb'_append_extractLsb'_eq_extractLsb' (by decide),
    BitVec.extractLsb'_append_extractLsb'_eq_extractLsb' (by decide)]
  exact BitVec.extractLsb'_eq_self

@[simp] theorem load_store (memory : Memory) (address value : Word) :
    (memory.store address value).load address = value := by
  unfold load store put
  simp
  exact bytes_append value

theorem store_store (memory : Memory) (address old value : Word) :
    (memory.store address old).store address value = memory.store address value := by
  funext place
  unfold store put
  split_ifs <;> rfl

/-- What a word is depends on its four bytes. -/
theorem load_congr (same : ∀ index : Nat, index < 4 →
    memory (address + BitVec.ofNat 32 index) = other (address + BitVec.ofNat 32 index)) :
    memory.load address = other.load address := by
  have first : memory address = other address := by simpa using same 0 (by decide)
  unfold load
  rw [first, show memory (address + 1) = _ from same 1 (by decide),
    show memory (address + 2) = _ from same 2 (by decide),
    show memory (address + 3) = _ from same 3 (by decide)]
  rfl

theorem load_store_apart (apart : Apart address place) :
    (memory.store address value).load place = memory.load place := by
  obtain ⟨behind, before⟩ := apart
  apply load_congr
  intro index small
  apply store_beyond
  unfold Beyond at *
  bv_omega

theorem copy_beyond (beyond : Beyond target count place) (short : count ≤ 2 ^ 32) :
    copy count memory target source place = memory place := by
  induction count generalizing memory target source with
  | zero => rfl
  | succ count ih =>
      rw [copy, ih beyond.next (by omega), put_of_ne beyond.ne]

/-- A word keeps off a range of bytes. -/
theorem load_copy (short : count ≤ 2 ^ 32)
    (beyond : ∀ index < 4, Beyond target count (place + BitVec.ofNat 32 index)) :
    (memory.copy count target source).load place = memory.load place :=
  load_congr fun index small => copy_beyond (beyond index small) short

/-- Between ranges that do not overlap the bytes come over as they are. -/
theorem copy_at {index : Nat} (inside : index < count) (short : count ≤ 2 ^ 32)
    (apart : ∀ index < count, Beyond target count (source + BitVec.ofNat 32 index)) :
    copy count memory target source (target + BitVec.ofNat 32 index) =
      memory (source + BitVec.ofNat 32 index) := by
  induction count generalizing memory target source index with
  | zero => exact absurd inside (Nat.not_lt_zero index)
  | succ count ih =>
      rw [copy]
      cases index with
      | zero =>
          have first : Beyond (target + 1) count target := by
            unfold Beyond
            bv_omega
          have none_ (start : Word) : start + BitVec.ofNat 32 0 = start := BitVec.add_zero start
          rw [none_, none_, copy_beyond first (by omega), put_self]
      | succ index =>
          have there := apart (index + 1) inside
          rw [add_index, add_index, ih (by omega) (by omega), put_of_ne]
          · rw [← add_index]
            exact there.ne
          · intro other small
            rw [← add_index]
            exact (apart (other + 1) (by omega)).next

theorem fill_none (memory : Memory) (start : Word) (byte : Byte) :
    memory.fill start 0 byte = memory :=
  funext fun _ => if_pos (Nat.zero_le _)

theorem load_fill (beyond : ∀ index < 4, Beyond start count (place + BitVec.ofNat 32 index)) :
    (memory.fill start count byte).load place = memory.load place :=
  load_congr fun index small => if_pos (beyond index small)

/-- From the first byte on. -/
theorem fill_put :
    (memory.put start byte).fill (start + 1) count byte = memory.fill start (count + 1) byte := by
  funext place
  unfold fill
  by_cases beyond : Beyond start (count + 1) place
  · rw [if_pos beyond.next, if_pos beyond, put_of_ne beyond.ne]
  · rw [if_neg beyond]
    by_cases later : Beyond (start + 1) count place
    · have first : place = start := by
        unfold Beyond at *
        bv_omega
      rw [if_pos later, first, put_self]
    · rw [if_neg later]

/-- From the last byte back. -/
theorem fill_put_last (short : count < 2 ^ 32) :
    (memory.put (start + BitVec.ofNat 32 count) byte).fill start count byte =
      memory.fill start (count + 1) byte := by
  funext place
  unfold fill
  by_cases beyond : Beyond start (count + 1) place
  · have different : place ≠ start + BitVec.ofNat 32 count := by
      unfold Beyond at beyond
      bv_omega
    have before : Beyond start count place := Nat.le_of_succ_le beyond
    rw [if_pos before, if_pos beyond, put_of_ne different]
  · rw [if_neg beyond]
    by_cases within : Beyond start count place
    · have last : place = start + BitVec.ofNat 32 count := by
        unfold Beyond at *
        bv_omega
      rw [if_pos within, last, put_self]
    · rw [if_neg within]

end Memory

end I386
