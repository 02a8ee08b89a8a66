/-
The memory that a kernel may touch on behalf of a user.

A handler is given the first address of a buffer and touches a number of bytes
from there on.  `room` is how many bytes there are between an address and the
next page that is not the user's: the count of a run that stays in user memory
is at most that.
-/

import AC97Kernel.Paging.Model

set_option autoImplicit false

namespace AC97Kernel

open PhysMem VMM

/-- One byte that the kernel reads or writes at an address that a user or a file
has given it. -/
inductive Access where
  | load (address : Nat)
  | store (address : Nat) (byte : UInt8)
  deriving DecidableEq

def Access.address : Access → Nat
  | .load address => address
  | .store address _ => address

/-- `bytes` stored one after the other from `pointer` on. -/
def storesAt (pointer : Nat) (bytes : List UInt8) : List Access :=
  bytes.mapIdx fun index byte => .store ((pointer + index) % 2 ^ 32) byte

/-- The byte lies in the upper half, outside the pages of the two controllers. -/
def UserByte (config : Config) (address : Nat) : Prop :=
  isSpecial config (framedown address) = false

instance (config : Config) (address : Nat) : Decidable (UserByte config address) :=
  inferInstanceAs (Decidable (_ = _))

/-- All bytes are the user's, and the run ends below 2^32. -/
structure Confined (config : Config) (pointer : Nat) (accesses : List Access) : Prop where
  user : ∀ access ∈ accesses, UserByte config access.address
  noWrap : pointer + accesses.length ≤ 2 ^ 32

/-- Bytes from `pointer` up to the page at `base`.  There is no page at a base
that is not aligned, nor anything to come at a base that lies behind. -/
def gap (base pointer : Nat) : Nat :=
  if base % frameSize = 0 ∧ pointer < base + frameSize then base - pointer else 2 ^ 32

def room (config : Config) (pointer : Nat) : Nat :=
  min (2 ^ 32 - pointer) (min (gap config.ioAPIC pointer) (gap config.localAPIC pointer))

variable {config : Config} {pointer count : Nat}

theorem framedown_eq_iff {address base : Nat} :
    framedown address = base ↔
      base % frameSize = 0 ∧ base ≤ address ∧ address < base + frameSize := by
  unfold framedown frameSize
  constructor
  · intro same
    omega
  · intro within
    omega

theorem userByte_iff {address : Nat} :
    UserByte config address ↔
      0x80000000 ≤ address ∧ framedown address ≠ config.ioAPIC ∧
        framedown address ≠ config.localAPIC := by
  unfold UserByte isSpecial
  have half : framedown address < 0x80000000 ↔ address < 0x80000000 := by
    unfold framedown frameSize
    omega
  simp [half]
  omega

/-- A run keeps off a page exactly when it is no longer than the gap before it. -/
theorem gap_iff {base : Nat} (below : pointer + count ≤ 2 ^ 32) :
    (∀ index < count, framedown (pointer + index) ≠ base) ↔ count ≤ gap base pointer := by
  constructor
  · intro clear
    by_contra long
    unfold gap at long
    split at long
    · rename_i ahead
      apply clear (base - pointer) (by omega)
      rw [framedown_eq_iff]
      unfold frameSize at ahead ⊢
      omega
    · omega
  · intro short index before same
    rw [framedown_eq_iff] at same
    unfold gap at short
    rw [if_pos ⟨same.1, by omega⟩] at short
    omega

/-- Runs that stay in user memory are those that fit into `room`. -/
theorem room_iff (high : 0x80000000 ≤ pointer) (word : pointer < 2 ^ 32) :
    ((∀ index < count, UserByte config ((pointer + index) % 2 ^ 32)) ∧
      pointer + count ≤ 2 ^ 32) ↔ count ≤ room config pointer := by
  have plain (below : pointer + count ≤ 2 ^ 32) {index : Nat} (before : index < count) :
      (pointer + index) % 2 ^ 32 = pointer + index := Nat.mod_eq_of_lt (by omega)
  constructor
  · intro inside
    obtain ⟨user, below⟩ := inside
    have ioClear : count ≤ gap config.ioAPIC pointer := by
      rw [← gap_iff below]
      intro index before
      have byte := user index before
      rw [plain below before, userByte_iff] at byte
      exact byte.2.1
    have localClear : count ≤ gap config.localAPIC pointer := by
      rw [← gap_iff below]
      intro index before
      have byte := user index before
      rw [plain below before, userByte_iff] at byte
      exact byte.2.2
    unfold room
    omega
  · intro short
    unfold room at short
    have below : pointer + count ≤ 2 ^ 32 := by omega
    refine ⟨?_, below⟩
    intro index before
    rw [plain below before, userByte_iff]
    exact ⟨by omega, (gap_iff below).mpr (by omega) index before,
      (gap_iff below).mpr (by omega) index before⟩

/-- The accesses are at consecutive addresses, from `pointer` on. -/
def RunsFrom (pointer : Nat) (accesses : List Access) : Prop :=
  accesses.map Access.address =
    (List.range accesses.length).map fun index => (pointer + index) % 2 ^ 32

theorem RunsFrom.none : RunsFrom pointer [] := rfl

theorem RunsFrom.load (word : pointer < 2 ^ 32) : RunsFrom pointer [.load pointer] :=
  congrArg (fun address => [address]) (Nat.mod_eq_of_lt word).symm

@[simp] theorem length_storesAt (bytes : List UInt8) :
    (storesAt pointer bytes).length = bytes.length := by
  simp [storesAt]

theorem runsFrom_storesAt (pointer : Nat) (bytes : List UInt8) :
    RunsFrom pointer (storesAt pointer bytes) := by
  apply List.ext_getElem
  · simp
  · intro index _ _
    simp [storesAt, Access.address]

/-- A run is confined exactly when there is room for it. -/
theorem RunsFrom.confined_iff (config : Config) {accesses : List Access}
    (runs : RunsFrom pointer accesses) (high : 0x80000000 ≤ pointer) (word : pointer < 2 ^ 32) :
    Confined config pointer accesses ↔ accesses.length ≤ room config pointer := by
  have addresses : (∀ access ∈ accesses, UserByte config access.address) ↔
      ∀ index < accesses.length, UserByte config ((pointer + index) % 2 ^ 32) := by
    have listed := congrArg (fun addresses => ∀ address ∈ addresses, UserByte config address) runs
    simp only [List.forall_mem_map, List.mem_range, eq_iff_iff] at listed
    exact listed
  rw [← room_iff high word, ← addresses]
  constructor
  · intro confined
    exact ⟨confined.user, confined.noWrap⟩
  · intro both
    exact ⟨both.1, both.2⟩

/-- Stores that end below 2^32 stay in user memory exactly when there is room. -/
theorem storesAt_user_iff (config : Config) (pointer : Nat) (bytes : List UInt8)
    (high : 0x80000000 ≤ pointer) (below : pointer + bytes.length ≤ 2 ^ 32) :
    (∀ access ∈ storesAt pointer bytes, UserByte config access.address) ↔
      bytes.length ≤ room config pointer := by
  rcases Nat.eq_zero_or_pos bytes.length with nothing | some
  · rw [List.eq_nil_of_length_eq_zero nothing]
    simp [storesAt]
  · have confined := (runsFrom_storesAt pointer bytes).confined_iff config high (by omega)
    rw [length_storesAt] at confined
    rw [← confined]
    constructor
    · intro user
      exact ⟨user, by rwa [length_storesAt]⟩
    · intro inside
      exact inside.user

theorem Confined.none (word : pointer < 2 ^ 32) : Confined config pointer [] := by
  constructor
  · intro access impossible
    cases impossible
  · exact Nat.le_of_lt word

/-- A machine with 128 MB and the controllers at their usual addresses. -/
def usualControllers : Config :=
  { memSize := 0x8000000
    ioAPIC := 0xFEC00000
    localAPIC := 0xFEE00000 }

end AC97Kernel
