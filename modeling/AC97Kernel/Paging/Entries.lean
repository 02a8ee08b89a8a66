/-
Page-table entries and the addresses they translate.

An entry is a frame with flags in its low twelve bits.  A page is named by a
directory index and a table index; `address` and the two index computations of
`map` undo each other on page addresses below 2^32.
-/

import AC97Kernel.Paging.Model

set_option autoImplicit false

namespace AC97Kernel

namespace PhysMem

theorem offset_eq (pa : Nat) : offset pa = pa % 4096 :=
  Nat.and_two_pow_sub_one_eq_mod pa 12

theorem framedown_mod (pa : Nat) : framedown pa % 4096 = 0 :=
  Nat.mul_mod_left _ _

theorem framedown_le (pa : Nat) : framedown pa ≤ pa :=
  Nat.div_mul_le_self pa 4096

end PhysMem

namespace VMM

/-- The entry has its present bit clear. -/
abbrev Absent (entry : Nat) : Prop := entry &&& 1 = 0

def frameOf (entry : Nat) : Nat := entry &&& 0xFFFFF000

theorem absent_iff (entry : Nat) : Absent entry ↔ entry % 2 = 0 := by
  unfold Absent
  rw [Nat.and_one_is_mod]

theorem present_iff (entry : Nat) : entry &&& 1 = 1 ↔ ¬ Absent entry := by
  rw [absent_iff, Nat.and_one_is_mod]
  omega

theorem absent_zero : Absent 0 := rfl

private theorem frame_mask (entry : Nat) :
    entry &&& 0xFFFFF000 = (entry / 4096 % 2 ^ 20) * 4096 := by
  apply Nat.eq_of_testBit_eq
  intro bit
  have mask : (0xFFFFF000 : Nat) = (2 ^ 20 - 1) * 2 ^ 12 := rfl
  rw [mask, Nat.testBit_and, Nat.testBit_mul_two_pow, Nat.testBit_two_pow_sub_one]
  have shifted : (entry / 4096 % 2 ^ 20) * 4096 = (entry / 2 ^ 12 % 2 ^ 20) * 2 ^ 12 := rfl
  rw [shifted, Nat.testBit_mul_two_pow, Nat.testBit_mod_two_pow, Nat.testBit_div_two_pow]
  by_cases above : 12 ≤ bit
  · have back : bit - 12 + 12 = bit := Nat.sub_add_cancel above
    rw [back]
    cases entry.testBit bit <;> simp [above]
  · simp [above]

/-- Flags below the page size do not reach the frame. -/
theorem entry_eq_add {frame flags : Nat} (aligned : frame % 4096 = 0) (small : flags < 4096) :
    frame ||| flags = frame + flags := by
  have split : frame = 2 ^ 12 * (frame / 4096) := by omega
  rw [split]
  exact (Nat.two_pow_add_eq_or_of_lt small (frame / 4096)).symm

theorem frameOf_entry {frame flags : Nat} (aligned : frame % 4096 = 0)
    (word : frame < 2 ^ 32) (small : flags < 4096) : frameOf (frame ||| flags) = frame := by
  unfold frameOf
  rw [entry_eq_add aligned small, frame_mask]
  omega

theorem present_entry {frame flags : Nat} (aligned : frame % 4096 = 0) (small : flags < 4096)
    (odd : flags % 2 = 1) : ¬ Absent (frame ||| flags) := by
  rw [entry_eq_add aligned small, absent_iff]
  omega

theorem flags_entry {frame flags : Nat} (aligned : frame % 4096 = 0) (small : flags < 8) :
    (frame ||| flags) &&& 7 = flags := by
  rw [entry_eq_add aligned (by omega), Nat.and_two_pow_sub_one_eq_mod _ 3]
  omega

/-- Which flags an entry has decides whether user mode may follow it. -/
theorem user_bit_of_flags {entry flags : Nat} (has : entry &&& 7 = flags) :
    entry &&& 4 = flags &&& 4 := by
  have masked : (entry &&& 7) &&& 4 = flags &&& 4 := congrArg (· &&& 4) has
  rw [Nat.and_assoc] at masked
  exact masked

theorem no_user_bit {entry : Nat} (flags : entry &&& 7 = 3) : entry &&& 4 = 0 :=
  user_bit_of_flags flags

def directoryIndex (va : Nat) : Nat := va >>> 22

def tableIndex (va : Nat) : Nat := (va >>> 12) &&& 0x3FF

theorem directoryIndex_eq (va : Nat) : directoryIndex va = va / 0x400000 :=
  Nat.shiftRight_eq_div_pow va 22

theorem tableIndex_eq (va : Nat) : tableIndex va = va / 0x1000 % 1024 := by
  unfold tableIndex
  rw [Nat.shiftRight_eq_div_pow]
  exact Nat.and_two_pow_sub_one_eq_mod _ 10

theorem tableIndex_lt (va : Nat) : tableIndex va < 1024 := by
  rw [tableIndex_eq]
  exact Nat.mod_lt _ (by decide)

theorem address_eq {pdi pti : Nat} (small : pti < 1024) :
    address pdi pti = pdi * 0x400000 + pti * 0x1000 := by
  unfold address
  rw [Nat.shiftLeft_eq, Nat.shiftLeft_eq, Nat.mul_comm pdi]
  have low : pti * 2 ^ 12 < 2 ^ 22 := by omega
  exact (Nat.two_pow_add_eq_or_of_lt low pdi).symm.trans (by omega)

theorem directoryIndex_address (pdi : Nat) {pti : Nat} (small : pti < 1024) :
    directoryIndex (address pdi pti) = pdi := by
  rw [directoryIndex_eq, address_eq small]
  omega

theorem tableIndex_address (pdi : Nat) {pti : Nat} (small : pti < 1024) :
    tableIndex (address pdi pti) = pti := by
  rw [tableIndex_eq, address_eq small]
  omega

theorem address_indices {va : Nat} (aligned : va % 4096 = 0) :
    address (directoryIndex va) (tableIndex va) = va := by
  rw [address_eq (tableIndex_lt va), directoryIndex_eq, tableIndex_eq]
  omega

/-- Page addresses are equal when their two indices are. -/
theorem eq_of_indices {first second : Nat} (firstAligned : first % 4096 = 0)
    (secondAligned : second % 4096 = 0)
    (sameDirectory : directoryIndex first = directoryIndex second)
    (sameTable : tableIndex first = tableIndex second) : first = second := by
  rw [← address_indices firstAligned, ← address_indices secondAligned, sameDirectory, sameTable]

theorem directoryIndex_bounds {va : Nat} (high : 0x80000000 ≤ va) (word : va < 2 ^ 32) :
    512 ≤ directoryIndex va ∧ directoryIndex va < 1024 := by
  rw [directoryIndex_eq]
  omega

theorem address_high {pdi pti : Nat} (high : 512 ≤ pdi) (small : pti < 1024) :
    0x80000000 ≤ address pdi pti := by
  rw [address_eq small]
  omega

end VMM

end AC97Kernel
