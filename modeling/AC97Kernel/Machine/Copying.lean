/-
The routines of machine.S that copy and clear memory.

The kernel and the user programs have one `memcpy` each; they differ in what they return.
Callers are promised what C promises: the arguments are copied or cleared up to their
count, the registers that a callee saves are saved, and the stack is as before.
-/

import AC97Kernel.Library.I386

set_option autoImplicit false

namespace AC97Kernel.Routines

open I386 Machine

/-- The argument of this number, counted from 1, when a routine is entered. -/
def argument (machine : Machine) (number : Nat) : Word :=
  machine.memory.load (machine.general .esp + BitVec.ofNat 32 (4 * number))

def based (displacement : Word) (register : Register) : Place := .mem (.based displacement register)

def load (source : Place) (target : Register) : Line := .instr (.mov (.of source) (.reg target))

/-- `memcpy` as far as the two versions agree. -/
def memcpyLines : Text :=
  [load (based 4 .esp) .eax,
    load (based 8 .esp) .edx,
    load (based 12 .esp) .ecx,
    .instr (.push (.of (.reg .ebx))),
    .label 1,
    .instr (.add (-1) .ecx),
    .instr (.jl (.ahead 1)),
    .instr (.movb (.of (based 0 .edx)) (.reg .ebx)),
    .instr (.movb (.of (.reg .ebx)) (based 0 .eax)),
    .instr (.add 1 .edx),
    .instr (.add 1 .eax),
    .instr (.jmp (.back 1)),
    .label 1,
    .instr (.pop .ebx)]

/-- `memcpy` of the kernel. -/
def memcpy : Text := memcpyLines ++ [.instr .ret]

/-- `memcpy` of user programs, which returns the target. -/
def userMemcpy : Text := memcpyLines ++ [load (based 4 .esp) .eax, .instr .ret]

/-- `bzero` of the kernel. -/
def bzero : Text :=
  [load (based 4 .esp) .eax,
    load (based 8 .esp) .ecx,
    .label 1,
    .instr (.add (-1) .ecx),
    .instr (.jl (.ahead 1)),
    .instr (.movb (.imm 0) (based 0 .eax)),
    .instr (.add 1 .eax),
    .instr (.jmp (.back 1)),
    .label 1,
    .instr .ret]

/-- `memset` of user programs, which begins with the last byte. -/
def memset : Text :=
  [load (based 4 .esp) .eax,
    load (based 8 .esp) .ecx,
    load (based 12 .esp) .edx,
    .label 1,
    .instr (.add (-1) .edx),
    .instr (.jl (.ahead 1)),
    .instr (.movb (.of (.reg .ecx)) (.mem (.indexed .eax .edx))),
    .instr (.jmp (.back 1)),
    .label 1,
    .instr .ret]

section Loops

variable {rest : Text} {place : Nat → Word} {machine : Machine} {left : Nat}

/-- The body of the loop moves one byte. -/
theorem memcpy_turn : ∃ after,
    Reaches (memcpyLines ++ rest) place ⟨machine.add (-1) .ecx, .line 7⟩ ⟨after, .line 4⟩ ∧
      after.general .ecx = machine.general .ecx - 1 ∧
      after.general .eax = machine.general .eax + 1 ∧
      after.general .edx = machine.general .edx + 1 ∧
      after.memory = machine.memory.put (machine.general .eax)
        (machine.memory (machine.general .edx)) ∧
      Keeps [.eax, .ebx, .ecx, .edx] machine after := by
  have source : machine.general .edx + 0 = machine.general .edx := BitVec.add_zero _
  have target : machine.general .eax + 0 = machine.general .eax := BitVec.add_zero _
  refine ⟨_, Reaches.of_run 5 rfl, ?_, ?_, ?_, ?_, ?_⟩
  · exact (BitVec.sub_eq_add_neg _ _).symm
  · rfl
  · rfl
  · rw [memory_add, memory_add]
    change machine.memory.put (machine.general .eax + 0) _ = _
    rw [byte_writeByte, target]
    change machine.memory.put _ (machine.memory (machine.general .edx + 0)) = _
    rw [source]
  · apply (Keeps.add machine .ecx (-1) (by decide)).trans
    apply (Keeps.set _ .ebx _ (by decide)).trans
    apply (Keeps.memory _ _).trans
    apply (Keeps.add _ .edx 1 (by decide)).trans
    exact Keeps.add _ .eax 1 (by decide)

/-- What the loop still has to copy, and to where. -/
structure Copying (first : Machine) (left : Nat) (machine : Machine) : Prop where
  memory : machine.memory.copy left (machine.general .eax) (machine.general .edx) =
    first.memory.copy (turns (first.general .ecx)) (first.general .eax) (first.general .edx)
  target : machine.general .eax + BitVec.ofNat 32 left =
    first.general .eax + BitVec.ofNat 32 (turns (first.general .ecx))
  keeps : Keeps [.eax, .ebx, .ecx, .edx] first machine

theorem memcpy_loop (first : Machine) :
    ∃ after, Reaches (memcpyLines ++ rest) place ⟨first, .line 4⟩ ⟨after, .line 13⟩ ∧
      after.memory =
        first.memory.copy (turns (first.general .ecx)) (first.general .eax) (first.general .edx) ∧
      after.general .eax = first.general .eax + BitVec.ofNat 32 (turns (first.general .ecx)) ∧
      Keeps [.eax, .ebx, .ecx, .edx] first after := by
  obtain ⟨after, reached, copied⟩ :
      ∃ after, Reaches (memcpyLines ++ rest) place ⟨first, .line 4⟩
        ⟨after.add (-1) .ecx, .line 12⟩ ∧ Copying first 0 after := by
    apply Reaches.counted (Copying first) rfl rfl rfl rfl
    · intro left machine copying _
      obtain ⟨after, moved, counted, target, source, memory, keeps⟩ := @memcpy_turn rest place machine
      refine ⟨after, moved, counted, ?_, ?_, copying.keeps.trans keeps⟩
      · rw [memory, target, source]
        exact copying.memory
      · rw [target, ← add_index]
        exact copying.target
    · exact ⟨rfl, rfl, .refl _ _⟩
  refine ⟨_, reached.trans (Reaches.of_run 1 rfl), ?_, ?_, ?_⟩
  · exact copied.memory
  · exact (BitVec.add_zero _).symm.trans copied.target
  · exact copied.keeps.trans (.add _ _ _ (by decide))

theorem bzero_loop (first : Machine) :
    ∃ after, Reaches bzero place ⟨first, .line 2⟩ ⟨after, .line 9⟩ ∧
      after.memory = first.memory.fill (first.general .eax) (turns (first.general .ecx)) 0 ∧
      Keeps [.eax, .ecx] first after := by
  obtain ⟨after, reached, memory, keeps⟩ :
      ∃ after, Reaches bzero place ⟨first, .line 2⟩ ⟨after.add (-1) .ecx, .line 8⟩ ∧
        after.memory.fill (after.general .eax) 0 0 =
          first.memory.fill (first.general .eax) (turns (first.general .ecx)) 0 ∧
        Keeps [.eax, .ecx] first after := by
    apply Reaches.counted (fun left machine =>
      machine.memory.fill (machine.general .eax) left 0 =
        first.memory.fill (first.general .eax) (turns (first.general .ecx)) 0 ∧
      Keeps [.eax, .ecx] first machine) rfl rfl rfl rfl
    · intro left machine filling _
      have target : machine.general .eax + 0 = machine.general .eax := BitVec.add_zero _
      refine ⟨_, Reaches.of_run 3 rfl, (BitVec.sub_eq_add_neg _ _).symm, ?_, ?_⟩
      · change Memory.fill (machine.memory.put (machine.general .eax + 0) 0)
          (machine.general .eax + 1) left 0 = _
        rw [target, Memory.fill_put]
        exact filling.1
      · apply filling.2.trans
        apply (Keeps.add machine .ecx (-1) (by decide)).trans
        apply (Keeps.memory _ _).trans
        exact Keeps.add _ .eax 1 (by decide)
    · exact ⟨rfl, .refl _ _⟩
  refine ⟨_, reached.trans (Reaches.of_run 1 rfl), ?_, keeps.trans (.add _ _ _ (by decide))⟩
  exact (Memory.fill_none _ _ _).symm.trans memory

/-- The last byte that is left is at the counter. -/
theorem memset_loop (first : Machine) :
    ∃ after, Reaches memset place ⟨first, .line 3⟩ ⟨after, .line 9⟩ ∧
      after.memory = first.memory.fill (first.general .eax) (turns (first.general .edx))
        ((first.general .ecx).extractLsb' 0 8) ∧
      Keeps [.edx] first after := by
  obtain ⟨after, reached, memory, keeps⟩ :
      ∃ after, Reaches memset place ⟨first, .line 3⟩ ⟨after.add (-1) .edx, .line 8⟩ ∧
        after.memory.fill (first.general .eax) 0 ((first.general .ecx).extractLsb' 0 8) =
          first.memory.fill (first.general .eax) (turns (first.general .edx))
            ((first.general .ecx).extractLsb' 0 8) ∧
        Keeps [.edx] first after := by
    apply Reaches.counted (fun left machine =>
      machine.memory.fill (first.general .eax) left ((first.general .ecx).extractLsb' 0 8) =
        first.memory.fill (first.general .eax) (turns (first.general .edx))
          ((first.general .ecx).extractLsb' 0 8) ∧
      Keeps [.edx] first machine) rfl rfl rfl rfl
    · intro left machine filling remaining
      have start : machine.general .eax = first.general .eax :=
        filling.2.general .eax (by decide)
      have value : machine.general .ecx = first.general .ecx :=
        filling.2.general .ecx (by decide)
      have few := turns_lt (machine.general .edx)
      refine ⟨_, Reaches.of_run 2 rfl, (BitVec.sub_eq_add_neg _ _).symm, ?_, ?_⟩
      · change Memory.fill (machine.memory.put (machine.general .eax + (machine.general .edx + -1))
          ((machine.general .ecx).extractLsb' 0 8)) _ left _ = _
        rw [start, value, turns_succ remaining, Memory.fill_put_last (by omega)]
        exact filling.1
      · apply filling.2.trans
        apply (Keeps.add machine .edx (-1) (by decide)).trans
        exact Keeps.memory _ _
    · exact ⟨rfl, .refl _ _⟩
  refine ⟨_, reached.trans (Reaches.of_run 1 rfl), ?_, keeps.trans (.add _ _ _ (by decide))⟩
  exact (Memory.fill_none _ _ _).symm.trans memory

end Loops

section Calls

variable {rest : Text} {place : Nat → Word} {machine : Machine}

/-- The bytes that `memcpy` is to write are none of its return address, of its first argument
and of the word below them, where it saves a register. -/
def KeepsFrame (machine : Machine) : Prop :=
  ∀ index < 12, Beyond (argument machine 1) (turns (argument machine 3))
    (machine.general .esp - 4 + BitVec.ofNat 32 index)

/-- The source overlaps neither the target nor the word where `memcpy` saves a register. -/
structure Disjoint (machine : Machine) : Prop where
  target : ∀ index < turns (argument machine 3),
    Beyond (argument machine 1) (turns (argument machine 3))
      (argument machine 2 + BitVec.ofNat 32 index)
  saved : ∀ index < turns (argument machine 3),
    Beyond (machine.general .esp - 4) 4 (argument machine 2 + BitVec.ofNat 32 index)

/-- The memory that `memcpy` leaves. -/
def copied (machine : Machine) : Memory :=
  (machine.memory.store (machine.general .esp - 4) (machine.general .ebx)).copy
    (turns (argument machine 3)) (argument machine 1) (argument machine 2)

/-- In front of the loop of `memcpy`. -/
def loaded (machine : Machine) : Machine :=
  (((machine.set .eax (argument machine 1)).set .edx (argument machine 2)).set .ecx
    (argument machine 3)).push (machine.general .ebx)

theorem loaded_keeps (machine : Machine) : Keeps [.eax, .ecx, .edx, .esp] machine (loaded machine) := by
  apply (Keeps.set machine .eax _ (by decide)).trans
  apply (Keeps.set _ .edx _ (by decide)).trans
  apply (Keeps.set _ .ecx _ (by decide)).trans
  exact Keeps.push _ _ (by decide)

/-- The two words of the frame are as they were when the loop began. -/
theorem KeepsFrame.load_copied (frame : KeepsFrame machine) {offset : Nat} (low : offset ≤ 8) :
    (copied machine).load (machine.general .esp - 4 + BitVec.ofNat 32 offset) =
      (machine.memory.store (machine.general .esp - 4) (machine.general .ebx)).load
        (machine.general .esp - 4 + BitVec.ofNat 32 offset) := by
  have short := turns_lt (argument machine 3)
  apply Memory.load_copy (by omega)
  intro index small
  rw [BitVec.add_assoc, ← BitVec.ofNat_add]
  exact frame (offset + index) (by omega)

theorem KeepsFrame.saved (frame : KeepsFrame machine) :
    (copied machine).load (machine.general .esp - 4) = machine.general .ebx := by
  have kept := frame.load_copied (Nat.zero_le 8)
  rw [show machine.general .esp - 4 + BitVec.ofNat 32 0 = _ from BitVec.add_zero _] at kept
  rw [kept, Memory.load_store]

/-- The words of the caller. -/
theorem KeepsFrame.word (frame : KeepsFrame machine) {offset : Nat} (low : offset ≤ 4) :
    (copied machine).load (machine.general .esp + BitVec.ofNat 32 offset) =
      machine.memory.load (machine.general .esp + BitVec.ofNat 32 offset) := by
  have kept := frame.load_copied (Nat.add_le_add_left low 4)
  have shifted : machine.general .esp - 4 + BitVec.ofNat 32 (4 + offset) =
      machine.general .esp + BitVec.ofNat 32 offset := by bv_omega
  rw [shifted] at kept
  rw [kept]
  apply Memory.load_store_apart
  constructor
  all_goals
    unfold Beyond
    bv_omega

theorem KeepsFrame.top (frame : KeepsFrame machine) :
    (copied machine).load (machine.general .esp) = machine.top := by
  have kept := frame.word (Nat.zero_le 4)
  rwa [show machine.general .esp + BitVec.ofNat 32 0 = _ from BitVec.add_zero _] at kept

/-- Both versions of `memcpy`, up to the value that they return. -/
theorem memcpy_lines (frame : KeepsFrame machine) :
    ∃ after, Reaches (memcpyLines ++ rest) place ⟨machine, .line 0⟩ ⟨after, .line 14⟩ ∧
      after.memory = copied machine ∧
      after.general .eax = argument machine 1 + BitVec.ofNat 32 (turns (argument machine 3)) ∧
      Keeps [.eax, .ecx, .edx] machine after := by
  obtain ⟨after, looped, memory, target, keeps⟩ := @memcpy_loop rest place (loaded machine)
  have entered : Reaches (memcpyLines ++ rest) place ⟨machine, .line 0⟩
    ⟨loaded machine, .line 4⟩ := Reaches.of_run 4 rfl
  have memoryIs : after.memory = copied machine := memory
  have low : after.general .esp = machine.general .esp - 4 := keeps.general .esp (by decide)
  have stack : (after.pop .ebx).general .esp = machine.general .esp := by
    change after.general .esp + 4 = _
    rw [low, BitVec.sub_add_cancel]
  have saved : (after.pop .ebx).general .ebx = machine.general .ebx := by
    change after.memory.load (after.general .esp) = _
    rw [memoryIs, low, frame.saved]
  refine ⟨after.pop .ebx, entered.trans (looped.trans (Reaches.of_run 1 rfl)), memoryIs, target,
    ?_⟩
  have changed : Keeps [.ebx, .esp, .eax, .ecx, .edx] machine (after.pop .ebx) :=
    ((loaded_keeps machine).mono (by decide)).trans
      ((keeps.mono (by decide)).trans (.pop after .ebx (by decide) (by decide)))
  exact (changed.restored saved).restored stack

/-- The bytes come over, all other bytes stay but those of the word below the frame, and
the caller goes on with its registers. -/
structure Copies (text : Text) (place : Nat → Word) (machine after : Machine) : Prop where
  returns : Returns text place machine after
  bytes : ∀ index < turns (argument machine 3),
    after.memory (argument machine 1 + BitVec.ofNat 32 index) =
      machine.memory (argument machine 2 + BitVec.ofNat 32 index)
  others : ∀ place, Beyond (argument machine 1) (turns (argument machine 3)) place →
    Beyond (machine.general .esp - 4) 4 place → after.memory place = machine.memory place

theorem Copies.of_memory {text : Text} {after : Machine} (returns : Returns text place machine after)
    (memory : after.memory = copied machine) (disjoint : Disjoint machine) :
    Copies text place machine after where
  returns := returns
  bytes index inside := by
    have short := turns_lt (argument machine 3)
    rw [memory, copied, Memory.copy_at inside (by omega) disjoint.target]
    exact Memory.store_beyond (disjoint.saved index inside)
  others place outside keepsOff := by
    have short := turns_lt (argument machine 3)
    rw [memory, copied, Memory.copy_beyond outside (by omega)]
    exact Memory.store_beyond keepsOff

theorem memcpy_copies (frame : KeepsFrame machine) (disjoint : Disjoint machine) :
    (∃ after, Copies memcpy place machine after ∧
      after.general .eax = argument machine 1 + BitVec.ofNat 32 (turns (argument machine 3))) ∧
    ∃ after, Copies userMemcpy place machine after ∧ after.general .eax = argument machine 1 := by
  constructor
  · obtain ⟨after, reached, memory, target, keeps⟩ := memcpy_lines frame
    have stack : after.general .esp = machine.general .esp := keeps.general .esp (by decide)
    have top : after.top = machine.top := by
      rw [Machine.top, memory, stack, frame.top]
    exact ⟨_, .of_memory (.of_ret reached rfl top keeps) memory disjoint, target⟩
  · obtain ⟨after, reached, memory, target, keeps⟩ := memcpy_lines frame
    have stack : after.general .esp = machine.general .esp := keeps.general .esp (by decide)
    have top : after.top = machine.top := by
      rw [Machine.top, memory, stack, frame.top]
    have first : argument after 1 = argument machine 1 := by
      unfold argument
      rw [memory, stack]
      exact frame.word (Nat.le_refl 4)
    have last : Reaches userMemcpy place ⟨after, .line 14⟩
        ⟨after.set .eax (argument after 1), .line 15⟩ := Reaches.of_run 1 rfl
    exact ⟨_, .of_memory (.of_ret (reached.trans last) rfl top
      (keeps.trans (.set after .eax _ (by decide)))) memory disjoint, first⟩

/-- A caller that asks for twelve bytes to be copied. -/
def calling : Machine where
  general register := if register = .esp then 0x1000 else 0
  control _ := 0
  eflags := 2
  cs := 8
  ss := 16
  memory place :=
    if place = 0x1005 then 0x20 else if place = 0x1009 then 0x30 else
    if place = 0x100c then 12 else 0

theorem memcpy_twelve :
    (∃ after, Copies memcpy (fun _ => 0) calling after ∧ after.general .eax = 0x200c) ∧
    ∃ after, Copies userMemcpy (fun _ => 0) calling after ∧ after.general .eax = 0x2000 :=
  @memcpy_copies (fun _ => 0) calling (by unfold KeepsFrame; decide) (by constructor <;> decide)

/-! ### Filling -/

/-- The bytes that are to be filled are none of the return address. -/
def KeepsReturn (machine : Machine) (count : Nat) : Prop :=
  ∀ index < 4, Beyond (argument machine 1) count (machine.general .esp + BitVec.ofNat 32 index)

theorem fill_returns {text : Text} {after : Machine} {count : Nat} {byte : Byte}
    (frame : KeepsReturn machine count)
    (reached : Reaches text place ⟨machine, .line 0⟩ ⟨after, .line 9⟩)
    (fetched : text[9]? = some (.instr .ret))
    (memory : after.memory = machine.memory.fill (argument machine 1) count byte)
    (keeps : Keeps [.eax, .ecx, .edx] machine after) :
    Returns text place machine (after.discard 1) := by
  apply Returns.of_ret reached fetched _ keeps
  rw [Machine.top, memory, keeps.general .esp (by decide)]
  exact Memory.load_fill frame

/-- `bzero` clears and `memset` sets exactly the bytes that they are given. -/
theorem bzero_memset_fill :
    (KeepsReturn machine (turns (argument machine 2)) →
      ∃ after, Returns bzero place machine after ∧
        after.memory = machine.memory.fill (argument machine 1) (turns (argument machine 2)) 0) ∧
    (KeepsReturn machine (turns (argument machine 3)) →
      ∃ after, Returns memset place machine after ∧
        after.memory = machine.memory.fill (argument machine 1) (turns (argument machine 3))
          ((argument machine 2).extractLsb' 0 8) ∧
        after.general .eax = argument machine 1) := by
  constructor
  · intro frame
    have entered : Reaches bzero place ⟨machine, .line 0⟩
        ⟨(machine.set .eax (argument machine 1)).set .ecx (argument machine 2), .line 2⟩ :=
      Reaches.of_run 2 rfl
    obtain ⟨after, looped, memory, keeps⟩ := @bzero_loop place
      ((machine.set .eax (argument machine 1)).set .ecx (argument machine 2))
    have loaded : Keeps [.eax, .ecx, .edx] machine
        ((machine.set .eax (argument machine 1)).set .ecx (argument machine 2)) :=
      (Keeps.set machine .eax _ (by decide)).trans (.set _ .ecx _ (by decide))
    exact ⟨_, fill_returns frame (entered.trans looped) rfl memory
      (loaded.trans (keeps.mono (by decide))), memory⟩
  · intro frame
    have entered : Reaches memset place ⟨machine, .line 0⟩
        ⟨((machine.set .eax (argument machine 1)).set .ecx (argument machine 2)).set .edx
          (argument machine 3), .line 3⟩ := Reaches.of_run 3 rfl
    obtain ⟨after, looped, memory, keeps⟩ := @memset_loop place
      (((machine.set .eax (argument machine 1)).set .ecx (argument machine 2)).set .edx
        (argument machine 3))
    have loaded : Keeps [.eax, .ecx, .edx] machine
        (((machine.set .eax (argument machine 1)).set .ecx (argument machine 2)).set .edx
          (argument machine 3)) :=
      ((Keeps.set machine .eax _ (by decide)).trans (.set _ .ecx _ (by decide))).trans
        (.set _ .edx _ (by decide))
    exact ⟨_, fill_returns frame (entered.trans looped) rfl memory
      (loaded.trans (keeps.mono (by decide))), memory, keeps.general .eax (by decide)⟩

theorem bzero_memset_calling :
    (∃ after, Returns bzero (fun _ => 0) calling after ∧
        after.memory = calling.memory.fill 0x2000 0x3000 0) ∧
      ∃ after, Returns memset (fun _ => 0) calling after ∧
        after.memory = calling.memory.fill 0x2000 12 0 ∧ after.general .eax = 0x2000 :=
  ⟨bzero_memset_fill.1 (by unfold KeepsReturn; decide),
    bzero_memset_fill.2 (by unfold KeepsReturn; decide)⟩

end Calls

end AC97Kernel.Routines
