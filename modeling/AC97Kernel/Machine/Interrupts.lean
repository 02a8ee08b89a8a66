/-
Interrupts and system calls.

The processor enters the handlers of machine.S with a frame on the stack.  The C function
that a handler calls comes back with the registers that a callee saves and with the words
of its caller; then what was interrupted goes on.
-/

import AC97Kernel.Library.I386Stack
import AC97Kernel.Machine.Copying

set_option autoImplicit false

namespace AC97Kernel.Routines

open I386 Machine

/-- `apitHandler_`. -/
def apitHandler_ (apitHandler : Word) : Text :=
  [.instr .pusha,
    .instr (.push (.of (.reg .esp))),
    .instr (.call (.imm apitHandler)),
    .instr (.pop .esp),
    .instr .popa,
    .instr .iret]

/-- `pageFaultHandler_`. -/
def pageFaultHandler_ (vmm_pageFault : Word) : Text :=
  [.instr .pusha,
    .instr (.mov (.of (.reg .esp)) (.reg .eax)),
    .instr (.push (.of (.reg .eax))),
    .instr (.movFrom .cr2 .eax),
    .instr (.push (.of (.reg .eax))),
    .instr (.call (.imm vmm_pageFault)),
    .instr (.add 8 .esp),
    .instr .popa,
    .instr (.add 4 .esp),
    .instr .iret]

/-- `sysHandler_`. -/
def sysHandler_ (sysHandler : Word) : Text :=
  [.instr (.push (.of (.reg .esp))),
    .instr (.push (.of (.reg .eax))),
    .instr (.call (.imm sysHandler)),
    .instr (.add 8 .esp),
    .instr .iret]

/-- `switchToUser`, with the addresses of the two selectors. -/
def switchToUser (userSS userCS : Word) : Text :=
  [load (based 4 .esp) .ecx,
    load (based 8 .esp) .ebx,
    load (based 12 .esp) .eax,
    .instr (.push (.of (.mem (.absolute userSS)))),
    .instr (.push (.of (.reg .ebx))),
    .instr .pushf,
    .instr (.or 0x200 (based 0 .esp)),
    .instr (.push (.of (.mem (.absolute userCS)))),
    .instr (.push (.of (.reg .ecx))),
    .instr .iret]

/-! ### The user side, sys.S -/

def syscall (number : Word) : Text :=
  [.instr (.mov (.imm number) (.reg .eax)), .instr (.int 48), .instr .ret]

def exit : Text := syscall 0

def write : Text := syscall 1

def sem : Text := syscall 3

def up : Text := syscall 4

def down : Text := syscall 5

def close : Text := syscall 6

def shutdown : Text := syscall 7

def wait : Text := syscall 8

def execl : Text := syscall 9

def «open» : Text := syscall 10

def len : Text := syscall 11

def read : Text := syscall 12

def seek : Text := syscall 13

def play_audio : Text := syscall 14

/-- `fork` saves what the callee has to keep, since a child starts with the memory of its
parent only. -/
def fork : Text :=
  [.instr (.push (.of (.reg .ebx))),
    .instr (.push (.of (.reg .esi))),
    .instr (.push (.of (.reg .edi))),
    .instr (.push (.of (.reg .ebp))),
    .instr (.mov (.imm 2) (.reg .eax)),
    .instr (.int 48),
    .instr (.pop .ebp),
    .instr (.pop .edi),
    .instr (.pop .esi),
    .instr (.pop .ebx),
    .instr .ret]

/-! ### Handlers that nobody notices -/

/-- A C function is back at its caller. -/
structure CameBack (called back : Machine) (words : Nat) : Prop where
  general : ∀ register, register ∉ [Register.eax, .ecx, .edx, .esp] →
    back.general register = called.general register
  esp : back.general .esp = called.general .esp + 4
  cs : back.cs = called.cs
  ss : back.ss = called.ss
  stack : ∀ index < words, back.stackWord index = called.stackWord (1 + index)

/-- All that a program can see of its registers. -/
structure Unnoticed (interrupted after : Machine) : Prop where
  general : after.general = interrupted.general
  eflags : after.eflags = interrupted.eflags
  cs : after.cs = interrupted.cs
  ss : after.ss = interrupted.ss

section Handlers

variable {interrupted called back after : Machine} {entry : Entry} {eip : Word}
  {place : Nat → Word} {words : Nat}

/-- The words behind the arguments of the C function are there again. -/
theorem CameBack.hasStack {saver : Machine} {arguments : List Word} {count : Nat}
    (cameBack : CameBack called back (count + words))
    (pushed : ∀ index, called.stackWord index =
      (saver.pushes arguments).stackWord index)
    (long : arguments.length = 1 + count) (short : 4 * (1 + count + words) ≤ 2 ^ 32)
    (dropped : ∀ index, after.stackWord index = back.stackWord (count + index)) :
    HasStack saver after words := by
  intro index inside
  rw [dropped, cameBack.stack _ (by omega), pushed, ← Nat.add_assoc]
  exact stackWord_behind long (by omega)

/-- The end of a handler that has taken back all registers. -/
theorem unnoticed (general : back.general = (interrupted.enter entry eip).general)
    (cs : back.cs = entry.cs) (ss : back.ss = (interrupted.enter entry eip).ss)
    (stack : HasStack (interrupted.enter entry eip) back 5) :
    back.top = eip ∧ Unnoticed interrupted back.iret := by
  have unwound : Unwound interrupted entry eip back :=
    ⟨congrFun general .esp, cs, ss, fun index inside =>
      stack index (Nat.lt_of_lt_of_le inside frame_length)⟩
  have resumed := unwound.resumed
  refine ⟨resumed.back, ⟨funext fun register => ?_, resumed.eflags, resumed.cs, resumed.ss⟩⟩
  by_cases other : register = .esp
  · rw [other, resumed.esp]
  · rw [iret_general other, general, enter_general other]

/-- What a timer interrupt comes upon goes on as if there had been none, whatever else runs
on the core until `apitHandler` is back. -/
theorem apit_unnoticed (interrupted : Machine) (entry : Entry) (eip apitHandler : Word)
    (place : Nat → Word) : ∃ called,
      Reaches (apitHandler_ apitHandler) place ⟨interrupted.enter entry eip, .line 0⟩
        ⟨called, .away apitHandler⟩ ∧
      called.stackWord 1 = (interrupted.enter entry eip).pusha.general .esp ∧
      ∀ back, CameBack called back (1 + (8 + 5)) → ∃ after,
        Reaches (apitHandler_ apitHandler) place ⟨back, .line 3⟩ ⟨after, .away eip⟩ ∧
        Unnoticed interrupted after ∧ after.memory = back.memory ∧
        after.control = back.control := by
  let saver := interrupted.enter entry eip
  let called := saver.pusha.pushes [saver.pusha.general .esp, place 3]
  have calls : Reaches (apitHandler_ apitHandler) place ⟨saver, .line 0⟩
      ⟨called, .away apitHandler⟩ := Reaches.of_run 3 rfl
  have pointer : called.stackWord 1 = saver.pusha.general .esp := stackWord_pushes (by simp) rfl
  refine ⟨called, calls, pointer, ?_⟩
  intro back cameBack
  have first : back.top = saver.pusha.general .esp := by
    rw [top_eq, cameBack.stack 0 (by decide)]
    exact pointer
  have esp : (back.pop .esp).general .esp = saver.pusha.general .esp := first
  have under : back.general .esp + 4 = saver.pusha.general .esp := by
    rw [cameBack.esp, pushes_esp]
    change saver.pusha.general .esp - 8 + 4 + 4 = _
    bv_omega
  have dropped (index : Nat) : (back.pop .esp).stackWord index = back.stackWord (1 + index) := by
    rw [← stackWord_discard]
    unfold stackWord
    rw [esp, ← under]
    rfl
  have same : HasStack saver.pusha (back.pop .esp) (8 + 5) :=
    cameBack.hasStack (fun _ => rfl) rfl (by decide) dropped
  obtain ⟨general, stack⟩ := popa_pusha (by decide) esp same
  have returns : Reaches (apitHandler_ apitHandler) place ⟨back, .line 3⟩
      ⟨(back.pop .esp).popa.iret, .away (back.pop .esp).popa.top⟩ := Reaches.of_run 3 rfl
  have cs : back.cs = entry.cs := cameBack.cs.trans Keeps.pushes.cs
  have ss : back.ss = saver.ss := cameBack.ss.trans Keeps.pushes.ss
  obtain ⟨top, resumes⟩ := unnoticed general cs ss stack
  rw [top] at returns
  exact ⟨_, returns, resumes, iret_memory, iret_control⟩

/-- With the arguments of `vmm_pageFault` on the stack. -/
def faulting (saved : Machine) (back : Word) : Machine :=
  ((((saved.set .eax (saved.general .esp)).push (saved.general .esp)).set .eax
    (saved.control .cr2)).push (saved.control .cr2)).push back

theorem pageFault_calls (saver : Machine) (vmm_pageFault : Word) (place : Nat → Word) :
    Reaches (pageFaultHandler_ vmm_pageFault) place ⟨saver, .line 0⟩
      ⟨faulting saver.pusha (place 6), .away vmm_pageFault⟩ :=
  Reaches.of_run 6 rfl

theorem faulting_words (saved : Machine) (back : Word) (index : Nat) :
    (faulting saved back).stackWord index =
      (saved.pushes [saved.general .esp, saved.control .cr2, back]).stackWord index := rfl

theorem faulting_esp (saved : Machine) (back : Word) :
    (faulting saved back).general .esp + 12 = saved.general .esp := by
  change saved.general .esp - 4 - 4 - 4 + 12 = _
  bv_omega

/-- The lines behind the call. -/
theorem pageFault_returns (back : Machine) (vmm_pageFault : Word) (place : Nat → Word) :
    Reaches (pageFaultHandler_ vmm_pageFault) place ⟨back, .line 6⟩
      ⟨((back.add 8 .esp).popa.add 4 .esp).iret,
        .away ((back.add 8 .esp).popa.add 4 .esp).top⟩ :=
  Reaches.of_run 4 rfl

/-- The error code is dropped. -/
theorem error_dropped {saver popped : Machine} {error : Word}
    (general : popped.general = (saver.push error).general)
    (stack : HasStack (saver.push error) popped 6) :
    (popped.add 4 .esp).general = saver.general ∧ HasStack saver (popped.add 4 .esp) 5 := by
  constructor
  · funext register
    rw [general_add, general]
    by_cases other : register = .esp
    · rw [if_pos other, other, general_push, if_pos rfl, BitVec.sub_add_cancel]
    · rw [if_neg other, general_push, if_neg other]
  · intro index inside
    have next : (popped.add 4 .esp).stackWord index = popped.stackWord (1 + index) :=
      stackWord_add 1 index
    rw [next, stack _ (by omega)]
    exact @stackWord_behind saver [error] 1 index rfl (by omega)

/-- The instruction that a page fault interrupts starts again with all registers. -/
theorem pageFault_unnoticed (interrupted : Machine) (entry : Entry)
    (eip error vmm_pageFault : Word) (place : Nat → Word) : ∃ called,
      Reaches (pageFaultHandler_ vmm_pageFault) place
        ⟨(interrupted.enter entry eip).push error, .line 0⟩ ⟨called, .away vmm_pageFault⟩ ∧
      called.stackWord 1 = interrupted.control .cr2 ∧
      called.stackWord 2 = ((interrupted.enter entry eip).push error).pusha.general .esp ∧
      ∀ back, CameBack called back (2 + (8 + 6)) → ∃ after,
        Reaches (pageFaultHandler_ vmm_pageFault) place ⟨back, .line 6⟩ ⟨after, .away eip⟩ ∧
        Unnoticed interrupted after ∧ after.memory = back.memory ∧
        after.control = back.control := by
  have cr2 : ((interrupted.enter entry eip).push error).pusha.control = interrupted.control := by
    have onStack : (interrupted.onStack entry).control = interrupted.control := by
      unfold onStack
      split <;> rfl
    exact Keeps.pushes.control.trans onStack
  generalize made : interrupted.enter entry eip = entered at *
  refine ⟨_, pageFault_calls _ vmm_pageFault place, ?_, ?_, ?_⟩
  · rw [← cr2, faulting_words]
    exact stackWord_pushes (by simp) rfl
  · rw [faulting_words]
    exact stackWord_pushes (by simp) rfl
  intro back cameBack
  have esp : (back.add 8 .esp).general .esp = (entered.push error).pusha.general .esp := by
    rw [general_add, if_pos rfl, cameBack.esp, BitVec.add_assoc]
    exact faulting_esp _ _
  have same : HasStack (entered.push error).pusha (back.add 8 .esp) (8 + 6) :=
    cameBack.hasStack (faulting_words _ _) rfl (by decide) (stackWord_add 2)
  obtain ⟨general, stack⟩ := popa_pusha (by decide) esp same
  obtain ⟨all, behind⟩ := error_dropped general stack
  have returns := pageFault_returns back vmm_pageFault place
  have cs : back.cs = entry.cs := cameBack.cs.trans (made ▸ rfl)
  have ss : back.ss = entered.ss := cameBack.ss.trans rfl
  rw [← made] at all behind ss
  obtain ⟨top, resumes⟩ := @unnoticed _ ((back.add 8 .esp).popa.add 4 .esp) _ _ all cs ss behind
  rw [top] at returns
  exact ⟨_, returns, resumes, iret_memory, iret_control⟩

/-! ### System calls -/

/-- A program behind `int`: the result is in `eax`, and what a callee saves is there. -/
structure Answered (interrupted back after : Machine) : Prop where
  result : after.general .eax = back.general .eax
  general : ∀ register, register ∉ [Register.eax, .ecx, .edx] →
    after.general register = interrupted.general register
  eflags : after.eflags = interrupted.eflags
  cs : after.cs = interrupted.cs
  ss : after.ss = interrupted.ss
  memory : after.memory = back.memory
  control : after.control = back.control

/-- What `sysHandler(eax, frame)` is called with. -/
structure SysCalled (interrupted : Machine) (entry : Entry) (eip : Word) (called : Machine) :
    Prop where
  eax : called.stackWord 1 = interrupted.general .eax
  userPC : called.memory.load (called.stackWord 2) = eip
  userEsp : level entry.cs < level interrupted.cs →
    called.memory.load (called.stackWord 2 + 12) = interrupted.general .esp

theorem sysHandler_called (interrupted : Machine) (entry : Entry) (eip sysHandler : Word)
    (place : Nat → Word) : ∃ called,
      Reaches (sysHandler_ sysHandler) place ⟨interrupted.enter entry eip, .line 0⟩
        ⟨called, .away sysHandler⟩ ∧
      SysCalled interrupted entry eip called ∧
      ∀ back, CameBack called back (2 + 5) → ∃ after,
        Reaches (sysHandler_ sysHandler) place ⟨back, .line 3⟩ ⟨after, .away eip⟩ ∧
        Answered interrupted back after := by
  let entered := interrupted.enter entry eip
  let called := entered.pushes [entered.general .esp, entered.general .eax, place 3]
  have calls : Reaches (sysHandler_ sysHandler) place ⟨entered, .line 0⟩
      ⟨called, .away sysHandler⟩ := Reaches.of_run 3 rfl
  have pointer : called.stackWord 2 = entered.general .esp := stackWord_pushes (by simp) rfl
  have word (index : Nat) (small : index < 5) :
      called.memory.load (entered.general .esp + BitVec.ofNat 32 (4 * index)) =
        entered.stackWord index := by
    rw [← @stackWord_behind entered [entered.general .esp, entered.general .eax, place 3] 3 index rfl
      (by omega)]
    unfold stackWord
    rw [pushes_esp]
    change called.memory.load _ = called.memory.load _
    congr 1
    simp only [List.length_cons, List.length_nil]
    bv_omega
  have framed (index : Nat) (value : Word)
      (found : (interrupted.frame entry eip).reverse[index]? = some value) :
      entered.stackWord index = value := by
    have length := @frame_length interrupted entry eip
    exact stackWord_pushes (by omega) found
  have found : SysCalled interrupted entry eip called := by
    constructor
    case eax =>
      have eax : entered.general .eax = interrupted.general .eax := enter_general (by decide)
      rw [← eax]
      exact stackWord_pushes (by simp) rfl
    case userPC =>
      rw [pointer]
      refine Eq.trans ?_ ((word 0 (by decide)).trans (framed 0 eip ?_))
      · exact congrArg called.memory.load (BitVec.add_zero _).symm
      · unfold frame
        split <;> rfl
    case userEsp =>
      intro outer
      rw [pointer]
      refine (word 3 (by decide)).trans (framed 3 _ ?_)
      rw [frame_inner outer]
      rfl
  refine ⟨called, calls, found, ?_⟩
  intro back cameBack
  have returns : Reaches (sysHandler_ sysHandler) place ⟨back, .line 3⟩
      ⟨(back.add 8 .esp).iret, .away (back.add 8 .esp).top⟩ := Reaches.of_run 2 rfl
  have esp : (back.add 8 .esp).general .esp = entered.general .esp := by
    rw [general_add, if_pos rfl, cameBack.esp, pushes_esp]
    simp only [List.length_cons, List.length_nil]
    bv_omega
  have same : HasStack entered (back.add 8 .esp) 5 :=
    cameBack.hasStack (fun _ => rfl) rfl (by decide) (stackWord_add 2)
  have cs : back.cs = entry.cs := cameBack.cs.trans Keeps.pushes.cs
  have ss : back.ss = entered.ss := cameBack.ss.trans Keeps.pushes.ss
  have unwound : Unwound interrupted entry eip (back.add 8 .esp) :=
    ⟨esp, cs, ss, fun index inside => same index (Nat.lt_of_lt_of_le inside frame_length)⟩
  have resumed := unwound.resumed
  rw [resumed.back] at returns
  refine ⟨_, returns, ?_, ?_, resumed.eflags, resumed.cs, resumed.ss, iret_memory, iret_control⟩
  · rw [iret_general (by decide), general_add, if_neg (by decide)]
  · intro register saved
    by_cases other : register = .esp
    · rw [other]
      exact resumed.esp
    · have pushed : called.general register = entered.general register :=
        Keeps.pushes.general register (by simpa using other)
      rw [iret_general other, general_add, if_neg other, cameBack.general register (by
        simp only [List.mem_cons, List.not_mem_nil, or_false, not_or] at saved ⊢
        exact ⟨saved.1, saved.2.1, saved.2.2, other⟩), pushed]
      exact enter_general other

/-- A program of level 3 with its stack at 0x90000000. -/
def exampleCaller : Machine where
  general register := if register = .esp then 0x90000000 else 0x1234
  control _ := 0
  eflags := 0x202
  cs := 32 + 3
  ss := 16 + 3
  memory _ := 0

/-- On a kernel stack that ends at 0x3000, with the trap gate of the system calls. -/
def exampleEntry : Entry := ⟨8, 24, 0x3000, false⟩

/-! ### `fork` -/

/-- What the stub of `fork` has saved when it traps. -/
def forking (caller : Machine) : Machine :=
  (caller.pushes ([Register.ebx, .esi, .edi, .ebp].map caller.general)).set .eax 2

theorem fork_traps (caller : Machine) :
    Reaches fork place ⟨caller, .line 0⟩ ⟨forking caller, .trap 48⟩ := Reaches.of_run 6 rfl

theorem forking_words (caller : Machine) (index : Nat) : (forking caller).stackWord index =
    (caller.pushes ([Register.ebx, .esi, .edi, .ebp].map caller.general)).stackWord index := rfl

/-- A process is back from `fork`. -/
structure Forked (caller : Machine) (result : Word) (after : Machine) : Prop where
  result : after.general .eax = result
  esp : after.general .esp = caller.general .esp + 4
  general : ∀ register ∈ [Register.ebx, .ebp, .esi, .edi],
    after.general register = caller.general register

/-- The registers that the stub takes back. -/
def taken (user : Machine) : Machine := (((user.pop .ebp).pop .edi).pop .esi).pop .ebx

theorem fork_returns (user : Machine) : Reaches fork place ⟨user, .line 6⟩
    ⟨(taken user).discard 1, .away (taken user).top⟩ := Reaches.of_run 5 rfl

theorem taken_top (user : Machine) : (taken user).top = user.stackWord 4 := by
  rw [taken, top_eq, stackWord_pop (by decide), stackWord_pop (by decide),
    stackWord_pop (by decide), stackWord_pop (by decide)]

theorem taken_esp (user : Machine) : (taken user).general .esp = user.general .esp + 16 := by
  change user.general .esp + 4 + 4 + 4 + 4 = _
  bv_omega

theorem taken_general (user : Machine) : (taken user).general .ebp = user.stackWord 0 ∧
    (taken user).general .edi = user.stackWord 1 ∧
    (taken user).general .esi = user.stackWord 2 ∧
    (taken user).general .ebx = user.stackWord 3 := by
  refine ⟨?_, ?_, ?_, ?_⟩
  · change user.top = _
    exact top_eq
  · change (user.pop .ebp).top = _
    rw [top_eq, stackWord_pop (by decide)]
  · change ((user.pop .ebp).pop .edi).top = _
    rw [top_eq, stackWord_pop (by decide), stackWord_pop (by decide)]
  · change (((user.pop .ebp).pop .edi).pop .esi).top = _
    rw [top_eq, stackWord_pop (by decide), stackWord_pop (by decide), stackWord_pop (by decide)]

/-- Whoever has the stack of the stub comes back to the caller of the stub. -/
theorem fork_comes_back {caller user : Machine}
    (esp : user.general .esp = (forking caller).general .esp)
    (stack : HasStack (forking caller) user 5) : ∃ after,
      Reaches fork place ⟨user, .line 6⟩ ⟨after, .away caller.top⟩ ∧
      Forked caller (user.general .eax) after ∧
      after.eflags = user.eflags ∧ after.cs = user.cs ∧ after.ss = user.ss := by
  have saved (index : Nat) (small : index < 4) (value : Word)
      (found : ([Register.ebx, .esi, .edi, .ebp].map caller.general).reverse[index]? = some value) :
      user.stackWord index = value := by
    rw [stack index (by omega), forking_words]
    exact stackWord_pushes (by simp) found
  have returns := @fork_returns place user
  have top : (taken user).top = caller.top := by
    rw [taken_top, stack 4 (by decide), forking_words, top_eq]
    exact @stackWord_behind caller ([Register.ebx, .esi, .edi, .ebp].map caller.general) 4 0 rfl
      (by decide)
  rw [top] at returns
  refine ⟨_, returns, ⟨rfl, ?_, ?_⟩, rfl, rfl, rfl⟩
  · have low : (forking caller).general .esp = caller.general .esp - 16 := by
      rw [forking, general_set, if_neg (by decide), pushes_esp]
      rfl
    rw [general_discard, if_pos rfl, taken_esp, esp, low]
    bv_omega
  · obtain ⟨ebp, edi, esi, ebx⟩ := taken_general user
    intro register among
    rw [general_discard]
    simp only [List.mem_cons, List.not_mem_nil, or_false] at among
    rcases among with rfl | rfl | rfl | rfl
    · exact ebx.trans (saved 3 (by decide) _ rfl)
    · exact ebp.trans (saved 0 (by decide) _ rfl)
    · exact esi.trans (saved 2 (by decide) _ rfl)
    · exact edi.trans (saved 1 (by decide) _ rfl)

/-! ### The child -/

section Child

variable {userSS userCS : Word} {kernel : Machine}

/-- With the user stack, the flags and what comes before them on the kernel stack. -/
def userFlags (kernel : Machine) (userSS : Word) : Machine :=
  let loaded := ((kernel.set .ecx (argument kernel 1)).set .ebx (argument kernel 2)).set .eax
    (argument kernel 3)
  let flags := kernel.eflags ||| 0x200
  (loaded.pushes [kernel.memory.load userSS, argument kernel 2, flags]).status flags false false
    false

/-- With all that `iret` takes. -/
def userFrame (kernel : Machine) (userSS userCS : Word) : Machine :=
  (userFlags kernel userSS).pushes
    [(userFlags kernel userSS).memory.load userCS, argument kernel 1]

theorem read_pushed (machine : Machine) (word : Word) :
    (machine.push word).read (based 0 .esp) = word := by
  have address : (machine.push word).general .esp + 0 = machine.general .esp - 4 :=
    BitVec.add_zero _
  change (machine.push word).memory.load ((machine.push word).general .esp + 0) = word
  rw [address]
  exact Memory.load_store _ _ _

theorem write_pushed (machine : Machine) (old word : Word) :
    (machine.push old).write word (based 0 .esp) = machine.push word := by
  have address : (machine.push old).general .esp + 0 = machine.general .esp - 4 := BitVec.add_zero _
  change { machine.push old with
    memory := (machine.push old).memory.store ((machine.push old).general .esp + 0) word } = _
  rw [address, memory_push, Memory.store_store]
  rfl

theorem switchToUser_flags (place : Nat → Word) :
    Reaches (switchToUser userSS userCS) place ⟨kernel, .line 0⟩
      ⟨userFlags kernel userSS, .line 7⟩ := by
  let loaded := ((kernel.set .ecx (argument kernel 1)).set .ebx (argument kernel 2)).set .eax
    (argument kernel 3)
  let stacked := (loaded.push (kernel.memory.load userSS)).push (argument kernel 2)
  have pushes : Reaches (switchToUser userSS userCS) place ⟨kernel, .line 0⟩ ⟨stacked, .line 5⟩ :=
    Reaches.of_run 5 rfl
  have flags (machine : Machine) : Reaches (switchToUser userSS userCS) place ⟨machine, .line 5⟩
      ⟨machine.push machine.eflags, .line 6⟩ := Reaches.of_run 1 rfl
  have ors (machine : Machine) : Reaches (switchToUser userSS userCS) place ⟨machine, .line 6⟩
      ⟨(machine.write (machine.read (based 0 .esp) ||| 0x200) (based 0 .esp)).status
        (machine.read (based 0 .esp) ||| 0x200) false false false, .line 7⟩ := Reaches.of_run 1 rfl
  have sets := ors (stacked.push stacked.eflags)
  rw [read_pushed, write_pushed] at sets
  exact pushes.trans ((flags stacked).trans sets)

theorem switchToUser_goes (place : Nat → Word) :
    Reaches (switchToUser userSS userCS) place ⟨kernel, .line 0⟩
      ⟨(userFrame kernel userSS userCS).iret, .away (userFrame kernel userSS userCS).top⟩ := by
  have last (flagged : Machine) : Reaches (switchToUser userSS userCS) place ⟨flagged, .line 7⟩
      ⟨(flagged.pushes [flagged.memory.load userCS, flagged.general .ecx]).iret,
        .away (flagged.pushes [flagged.memory.load userCS, flagged.general .ecx]).top⟩ :=
    Reaches.of_run 3 rfl
  exact (switchToUser_flags place).trans (last (userFlags kernel userSS))

/-- `switchToUser` is called for a program whose stack and selectors it does not touch. -/
structure StartsUser (userSS userCS pc esp eax : Word) (kernel : Machine) : Prop where
  pc : argument kernel 1 = pc
  esp : argument kernel 2 = esp
  eax : argument kernel 3 = eax
  stackSelector : kernel.memory.load userSS = 16 + 3
  codeSelector : kernel.memory.load userCS = 32 + 3
  level : Machine.level kernel.cs = 0
  selectorApart : ∀ byte, Beyond (kernel.general .esp - 12) 12 byte ∨ Beyond userCS 4 byte

/-- A program starts with interrupts on, with the registers that it is given. -/
structure Started (pc esp eax : Word) (kernel user : Machine) : Prop where
  esp : user.general .esp = esp
  eax : user.general .eax = eax
  cs : user.cs = 32 + 3
  ss : user.ss = 16 + 3
  interrupts : user.flag .interrupt = true
  memory : ∀ byte, Beyond (kernel.general .esp - 20) 20 byte → user.memory byte = kernel.memory byte

theorem switchToUser_starts {pc esp eax : Word} (place : Nat → Word)
    (starts : StartsUser userSS userCS pc esp eax kernel) : ∃ user,
      Reaches (switchToUser userSS userCS) place ⟨kernel, .line 0⟩ ⟨user, .away pc⟩ ∧
      Started pc esp eax kernel user := by
  let flagged := userFlags kernel userSS
  let framed := userFrame kernel userSS userCS
  let words := [kernel.memory.load userSS, argument kernel 2, kernel.eflags ||| 0x200]
  have flaggedMemory : flagged.memory = kernel.memory.pushes (kernel.general .esp) words :=
    pushes_memory
  have flaggedEsp : flagged.general .esp = kernel.general .esp - 12 := by
    change Machine.general (Machine.pushes _ words) .esp = _
    rw [pushes_esp]
    rfl
  have framedMemory : framed.memory = flagged.memory.pushes (flagged.general .esp)
      [flagged.memory.load userCS, argument kernel 1] := pushes_memory
  have selector : flagged.memory.load userCS = 32 + 3 := by
    rw [← starts.codeSelector]
    apply Memory.load_congr
    intro index small
    rw [flaggedMemory]
    apply Memory.pushes_beyond (by simp [words])
    have self : ¬ Beyond userCS 4 (userCS + BitVec.ofNat 32 index) := by
      unfold Beyond
      bv_omega
    exact (starts.selectorApart _).resolve_right self
  have high (index : Nat) (value : Word) (found : words.reverse[index]? = some value) :
      framed.stackWord (2 + index) = value := by
    obtain ⟨inside, _⟩ := List.getElem?_eq_some_iff.mp found
    have small : index < 3 := inside
    have behind : framed.stackWord (2 + index) = flagged.stackWord index :=
      stackWord_behind rfl (by omega)
    rw [behind]
    exact stackWord_pushes (by simp) found
  have low : framed.stackWord 1 = flagged.memory.load userCS := stackWord_pushes (by simp) rfl
  have top : framed.top = pc := by
    rw [top_eq, ← starts.pc]
    exact stackWord_pushes (by simp) rfl
  have popped (count : Nat) : (framed.discard count).top = framed.stackWord count := by
    rw [top_eq, stackWord_discard, Nat.add_zero]
  have code : ((framed.discard 1).top).setWidth 16 = (32 + 3 : BitVec 16) := by
    rw [popped, low, selector]
    rfl
  have outer : Machine.level framed.cs < Machine.level (32 + 3) := by
    have level : Machine.level framed.cs = 0 := starts.level
    rw [level]
    decide
  have goes := @switchToUser_goes userSS userCS kernel place
  refine ⟨framed.iret, top ▸ goes, ?_⟩
  constructor
  case eax =>
    rw [iret_general (by decide), ← starts.eax]
    rfl
  case memory =>
    intro byte beyond
    have higher : Beyond (kernel.general .esp - BitVec.ofNat 32 (4 * 3)) (4 * 3) byte := by
      unfold Beyond at *
      bv_omega
    have lower : Beyond (flagged.general .esp - BitVec.ofNat 32 (4 * 2)) (4 * 2) byte := by
      rw [flaggedEsp]
      unfold Beyond at *
      bv_omega
    have first : flagged.memory byte = kernel.memory byte := by
      rw [flaggedMemory]
      exact Memory.pushes_beyond (by simp [words]) higher
    have second : framed.memory byte = flagged.memory byte := by
      rw [framedMemory]
      exact Memory.pushes_beyond (by simp) lower
    rw [iret_memory, second, first]
  all_goals
    unfold iret
    simp only [code, if_pos outer]
  case esp =>
    change (framed.discard 3).top = esp
    rw [popped, high 1 _ rfl, starts.esp]
  case cs => rfl
  case ss =>
    have last : ((framed.discard 3).discard 1).top = 16 + 3 := by
      rw [top_eq, stackWord_discard, stackWord_discard, high 2 _ rfl, starts.stackSelector]
    exact congrArg (BitVec.setWidth 16) last
  case interrupts =>
    change ((framed.discard 2).top).getLsbD 9 = true
    rw [popped, high 0 _ rfl, BitVec.getLsbD_or]
    simp

/-- `fork` comes back in both processes.  The parent gets what `sysHandler` returns, the child
gets 0, and both have the registers of the caller of `fork`, as long as they have the five
words of its stack. -/
theorem fork_returns_twice (caller : Machine) (entry : Entry) (sysHandler userSS userCS : Word)
    (place handlerPlace startPlace : Nat → Word) (outer : Machine.level entry.cs < Machine.level caller.cs) :
    ∃ called, Reaches fork place ⟨caller, .line 0⟩ ⟨forking caller, .trap 48⟩ ∧
      Reaches (sysHandler_ sysHandler) handlerPlace
        ⟨(forking caller).enter entry (place 6), .line 0⟩ ⟨called, .away sysHandler⟩ ∧
      called.stackWord 1 = 2 ∧
      called.memory.load (called.stackWord 2) = place 6 ∧
      called.memory.load (called.stackWord 2 + 12) = (forking caller).general .esp ∧
      (∀ back, CameBack called back (2 + 5) →
        (∀ index < 5, back.memory.load ((forking caller).general .esp + BitVec.ofNat 32 (4 * index)) =
          (forking caller).stackWord index) → ∃ user after,
        Reaches (sysHandler_ sysHandler) handlerPlace ⟨back, .line 3⟩ ⟨user, .away (place 6)⟩ ∧
        Reaches fork place ⟨user, .line 6⟩ ⟨after, .away caller.top⟩ ∧
        Forked caller (back.general .eax) after ∧
        after.eflags = caller.eflags ∧ after.cs = caller.cs ∧ after.ss = caller.ss) ∧
      ∀ kernel, StartsUser userSS userCS (place 6) ((forking caller).general .esp) 0 kernel →
        (∀ byte, Beyond (kernel.general .esp - 20) 20 byte ∨
          Beyond ((forking caller).general .esp) 20 byte) →
        (∀ index < 5, kernel.memory.load
          ((forking caller).general .esp + BitVec.ofNat 32 (4 * index)) =
            (forking caller).stackWord index) → ∃ user after,
        Reaches (switchToUser userSS userCS) startPlace ⟨kernel, .line 0⟩
          ⟨user, .away (place 6)⟩ ∧
        Reaches fork place ⟨user, .line 6⟩ ⟨after, .away caller.top⟩ ∧
        Forked caller 0 after ∧
        after.flag .interrupt = true ∧ after.cs = 32 + 3 ∧ after.ss = 16 + 3 := by
  obtain ⟨called, calls, found, answers⟩ :=
    sysHandler_called (forking caller) entry (place 6) sysHandler handlerPlace
  have selectors : (forking caller).cs = caller.cs ∧ (forking caller).ss = caller.ss :=
    ⟨Keeps.pushes.cs, Keeps.pushes.ss⟩
  have outside : Machine.level entry.cs < Machine.level (forking caller).cs := selectors.1 ▸ outer
  refine ⟨called, fork_traps caller, calls, found.eax, found.userPC, found.userEsp outside, ?_, ?_⟩
  · intro back cameBack kept
    obtain ⟨user, resumes, answered⟩ := answers back cameBack
    have esp : user.general .esp = (forking caller).general .esp :=
      answered.general .esp (by decide)
    have stack : HasStack (forking caller) user 5 := by
      intro index inside
      unfold stackWord at kept ⊢
      rw [esp, answered.memory]
      exact kept index inside
    obtain ⟨after, returns, forked, eflags, cs, ss⟩ := @fork_comes_back place caller user esp stack
    rw [answered.result] at forked
    exact ⟨user, after, resumes, returns, forked, eflags.trans (answered.eflags.trans pushes_eflags),
      cs.trans (answered.cs.trans selectors.1), ss.trans (answered.ss.trans selectors.2)⟩
  · intro kernel starts apart copied
    obtain ⟨user, goes, started⟩ := switchToUser_starts startPlace starts
    have stack : HasStack (forking caller) user 5 := by
      intro index inside
      rw [← copied index inside]
      unfold stackWord
      rw [started.esp]
      apply Memory.load_congr
      intro byte small
      have within : ¬ Beyond ((forking caller).general .esp) 20
          ((forking caller).general .esp + BitVec.ofNat 32 (4 * index) + BitVec.ofNat 32 byte) := by
        unfold Beyond
        bv_omega
      exact started.memory _ ((apart _).resolve_right within)
    obtain ⟨after, returns, forked, eflags, cs, ss⟩ :=
      @fork_comes_back place caller user started.esp stack
    rw [started.eax] at forked
    refine ⟨user, after, goes, returns, forked, ?_, cs.trans started.cs, ss.trans started.ss⟩
    rw [flag, eflags]
    exact started.interrupts

theorem fork_asks_sysHandler : ∃ called : Machine, called.stackWord 1 = 2 ∧
    called.memory.load (called.stackWord 2 + 12) = 0x90000000 - 16 := by
  obtain ⟨called, _, _, number, _, esp, _⟩ := fork_returns_twice exampleCaller exampleEntry 0x4000 0x5000
    0x5004 (fun _ => 0) (fun _ => 0) (fun _ => 0) (by decide)
  exact ⟨called, number, esp.trans (by decide)⟩

end Child

end Handlers

end AC97Kernel.Routines
