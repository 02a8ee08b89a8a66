/-
The context switch of context.s.

A thread that does not run has its registers in its save area and on its stack.  What
`gheith_contextSwitch` does to memory is said word by word, over the two save areas and
the two ends of the stacks.  Kernel stacks and save areas are in the kernel heap, which
every directory maps to itself, so that a switch of directories does not move them.
-/

import AC97Kernel.Library.I386
import AC97Kernel.Library.I386Regions
import AC97Kernel.Machine.Copying

set_option autoImplicit false

namespace AC97Kernel.Routines

open I386 Machine

def store (source : Register) (displacement : Word) (base : Register) : Line :=
  .instr (.mov (.of (.reg source)) (based displacement base))

/-- `gheith_contextSwitch`. -/
def contextSwitch : Text :=
  [load (based 4 .esp) .eax,
    load (based 8 .esp) .ecx,
    load (based 12 .esp) .edx,
    .instr .pushf,
    store .ebx 0 .eax,
    store .esp 4 .eax,
    store .ebp 8 .eax,
    store .esi 12 .eax,
    store .edi 16 .eax,
    .instr (.movFrom .cr2 .edi),
    store .edi 28 .eax,
    .instr .cli,
    .instr (.mov (.imm 0) (based 20 .eax)),
    .instr (.mov (.imm 0) (based 20 .ecx)),
    .instr (.mov (.of (.reg .esp)) (.reg .eax)),
    load (based 28 .ecx) .edi,
    .instr (.movTo .edi .cr2),
    load (based 32 .ecx) .edi,
    .instr (.movTo .edi .cr3),
    load (based 0 .ecx) .ebx,
    load (based 4 .ecx) .esp,
    load (based 8 .ecx) .ebp,
    load (based 12 .ecx) .esi,
    load (based 16 .ecx) .edi,
    .instr (.push (.of (based 20 .eax))),
    .instr (.push (.of (based 8 .eax))),
    .instr (.call (.of (.reg .edx))),
    .instr (.add 8 .esp),
    .instr .popf,
    .instr .ret]

/-- What a switch reads and writes: the save areas of the thread that calls it and of the
thread that it resumes, and the ends of their stacks. -/
inductive Part where
  | source | target | callerStack | resumedStack
  deriving DecidableEq

/-- Where a thread goes on, and with which registers. -/
@[ext] structure Context where
  ebx : Word
  ebp : Word
  esi : Word
  edi : Word
  esp : Word
  eip : Word
  eflags : Word
  cr2 : Word
  deriving DecidableEq

/-- The context of a machine that is at an address. -/
def Context.ofMachine (machine : Machine) (eip : Word) : Context where
  ebx := machine.general .ebx
  ebp := machine.general .ebp
  esi := machine.general .esi
  edi := machine.general .edi
  esp := machine.general .esp
  eip := eip
  eflags := machine.eflags
  cr2 := machine.control .cr2

/-- The context that a save area and a stack hold. -/
def Context.ofMemory (memory : Memory) (area : Word) : Context :=
  let top := memory.load (area + 4)
  { ebx := memory.load (area + 0)
    ebp := memory.load (area + 8)
    esi := memory.load (area + 12)
    edi := memory.load (area + 16)
    esp := top + 8
    eip := memory.load (top + 4)
    eflags := memory.load top
    cr2 := memory.load (area + 28) }

/-! ### What the lines do -/

section Lines

variable (machine : Machine)

def callerBase : Word := machine.general .esp - 4

def source : Word := argument machine 1

def target : Word := argument machine 2

/-- Where the stack of the resumed thread ends in its save area. -/
def resumedTop : Word := machine.memory.load (target machine + 4)

/-- When the context of the caller is stored. -/
def savedMemory : Memory :=
  ((((((((machine.memory.store (callerBase machine) machine.eflags).store
    (source machine + 0) (machine.general .ebx)).store
    (source machine + 4) (callerBase machine)).store
    (source machine + 8) (machine.general .ebp)).store
    (source machine + 12) (machine.general .esi)).store
    (source machine + 16) (machine.general .edi)).store
    (source machine + 28) (machine.control .cr2)).store
    (source machine + 20) 0).store (target machine + 20) 0

def savedMachine : Machine :=
  { (((((machine.set .eax (source machine)).set .ecx (target machine)).set .edx
      (argument machine 3)).push machine.eflags).set .edi (machine.control .cr2)) with
    memory := savedMemory machine
    eflags := setFlag machine.eflags .interrupt false }

/-- The registers come from the save area at `ecx`. -/
def resume (saved : Machine) : Machine :=
  let area := saved.general .ecx
  let cr2 := saved.memory.load (area + 28)
  let cr3 := saved.memory.load (area + 32)
  let first := (saved.set .eax (saved.general .esp)).set .edi cr2
  let controlled := ((first.setControl .cr2 cr2).set .edi cr3).setControl .cr3 cr3
  ((((controlled.set .ebx (saved.memory.load (area + 0))).set .esp
    (saved.memory.load (area + 4))).set .ebp (saved.memory.load (area + 8))).set .esi
    (saved.memory.load (area + 12))).set .edi (saved.memory.load (area + 16))

/-- The handler gets its arguments from the stack at `eax`. -/
def callHandler (resumed : Machine) (back : Word) : Machine :=
  let first := resumed.push (resumed.memory.load (resumed.general .eax + 20))
  let second := first.push (first.memory.load (first.general .eax + 8))
  second.push back

/-- The registers that the handler finds. -/
theorem callHandler_registers (saved : Machine) (back : Word) :
    (callHandler (resume saved) back).general .ebx =
        saved.memory.load (saved.general .ecx + 0) ∧
      (callHandler (resume saved) back).general .ebp =
        saved.memory.load (saved.general .ecx + 8) ∧
      (callHandler (resume saved) back).general .esi =
        saved.memory.load (saved.general .ecx + 12) ∧
      (callHandler (resume saved) back).general .edi =
        saved.memory.load (saved.general .ecx + 16) ∧
      (callHandler (resume saved) back).control .cr2 =
        saved.memory.load (saved.general .ecx + 28) ∧
      (callHandler (resume saved) back).control .cr3 =
        saved.memory.load (saved.general .ecx + 32) ∧
      (callHandler (resume saved) back).eflags = saved.eflags :=
  ⟨rfl, rfl, rfl, rfl, rfl, rfl, rfl⟩

/-- The machine when the handler is called. -/
def called (place : Nat → Word) : Machine :=
  callHandler (resume (savedMachine machine)) (place 27)

theorem switch_calls (place : Nat → Word) :
    Reaches contextSwitch place ⟨machine, .line 0⟩
      ⟨called machine place, .away (argument machine 3)⟩ := by
  have saving : Reaches contextSwitch place ⟨machine, .line 0⟩ ⟨savedMachine machine, .line 14⟩ :=
    Reaches.of_run 14 rfl
  have resuming (saved : Machine) : Reaches contextSwitch place ⟨saved, .line 14⟩
      ⟨resume saved, .line 24⟩ := Reaches.of_run 10 rfl
  have calling (resumed : Machine) : Reaches contextSwitch place ⟨resumed, .line 24⟩
      ⟨callHandler resumed (place 27), .away (resumed.general .edx)⟩ := Reaches.of_run 3 rfl
  exact saving.trans ((resuming _).trans (calling _))

/-! ### Words of the parts -/

def partBase : Part → Word
  | .source => source machine
  | .target => target machine
  | .callerStack => callerBase machine
  | .resumedStack => resumedTop machine - 12

end Lines

/-- The flags, the return address and four arguments; three words below and two above the
end of the stack of the resumed thread. -/
def partWords : Part → Nat
  | .source => 9
  | .target => 9
  | .callerStack => 6
  | .resumedStack => 5

/-- The two save areas and the two ends of stacks do not overlap. -/
def Frames (machine : Machine) : Prop :=
  ∀ first second : Part, first ≠ second → ∀ place,
    Beyond (partBase machine first) (4 * partWords first) place ∨
      Beyond (partBase machine second) (4 * partWords second) place

def spot (machine : Machine) (part : Part) (index : Nat) : Word :=
  partBase machine part + BitVec.ofNat 32 (4 * index)

section Words

variable {machine : Machine} {memory : Memory} {value : Word} {part other : Part}
  {index second : Nat}

def Frames.regions (frames : Frames machine) : Regions Part where
  base := partBase machine
  words := partWords
  short part := by
    cases part <;> decide
  separate := frames

/-- A store to another part. -/
theorem Frames.load_part (frames : Frames machine) (inside : index < partWords part)
    (insideOther : second < partWords other) (different : part ≠ other) :
    (memory.store (spot machine part index) value).load (spot machine other second) =
      memory.load (spot machine other second) :=
  @Regions.load_store Part frames.regions memory value part other index second inside insideOther
    (.inl different)

/-- A store to another word of a part. -/
theorem Frames.load_index (frames : Frames machine) (inside : index < partWords part)
    (insideOther : second < partWords part) (different : index ≠ second) :
    (memory.store (spot machine part index) value).load (spot machine part second) =
      memory.load (spot machine part second) :=
  @Regions.load_store Part frames.regions memory value part part index second inside insideOther
    (.inr different)

theorem callerBase_spot : callerBase machine = spot machine .callerStack 0 :=
  (BitVec.add_zero _).symm

theorem caller_word (machine : Machine) (number : Nat) : spot machine .callerStack (number + 1) =
    machine.general .esp + BitVec.ofNat 32 (4 * number) := by
  unfold spot partBase callerBase
  bv_omega

theorem savedMemory_spots : savedMemory machine =
    ((((((((machine.memory.store (spot machine .callerStack 0) machine.eflags).store
      (spot machine .source 0) (machine.general .ebx)).store
      (spot machine .source 1) (callerBase machine)).store
      (spot machine .source 2) (machine.general .ebp)).store
      (spot machine .source 3) (machine.general .esi)).store
      (spot machine .source 4) (machine.general .edi)).store
      (spot machine .source 7) (machine.control .cr2)).store
      (spot machine .source 5) 0).store (spot machine .target 5) 0 := by
  rw [← callerBase_spot]
  rfl

/-- The save area of the target keeps all words but `no_preempt`. -/
theorem Frames.saved_target (frames : Frames machine) (index : Nat) (inside : index < partWords .target)
    (other : 5 ≠ index) :
    (savedMemory machine).load (spot machine .target index) =
      machine.memory.load (spot machine .target index) := by
  rw [savedMemory_spots]
  simp (disch := first | assumption | decide) only [frames.load_part, frames.load_index]

theorem Frames.saved_resumed (frames : Frames machine) (inside : index < partWords .resumedStack) :
    (savedMemory machine).load (spot machine .resumedStack index) =
      machine.memory.load (spot machine .resumedStack index) := by
  rw [savedMemory_spots]
  simp (disch := first | assumption | decide) only [frames.load_part]

/-- The save area of the caller. -/
theorem Frames.saved_source (frames : Frames machine) :
    (savedMemory machine).load (spot machine .source 0) = machine.general .ebx ∧
      (savedMemory machine).load (spot machine .source 1) = callerBase machine ∧
      (savedMemory machine).load (spot machine .source 2) = machine.general .ebp ∧
      (savedMemory machine).load (spot machine .source 3) = machine.general .esi ∧
      (savedMemory machine).load (spot machine .source 4) = machine.general .edi ∧
      (savedMemory machine).load (spot machine .source 5) = 0 ∧
      (savedMemory machine).load (spot machine .source 7) = machine.control .cr2 := by
  rw [savedMemory_spots]
  refine ⟨?_, ?_, ?_, ?_, ?_, ?_, ?_⟩
  all_goals
    simp (disch := decide) only [frames.load_part, frames.load_index, Memory.load_store]

/-- The arguments and the return address of the caller. -/
theorem Frames.saved_caller (frames : Frames machine) (inside : index < partWords .callerStack)
    (other : 0 ≠ index) :
    (savedMemory machine).load (spot machine .callerStack index) =
      machine.memory.load (spot machine .callerStack index) := by
  rw [savedMemory_spots]
  simp (disch := first | assumption | decide) only [frames.load_part, frames.load_index]

theorem callHandler_memory (resumed : Machine) (back : Word) :
    (callHandler resumed back).memory =
      ((resumed.memory.store (resumed.general .esp - 4)
        (resumed.memory.load (resumed.general .eax + 20))).store (resumed.general .esp - 4 - 4)
        ((resumed.memory.store (resumed.general .esp - 4)
          (resumed.memory.load (resumed.general .eax + 20))).load (resumed.general .eax + 8))).store
        (resumed.general .esp - 4 - 4 - 4) back := rfl

/-- The stack that `resume` comes to. -/
theorem Frames.resumed_esp (frames : Frames machine) :
    (resume (savedMachine machine)).general .esp = resumedTop machine :=
  frames.saved_target 1 (by decide) (by decide)

/-- What the handler finds: its arguments on the stack of the resumed thread. -/
theorem Frames.called_memory (frames : Frames machine) (back : Word) :
    (callHandler (resume (savedMachine machine)) back).memory =
      (((savedMemory machine).store (spot machine .resumedStack 2) (argument machine 4)).store
        (spot machine .resumedStack 1) (source machine)).store
        (spot machine .resumedStack 0) back := by
  have last : resumedTop machine - 4 = spot machine .resumedStack 2 := by
    unfold spot partBase
    bv_omega
  have middle : resumedTop machine - 4 - 4 = spot machine .resumedStack 1 := by
    unfold spot partBase
    bv_omega
  have first : resumedTop machine - 4 - 4 - 4 = spot machine .resumedStack 0 := by
    unfold spot partBase
    bv_omega
  have fourth : (savedMemory machine).load (callerBase machine + 20) = argument machine 4 := by
    rw [show callerBase machine + 20 = spot machine .callerStack 5 from rfl,
      frames.saved_caller (by decide) (by decide)]
    exact congrArg machine.memory.load (caller_word machine 4)
  have saved : (savedMemory machine).load (callerBase machine + 8) = source machine := by
    rw [show callerBase machine + 8 = spot machine .callerStack 2 from rfl,
      frames.saved_caller (by decide) (by decide)]
    exact congrArg machine.memory.load (caller_word machine 1)
  have memory : (resume (savedMachine machine)).memory = savedMemory machine := rfl
  have eax : (resume (savedMachine machine)).general .eax = callerBase machine := rfl
  rw [callHandler_memory, frames.resumed_esp, first, middle, last, memory, eax, fourth,
    show callerBase machine + 8 = spot machine .callerStack 2 from rfl,
    frames.load_part (by decide) (by decide) (by decide)]
  rw [show callerBase machine + 8 = spot machine .callerStack 2 from rfl] at saved
  rw [saved]

/-- The words of the parts that the arguments of the handler leave. -/
theorem Frames.called_kept (frames : Frames machine) (place : Nat → Word) (part : Part)
    (index : Nat) (inside : index < partWords part)
    (notPushed : part ≠ .resumedStack ∨ 3 ≤ index) :
    (called machine place).memory.load (spot machine part index) =
      (savedMemory machine).load (spot machine part index) := by
  rw [called, frames.called_memory]
  rcases notPushed with other | above
  · simp (disch := first | assumption | exact other.symm | decide) only [frames.load_part]
  · by_cases other : part = .resumedStack
    · subst other
      rw [frames.load_index (by decide) inside (by omega),
        frames.load_index (by decide) inside (by omega),
        frames.load_index (by decide) inside (by omega)]
    · simp (disch := first | assumption | exact Ne.symm other | decide) only [frames.load_part]

end Words

section Switch

variable {machine : Machine} {place : Nat → Word}

/-- The context of the caller is in its save area and on its stack. -/
theorem Frames.caller_context (frames : Frames machine) :
    Context.ofMemory (called machine place).memory (source machine) =
      Context.ofMachine (machine.discard 1) machine.top := by
  have word (index : Nat) (inside : index < partWords .source) :=
    frames.called_kept place .source index inside (.inl (by decide))
  obtain ⟨ebx, esp, ebp, esi, edi, _, cr2⟩ := frames.saved_source
  have top : (called machine place).memory.load (source machine + 4) = callerBase machine :=
    (word 1 (by decide)).trans esp
  apply Context.ext
  case ebx => exact (word 0 (by decide)).trans ebx
  case ebp => exact (word 2 (by decide)).trans ebp
  case esi => exact (word 3 (by decide)).trans esi
  case edi => exact (word 4 (by decide)).trans edi
  case cr2 => exact (word 7 (by decide)).trans cr2
  case esp =>
    change (called machine place).memory.load (source machine + 4) + 8 = machine.general .esp + 4
    rw [top]
    unfold callerBase
    bv_omega
  case eip =>
    change (called machine place).memory.load
      ((called machine place).memory.load (source machine + 4) + 4) = _
    rw [top, show callerBase machine + 4 = spot machine .callerStack 1 from rfl,
      frames.called_kept place .callerStack 1 (by decide) (.inl (by decide)),
      frames.saved_caller (by decide) (by decide), caller_word]
    exact congrArg machine.memory.load (BitVec.add_zero _)
  case eflags =>
    change (called machine place).memory.load
      ((called machine place).memory.load (source machine + 4)) = machine.eflags
    rw [top, callerBase_spot,
      frames.called_kept place .callerStack 0 (by decide) (.inl (by decide)), savedMemory_spots]
    simp (disch := decide) only [frames.load_part, Memory.load_store]

/-- A switch writes to nothing else. -/
theorem Frames.called_others (frames : Frames machine) {byte : Word}
    (saved : Beyond (source machine) 36 byte) (preempt : Beyond (target machine + 20) 4 byte)
    (flags : Beyond (callerBase machine) 4 byte)
    (pushed : Beyond (resumedTop machine - 12) 12 byte) :
    (called machine place).memory byte = machine.memory byte := by
  have area {index : Nat} (inside : index < 9) : Beyond (spot machine .source index) 4 byte :=
    @Beyond.word (source machine) byte 9 index saved inside (by decide)
  have stack {index : Nat} (inside : index < 3) : Beyond (spot machine .resumedStack index) 4 byte :=
    @Beyond.word (resumedTop machine - 12) byte 3 index pushed inside (by decide)
  have word : Beyond (spot machine .target 5) 4 byte := preempt
  rw [callerBase_spot] at flags
  rw [called, frames.called_memory, savedMemory_spots]
  simp (disch := first | assumption | exact area (by decide) | exact stack (by decide)) only
    [Memory.store_beyond]

/-- What the handler is called with, on the stack of the resumed thread. -/
structure Called (place : Nat → Word) (machine called : Machine) : Prop where
  ebx : called.general .ebx = (Context.ofMemory machine.memory (target machine)).ebx
  ebp : called.general .ebp = (Context.ofMemory machine.memory (target machine)).ebp
  esi : called.general .esi = (Context.ofMemory machine.memory (target machine)).esi
  edi : called.general .edi = (Context.ofMemory machine.memory (target machine)).edi
  cr2 : called.control .cr2 = (Context.ofMemory machine.memory (target machine)).cr2
  cr3 : called.control .cr3 = machine.memory.load (target machine + 32)
  esp : called.general .esp = (Context.ofMemory machine.memory (target machine)).esp - 20
  back : called.top = place 27
  area : argument called 1 = source machine
  arg : argument called 2 = argument machine 4
  masked : called.flag .interrupt = false
  preemptible : called.memory.load (source machine + 20) = 0 ∧
    called.memory.load (target machine + 20) = 0

theorem Frames.called (frames : Frames machine) : Called place machine (called machine place) := by
  have word (index : Nat) (inside : index < partWords .target) (other : 5 ≠ index) :=
    frames.saved_target index inside other
  have esp : (Routines.called machine place).general .esp = resumedTop machine - 4 - 4 - 4 :=
    congrArg (· - 4 - 4 - 4) frames.resumed_esp
  have low : resumedTop machine - 4 - 4 - 4 = spot machine .resumedStack 0 := by
    unfold spot partBase
    bv_omega
  have first : resumedTop machine - 4 - 4 - 4 + 4 = spot machine .resumedStack 1 := by
    unfold spot partBase
    bv_omega
  have second : resumedTop machine - 4 - 4 - 4 + 8 = spot machine .resumedStack 2 := by
    unfold spot partBase
    bv_omega
  have pushed (index : Nat) (value : Word) (stored : ((((savedMemory machine).store
      (spot machine .resumedStack 2) (argument machine 4)).store
      (spot machine .resumedStack 1) (source machine)).store
      (spot machine .resumedStack 0) (place 27)).load (spot machine .resumedStack index) = value) :
      (Routines.called machine place).memory.load (spot machine .resumedStack index) = value := by
    rw [Routines.called, frames.called_memory, stored]
  obtain ⟨ebx, ebp, esi, edi, cr2, cr3, eflags⟩ :=
    callHandler_registers (savedMachine machine) (place 27)
  constructor
  case ebx => exact ebx.trans (word 0 (by decide) (by decide))
  case ebp => exact ebp.trans (word 2 (by decide) (by decide))
  case esi => exact esi.trans (word 3 (by decide) (by decide))
  case edi => exact edi.trans (word 4 (by decide) (by decide))
  case cr2 => exact cr2.trans (word 7 (by decide) (by decide))
  case cr3 => exact cr3.trans (word 8 (by decide) (by decide))
  case esp =>
    rw [esp]
    change _ = resumedTop machine + 8 - 20
    bv_omega
  case back =>
    rw [Machine.top, esp, low]
    exact pushed 0 _ (Memory.load_store _ _ _)
  case area =>
    change (Routines.called machine place).memory.load
      ((Routines.called machine place).general .esp + 4) = _
    rw [esp, first]
    apply pushed 1
    simp (disch := decide) only [frames.load_index, Memory.load_store]
  case arg =>
    change (Routines.called machine place).memory.load
      ((Routines.called machine place).general .esp + 8) = _
    rw [esp, second]
    apply pushed 2
    simp (disch := decide) only [frames.load_index, Memory.load_store]
  case masked =>
    rw [flag, Routines.called, eflags]
    exact (getLsbD_setFlag machine.eflags .interrupt .interrupt false).trans (if_pos rfl)
  case preemptible =>
    obtain ⟨_, _, _, _, _, cleared, _⟩ := frames.saved_source
    constructor
    · exact (frames.called_kept place .source 5 (by decide) (.inl (by decide))).trans cleared
    · apply (frames.called_kept place .target 5 (by decide) (.inl (by decide))).trans
      rw [savedMemory_spots]
      exact Memory.load_store _ _ _

/-- A machine that comes back from the handler to resume a context. -/
structure Resuming (context : Context) (machine : Machine) : Prop where
  ebx : machine.general .ebx = context.ebx
  ebp : machine.general .ebp = context.ebp
  esi : machine.general .esi = context.esi
  edi : machine.general .edi = context.edi
  cr2 : machine.control .cr2 = context.cr2
  stack : machine.general .esp = context.esp - 16
  eflags : machine.memory.load (context.esp - 8) = context.eflags
  eip : machine.memory.load (context.esp - 4) = context.eip

/-- The lines behind the call of the handler. -/
theorem Resuming.arrives {context : Context} (resuming : Resuming context machine) :
    ∃ arrived, Reaches contextSwitch place ⟨machine, .line 27⟩ ⟨arrived, .away context.eip⟩ ∧
      Context.ofMachine arrived context.eip = context ∧ arrived.memory = machine.memory ∧
      arrived.control .cr3 = machine.control .cr3 := by
  have ran : Reaches contextSwitch place ⟨machine, .line 27⟩
      ⟨({ (machine.add 8 .esp).discard 1 with eflags := (machine.add 8 .esp).top }).discard 1,
        .away ((machine.add 8 .esp).discard 1).top⟩ := Reaches.of_run 3 rfl
  have esp : machine.general .esp + 8 = context.esp - 8 := by
    rw [resuming.stack]
    bv_omega
  have eip : ((machine.add 8 .esp).discard 1).top = context.eip := by
    change machine.memory.load (machine.general .esp + 8 + 4) = context.eip
    rw [← resuming.eip, esp]
    congr 1
    bv_omega
  rw [eip] at ran
  refine ⟨_, ran, ?_, rfl, rfl⟩
  apply Context.ext
  case ebx => exact resuming.ebx
  case ebp => exact resuming.ebp
  case esi => exact resuming.esi
  case edi => exact resuming.edi
  case cr2 => exact resuming.cr2
  case eip => rfl
  case esp =>
    change machine.general .esp + 8 + 4 + 4 = context.esp
    rw [esp]
    bv_omega
  case eflags =>
    change machine.memory.load (machine.general .esp + 8) = context.eflags
    rw [esp]
    exact resuming.eflags

end Switch

end AC97Kernel.Routines
