/-
Where threads live.

A thread has a save area and a stack.  What a switch leaves of it there is all that it needs
to go on, and a switch between two threads keeps off what a third one has.
-/

import AC97Kernel.Machine.Switching

set_option autoImplicit false

namespace AC97Kernel.Routines

open I386 Machine

structure Range where
  start : Word
  bytes : Nat

namespace Range

def Contains (range : Range) (place : Word) : Prop := ¬ Beyond range.start range.bytes place

def Apart (first second : Range) : Prop :=
  ∀ place, first.Contains place → ¬ second.Contains place

/-- `count` bytes of the range, from an address in it on. -/
def Fits (range : Range) (low : Word) (count : Nat) : Prop :=
  (low - range.start).toNat + count ≤ range.bytes

/-- From an address in the range to its end. -/
def From (range : Range) (low place : Word) : Prop :=
  range.Contains place ∧ (low - range.start).toNat ≤ (place - range.start).toNat

variable {range other : Range} {low high place : Word} {count more : Nat}

theorem Apart.symm (apart : range.Apart other) : other.Apart range :=
  fun place second first => apart place first second

theorem Fits.contains (fits : range.Fits low count) (near : ¬ Beyond low count place) :
    range.Contains place := by
  unfold Fits Contains Beyond at *
  bv_omega

theorem Fits.apart (fits : range.Fits low count) (others : other.Fits high more)
    (apart : range.Apart other) (place : Word) : Beyond low count place ∨ Beyond high more place := by
  by_contra near
  rw [not_or] at near
  exact apart place (fits.contains near.1) (others.contains near.2)

/-- What a range contains keeps off the other. -/
theorem Fits.beyond (fits : range.Fits low count) (apart : range.Apart other)
    (contains : other.Contains place) : Beyond low count place := by
  by_contra near
  exact apart place (fits.contains near) contains

/-- What is right below an address is not from it on. -/
theorem Fits.below {below : Nat} (fits : range.Fits (low - BitVec.ofNat 32 below) below)
    (short : range.bytes < 2 ^ 32) (above : range.From low place) :
    Beyond (low - BitVec.ofNat 32 below) below place := by
  unfold Fits From Contains Beyond at *
  bv_omega

end Range

/-- Where a thread keeps its registers and its stack. -/
structure Home where
  area : Word
  stack : Range

namespace Home

def saveArea (home : Home) : Range := ⟨home.area, 36⟩

def Proper (home : Home) : Prop := home.saveArea.Apart home.stack ∧ home.stack.bytes < 2 ^ 32

structure Apart (first second : Home) : Prop where
  areaArea : first.saveArea.Apart second.saveArea
  areaStack : first.saveArea.Apart second.stack
  stackArea : first.stack.Apart second.saveArea
  stackStack : first.stack.Apart second.stack

theorem Apart.symm {first second : Home} (apart : first.Apart second) : second.Apart first :=
  ⟨apart.areaArea.symm, apart.stackArea.symm, apart.areaStack.symm, apart.stackStack.symm⟩

/-- The save area without `no_preempt`, which the core that resumes a thread writes. -/
def Keeps (home : Home) (place : Word) : Prop :=
  home.saveArea.Contains place ∧ Beyond (home.area + 20) 4 place

/-- Room for the flags, the return address and what the next switch pushes. -/
def Room (home : Home) (context : Context) : Prop := home.stack.Fits (context.esp - 20) 20

end Home

/-- What a thread has left: its context, its directory, and memory as it was. -/
structure Suspension where
  context : Context
  directory : Word
  memory : Memory

section Suspensions

variable {home : Home} {suspension : Suspension} {memory later : Memory} {machine : Machine}

/-- The stack of a thread is as the thread left it, with the flags and the return address. -/
structure Stacked (home : Home) (suspension : Suspension) (memory : Memory) : Prop where
  room : home.Room suspension.context
  eflags : memory.load (suspension.context.esp - 8) = suspension.context.eflags
  eip : memory.load (suspension.context.esp - 4) = suspension.context.eip
  same : ∀ place, home.stack.From suspension.context.esp place →
    memory place = suspension.memory place

/-- Nothing of a thread is lost while it waits. -/
structure Waiting (home : Home) (suspension : Suspension) (memory : Memory) : Prop where
  room : home.Room suspension.context
  context : Context.ofMemory memory home.area = suspension.context
  directory : memory.load (home.area + 32) = suspension.directory
  same : ∀ place, home.stack.From suspension.context.esp place →
    memory place = suspension.memory place

/-- The handler is called with the registers of the thread that it runs before. -/
structure Resumes (suspension : Suspension) (called : Machine) : Prop where
  ebx : called.general .ebx = suspension.context.ebx
  ebp : called.general .ebp = suspension.context.ebp
  esi : called.general .esi = suspension.context.esi
  edi : called.general .edi = suspension.context.edi
  esp : called.general .esp = suspension.context.esp - 20
  cr2 : called.control .cr2 = suspension.context.cr2
  cr3 : called.control .cr3 = suspension.directory

theorem Waiting.top (waiting : Waiting home suspension memory) :
    memory.load (home.area + 4) = suspension.context.esp - 8 := by
  rw [← waiting.context]
  change _ = memory.load (home.area + 4) + 8 - 8
  bv_omega

theorem Waiting.stacked (waiting : Waiting home suspension memory) :
    Stacked home suspension memory where
  room := waiting.room
  eflags := by
    rw [← waiting.top]
    exact congrArg Context.eflags waiting.context
  eip := by
    have next : suspension.context.esp - 4 = suspension.context.esp - 8 + 4 := by bv_omega
    rw [next, ← waiting.top]
    exact congrArg Context.eip waiting.context
  same := waiting.same

theorem Home.Room.above (room : home.Room suspension.context) {place : Word}
    (above : home.stack.From suspension.context.esp place)
    (short : home.stack.bytes < 2 ^ 32) :
    home.stack.From (suspension.context.esp - 8) place := by
  unfold Home.Room Range.Fits at room
  unfold Range.From Range.Contains Beyond at *
  bv_omega

/-- The flags and the return address. -/
theorem Home.Room.ends (room : home.Room suspension.context)
    (short : home.stack.bytes < 2 ^ 32) {index : Nat} (small : index < 8) :
    home.stack.From (suspension.context.esp - 8) (suspension.context.esp - 8 + BitVec.ofNat 32 index)
      := by
  unfold Home.Room Range.Fits at room
  unfold Range.From Range.Contains Beyond
  bv_omega

/-- A change that keeps off what a thread has on its stack. -/
theorem Stacked.frame (stacked : Stacked home suspension memory)
    (short : home.stack.bytes < 2 ^ 32)
    (frame : ∀ place, home.stack.From (suspension.context.esp - 8) place →
      later place = memory place) : Stacked home suspension later where
  room := stacked.room
  eflags := by
    rw [← stacked.eflags]
    exact Memory.load_congr fun index small => frame _ (stacked.room.ends short (by omega))
  eip := by
    rw [← stacked.eip]
    apply Memory.load_congr
    intro index small
    have next : suspension.context.esp - 4 + BitVec.ofNat 32 index =
        suspension.context.esp - 8 + BitVec.ofNat 32 (index + 4) := by bv_omega
    rw [next]
    exact frame _ (stacked.room.ends short (by omega))
  same place above := (frame place (stacked.room.above above short)).trans (stacked.same place above)

/-- The words of a save area but `no_preempt`. -/
theorem Home.keeps_word {index offset : Nat} (small : index < 4) (inside : offset + 4 ≤ 36)
    (other : offset + 4 ≤ 20 ∨ 24 ≤ offset) :
    home.Keeps (home.area + BitVec.ofNat 32 offset + BitVec.ofNat 32 index) := by
  unfold Home.Keeps Home.saveArea Range.Contains Beyond
  simp only
  constructor
  all_goals
    bv_omega

theorem Waiting.frame (waiting : Waiting home suspension memory)
    (short : home.stack.bytes < 2 ^ 32)
    (area : ∀ place, home.Keeps place → later place = memory place)
    (stack : ∀ place, home.stack.From (suspension.context.esp - 8) place →
      later place = memory place) : Waiting home suspension later := by
  have word (offset : Nat) (inside : offset + 4 ≤ 36) (other : offset + 4 ≤ 20 ∨ 24 ≤ offset) :
      later.load (home.area + BitVec.ofNat 32 offset) =
        memory.load (home.area + BitVec.ofNat 32 offset) :=
    Memory.load_congr fun index small => area _ (Home.keeps_word small inside other)
  have top : later.load (home.area + 4) = suspension.context.esp - 8 :=
    (word 4 (by decide) (by decide)).trans waiting.top
  have framed := waiting.stacked.frame short stack
  refine ⟨waiting.room, ?_, (word 32 (by decide) (by decide)).trans waiting.directory, framed.same⟩
  have before := waiting.context
  apply Context.ext
  case ebx => exact (word 0 (by decide) (by decide)).trans (congrArg Context.ebx before)
  case ebp => exact (word 8 (by decide) (by decide)).trans (congrArg Context.ebp before)
  case esi => exact (word 12 (by decide) (by decide)).trans (congrArg Context.esi before)
  case edi => exact (word 16 (by decide) (by decide)).trans (congrArg Context.edi before)
  case cr2 => exact (word 28 (by decide) (by decide)).trans (congrArg Context.cr2 before)
  case esp =>
    change later.load (home.area + 4) + 8 = _
    rw [top]
    bv_omega
  case eip =>
    change later.load (later.load (home.area + 4) + 4) = _
    rw [top, ← framed.eip]
    congr 1
    bv_omega
  case eflags =>
    change later.load (later.load (home.area + 4)) = _
    rw [top, framed.eflags]

end Suspensions

/-! ### New threads -/

def STACK_BYTES : Nat := 8 * 1024

def STACK_WORDS : Nat := STACK_BYTES / 4

/-- `stack[index]`. -/
def stackWord (stack : Word) (index : Nat) : Word := stack + BitVec.ofNat 32 (4 * index)

/-- What the constructors `TCB::TCB` and `TCBWithStack::TCBWithStack` store, with `entry` as
the place where the thread begins. -/
def tcbWithStack (memory : Memory) (saveArea stack tcb pd entry : Word) : Memory :=
  (((((memory.store (saveArea + 24) tcb).store (saveArea + 32) pd).store
    (stackWord stack (STACK_WORDS - 2)) 0x200).store (stackWord stack (STACK_WORDS - 1)) entry).store
    (saveArea + 20) 0).store (saveArea + 4) (stackWord stack (STACK_WORDS - 2))

section NewThreads

variable {memory : Memory} {saveArea stack value : Word} {offset other : Nat}

/-- A word of the save area and one of the stack. -/
theorem Home.Proper.apart (proper : (Home.mk saveArea ⟨stack, STACK_BYTES⟩).Proper)
    (inside : offset + 4 ≤ 36) {index : Nat} (small : index < STACK_WORDS) :
    I386.Apart (saveArea + BitVec.ofNat 32 offset) (stackWord stack index) := by
  have area : (⟨saveArea, 36⟩ : Range).Fits (saveArea + BitVec.ofNat 32 offset) 4 := by
    unfold Range.Fits
    simp only
    bv_omega
  have words : index < 2048 := small
  have ends : (⟨stack, STACK_BYTES⟩ : Range).Fits (stackWord stack index) 4 := by
    unfold Range.Fits stackWord STACK_BYTES
    simp only
    bv_omega
  have self (place : Word) : ¬ Beyond place 4 place := by
    unfold Beyond
    rw [BitVec.sub_self]
    decide
  have apart := area.apart ends proper.1
  exact ⟨(apart _).resolve_right (self _), (apart _).resolve_left (self _)⟩

theorem area_words_apart (first : offset + 4 ≤ 36) (second : other + 4 ≤ 36)
    (different : offset + 4 ≤ other ∨ other + 4 ≤ offset) :
    I386.Apart (saveArea + BitVec.ofNat 32 offset) (saveArea + BitVec.ofNat 32 other) := by
  unfold I386.Apart Beyond
  constructor
  all_goals
    bv_omega

/-- A new thread waits to begin at `entry` with interrupts on and an empty stack. -/
theorem tcbWithStack_waiting {tcb pd entry : Word}
    (proper : (Home.mk saveArea ⟨stack, STACK_BYTES⟩).Proper) :
    let created := tcbWithStack memory saveArea stack tcb pd entry
    let context := Context.ofMemory created saveArea
    Waiting ⟨saveArea, stack, STACK_BYTES⟩ ⟨context, pd, created⟩ created ∧
      context.eip = entry ∧ context.eflags = 0x200 ∧
      context.esp = stack + BitVec.ofNat 32 STACK_BYTES := by
  intro created context
  have low : STACK_WORDS - 2 < STACK_WORDS := by decide
  have high : STACK_WORDS - 1 < STACK_WORDS := by decide
  have esps {index : Nat} (small : index < STACK_WORDS) :
      I386.Apart (saveArea + 4) (stackWord stack index) :=
    @Home.Proper.apart saveArea stack 4 proper (by decide) _ small
  have preempts {index : Nat} (small : index < STACK_WORDS) :
      I386.Apart (saveArea + 20) (stackWord stack index) :=
    @Home.Proper.apart saveArea stack 20 proper (by decide) _ small
  have directories {index : Nat} (small : index < STACK_WORDS) :
      I386.Apart (stackWord stack index) (saveArea + 32) :=
    (@Home.Proper.apart saveArea stack 32 proper (by decide) _ small).symm
  have area {offset other : Nat} (first : offset + 4 ≤ 36) (second : other + 4 ≤ 36)
      (different : offset + 4 ≤ other ∨ other + 4 ≤ offset) :=
    @area_words_apart saveArea offset other first second different
  have espDirectory : I386.Apart (saveArea + 4) (saveArea + 32) :=
    @area _ _ (by decide) (by decide) (by decide)
  have preemptDirectory : I386.Apart (saveArea + 20) (saveArea + 32) :=
    @area _ _ (by decide) (by decide) (by decide)
  have top : created.load (saveArea + 4) = stackWord stack (STACK_WORDS - 2) :=
    Memory.load_store _ _ _
  have behind : stackWord stack (STACK_WORDS - 2) + 4 = stackWord stack (STACK_WORDS - 1) := by
    unfold stackWord
    rw [BitVec.add_assoc]
    rfl
  have stackApart : I386.Apart (stackWord stack (STACK_WORDS - 1))
      (stackWord stack (STACK_WORDS - 2)) := by
    unfold I386.Apart Beyond stackWord
    rw [show 4 * (STACK_WORDS - 1) = 8188 from rfl, show 4 * (STACK_WORDS - 2) = 8184 from rfl]
    constructor
    all_goals
      bv_omega
  have eflags : created.load (stackWord stack (STACK_WORDS - 2)) = 0x200 := by
    change (tcbWithStack memory saveArea stack tcb pd entry).load _ = _
    unfold tcbWithStack
    rw [Memory.load_store_apart (esps low), Memory.load_store_apart (preempts low),
      Memory.load_store_apart stackApart, Memory.load_store]
  have eip : created.load (stackWord stack (STACK_WORDS - 1)) = entry := by
    change (tcbWithStack memory saveArea stack tcb pd entry).load _ = _
    unfold tcbWithStack
    rw [Memory.load_store_apart (esps high), Memory.load_store_apart (preempts high),
      Memory.load_store]
  have directory : created.load (saveArea + 32) = pd := by
    change (tcbWithStack memory saveArea stack tcb pd entry).load _ = _
    unfold tcbWithStack
    rw [Memory.load_store_apart espDirectory, Memory.load_store_apart preemptDirectory,
      Memory.load_store_apart (directories high), Memory.load_store_apart (directories low),
      Memory.load_store]
  have esp : context.esp = stack + BitVec.ofNat 32 STACK_BYTES := by
    change created.load (saveArea + 4) + 8 = _
    rw [top, stackWord, BitVec.add_assoc]
    rfl
  refine ⟨⟨?_, rfl, directory, fun _ _ => rfl⟩, ?_, ?_, esp⟩
  · change (⟨stack, STACK_BYTES⟩ : Range).Fits (context.esp - 20) 20
    rw [esp]
    unfold Range.Fits STACK_BYTES
    simp only
    bv_omega
  · change created.load (created.load (saveArea + 4) + 4) = entry
    rw [top, behind, eip]
  · change created.load (created.load (saveArea + 4)) = 0x200
    rw [top, eflags]

end NewThreads

/-! ### A switch between two homes -/

/-- A thread at `mine` gives its core to the one at `other`. -/
structure Switches (mine other : Home) (suspension : Suspension) (machine : Machine) : Prop where
  source : source machine = mine.area
  target : target machine = other.area
  room : mine.stack.Fits (machine.general .esp - 16) 36
  waiting : Waiting other suspension machine.memory
  mineProper : mine.Proper
  otherProper : other.Proper
  apart : mine.Apart other

/-- What the caller of a switch leaves. -/
def Home.suspend (home : Home) (machine : Machine) : Suspension where
  context := Context.ofMachine (machine.discard 1) machine.top
  directory := machine.memory.load (home.area + 32)
  memory := machine.memory

namespace Switches

variable {mine other third : Home} {suspension : Suspension} {machine : Machine}
  {place : Nat → Word}

def range (mine other : Home) : Part → Range
  | .source => mine.saveArea
  | .target => other.saveArea
  | .callerStack => mine.stack
  | .resumedStack => other.stack

theorem top (switches : Switches mine other suspension machine) :
    resumedTop machine = suspension.context.esp - 8 := by
  rw [resumedTop, switches.target]
  exact switches.waiting.top

theorem fits (switches : Switches mine other suspension machine) (part : Part) :
    (range mine other part).Fits (partBase machine part) (4 * partWords part) := by
  have whole (home : Home) : home.saveArea.Fits home.area 36 := by
    unfold Home.saveArea Range.Fits
    simp only [BitVec.sub_self]
    decide
  cases part with
  | source =>
      change mine.saveArea.Fits (Routines.source machine) 36
      rw [switches.source]
      exact whole mine
  | target =>
      change other.saveArea.Fits (Routines.target machine) 36
      rw [switches.target]
      exact whole other
  | callerStack =>
      have room := switches.room
      unfold Range.Fits at *
      change (machine.general .esp - 4 - mine.stack.start).toNat + 24 ≤ mine.stack.bytes
      have short := switches.mineProper.2
      bv_omega
  | resumedStack =>
      change other.stack.Fits (resumedTop machine - 12) 20
      rw [switches.top, show suspension.context.esp - 8 - 12 = suspension.context.esp - 20 by bv_omega]
      exact switches.waiting.room

theorem frames (switches : Switches mine other suspension machine) : Frames machine := by
  have apart : ∀ first second : Part, first ≠ second →
      (range mine other first).Apart (range mine other second) := by
    have across := switches.apart
    have back := across.symm
    have inMine := switches.mineProper.1
    have inOther := switches.otherProper.1
    rintro (_ | _ | _ | _) (_ | _ | _ | _) different
    all_goals first
      | exact absurd rfl different
      | exact across.areaArea
      | exact across.areaStack
      | exact across.stackArea
      | exact across.stackStack
      | exact back.areaArea
      | exact back.areaStack
      | exact back.stackArea
      | exact back.stackStack
      | exact inMine
      | exact inMine.symm
      | exact inOther
      | exact inOther.symm
  exact fun first second different =>
    (switches.fits first).apart (switches.fits second) (apart first second different)

/-- A switch writes to nothing else. -/
theorem others (switches : Switches mine other suspension machine) {byte : Word}
    (area : ¬ mine.saveArea.Contains byte) (preempt : Beyond (other.area + 20) 4 byte)
    (flags : Beyond (machine.general .esp - 4) 4 byte)
    (pushed : Beyond (suspension.context.esp - 20) 12 byte) :
    (called machine place).memory byte = machine.memory byte := by
  apply switches.frames.called_others
  · rw [switches.source]
    exact not_not.mp area
  · rw [switches.target]
    exact preempt
  · exact flags
  · rw [switches.top, show suspension.context.esp - 8 - 12 = suspension.context.esp - 20 by bv_omega]
    exact pushed

theorem preempt_beyond {byte : Word} (keeps : ¬ other.saveArea.Contains byte) :
    Beyond (other.area + 20) 4 byte := by
  unfold Home.saveArea Range.Contains at keeps
  rw [not_not] at keeps
  unfold Beyond at *
  bv_omega

theorem flags_beyond (switches : Switches mine other suspension machine) {byte : Word}
    (outside : ¬ mine.stack.Contains byte) : Beyond (machine.general .esp - 4) 4 byte := by
  have whole := switches.fits .callerStack
  by_contra near
  apply outside
  refine whole.contains fun beyond => near ?_
  exact Nat.le_trans (by decide) beyond

theorem pushed_beyond (switches : Switches mine other suspension machine) {byte : Word}
    (outside : ¬ other.stack.Contains byte) : Beyond (suspension.context.esp - 20) 12 byte := by
  have whole := switches.waiting.room
  by_contra near
  apply outside
  refine whole.contains fun beyond => near ?_
  exact Nat.le_trans (by decide) beyond

/-- A third thread finds all that is its own. -/
theorem bystander (switches : Switches mine other suspension machine) (one : third.Apart mine)
    (two : third.Apart other) {byte : Word}
    (own : third.saveArea.Contains byte ∨ third.stack.Contains byte) :
    (called machine place).memory byte = machine.memory byte := by
  rcases own with area | stack
  · exact switches.others (one.areaArea byte area) (preempt_beyond (two.areaArea byte area))
      (switches.flags_beyond (one.areaStack byte area))
      (switches.pushed_beyond (two.areaStack byte area))
  · exact switches.others (one.stackArea byte stack) (preempt_beyond (two.stackArea byte stack))
      (switches.flags_beyond (one.stackStack byte stack))
      (switches.pushed_beyond (two.stackStack byte stack))

/-- The caller has left all that it needs to go on. -/
theorem leaves (switches : Switches mine other suspension machine) :
    Waiting mine (mine.suspend machine) (called machine place).memory where
  room := by
    have room := switches.room
    unfold Home.Room Range.Fits at *
    change (machine.general .esp + 4 - 20 - mine.stack.start).toNat + 20 ≤ mine.stack.bytes
    bv_omega
  context := by
    rw [← switches.source]
    exact switches.frames.caller_context
  directory := by
    rw [← switches.source]
    have kept := switches.frames.called_kept place .source 8 (by decide) (.inl (by decide))
    apply kept.trans
    rw [savedMemory_spots]
    simp (disch := decide) only [switches.frames.load_part, switches.frames.load_index]
    exact congrArg (fun area => machine.memory.load (area + 32)) switches.source
  same place above := by
    have contains := above.1
    apply switches.others (switches.mineProper.1.symm place contains)
      (preempt_beyond (switches.apart.stackArea place contains)) ?_
      (switches.pushed_beyond (switches.apart.stackStack place contains))
    have room := switches.room
    have short := switches.mineProper.2
    have from_ : mine.stack.From (machine.general .esp + 4) place := above
    unfold Range.Fits at room
    unfold Range.From Range.Contains Beyond at *
    bv_omega

/-- The handler runs with the registers of the thread that is resumed, below its stack. -/
theorem resumes (switches : Switches mine other suspension machine) :
    Stacked other suspension (called machine place).memory ∧
      Resumes suspension (called machine place) := by
  have found : Called place machine (called machine place) := switches.frames.called
  have context : Context.ofMemory machine.memory (Routines.target machine) =
      suspension.context := by
    rw [switches.target]
    exact switches.waiting.context
  have directory : machine.memory.load (Routines.target machine + 32) = suspension.directory := by
    rw [switches.target]
    exact switches.waiting.directory
  constructor
  · apply switches.waiting.stacked.frame switches.otherProper.2
    intro place above
    have contains := above.1
    apply switches.others (switches.apart.symm.stackArea place contains)
      (preempt_beyond (switches.otherProper.1.symm place contains))
      (switches.flags_beyond (switches.apart.symm.stackStack place contains))
    have room := switches.waiting.room
    have short := switches.otherProper.2
    unfold Home.Room Range.Fits at room
    unfold Range.From Range.Contains Beyond at *
    bv_omega
  · exact ⟨context ▸ found.ebx, context ▸ found.ebp, context ▸ found.esi, context ▸ found.edi,
      context ▸ found.esp, context ▸ found.cr2, found.cr3.trans directory⟩

end Switches

end AC97Kernel.Routines
