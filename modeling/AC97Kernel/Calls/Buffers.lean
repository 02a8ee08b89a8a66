/-
The system calls that are given a buffer: write, wait and read of kernel/sys.cc,
with what kernel/process.cc and kernel/u8250.h do for them.

A handler looks at the first address of the buffer only.  So it keeps to user
memory exactly when the bytes that it moves fit between that address and the
next page that is not the user's.
-/

import AC97Kernel.Calls.UserMemory
import AC97Kernel.Library.LittleEndian
import AC97Kernel.Storage.OpenFile

set_option autoImplicit false

namespace AC97Kernel

open PhysMem VMM Slices LittleEndian

inductive File where
  | u8250
  | openFile (file : OpenFileStruct)

namespace Process

def fileKind : Nat := 0x00000000

def childKind : Nat := 0x10000000

def indexMask : Nat := 0x0FFFFFFF

/-- The index that a handle of one kind stands for, where the source returns -1
for every other handle. -/
def handleIndex (kind id : Nat) : Option (Fin 10) :=
  if id &&& 0xF0000000 ≠ kind then none
  else if inside : id &&& indexMask < 10 then some ⟨id &&& indexMask, inside⟩
  else none

def getFileIndex (id : Nat) : Option (Fin 10) := handleIndex fileKind id

def getChildIndex (id : Nat) : Option (Fin 10) := handleIndex childKind id

variable {File Semaphore Output : Type}

/-- A file handle is its own index, for the kind of files is zero. -/
def getFile (process : Process File Semaphore Output) (fd : Nat) : Option File :=
  (getFileIndex fd).bind process.files

end Process

section Handlers

variable {Semaphore Output : Type}

/-- The process that makes the call.  Its table refers to files by number, for
several handles and several processes may have the same file open. -/
structure Caller (Semaphore Output : Type) where
  objects : Nat → File
  process : Process Nat Semaphore Output

/-- What a system call leaves behind; `accesses` are those through the pointer. -/
structure Reply (Semaphore Output : Type) where
  accesses : List Access
  outcome : Outcome
  caller : Caller Semaphore Output

namespace Caller

def file (caller : Caller Semaphore Output) (fd : Nat) : Option (Nat × File) :=
  (caller.process.getFile fd).map fun reference => (reference, caller.objects reference)

def child (caller : Caller Semaphore Output) (id : Nat) : Option (Fin 10 × Output) :=
  (Process.getChildIndex id).bind fun index =>
    (caller.process.children index).map fun output => (index, output)

def answer (caller : Caller Semaphore Output) (result : Int) : Reply Semaphore Output :=
  { accesses := [], outcome := .returned result, caller := caller }

end Caller

/-- The check that the handlers make on a pointer. -/
def refuses (config : Config) (pointer : Nat) : Bool :=
  pointer < 0x80000000 || pointer = config.ioAPIC || pointer = config.localAPIC

def sysWrite (config : Config) (caller : Caller Semaphore Output) (fd buf nbyte : Nat) :
    Reply Semaphore Output :=
  if refuses config buf then caller.answer (-1)
  else
    match caller.file fd with
    | none => caller.answer (-1)
    | some (_, .openFile _) => caller.answer (-1)
    | some (_, .u8250) =>
        if nbyte = 0 then caller.answer 0
        else { caller.answer 1 with accesses := [.load buf] }

/-- `get` is what the future of a child delivers, once the child has exited. -/
def sysWait (config : Config) (get : Output → Nat) (caller : Caller Semaphore Output)
    (id ptr : Nat) : Reply Semaphore Output :=
  if ptr = 0 || refuses config ptr then caller.answer (-1)
  else
    match caller.child id with
    | none => caller.answer (-1)
    | some (index, output) =>
        { accesses := storesAt ptr (encode 4 (get output))
          outcome := .returned 0
          caller :=
            { caller with
              process :=
                { caller.process with
                  children := Function.update caller.process.children index none } } }

def sysRead (config : Config) (caller : Caller Semaphore Output) (fd buf nbytes : Nat) :
    Reply Semaphore Output :=
  if refuses config buf then caller.answer (-1)
  else
    match caller.file fd with
    | none => caller.answer (-1)
    | some (_, .u8250) => caller.answer (-1)
    | some (reference, .openFile file) =>
        let (transfer, file) := file.read nbytes
        { accesses := storesAt buf transfer.bytes
          outcome := transfer.outcome
          caller :=
            { caller with
              objects := Function.update caller.objects reference (.openFile file) } }

inductive BufferCall where
  | write (fd buf nbyte : Nat)
  | wait (id ptr : Nat)
  | read (fd buf nbytes : Nat)

namespace BufferCall

def pointer : BufferCall → Nat
  | .write _ buf _ => buf
  | .wait _ ptr => ptr
  | .read _ buf _ => buf

/-- How many bytes the call moves through its pointer, once past the check. -/
def moves (caller : Caller Semaphore Output) : BufferCall → Nat
  | .write fd _ nbyte =>
      match caller.file fd with
      | some (_, .u8250) => min nbyte 1
      | _ => 0
  | .wait id _ => if (caller.child id).isSome then 4 else 0
  | .read fd _ nbytes =>
      match caller.file fd with
      | some (_, .openFile file) => min nbytes (file.node.sizeInBytes - file.myOffset)
      | _ => 0

end BufferCall

def sysHandler (config : Config) (get : Output → Nat) (caller : Caller Semaphore Output) :
    BufferCall → Reply Semaphore Output
  | .write fd buf nbyte => sysWrite config caller fd buf nbyte
  | .wait id ptr => sysWait config get caller id ptr
  | .read fd buf nbytes => sysRead config caller fd buf nbytes

/-- Every open file has fixed contents. -/
def Caller.Readable (caller : Caller Semaphore Output) : Prop :=
  ∀ reference file, caller.objects reference = .openFile file →
    ∃ content, file.node.Serves content

variable {config : Config} {get : Output → Nat} {caller : Caller Semaphore Output}
  {call : BufferCall}

theorem sysHandler_refused (refused : refuses config call.pointer = true) :
    (sysHandler config get caller call).accesses = [] := by
  cases call with
  | write fd buf nbyte =>
      have check : refuses config buf = true := refused
      simp [sysHandler, sysWrite, check, Caller.answer]
  | wait id ptr =>
      have check : refuses config ptr = true := refused
      simp [sysHandler, sysWait, check, Caller.answer]
  | read fd buf nbytes =>
      have check : refuses config buf = true := refused
      simp [sysHandler, sysRead, check, Caller.answer]

theorem accepted_high (accepted : refuses config call.pointer = false) :
    0x80000000 ≤ call.pointer := by
  unfold refuses at accepted
  simp at accepted
  omega

/-- The accesses are a run from the pointer on. -/
theorem sysHandler_runs (config : Config) (get : Output → Nat) (caller : Caller Semaphore Output)
    (word : call.pointer < 2 ^ 32) :
    RunsFrom call.pointer (sysHandler config get caller call).accesses := by
  cases call with
  | write fd buf nbyte =>
      simp only [sysHandler, sysWrite, Caller.answer, BufferCall.pointer]
      split
      · exact RunsFrom.none
      · split
        · exact RunsFrom.none
        · exact RunsFrom.none
        · split
          · exact RunsFrom.none
          · exact RunsFrom.load word
  | wait id ptr =>
      simp only [sysHandler, sysWait, Caller.answer, BufferCall.pointer]
      split
      · exact RunsFrom.none
      · split
        · exact RunsFrom.none
        · exact runsFrom_storesAt _ _
  | read fd buf nbytes =>
      simp only [sysHandler, sysRead, Caller.answer, BufferCall.pointer]
      split
      · exact RunsFrom.none
      · split
        · exact RunsFrom.none
        · exact RunsFrom.none
        · exact runsFrom_storesAt _ _

theorem sysHandler_moves_le :
    (sysHandler config get caller call).accesses.length ≤ call.moves caller := by
  cases call with
  | write fd buf nbyte =>
      simp only [sysHandler, sysWrite, Caller.answer, BufferCall.moves]
      split
      · exact Nat.zero_le _
      · split
        · exact Nat.zero_le _
        · exact Nat.zero_le _
        · rename_i found
          rw [found]
          split
          · exact Nat.zero_le _
          · simp only [List.length_singleton]
            omega
  | wait id ptr =>
      simp only [sysHandler, sysWait, Caller.answer, BufferCall.moves]
      split
      · exact Nat.zero_le _
      · split
        · exact Nat.zero_le _
        · rename_i found
          simp [found]
  | read fd buf nbytes =>
      simp only [sysHandler, sysRead, Caller.answer, BufferCall.moves]
      split
      · exact Nat.zero_le _
      · split
        · exact Nat.zero_le _
        · exact Nat.zero_le _
        · rename_i found
          rw [length_storesAt, found]
          exact OpenFileStruct.read_length

/-- With fixed contents the bytes that are there are all moved. -/
theorem sysHandler_moves (readable : caller.Readable)
    (accepted : refuses config call.pointer = false) :
    (sysHandler config get caller call).accesses.length = call.moves caller := by
  have high := accepted_high accepted
  cases call with
  | write fd buf nbyte =>
      have check : refuses config buf = false := accepted
      simp only [sysHandler, sysWrite, Caller.answer, BufferCall.moves, check]
      rcases caller.file fd with nothing | ⟨reference, file⟩
      · rfl
      · cases file with
        | openFile file => rfl
        | u8250 =>
            by_cases empty : nbyte = 0
            · simp [empty]
            · simp only [Bool.false_eq_true, if_false, empty, List.length_singleton]
              omega
  | wait id ptr =>
      have check : refuses config ptr = false := accepted
      have real : ptr ≠ 0 := by
        have atPtr : 0x80000000 ≤ ptr := high
        omega
      simp only [sysHandler, sysWait, Caller.answer, BufferCall.moves, check]
      rcases caller.child id with nothing | ⟨index, output⟩ <;> simp [real]
  | read fd buf nbytes =>
      have check : refuses config buf = false := accepted
      simp only [sysHandler, sysRead, Caller.answer, BufferCall.moves, check]
      cases found : caller.file fd with
      | none => rfl
      | some pair =>
          obtain ⟨reference, file⟩ := pair
          cases file with
          | u8250 => rfl
          | openFile file =>
              obtain ⟨held, _, same⟩ := Option.map_eq_some_iff.mp found
              obtain ⟨content, serves⟩ := readable held file (congrArg Prod.snd same)
              simp only [Bool.false_eq_true, if_false, length_storesAt]
              exact OpenFileStruct.read_length_serves serves

/-- The kernel keeps to user memory in a call that it refuses, and in one whose
bytes fit before the next page that is not the user's.  For files with fixed
contents these are all the calls in which it does. -/
theorem system_call_buffers (word : call.pointer < 2 ^ 32) :
    (refuses config call.pointer = true ∨ call.moves caller ≤ room config call.pointer →
      Confined config call.pointer (sysHandler config get caller call).accesses) ∧
    (caller.Readable →
      Confined config call.pointer (sysHandler config get caller call).accesses →
        refuses config call.pointer = true ∨ call.moves caller ≤ room config call.pointer) := by
  have runs := sysHandler_runs config get caller word
  cases check : refuses config call.pointer with
  | true =>
      constructor
      · intro _
        rw [sysHandler_refused check]
        exact Confined.none word
      · intro _ _
        exact Or.inl rfl
  | false =>
      have exact := runs.confined_iff config (accepted_high check) word
      constructor
      · intro fits
        have short : call.moves caller ≤ room config call.pointer := by simpa using fits
        rw [exact]
        exact Nat.le_trans sysHandler_moves_le short
      · intro readable confined
        rw [exact, sysHandler_moves readable check] at confined
        exact Or.inr confined

end Handlers

/-! ### A file of five bytes -/

def fiveBytes : BlockIO :=
  .ofBytes 512 [1, 2, 3, 4, 5] BlockIO.sector_positive BlockIO.sector_short (by decide)

/-- Handle 0 is the file, handle 1 the terminal, and the first child has exited
with status 7. -/
def sampleCaller : Caller Unit Nat :=
  { objects := fun reference =>
      if reference = 0 then .openFile (.make fiveBytes) else .u8250
    process :=
      { files := fun index => if index.val < 2 then some index.val else none
        sems := fun _ => none
        children := fun index => if index.val = 0 then some 7 else none
        output := 0
        pd := 0x603000 } }

theorem system_call_buffers_sample :
    (BufferCall.read 0 0x80000000 4).moves sampleCaller = 4 ∧
      Confined usualControllers 0x80000000
        (sysHandler usualControllers id sampleCaller (.read 0 0x80000000 4)).accesses := by
  have word : (BufferCall.read 0 0x80000000 4).pointer < 2 ^ 32 := by decide
  exact ⟨by decide, (system_call_buffers word).1 (Or.inr (by decide))⟩

/-- All three handlers accept pointers from which they then leave user memory. -/
theorem system_call_buffers_overrun :
    ¬ Confined usualControllers 0xFEC00004
        (sysHandler usualControllers id sampleCaller (.read 0 0xFEC00004 1)).accesses ∧
      ¬ Confined usualControllers 0xFEE00FFF
        (sysHandler usualControllers id sampleCaller (.write 1 0xFEE00FFF 1)).accesses ∧
      ¬ Confined usualControllers 0xFFFFFFFE
        (sysHandler usualControllers id sampleCaller (.wait 0x10000000 0xFFFFFFFE)).accesses := by
  refine ⟨?_, ?_, ?_⟩
  · intro confined
    exact absurd (confined.user (.store 0xFEC00004 1) (by decide)) (by decide)
  · intro confined
    exact absurd (confined.user (.load 0xFEE00FFF) (by decide)) (by decide)
  · intro confined
    exact absurd confined.noWrap (by decide)

end AC97Kernel
