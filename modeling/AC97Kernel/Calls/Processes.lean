/-
The processes of kernel/process.cc and the calls of kernel/sys.cc by which they fork, wait,
exit, share semaphores and close handles.

Every process has one thread, which calls from user mode and not before the last call is
back; its mutex keeps nobody out and is left out, and it does not matter which thread of
the model carries a call.  A process is named by the order of making, and its `output` by
the process.  `mode`, `forked` and `delivered` are no variables of the source: they record
where a process is, who has made it, and what the calls of `wait` have stored.
-/

import AC97Kernel.Calls.Handles
import AC97Kernel.Sync.Future

set_option autoImplicit false

namespace AC97Kernel

open Function Sync

abbrev Pid := Nat

/-- A semaphore that `newSemaphore` has made, the how manyth, and its first count. -/
structure UserSemaphore where
  object : Nat
  init : BitVec 32
  deriving DecidableEq

/-- The semaphore `go` of an output, and those of the users. -/
inductive ProcessSem where
  | go (child : Pid)
  | user (sem : UserSemaphore)
  deriving DecidableEq

def ProcessSem.count : ProcessSem → Nat
  | .go _ => 0
  | .user sem => sem.init.toNat

inductive Mode where
  | unmade
  | user
  | kernel
  /-- In `set` of its output, or stopped for good. -/
  | stopping
  deriving DecidableEq

/-- `*ptr = e->get()` for the child in a slot. -/
structure Delivery where
  parent : Pid
  index : Nat
  child : Pid
  status : BitVec 32
  deriving DecidableEq

structure Processes (File : Type) where
  made : Nat
  semaphores : Nat
  nextId : BitVec 32
  /-- The id of the thread of a process. -/
  id : Pid → BitVec 32
  mode : Pid → Mode
  handles : Pid → Handles File UserSemaphore Pid
  output : Pid → Future (BitVec 32)
  /-- What its last call has returned. -/
  eax : Pid → Handles.Id
  forked : Pid → Option (Pid × Nat)
  delivered : List Delivery

/-- The calls, and the page fault of an address below 0x80000000. -/
inductive Call (File : Type) where
  | exit (status : BitVec 32)
  | fault
  | fork
  | sem (init : BitVec 32)
  | up (id : Handles.Id)
  | down (id : Handles.Id)
  | close (id : Handles.Id)
  | open (file : File)
  | wait (id : Handles.Id)
  deriving DecidableEq

namespace Processes

variable {File : Type}

inductive Point (File : Type) where
  | idle
  | call (pid : Pid) (call : Call File)
  | raising (pid : Pid) (sem : UserSemaphore)
  | lowering (pid : Pid) (sem : UserSemaphore)
  /-- In `get` of the output of a child. -/
  | getting (pid : Pid) (index : Nat) (child : Pid) (point : FuturePoint (BitVec 32))
  | delivering (pid : Pid) (index : Nat) (child : Pid) (status : BitVec 32)
  /-- In `set` of the own output. -/
  | setting (pid : Pid) (point : FuturePoint (BitVec 32))
  | returning (pid : Pid) (result : Handles.Id)
  deriving DecidableEq

def setHandles (processes : Processes File) (pid : Pid)
    (handles : Handles File UserSemaphore Pid) : Processes File :=
  { processes with handles := update processes.handles pid handles }

def setOutput (processes : Processes File) (pid : Pid) (output : Future (BitVec 32)) :
    Processes File :=
  { processes with output := update processes.output pid output }

def setMode (processes : Processes File) (pid : Pid) (mode : Mode) : Processes File :=
  { processes with mode := update processes.mode pid mode }

/-- The calls of `set` in `exit`, which `stop` follows. -/
def exit (processes : Processes File) (pid : Pid) (status : BitVec 32) :
    Processes File × Point File :=
  ((processes.setMode pid .stopping).setOutput pid
    ((processes.output pid).enter (.assertNotReady status)), .setting pid (.assertNotReady status))

/-- `vmm_pageFault` below 0x80000000. -/
def pageFault (processes : Processes File) (pid : Pid) : Processes File × Point File :=
  processes.exit pid (processes.id pid)

/-- Where the table is full, there is no child, and the constructor of the thread reads
its page directory at a null pointer. -/
def fork (processes : Processes File) (pid : Pid) : Processes File × Point File :=
  let child := processes.made
  match (processes.handles pid).fork child with
  | (some handles, result) =>
      ({ processes with
          made := child + 1
          nextId := processes.nextId + 1
          id := update processes.id child processes.nextId
          mode := update processes.mode child .user
          handles := update (update processes.handles pid result.handles) child handles
          forked := update processes.forked child
            ((Handles.firstFree (processes.handles pid).children Handles.NCHILD).map (pid, ·)) },
        .returning pid result.returned)
  | (none, _) => { processes with nextId := processes.nextId + 1 }.pageFault pid

def wait (processes : Processes File) (pid : Pid) (id : Handles.Id) : Point File :=
  let index := Handles.getChildIndex id
  if index < 0 then .returning pid (BitVec.ofInt 32 index)
  else
    match (processes.handles pid).children index.toNat with
    | none => .returning pid Handles.error
    | some child => .getting pid index.toNat child .check

/-- `sysHandler` up to its first semaphore or future. -/
def perform (processes : Processes File) (pid : Pid) : Call File → Processes File × Point File
  | .exit status => processes.exit pid status
  | .fault => processes.pageFault pid
  | .fork => processes.fork pid
  | .sem init =>
      let result := (processes.handles pid).newSemaphore ⟨processes.semaphores, init⟩
      ({ processes.setHandles pid result.handles with semaphores := processes.semaphores + 1 },
        .returning pid result.returned)
  | .up id =>
      match (processes.handles pid).getSemaphore id with
      | none => (processes, .returning pid Handles.error)
      | some sem => (processes, .raising pid sem)
  | .down id =>
      match (processes.handles pid).getSemaphore id with
      | none => (processes, .returning pid Handles.error)
      | some sem => (processes, .lowering pid sem)
  | .close id =>
      let result := (processes.handles pid).close id
      (processes.setHandles pid result.handles, .returning pid result.returned)
  | .open file =>
      let result := (processes.handles pid).setFile file
      (processes.setHandles pid result.handles, .returning pid result.returned)
  | .wait id => (processes, processes.wait pid id)

/-- The last two lines of `wait`, and the store before them. -/
def deliver (processes : Processes File) (delivery : Delivery) : Processes File :=
  let handles := processes.handles delivery.parent
  { processes.setHandles delivery.parent
      { handles with children := update handles.children delivery.index none } with
    delivered := processes.delivered ++ [delivery] }

/-- An instruction of the future of a process. -/
def ofFuture (child : Pid) (place : FuturePoint (BitVec 32) → Point File) :
    Instruction FutureSem (Future (BitVec 32)) (FuturePoint (BitVec 32)) →
      Instruction ProcessSem (Processes File) (Point File)
  | .down _ next => .down (.go child) (place next)
  | .up _ next => .up (.go child) (place next)
  | .access run => .access fun processes =>
      (run (processes.output child)).map fun (future, next) =>
        (processes.setOutput child future, place next)

/-- What `get` has read is stored, and behind `set` the thread stops. -/
def code : Point File → Instruction ProcessSem (Processes File) (Point File)
  | .idle => .access fun _ => none
  | .call pid call => .access fun processes => some (processes.perform pid call)
  | .raising pid sem => .up (.user sem) (.returning pid 0)
  | .lowering pid sem => .down (.user sem) (.returning pid 0)
  | .getting pid index child .read => .access fun processes =>
      let future := processes.output child
      some (processes.setOutput child { future with answers := future.answers ++ [future.t] },
        .delivering pid index child future.t)
  | .getting pid index child point => ofFuture child (.getting pid index child) (Future.code point)
  | .delivering pid index child status => .access fun processes =>
      some (processes.deliver ⟨pid, index, child, status⟩, .returning pid 0)
  | .setting pid .finish => .access fun processes =>
      some (processes.setOutput pid { processes.output pid with completed := true }, .idle)
  | .setting pid point => ofFuture pid (.setting pid) (Future.code point)
  | .returning pid result => .access fun processes =>
      some ({ processes.setMode pid .user with eax := update processes.eax pid result }, .idle)

/-- A process calls from user mode. -/
def isEntry (processes : Processes File) : Point File → Bool
  | .call pid _ => processes.mode pid = .user
  | _ => false

def enter (processes : Processes File) : Point File → Processes File
  | .call pid _ => processes.setMode pid .kernel
  | _ => processes

def program (File : Type) : Program ProcessSem (Processes File) (Point File) where
  idle := .idle
  permits processes point := processes.isEntry point = true
  enter := enter
  code := code

/-- The first process alone, in user mode, with its files. -/
def start (files : Nat → Option File) (id : BitVec 32) : Processes File where
  made := 1
  semaphores := 0
  nextId := id + 1
  id _ := id
  mode pid := if pid = 0 then .user else .unmade
  handles _ := { files := files, sems := fun _ => none, children := fun _ => none }
  output _ := Future.new 0
  eax _ := 0
  forked _ := none
  delivered := []

/-! ### What a call does up to its first semaphore or future -/

/-- In front of its semaphore, or done. -/
def Point.Plain (pid : Pid) : Point File → Prop
  | .raising owner _ => owner = pid
  | .lowering owner _ => owner = pid
  | .returning owner _ => owner = pid
  | _ => False

/-- One more process, in a slot of its parent. -/
def addChild (processes : Processes File) (pid : Pid) (index : Nat) : Processes File :=
  let handles := processes.handles pid
  { processes with
    made := processes.made + 1
    nextId := processes.nextId + 1
    id := update processes.id processes.made processes.nextId
    mode := update processes.mode processes.made .user
    handles :=
      update
        (update processes.handles pid
          { handles with children := update handles.children index (some processes.made) })
        processes.made { handles with children := fun _ => none }
    forked := update processes.forked processes.made (some (pid, index)) }

inductive Performed (processes : Processes File) (pid : Pid) :
    Processes File → Point File → Prop where
  | plain {handles : Handles File UserSemaphore Pid} {next : Point File} {semaphores : Nat}
      (kept : ∀ index child, handles.children index = some child →
        (processes.handles pid).children index = some child)
      (plain : next.Plain pid) :
      Performed processes pid { processes.setHandles pid handles with semaphores := semaphores }
        next
  | waits {index : Nat} {child : Pid}
      (slot : (processes.handles pid).children index = some child) :
      Performed processes pid processes (.getting pid index child .check)
  | forks {index : Nat} {result : Handles.Id}
      (free : (processes.handles pid).children index = none) :
      Performed processes pid (processes.addChild pid index) (.returning pid result)
  | exits {nextId : BitVec 32} {status : BitVec 32} :
      Performed processes pid ({ processes with nextId := nextId }.exit pid status).1
        (.setting pid (.assertNotReady status))

variable {processes : Processes File} {pid : Pid}

theorem newSemaphore_children (handles : Handles File UserSemaphore Pid) (sem : UserSemaphore) :
    (handles.newSemaphore sem).handles.children = handles.children := by
  unfold Handles.newSemaphore
  split <;> rfl

theorem setFile_children (handles : Handles File UserSemaphore Pid) (file : File) :
    (handles.setFile file).handles.children = handles.children := by
  unfold Handles.setFile
  split <;> rfl

theorem cleared_children {children : Nat → Option Pid} {index place : Nat} {child : Pid}
    (slot : update children index none place = some child) : children place = some child := by
  by_cases same : place = index
  · subst same
    rw [update_self] at slot
    cases slot
  · rwa [update_of_ne same] at slot

theorem close_children (handles : Handles File UserSemaphore Pid) (id : Handles.Id) {index : Nat}
    {child : Pid} (slot : (handles.close id).handles.children index = some child) :
    handles.children index = some child := by
  unfold Handles.close at slot
  dsimp only at slot
  split at slot
  · split at slot <;> exact slot
  split at slot
  · split at slot
    · exact slot
    · exact cleared_children slot
  split at slot
  · split at slot <;> exact slot
  · exact slot

/-- A call that has found nothing to do. -/
theorem Performed.nothing {next : Point File} (plain : next.Plain pid) :
    Performed processes pid processes next := by
  have step := @Performed.plain _ processes pid (processes.handles pid) next
    processes.semaphores (fun _ _ slot => slot) plain
  have same : processes.setHandles pid (processes.handles pid) = processes := by
    unfold setHandles
    rw [update_eq_self]
  rwa [same] at step

theorem wait_performed (processes : Processes File) (pid : Pid) (id : Handles.Id) :
    Performed processes pid processes (processes.wait pid id) := by
  unfold Processes.wait
  by_cases wrong : Handles.getChildIndex id < 0
  · rw [if_pos wrong]
    exact .nothing rfl
  · rw [if_neg wrong]
    cases slot : (processes.handles pid).children (Handles.getChildIndex id).toNat with
    | none => exact .nothing rfl
    | some child => exact .waits slot

theorem fork_performed (processes : Processes File) (pid : Pid) :
    Performed processes pid (processes.fork pid).1 (processes.fork pid).2 := by
  unfold Processes.fork Handles.fork
  cases free : Handles.firstFree (processes.handles pid).children Handles.NCHILD with
  | none => exact .exits
  | some index => exact .forks (Handles.firstFree_some free).2

theorem perform_performed (processes : Processes File) (pid : Pid) (call : Call File) :
    Performed processes pid (processes.perform pid call).1 (processes.perform pid call).2 := by
  cases call with
  | exit status => exact .exits
  | fault => exact .exits
  | fork => exact fork_performed processes pid
  | sem init =>
      exact .plain (fun index child slot => by rwa [newSemaphore_children] at slot) rfl
  | up id =>
      unfold perform
      dsimp only
      split <;> exact .nothing rfl
  | down id =>
      unfold perform
      dsimp only
      split <;> exact .nothing rfl
  | close id => exact .plain (fun _ _ => close_children _ id) rfl
  | «open» file =>
      exact .plain (fun index child slot => by rwa [setFile_children] at slot) rfl
  | wait id => exact wait_performed processes pid id

end Processes

end AC97Kernel
