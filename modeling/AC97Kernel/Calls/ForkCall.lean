/-
The fork system call, as kernel/sys.cc, kernel/process.cc, kernel/threads.h and
kernel/threads.cc run it.

A process is named by its page directory, which no other process has.  What the
threads do to the queues between two calls is one action here, and so is what a
process does to its own tables.  `new` panics when the heap has no room.
-/

import AC97Kernel.Paging.Progress
import AC97Kernel.Paging.Room
import Mathlib.Data.List.Count
import Mathlib.Data.List.Perm.Basic

set_option autoImplicit false

namespace AC97Kernel.ForkCall

open Function VMM PhysMem

/-- What a thread runs: a function of the kernel, or `switchToUser`. -/
inductive Work where
  | kernel
  | switchToUser (pc esp eax : Nat)
  deriving DecidableEq

structure TCB where
  id : Nat
  process : Nat
  work : Work
  deriving DecidableEq

/-- `active` is the thread that calls.  `others` are blocked, idle or on other cores. -/
structure Kernel (File Semaphore Output : Type) where
  vm : Vm
  processes : Nat → Process File Semaphore Output
  refCount : Nat → Nat
  nextId : Nat
  active : TCB
  readyQ : List TCB
  zombies : List TCB
  others : List TCB

/-- The blocks that the heap has room for. -/
structure HeapRoom where
  process : Bool
  output : Bool
  tcb : Bool
  stack : Bool
  deriving DecidableEq

def HeapRoom.all : HeapRoom := ⟨true, true, true, true⟩

/-- How a call ends.  A null reference is read on the way, or `Debug::panic` is called. -/
inductive Outcome (State Result : Type) where
  | returned (state : State) (result : Result)
  | nullDereference (state : State)
  | panicked

variable {File Semaphore Output : Type}

namespace Kernel

def current (kernel : Kernel File Semaphore Output) : Process File Semaphore Output :=
  kernel.processes kernel.active.process

def tcbs (kernel : Kernel File Semaphore Output) : List TCB :=
  kernel.active :: (kernel.readyQ ++ kernel.zombies ++ kernel.others)

/-- A `Shared<Process>` goes out of life, and `~Process` may run. -/
def drop (config : Config) (kernel : Kernel File Semaphore Output) (process : Nat) :
    Option (Kernel File Semaphore Output) :=
  let newCount := kernel.refCount process - 1
  let dropped := { kernel with refCount := update kernel.refCount process newCount }
  if newCount = 0 then
    (deletePd config kernel.current.pd (kernel.processes process).pd kernel.vm.mem).map fun mem =>
      { dropped with
        vm :=
          { kernel.vm with
            mem := mem
            live := kernel.vm.live.filter (· ≠ (kernel.processes process).pd) } }
  else some dropped

/-- The loop of `delete_zombies`. -/
def deleteZombies (config : Config) :
    List TCB → Kernel File Semaphore Output → Option (Kernel File Semaphore Output)
  | [], kernel => some { kernel with zombies := [] }
  | it :: rest, kernel =>
      (drop config { kernel with zombies := rest } it.process).bind (deleteZombies config rest)

def schedule (kernel : Kernel File Semaphore Output) (tcb : TCB) : Kernel File Semaphore Output :=
  { kernel with readyQ := kernel.readyQ ++ [tcb] }

/-- `thread`, with the constructors of the TCB. -/
def thread (config : Config) (kernel : Kernel File Semaphore Output) (room : HeapRoom)
    (process : Option Nat) (work : Work) : Outcome (Kernel File Semaphore Output) Unit :=
  match deleteZombies config kernel.zombies kernel with
  | none => .panicked
  | some kernel =>
      if room.tcb = false then .panicked
      else
        let counted := { kernel with nextId := (kernel.nextId + 1) % 2 ^ 32 }
        match process with
        -- saveArea.cr3 = process->pd
        | none => .nullDereference counted
        | some process =>
            if room.stack = false then .panicked
            else
              let held :=
                { counted with
                  refCount := update kernel.refCount process (kernel.refCount process + 1) }
              .returned (held.schedule { id := kernel.nextId, process := process, work := work }) ()

/-- `thread`, and the end of the caller's own reference to the process. -/
def start (config : Config) (kernel : Kernel File Semaphore Output) (room : HeapRoom)
    (process : Option Nat) (work : Work) : Outcome (Kernel File Semaphore Output) Unit :=
  match thread config kernel room process work with
  | .returned kernel _ =>
      match process with
      | none => .returned kernel ()
      | some process =>
          match drop config kernel process with
          | none => .panicked
          | some kernel => .returned kernel ()
  | .nullDereference kernel => .nullDereference kernel
  | .panicked => .panicked

/-- `Process::fork` of the current process.  Returned are the child and the id. -/
def fork (config : Config) (kernel : Kernel File Semaphore Output) (room : HeapRoom)
    (output : Output) : Option (Kernel File Semaphore Output × Option Nat × Int) :=
  (Process.fork config kernel.vm.shared kernel.vm.mem kernel.current output).bind fun forked =>
    match forked.child with
    | none =>
        some
          ({ kernel with
              vm := { kernel.vm with mem := forked.mem }
              processes := update kernel.processes kernel.active.process forked.parent },
            none, forked.id)
    | some child =>
        if room.process = true ∧ room.output = true then
          some
            ({ kernel with
                vm := { kernel.vm with mem := forked.mem, live := child.pd :: kernel.vm.live }
                processes :=
                  update (update kernel.processes kernel.active.process forked.parent) child.pd
                    child
                refCount := update kernel.refCount child.pd 1 },
              some child.pd, forked.id)
        else none

/-- `sysHandler` for the number 2; `userPC` and `userEsp` are in the frame of the trap. -/
def sysFork (config : Config) (kernel : Kernel File Semaphore Output) (room : HeapRoom)
    (output : Output) (userPC userEsp : Nat) : Outcome (Kernel File Semaphore Output) Int :=
  match kernel.fork config room output with
  | none => .panicked
  | some (kernel, child, id) =>
      match start config kernel room child (.switchToUser userPC userEsp 0) with
      | .returned kernel _ => .returned kernel id
      | .nullDereference kernel => .nullDereference kernel
      | .panicked => .panicked

/-- `Shared<Process>::make` and the thread for it, as in kernel/init.cc. -/
def spawn (config : Config) (kernel : Kernel File Semaphore Output) (room : HeapRoom)
    (process : Process File Semaphore Output) : Outcome (Kernel File Semaphore Output) Unit :=
  match makePd config kernel.vm.shared kernel.vm.mem with
  | none => .panicked
  | some (mem, pd) =>
      if room.process = true ∧ room.output = true then
        start config
          { kernel with
            vm := { kernel.vm with mem := mem, live := pd :: kernel.vm.live }
            processes := update kernel.processes pd { process with pd := pd }
            refCount := update kernel.refCount pd 1 }
          room (some pd) .kernel
      else .panicked

/-- The kernel after a call, if it goes on.  Where a null reference is read the
fault handler stops the thread, which an action `reschedule` does. -/
def Outcome.next {Result : Type} :
    Outcome (Kernel File Semaphore Output) Result → Option (Kernel File Semaphore Output)
  | .returned kernel _ => some kernel
  | .nullDereference kernel => some kernel
  | .panicked => none

end Kernel

open Kernel

/-- `reschedule` is what the threads do to the queues between two calls, `reap` a call of
`delete_zombies`, `memory` what a process does to its pages, `tables` what it does to
its handles. -/
inductive Action (File Semaphore Output : Type) where
  | sysFork (room : HeapRoom) (output : Output) (userPC userEsp : Nat)
  | spawn (room : HeapRoom) (process : Process File Semaphore Output)
  | reschedule (active : TCB) (readyQ zombies others : List TCB)
  | reap
  | memory (action : VMM.Action File Semaphore Output)
  | tables (process : Nat) (files : Fin 10 → Option File) (sems : Fin 10 → Option Semaphore)
      (children : Fin 10 → Option Output)

/-- Page faults, `delete_private` and stores, but no new directory and none that goes. -/
def OnPages : VMM.Action File Semaphore Output → Prop
  | .pageFault _ _ => True
  | .deletePrivate _ => True
  | .store _ _ _ _ => True
  | _ => False

/-- A slot for a child is filled by fork alone. -/
def Allowed (config : Config) (kernel : Kernel File Semaphore Output) :
    Action File Semaphore Output → Prop
  | .reschedule active readyQ zombies others =>
      (active :: (readyQ ++ zombies ++ others)).Perm kernel.tcbs
  | .memory action => OnPages action ∧ Permitted config AnyFault kernel.vm action
  | .tables process _ _ children =>
      ∀ slot, children slot = none ∨ children slot = (kernel.processes process).children slot
  | _ => True

def perform (config : Config) (kernel : Kernel File Semaphore Output) :
    Action File Semaphore Output → Option (Kernel File Semaphore Output)
  | .sysFork room output userPC userEsp =>
      Outcome.next (kernel.sysFork config room output userPC userEsp)
  | .spawn room process => Outcome.next (kernel.spawn config room process)
  | .reschedule active readyQ zombies others =>
      some
        { kernel with active := active, readyQ := readyQ, zombies := zombies, others := others }
  | .reap => deleteZombies config kernel.zombies kernel
  | .memory action => (VMM.perform config kernel.vm action).map fun vm => { kernel with vm := vm }
  | .tables process files sems children =>
      some
        { kernel with
          processes := update kernel.processes process
            { kernel.processes process with files := files, sems := sems, children := children } }

def machine (config : Config) (File Semaphore Output : Type) :
    StepMachine (Kernel File Semaphore Output) (Action File Semaphore Output) where
  allowed := Allowed config
  step := perform config

/-- The idle threads that `threadsInit` makes, in the process of the kernel. -/
def idleTcbs (cores process : Nat) : List TCB :=
  (List.range cores).map fun core => { id := core, process := process, work := .kernel }

/-- The kernel with its own process and an idle thread on every core. -/
def boot (config : Config) (frames : Nat → Nat → Nat) (start size cores : Nat)
    (kernelProcess : Process File Semaphore Output) : Option (Kernel File Semaphore Output) :=
  (VMM.boot config frames start size).bind fun vm =>
    (makePd config vm.shared vm.mem).map fun (mem, pd) =>
      { vm := { vm with mem := mem, live := pd :: vm.live }
        processes := fun _ => { kernelProcess with pd := pd }
        refCount := update (fun _ => 0) pd (cores + 2)
        nextId := cores + 1
        active := { id := cores, process := pd, work := .kernel }
        readyQ := []
        zombies := []
        others := idleTcbs cores pd }

/-- The references to processes that the threads have, and those in local variables. -/
def references (kernel : Kernel File Semaphore Output) (locals : List Nat) : List Nat :=
  kernel.tcbs.map TCB.process ++ locals

/-- The invariant. -/
structure Kept (config : Config) (start : Nat) (kernel : Kernel File Semaphore Output)
    (locals : List Nat) : Prop where
  enclosed : ∃ whole free, Enclosed config start kernel.vm whole free
  live : ∀ process ∈ references kernel locals, process ∈ kernel.vm.live
  named : ∀ process ∈ kernel.vm.live, (kernel.processes process).pd = process
  counted : ∀ process, (references kernel locals).count process ≤ kernel.refCount process

variable {config : Config} {start : Nat} {kernel after : Kernel File Semaphore Output}
  {locals : List Nat} {process : Nat}

theorem Kept.active_live (kept : Kept config start kernel locals) :
    kernel.active.process ∈ kernel.vm.live :=
  kept.live _ (List.mem_append_left _ (List.mem_map_of_mem List.mem_cons_self))

/-- What a call does not touch. -/
structure Alike (kernel after : Kernel File Semaphore Output) : Prop where
  processes : after.processes = kernel.processes
  nextId : after.nextId = kernel.nextId
  active : after.active = kernel.active
  readyQ : after.readyQ = kernel.readyQ
  others : after.others = kernel.others

/-- A reference in a local variable goes out of life. -/
theorem Kept.drop (kept : Kept config start kernel (process :: locals)) (valid : config.Valid) :
    ∃ after, kernel.drop config process = some after ∧ Kept config start after locals ∧
      Alike kernel after ∧ after.zombies = kernel.zombies ∧
      (1 < kernel.refCount process → after.vm = kernel.vm) ∧
      ∀ other, other ≠ process → after.refCount other = kernel.refCount other := by
  have isLive : process ∈ kernel.vm.live :=
    kept.live process (List.mem_append_right _ List.mem_cons_self)
  have named := kept.named process isLive
  have current : kernel.current.pd = kernel.active.process := kept.named _ kept.active_live
  have less (other : Nat) : (references kernel locals).count other +
      (if other = process then 1 else 0) = (references kernel (process :: locals)).count other := by
    unfold references
    rw [List.count_append, List.count_append, List.count_cons, Nat.add_assoc]
    by_cases same : other = process
    · subst same
      rw [if_pos rfl, if_pos (beq_self_eq_true other)]
    · rw [if_neg same, if_neg (by simpa using fun equal => same equal.symm)]
  have subset : ∀ other ∈ references kernel locals, other ∈ references kernel (process :: locals) := by
    intro other member
    rcases List.mem_append.mp member with thread | local_
    · exact List.mem_append_left _ thread
    · exact List.mem_append_right _ (List.mem_cons_of_mem _ local_)
  have counted (other : Nat) : (references kernel locals).count other ≤
      update kernel.refCount process (kernel.refCount process - 1) other := by
    have before := kept.counted other
    have step := less other
    by_cases same : other = process
    · subst same
      rw [if_pos rfl] at step
      rw [update_self]
      omega
    · rw [if_neg same] at step
      rw [update_of_ne same]
      omega
  unfold Kernel.drop
  by_cases last : kernel.refCount process - 1 = 0
  · simp only [if_pos last]
    -- nobody else refers to the process, so it is not the one that runs
    have unreferenced : process ∉ references kernel locals := by
      intro member
      have positive := List.count_pos_iff.mpr member
      have before := counted process
      rw [update_self] at before
      omega
    have unused : process ≠ kernel.active.process := by
      intro same
      apply unreferenced
      rw [same]
      exact List.mem_append_left _ (List.mem_map_of_mem List.mem_cons_self)
    obtain ⟨whole, free, enclosed⟩ := kept.enclosed
    obtain ⟨mem, ran, _, _⟩ := enclosed.owned.deletePd valid isLive unused
    rw [named, current, ran]
    refine ⟨_, rfl, ⟨?_, ?_, ?_, counted⟩, ⟨rfl, rfl, rfl, rfl, rfl⟩, rfl, ?_,
      fun other different => update_of_ne different _ _⟩
    · have stepped : VMM.perform config kernel.vm
          (.deletePd kernel.active.process process : VMM.Action File Semaphore Output) =
          some { kernel.vm with mem := mem, live := kernel.vm.live.filter (· ≠ process) } :=
        Option.map_eq_some_iff.mpr ⟨mem, ran, rfl⟩
      have permitted : Permitted config AnyFault kernel.vm
          (.deletePd kernel.active.process process : VMM.Action File Semaphore Output) := isLive
      exact enclosed.step valid permitted stepped
    · intro other member
      have different : other ≠ process := fun same => unreferenced (same ▸ member)
      exact List.mem_filter.mpr ⟨kept.live other (subset other member), by simpa using different⟩
    · intro other member
      exact kept.named other (List.mem_of_mem_filter member)
    · intro shared
      omega
  · simp only [if_neg last]
    exact ⟨_, rfl, ⟨kept.enclosed, fun other member => kept.live other (subset other member),
      kept.named, counted⟩, ⟨rfl, rfl, rfl, rfl, rfl⟩, rfl, fun _ => rfl,
      fun other different => update_of_ne different _ _⟩

theorem Alike.trans {middle : Kernel File Semaphore Output} (first : Alike kernel middle)
    (second : Alike middle after) : Alike kernel after where
  processes := second.processes.trans first.processes
  nextId := second.nextId.trans first.nextId
  active := second.active.trans first.active
  readyQ := second.readyQ.trans first.readyQ
  others := second.others.trans first.others

theorem Kept.congr {other : Kernel File Semaphore Output} {moved : List Nat}
    (kept : Kept config start kernel locals) (vm : other.vm = kernel.vm)
    (processes : other.processes = kernel.processes) (refCount : other.refCount = kernel.refCount)
    (same : (references other moved).Perm (references kernel locals)) :
    Kept config start other moved where
  enclosed := vm ▸ kept.enclosed
  live := by
    intro process member
    rw [vm]
    exact kept.live process (same.mem_iff.mp member)
  named := by
    rw [vm, processes]
    exact kept.named
  counted := by
    intro process
    rw [same.count_eq, refCount]
    exact kept.counted process

/-- The zombies go one after the other. -/
theorem Kept.deleteZombies (valid : config.Valid) (kernel : Kernel File Semaphore Output)
    (zombies : List TCB) (kept : Kept config start { kernel with zombies := zombies } locals) :
    ∃ after, deleteZombies config zombies kernel = some after ∧ Kept config start after locals ∧
      Alike kernel after ∧ after.zombies = [] := by
  induction zombies generalizing kernel with
  | nil => exact ⟨_, rfl, kept, ⟨rfl, rfl, rfl, rfl, rfl⟩, rfl⟩
  | cons it rest ih =>
      have taken : Kept config start { kernel with zombies := rest } (it.process :: locals) := by
        refine kept.congr rfl rfl rfl ?_
        unfold references tcbs
        simp only [List.map_cons, List.map_append, List.cons_append, List.append_assoc]
        refine List.Perm.cons _ (List.Perm.append_left _ ?_)
        have moved : ((rest.map TCB.process ++ kernel.others.map TCB.process) ++
            it.process :: locals).Perm (it.process :: ((rest.map TCB.process ++
              kernel.others.map TCB.process) ++ locals)) := List.perm_middle
        simpa only [List.append_assoc] using moved
      obtain ⟨middle, dropped, keptMiddle, alike, zombies, _⟩ := taken.drop valid
      have again : Kept config start { middle with zombies := rest } locals := by
        have left : middle.zombies = rest := zombies
        subst left
        exact keptMiddle
      obtain ⟨after, deleted, keptAfter, alikeAfter, empty⟩ := ih middle again
      refine ⟨after, Option.bind_eq_some_iff.mpr ⟨middle, dropped, deleted⟩, keptAfter,
        Alike.trans ⟨alike.processes, alike.nextId, alike.active, alike.readyQ, alike.others⟩
          alikeAfter, empty⟩

/-- One new thread is ready. -/
structure Scheduled (kernel after : Kernel File Semaphore Output) (process : Nat) (work : Work) :
    Prop where
  readyQ : after.readyQ =
    kernel.readyQ ++ [{ id := kernel.nextId, process := process, work := work }]
  active : after.active = kernel.active
  others : after.others = kernel.others
  zombies : after.zombies = []
  processes : after.processes = kernel.processes

/-- A new thread has one reference more. -/
theorem Kept.schedule (kept : Kept config start kernel locals) (tcb : TCB) (nextId : Nat)
    (live : tcb.process ∈ kernel.vm.live) :
    Kept config start
      (Kernel.schedule { kernel with
        nextId := nextId
        refCount := update kernel.refCount tcb.process (kernel.refCount tcb.process + 1) } tcb)
      locals := by
  have more : (references (Kernel.schedule { kernel with
      nextId := nextId
      refCount := update kernel.refCount tcb.process (kernel.refCount tcb.process + 1) } tcb)
      locals).Perm (tcb.process :: references kernel locals) := by
    unfold references tcbs Kernel.schedule
    simp only [List.map_cons, List.map_append, List.append_assoc, List.cons_append,
      List.nil_append]
    have moved : (kernel.active.process :: kernel.readyQ.map TCB.process ++
        tcb.process :: (kernel.zombies.map TCB.process ++ (kernel.others.map TCB.process ++
          locals))).Perm (tcb.process :: (kernel.active.process :: kernel.readyQ.map TCB.process ++
        (kernel.zombies.map TCB.process ++ (kernel.others.map TCB.process ++ locals)))) :=
      List.perm_middle
    exact moved
  refine ⟨kept.enclosed, ?_, kept.named, ?_⟩
  · intro process member
    rcases List.mem_cons.mp (more.mem_iff.mp member) with same | before
    · exact same ▸ live
    · exact kept.live process before
  · intro process
    have before := kept.counted process
    rw [more.count_eq, List.count_cons]
    change _ ≤ update kernel.refCount tcb.process (kernel.refCount tcb.process + 1) process
    by_cases same : process = tcb.process
    · subst same
      rw [update_self, if_pos (beq_self_eq_true _)]
      exact Nat.succ_le_succ before
    · have different : ¬ (tcb.process == process) = true := by
        simpa using fun equal => same equal.symm
      rw [update_of_ne same, if_neg different]
      exact before

theorem Kept.thread (kept : Kept config start kernel (process :: locals)) (valid : config.Valid)
    (room : HeapRoom) (work : Work) :
    ¬ (room.tcb = true ∧ room.stack = true) ∧
        Kernel.thread config kernel room (some process) work = .panicked ∨
      ∃ after, Kernel.thread config kernel room (some process) work = .returned after () ∧
        Kept config start after (process :: locals) ∧ Scheduled kernel after process work ∧
        (kernel.zombies = [] → after.vm = kernel.vm) := by
  obtain ⟨middle, deleted, keptMiddle, alike, none_⟩ :=
    Kept.deleteZombies valid kernel kernel.zombies kept
  have sameVm (empty : kernel.zombies = []) : middle.vm = kernel.vm := by
    rw [empty] at deleted
    cases deleted
    rfl
  have live := keptMiddle.live process (List.mem_append_right _ List.mem_cons_self)
  unfold Kernel.thread
  rw [deleted]
  cases tcb : room.tcb with
  | false => exact .inl ⟨fun both => Bool.noConfusion both.1, rfl⟩
  | true =>
      cases stack : room.stack with
      | false => exact .inl ⟨fun both => Bool.noConfusion both.2, rfl⟩
      | true =>
          refine .inr ⟨_, rfl, keptMiddle.schedule ⟨middle.nextId, process, work⟩ _ live,
            ⟨?_, alike.active, alike.others, none_, alike.processes⟩, sameVm⟩
          change middle.readyQ ++ _ = _
          rw [alike.readyQ, alike.nextId]

/-- `thread` and the end of the caller's reference to the process. -/
theorem Kept.starts (kept : Kept config start kernel (process :: locals)) (valid : config.Valid)
    (room : HeapRoom) (work : Work) :
    ¬ (room.tcb = true ∧ room.stack = true) ∧
        Kernel.start config kernel room (some process) work = .panicked ∨
      ∃ after, Kernel.start config kernel room (some process) work = .returned after () ∧
        Kept config start after locals ∧ Scheduled kernel after process work ∧
        process ∈ after.vm.live ∧ (kernel.zombies = [] → after.vm = kernel.vm) := by
  unfold Kernel.start
  rcases kept.thread valid room work with ⟨full, panicked⟩ | ⟨middle, returned, keptMiddle, rest⟩
  · rw [panicked]
    exact .inl ⟨full, rfl⟩
  · obtain ⟨scheduled, sameVm⟩ := rest
    obtain ⟨after, dropped, keptAfter, alike, zombies, shared, _⟩ := keptMiddle.drop valid
    -- the new thread has a reference, too
    have threaded : process ∈ middle.tcbs.map TCB.process := by
      refine List.mem_map.mpr ⟨⟨kernel.nextId, process, work⟩, ?_, rfl⟩
      unfold tcbs
      rw [scheduled.readyQ]
      simp
    have two : 1 < middle.refCount process := by
      have counted := keptMiddle.counted process
      have positive := List.count_pos_iff.mpr threaded
      unfold references at counted
      rw [List.count_append, List.count_cons_self] at counted
      omega
    rw [returned]
    simp only [dropped]
    refine .inr ⟨after, rfl, keptAfter, ⟨alike.readyQ.trans scheduled.readyQ,
      alike.active.trans scheduled.active, alike.others.trans scheduled.others,
      zombies.trans scheduled.zombies, alike.processes.trans scheduled.processes⟩, ?_, ?_⟩
    · rw [shared two]
      exact keptMiddle.live process (List.mem_append_left _ threaded)
    · intro empty
      exact (shared two).trans (sameVm empty)

/-- Without a process the constructor of the TCB reads through null. -/
theorem start_null (config : Config) (kernel : Kernel File Semaphore Output) (room : HeapRoom)
    (work : Work) : Kernel.start config kernel room none work =
      match Kernel.deleteZombies config kernel.zombies kernel with
      | none => .panicked
      | some middle =>
          if room.tcb = false then .panicked
          else .nullDereference { middle with nextId := (middle.nextId + 1) % 2 ^ 32 } := by
  unfold Kernel.start Kernel.thread
  cases Kernel.deleteZombies config kernel.zombies kernel with
  | none => rfl
  | some middle =>
      cases tcb : room.tcb with
      | false => rfl
      | true => rfl

/-- The slots of `children` are searched from the first one. -/
def freeSlot (process : Process File Semaphore Output) : Option (Fin 10) :=
  (List.finRange 10).find? fun slot => (process.children slot).isNone

theorem freeSlot_isSome (process : Process File Semaphore Output) :
    (freeSlot process).isSome ↔ ∃ slot, process.children slot = none := by
  unfold freeSlot
  rw [List.find?_isSome]
  constructor
  · intro found
    obtain ⟨slot, _, empty⟩ := found
    exact ⟨slot, Option.isNone_iff_eq_none.mp empty⟩
  · intro found
    obtain ⟨slot, empty⟩ := found
    exact ⟨slot, List.mem_finRange slot, Option.isNone_iff_eq_none.mpr empty⟩

/-- The child of the current process, as fork copies it. -/
def childOf (kernel : Kernel File Semaphore Output) (output : Output) (childPd : Nat) :
    Process File Semaphore Output :=
  { files := kernel.current.files
    sems := kernel.current.sems
    children := fun _ => none
    output := output
    pd := childPd }

/-- What `Process::fork` leaves when it makes a child. -/
structure Forked (kernel after : Kernel File Semaphore Output) (child : Nat) (slot : Fin 10)
    (output : Output) : Prop where
  fresh : child ∉ kernel.vm.live
  nextId : after.nextId = kernel.nextId
  active : after.active = kernel.active
  readyQ : after.readyQ = kernel.readyQ
  zombies : after.zombies = kernel.zombies
  others : after.others = kernel.others
  child : after.processes child = childOf kernel output child
  parent : after.current =
    { kernel.current with children := update kernel.current.children slot (some output) }

def forkedOf (kernel : Kernel File Semaphore Output) (slot : Fin 10) (output : Output)
    (mem : PhysMem) (childPd : Nat) : Process.Forked File Semaphore Output :=
  { mem := mem
    parent := { kernel.current with children := update kernel.current.children slot (some output) }
    child := some (childOf kernel output childPd)
    id := ((0x10000000 ||| slot.val : Nat) : Int) }

theorem fork_shape {slot : Fin 10} (free : freeSlot kernel.current = some slot) {output : Output}
    {forked : Process.Forked File Semaphore Output}
    (ran : Process.fork config kernel.vm.shared kernel.vm.mem kernel.current output =
      some forked) : ∃ mem childPd, forked = forkedOf kernel slot output mem childPd := by
  unfold freeSlot at free
  unfold Process.fork at ran
  rw [free] at ran
  obtain ⟨⟨made, childPd⟩, _, ran⟩ := Option.bind_eq_some_iff.mp ran
  obtain ⟨mem, _, result⟩ := Option.map_eq_some_iff.mp ran
  exact ⟨mem, childPd, result.symm⟩

/-- A new process has one reference, in a local variable. -/
theorem Kept.newProcess {pd : Nat} (kept : Kept config start kernel locals)
    (fresh : pd ∉ kernel.vm.live) (tcbs : after.tcbs = kernel.tcbs)
    (enclosed : ∃ whole free, Enclosed config start after.vm whole free)
    (live : after.vm.live = pd :: kernel.vm.live)
    (named : ∀ process ∈ pd :: kernel.vm.live, (after.processes process).pd = process)
    (refCount : after.refCount = update kernel.refCount pd 1) :
    Kept config start after (pd :: locals) := by
  have moved : (references after (pd :: locals)).Perm (pd :: references kernel locals) := by
    unfold references
    rw [tcbs]
    exact List.perm_middle
  refine ⟨enclosed, ?_, live ▸ named, ?_⟩
  · intro process member
    rw [live]
    rcases List.mem_cons.mp (moved.mem_iff.mp member) with same | before
    · exact same ▸ List.mem_cons_self
    · exact List.mem_cons_of_mem _ (kept.live process before)
  · intro process
    rw [moved.count_eq, List.count_cons, refCount]
    by_cases same : process = pd
    · subst same
      have none_ : (references kernel locals).count process = 0 :=
        List.count_eq_zero.mpr (fun member => fresh (kept.live process member))
      rw [update_self, none_, if_pos (beq_self_eq_true process)]
    · have other : ¬ (pd == process) = true := by
        simpa using fun equal => same equal.symm
      rw [update_of_ne same, if_neg other]
      exact kept.counted process

/-- The child that `Process::fork` has made has one reference, in a local variable. -/
theorem Kept.forked (kept : Kept config start kernel locals) (valid : config.Valid)
    {slot : Fin 10} {output : Output} {mem : PhysMem} {childPd : Nat}
    (ran : Process.fork config kernel.vm.shared kernel.vm.mem kernel.current output =
      some (forkedOf kernel slot output mem childPd))
    {room : HeapRoom} (enough : room.process = true ∧ room.output = true) :
    ∃ after, kernel.fork config room output =
        some (after, some childPd, ((0x10000000 ||| slot.val : Nat) : Int)) ∧
      Kept config start after (childPd :: locals) ∧ Forked kernel after childPd slot output ∧
      after.vm = { kernel.vm with mem := mem, live := childPd :: kernel.vm.live } := by
  have current : kernel.current.pd = kernel.active.process := kept.named _ kept.active_live
  have currentLive : kernel.current.pd ∈ kernel.vm.live := current ▸ kept.active_live
  obtain ⟨whole, free, enclosed⟩ := kept.enclosed
  have fresh : childPd ∉ kernel.vm.live := by
    rcases Process.fork_owned enclosed.owned valid currentLive ran with
      full | ⟨child, left, childIs, space, _⟩
    · cases congrArg Process.Forked.child full
    · cases childIs
      exact space.fresh
  have different : kernel.active.process ≠ childPd := fun same => fresh (same ▸ kept.active_live)
  unfold Kernel.fork
  rw [ran]
  simp only [Option.bind_some, forkedOf, if_pos enough]
  refine ⟨_, rfl, kept.newProcess fresh rfl ?_ rfl ?_ rfl,
    ⟨fresh, rfl, rfl, rfl, rfl, rfl, ?_, ?_⟩, rfl⟩
  · have stepped : VMM.perform config kernel.vm
        (.fork kernel.current output : VMM.Action File Semaphore Output) =
        some { kernel.vm with mem := mem, live := childPd :: kernel.vm.live } :=
      Option.map_eq_some_iff.mpr ⟨_, ran, rfl⟩
    have permitted : Permitted config AnyFault kernel.vm
        (.fork kernel.current output : VMM.Action File Semaphore Output) := currentLive
    exact enclosed.step valid permitted stepped
  · intro process member
    change (update (update kernel.processes kernel.active.process _) childPd _ process).pd = process
    by_cases child : process = childPd
    · subst child
      rw [update_self]
      rfl
    · rw [update_of_ne child]
      by_cases parent : process = kernel.active.process
      · subst parent
        rw [update_self]
        exact current
      · rw [update_of_ne parent]
        exact kept.named process ((List.mem_cons.mp member).resolve_left child)
  · exact update_self _ _ _
  · change update (update kernel.processes kernel.active.process _) childPd _
      kernel.active.process = _
    rw [update_of_ne different, update_self]

/-- One thread is new, in a process that is new, and it goes to where the caller was. -/
structure NewThread (kernel after : Kernel File Semaphore Output) (output : Output)
    (userPC userEsp child : Nat) : Prop where
  fresh : child ∉ kernel.vm.live
  live : child ∈ after.vm.live
  process : after.processes child = childOf kernel output child
  readyQ : after.readyQ = kernel.readyQ ++
    [{ id := kernel.nextId, process := child, work := .switchToUser userPC userEsp 0 }]
  active : after.active = kernel.active
  others : after.others = kernel.others
  zombies : after.zombies = []

/-- The system call after `Process::fork` has made a child. -/
theorem Kept.sysFork (kept : Kept config start kernel []) (valid : config.Valid)
    {slot : Fin 10} {output : Output} {mem : PhysMem} {childPd : Nat}
    (ran : Process.fork config kernel.vm.shared kernel.vm.mem kernel.current output =
      some (forkedOf kernel slot output mem childPd)) (room : HeapRoom) (userPC userEsp : Nat) :
    room ≠ HeapRoom.all ∧ kernel.sysFork config room output userPC userEsp = .panicked ∨
      ∃ after, kernel.sysFork config room output userPC userEsp =
          .returned after ((0x10000000 ||| slot.val : Nat) : Int) ∧
        Kept config start after [] ∧ NewThread kernel after output userPC userEsp childPd ∧
        after.current = { kernel.current with
          children := update kernel.current.children slot (some output) } ∧
        (kernel.zombies = [] →
          after.vm = { kernel.vm with mem := mem, live := childPd :: kernel.vm.live }) := by
  unfold Kernel.sysFork
  by_cases enough : room.process = true ∧ room.output = true
  · obtain ⟨middle, forked, keptMiddle, facts, vmIs⟩ := kept.forked valid ran enough
    rw [forked]
    rcases keptMiddle.starts valid room (.switchToUser userPC userEsp 0) with
      ⟨full, panicked⟩ | ⟨after, returned, keptAfter, scheduled, live, sameVm⟩
    · refine .inl ⟨?_, by simp only [panicked]⟩
      intro all
      subst all
      exact full ⟨rfl, rfl⟩
    · have current : after.current = middle.current := by
        unfold Kernel.current
        rw [scheduled.processes, scheduled.active]
      refine .inr ⟨after, by simp only [returned], keptAfter, ?_, current.trans facts.parent, ?_⟩
      · constructor
        · exact facts.fresh
        · exact live
        · exact (congrFun scheduled.processes childPd).trans facts.child
        · rw [scheduled.readyQ, facts.readyQ, facts.nextId]
        · exact scheduled.active.trans facts.active
        · exact scheduled.others.trans facts.others
        · exact scheduled.zombies
      · intro empty
        exact (sameVm (facts.zombies.trans empty)).trans vmIs
  · have failed : kernel.fork config room output = none := by
      unfold Kernel.fork
      rw [ran]
      simp only [Option.bind_some, forkedOf, if_neg enough]
    rw [failed]
    refine .inl ⟨?_, rfl⟩
    intro all
    subst all
    exact enough ⟨rfl, rfl⟩

/-- Without a free slot there is no child, and the call goes on with none. -/
theorem sysFork_full (config : Config) (full : freeSlot kernel.current = none) (room : HeapRoom)
    (output : Output) (userPC userEsp : Nat) :
    kernel.sysFork config room output userPC userEsp =
      match deleteZombies config kernel.zombies kernel with
      | none => .panicked
      | some middle =>
          if room.tcb = false then .panicked
          else .nullDereference { middle with nextId := (middle.nextId + 1) % 2 ^ 32 } := by
  have ran : Process.fork config kernel.vm.shared kernel.vm.mem kernel.current output =
      some { mem := kernel.vm.mem, parent := kernel.current, child := none, id := -1 } := by
    unfold freeSlot at full
    unfold Process.fork
    rw [full]
  have unchanged : update kernel.processes kernel.active.process kernel.current =
      kernel.processes := update_eq_self _ _
  have forked : kernel.fork config room output = some (kernel, none, -1) := by
    unfold Kernel.fork
    rw [ran]
    simp only [Option.bind_some, unchanged]
  unfold Kernel.sysFork
  rw [forked]
  simp only [start_null]
  cases deleteZombies config kernel.zombies kernel with
  | none => rfl
  | some middle =>
      cases tcb : room.tcb with
      | false => rfl
      | true => rfl

theorem sysFork_none {output : Output} (ran : Process.fork config kernel.vm.shared kernel.vm.mem
    kernel.current output = none) (room : HeapRoom) (userPC userEsp : Nat) :
    kernel.sysFork config room output userPC userEsp = .panicked := by
  unfold Kernel.sysFork Kernel.fork
  rw [ran]
  rfl

theorem onPages_live {vm next : Vm} {action : VMM.Action File Semaphore Output}
    (onPages : OnPages action) (stepped : VMM.perform config vm action = some next) :
    next.live = vm.live := by
  cases action with
  | makePd => cases onPages
  | pageFault pd address =>
      obtain ⟨outcome, _, result⟩ := Option.map_eq_some_iff.mp stepped
      cases outcome <;> cases result <;> rfl
  | fork parent output => cases onPages
  | deletePrivate pd =>
      obtain ⟨mem, _, result⟩ := Option.map_eq_some_iff.mp stepped
      cases result
      rfl
  | deletePd cr3 pd => cases onPages
  | store pd va index word =>
      cases stepped
      rfl

theorem Kept.spawn (kept : Kept config start kernel []) (valid : config.Valid) {room : HeapRoom}
    {process : Process File Semaphore Output}
    (spawned : Outcome.next (kernel.spawn config room process) = some after) :
    Kept config start after [] := by
  unfold Kernel.spawn at spawned
  cases made : makePd config kernel.vm.shared kernel.vm.mem with
  | none =>
      rw [made] at spawned
      cases spawned
  | some result =>
      obtain ⟨mem, pd⟩ := result
      rw [made] at spawned
      by_cases enough : room.process = true ∧ room.output = true
      · simp only [if_pos enough] at spawned
        obtain ⟨whole, free, enclosed⟩ := kept.enclosed
        obtain ⟨_, _, fresh, _⟩ := enclosed.owned.makePd valid made
        have stepped : VMM.perform config kernel.vm
            (.makePd : VMM.Action File Semaphore Output) =
            some { kernel.vm with mem := mem, live := pd :: kernel.vm.live } :=
          Option.map_eq_some_iff.mpr ⟨_, made, rfl⟩
        have permitted : Permitted config AnyFault kernel.vm
            (.makePd : VMM.Action File Semaphore Output) := trivial
        have keptNew : Kept config start
            { kernel with
              vm := { kernel.vm with mem := mem, live := pd :: kernel.vm.live }
              processes := update kernel.processes pd { process with pd := pd }
              refCount := update kernel.refCount pd 1 } [pd] := by
          refine kept.newProcess fresh rfl (enclosed.step valid permitted stepped) rfl ?_ rfl
          intro other member
          change (update kernel.processes pd _ other).pd = other
          by_cases same : other = pd
          · subst same
            rw [update_self]
          · rw [update_of_ne same]
            exact kept.named other ((List.mem_cons.mp member).resolve_left same)
        rcases keptNew.starts valid room .kernel with
          ⟨_, panicked⟩ | ⟨last, returned, keptLast, _⟩
        · rw [panicked] at spawned
          cases spawned
        · rw [returned] at spawned
          cases spawned
          exact keptLast
      · simp only [if_neg enough] at spawned
        cases spawned

theorem perform_kept {action : Action File Semaphore Output} (valid : config.Valid)
    (kept : Kept config start kernel []) (permitted : Allowed config kernel action)
    (stepped : perform config kernel action = some after) : Kept config start after [] := by
  cases action with
  | sysFork room output userPC userEsp =>
      change Outcome.next (kernel.sysFork config room output userPC userEsp) = some after at stepped
      cases free : freeSlot kernel.current with
      | none =>
          obtain ⟨middle, deleted, keptMiddle, _⟩ :=
            Kept.deleteZombies valid kernel kernel.zombies kept
          rw [sysFork_full config free room output userPC userEsp, deleted] at stepped
          cases tcb : room.tcb with
          | false =>
              rw [tcb] at stepped
              cases stepped
          | true =>
              rw [tcb] at stepped
              cases stepped
              exact keptMiddle.congr rfl rfl rfl (List.Perm.refl _)
      | some slot =>
          cases ran : Process.fork config kernel.vm.shared kernel.vm.mem kernel.current output with
          | none =>
              rw [sysFork_none ran] at stepped
              cases stepped
          | some forked =>
              obtain ⟨mem, childPd, shape⟩ := fork_shape free ran
              subst shape
              rcases kept.sysFork valid ran room userPC userEsp with
                ⟨_, panicked⟩ | ⟨last, returned, keptLast, _⟩
              · rw [panicked] at stepped
                cases stepped
              · rw [returned] at stepped
                cases stepped
                exact keptLast
  | spawn room process => exact kept.spawn valid stepped
  | reschedule active readyQ zombies others =>
      cases stepped
      refine kept.congr rfl rfl rfl ?_
      exact List.Perm.append_right _ (List.Perm.map _ permitted)
  | reap =>
      obtain ⟨last, deleted, keptLast, _⟩ := Kept.deleteZombies valid kernel kernel.zombies kept
      cases deleted.symm.trans stepped
      exact keptLast
  | memory action =>
      obtain ⟨onPages, permitted⟩ := permitted
      obtain ⟨vm, ran, result⟩ := Option.map_eq_some_iff.mp stepped
      subst result
      have sameLive := onPages_live onPages ran
      obtain ⟨whole, free, enclosed⟩ := kept.enclosed
      refine ⟨enclosed.step valid permitted ran, ?_, ?_, kept.counted⟩
      · intro process member
        exact sameLive.symm ▸ kept.live process member
      · intro process member
        exact kept.named process (sameLive ▸ member)
  | tables process files sems children =>
      cases stepped
      refine ⟨kept.enclosed, kept.live, ?_, kept.counted⟩
      intro other member
      change (update kernel.processes process _ other).pd = other
      by_cases same : other = process
      · subst same
        rw [update_self]
        exact kept.named other member
      · rw [update_of_ne same]
        exact kept.named other member

theorem boot_kept {frames : Nat → Nat → Nat} {size cores : Nat}
    {kernelProcess : Process File Semaphore Output} {booted : Kernel File Semaphore Output}
    (valid : config.Valid) (real : 0 < start) (within : start + size ≤ config.memSize)
    (boots : boot config frames start size cores kernelProcess = some booted) :
    Kept config start booted [] := by
  obtain ⟨vm, bootRan, boots⟩ := Option.bind_eq_some_iff.mp boots
  obtain ⟨⟨mem, pd⟩, made, result⟩ := Option.map_eq_some_iff.mp boots
  subst result
  obtain ⟨nobody, bootFree, bootOwned⟩ := boot_owned False valid real within bootRan
  have enclosed : Enclosed config start vm [] bootFree := by
    refine ⟨bootOwned, ?_⟩
    rw [nobody]
    intro other member
    cases member
  have stepped : VMM.perform config vm (.makePd : VMM.Action File Semaphore Output) =
      some { vm with mem := mem, live := pd :: vm.live } :=
    Option.map_eq_some_iff.mpr ⟨_, made, rfl⟩
  have permitted : Permitted config AnyFault vm (.makePd : VMM.Action File Semaphore Output) :=
    trivial
  have idle : (idleTcbs cores pd).map TCB.process = List.replicate cores pd := by
    unfold idleTcbs
    rw [List.map_map]
    exact List.map_const' .. |>.trans (by rw [List.length_range])
  have all : pd :: ([] ++ [] ++ idleTcbs cores pd).map TCB.process ++ [] =
      List.replicate (cores + 1) pd := by
    rw [List.append_nil, List.nil_append, List.nil_append, idle]
    rfl
  refine ⟨enclosed.step valid permitted stepped, ?_, ?_, ?_⟩
  · intro process member
    change process ∈ pd :: ([] ++ [] ++ idleTcbs cores pd).map TCB.process ++ [] at member
    rw [all] at member
    exact List.eq_of_mem_replicate member ▸ List.mem_cons_self
  · intro process member
    change process ∈ pd :: vm.live at member
    rw [nobody] at member
    exact (List.mem_singleton.mp member).symm
  · intro process
    change (pd :: ([] ++ [] ++ idleTcbs cores pd).map TCB.process ++ []).count process ≤
      update (fun _ => 0) pd (cores + 2) process
    rw [all, List.count_replicate]
    by_cases same : process = pd
    · subst same
      rw [update_self, if_pos (beq_self_eq_true process)]
      exact Nat.le_succ _
    · have different : ¬ (pd == process) = true := by
        simpa using fun equal => same equal.symm
      rw [if_neg different]
      exact Nat.zero_le _

/-- The invariant holds in every state that the kernel reaches. -/
theorem reached_kept {frames : Nat → Nat → Nat} {size cores : Nat}
    {kernelProcess : Process File Semaphore Output} {booted : Kernel File Semaphore Output}
    (valid : config.Valid) (real : 0 < start) (within : start + size ≤ config.memSize)
    (boots : boot config frames start size cores kernelProcess = some booted)
    (reached : (machine config File Semaphore Output).Reached booted kernel) :
    Kept config start kernel [] :=
  reached.preserves (fun kernel => Kept config start kernel [])
    (fun _ _ _ kept permitted stepped => perform_kept valid kept permitted stepped)
    (boot_kept valid real within boots)

/-- With a free slot, a heap that has room and enough frames the call makes a thread. -/
theorem Kept.sysFork_returns {count : Nat} {slot : Fin 10} (kept : Kept config start kernel [])
    (valid : config.Valid) (free : freeSlot kernel.current = some slot)
    (room : Room start kernel.vm.mem
      (count + Process.forkFrames kernel.vm kernel.active.process))
    (output : Output) (userPC userEsp : Nat) :
    ∃ after id child, kernel.sysFork config .all output userPC userEsp = .returned after id ∧
      Kept config start after [] ∧ NewThread kernel after output userPC userEsp child ∧
      after.current = { kernel.current with
        children := update kernel.current.children slot (some output) } ∧
      (kernel.zombies = [] → Room start after.vm.mem count ∧
        Process.forkFrames after.vm after.active.process =
          Process.forkFrames kernel.vm kernel.active.process) := by
  have current : kernel.current.pd = kernel.active.process := kept.named _ kept.active_live
  have currentLive : kernel.current.pd ∈ kernel.vm.live := current ▸ kept.active_live
  obtain ⟨whole, left, enclosed⟩ := kept.enclosed
  obtain ⟨mem, childPd, roomNext, ran⟩ :=
    Process.fork_succeeds enclosed.owned valid currentLive free output (current ▸ room)
  rcases kept.sysFork valid ran .all userPC userEsp with
    ⟨notAll, _⟩ | ⟨after, returned, keptAfter, newThread, currentAfter, vmIs⟩
  · exact absurd rfl notAll
  · refine ⟨after, _, childPd, returned, keptAfter, newThread, currentAfter, fun empty => ?_⟩
    rw [vmIs empty, newThread.active]
    refine ⟨roomNext, ?_⟩
    rcases Process.fork_owned enclosed.owned valid currentLive ran with
      full | ⟨child, rest, childIs, space, _⟩
    · cases congrArg Process.Forked.child full
    · cases childIs
      exact Process.forkFrames_aside space.aside kept.active_live
        (fun same => space.fresh (same ▸ kept.active_live))

/-- What the fork call promises: it reads through no null reference; without a free slot
it returns a negative id and changes nothing; with one it makes one thread, and it does
return when there is room. -/
def Atomic (config : Config) (start : Nat) (kernel : Kernel File Semaphore Output)
    (room : HeapRoom) (output : Output) (userPC userEsp : Nat) : Prop :=
  let outcome := kernel.sysFork config room output userPC userEsp
  (∀ after, outcome ≠ .nullDereference after) ∧
    ((∀ slot, kernel.current.children slot ≠ none) →
      ∃ id < 0, outcome = .returned kernel id) ∧
    ((∃ slot, kernel.current.children slot = none) →
      (∀ after id, outcome = .returned after id →
        ∃ child, NewThread kernel after output userPC userEsp child) ∧
      (room = .all → Room start kernel.vm.mem
          (Process.forkFrames kernel.vm kernel.active.process) →
        ∃ after id, outcome = .returned after id))

section History

/-- The slots that are left for children. -/
def freeSlots (process : Process File Semaphore Output) : Finset (Fin 10) :=
  Finset.univ.filter fun slot => (process.children slot).isNone = true

theorem freeSlots_fork (process : Process File Semaphore Output) {slot : Fin 10}
    (output : Output) :
    freeSlots { process with children := update process.children slot (some output) } =
      (freeSlots process).erase slot := by
  ext other
  unfold freeSlots
  rw [Finset.mem_erase, Finset.mem_filter, Finset.mem_filter]
  change other ∈ Finset.univ ∧ (update process.children slot (some output) other).isNone = true ↔ _
  by_cases same : other = slot
  · subst same
    rw [update_self]
    exact iff_of_false (fun both => Bool.noConfusion both.2) (fun both => both.1 rfl)
  · rw [update_of_ne same]
    exact (and_iff_right same).symm

theorem mem_freeSlots {process : Process File Semaphore Output} {slot : Fin 10}
    (free : freeSlot process = some slot) : slot ∈ freeSlots process := by
  unfold freeSlot at free
  have found : (process.children slot).isNone = true :=
    (List.find?_eq_some_iff_append.mp free).1
  exact Finset.mem_filter.mpr ⟨Finset.mem_univ slot, found⟩

/-- A process that forks again and again has no slot left in the end. -/
theorem Kept.fills (slots : Nat) (kept : Kept config start kernel []) (valid : config.Valid)
    (empty : kernel.zombies = []) (left : (freeSlots kernel.current).card = slots)
    (output : Output) (room : Room start kernel.vm.mem
      (slots * Process.forkFrames kernel.vm kernel.active.process)) :
    ∃ after, (machine config File Semaphore Output).Reached kernel after ∧ after.zombies = [] ∧
      freeSlot after.current = none := by
  induction slots generalizing kernel with
  | zero =>
      refine ⟨kernel, .refl _ _, empty, ?_⟩
      cases free : freeSlot kernel.current with
      | none => rfl
      | some slot =>
          have member := mem_freeSlots free
          rw [Finset.card_eq_zero.mp left] at member
          exact absurd member (Finset.notMem_empty slot)
  | succ slots ih =>
      have some_ : (freeSlot kernel.current).isSome := by
        have positive : 0 < (freeSlots kernel.current).card := by
          rw [left]
          exact Nat.succ_pos slots
        obtain ⟨slot, member⟩ := Finset.card_pos.mp positive
        refine (freeSlot_isSome _).mpr ⟨slot, ?_⟩
        exact Option.isNone_iff_eq_none.mp (Finset.mem_filter.mp member).2
      obtain ⟨slot, free⟩ := Option.isSome_iff_exists.mp some_
      rw [Nat.succ_mul] at room
      obtain ⟨after, id, child, returned, keptAfter, newThread, current, roomLeft⟩ :=
        kept.sysFork_returns valid free room output 0 0
      obtain ⟨roomAfter, frames⟩ := roomLeft empty
      have member := mem_freeSlots free
      have fewer : (freeSlots after.current).card = slots := by
        rw [current, freeSlots_fork, Finset.card_erase_of_mem member, left]
        rfl
      obtain ⟨last, reached, noZombies, full⟩ :=
        ih keptAfter newThread.zombies fewer (frames.symm ▸ roomAfter)
      have stepped : (machine config File Semaphore Output).step kernel
          (.sysFork .all output 0 0) = some after := by
        change Outcome.next (kernel.sysFork config .all output 0 0) = some after
        rw [returned]
        rfl
      have permitted : (machine config File Semaphore Output).allowed kernel
          (.sysFork .all output 0 0) := trivial
      exact ⟨last, .cons permitted stepped reached, noZombies, full⟩

end History

def mediumMachine : Config :=
  { memSize := 0x60000
    ioAPIC := 0xFEC00000
    localAPIC := 0xFEE00000 }

theorem mediumMachine_valid : mediumMachine.Valid := by
  constructor <;> decide

def freshProcess : Process Unit Unit Unit :=
  { files := fun _ => none
    sems := fun _ => none
    children := fun _ => none
    output := ()
    pd := 0 }

def idleTcb : TCB := { id := 0, process := 0x3000, work := .kernel }

def bootTcb : TCB := { id := 1, process := 0x3000, work := .kernel }

def userTcb : TCB := { id := 2, process := 0x5000, work := .kernel }

set_option maxRecDepth 100000 in
/-- The kernel boots and makes its first process. -/
private theorem first_process :
    ∃ booted ∈ boot mediumMachine (fun _ _ => 0) 0x1000 0x5F000 1 freshProcess,
      ∃ spawned ∈ perform mediumMachine booted (.spawn .all freshProcess),
        [userTcb, bootTcb, idleTcb].Perm spawned.tcbs ∧
          10 * Process.forkFrames spawned.vm 0x5000 ≤
            (spawned.vm.mem.limit - spawned.vm.mem.avail) / 4096 ∧
          (freeSlots (spawned.processes 0x5000)).card = 10 := by
  decide +kernel

/-- The kernel when the thread of the first process runs. -/
private theorem user_runs : ∃ booted kernel,
    boot mediumMachine (fun _ _ => 0) 0x1000 0x5F000 1 freshProcess = some booted ∧
      (machine mediumMachine Unit Unit Unit).Reached booted kernel ∧ kernel.zombies = [] ∧
      (freeSlots kernel.current).card = 10 ∧
      Room 0x1000 kernel.vm.mem (10 * Process.forkFrames kernel.vm kernel.active.process) := by
  obtain ⟨booted, boots, spawned, made, same, frames, slots⟩ := first_process
  have mayMake : (machine mediumMachine Unit Unit Unit).allowed booted
      (.spawn .all freshProcess) := trivial
  have maySwitch : (machine mediumMachine Unit Unit Unit).allowed spawned
      (.reschedule userTcb [bootTcb] [] [idleTcb]) := same
  have spawning : (machine mediumMachine Unit Unit Unit).step booted
      (.spawn .all freshProcess) = some spawned := made
  have switching : (machine mediumMachine Unit Unit Unit).step spawned
      (.reschedule userTcb [bootTcb] [] [idleTcb]) = some
        { spawned with
          active := userTcb, readyQ := [bootTcb], zombies := [], others := [idleTcb] } := rfl
  have reached := StepMachine.Reached.cons mayMake spawning
    (.cons maySwitch switching (.refl _ _))
  have kept := reached_kept mediumMachine_valid (by decide) (by decide) boots reached
  obtain ⟨whole, free, enclosed⟩ := kept.enclosed
  exact ⟨booted, _, boots, reached, rfl, slots, free, enclosed.owned.sound,
    Nat.le_trans frames (Nat.le_add_left _ _)⟩

end AC97Kernel.ForkCall
