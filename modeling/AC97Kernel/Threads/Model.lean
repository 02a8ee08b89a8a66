/-
Threads and semaphores on any number of cores, as kernel/threads.h,
kernel/threads.cc, kernel/context.s, kernel/pit.cc and kernel/semaphore.h run
them.

A TCB is an address, and its fields are functions of the address; 0 is null.
`saved` says that the save area holds the registers of the thread.  A core is
outside `block`, or inside it at one of the three points between which other
cores may act.  What a thread has in its local variables, between taking a TCB
from somewhere and putting it somewhere, are its `hands`, the innermost call
first: freeing a TCB locks the heap, which may block.  A step is nothing when
the source panics there, or when it does not apply.
-/

import AC97Kernel.Library.StepMachine
import AC97Kernel.Threads.Queue
import Mathlib.Algebra.Group.Nat.Defs

set_option autoImplicit false

namespace AC97Kernel

inductive BlockOption where
  | mustBlock
  | canReturn
  deriving DecidableEq

/-- The functions that `block` is called with. -/
inductive Handler where
  | yield
  | stop
  | down (sem : Nat)
  deriving DecidableEq

/-- How far a core has come in `block`, and the thread that has called it. -/
inductive Phase where
  | outside
  | entered (option : BlockOption) (handler : Handler) (me : Nat)
  | switching (handler : Handler) (me : Nat)
  | handling (handler : Handler) (me : Nat)
  deriving DecidableEq

/-- Why a TCB is in a local variable of a thread: it is new, `up` has taken it from a
queue, or it is to be deleted. -/
inductive Role where
  | created
  | woken
  | reaped
  deriving DecidableEq

structure Hold where
  role : Role
  tcb : Nat
  deriving DecidableEq

/-- `readyQ`, `zombies`, and the queue `waiting` of a semaphore. -/
inductive QueueName where
  | ready
  | zombies
  | waiting (sem : Nat)
  deriving DecidableEq

/-- A semaphore without its queue. -/
structure Semaphore where
  count : Nat
  locked : Bool

structure Threads (Core : Type) where
  live : Nat → Bool
  isIdle : Nat → Bool
  next : Nat → Nat
  noPreempt : Nat → Nat
  saved : Nat → Bool
  hands : Nat → List Hold
  queues : QueueName → Queue
  sems : Nat → Semaphore
  idleThreads : Core → Nat
  activeThreads : Core → Nat
  phase : Core → Phase

namespace Threads

open Function

variable {Core : Type} [DecidableEq Core]

/-- The thread whose stack the core runs on, outside `block`. -/
def me (threads : Threads Core) (core : Core) : Nat := threads.activeThreads core

def add (threads : Threads Core) (name : QueueName) (t : Nat) : Threads Core :=
  { threads with
    queues := update threads.queues name ((threads.queues name).add threads.next t).1
    next := ((threads.queues name).add threads.next t).2 }

def remove (threads : Threads Core) (name : QueueName) : Option Nat × Threads Core :=
  (((threads.queues name).remove threads.next).1,
    { threads with
      queues := update threads.queues name ((threads.queues name).remove threads.next).2 })

def setPhase (threads : Threads Core) (core : Core) (phase : Phase) : Threads Core :=
  { threads with phase := update threads.phase core phase }

def schedule (threads : Threads Core) (tcb : Nat) : Threads Core :=
  if threads.isIdle tcb then threads else threads.add .ready tcb

/-- The beginning of `block`. -/
def enter (threads : Threads Core) (core : Core) (option : BlockOption) (handler : Handler) :
    Threads Core :=
  { threads with
    noPreempt := update threads.noPreempt (threads.me core) 1
    phase := update threads.phase core (.entered option handler (threads.me core)) }

/-- The end of `block` up to the context switch. -/
def activate (threads : Threads Core) (core : Core) (handler : Handler) (me nextTcb : Nat) :
    Threads Core :=
  { threads with
    noPreempt := update threads.noPreempt nextTcb 1
    activeThreads := update threads.activeThreads core nextTcb
    phase := update threads.phase core (.switching handler me) }

/-- One turn of the loop in `block`. -/
def take (threads : Threads Core) (core : Core) : Option (Threads Core) :=
  match threads.phase core with
  | .entered option handler me =>
      match threads.remove .ready with
      | (some nextTcb, threads) => some (threads.activate core handler me nextTcb)
      | (none, _) =>
          if option = .canReturn then some (threads.setPhase core .outside)
          else if threads.isIdle me then
            -- `down` blocks with interrupts disabled, which is asserted not to be
            if threads.idleThreads core = me ∧ threads.activeThreads core = me ∧
                handler = .stop then
              some threads
            else none
          else some (threads.activate core handler me (threads.idleThreads core))
  | _ => none

/-- `gheith_contextSwitch` up to the call of the handler. -/
def contextSwitch (threads : Threads Core) (core : Core) (handler : Handler) (me : Nat) :
    Threads Core :=
  { threads with
    saved := update (update threads.saved me true) (threads.activeThreads core) false
    noPreempt := update (update threads.noPreempt me 0) (threads.activeThreads core) 0
    phase := update threads.phase core (.handling handler me) }

def setSem (threads : Threads Core) (sem : Nat) (semaphore : Semaphore) : Threads Core :=
  { threads with sems := update threads.sems sem semaphore }

def lock (threads : Threads Core) (sem : Nat) : Threads Core :=
  threads.setSem sem { threads.sems sem with locked := true }

def unlock (threads : Threads Core) (sem : Nat) : Threads Core :=
  threads.setSem sem { threads.sems sem with locked := false }

/-- The handler, on the stack of the thread that has been switched to. -/
def handle (threads : Threads Core) (core : Core) : Option (Threads Core) :=
  match threads.phase core with
  | .handling .yield me => some ((threads.schedule me).setPhase core .outside)
  | .handling .stop me =>
      if threads.isIdle me then some (threads.setPhase core .outside)
      else some ((threads.add .zombies me).setPhase core .outside)
  | .handling (.down sem) me =>
      if threads.isIdle me then none
      else some (((threads.add (.waiting sem) me).unlock sem).setPhase core .outside)
  | _ => none

/-- A timer interrupt.  None comes in while the handler runs. -/
def tick (threads : Threads Core) (core : Core) : Option (Threads Core) :=
  let me := threads.activeThreads core
  let ignored := me = 0 ∨ threads.isIdle me = true ∨ threads.noPreempt me ≠ 0
  match threads.phase core with
  | .outside => if ignored then some threads else some (threads.enter core .canReturn .yield)
  | .entered _ _ _ => if ignored then some threads else none
  | .switching _ _ => if ignored then some threads else none
  | .handling _ _ => none

/-- `down`, with the lock taken, up to where it returns or blocks. -/
def down (threads : Threads Core) (core : Core) (sem : Nat) : Option (Threads Core) :=
  let semaphore := threads.sems sem
  if semaphore.locked then none
  else if semaphore.count > 0 then
    some (threads.setSem sem { semaphore with count := semaphore.count - 1 })
  else some ((threads.lock sem).enter core .mustBlock (.down sem))

def setHands (threads : Threads Core) (thread : Nat) (hands : List Hold) : Threads Core :=
  { threads with hands := update threads.hands thread hands }

def hold (threads : Threads Core) (core : Core) (role : Role) (t : Nat) : Threads Core :=
  threads.setHands (threads.me core) (⟨role, t⟩ :: threads.hands (threads.me core))

/-- `up` until it has released its lock. -/
def up (threads : Threads Core) (core : Core) (sem : Nat) : Option (Threads Core) :=
  let semaphore := threads.sems sem
  if semaphore.locked then none
  else
    match threads.remove (.waiting sem) with
    | (none, _) =>
        some (threads.setSem sem { semaphore with count := (semaphore.count + 1) % 2 ^ 64 })
    | (some t, threads) => some (threads.hold core .woken t)

/-- The call of `schedule` by `up` and by `thread`. -/
def scheduleHeld (threads : Threads Core) (core : Core) : Option (Threads Core) :=
  match threads.hands (threads.me core) with
  | ⟨role, t⟩ :: rest =>
      if role = .reaped then none
      else some ((threads.setHands (threads.me core) rest).schedule t)
  | [] => none

/-- `new TCBImpl`, at the address `t`. -/
def create (threads : Threads Core) (core : Core) (t : Nat) : Threads Core :=
  { threads with
    live := update threads.live t true
    isIdle := update threads.isIdle t false
    noPreempt := update threads.noPreempt t 0
    saved := update threads.saved t true }.hold core .created t

/-- One turn of `delete_zombies` up to the delete. -/
def reap (threads : Threads Core) (core : Core) : Threads Core :=
  match threads.remove .zombies with
  | (none, _) => threads
  | (some t, threads) => threads.hold core .reaped t

def delete (threads : Threads Core) (core : Core) : Option (Threads Core) :=
  match threads.hands (threads.me core) with
  | ⟨.reaped, t⟩ :: rest =>
      some { threads.setHands (threads.me core) rest with live := update threads.live t false }
  | _ => none

/-- The steps.  Those that a core takes inside `block` come first. -/
inductive Action (Core : Type) where
  | take (core : Core)
  | contextSwitch (core : Core)
  | handle (core : Core)
  | tick (core : Core)
  | yield (core : Core)
  | stop (core : Core)
  | down (core : Core) (sem : Nat)
  | up (core : Core) (sem : Nat)
  | schedule (core : Core)
  | create (core : Core) (t : Nat)
  | reap (core : Core)
  | delete (core : Core)

def whenOutside (threads : Threads Core) (core : Core) (next : Option (Threads Core)) :
    Option (Threads Core) :=
  if threads.phase core = .outside then next else none

def step (threads : Threads Core) : Action Core → Option (Threads Core)
  | .take core => threads.take core
  | .contextSwitch core =>
      match threads.phase core with
      | .switching handler me => some (threads.contextSwitch core handler me)
      | _ => none
  | .handle core => threads.handle core
  | .tick core => threads.tick core
  | .yield core => threads.whenOutside core (some (threads.enter core .canReturn .yield))
  | .stop core => threads.whenOutside core (some (threads.enter core .mustBlock .stop))
  | .down core sem => threads.whenOutside core (threads.down core sem)
  | .up core sem => threads.whenOutside core (threads.up core sem)
  | .schedule core => threads.whenOutside core (threads.scheduleHeld core)
  | .create core t => threads.whenOutside core (some (threads.create core t))
  | .reap core => threads.whenOutside core (some (threads.reap core))
  | .delete core => threads.whenOutside core (threads.delete core)

/-- A thread stops with nothing in its hands, and `new` returns an address that is
not in use. -/
def Allowed (threads : Threads Core) : Action Core → Prop
  | .stop core => threads.hands (threads.me core) = []
  | .create _ t => t ≠ 0 ∧ threads.live t = false
  | _ => True

def machine (Core : Type) [DecidableEq Core] : StepMachine (Threads Core) (Action Core) where
  allowed := Allowed
  step := step

/-- What `threadsInit` and the constructors of the semaphores leave behind. -/
structure Boot (threads : Threads Core) : Prop where
  idleLive : ∀ core, threads.live (threads.idleThreads core) = true
  idleIs : ∀ core, threads.isIdle (threads.idleThreads core) = true
  idleReal : ∀ core, threads.idleThreads core ≠ 0
  idleApart : ∀ one other, threads.idleThreads one = threads.idleThreads other → one = other
  onlyIdle : ∀ t, threads.live t = true → ∃ core, threads.idleThreads core = t
  active : threads.activeThreads = threads.idleThreads
  outside : ∀ core, threads.phase core = .outside
  noHands : ∀ t, threads.hands t = []
  empty : ∀ name, threads.queues name = .empty
  unlocked : ∀ sem, (threads.sems sem).locked = false
  counts : ∀ sem, (threads.sems sem).count < 2 ^ 32

end Threads

end AC97Kernel
