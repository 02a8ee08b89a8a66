/-
Any number of threads that share an object and its semaphores.

A semaphore of kernel/semaphore.h is seen from outside its lock: `down` either
passes or goes to the end of the queue, and `up` either counts or takes the first
thread from the queue, which `schedule` then makes runnable.  What a thread does
with the object is a program, a point after the other; the instruction at a point
is a critical section of a semaphore or an access to the fields.
-/

import AC97Kernel.Library.StepMachine
import AC97Kernel.Library.Census
import Mathlib.Algebra.Group.Nat.Defs
import Mathlib.Logic.Relation

set_option autoImplicit false

namespace AC97Kernel.Sync

open Function

structure Semaphore (Thread : Type) where
  count : Nat
  waiting : List Thread

/-- An access finds nothing where an assertion of the source fails. -/
inductive Instruction (Sem Data Point : Type) where
  | down (sem : Sem) (next : Point)
  | up (sem : Sem) (next : Point)
  | access (run : Data → Option (Data × Point))

/-- A function is called by going to its first point, if `permits` lets one.  The data
may record the calls. -/
structure Program (Sem Data Point : Type) where
  idle : Point
  permits : Data → Point → Prop
  enter : Data → Point → Data
  code : Point → Instruction Sem Data Point

/-- A thread runs, waits for a semaphore with the points before and after its `down`, has
been taken from the queue, or is about to make the thread runnable that it took. -/
inductive Stage (Thread Sem Point : Type) where
  | running (point : Point)
  | waiting (sem : Sem) (before after : Point)
  | woken (after : Point)
  | waking (other : Thread) (after : Point)
  deriving DecidableEq

structure Crew (Thread Sem Data Point : Type) where
  sems : Sem → Semaphore Thread
  stage : Thread → Stage Thread Sem Point
  data : Data

inductive Action (Thread Point : Type) where
  | call (thread : Thread) (point : Point)
  | run (thread : Thread)
  | schedule (thread : Thread)

variable {Thread Sem Data Point : Type}

namespace Stage

def wake : Stage Thread Sem Point → Stage Thread Sem Point
  | .waiting _ _ after => .woken after
  | stage => stage

def waitsFor : Stage Thread Sem Point → Option Sem
  | .waiting sem _ _ => some sem
  | _ => none

def wakes : Stage Thread Sem Point → Option Thread
  | .waking other _ => some other
  | _ => none

/-- Taken from the queue, but not runnable. -/
def Woken : Stage Thread Sem Point → Prop
  | .woken _ => True
  | _ => False

/-- The point that a thread has come to, as far as what it holds goes. -/
def place : Stage Thread Sem Point → Point
  | .running point => point
  | .waiting _ before _ => before
  | .woken after => after
  | .waking _ after => after

end Stage

section Steps

variable [DecidableEq Thread] [DecidableEq Sem]

namespace Crew

def setStage (crew : Crew Thread Sem Data Point) (thread : Thread)
    (stage : Stage Thread Sem Point) : Crew Thread Sem Data Point :=
  { crew with stage := update crew.stage thread stage }

def setSem (crew : Crew Thread Sem Data Point) (sem : Sem) (semaphore : Semaphore Thread) :
    Crew Thread Sem Data Point :=
  { crew with sems := update crew.sems sem semaphore }

def down (crew : Crew Thread Sem Data Point) (me : Thread) (sem : Sem) (before after : Point) :
    Crew Thread Sem Data Point :=
  if (crew.sems sem).count > 0 then
    (crew.setSem sem { crew.sems sem with count := (crew.sems sem).count - 1 }).setStage me
      (.running after)
  else
    (crew.setSem sem
      { crew.sems sem with waiting := (crew.sems sem).waiting ++ [me] }).setStage me
        (.waiting sem before after)

/-- `up` until it has released its lock. -/
def up (crew : Crew Thread Sem Data Point) (me : Thread) (sem : Sem) (after : Point) :
    Crew Thread Sem Data Point :=
  match (crew.sems sem).waiting with
  | [] =>
      (crew.setSem sem
        { crew.sems sem with count := ((crew.sems sem).count + 1) % 2 ^ 64 }).setStage me
          (.running after)
  | next :: rest =>
      ((crew.setSem sem { crew.sems sem with waiting := rest }).setStage next
        (crew.stage next).wake).setStage me (.waking next after)

end Crew

/-- The next instruction of a thread that runs. -/
def Program.run (program : Program Sem Data Point) (crew : Crew Thread Sem Data Point)
    (thread : Thread) : Option (Crew Thread Sem Data Point) :=
  match crew.stage thread with
  | .running point =>
      match program.code point with
      | .down sem next => some (crew.down thread sem point next)
      | .up sem next => some (crew.up thread sem next)
      | .access run =>
          (run crew.data).map fun (data, next) =>
            { crew.setStage thread (.running next) with data := data }
  | _ => none

/-- The call of `schedule` in `up`. -/
def Crew.schedule (crew : Crew Thread Sem Data Point) (thread : Thread) :
    Option (Crew Thread Sem Data Point) :=
  match crew.stage thread with
  | .waking other after =>
      match crew.stage other with
      | .woken next =>
          some ((crew.setStage other (.running next)).setStage thread (.running after))
      | _ => none
  | _ => none

/-- The threads with their program.  Only a thread that is idle calls. -/
def Program.machine (program : Program Sem Data Point) :
    StepMachine (Crew Thread Sem Data Point) (Action Thread Point) where
  allowed crew
    | .call thread point =>
        crew.stage thread = .running program.idle ∧ program.permits crew.data point
    | _ => True
  step crew
    | .call thread point =>
        some { crew.setStage thread (.running point) with data := program.enter crew.data point }
    | .run thread => program.run crew thread
    | .schedule thread => crew.schedule thread

instance instDecidableAllowed [DecidableEq Point] (program : Program Sem Data Point)
    [∀ data point, Decidable (program.permits data point)] (crew : Crew Thread Sem Data Point)
    (action : Action Thread Point) : Decidable (program.machine.allowed crew action) :=
  match action with
  | .call _ _ => inferInstanceAs (Decidable (_ ∧ _))
  | .run _ => inferInstanceAs (Decidable True)
  | .schedule _ => inferInstanceAs (Decidable True)

/-- Nobody has called yet. -/
def Program.start (program : Program Sem Data Point) (counts : Sem → Nat) (data : Data) :
    Crew Thread Sem Data Point where
  sems sem := { count := counts sem, waiting := [] }
  stage _ := .running program.idle
  data := data

/-- What a step does. -/
inductive Effect (program : Program Sem Data Point) (crew : Crew Thread Sem Data Point) :
    Action Thread Point → Crew Thread Sem Data Point → Prop where
  | enter {thread : Thread} {point : Point} (idle : crew.stage thread = .running program.idle)
      (permitted : program.permits crew.data point) :
      Effect program crew (.call thread point)
        { crew.setStage thread (.running point) with data := program.enter crew.data point }
  | access {thread : Thread} {point next : Point} {run : Data → Option (Data × Point)}
      {data : Data} (here : crew.stage thread = .running point)
      (code : program.code point = .access run) (ran : run crew.data = some (data, next)) :
      Effect program crew (.run thread)
        { crew.setStage thread (.running next) with data := data }
  | pass {thread : Thread} {sem : Sem} {point next : Point}
      (here : crew.stage thread = .running point) (code : program.code point = .down sem next)
      (positive : 0 < (crew.sems sem).count) :
      Effect program crew (.run thread)
        ((crew.setSem sem
          { crew.sems sem with count := (crew.sems sem).count - 1 }).setStage thread
            (.running next))
  | block {thread : Thread} {sem : Sem} {point next : Point}
      (here : crew.stage thread = .running point) (code : program.code point = .down sem next)
      (zero : (crew.sems sem).count = 0) :
      Effect program crew (.run thread)
        ((crew.setSem sem
          { crew.sems sem with waiting := (crew.sems sem).waiting ++ [thread] }).setStage thread
            (.waiting sem point next))
  | raise {thread : Thread} {sem : Sem} {point next : Point}
      (here : crew.stage thread = .running point) (code : program.code point = .up sem next)
      (nobody : (crew.sems sem).waiting = []) :
      Effect program crew (.run thread)
        ((crew.setSem sem
          { crew.sems sem with count := ((crew.sems sem).count + 1) % 2 ^ 64 }).setStage thread
            (.running next))
  | wake {thread other : Thread} {sem : Sem} {point next : Point} {rest : List Thread}
      (here : crew.stage thread = .running point) (code : program.code point = .up sem next)
      (first : (crew.sems sem).waiting = other :: rest) :
      Effect program crew (.run thread)
        (((crew.setSem sem { crew.sems sem with waiting := rest }).setStage other
          (crew.stage other).wake).setStage thread (.waking other next))
  | schedule {thread other : Thread} {next point : Point}
      (here : crew.stage thread = .waking other next)
      (woken : crew.stage other = .woken point) :
      Effect program crew (.schedule thread)
        ((crew.setStage other (.running point)).setStage thread (.running next))

variable {program : Program Sem Data Point} {crew after : Crew Thread Sem Data Point}
  {action : Action Thread Point}

theorem run_effect {thread : Thread} (stepped : program.run crew thread = some after) :
    Effect program crew (.run thread) after := by
  unfold Program.run at stepped
  split at stepped
  · rename_i point here
    split at stepped
    · rename_i sem next code
      unfold Crew.down at stepped
      cases stepped
      split
      · rename_i positive
        exact .pass here code positive
      · rename_i zero
        exact .block here code (Nat.eq_zero_of_not_pos zero)
    · rename_i sem next code
      unfold Crew.up at stepped
      cases stepped
      split
      · rename_i nobody
        exact .raise here code nobody
      · rename_i other rest first
        exact .wake here code first
    · rename_i run code
      obtain ⟨⟨data, next⟩, ran, same⟩ := Option.map_eq_some_iff.mp stepped
      cases same
      exact .access here code ran
  · cases stepped

theorem step_effect (permitted : program.machine.allowed crew action)
    (stepped : program.machine.step crew action = some after) :
    Effect program crew action after := by
  cases action with
  | call thread point =>
      cases stepped
      exact .enter permitted.1 permitted.2
  | run thread => exact run_effect stepped
  | schedule thread =>
      change crew.schedule thread = some after at stepped
      unfold Crew.schedule at stepped
      split at stepped
      · rename_i other next here
        split at stepped
        · rename_i point woken
          cases stepped
          exact .schedule here woken
        · cases stepped
      · cases stepped

end Steps

end AC97Kernel.Sync
