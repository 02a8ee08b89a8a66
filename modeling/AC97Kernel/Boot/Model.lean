/-
How the cores start, from kernel/mbr.S to the end of `kernelInit` in kernel/init.cc.

Core 0 comes from the boot sector.  It sets up what all cores share and then starts the
others, one after the other, with two interrupts from its local APIC.  A core takes one
step at a time, and spins as long as it can not go on.  `done` and `initProcs` are no
variables of the source: they record what has been set up and made.
-/

import AC97Kernel.Library.StepMachine
import Mathlib.Algebra.Group.Nat.Defs
import Mathlib.Logic.Function.Basic

set_option autoImplicit false

namespace AC97Kernel.KernelInit

open Function

/-- What `kernelInit` sets up for all cores, by the calls and the flag of its first branch. -/
inductive Stage where
  | debugInit
  | configInit
  | heapInit
  | dynamicUart
  | physMemInit
  | vmmGlobalInit
  | globalConstructors
  | sysInit
  | threadsInit
  | smpInit
  | smpInitDone
  | findAC97
  | idtInit
  | calibrate
  deriving DecidableEq

/-- The order of the source. -/
def Stage.all : List Stage :=
  [debugInit, configInit, heapInit, dynamicUart, physMemInit, vmmGlobalInit, globalConstructors,
    sysInit, threadsInit, smpInit, smpInitDone, findAC97, idtInit, calibrate]

/-- Where a core is: in front of the step of that name. -/
inductive Point where
  | off
  /-- It has had an INIT and waits for a STARTUP. -/
  | waiting
  /-- In `kk` of mbr.S, with `tempStack`, in front of `pickKernelStack`. -/
  | picking
  | kernelInit
  | shared (left : List Stage)
  /-- The head of the loop over the other cores. -/
  | starting (id : Nat)
  | ipiInit (id : Nat)
  | ipiStartup (id : Nat)
  | spin (id : Nat)
  | addRunning
  | smpInit
  | perCoreInit
  | pitInit
  | setTss
  | sti
  | arrive
  | ordered (myOrder : Nat)
  | stopped
  deriving DecidableEq

inductive Stack where
  | temp
  | kernel (index : Nat)
  deriving DecidableEq

structure Cores where
  point : Nat → Point
  stack : Nat → Option Stack
  smpInitDone : Bool
  running : Nat
  howManyAreHere : Nat
  done : List Stage
  initProcs : Nat

namespace Cores

def go (cores : Cores) (core : Nat) (target : Point) : Cores :=
  { cores with point := update cores.point core target }

/-- `add_fetch` of a 32-bit counter. -/
def addFetch (count : Nat) : Nat := (count + 1) % 2 ^ 32

/-- An INIT stops its core, whatever the core is at. -/
def receiveInit (cores : Cores) (id : Nat) : Cores :=
  { cores.go id .waiting with stack := update cores.stack id none }

/-- A STARTUP does nothing to a core that has had no INIT. -/
def receiveStartup (cores : Cores) (id : Nat) : Cores :=
  if cores.point id = .waiting then
    { cores.go id .picking with stack := update cores.stack id (some .temp) }
  else cores

def pickKernelStack (cores : Cores) (core : Nat) : Stack :=
  .kernel (if cores.smpInitDone then core else 0)

/-- One step of a core; there is none while it is off or waits, in the spin and at the end. -/
def step (totalProcs : Nat) (cores : Cores) (core : Nat) : Option Cores :=
  match cores.point core with
  | .off | .waiting | .stopped => none
  | .picking =>
      some
        { cores.go core .kernelInit with
          stack := update cores.stack core (some (cores.pickKernelStack core)) }
  | .kernelInit =>
      some (cores.go core (if cores.smpInitDone then .addRunning else .shared Stage.all))
  | .shared (stage :: left) =>
      some
        { cores.go core (.shared left) with
          smpInitDone := cores.smpInitDone || stage == .smpInitDone
          done := cores.done ++ [stage] }
  | .shared [] => some { cores.go core (.starting 1) with running := addFetch cores.running }
  | .starting id => some (cores.go core (if id < totalProcs then .ipiInit id else .perCoreInit))
  | .ipiInit id => some ((cores.receiveInit id).go core (.ipiStartup id))
  | .ipiStartup id => some ((cores.receiveStartup id).go core (.spin id))
  | .spin id => if cores.running ≤ id then none else some (cores.go core (.starting (id + 1)))
  | .addRunning => some { cores.go core .smpInit with running := addFetch cores.running }
  | .smpInit => some (cores.go core .perCoreInit)
  | .perCoreInit => some (cores.go core .pitInit)
  | .pitInit => some (cores.go core .setTss)
  | .setTss => some (cores.go core .sti)
  | .sti => some (cores.go core .arrive)
  | .arrive =>
      some
        { cores.go core (.ordered (addFetch cores.howManyAreHere)) with
          howManyAreHere := addFetch cores.howManyAreHere }
  | .ordered myOrder =>
      some
        { cores.go core .stopped with
          initProcs := if myOrder = totalProcs then cores.initProcs + 1 else cores.initProcs }

/-- Core 0 comes from the boot sector, and the others are off. -/
def start : Cores where
  point core := if core = 0 then .picking else .off
  stack core := if core = 0 then some .temp else none
  smpInitDone := false
  running := 0
  howManyAreHere := 0
  done := []
  initProcs := 0

end Cores

/-- The cores take turns in any order. -/
def machine (totalProcs : Nat) : StepMachine Cores Nat where
  allowed _ _ := True
  step := Cores.step totalProcs

end AC97Kernel.KernelInit
