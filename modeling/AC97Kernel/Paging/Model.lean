/-
Frames, page tables and the copying half of fork, as kernel/physmem.cc,
kernel/vmm.cc and kernel/process.cc compute them.

Addresses and words are natural numbers below 2^32.  A frame is named by its
address and holds 1024 words.  A function returns `none` where the source
panics, in `Debug::panic` or in a failed `ASSERT`.  The kernel reads and writes
frames under the addresses they have in physical memory, which the shared
directory maps to themselves.  `invlpg` only drops a cached translation and
there is no such cache here.
-/

import AC97Kernel.Library.Loops
import Mathlib.Algebra.Group.Nat.Defs
import Mathlib.Logic.Function.Basic

set_option autoImplicit false

namespace AC97Kernel

open Loops

structure Config where
  memSize : Nat
  ioAPIC : Nat
  localAPIC : Nat

structure PhysMem where
  frames : Nat → Nat → Nat
  firstFree : Nat
  avail : Nat
  limit : Nat

namespace PhysMem

def frameSize : Nat := 4096

def offset (pa : Nat) : Nat := pa &&& 0xFFF

def framedown (pa : Nat) : Nat := pa / frameSize * frameSize

def setWord (mem : PhysMem) (frame index word : Nat) : PhysMem :=
  { mem with
    frames := Function.update mem.frames frame
      (Function.update (mem.frames frame) index word) }

def bzero (mem : PhysMem) (frame : Nat) : PhysMem :=
  { mem with frames := Function.update mem.frames frame (fun _ => 0) }

/-- `memcpy` of `words` words from the start of one frame to the start of another. -/
def memcpy (mem : PhysMem) (dest src words : Nat) : PhysMem :=
  { mem with
    frames := Function.update mem.frames dest
      (fun index => if index < words then mem.frames src index else mem.frames dest index) }

def allocFrame (mem : PhysMem) : Option (PhysMem × Nat) :=
  let taken : Option (PhysMem × Nat) :=
    if mem.firstFree ≠ 0 then
      some ({ mem with firstFree := mem.frames mem.firstFree 0 }, mem.firstFree)
    else if mem.avail = mem.limit then none
    else some ({ mem with avail := (mem.avail + frameSize) % 2 ^ 32 }, mem.avail)
  taken.bind fun (mem, p) => if offset p = 0 then some (mem.bzero p, p) else none

def deallocFrame (mem : PhysMem) (p : Nat) : Option PhysMem :=
  if offset p = 0 then some { mem.setWord p 0 mem.firstFree with firstFree := p } else none

/-- `frames` is what the memory holds when the machine starts. -/
def init (frames : Nat → Nat → Nat) (start size : Nat) : Option PhysMem :=
  if offset start = 0 ∧ offset size = 0 then
    some
      { frames := frames
        firstFree := 0
        avail := start
        limit := (start + size) % 2 ^ 32 }
  else none

end PhysMem

namespace VMM

open PhysMem

def isSpecial (config : Config) (va : Nat) : Bool :=
  va < 0x80000000 || va = config.ioAPIC || va = config.localAPIC

def map (config : Config) (mem : PhysMem) (pd va pa : Nat) : Option PhysMem :=
  let shared := va < 0x80000000 ∨ va = config.ioAPIC ∨ va = config.localAPIC
  let num := if shared then 3 else 7
  let pdi := va >>> 22
  let pti := (va >>> 12) &&& 0x3FF
  let pde := mem.frames pd pdi
  let entered : Option (PhysMem × Nat) :=
    if pde &&& 1 = 0 then
      mem.allocFrame.map fun (mem, frame) => (mem.setWord pd pdi (frame ||| num), frame ||| num)
    else some (mem, pde)
  entered.map fun (mem, pde) => mem.setWord (pde &&& 0xFFFFF000) pti (pa ||| num)

/-- How many directory entries `make_pd` copies: four bytes for every 4 MB of memory. -/
def sharedEntries (config : Config) : Nat := (config.memSize + 0x400000 - 1) / 0x400000

def makePd (config : Config) (shared : Nat) (mem : PhysMem) : Option (PhysMem × Nat) :=
  mem.allocFrame.bind fun (mem, pd) =>
    (map config (mem.memcpy pd shared (sharedEntries config)) pd
        config.ioAPIC config.ioAPIC).bind fun mem =>
      (map config mem pd config.localAPIC config.localAPIC).map fun mem => (mem, pd)

/-- The virtual address that a directory index and a table index stand for. -/
def address (pdi pti : Nat) : Nat := (pdi <<< 22) ||| (pti <<< 12)

/-- The inner loop of `delete_private`; the flag is `contains_special`. -/
def clearEntry (config : Config) (pdi pt pti : Nat) (state : PhysMem × Bool) :
    Option (PhysMem × Bool) :=
  if isSpecial config (address pdi pti) then some (state.1, true)
  else
    let pte := state.1.frames pt pti
    if pte &&& 1 = 0 then some state
    else
      let frame := pte &&& 0xFFFFF000
      ((state.1.setWord pt pti 0).deallocFrame frame).map fun mem => (mem, state.2)

def clearTable (config : Config) (pd pdi : Nat) (mem : PhysMem) : Option PhysMem :=
  let pde := mem.frames pd pdi
  if pde &&& 1 = 0 then some mem
  else
    let pt := pde &&& 0xFFFFF000
    (forRange (clearEntry config pdi pt) 0 1024 (mem, false)).bind fun (mem, containsSpecial) =>
      if containsSpecial then some mem else (mem.setWord pd pdi 0).deallocFrame pt

def deletePrivate (config : Config) (cr3 pd : Nat) (mem : PhysMem) : Option PhysMem :=
  if pd = cr3 then forRange (clearTable config pd) 512 512 mem else none

/-- The inner loop of `delete_pd`. -/
def dropEntry (config : Config) (pdi pt pti : Nat) (mem : PhysMem) : Option PhysMem :=
  let pte := mem.frames pt pti
  if pte &&& 1 = 0 then some mem
  else
    let frame := pte &&& 0xFFFFF000
    if isSpecial config (address pdi pti) then some mem else mem.deallocFrame frame

def dropTable (config : Config) (pd pdi : Nat) (mem : PhysMem) : Option PhysMem :=
  let pde := mem.frames pd pdi
  if pde &&& 1 = 0 then some mem
  else
    let pt := pde &&& 0xFFFFF000
    (forRange (dropEntry config pdi pt) 0 1024 mem).bind fun mem => mem.deallocFrame pt

def deletePd (config : Config) (cr3 pd : Nat) (mem : PhysMem) : Option PhysMem :=
  if pd ≠ cr3 then
    (forRange (dropTable config pd) 512 512 mem).bind fun mem => mem.deallocFrame pd
  else none

/-- Returns the shared directory.  The loop runs over the frames from the second
one up to the end of memory; with at most 2 GB its counter does not wrap. -/
def globalInit (config : Config) (mem : PhysMem) : Option (PhysMem × Nat) :=
  mem.allocFrame.bind fun (mem, shared) =>
    let pages := (config.memSize + frameSize - 1) / frameSize - 1
    (forRange (fun page mem => map config mem shared (page * frameSize) (page * frameSize))
      1 pages mem).map fun mem => (mem, shared)

inductive FaultOutcome where
  | resumed (mem : PhysMem)
  | exited

/-- `pd` belongs to the current process and `saved` is `me->saveArea.cr3`. -/
def pageFault (config : Config) (cr3 pd saved address : Nat) (mem : PhysMem) :
    Option FaultOutcome :=
  if pd = cr3 ∧ saved = cr3 then
    let va := framedown address
    if 0x80000000 ≤ va then
      mem.allocFrame.bind fun (mem, pa) => (map config mem pd va pa).map FaultOutcome.resumed
    else some .exited
  else none

end VMM

/-- The fields of `Process` that fork copies or changes.  A null `Shared` is `none`. -/
structure Process (File Semaphore Output : Type) where
  files : Fin 10 → Option File
  sems : Fin 10 → Option Semaphore
  children : Fin 10 → Option Output
  output : Output
  pd : Nat

namespace Process

open PhysMem VMM

/-- The body of the loop over the table entries in `Process::fork`. -/
def copyEntry (parentPt childPt pti : Nat) (mem : PhysMem) : Option PhysMem :=
  let childPte := mem.frames childPt pti
  if childPte &&& 1 = 1 then some mem
  else
    let parentPte := mem.frames parentPt pti
    if parentPte &&& 1 = 0 then some mem
    else
      let parentFrame := parentPte &&& 0xFFFFF000
      mem.allocFrame.map fun (mem, childFrame) =>
        (mem.memcpy childFrame parentFrame 1024).setWord childPt pti (childFrame ||| 7)

def copyTable (pd childPd pdi : Nat) (mem : PhysMem) : Option PhysMem :=
  let parentPde := mem.frames pd pdi
  if parentPde &&& 1 = 0 then some mem
  else
    let parentPt := parentPde &&& 0xFFFFF000
    let childPde := mem.frames childPd pdi
    let prepared : Option (PhysMem × Nat) :=
      if childPde &&& 1 = 0 then
        mem.allocFrame.map fun (mem, childPt) =>
          (mem.setWord childPd pdi (childPt ||| 7), childPt)
      else some (mem, childPde &&& 0xFFFFF000)
    prepared.bind fun (mem, childPt) => forRange (copyEntry parentPt childPt) 0 1024 mem

/-- The loop of `Process::fork` over the private half of the directory. -/
def copyPrivate (pd childPd : Nat) (mem : PhysMem) : Option PhysMem :=
  forRange (copyTable pd childPd) 512 512 mem

/-- What a call of `Process::fork` leaves behind. -/
structure Forked (File Semaphore Output : Type) where
  mem : PhysMem
  parent : Process File Semaphore Output
  child : Option (Process File Semaphore Output)
  id : Int

variable {File Semaphore Output : Type}

/-- `output` is the future that the constructor of the child allocates. -/
def fork (config : Config) (shared : Nat) (mem : PhysMem)
    (parent : Process File Semaphore Output) (output : Output) :
    Option (Forked File Semaphore Output) :=
  match (List.finRange 10).find? (fun index => (parent.children index).isNone) with
  | none => some { mem := mem, parent := parent, child := none, id := -1 }
  | some index =>
      (makePd config shared mem).bind fun (mem, childPd) =>
        (copyPrivate parent.pd childPd mem).map fun mem =>
          { mem := mem
            parent :=
              { parent with children := Function.update parent.children index (some output) }
            child := some
              { files := parent.files
                sems := parent.sems
                children := fun _ => none
                output := output
                pd := childPd }
            id := ((0x10000000 ||| index.val : Nat) : Int) }

end Process

end AC97Kernel
