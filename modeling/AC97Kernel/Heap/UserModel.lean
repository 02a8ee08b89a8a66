/-
The heap of a user program, as t0.dir/sbin/heap.c computes it.

The functions that the file shares with kernel/heap.cc word for word are those of
the kernel heap.  `sanity` is compiled in here, and a bad index does not stop the
program.  `memcpy` is the loop of t0.dir/sbin/machine.S.
-/

import AC97Kernel.Heap.Contract
import AC97Kernel.Library.WordBytes

set_option autoImplicit false

namespace AC97Kernel.UserHeap

open Heap WordBytes

def INTS : Int := 0x100000

/-- All the checks of `sanity` come to the same. -/
def sanity (heap : Heap) (i : Int) : Int :=
  if i = 0 then 0
  else if i < 0 ∨ i ≥ heap.len then i
  else
    let footer := heap.footerFromHeader i
    if footer < 0 ∨ footer ≥ heap.len then i
    else
      let hv := heap.array i
      let fv := heap.array footer
      if hv ≠ fv then i else i

def left (heap : Heap) (i : Int) : Int := sanity heap (heap.headerFromFooter (i - 1))

def right (heap : Heap) (i : Int) : Int := sanity heap (i + heap.size i)

def next1 (heap : Heap) (i : Int) : Int := sanity heap (heap.array (i + 1))

def prev1 (heap : Heap) (i : Int) : Int := sanity heap (heap.array (i + 2))

def remove (heap : Heap) (i : Int) : Heap :=
  let prevIndex := prev1 heap i
  let nextIndex := next1 heap i
  let heap :=
    if prevIndex = 0 then { heap with avail := nextIndex }
    else heap.setNext prevIndex nextIndex
  if nextIndex ≠ 0 then heap.setPrev nextIndex prevIndex else heap

/-- `heap_init`; `memory` is what the array holds when the program starts. -/
def heapInit (base : UInt32) (memory : Int → Int) : Heap :=
  let heap : Heap := { base := base.toNat, array := memory, len := INTS, avail := 0 }
  let heap := heap.makeTaken 0 2
  let heap := heap.makeAvail 2 (heap.len - 4)
  heap.makeTaken (heap.len - 2) 2

/-- The loop of `malloc` up to the block that it takes, or to 0. -/
def search (heap : Heap) (ints : Int) : Nat → Int → Option Int
  | 0, _ => none
  | fuel + 1, p =>
      if p = 0 then some 0
      else if heap.size p ≥ ints then some p
      else search heap ints fuel (next1 heap p)

def malloc (heap : Heap) (bytes : UInt32) : Option (Heap × Int) :=
  if bytes = 0 then some (heap, heap.base)
  else
    let ints := intsFor bytes
    -- a list of blocks has fewer nodes than the array has words
    (search heap ints (heap.len.toNat + 1) heap.avail).map fun p =>
      if p ≠ 0 then
        let sz := heap.size p
        let res := heap.base + 4 * (p + 1)
        let heap := remove heap p
        let extra := sz - ints
        if extra ≥ 4 then
          let heap := heap.makeTaken p ints
          (heap.makeAvail (p + ints) extra, res)
        else (heap.makeTaken p sz, res)
      else (heap, 0)

/-- The difference of the two `long`s wraps, and the division rounds towards 0. -/
def indexOf (heap : Heap) (p : Int) : Int :=
  Int.tdiv (Int.bmod (p - heap.base) (2 ^ 32)) 4 - 1

def free (heap : Heap) (p : Int) : Heap :=
  if p = 0 then heap
  else if p = heap.base then heap
  else
    let idx := indexOf heap p
    if !heap.isTaken idx then heap
    else
      let sz := heap.size idx
      let leftIndex := left heap idx
      let rightIndex := right heap idx
      let (heap, idx, sz) :=
        if heap.isAvail leftIndex then
          let heap := remove heap leftIndex
          (heap, leftIndex, sz + heap.size leftIndex)
        else (heap, idx, sz)
      let (heap, sz) :=
        if heap.isAvail rightIndex then
          let heap := remove heap rightIndex
          (heap, sz + heap.size rightIndex)
        else (heap, sz)
      heap.makeAvail idx sz

def loadByte (heap : Heap) (address : Int) : Int := load heap.array (address - heap.base)

def storeByte (heap : Heap) (address value : Int) : Heap :=
  { heap with array := store heap.array (address - heap.base) value }

/-- The counter of the loop is signed. -/
def memcpy (heap : Heap) (dest src : Int) (n : UInt32) : Heap :=
  { heap with
    array := copy (Int.bmod n.toNat (2 ^ 32)).toNat heap.array (dest - heap.base)
      (src - heap.base) }

def realloc (heap : Heap) (p : Int) (newSize : UInt32) : Option (Heap × Int) :=
  if p = 0 then malloc heap newSize
  else if newSize = 0 then some (free heap p, 0)
  else
    let idx := indexOf heap p
    if !heap.isTaken idx then some (heap, 0)
    else
      let sz := heap.size idx * 4
      (malloc heap newSize).map fun (heap, newPtr) =>
        let heap :=
          if newPtr ≠ 0 then
            let m := if newSize.toNat > sz then UInt32.ofNat sz.toNat else newSize
            memcpy heap newPtr p m
          else heap
        (free heap p, newPtr)

end AC97Kernel.UserHeap
