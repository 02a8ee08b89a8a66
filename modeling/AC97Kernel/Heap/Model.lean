/-
The kernel heap, as kernel/heap.cc computes it.

The heap is one array of ints.  Indices are `Int` as in the source; a pointer
is the address `base + 4 * index`.  A function returns `none` where the source
does not come back: `Debug::panic` spins forever, and so does a search that
never meets the end of the free list.  The lock around `malloc` and `free` is
not part of the state: both run under it from beginning to end.
-/

import AC97Kernel.Library.BoundaryTags

set_option autoImplicit false

namespace AC97Kernel

open BoundaryTags

structure Heap where
  base : Int
  array : Int → Int
  len : Int
  avail : Int

namespace Heap

def abs (x : Int) : Int := if x < 0 then -x else x

def size (heap : Heap) (i : Int) : Int := abs (heap.array i)

def headerFromFooter (heap : Heap) (i : Int) : Int := i - heap.size i + 1

def footerFromHeader (heap : Heap) (i : Int) : Int := i + heap.size i - 1

/-- The checks of `sanity` stand behind `safe`, which is 0 and never assigned;
what is left returns the argument. -/
def sanity (i : Int) : Int := i

def left (heap : Heap) (i : Int) : Int := sanity (heap.headerFromFooter (i - 1))

def right (heap : Heap) (i : Int) : Int := sanity (i + heap.size i)

def next (heap : Heap) (i : Int) : Int := sanity (heap.array (i + 1))

def prev (heap : Heap) (i : Int) : Int := sanity (heap.array (i + 2))

def set (heap : Heap) (i value : Int) : Heap :=
  { heap with array := Function.update heap.array i value }

def setNext (heap : Heap) (i x : Int) : Heap := heap.set (i + 1) x

def setPrev (heap : Heap) (i x : Int) : Heap := heap.set (i + 2) x

def remove (heap : Heap) (i : Int) : Heap :=
  let prevIndex := heap.prev i
  let nextIndex := heap.next i
  let heap :=
    if prevIndex = 0 then { heap with avail := nextIndex }
    else heap.setNext prevIndex nextIndex
  if nextIndex ≠ 0 then heap.setPrev nextIndex prevIndex else heap

def makeAvail (heap : Heap) (i ints : Int) : Heap :=
  let heap := heap.set i ints
  let heap := heap.set (heap.footerFromHeader i) ints
  let heap := heap.setNext i heap.avail
  let heap := heap.setPrev i 0
  let heap := if heap.avail ≠ 0 then heap.setPrev heap.avail i else heap
  { heap with avail := i }

def makeTaken (heap : Heap) (i ints : Int) : Heap :=
  let heap := heap.set i (-ints)
  heap.set (heap.footerFromHeader i) (-ints)

def isAvail (heap : Heap) (i : Int) : Bool := 0 < heap.array i

def isTaken (heap : Heap) (i : Int) : Bool := heap.array i < 0

/-- The three blocks `heapInit` lays out over `bytes` bytes of memory at `base`,
before it allocates the lock. -/
def initBlocks (base : UInt32) (memory : Int → Int) (bytes : UInt32) : Heap :=
  let heap : Heap :=
    { base := base.toNat
      array := memory
      len := (bytes / 4).toNat
      avail := 0 }
  let heap := heap.makeTaken 0 2
  let heap := heap.makeAvail 2 (heap.len - 4)
  heap.makeTaken (heap.len - 2) 2

/-- The block size, in ints, that a request of `bytes` bytes asks for. -/
def intsFor (bytes : UInt32) : Int :=
  let ints : Int := ((bytes + 3) / 4 + 2).toNat
  if ints < 4 then 4 else ints

/-- The search loop of `malloc`.  It stops at the end of the list or when
`countDown` fitting blocks were seen, and returns the best size and its index. -/
def search (heap : Heap) (ints : Int) :
    Nat → (p : Int) → (countDown : Nat) → (mx it : Int) → Option (Int × Int)
  | 0, _, _, _, _ => none
  | fuel + 1, p, countDown, mx, it =>
      if p = 0 then some (mx, it)
      else if !heap.isAvail p then none
      else
        let sz := heap.size p
        if sz ≥ ints then
          let best := if sz < mx then (sz, p) else (mx, it)
          if countDown - 1 = 0 then some best
          else search heap ints fuel (heap.next p) (countDown - 1) best.1 best.2
        else search heap ints fuel (heap.next p) countDown mx it

def malloc (heap : Heap) (bytes : UInt32) : Option (Heap × Int) :=
  if bytes = 0 then some (heap, heap.base)
  else
    let ints := intsFor bytes
    -- a list of blocks has fewer nodes than the array has words
    (heap.search ints (heap.len.toNat + 1) heap.avail 20 0x7FFFFFFF 0).map fun best =>
      let mx := best.1
      let it := best.2
      if it ≠ 0 then
        let res := heap.base + 4 * (it + 1)
        let heap := heap.remove it
        let extra := mx - ints
        if extra ≥ 4 then
          let heap := heap.makeTaken it ints
          (heap.makeAvail (it + ints) extra, res)
        else
          (heap.makeTaken it mx, res)
      else (heap, 0)

def free (heap : Heap) (p : Int) : Option Heap :=
  if p = 0 then some heap
  else if p = heap.base then some heap
  else
    let idx := (p - heap.base) % 4294967296 / 4 - 1
    if !heap.isTaken idx then none
    else
      let sz := heap.size idx
      let leftIndex := heap.left idx
      let rightIndex := heap.right idx
      let (heap, idx, sz) :=
        if heap.isAvail leftIndex then
          let heap := heap.remove leftIndex
          (heap, leftIndex, sz + heap.size leftIndex)
        else (heap, idx, sz)
      let (heap, sz) :=
        if heap.isAvail rightIndex then
          let heap := heap.remove rightIndex
          (heap, sz + heap.size rightIndex)
        else (heap, sz)
      some (heap.makeAvail idx sz)

/-- `operator new`: out of memory is a panic. -/
def operatorNew (heap : Heap) (size : UInt32) : Option (Heap × Int) :=
  (heap.malloc size).bind fun result => if result.2 = 0 then none else some result

/-- On i386: the 8-byte count, the lock, the waiting queue and the reference count. -/
def sizeofBlockingLock : UInt32 := 32

/-- `heapInit`; the second component is the address of `theLock`. -/
def heapInit (base : UInt32) (memory : Int → Int) (bytes : UInt32) : Option (Heap × Int) :=
  (initBlocks base memory bytes).operatorNew sizeofBlockingLock

/-! ### The words of the heap as an arena -/

def arena (heap : Heap) : Arena :=
  { words := heap.array
    head := heap.avail }

theorem abs_of_nonneg {x : Int} (nonneg : 0 ≤ x) : abs x = x := by
  unfold abs
  rw [if_neg (by omega)]

theorem abs_neg_of_nonneg {x : Int} (nonneg : 0 ≤ x) : abs (-x) = x := by
  unfold abs
  split <;> omega

@[simp] theorem arena_words (heap : Heap) : heap.arena.words = heap.array := rfl

@[simp] theorem arena_head (heap : Heap) : heap.arena.head = heap.avail := rfl

@[simp] theorem arena_next (heap : Heap) (i : Int) : heap.arena.links.next i = heap.next i := rfl

@[simp] theorem arena_prev (heap : Heap) (i : Int) : heap.arena.links.prev i = heap.prev i := rfl

theorem remove_arena (heap : Heap) (i : Int) :
    (heap.remove i).arena = heap.arena.unlink i := by
  apply Arena.ext
  · by_cases atHead : heap.prev i = 0 <;> by_cases atEnd : heap.next i = 0 <;>
      simp [remove, Arena.unlink, Arena.unlinkWords, atHead, atEnd, setNext, setPrev, set]
  · by_cases atHead : heap.prev i = 0 <;> by_cases atEnd : heap.next i = 0 <;>
      simp [remove, Arena.unlink, Arena.unlinkHead, atHead, atEnd, setNext, setPrev, set]

theorem makeTaken_arena (heap : Heap) (i : Int) {ints : Int} (nonneg : 0 ≤ ints) :
    (heap.makeTaken i ints).arena = heap.arena.claim i ints := by
  apply Arena.ext
  · simp [makeTaken, Arena.claim, set, footerFromHeader, size, abs_neg_of_nonneg nonneg]
  · rfl

theorem makeAvail_arena (heap : Heap) (i : Int) {ints : Int} (nonneg : 0 ≤ ints) :
    (heap.makeAvail i ints).arena = heap.arena.release i ints := by
  apply Arena.ext
  · by_cases empty : heap.avail = 0 <;>
      simp [makeAvail, Arena.release, Arena.releaseWords, empty, set, setNext, setPrev,
        footerFromHeader, size, abs_of_nonneg nonneg]
  · rfl

/-- Tagging a taken block writes inside it. -/
theorem makeTaken_word (heap : Heap) {i ints word : Int} (positive : 1 ≤ ints)
    (outside : word < i ∨ i + ints ≤ word) :
    (heap.makeTaken i ints).array word = heap.array word := by
  have claimed : (heap.arena.claim i ints).words word = heap.arena.words word :=
    Shape.claim_word heap.arena (by omega) (by omega)
  rw [← makeTaken_arena heap i (by omega)] at claimed
  exact claimed

/-- Tagging an available block writes inside it and into the old head's link. -/
theorem makeAvail_word (heap : Heap) {i ints word : Int} (least : 4 ≤ ints)
    (outside : word < i ∨ i + ints ≤ word)
    (notHeadLink : heap.avail ≠ 0 → word ≠ heap.avail + 2) :
    (heap.makeAvail i ints).array word = heap.array word := by
  have released := Shape.release_word heap.arena least outside notHeadLink
  rw [← makeAvail_arena heap i (by omega)] at released
  exact released

@[simp] theorem remove_base (heap : Heap) (i : Int) : (heap.remove i).base = heap.base := by
  unfold remove
  by_cases atHead : heap.prev i = 0 <;> by_cases atEnd : heap.next i = 0 <;>
    simp [atHead, atEnd, setNext, setPrev, set]

@[simp] theorem remove_len (heap : Heap) (i : Int) : (heap.remove i).len = heap.len := by
  unfold remove
  by_cases atHead : heap.prev i = 0 <;> by_cases atEnd : heap.next i = 0 <;>
    simp [atHead, atEnd, setNext, setPrev, set]

@[simp] theorem makeTaken_base (heap : Heap) (i ints : Int) :
    (heap.makeTaken i ints).base = heap.base := rfl

@[simp] theorem makeTaken_len (heap : Heap) (i ints : Int) :
    (heap.makeTaken i ints).len = heap.len := rfl

@[simp] theorem makeAvail_base (heap : Heap) (i ints : Int) :
    (heap.makeAvail i ints).base = heap.base := by
  unfold makeAvail
  by_cases empty : heap.avail = 0 <;> simp [empty, setNext, setPrev, set]

@[simp] theorem makeAvail_len (heap : Heap) (i ints : Int) :
    (heap.makeAvail i ints).len = heap.len := by
  unfold makeAvail
  by_cases empty : heap.avail = 0 <;> simp [empty, setNext, setPrev, set]

end Heap

end AC97Kernel
