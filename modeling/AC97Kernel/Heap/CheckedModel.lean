/-
The heap of a user program with every index of `array` checked.

These are the functions of the user heap once more, this time with each read and
each write of the array where t0.dir/sbin/heap.c makes it.  A program that would
reach outside the array stops there.  Where every index is inside, a function
returns what the unchecked one returns.
-/

import AC97Kernel.Heap.UserContract

set_option autoImplicit false

namespace AC97Kernel.UserHeap.Checked

open BoundaryTags LinkedChain Heap WordBytes

/-- Why the program does not come back. -/
inductive Stop where
  | outside (index : Int)
  | endless
deriving DecidableEq

def InArray (i : Int) : Prop := 0 ≤ i ∧ i < INTS

instance (i : Int) : Decidable (InArray i) := inferInstanceAs (Decidable (_ ∧ _))

def word (heap : Heap) (i : Int) : Except Stop Int :=
  if InArray i then .ok (heap.array i) else .error (.outside i)

def put (heap : Heap) (i value : Int) : Except Stop Heap :=
  if InArray i then .ok (heap.set i value) else .error (.outside i)

/-! ### The functions -/

def size (heap : Heap) (i : Int) : Except Stop Int := do
  return Heap.abs (← word heap i)

def headerFromFooter (heap : Heap) (i : Int) : Except Stop Int := do
  return i - (← size heap i) + 1

def footerFromHeader (heap : Heap) (i : Int) : Except Stop Int := do
  return i + (← size heap i) - 1

def sanity (heap : Heap) (i : Int) : Except Stop Int :=
  if i = 0 then .ok 0
  else if i < 0 ∨ i ≥ heap.len then .ok i
  else do
    let footer ← footerFromHeader heap i
    if footer < 0 ∨ footer ≥ heap.len then return i
    else
      let hv ← word heap i
      let fv ← word heap footer
      return if hv ≠ fv then i else i

def left (heap : Heap) (i : Int) : Except Stop Int := do
  sanity heap (← headerFromFooter heap (i - 1))

def right (heap : Heap) (i : Int) : Except Stop Int := do
  sanity heap (i + (← size heap i))

def next1 (heap : Heap) (i : Int) : Except Stop Int := do
  sanity heap (← word heap (i + 1))

def prev1 (heap : Heap) (i : Int) : Except Stop Int := do
  sanity heap (← word heap (i + 2))

def setNext (heap : Heap) (i x : Int) : Except Stop Heap := put heap (i + 1) x

def setPrev (heap : Heap) (i x : Int) : Except Stop Heap := put heap (i + 2) x

def remove (heap : Heap) (i : Int) : Except Stop Heap := do
  let prevIndex ← prev1 heap i
  let nextIndex ← next1 heap i
  let heap ←
    if prevIndex = 0 then .ok { heap with avail := nextIndex }
    else setNext heap prevIndex nextIndex
  if nextIndex ≠ 0 then setPrev heap nextIndex prevIndex else .ok heap

def makeAvail (heap : Heap) (i ints : Int) : Except Stop Heap := do
  let heap ← put heap i ints
  let heap ← put heap (← footerFromHeader heap i) ints
  let heap ← setNext heap i heap.avail
  let heap ← setPrev heap i 0
  let heap ← if heap.avail ≠ 0 then setPrev heap heap.avail i else .ok heap
  return { heap with avail := i }

def makeTaken (heap : Heap) (i ints : Int) : Except Stop Heap := do
  let heap ← put heap i (-ints)
  put heap (← footerFromHeader heap i) (-ints)

def isAvail (heap : Heap) (i : Int) : Except Stop Bool := do
  return 0 < (← word heap i)

def isTaken (heap : Heap) (i : Int) : Except Stop Bool := do
  return (← word heap i) < 0

/-- What `isAvail` says about a node makes no difference here. -/
def search (heap : Heap) (ints : Int) : Nat → Int → Except Stop Int
  | 0, _ => .error .endless
  | fuel + 1, p =>
      if p = 0 then .ok 0
      else do
        let _ ← isAvail heap p
        let sz ← size heap p
        if sz ≥ ints then return p else search heap ints fuel (← next1 heap p)

/-- What `malloc` makes of the block that it found. -/
def take (heap : Heap) (p ints : Int) : Except Stop (Heap × Int) := do
  let sz ← size heap p
  let res := heap.base + 4 * (p + 1)
  let heap ← remove heap p
  let extra := sz - ints
  if extra ≥ 4 then
    let heap ← makeTaken heap p ints
    return (← makeAvail heap (p + ints) extra, res)
  else return (← makeTaken heap p sz, res)

def malloc (heap : Heap) (bytes : UInt32) : Except Stop (Heap × Int) :=
  if bytes = 0 then .ok (heap, heap.base)
  else do
    let ints := intsFor bytes
    let _ ← sanity heap heap.avail
    let p ← search heap ints (heap.len.toNat + 1) heap.avail
    if p ≠ 0 then take heap p ints else return (heap, 0)

/-- The neighbour at `i` of a freed block of `sz` words leaves the list when it is available. -/
def absorb (avail : Bool) (heap : Heap) (i sz : Int) : Except Stop (Heap × Int) :=
  if avail then do
    let heap ← remove heap i
    return (heap, sz + (← size heap i))
  else .ok (heap, sz)

def free (heap : Heap) (p : Int) : Except Stop Heap :=
  if p = 0 then .ok heap
  else if p = heap.base then .ok heap
  else do
    let idx := indexOf heap p
    let _ ← sanity heap idx
    if !(← isTaken heap idx) then .ok heap
    else do
      let sz ← size heap idx
      let leftIndex ← left heap idx
      let rightIndex ← right heap idx
      let leftAvail ← isAvail heap leftIndex
      let (heap, sz) ← absorb leftAvail heap leftIndex sz
      let idx := if leftAvail then leftIndex else idx
      let (heap, sz) ← absorb (← isAvail heap rightIndex) heap rightIndex sz
      makeAvail heap idx sz

def loadByte (heap : Heap) (address : Int) : Except Stop Int := do
  let _ ← word heap ((address - heap.base) / 4)
  return UserHeap.loadByte heap address

def storeByte (heap : Heap) (address value : Int) : Except Stop Heap := do
  let _ ← word heap ((address - heap.base) / 4)
  return UserHeap.storeByte heap address value

def copy : Nat → Heap → (dest src : Int) → Except Stop Heap
  | 0, heap, _, _ => .ok heap
  | count + 1, heap, dest, src => do
      let value ← loadByte heap src
      let heap ← storeByte heap dest value
      copy count heap (dest + 1) (src + 1)

def memcpy (heap : Heap) (dest src : Int) (n : UInt32) : Except Stop Heap :=
  copy (Int.bmod n.toNat (2 ^ 32)).toNat heap dest src

def realloc (heap : Heap) (p : Int) (newSize : UInt32) : Except Stop (Heap × Int) :=
  if p = 0 then malloc heap newSize
  else if newSize = 0 then do return (← free heap p, 0)
  else do
    let idx := indexOf heap p
    let _ ← sanity heap idx
    if !(← isTaken heap idx) then .ok (heap, 0)
    else do
      let sz := (← size heap idx) * 4
      let (heap, newPtr) ← malloc heap newSize
      let heap ←
        if newPtr ≠ 0 then
          let m := if newSize.toNat > sz then UInt32.ofNat sz.toNat else newSize
          memcpy heap newPtr p m
        else .ok heap
      return (← free heap p, newPtr)

/-! ### Inside the array they are the same -/

theorem ok_bind {α β : Type} (value : α) (rest : α → Except Stop β) :
    (Except.ok value >>= rest) = rest value := rfl

section Reading

variable {heap : Heap} {i : Int}

theorem word_ok (inside : InArray i) : word heap i = .ok (heap.array i) := if_pos inside

theorem put_ok (inside : InArray i) (value : Int) : put heap i value = .ok (heap.set i value) :=
  if_pos inside

theorem size_ok (inside : InArray i) : size heap i = .ok (heap.size i) := by
  unfold size
  rw [word_ok inside]
  rfl

theorem footerFromHeader_ok (inside : InArray i) :
    footerFromHeader heap i = .ok (heap.footerFromHeader i) := by
  unfold footerFromHeader
  rw [size_ok inside]
  rfl

theorem isAvail_ok (inside : InArray i) : isAvail heap i = .ok (heap.isAvail i) := by
  unfold isAvail
  rw [word_ok inside]
  rfl

theorem isTaken_ok (inside : InArray i) : isTaken heap i = .ok (heap.isTaken i) := by
  unfold isTaken
  rw [word_ok inside]
  rfl

/-- `sanity` looks before it reads, whatever index it is given. -/
theorem sanity_ok (length : heap.len = INTS) (i : Int) : sanity heap i = .ok i := by
  unfold sanity
  by_cases null : i = 0
  · rw [if_pos null, null]
  · rw [if_neg null]
    by_cases bad : i < 0 ∨ i ≥ heap.len
    · rw [if_pos bad]
    · rw [if_neg bad]
      have inside : InArray i := by
        unfold InArray
        omega
      rw [footerFromHeader_ok inside]
      change (if heap.footerFromHeader i < 0 ∨ heap.footerFromHeader i ≥ heap.len then _ else _) = _
      by_cases badFooter : heap.footerFromHeader i < 0 ∨ heap.footerFromHeader i ≥ heap.len
      · rw [if_pos badFooter]
        rfl
      · have footerInside : InArray (heap.footerFromHeader i) := by
          unfold InArray
          omega
        rw [if_neg badFooter, word_ok inside, word_ok footerInside]
        change Except.ok (if heap.array i ≠ heap.array (heap.footerFromHeader i) then i else i) = _
        rw [ite_self]

theorem left_ok (length : heap.len = INTS) (inside : InArray (i - 1)) :
    left heap i = .ok (heap.left i) := by
  unfold left headerFromFooter
  rw [size_ok inside]
  exact sanity_ok length _

theorem right_ok (length : heap.len = INTS) (inside : InArray i) :
    right heap i = .ok (heap.right i) := by
  unfold right
  rw [size_ok inside]
  exact sanity_ok length _

theorem next1_ok (length : heap.len = INTS) (inside : InArray (i + 1)) :
    next1 heap i = .ok (heap.next i) := by
  unfold next1
  rw [word_ok inside]
  exact sanity_ok length _

theorem prev1_ok (length : heap.len = INTS) (inside : InArray (i + 2)) :
    prev1 heap i = .ok (heap.prev i) := by
  unfold prev1
  rw [word_ok inside]
  exact sanity_ok length _

end Reading

section Writing

variable {heap : Heap} {i ints : Int}

theorem setNext_ok (inside : InArray (i + 1)) (x : Int) :
    setNext heap i x = .ok (heap.setNext i x) := put_ok inside x

theorem setPrev_ok (inside : InArray (i + 2)) (x : Int) :
    setPrev heap i x = .ok (heap.setPrev i x) := put_ok inside x

theorem remove_ok (length : heap.len = INTS) (first : InArray (i + 1)) (second : InArray (i + 2))
    (before : heap.prev i ≠ 0 → InArray (heap.prev i + 1))
    (after : heap.next i ≠ 0 → InArray (heap.next i + 2)) :
    remove heap i = .ok (heap.remove i) := by
  have last : ∀ other : Heap,
      (if heap.next i ≠ 0 then setPrev other (heap.next i) (heap.prev i) else .ok other) =
        (.ok (if heap.next i ≠ 0 then other.setPrev (heap.next i) (heap.prev i) else other) :
          Except Stop Heap) := by
    intro other
    by_cases atEnd : heap.next i = 0
    · rw [if_neg (not_not.mpr atEnd), if_neg (not_not.mpr atEnd)]
    · rw [if_pos atEnd, if_pos atEnd, setPrev_ok (after atEnd)]
  unfold remove Heap.remove
  simp only [prev1_ok length second, next1_ok length first, ok_bind]
  by_cases atHead : heap.prev i = 0
  · rw [if_pos atHead, if_pos atHead]
    exact last _
  · rw [if_neg atHead, if_neg atHead, setNext_ok (before atHead), ok_bind]
    exact last _

theorem footer_set (heap : Heap) (i value : Int) :
    (heap.set i value).footerFromHeader i = i + Heap.abs value - 1 := by
  unfold Heap.footerFromHeader Heap.size Heap.set
  simp only
  rw [Function.update_self]

theorem makeTaken_ok (positive : 0 ≤ ints) (header : InArray i) (footer : InArray (i + ints - 1)) :
    makeTaken heap i ints = .ok (heap.makeTaken i ints) := by
  have atFooter : InArray ((heap.set i (-ints)).footerFromHeader i) := by
    rw [footer_set, Heap.abs_neg_of_nonneg positive]
    exact footer
  unfold makeTaken
  rw [put_ok header, ok_bind, footerFromHeader_ok header, ok_bind]
  exact put_ok atFooter _

/-- The end of `makeAvail`, whatever was written before. -/
private theorem linkHead_ok (linked : Heap) (i : Int)
    (head : linked.avail ≠ 0 → InArray (linked.avail + 2)) :
    (if linked.avail ≠ 0 then do
        let heap ← setPrev linked linked.avail i
        return { heap with avail := i }
      else return { linked with avail := i }) =
      (.ok { (if linked.avail ≠ 0 then linked.setPrev linked.avail i else linked) with avail := i } :
        Except Stop Heap) := by
  by_cases empty : linked.avail = 0
  · rw [if_neg (not_not.mpr empty), if_neg (not_not.mpr empty)]
    rfl
  · rw [if_pos empty, if_pos empty, setPrev_ok (head empty)]
    rfl

theorem makeAvail_ok (positive : 0 ≤ ints) (header : InArray i) (footer : InArray (i + ints - 1))
    (first : InArray (i + 1)) (second : InArray (i + 2))
    (head : heap.avail ≠ 0 → InArray (heap.avail + 2)) :
    makeAvail heap i ints = .ok (heap.makeAvail i ints) := by
  have atFooter : InArray ((heap.set i ints).footerFromHeader i) := by
    rw [footer_set, Heap.abs_of_nonneg positive]
    exact footer
  unfold makeAvail Heap.makeAvail
  simp only [put_ok header, footerFromHeader_ok header, put_ok atFooter, setNext_ok first,
    setPrev_ok second, ok_bind]
  exact linkHead_ok _ i head

/-- The bytes of both ranges lie in the array. -/
theorem copy_ok (count : Nat) (heap : Heap) (dest src : Int)
    (inside : ∀ k : Nat, k < count →
      InArray ((dest + k - heap.base) / 4) ∧ InArray ((src + k - heap.base) / 4)) :
    copy count heap dest src =
      .ok { heap with
        array := WordBytes.copy count heap.array (dest - heap.base) (src - heap.base) } := by
  induction count generalizing heap dest src with
  | zero => rfl
  | succ count ih =>
      obtain ⟨atDest, atSrc⟩ := inside 0 (Nat.succ_pos count)
      rw [Int.natCast_zero, Int.add_zero] at atDest atSrc
      have later := ih (UserHeap.storeByte heap dest (UserHeap.loadByte heap src)) (dest + 1)
        (src + 1) (by
          intro k small
          have next := inside (k + 1) (Nat.succ_lt_succ small)
          have sameDest : dest + 1 + (k : Int) = dest + ((k + 1 : Nat) : Int) := by omega
          have sameSrc : src + 1 + (k : Int) = src + ((k + 1 : Nat) : Int) := by omega
          rw [sameDest, sameSrc]
          exact next)
      unfold copy loadByte storeByte
      rw [word_ok atSrc, ok_bind]
      simp only [word_ok atDest, ok_bind, pure_bind]
      rw [later]
      have destNext : dest + 1 - heap.base = dest - heap.base + 1 := by omega
      have srcNext : src + 1 - heap.base = src - heap.base + 1 := by omega
      simp only [UserHeap.storeByte, UserHeap.loadByte, destNext, srcNext]
      rfl

end Writing

section Searching

variable {heap : Heap} {order : List Int} {ints found : Int}

/-- From a node of a list that is closed under `next` the loop reads nodes of the list and
their links only. -/
theorem search_ok (length : heap.len = INTS)
    (inside : ∀ node ∈ order, InArray node ∧ InArray (node + 1))
    (closed : ∀ node ∈ order, heap.next node = 0 ∨ heap.next node ∈ order) {fuel : Nat} {p : Int}
    (member : p = 0 ∨ p ∈ order) (searched : UserHeap.search heap ints fuel p = some found) :
    search heap ints fuel p = .ok found := by
  induction fuel generalizing p with
  | zero => cases searched
  | succ fuel ih =>
      unfold UserHeap.search at searched
      unfold search
      by_cases atEnd : p = 0
      · rw [if_pos atEnd] at searched ⊢
        exact congrArg _ (Option.some.inj searched)
      · have listed := member.resolve_left atEnd
        obtain ⟨header, link⟩ := inside p listed
        rw [if_neg atEnd] at searched ⊢
        rw [isAvail_ok header, ok_bind, size_ok header, ok_bind]
        by_cases fits : heap.size p ≥ ints
        · rw [if_pos fits] at searched ⊢
          exact congrArg _ (Option.some.inj searched)
        · rw [if_neg fits] at searched ⊢
          rw [next1_eq] at searched
          rw [next1_ok length link, ok_bind]
          exact ih (closed p listed) searched

end Searching

end AC97Kernel.UserHeap.Checked
