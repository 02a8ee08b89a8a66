/-
What reading the file system does to the heap.

The functions are those of the other modules of the storage, with the blocks that they
take and give back: the buffer of a partial read, the name of a directory entry, the
component of a path, and the nodes that a path leads through.  What they deliver is
what those modules say.  The driver of the disk takes no block, and the handle on it
that every node has is not counted here: the file system keeps the disk.
-/

import AC97Kernel.Heap.Usage
import AC97Kernel.Storage.Directories

set_option autoImplicit false

namespace AC97Kernel

open Run LittleEndian

namespace Usage

/-- A read that comes back. -/
def came : Outcome → Usage Int
  | .returned count => pure count
  | _ => stop

section Devices

variable (device : BlockIO) (readBlock : Nat → Usage Unit)

/-- The part of a block goes through a buffer of the size of a block. -/
def readPart (blockNumber : Nat) : Usage Unit := do
  let temp ← new (arrayBytes device.blockSize 1)
  readBlock blockNumber
  delete temp

/-- `BlockIO::read`. -/
def read (offset desired : Nat) : Usage Int :=
  let size := device.sizeInBytes
  if offset > size then pure (-1)
  else if offset = size then pure 0
  else
    let n := min desired (size - offset)
    let blockNumber := offset / device.blockSize
    let offsetInBlock := offset % device.blockSize
    let actual := min (device.blockSize - offsetInBlock) n
    let fill := if actual = device.blockSize then readBlock blockNumber
      else readPart device readBlock blockNumber
    fill >>= fun _ => came (device.read offset desired).outcome

def readAllLoop : Nat → Nat → Nat → Usage Unit
  | 0, _, _ => stop
  | turns + 1, offset, n =>
      if n = 0 then pure ()
      else do
        let count ← read device readBlock offset n
        if count ≤ 0 then pure ()
        else readAllLoop turns ((offset + count.toNat) % 2 ^ 32) (n - count.toNat)

/-- `BlockIO::read_all`. -/
def readAll (offset n : Nat) : Usage Unit := readAllLoop device readBlock (n + 1) offset n

end Devices

/-- `Ide::read_block`, which transfers into the buffer that it is given. -/
def readSector (_sector : Nat) : Usage Unit := pure ()

/-- `Node::read_block`: the block pointers that it follows, and the block. -/
def readBlock (fs : Ext2) (data : NodeData) (index : Nat) : Usage Unit := do
  let reading := blockIndex fs.ide fs.blockSize data index
  reading.addresses.forM fun address => readAll fs.ide readSector (address % 2 ^ 32) 4
  let block ← ofExcept reading.result
  readAll fs.ide readSector (block * fs.blockSize % 2 ^ 32) fs.blockSize

section Nodes

variable (fs : Ext2) (node : Node)

/-- The template `read` of a node. -/
def fetch (offset size : Nat) : Usage (List UInt8) := do
  readAll node.io (readBlock fs node.data) (offset % 2 ^ 32) size
  ofExcept (node.read offset size)

def fetchName (offset length : Nat) : Usage (List UInt8) := do
  readAll node.io (readBlock fs node.data) (offset % 2 ^ 32) length
  ofExcept (node.readName offset length)

/-- The loop of `Node::entries`, whose `work` takes no block. -/
def entriesLoop : Nat → Nat → Usage Unit
  | 0, _ => stop
  | turns + 1, offset =>
      if offset < node.data.sizeLow then do
        let _inode ← fetch fs node offset 4
        let totalSize ← fetch fs node (offset + 4) 2
        let nameLength ← fetch fs node (offset + 6) 1
        let name ← new (arrayBytes (decode nameLength + 1) 1)
        let _bytes ← fetchName fs node (offset + 8) (decode nameLength)
        delete name
        entriesLoop turns ((offset + decode totalSize) % 2 ^ 32)
      else pure ()

/-- `Node::find`. -/
def nodeFind (turns : Nat) (name : List UInt8) : Usage Nat := do
  ofExcept (ensure (node.isDir = true))
  entriesLoop fs node turns 0
  ofExcept (node.find turns name)

end Nodes

end Usage

/-- A `Shared<Node>` that is not null, and the node that it points to. -/
structure SharedNode where
  ptr : Int
  node : Node

/-- A mounted file system and its root directory. -/
structure Volume where
  ext2 : Ext2
  positive : 0 < ext2.blockSize
  short : ext2.blockSize < 2 ^ 31
  root : SharedNode
  rooted : ext2.node positive short 2 = .ok root.node

def Volume.fs (volume : Volume) : FileSystem where
  root := volume.root.node
  getNode := volume.ext2.node volume.positive volume.short

namespace Usage

/-- On i386: two words of `BlockIO`, the handle, the count, the number and the inode. -/
def sizeofNode : UInt32 := 148

section Paths

variable (volume : Volume) (turns : Nat)

def getNode (number : Nat) : Usage SharedNode := do
  let out ← make sizeofNode
  (volume.ext2.getNode number).addresses.forM fun address =>
    readAll volume.ext2.ide readSector (address % 2 ^ 32) NodeData.size
  let node ← ofExcept (volume.fs.getNode number)
  return { ptr := out, node := node }

/-- One turn of the outer loop of `Ext2::find`; the handle `current` is assigned to. -/
def findPart (current : SharedNode) (part : List UInt8) : Usage (Option SharedNode) := do
  let number ← nodeFind volume.ext2 current.node turns part
  if number = 0 then
    drop current.ptr
    return none
  else
    let next ← getNode volume number
    drop current.ptr
    return some next

def findFrom : SharedNode → List UInt8 → Path → Usage (Option SharedNode)
  | current, part, [] =>
      if part = [] then pure (some current) else findPart volume turns current part
  | current, part, c :: rest =>
      if c = slash then
        if part = [] then findFrom current [] rest
        else do
          match ← findPart volume turns current part with
          | none => return none
          | some next => findFrom next [] rest
      else do
        ofExcept (ensure (part.length < 256))
        findFrom current (part ++ [c]) rest

/-- `Ext2::find`, whose parameter `current` is a copy of the caller's handle. -/
def find (current : SharedNode) (path : Path) : Usage (Option SharedNode) := do
  add current.ptr
  let part ← new (arrayBytes 257 1)
  let found ← findFrom volume turns current [] path
  delete part
  return found

end Paths

end Usage

section Balance

variable {device : BlockIO} {readBlock : Nat → Usage Unit}

theorem readPart_balanced (blocks : ∀ number, Balanced (readBlock number)) (number : Nat) :
    Balanced (Usage.readPart device readBlock number) := by
  have some_ : Usage.arrayBytes device.blockSize 1 ≠ 0 := by
    rw [Ne, arrayBytes_zero_iff Nat.one_pos]
    exact Nat.ne_of_gt device.positive
  intro start owed handles
  refine Triple.bind (new_block some_) fun temp => ?_
  refine Triple.bind (blocks number start (temp :: owed) handles) fun _ => ?_
  exact delete_block

theorem came_balanced (outcome : Outcome) : Balanced (Usage.came outcome) := by
  intro start owed handles
  cases outcome with
  | returned count => exact Keeps.pure count
  | panicked => exact Keeps.stop
  | unfinished => exact Keeps.stop

theorem read_balanced (blocks : ∀ number, Balanced (readBlock number)) (offset desired : Nat) :
    Balanced (Usage.read device readBlock offset desired) := by
  intro start owed handles
  unfold Usage.read
  simp only
  split
  · exact Keeps.pure (-1)
  · split
    · exact Keeps.pure 0
    · refine Keeps.bind ?_ fun _ => came_balanced _ start owed handles
      split
      · exact blocks _ start owed handles
      · exact readPart_balanced blocks _ start owed handles

theorem readAllLoop_balanced (blocks : ∀ number, Balanced (readBlock number))
    (turns offset n : Nat) : Balanced (Usage.readAllLoop device readBlock turns offset n) := by
  intro start owed handles
  induction turns generalizing offset n with
  | zero => exact Keeps.stop
  | succ turns ih =>
      unfold Usage.readAllLoop
      split
      · exact Keeps.pure ()
      · refine Keeps.bind (read_balanced blocks offset n start owed handles) fun count => ?_
        split
        · exact Keeps.pure ()
        · exact ih _ _

/-- Reading gives back what it takes. -/
theorem readAll_balanced (blocks : ∀ number, Balanced (readBlock number)) (offset n : Nat) :
    Balanced (Usage.readAll device readBlock offset n) :=
  readAllLoop_balanced blocks (n + 1) offset n

theorem readSector_balanced (sector : Nat) : Balanced (Usage.readSector sector) :=
  fun _ _ _ => Keeps.pure ()

theorem readBlock_balanced (fs : Ext2) (data : NodeData) (index : Nat) :
    Balanced (Usage.readBlock fs data index) := by
  intro start owed handles
  unfold Usage.readBlock
  refine Keeps.bind (Keeps.forM ?_ _) fun _ => ?_
  · intro address
    exact readAll_balanced readSector_balanced _ _ start owed handles
  · refine Keeps.bind (Keeps.ofExcept _) fun block => ?_
    exact readAll_balanced readSector_balanced _ _ start owed handles

variable (fs : Ext2) (node : Node)

theorem delivering_balanced (offset size : Nat) (delivered : Except Stop (List UInt8)) :
    Balanced (Usage.readAll node.io (Usage.readBlock fs node.data) offset size >>= fun _ =>
      ofExcept delivered) := by
  intro start owed handles
  refine Keeps.bind (readAll_balanced (readBlock_balanced fs node.data) _ _ start owed handles)
    fun _ => ?_
  exact Keeps.ofExcept delivered

theorem fetch_balanced (offset size : Nat) : Balanced (Usage.fetch fs node offset size) :=
  delivering_balanced fs node _ _ _

theorem fetchName_balanced (offset length : Nat) :
    Balanced (Usage.fetchName fs node offset length) :=
  delivering_balanced fs node _ _ _

/-- Every name is deleted before the next one is read. -/
theorem entriesLoop_balanced (turns offset : Nat) :
    Balanced (Usage.entriesLoop fs node turns offset) := by
  intro start owed handles
  induction turns generalizing offset with
  | zero => exact Keeps.stop
  | succ turns ih =>
      unfold Usage.entriesLoop
      split
      · refine Keeps.bind (fetch_balanced fs node _ _ start owed handles) fun _ => ?_
        refine Keeps.bind (fetch_balanced fs node _ _ start owed handles) fun totalSize => ?_
        refine Keeps.bind (fetch_balanced fs node _ _ start owed handles) fun nameLength => ?_
        have some_ : Usage.arrayBytes (decode nameLength + 1) 1 ≠ 0 := by
          rw [Ne, arrayBytes_zero_iff Nat.one_pos]
          omega
        refine Triple.bind (new_block some_) fun name => ?_
        refine Triple.bind (fetchName_balanced fs node _ _ start (name :: owed) handles) fun _ => ?_
        refine Triple.bind delete_block fun _ => ?_
        exact ih _
      · exact Keeps.pure ()

end Balance

/-! ### The nodes that a path leads to -/

/-- The handle that is returned, if it is one. -/
def handleOf : Option SharedNode → List Int
  | none => []
  | some shared => [shared.ptr]

def nodeOf (found : Option SharedNode) : Option Node := found.map SharedNode.node

section Find

variable {volume : Volume} {turns : Nat} {start : KernelHeap} {blocks handles : List Int}

theorem nodeFind_owing (node : Node) (name : List UInt8) :
    Triple (Owing start blocks handles) (Usage.nodeFind volume.ext2 node turns name)
      fun number now => node.find turns name = .ok number ∧ Owing start blocks handles now := by
  refine Triple.bind (Keeps.ofExcept _) fun _ => ?_
  refine Triple.bind (entriesLoop_balanced volume.ext2 node turns 0 start blocks handles)
    fun _ => ?_
  exact Triple.ofExcept fun number now found owing => ⟨found, owing⟩

theorem getNode_owing (number : Nat) :
    Triple (Owing start blocks handles) (Usage.getNode volume number)
      fun shared now => volume.fs.getNode number = .ok shared.node ∧
        Owing start blocks (shared.ptr :: handles) now := by
  refine Triple.bind (make_owing (by decide)) fun out => ?_
  refine Triple.bind (Keeps.forM ?_ _) fun _ => ?_
  · intro address
    exact readAll_balanced readSector_balanced _ _ start blocks (out :: handles)
  · refine Triple.bind (Triple.ofExcept fun node now found owing => And.intro found owing)
      fun node => ?_
    exact Triple.pure fun now => id

theorem fetch_owing (fs : Ext2) (node : Node) (offset size : Nat) :
    Triple (Owing start blocks handles) (Usage.fetch fs node offset size)
      fun bytes now => node.read offset size = .ok bytes ∧ Owing start blocks handles now := by
  refine Triple.bind (readAll_balanced (readBlock_balanced fs node.data) _ _ start blocks handles)
    fun _ => ?_
  exact Triple.ofExcept fun bytes now read owing => ⟨read, owing⟩

/-- The handle that is assigned to drops the node that it had. -/
theorem findPart_owing (current : SharedNode) (part : List UInt8) :
    Triple (Owing start blocks (current.ptr :: handles)) (Usage.findPart volume turns current part)
      fun found now => volume.fs.findPart turns current.node part = .ok (nodeOf found) ∧
        Owing start blocks (handleOf found ++ handles) now := by
  unfold Usage.findPart FileSystem.findPart
  refine Triple.bind (nodeFind_owing current.node part) fun number => ?_
  refine Triple.known fun found => ?_
  rw [found]
  split
  · rename_i missing
    refine Triple.bind drop_owing fun _ => Triple.pure fun now owing => ⟨?_, owing⟩
    simp only [Bind.bind, Except.bind, if_pos missing]
    rfl
  · rename_i present
    refine Triple.bind (getNode_owing number) fun next => ?_
    refine Triple.known fun got => ?_
    have swapped : (next.ptr :: current.ptr :: handles).Perm
        (current.ptr :: next.ptr :: handles) := List.Perm.swap _ _ _
    refine Triple.bind (drop_owing.mono (fun now owing => owing.permHandles swapped)
      fun _ _ owing => owing) fun _ => ?_
    refine Triple.pure fun now owing => ⟨?_, owing⟩
    simp only [Bind.bind, Except.bind, if_neg present, got]
    rfl

/-- The walk holds one node at a time, and comes where the pure one comes. -/
theorem findFrom_owing (current : SharedNode) (part : List UInt8) (path : Path) :
    Triple (Owing start blocks (current.ptr :: handles))
      (Usage.findFrom volume turns current part path)
      fun found now => volume.fs.findFrom turns current.node part path = .ok (nodeOf found) ∧
        Owing start blocks (handleOf found ++ handles) now := by
  induction path generalizing current part with
  | nil =>
      unfold Usage.findFrom FileSystem.findFrom
      split
      · exact Triple.pure fun now owing => ⟨rfl, owing⟩
      · exact findPart_owing current part
  | cons c rest ih =>
      unfold Usage.findFrom FileSystem.findFrom
      split
      · split
        · exact ih current []
        · refine Triple.bind (findPart_owing current part) fun found => ?_
          refine Triple.known fun first => ?_
          rw [first]
          cases found with
          | none => exact Triple.pure fun now owing => ⟨rfl, owing⟩
          | some next => exact ih next []
      · refine Triple.bind (Triple.ofExcept fun _ now fits owing => And.intro fits owing)
          fun _ => ?_
        refine Triple.known fun fits => ?_
        rw [fits]
        exact ih current (part ++ [c])

/-- `find` returns one handle, and gives back the rest. -/
theorem find_owing (current : SharedNode)
    (known : current.ptr ∈ start.client.live ∧ 1 ≤ start.refCount current.ptr) (path : Path) :
    Triple (Owing start blocks handles) (Usage.find volume turns current path)
      fun found now => volume.fs.find turns current.node path = .ok (nodeOf found) ∧
        Owing start blocks (handleOf found ++ handles) now := by
  refine Triple.bind (add_owing (.inr known)) fun _ => ?_
  refine Triple.bind (new_block (by decide)) fun part => ?_
  refine Triple.bind (findFrom_owing current [] path) fun found => ?_
  refine Triple.known fun walked => ?_
  refine Triple.bind delete_block fun _ => ?_
  exact Triple.pure fun now owing => ⟨walked, owing⟩

end Find

end AC97Kernel
