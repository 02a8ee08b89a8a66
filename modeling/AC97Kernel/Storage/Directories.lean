/-
Directories and paths, as kernel/ext2.h and kernel/ext2.cc read them.

A loop over the records of a directory and the loop over links are given a number
of turns.  Records are read through the device of their node; `Holds` says that
the nodes of a file system are those of a tree.
-/

import AC97Kernel.Library.Turns
import AC97Kernel.Storage.Ext2
import AC97Kernel.Storage.Tree

set_option autoImplicit false

namespace AC97Kernel

open Slices LittleEndian Turns

/-- Why the kernel does not come back from what it does with nodes. -/
inductive Stop where
  | panicked
  | divided
  | nullNode
  | unfinished
  deriving DecidableEq

def Fault.stop : Fault → Stop
  | .panicked => .panicked
  | .divided => .divided

/-- `ASSERT`. -/
def ensure (holds : Prop) [Decidable holds] : Except Stop Unit :=
  if holds then .ok () else .error .panicked

theorem ensure_true {holds : Prop} [Decidable holds] (true' : holds) : ensure holds = .ok () :=
  if_pos true'

namespace Node

def isDir (node : Node) : Bool := node.data.isDir

def isFile (node : Node) : Bool := node.data.isFile

def isSymlink (node : Node) : Bool := node.data.isSymlink

/-- The template `read` for a thing of `size` bytes. -/
def read (node : Node) (offset size : Nat) : Except Stop (List UInt8) :=
  match node.io.readThing (offset % 2 ^ 32) size with
  | some bytes => .ok bytes
  | none => .error .panicked

/-- `read_all` of a name, with the assertion on its count. -/
def readName (node : Node) (offset length : Nat) : Except Stop (List UInt8) :=
  let transfer := node.io.readAll (offset % 2 ^ 32) length
  if transfer.outcome = .returned length then .ok transfer.bytes else .error .panicked

/-- The calls of `work` that the loop makes from `offset` on. -/
def entriesLoop (node : Node) : Nat → Nat → Except Stop (List (Nat × List UInt8))
  | 0, _ => .error .unfinished
  | turns + 1, offset =>
      if offset < node.data.sizeLow then do
        let inode ← node.read offset 4
        let totalSize ← node.read (offset + 4) 2
        let nameLength ← node.read (offset + 6) 1
        let name ← node.readName (offset + 8) (decode nameLength)
        let rest ← node.entriesLoop turns ((offset + decode totalSize) % 2 ^ 32)
        return (decode inode, name) :: rest
      else return []

def entries (node : Node) (turns : Nat) : Except Stop (List (Nat × List UInt8)) := do
  ensure (node.isDir = true)
  node.entriesLoop turns 0

/-- `K::streq` on two buffers. -/
def streq (first second : List UInt8) : Bool := cstring first = cstring second

def find (node : Node) (turns : Nat) (name : List UInt8) : Except Stop Nat := do
  let calls ← node.entries turns
  return calls.foldl (fun out call => if streq name call.2 then call.1 else out) 0

/-- The bytes that `get_symbol` stores before its NUL. -/
def getSymbol (node : Node) : Except Stop (List UInt8) := do
  ensure (node.isSymlink = true)
  let sz := node.io.sizeInBytes
  if sz ≤ 60 then return slice node.data.pointers 0 sz
  else node.readName 0 sz

end Node

/-- What the rest of the kernel uses of a file system. -/
structure FileSystem where
  root : Node
  getNode : Nat → Except Stop Node

/-- The file system of a mounted disk. -/
def Ext2.node (fs : Ext2) (positive : 0 < fs.blockSize) (short : fs.blockSize < 2 ^ 31)
    (number : Nat) : Except Stop Node :=
  match (fs.getNode number).result with
  | .ok data =>
      if sizeWord : data.sizeLow < 2 ^ 32 then .ok (.make fs.ide fs.blockSize data positive short sizeWord)
      else .error .panicked
  | .error fault => .error fault.stop

namespace FileSystem

/-- One turn of the outer loop of `find`: the node that a component leads to. -/
def findPart (fs : FileSystem) (turns : Nat) (current : Node) (part : List UInt8) :
    Except Stop (Option Node) := do
  let number ← current.find turns part
  if number = 0 then return none
  else
    let next ← fs.getNode number
    return some next

/-- The rest of `find`, with the characters of the component that have been read. -/
def findFrom (fs : FileSystem) (turns : Nat) : Node → List UInt8 → Path → Except Stop (Option Node)
  | current, part, [] => if part = [] then return some current else fs.findPart turns current part
  | current, part, c :: rest =>
      if c = slash then
        if part = [] then fs.findFrom turns current [] rest
        else do
          match ← fs.findPart turns current part with
          | none => return none
          | some next => fs.findFrom turns next [] rest
      else do
        ensure (part.length < 256)
        fs.findFrom turns current (part ++ [c]) rest

def find (fs : FileSystem) (turns : Nat) (current : Node) (path : Path) :
    Except Stop (Option Node) :=
  fs.findFrom turns current [] path

end FileSystem

/-! ### Nodes that store the inodes of a tree -/

/-- A record as it lies on the disk. -/
def Record.bytes (record : Record) : List UInt8 :=
  encode 4 record.inode ++ (encode 2 record.totalSize ++
    (encode 1 record.name.length ++ ([record.fileType] ++ (record.name ++ record.padding))))

theorem Record.length_bytes (record : Record) : record.bytes.length = record.totalSize := by
  simp only [Record.bytes, List.length_append, length_encode, List.length_cons, List.length_nil,
    Record.totalSize]
  omega

def Node.Stores (node : Node) : Inode → Prop
  | .file content => node.data.getType = 8 ∧ node.io.Serves content
  | .directory records => node.data.getType = 4 ∧ node.io.Serves (records.flatMap Record.bytes)
  | .symlink target pointers =>
      node.data.getType = 0xA ∧ node.data.pointers = pointers ∧
        node.data.sizeLow = target.length ∧ (60 ≤ target.length → node.io.Serves target)

/-- The nodes of the file system are those of the tree. -/
structure FileSystem.Holds (fs : FileSystem) (tree : Tree) : Prop where
  root : ∀ inode, tree.inodes 2 = some inode → fs.root.Stores inode
  nodes : ∀ number inode, tree.inodes number = some inode →
    ∃ node, fs.getNode number = .ok node ∧ node.Stores inode

namespace Node

variable {node : Node} {content part : List UInt8} {offset : Nat}

theorem Serves.word (serves : node.io.Serves content) : content.length < 2 ^ 32 := by
  rw [serves.size]
  exact node.io.sizeWord

theorem read_occurs (serves : node.io.Serves content) (occurs : OccursAt content offset part)
    (some : 0 < part.length) : node.read offset part.length = .ok part := by
  have fits := occurs.fits some
  have word := Serves.word serves
  unfold Node.read
  rw [Nat.mod_eq_of_lt (by omega), serves.readThing offset some, if_pos fits]
  exact congrArg Except.ok occurs

theorem readName_occurs (serves : node.io.Serves content) (occurs : OccursAt content offset part)
    (inside : offset ≤ content.length) : node.readName offset part.length = .ok part := by
  have fits := occurs.length_le
  have word := Serves.word serves
  have count : min part.length (content.length - offset) = part.length := by omega
  unfold Node.readName
  rw [Nat.mod_eq_of_lt (by omega), serves.readAll inside, count]
  simp only [if_true]
  exact congrArg Except.ok occurs

theorem decode_encode_lt {count word : Nat} (small : word < 256 ^ count) :
    decode (encode count word) = word := by
  rw [decode_encode, Nat.mod_eq_of_lt small]

/-- One turn of the loop reads one record. -/
theorem entriesLoop_record {record : Record} (fits : record.Fits)
    (serves : node.io.Serves content) (occurs : OccursAt content offset record.bytes)
    (turns : Nat) :
    node.entriesLoop (turns + 1) offset =
      (do
        let rest ← node.entriesLoop turns (offset + record.totalSize)
        return (record.inode, record.name) :: rest) := by
  have some : 0 < record.bytes.length := by
    rw [Record.length_bytes, Record.totalSize]
    omega
  have inside := occurs.fits some
  rw [Record.length_bytes] at inside
  have word := Serves.word serves
  have sized : content.length = node.data.sizeLow := serves.size.trans node.sized
  have total := fits.totalSize
  have nameShort := fits.name
  have size : record.totalSize = 8 + record.name.length + record.padding.length := rfl
  unfold Record.bytes at occurs
  rw [occursAt_append, occursAt_append, occursAt_append, occursAt_append, occursAt_append,
    length_encode, length_encode, length_encode, List.length_singleton] at occurs
  obtain ⟨inodeAt, totalAt, lengthAt, typeAt, nameAt, _⟩ := occurs
  have readInode := read_occurs serves inodeAt (by rw [length_encode]; decide)
  have readTotal := read_occurs serves totalAt (by rw [length_encode]; decide)
  have readLength := read_occurs serves lengthAt (by rw [length_encode]; decide)
  have readName := readName_occurs serves nameAt (by omega)
  rw [length_encode] at readInode readTotal readLength
  rw [entriesLoop, if_pos (by omega), readInode]
  simp only [Bind.bind, Except.bind]
  rw [readTotal]
  simp only
  rw [readLength]
  simp only
  rw [decode_encode_lt (by omega), readName]
  simp only
  rw [decode_encode_lt total, decode_encode_lt fits.inode, Nat.mod_eq_of_lt (by omega)]

theorem entriesLoop_records {records : List Record} (fits : ∀ record ∈ records, record.Fits)
    (serves : node.io.Serves content) (occurs : OccursAt content offset (records.flatMap Record.bytes))
    (ends : offset + (records.flatMap Record.bytes).length = content.length) (turns : Nat) :
    node.entriesLoop turns offset =
      if records.length < turns then .ok (records.map fun record => (record.inode, record.name))
      else .error .unfinished := by
  have sized : content.length = node.data.sizeLow := serves.size.trans node.sized
  induction records generalizing offset turns with
  | nil =>
      rw [List.flatMap_nil, List.length_nil] at ends
      cases turns with
      | zero => rfl
      | succ turns =>
          rw [entriesLoop, if_neg (by omega), List.length_nil, if_pos (Nat.succ_pos turns)]
          rfl
  | cons record records ih =>
      rw [List.flatMap_cons] at occurs ends
      rw [List.length_append, Record.length_bytes] at ends
      obtain ⟨first, rest⟩ := occursAt_append.1 occurs
      rw [Record.length_bytes] at rest
      cases turns with
      | zero => rfl
      | succ turns =>
          have later := ih (fun other member => fits other (List.mem_cons_of_mem _ member)) rest
            (by omega) turns
          rw [entriesLoop_record (fits record List.mem_cons_self) serves first, later,
            List.length_cons]
          by_cases enough : records.length < turns
          · rw [if_pos enough, if_pos (Nat.succ_lt_succ enough)]
            rfl
          · rw [if_neg enough, if_neg (by omega)]
            rfl

theorem entries_directory {records : List Record} (stores : node.Stores (.directory records))
    (fits : ∀ record ∈ records, record.Fits) :
    Settles .unfinished node.entries
      (.ok (records.map fun record => (record.inode, record.name))) := by
  obtain ⟨type, serves⟩ := stores
  have isDir : node.isDir = true := decide_eq_true type
  have loop (turns : Nat) : node.entries turns = node.entriesLoop turns 0 := by
    unfold entries
    rw [ensure_true isDir]
    rfl
  have decoded (turns : Nat) :=
    entriesLoop_records fits serves (OccursAt.whole _) (Nat.zero_add _) turns
  constructor
  · refine ⟨records.length + 1, fun turns enough => ?_⟩
    rw [loop, decoded, if_pos (by omega)]
  · intro turns
    rw [loop, decoded]
    split
    · exact .inl rfl
    · exact .inr rfl

/-- `find` is the lookup of the reader that the kernel is. -/
theorem find_directory {records : List Record} (stores : node.Stores (.directory records))
    (fits : ∀ record ∈ records, record.Fits) (name : List UInt8) :
    Settles .unfinished (fun turns => node.find turns name)
      (.ok (Reader.kernel.find records name)) := by
  apply (entries_directory stores fits).bind
  rw [List.foldl_map]
  simp only [Reader.kernel, streq, decide_eq_true_eq]
  exact Settles.constant _

theorem find_refused (notDir : node.isDir = false) (turns : Nat) (name : List UInt8) :
    node.find turns name = .error .panicked := by
  unfold find entries ensure
  rw [if_neg (by rw [notDir]; decide)]
  rfl

end Node

namespace FileSystem

variable {fs : FileSystem} {tree : Tree}

theorem Holds.isDir (stored : Inode) {node : Node} (stores : node.Stores stored)
    (other : ∀ records, stored ≠ .directory records) : node.isDir = false := by
  have type : node.isDir = decide (node.data.getType = 4) := rfl
  cases stored with
  | file content => rw [type, stores.1]; rfl
  | directory records => exact absurd rfl (other records)
  | symlink target pointers => rw [type, stores.1]; rfl

/-- A record that the kernel finds is one in use. -/
theorem kernel_find_present {inodes : Nat → Option Inode} {records : List Record}
    (directory : DirectoryFits inodes records) (name : List UInt8)
    (found : Reader.kernel.find records name ≠ 0) :
    ∃ inode, inodes (Reader.kernel.find records name) = some inode := by
  rcases Reader.kernel_find_cases records name with ⟨missing, _⟩ | ⟨record, member, _, at_⟩
  · exact absurd missing found
  · rw [at_] at found ⊢
    exact Option.isSome_iff_exists.1 (directory.present record member found)

/-! ### Walking a path -/

/-- What `find` makes of a walk. -/
def Walked (tree : Tree) (found : Except Stop (Option Node)) : Walk → Prop
  | .arrived number => ∃ node inode, found = .ok (some node) ∧ tree.inodes number = some inode ∧
      node.Stores inode
  | .missing => found = .ok none
  | .refused => found = .error .panicked

theorem findPart_walk (holds : fs.Holds tree) {number : Nat} {current : Node} {inode : Inode}
    (stored : tree.inodes number = some inode) (stores : current.Stores inode)
    {part : List UInt8} (short : part.length ≤ 256) :
    ∃ found, Walked tree found (tree.walk .kernel number [part]) ∧
      Settles .unfinished (fun turns => fs.findPart turns current part) found := by
  have notLong : ¬ 256 < part.length := by omega
  simp only [Tree.walk, if_neg notLong, stored]
  cases inode with
  | file content =>
      have notDir := Holds.isDir _ stores (by intro records same; cases same)
      refine ⟨.error .panicked, rfl, (Settles.constant _).congr fun turns => ?_⟩
      rw [findPart, Node.find_refused notDir]
      rfl
  | symlink target pointers =>
      have notDir := Holds.isDir _ stores (by intro records same; cases same)
      refine ⟨.error .panicked, rfl, (Settles.constant _).congr fun turns => ?_⟩
      rw [findPart, Node.find_refused notDir]
      rfl
  | directory records =>
      have directory := tree.directories number records stored
      have lookup := Node.find_directory stores directory.fits part
      by_cases none_ : Reader.kernel.find records part = 0
      · refine ⟨.ok none, ?_, lookup.bind ?_⟩
        · simp only [if_pos none_, Walked]
        · rw [if_pos none_]
          exact Settles.constant _
      · obtain ⟨next, present⟩ := kernel_find_present directory part none_
        obtain ⟨node, got, nodeStores⟩ := holds.nodes _ next present
        refine ⟨.ok (some node), ?_, lookup.bind ?_⟩
        · simp only [if_neg none_, Walked]
          exact ⟨node, next, rfl, present, nodeStores⟩
        · rw [if_neg none_, got]
          exact Settles.constant _

private theorem nothing_read : ([] : List UInt8).length ≤ 256 := Nat.zero_le 256

theorem findFrom_walk (holds : fs.Holds tree) (path : Path) {number : Nat} {current : Node}
    {inode : Inode} (stored : tree.inodes number = some inode) (stores : current.Stores inode)
    {part : List UInt8} (short : part.length ≤ 256) :
    ∃ found, Walked tree found (tree.walk .kernel number (componentsFrom part path)) ∧
      Settles .unfinished (fun turns => fs.findFrom turns current part path) found := by
  induction path generalizing number current inode part with
  | nil =>
      simp only [findFrom, componentsFrom]
      by_cases nothing : part = []
      · simp only [if_pos nothing, Tree.walk]
        exact ⟨.ok (some current), ⟨current, inode, rfl, stored, stores⟩, Settles.constant _⟩
      · simp only [if_neg nothing]
        exact findPart_walk holds stored stores short
  | cons c rest ih =>
      simp only [findFrom, componentsFrom]
      by_cases ends : c = slash
      · by_cases nothing : part = []
        · simp only [if_pos ends, if_pos nothing]
          exact ih stored stores nothing_read
        · simp only [if_pos ends, if_neg nothing]
          rw [Tree.walk_cons]
          obtain ⟨found, walked, first⟩ := findPart_walk holds stored stores short
          cases arrives : tree.walk .kernel number [part] with
          | missing =>
              rw [arrives] at walked
              subst walked
              exact ⟨.ok none, rfl, first.bind (Settles.constant _)⟩
          | refused =>
              rw [arrives] at walked
              subst walked
              exact ⟨.error .panicked, rfl, first.bind_error⟩
          | arrived next =>
              rw [arrives] at walked
              obtain ⟨node, inode, rfl, present, nodeStores⟩ := walked
              obtain ⟨last, goesOn, later⟩ := ih present nodeStores nothing_read
              exact ⟨last, goesOn, first.bind later⟩
      · simp only [if_neg ends]
        by_cases room : part.length < 256
        · have longer : (part ++ [c]).length ≤ 256 := by
            rw [List.length_append, List.length_singleton]
            omega
          rw [ensure_true room]
          exact ih stored stores longer
        · -- the component has more than 256 bytes, whatever follows
          obtain ⟨more, later, same⟩ := @componentsFrom_head rest (part ++ [c]) (by simp)
          have long : 256 < (part ++ [c] ++ more).length := by
            rw [List.length_append, List.length_append, List.length_singleton]
            omega
          rw [same, Tree.walk, if_pos long, ensure, if_neg room]
          exact ⟨.error .panicked, rfl, Settles.constant _⟩

/-- `find` from the root walks the tree as the kernel reads it. -/
theorem find_locate (holds : fs.Holds tree) (path : Path) :
    ∃ found, Walked tree found (tree.locate .kernel path) ∧
      Settles .unfinished (fun turns => fs.find turns fs.root path) found := by
  obtain ⟨records, rooted⟩ := tree.rooted
  have walks := findFrom_walk holds path rooted (holds.root _ rooted) nothing_read
  rw [componentsFrom_nil] at walks
  exact walks

/-- A link that has been read. -/
theorem getSymbol_stored {node : Node} {target pointers : List UInt8}
    (stores : node.Stores (.symlink target pointers)) :
    node.getSymbol = .ok (if target.length ≤ 60 then pointers.take target.length else target) := by
  obtain ⟨type, words, size, serves⟩ := stores
  have isLink : node.isSymlink = true := decide_eq_true type
  have sized := node.sized
  unfold Node.getSymbol
  rw [ensure_true isLink, sized, size, words]
  by_cases inline : target.length ≤ 60
  · rw [if_pos inline]
    simp only [if_pos inline]
    rw [slice, List.drop_zero]
    rfl
  · rw [if_neg inline]
    simp only [if_neg inline]
    exact Node.readName_occurs (serves (by omega)) (OccursAt.whole target) (Nat.zero_le _)

end FileSystem

/-! ### A root directory with one name -/

namespace OneName

/-- The name is `a`, and its inode is number 11. -/
def record : Record := { inode := 11, fileType := 0, name := [0x61], padding := [0, 0, 0] }

def inodes (inode : Inode) (number : Nat) : Option Inode :=
  if number = 2 then some (.directory [record]) else if number = 11 then some inode else none

theorem directory_fits (inode : Inode) : DirectoryFits (inodes inode) [record] where
  fits other member := by
    rw [List.mem_singleton.1 member]
    exact ⟨by decide, by decide, by decide⟩
  named other member _ := by
    rw [List.mem_singleton.1 member]
    exact ⟨by decide, by decide, by decide⟩
  present other member _ := by
    rw [List.mem_singleton.1 member]
    rfl
  distinct := by decide

theorem inodes_cases {inode stored : Inode} {number : Nat} (at_ : inodes inode number = some stored) :
    (number = 2 ∧ stored = .directory [record]) ∨ (number = 11 ∧ stored = inode) := by
  unfold inodes at at_
  split at at_
  · exact .inl ⟨‹_›, (Option.some.inj at_).symm⟩
  · split at at_
    · exact .inr ⟨‹_›, (Option.some.inj at_).symm⟩
    · cases at_

def tree (inode : Inode) (leaf : ∀ records, inode ≠ .directory records)
    (link : ∀ target pointers, inode = .symlink target pointers → LinkFits target pointers) :
    Tree where
  inodes := inodes inode
  rooted := ⟨[record], rfl⟩
  directories number records stored := by
    rcases inodes_cases stored with ⟨_, same⟩ | ⟨_, same⟩
    · cases same
      exact directory_fits inode
    · exact absurd same.symm (leaf records)
  links number target pointers stored := by
    rcases inodes_cases stored with ⟨_, same⟩ | ⟨_, same⟩
    · cases same
    · exact link target pointers same.symm

def rootNode : Node where
  io := .ofBytes 512 record.bytes BlockIO.sector_positive BlockIO.sector_short (by decide)
  data := { mode := 0x4000, sizeLow := 12, nSectors := 2, pointers := [] }
  sized := by decide

def volume (node : Node) : FileSystem where
  root := rootNode
  getNode number :=
    if number = 2 then .ok rootNode else if number = 11 then .ok node else .error .panicked

theorem root_stores : rootNode.Stores (.directory [record]) :=
  ⟨by decide, BlockIO.ofBytes_serves _ _ _⟩

theorem volume_holds {inode : Inode} {node : Node} (leaf : ∀ records, inode ≠ .directory records)
    (link : ∀ target pointers, inode = .symlink target pointers → LinkFits target pointers)
    (stores : node.Stores inode) : (volume node).Holds (tree inode leaf link) where
  root stored same := by
    cases same
    exact root_stores
  nodes number stored at_ := by
    rcases inodes_cases at_ with ⟨rfl, rfl⟩ | ⟨rfl, rfl⟩
    · exact ⟨rootNode, rfl, root_stores⟩
    · exact ⟨node, rfl, stores⟩

end OneName

end AC97Kernel
