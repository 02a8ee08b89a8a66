/-
What exec and play_audio leave on the heap.

Neither call stores into the tables of the process, and the frames of the page tables
are no blocks of the heap, so that a block that a call leaves is reached from nowhere.
-/

import AC97Kernel.Calls.Usage
import AC97Kernel.Audio.Usage
import AC97Kernel.Audio.Search

set_option autoImplicit false

namespace AC97Kernel

open Run LittleEndian

section Calls

variable {Semaphore Output : Type} {tables : Set Int} {process : Process SharedFile Semaphore Output}
  {volume : Volume} {before after : KernelHeap}

/-- A kernel in which a process calls.  `tables` are the blocks that are reached from the
tables of the process; the file system keeps its root directory. -/
structure Calling (tables : Set Int) (process : Process SharedFile Semaphore Output)
    (volume : Volume) (kernel : KernelHeap) : Prop where
  heap : ∃ base memory bytes, base ≠ 0 ∧ 32 ≤ bytes.toNat ∧
    Client.machine.Reached (Client.start base memory bytes) kernel.client
  held : ∀ p ∈ tables, p ∈ kernel.client.live
  files : ∀ fd shared, process.getFile fd = some shared →
    shared.ptr ∈ tables ∧ 1 ≤ kernel.refCount shared.ptr
  root : volume.root.ptr ∈ kernel.client.live ∧ 1 ≤ kernel.refCount volume.root.ptr

/-- Every block that has been obtained and is live is reached from the tables. -/
def Released (tables : Set Int) (before after : KernelHeap) : Prop :=
  ∀ p ∈ after.client.live, p ∉ before.client.live → p ∈ tables

theorem Calling.sound (calling : Calling tables process volume before) : before.Sound := by
  obtain ⟨base, memory, bytes, mapped, room, actions, lawful, ran⟩ := calling.heap
  obtain ⟨client, reached, blocks, order, invariant⟩ :=
    Client.run_invariant base memory bytes mapped room actions lawful
  rw [ran] at reached
  cases reached
  exact ⟨blocks, order, invariant⟩

/-- What is owed in blocks is what is not released. -/
theorem Calling.released_iff {blocks : List Int} (calling : Calling tables process volume before)
    (owing : Owing before blocks [] after) : Released tables before after ↔ blocks = [] := by
  constructor
  · intro released
    apply List.eq_nil_iff_forall_not_mem.mpr
    intro p member
    have notBefore := (owing.owes.apart p member).2
    have live := (owing.owes.live p).mpr (.inl member)
    exact notBefore (calling.held p (released p live notBefore))
  · rintro rfl p live notBefore
    rcases (owing.owes.live p).mp live with block | handle | old
    · cases block
    · cases handle
    · exact absurd old notBefore

theorem NodeEnds.released_iff {config : Config} {argv : List (List UInt8)} {node : Node}
    {exit : Exit} (calling : Calling tables process volume before)
    (ended : NodeEnds config argv node before after exit) :
    Released tables before after ↔ argv = [] ∨ SYS.RefusedNode node := by
  cases ended with
  | refused refused owing => exact iff_of_true ((calling.released_iff owing).mpr rfl) (.inr refused)
  | entered taken _ owing =>
      have zero := @arrayBytes_zero_iff argv.length 4 (by decide)
      rw [List.length_eq_zero_iff] at zero
      rw [calling.released_iff owing, or_iff_left taken, ← zero]
      unfold payload
      split
      · rename_i none_
        exact iff_of_true rfl none_
      · rename_i some_
        exact iff_of_false (List.cons_ne_nil _ _) some_

theorem Ends.released_iff {config : Config} {turns : Nat} {path : Path}
    {argv : List (List UInt8)} {found : Option Node} {exit : Exit}
    (calling : Calling tables process volume before)
    (walked : volume.fs.find turns volume.fs.root path = .ok found)
    (ended : Ends config argv before after exit found) :
    Released tables before after ↔ argv = [] ∨ SYS.Refused volume.fs turns path := by
  unfold SYS.Refused
  rw [walked]
  cases found with
  | none => exact iff_of_true ((calling.released_iff ended.2).mpr rfl) (.inr trivial)
  | some node => exact NodeEnds.released_iff calling ended

/-- exec releases what it allocates exactly when it has no arguments or finds nothing to
run, and play_audio exactly when the descriptor stands for no file to play. -/
theorem calls_release (calling : Calling tables process volume before) :
    (∀ config turns path argv exit after,
      (Usage.exec config volume turns path argv).run before = some (exit, after) →
        (Released tables before after ↔ argv = [] ∨ SYS.Refused volume.fs turns path)) ∧
    ∀ turns memory fd result after,
      (Usage.playAudio volume.ext2 turns memory process fd).run before = some (result, after) →
        (Released tables before after ↔ ¬ Plays process fd) := by
  have begins := Owing.nothing calling.sound
  constructor
  · intro config turns path argv exit after ran
    obtain ⟨found, walked, ended⟩ := exec_owing calling.root before exit after begins ran
    exact Ends.released_iff calling walked ended
  · intro turns memory fd result after ran
    have known (shared : SharedFile) (got : process.getFile fd = some shared) :
        shared.ptr ∈ before.client.live ∧ 1 ≤ before.refCount shared.ptr :=
      ⟨calling.held _ (calling.files fd shared got).1, (calling.files fd shared got).2⟩
    rcases playAudio_owing volume.ext2 turns memory known before result after begins ran with
      ⟨silent, owing⟩ | ⟨plays, wavhdr, owing⟩
    · exact iff_of_true ((calling.released_iff owing).mpr rfl) silent
    · rw [calling.released_iff owing]
      exact iff_of_false (List.cons_ne_nil _ _) (not_not.mpr plays)

end Calls

/-! ### A disk with a program and a WAVE file -/

namespace SmallDisk

/-- An inode whose data are in one block of 1024 bytes. -/
def inode (mode size block : Nat) : List UInt8 :=
  encode 2 mode ++ [0, 0] ++ encode 4 size ++ List.replicate 20 0 ++ encode 4 2 ++
    List.replicate 8 0 ++ encode 4 block ++ List.replicate 56 0

def program : List UInt8 := ELF.oneSegment 0x80000000 84 0x1000

/-- The inodes 2, 11 and 12, and the blocks of the root directory, the program and the
sound. -/
def pieces : List (Nat × List UInt8) :=
  [(3200, inode 0x41ED 12 5), (4352, inode 0x81ED 84 6), (4480, inode 0x81A4 48 7),
    (5120, OneName.record.bytes), (6144, program), (7168, plainFrame.encode)]

def image (address : Nat) : UInt8 :=
  (pieces.findSome? fun piece =>
    if piece.1 ≤ address then piece.2[address - piece.1]? else none).getD 0

def ext2 : Ext2 where
  ide := Ide image
  blockSize := 1024
  numberOfNodes := 16
  numberOfBlocks := 64
  iNodeSize := 128
  nGroups := 1
  iNodeTables := [3]
  iNodesPerGroup := 16

def data (mode size block : Nat) : NodeData where
  mode := mode
  sizeLow := size
  nSectors := 2
  pointers := encode 4 block ++ List.replicate 56 0

def root : Node :=
  .make ext2.ide ext2.blockSize (data 0x41ED 12 5) (by decide) (by decide) (by decide)

def sound : Node :=
  .make ext2.ide ext2.blockSize (data 0x81A4 48 7) (by decide) (by decide) (by decide)

/-- The root directory and the open file have a block each. -/
def requests : List Client.Action := [.malloc 148, .malloc 16]

def client : Client :=
  (Client.machine.run (Client.start 0x100000 (fun _ => 0) 8192) requests).getD
    (Client.start 0x100000 (fun _ => 0) 8192)

def kernel : KernelHeap where
  client := client
  refCount _ := 1

def process : Process SharedFile Unit Unit where
  files index :=
    if index = 3 then some { ptr := 0x1000A8, file := .openFile sound 0 } else none
  sems _ := none
  children _ := none
  output := ()
  pd := 0

theorem rooted : ext2.node (by decide) (by decide) 2 = .ok root := by
  have got : (ext2.getNode 2).result = .ok (data 0x41ED 12 5) := by decide +kernel
  unfold Ext2.node
  rw [got]
  rfl

def volume : Volume where
  ext2 := ext2
  positive := by decide
  short := by decide
  root := { ptr := 0x10000C, node := root }
  rooted := rooted

theorem client_live : client.live = [0x1000A8, 0x10000C] := by decide +kernel

theorem client_reached :
    Client.machine.Reached (Client.start 0x100000 (fun _ => 0) 8192) client := by
  have comes : (Client.machine.run (Client.start 0x100000 (fun _ => 0) 8192) requests).isSome =
      true := by decide +kernel
  obtain ⟨state, ran⟩ := Option.isSome_iff_exists.mp comes
  refine ⟨requests, by decide +kernel, ?_⟩
  unfold client
  rw [ran]
  rfl

theorem kernel_calling : Calling {0x1000A8} process volume kernel where
  heap := ⟨0x100000, fun _ => 0, 8192, by decide, by decide, client_reached⟩
  held p member := by
    change p ∈ client.live
    rw [Set.mem_singleton_iff.mp member, client_live]
    exact List.mem_cons_self
  files fd shared got := by
    obtain ⟨index, _, at_⟩ := Option.bind_eq_some_iff.mp got
    change (if index = 3 then _ else none) = some shared at at_
    split at at_
    · cases at_
      exact ⟨rfl, Int.le_refl 1⟩
    · cases at_
  root := by
    refine ⟨?_, Int.le_refl 1⟩
    change (0x10000C : Int) ∈ client.live
    rw [client_live]
    exact List.mem_cons_of_mem _ List.mem_cons_self

/-- A block that was not there before and is not that of the open file. -/
theorem not_released {after : KernelHeap} {p : Int} (live : p ∈ after.client.live)
    (new : p ∉ [0x1000A8, 0x10000C]) : ¬ Released {0x1000A8} kernel after := by
  intro released
  have reached : p ∈ ({0x1000A8} : Set Int) := by
    refine released p live ?_
    change p ∉ client.live
    rw [client_live]
    exact new
  rw [Set.mem_singleton_iff.mp reached] at new
  exact new List.mem_cons_self

end SmallDisk

open SmallDisk in
/-- The root directory is nothing to run, and exec gives back all that it has taken. -/
theorem calls_release_sample :
    ∃ after, (Usage.exec usualControllers volume 4 [slash] [[0x61]]).run kernel =
        some (.returned (-1), after) ∧ Released {0x1000A8} kernel after := by
  have ran : ((Usage.exec usualControllers volume 4 [slash] [[0x61]]).run kernel).map Prod.fst =
      some (.returned (-1)) := by decide +kernel
  obtain ⟨⟨exit, after⟩, final, rfl⟩ := Option.map_eq_some_iff.mp ran
  have refused : SYS.Refused volume.fs 4 [slash] := .inl (by decide +kernel)
  exact ⟨after, final, ((calls_release kernel_calling).1 _ _ _ _ _ _ final).mpr (.inr refused)⟩

open SmallDisk in
/-- exec enters the program with one argument, and play_audio has played the sound: each
leaves a block. -/
theorem calls_leak : Calling {0x1000A8} process volume kernel ∧
    (∃ after, (Usage.exec usualControllers volume 4 [0x61] [[0x61]]).run kernel =
      some (.switched 0x80000000 0xEFFFDFEC, after) ∧ ¬ Released {0x1000A8} kernel after) ∧
    ∃ after, (Usage.playAudio ext2 4 freshMemory process 3).run kernel = some (1, after) ∧
      ¬ Released {0x1000A8} kernel after := by
  refine ⟨kernel_calling, ?_, ?_⟩
  · have ran : ((Usage.exec usualControllers volume 4 [0x61] [[0x61]]).run kernel).map
        (fun (exit, after) => (exit, after.client.live)) =
          some (.switched 0x80000000 0xEFFFDFEC, [0x1000F0, 0x1000A8, 0x10000C]) := by
      decide +kernel
    obtain ⟨⟨exit, after⟩, final, same⟩ := Option.map_eq_some_iff.mp ran
    obtain ⟨rfl, live⟩ := Prod.mk.inj same
    exact ⟨after, final, not_released (live ▸ List.mem_cons_self) (by decide)⟩
  · have ran : ((Usage.playAudio ext2 4 freshMemory process 3).run kernel).map
        (fun (result, after) => (result, after.client.live)) =
          some (1, [0x1000C0, 0x1000A8, 0x10000C]) := by
      decide +kernel
    obtain ⟨⟨result, after⟩, final, same⟩ := Option.map_eq_some_iff.mp ran
    obtain ⟨rfl, live⟩ := Prod.mk.inj same
    exact ⟨after, final, not_released (live ▸ List.mem_cons_self) (by decide)⟩

end AC97Kernel
