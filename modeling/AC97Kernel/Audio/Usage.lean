/-
What play_audio does to the heap.

The header of the file is a block of its own; the buffers of the reads are those of the
file system, and the buffers of the device were taken when it was set up.  The handle
on the file is counted, also where it is passed by value.
-/

import AC97Kernel.Storage.Usage
import AC97Kernel.Audio.Model

set_option autoImplicit false

namespace AC97Kernel

open Run Loops

/-- A file that a descriptor may stand for, with the node that is read. -/
inductive OpenedFile where
  | u8250
  | openFile (node : Node) (myOffset : Nat)

def OpenedFile.toFile : OpenedFile → File
  | .u8250 => .u8250
  | .openFile node myOffset => .openFile { node := node.io, myOffset := myOffset }

/-- A `Shared<File>` that is not null. -/
structure SharedFile where
  ptr : Int
  file : OpenedFile

/-- The loop of play_audio before its first turn. -/
def Playing.begin (search : WavSearch) : Playing where
  file := search.file
  dataSize := search.header.dataSize
  totalSamples := search.header.sampleRate * (search.header.bitsPerSample / 8) % 2 ^ 32 / 2
  batches := []
  result := none

namespace Usage

/-- `sizeof(WAVHeader)`. -/
def sizeofWAVHeader : UInt32 := 44

section Play

variable (fs : Ext2) (data : NodeData)

/-- `OpenFileStruct::read`. -/
def readFile (file : OpenFileStruct) (n : Nat) : Usage Unit :=
  if n = 0 then pure () else readAll file.node (readBlock fs data) file.myOffset n

def fetchHeader (offset count : Nat) (search : WavSearch) : Usage WavSearch := do
  readFile fs data search.file count
  ofOption (search.fetch offset count)

/-- One turn of either loop of `findWavHDR`. -/
def searchTurn (offset : Nat) (search : WavSearch) : Usage WavSearch := do
  let search ← fetchHeader fs data (offset + 4) 4 search
  fetchHeader fs data offset 4 (search.skip (search.header.field (offset + 4) 4))

/-- `findWavHDR`, with the handle that it is passed. -/
def findWavHDR (turns : Nat) (ptr : Int) (search : WavSearch) : Usage WavSearch := do
  add ptr
  let search ← fetchHeader fs data 0 16 search
  let search ← loop (WavSearch.misses 12 fmtTag) (searchTurn fs data 12) turns search
  let search ← fetchHeader fs data 16 4 search
  let search ← fetchHeader fs data 20 ((search.header.field 16 4 + 4) % 2 ^ 32) search
  let search ← loop (WavSearch.misses 36 dataTag) (searchTurn fs data 36) turns search
  let search ← fetchHeader fs data 40 4 search
  drop ptr
  return search

/-- One turn of the loop of `fillBuffers`. -/
def fillTurn (index : Nat) (filling : Filling) : Usage Filling := do
  readFile fs data filling.file bufferSize
  ofOption (filling.turn index)

/-- The rest of the data goes into one more buffer. -/
def fillLast (last : Bool) (filling : Filling) : Usage Unit :=
  if last then readFile fs data filling.file filling.dataSize else pure ()

/-- `fillBuffers`, with the handle that it is passed. -/
def fillBuffers (ptr : Int) (file : OpenFileStruct) (sampleRate : Nat) (last : Bool)
    (dataSize totalSamples : Nat) : Usage Filled := do
  add ptr
  let numBuffers := if last then dataSize / bufferSize else 32
  let filling ← times (fillTurn fs data) numBuffers
    { file := file, dataSize := dataSize, totalSamples := totalSamples, loads := [] }
  fillLast fs data last filling
  drop ptr
  ofOption (AC97Kernel.fillBuffers file sampleRate last dataSize totalSamples)

/-- One turn of the loop of play_audio; `AC97::play` takes no block. -/
def playTurn (ptr : Int) (header : WAVHeader) (playing : Playing) : Usage Playing := do
  let last : Bool := playing.dataSize < 32 * bufferSize
  let _filled ← fillBuffers fs data ptr playing.file header.sampleRate last playing.dataSize
    playing.totalSamples
  ofOption (playing.turn header)

/-- The value of the system call, once the header is there. -/
def playSearched (turns : Nat) (ptr : Int) (search : WavSearch) : Usage Int :=
  if search.header.magic ≠ waveTag then pure (-1)
  else do
    let playing ← loop Playing.goesOn (playTurn fs data ptr search.header) turns (.begin search)
    return playing.result.getD 1

/-- The system call with an open file: every `return` drops the handle, and none
deletes the header. -/
def playFile (turns : Nat) (memory : WAVHeader) (ptr : Int) (file : OpenFileStruct) :
    Usage Int := do
  let _wavhdr ← new sizeofWAVHeader
  let search ← findWavHDR fs data turns ptr { file := file, header := memory }
  let result ← playSearched fs data turns ptr search
  drop ptr
  return result

end Play

section Handler

variable {Semaphore Output : Type}

/-- play_audio with the handle that `getFile` returns. -/
def playShared (fs : Ext2) (turns : Nat) (memory : WAVHeader) (shared : SharedFile) :
    Usage Int := do
  add shared.ptr
  match shared.file with
  | .u8250 =>
      drop shared.ptr
      return -1
  | .openFile node myOffset =>
      playFile fs node.data turns memory shared.ptr { node := node.io, myOffset := myOffset }

/-- The system call; `memory` is what the header holds when it is allocated. -/
def playAudio (fs : Ext2) (turns : Nat) (memory : WAVHeader)
    (process : Process SharedFile Semaphore Output) (fd : Nat) : Usage Int :=
  match process.getFile fd with
  | none => pure (-1)
  | some shared => playShared fs turns memory shared

end Handler

end Usage

/-! ### What is played is what is played without a heap -/

section Values

variable (fs : Ext2) (data : NodeData)

theorem fetchHeader_computes (offset count : Nat) (search : WavSearch) :
    Computes (Usage.fetchHeader fs data offset count search) (search.fetch offset count) :=
  Computes.after fun _ => Computes.ofOption _

theorem searchTurn_computes (offset : Nat) (search : WavSearch) :
    Computes (Usage.searchTurn fs data offset search) (search.turn offset) :=
  Computes.bind (fetchHeader_computes fs data _ _ _) fun _ => fetchHeader_computes fs data _ _ _

theorem findWavHDR_computes (turns : Nat) (ptr : Int) (search : WavSearch) :
    Computes (Usage.findWavHDR fs data turns ptr search) (findWavHDR turns search) := by
  unfold findWavHDR findFormat findData
  simp only [Option.bind_assoc]
  refine Computes.after fun _ => ?_
  refine Computes.bind (fetchHeader_computes fs data _ _ _) fun search => ?_
  refine Computes.bind (Computes.loop turns search (searchTurn_computes fs data 12)) fun search => ?_
  refine Computes.bind (fetchHeader_computes fs data _ _ _) fun search => ?_
  refine Computes.bind (fetchHeader_computes fs data _ _ _) fun search => ?_
  refine Computes.bind (Computes.loop turns search (searchTurn_computes fs data 36)) fun search => ?_
  refine Computes.before (fetchHeader_computes fs data _ _ _) fun search => ?_
  exact Computes.after fun _ => Computes.pure search

theorem playSearched_computes (turns : Nat) (ptr : Int) (search : WavSearch) :
    Computes (Usage.playSearched fs data turns ptr search)
      ((if search.header.magic ≠ waveTag then some { batches := [], result := -1 }
        else stream turns search).map Played.result) := by
  unfold Usage.playSearched
  by_cases refused : search.header.magic ≠ waveTag
  · rw [if_pos refused, if_pos refused]
    exact Computes.pure (-1)
  · rw [if_neg refused, if_neg refused]
    unfold stream
    rw [Option.map_map, Option.map_eq_bind]
    have turn (playing : Playing) : Computes
        (Usage.playTurn fs data ptr search.header playing) (playing.turn search.header) :=
      Computes.after fun _ => Computes.ofOption _
    refine Computes.bind (Computes.loop turns _ turn) fun playing => ?_
    exact Computes.pure _

end Values

section Balance

variable (fs : Ext2) (data : NodeData)

theorem readFile_balanced (file : OpenFileStruct) (n : Nat) :
    Balanced (Usage.readFile fs data file n) := by
  intro start blocks handles
  unfold Usage.readFile
  split
  · exact Keeps.pure ()
  · exact readAll_balanced (readBlock_balanced fs data) _ _ start blocks handles

theorem fetchHeader_balanced (offset count : Nat) (search : WavSearch) :
    Balanced (Usage.fetchHeader fs data offset count search) := by
  intro start blocks handles
  refine Keeps.bind (readFile_balanced fs data _ _ start blocks handles) fun _ => ?_
  exact Keeps.ofOption _

theorem searchTurn_balanced (offset : Nat) (search : WavSearch) :
    Balanced (Usage.searchTurn fs data offset search) := by
  intro start blocks handles
  refine Keeps.bind (fetchHeader_balanced fs data _ _ _ start blocks handles) fun _ => ?_
  exact fetchHeader_balanced fs data _ _ _ start blocks handles

theorem fillTurn_balanced (index : Nat) (filling : Filling) :
    Balanced (Usage.fillTurn fs data index filling) := by
  intro start blocks handles
  refine Keeps.bind (readFile_balanced fs data _ _ start blocks handles) fun _ => ?_
  exact Keeps.ofOption _

theorem fillLast_balanced (last : Bool) (filling : Filling) :
    Balanced (Usage.fillLast fs data last filling) := by
  intro start blocks handles
  unfold Usage.fillLast
  split
  · exact readFile_balanced fs data _ _ start blocks handles
  · exact Keeps.pure ()

variable {start : KernelHeap} {blocks handles : List Int} {ptr : Int} {turns : Nat}

/-- The header is found with a handle that is dropped at the end. -/
theorem findWavHDR_keeps (search : WavSearch) : Keeps (Owing start blocks (ptr :: handles))
    (Usage.findWavHDR fs data turns ptr search) := by
  refine Triple.bind (add_owing (.inl List.mem_cons_self)) fun _ => ?_
  have fetch (offset count : Nat) (search : WavSearch) :=
    fetchHeader_balanced fs data offset count search start blocks (ptr :: ptr :: handles)
  have turn (offset : Nat) (search : WavSearch) :=
    searchTurn_balanced fs data offset search start blocks (ptr :: ptr :: handles)
  refine Triple.bind (fetch _ _ _) fun search => ?_
  refine Triple.bind (Keeps.loop (turn 12) turns search) fun search => ?_
  refine Triple.bind (fetch _ _ _) fun search => ?_
  refine Triple.bind (fetch _ _ _) fun search => ?_
  refine Triple.bind (Keeps.loop (turn 36) turns search) fun search => ?_
  refine Triple.bind (fetch _ _ _) fun search => ?_
  refine Triple.bind drop_owing fun _ => ?_
  exact Keeps.pure search

theorem fillBuffers_keeps (file : OpenFileStruct) (sampleRate : Nat) (last : Bool)
    (dataSize totalSamples : Nat) : Keeps (Owing start blocks (ptr :: handles))
      (Usage.fillBuffers fs data ptr file sampleRate last dataSize totalSamples) := by
  refine Triple.bind (add_owing (.inl List.mem_cons_self)) fun _ => ?_
  have turn (index : Nat) (filling : Filling) :=
    fillTurn_balanced fs data index filling start blocks (ptr :: ptr :: handles)
  refine Triple.bind (Keeps.times turn _ _) fun filling => ?_
  refine Triple.bind (fillLast_balanced fs data last filling start blocks _) fun _ => ?_
  refine Triple.bind drop_owing fun _ => ?_
  exact Keeps.ofOption _

theorem playTurn_keeps (header : WAVHeader) (playing : Playing) :
    Keeps (Owing start blocks (ptr :: handles)) (Usage.playTurn fs data ptr header playing) := by
  refine Triple.bind (fillBuffers_keeps fs data _ _ _ _ _) fun _ => ?_
  exact Keeps.ofOption _

theorem playSearched_keeps (search : WavSearch) : Keeps (Owing start blocks (ptr :: handles))
    (Usage.playSearched fs data turns ptr search) := by
  unfold Usage.playSearched
  split
  · exact Keeps.pure (-1)
  · refine Triple.bind (Keeps.loop (playTurn_keeps fs data search.header) turns _)
      fun playing => ?_
    exact Keeps.pure _

/-- Whatever the file holds, the header is left on the heap. -/
theorem playFile_owing (memory : WAVHeader) (file : OpenFileStruct) :
    Triple (Owing start blocks (ptr :: handles))
      (Usage.playFile fs data turns memory ptr file)
      fun _ now => ∃ wavhdr, Owing start (wavhdr :: blocks) handles now := by
  refine Triple.bind (new_block (by decide)) fun wavhdr => ?_
  refine Triple.bind (findWavHDR_keeps fs data _) fun search => ?_
  refine Triple.bind (playSearched_keeps fs data search) fun result => ?_
  refine Triple.bind drop_owing fun _ => ?_
  exact Triple.pure fun now owing => ⟨wavhdr, owing⟩

end Balance

section Handler

variable {Semaphore Output : Type} {process : Process SharedFile Semaphore Output} {fd : Nat}

/-- The value of the system call is the one that is computed without a heap. -/
theorem playAudio_computes (fs : Ext2) (turns : Nat) (memory : WAVHeader) :
    Computes (Usage.playAudio fs turns memory process fd)
      ((playAudio turns memory ((process.getFile fd).map fun shared => shared.file.toFile)).map
        Played.result) := by
  unfold Usage.playAudio
  cases process.getFile fd with
  | none => exact Computes.pure (-1)
  | some shared =>
      obtain ⟨ptr, file⟩ := shared
      refine Computes.after fun _ => ?_
      cases file with
      | u8250 => exact Computes.after fun _ => Computes.pure (-1)
      | openFile node myOffset =>
          simp only [Option.map_some, OpenedFile.toFile, playAudio]
          rw [Option.map_bind]
          refine Computes.after fun _ => ?_
          refine Computes.bind (findWavHDR_computes fs node.data turns ptr _) fun search => ?_
          refine Computes.before (playSearched_computes fs node.data turns ptr search)
            fun result => ?_
          exact Computes.after fun _ => Computes.pure result

/-- The descriptor stands for a file to play. -/
def Plays (process : Process SharedFile Semaphore Output) (fd : Nat) : Prop :=
  ∃ ptr node myOffset, process.getFile fd = some { ptr := ptr, file := .openFile node myOffset }

/-- play_audio leaves the header of the file that it plays, and nothing else. -/
theorem playAudio_owing {start : KernelHeap} (fs : Ext2) (turns : Nat) (memory : WAVHeader)
    (known : ∀ shared, process.getFile fd = some shared →
      shared.ptr ∈ start.client.live ∧ 1 ≤ start.refCount shared.ptr) :
    Triple (Owing start [] []) (Usage.playAudio fs turns memory process fd)
      fun _ now => (¬ Plays process fd ∧ Owing start [] [] now) ∨
        (Plays process fd ∧ ∃ wavhdr, Owing start [wavhdr] [] now) := by
  unfold Usage.playAudio
  cases got : process.getFile fd with
  | none =>
      refine Triple.pure fun now owing => .inl ⟨?_, owing⟩
      rintro ⟨ptr, node, myOffset, plays⟩
      rw [got] at plays
      cases plays
  | some shared =>
      obtain ⟨ptr, file⟩ := shared
      refine Triple.bind (add_owing (.inr (known _ got))) fun _ => ?_
      cases file with
      | u8250 =>
          refine Triple.bind drop_owing fun _ => ?_
          refine Triple.pure fun now owing => .inl ⟨?_, owing⟩
          rintro ⟨ptr, node, myOffset, plays⟩
          rw [got] at plays
          cases plays
      | openFile node myOffset =>
          refine (playFile_owing fs node.data memory _).mono (fun _ => id) fun _ now left => ?_
          exact .inr ⟨⟨ptr, node, myOffset, got⟩, left⟩

end Handler

end AC97Kernel
