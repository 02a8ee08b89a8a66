/-
Playing the data of a WAVE file.

`fillBuffers` and the loop that calls it each count the data down on their own.
What they load, batch after batch, is the data from its first byte on, and the
loop ends when all of it has been loaded.
-/

import AC97Kernel.Audio.Search

set_option autoImplicit false

namespace AC97Kernel

open Loops Slices LittleEndian Riff

/-- The buffers, in the order of their indices, hold `total` bytes of the content
from a position on. -/
structure Carries (content : List UInt8) (position total : Nat) (loads : List BufferLoad) :
    Prop where
  order : loads.map BufferLoad.index = List.range loads.length
  bytes : loads.flatMap BufferLoad.bytes = slice content position total
  small : ∀ load ∈ loads, load.bytes.length ≤ bufferSize

variable {content : List UInt8} {position total count : Nat} {loads : List BufferLoad}

theorem Carries.none : Carries content position 0 [] := by
  constructor
  · rfl
  · rw [slice_none]
    rfl
  · intro load impossible
    cases impossible

/-- The next buffer takes the bytes that come next. -/
theorem Carries.add (carries : Carries content position total loads) (count length : Nat)
    (size : count ≤ bufferSize) :
    Carries content position (total + count)
      (loads ++ [{ index := loads.length, length := length
                   bytes := slice content (position + total) count }]) := by
  constructor
  · rw [List.map_append, carries.order, List.length_append, List.length_singleton,
      List.range_succ]
    rfl
  · rw [List.flatMap_append, carries.bytes, slice_add, List.flatMap_singleton]
  · intro load member
    rcases List.mem_append.mp member with early | last
    · exact carries.small load early
    · rw [List.mem_singleton.mp last, length_slice]
      omega

theorem Carries.index_lt (carries : Carries content position total loads) {load : BufferLoad}
    (member : load ∈ loads) : load.index < loads.length := by
  have listed := List.mem_map_of_mem (f := BufferLoad.index) member
  rw [carries.order] at listed
  exact List.mem_range.mp listed

namespace Filling

variable {filling : Filling}

theorem load_stands (stands : filling.file.Stands content position) (index length count : Nat)
    (enough : position + count ≤ content.length) :
    ∃ next, filling.load index length count = some next ∧
      next.file.Stands content (position + count) ∧
      next.loads = filling.loads ++
        [{ index := index, length := length, bytes := slice content position count }] ∧
      next.dataSize = filling.dataSize := by
  obtain ⟨result, file, reads, reached⟩ := stands.read count
  rw [Nat.min_eq_left (by omega)] at reached
  refine ⟨{ filling with
              file := file
              loads := filling.loads ++
                [{ index := index, length := length, bytes := slice content position count }] },
    ?_, reached, rfl, rfl⟩
  unfold load
  rw [reads]

/-- After some of the full buffers: they are loaded, and as much is still to come
as the counter says. -/
structure Full (content : List UInt8) (position dataSize buffers : Nat) (filling : Filling) :
    Prop where
  stands : filling.file.Stands content (position + buffers * bufferSize)
  carries : Carries content position (buffers * bufferSize) filling.loads
  count : filling.loads.length = buffers
  left : filling.dataSize = dataSize - buffers * bufferSize

/-- One turn of `fillBuffers` loads one more full buffer. -/
theorem Full.turn {dataSize buffers : Nat} (full : Full content position dataSize buffers filling)
    (word : dataSize < 2 ^ 32) (more : (buffers + 1) * bufferSize ≤ dataSize)
    (enough : position + dataSize ≤ content.length) :
    ∃ next, Filling.turn buffers filling = some next ∧
      Full content position dataSize (buffers + 1) next := by
  have sum : (buffers + 1) * bufferSize = buffers * bufferSize + bufferSize :=
    Nat.succ_mul buffers bufferSize
  obtain ⟨next, loaded, nextAt, nextLoads, sameSize⟩ :=
    load_stands full.stands buffers 0xFFFE bufferSize (by omega)
  have carries := full.carries.add bufferSize 0xFFFE (Nat.le_refl bufferSize)
  rw [full.count] at carries
  refine ⟨{ next with
              dataSize := (next.dataSize + 2 ^ 32 - bufferSize) % 2 ^ 32
              totalSamples := (next.totalSamples + 2 ^ 32 - 0xFFFF) % 2 ^ 32 }, ?_, ?_⟩
  · unfold Filling.turn
    rw [loaded]
    rfl
  · constructor
    · rw [sum, ← Nat.add_assoc]
      exact nextAt
    · rw [sum, nextLoads]
      exact carries
    · rw [nextLoads, List.length_append, full.count]
      rfl
    · simp only [sameSize, full.left]
      omega

end Filling

open Playing in
theorem fillBuffers_carries {file : OpenFileStruct} (last : Bool) {dataSize : Nat}
    (stands : file.Stands content position) (word : dataSize < 2 ^ 32)
    (enough : position + dataSize ≤ content.length)
    (switch : last = decide (dataSize < 32 * bufferSize)) (sampleRate totalSamples : Nat) :
    ∃ filled, fillBuffers file sampleRate last dataSize totalSamples = some filled ∧
      filled.file.Stands content (position + batchSize last dataSize) ∧
      Carries content position (batchSize last dataSize) filled.loads ∧
      filled.loads.length ≤ 32 := by
  let start : Filling :=
    { file := file, dataSize := dataSize, totalSamples := totalSamples, loads := [] }
  have begins : Filling.Full content position dataSize 0 start := by
    constructor
    · rw [Nat.zero_mul]
      exact stands
    · rw [Nat.zero_mul]
      exact Carries.none
    · rfl
    · simp [start]
  have fills (buffers : Nat) (some : buffers * bufferSize ≤ dataSize) :
      ∃ filling, forRange Filling.turn 0 buffers start = .some filling ∧
        Filling.Full content position dataSize buffers filling := by
    have ran := forRange_succeeds Filling.turn 0 buffers start
      (Filling.Full content position dataSize)
      (by
        intro index before _ upper full
        have most : (index + 1) * bufferSize ≤ buffers * bufferSize :=
          Nat.mul_le_mul_right _ (by omega)
        exact full.turn word (by omega) enough)
      begins
    rw [Nat.zero_add] at ran
    exact ran
  by_cases short : dataSize < 32 * bufferSize
  · have isLast : last = true := by rw [switch, decide_eq_true short]
    subst isLast
    have rest := Nat.div_add_mod dataSize bufferSize
    have part := Nat.mod_lt dataSize (by decide : 0 < bufferSize)
    rw [Nat.mul_comm] at rest
    have few : dataSize / bufferSize < 32 := Nat.div_lt_of_lt_mul (by
      rw [Nat.mul_comm]
      exact short)
    obtain ⟨filling, ran, full⟩ := fills (dataSize / bufferSize) (by omega)
    have left : filling.dataSize = dataSize % bufferSize := by
      have left := full.left
      omega
    obtain ⟨final, loaded, finalAt, finalLoads, _⟩ :=
      Filling.load_stands full.stands (dataSize / bufferSize)
        ((filling.totalSamples + 2 ^ 32 - 1) % 2 ^ 16) filling.dataSize (by omega)
    have carries := full.carries.add filling.dataSize
      ((filling.totalSamples + 2 ^ 32 - 1) % 2 ^ 16) (by omega)
    rw [full.count, ← finalLoads, left, rest] at carries
    rw [left, Nat.add_assoc, rest] at finalAt
    have number : final.loads.length ≤ 32 := by
      rw [finalLoads, List.length_append, full.count, List.length_singleton]
      omega
    refine ⟨final.filled sampleRate (dataSize / bufferSize) true, ?_, ?_⟩
    · unfold fillBuffers
      simp only [if_true]
      rw [ran, Option.bind_some, loaded]
      rfl
    · exact ⟨finalAt, carries, number⟩
  · have notLast : last = false := by rw [switch, decide_eq_false short]
    subst notLast
    obtain ⟨filling, ran, full⟩ := fills 32 (by omega)
    refine ⟨filling.filled sampleRate 32 false, ?_, ?_⟩
    · unfold fillBuffers
      simp only [Bool.false_eq_true, if_false]
      rw [ran, Option.bind_some]
      rfl
    · rw [batchSize, if_neg Bool.false_ne_true]
      exact ⟨full.stands, full.carries, Nat.le_of_eq full.count⟩

/-! ### The loop over the batches -/

/-- The buffers of a batch are loaded in the order of their indices, all of them
exist, and none is overfull. -/
structure Batch.Fits (batch : Batch) : Prop where
  order : batch.filled.loads.map BufferLoad.index = List.range batch.filled.loads.length
  exist : ∀ load ∈ batch.filled.loads, load.index < 32
  small : ∀ load ∈ batch.filled.loads, load.bytes.length ≤ bufferSize

/-- Everything that was loaded, in the order in which it was. -/
def streamed (batches : List Batch) : List UInt8 :=
  (batches.flatMap fun batch => batch.filled.loads).flatMap BufferLoad.bytes

namespace Playing

variable {playing : Playing} {header : WAVHeader}

/-- Between two batches: what is not counted any more has been loaded. -/
structure Streams (content : List UInt8) (position total : Nat) (playing : Playing) : Prop where
  stands : playing.file.Stands content (position + (total - playing.dataSize))
  left : playing.dataSize ≤ total
  bytes : streamed playing.batches = slice content position (total - playing.dataSize)
  fits : ∀ batch ∈ playing.batches, batch.Fits
  goesOn : playing.result = none

/-- One batch takes the bytes that come next. -/
theorem Streams.turn (streams : Streams content position total playing)
    (word : total < 2 ^ 32) (enough : position + total ≤ content.length)
    (rate : header.sampleRateEq ≠ 0) (some : 0 < playing.dataSize) :
    ∃ next, Playing.turn header playing = .some next ∧ Streams content position total next ∧
      next.dataSize < playing.dataSize := by
  have left := streams.left
  obtain ⟨filled, ran, filledAt, carries, few⟩ := fillBuffers_carries
    (decide (playing.dataSize < 32 * bufferSize)) streams.stands (by omega) (by omega) rfl
    header.sampleRate playing.totalSamples
  have sizeIs : batchSize (decide (playing.dataSize < 32 * bufferSize)) playing.dataSize =
      min playing.dataSize (32 * bufferSize) := by
    simp only [batchSize, decide_eq_true_eq]
    split <;> omega
  have buffers : 0 < 32 * bufferSize ∧ 32 * bufferSize < 2 ^ 32 - 1 := by decide
  have bound := Nat.div_le_self (min playing.dataSize (32 * bufferSize)) header.sampleRateEq
  have small : ¬ min playing.dataSize (32 * bufferSize) / header.sampleRateEq = 2 ^ 32 - 1 := by
    omega
  have counted : (if playing.dataSize < 32 * bufferSize then 0
      else (playing.dataSize + 2 ^ 32 - 32 * bufferSize) % 2 ^ 32) =
        playing.dataSize - min playing.dataSize (32 * bufferSize) := by
    split <;> omega
  have taken : total - (playing.dataSize - min playing.dataSize (32 * bufferSize)) =
      total - playing.dataSize + min playing.dataSize (32 * bufferSize) := by omega
  rw [sizeIs] at filledAt carries
  refine ⟨playing.played header (decide (playing.dataSize < 32 * bufferSize)) filled, ?_, ?_, ?_⟩
  · unfold Playing.turn
    simp only
    rw [ran, Option.bind_some, if_neg rate]
  · simp only [played, sizeIs, if_neg small, decide_eq_true_eq, counted]
    constructor
    · simp only [taken]
      rw [← Nat.add_assoc]
      exact filledAt
    · simp only
      omega
    · simp only [taken]
      rw [streamed, List.flatMap_append, List.flatMap_append, slice_add, ← streams.bytes,
        ← carries.bytes]
      simp [streamed]
    · intro batch member
      rcases List.mem_append.mp member with early | last
      · exact streams.fits batch early
      · rw [List.mem_singleton.mp last]
        refine ⟨carries.order, ?_, carries.small⟩
        intro load member
        have index := carries.index_lt member
        omega
    · exact streams.goesOn
  · simp only [played, sizeIs, if_neg small, decide_eq_true_eq, counted]
    omega

end Playing

/-- The loop loads all the data and ends. -/
theorem stream_ends {search : WavSearch} (stands : search.Stands content position)
    (word : search.header.dataSize < 2 ^ 32)
    (enough : position + search.header.dataSize ≤ content.length)
    (rate : search.header.sampleRateEq ≠ 0) :
    ∃ turns played, stream turns search = some played ∧ played.result = 1 ∧
      streamed played.batches = slice content position search.header.dataSize ∧
      ∀ batch ∈ played.batches, batch.Fits := by
  let start : Playing :=
    { file := search.file
      dataSize := search.header.dataSize
      totalSamples := search.header.sampleRate * (search.header.bitsPerSample / 8) % 2 ^ 32 / 2
      batches := []
      result := none }
  have begins : Playing.Streams content position search.header.dataSize start := by
    constructor
    · rw [Nat.sub_self]
      exact stands
    · exact Nat.le_refl _
    · rw [Nat.sub_self, slice_none]
      rfl
    · intro batch impossible
      cases impossible
    · rfl
  obtain ⟨turns, final, ran, streams, stops⟩ := whileLoop_ends Playing.goesOn
    (Playing.turn search.header) (Playing.Streams content position search.header.dataSize)
    Playing.dataSize
    (by
      intro before streams goesOn
      simp only [Playing.goesOn, streams.goesOn, Option.isNone_none, Bool.true_and,
        decide_eq_true_eq] at goesOn
      exact streams.turn word enough rate goesOn)
    begins
  have finished : final.dataSize = 0 := by
    simp only [Playing.goesOn, streams.goesOn, Option.isNone_none, Bool.true_and,
      decide_eq_false_iff_not] at stops
    omega
  have bytes := streams.bytes
  rw [finished, Nat.sub_zero] at bytes
  refine ⟨turns, { batches := final.batches, result := final.result.getD 1 }, ?_, ?_, bytes,
    streams.fits⟩
  · unfold stream
    simp only
    rw [ran]
    rfl
  · rw [streams.goesOn]
    rfl

theorem stream_more {search : WavSearch} {turns more : Nat} {played : Played}
    (ran : stream turns search = some played) (enough : turns ≤ more) :
    stream more search = some played := by
  obtain ⟨final, looped, result⟩ := Option.map_eq_some_iff.mp ran
  unfold stream
  simp only
  rw [whileLoop_more looped enough]
  exact congrArg some result

/-- play_audio plays a WAVE file with a format of 16 bytes and even chunks before
the data: the buffers are loaded with the data, all of it and once, and the loop
ends. -/
theorem play_audio_streams (wave : WaveFile) (sixteen : wave.format.body.length = 16)
    (even : ∀ chunk ∈ wave.before ++ wave.between, chunk.body.length % 2 = 0)
    (rate : decode (slice wave.format.body 8 4) ≠ 0) {node : BlockIO}
    (serves : node.Serves wave.encode) (memory : WAVHeader) :
    ∃ turns played, playAudio turns memory (some (.openFile (.make node))) = some played ∧
      played.result = 1 ∧ streamed played.batches = wave.data.body ∧
      ∀ batch ∈ played.batches, batch.Fits := by
  have allEven : wave.Even := by
    intro chunk member
    rcases List.mem_append.mp member with early | late
    · exact even chunk (List.mem_append_left _ early)
    · rcases List.mem_cons.mp late with same | between
      · rw [same, sixteen]
      · exact even chunk (List.mem_append_right _ between)
  obtain ⟨first, result, searched, found⟩ :=
    (allEven.plain sixteen).found (WaveFile.start_stands serves memory)
  have inside := wave.data_inside.2
  have size := found.dataSize
  obtain ⟨second, played, ran, finished, bytes, fits⟩ := stream_ends found.stands
    (by rw [size]; exact wave.data.short)
    (by rw [size]; exact inside)
    (by rw [found.sampleRateEq]; exact rate)
  refine ⟨max first second, played, ?_, finished, ?_, fits⟩
  · rw [playAudio, findWavHDR_more searched (Nat.le_max_left _ _), Option.bind_some,
      if_neg (not_not_intro found.magic)]
    exact stream_more ran (Nat.le_max_right _ _)
  · rw [bytes, size]
    exact (chunk_at wave.laid.data).2.2.1

theorem play_audio_streams_sample :
    ∃ turns played, playAudio turns freshMemory
        (some (.openFile (.make (waveDevice plainFrame.encode (by decide))))) = some played ∧
      played.result = 1 ∧ streamed played.batches = [1, 2, 3, 4] ∧
      ∀ batch ∈ played.batches, batch.Fits :=
  play_audio_streams plainFrame rfl (by decide) (by decide) (waveDevice_serves _ _) freshMemory

end AC97Kernel
