/-
How long play_audio lets each batch play.

Seconds and the rest in ticks are computed apart, in 32 bits, from the data bytes of
the batch and the byte rate that stands in the header.
-/

import AC97Kernel.Audio.Descriptors
import AC97Kernel.Audio.Waiting

set_option autoImplicit false

namespace AC97Kernel

open Loops Slices LittleEndian

/-- What a turn of the loop computes for the timer. -/
structure Timing where
  bytes : Nat
  byteRate : Nat

namespace Timing

def duration (timing : Timing) : Nat := timing.bytes / timing.byteRate

def jiffies (timing : Timing) : Nat :=
  timing.bytes % timing.byteRate * 1000 % 2 ^ 32 / timing.byteRate

/-- The products of the turn and of `Pit::secondsToJiffies`. -/
def products (timing : Timing) : List Nat :=
  [timing.bytes % timing.byteRate * 1000, 1000 * timing.duration]

/-- What `AC97::play` adds to the counter. -/
def wait (timing : Timing) : Nat :=
  (Pit.secondsToJiffies 1000 timing.duration + timing.jiffies) % 2 ^ 32

/-- The processor can divide, nothing wraps, and the wait is the time of the bytes. -/
structure Exact (timing : Timing) : Prop where
  divides : timing.byteRate ≠ 0
  products : ∀ product ∈ timing.products, product < 2 ^ 32
  wait : timing.wait = 1000 * timing.bytes / timing.byteRate

/-- Thousandths of a quotient, from the quotient and the rest. -/
theorem scaled_division (bytes : Nat) {rate : Nat} (positive : 0 < rate) :
    1000 * (bytes / rate) + bytes % rate * 1000 / rate = 1000 * bytes / rate := by
  have split : 1000 * bytes = bytes % rate * 1000 + rate * (1000 * (bytes / rate)) := by
    calc
      1000 * bytes = 1000 * (rate * (bytes / rate) + bytes % rate) := by rw [Nat.div_add_mod]
      _ = rate * (1000 * (bytes / rate)) + bytes % rate * 1000 := by
          rw [Nat.mul_add, Nat.mul_left_comm, Nat.mul_comm 1000 (bytes % rate)]
      _ = bytes % rate * 1000 + rate * (1000 * (bytes / rate)) := Nat.add_comm _ _
  rw [split, Nat.add_mul_div_left _ _ positive, Nat.add_comm]

private theorem scaled_small {bytes part : Nat} (batch : bytes ≤ 32 * bufferSize)
    (least : part ≤ bytes) : part * 1000 + 1000 ≤ 2 ^ 32 := by
  have buffers : 32 * bufferSize = 4194240 := rfl
  omega

/-- A batch is so small that only a byte rate of 0 is in the way. -/
theorem exact_iff {timing : Timing} (batch : timing.bytes ≤ 32 * bufferSize) :
    timing.Exact ↔ timing.byteRate ≠ 0 := by
  constructor
  · intro exact
    exact exact.divides
  · intro divides
    have positive : 0 < timing.byteRate := Nat.pos_of_ne_zero divides
    have within : timing.bytes % timing.byteRate < timing.byteRate := Nat.mod_lt _ positive
    have rest : timing.bytes % timing.byteRate * 1000 + 1000 ≤ 2 ^ 32 :=
      scaled_small batch (Nat.mod_le _ _)
    have seconds : timing.duration * 1000 + 1000 ≤ 2 ^ 32 :=
      scaled_small batch (Nat.div_le_self _ _)
    rw [Nat.mul_comm] at seconds
    have noWrap : timing.bytes % timing.byteRate * 1000 % 2 ^ 32 =
        timing.bytes % timing.byteRate * 1000 := Nat.mod_eq_of_lt (by omega)
    have ticks : timing.jiffies < 1000 := by
      unfold jiffies
      rw [noWrap, Nat.div_lt_iff_lt_mul positive, Nat.mul_comm 1000]
      exact Nat.mul_lt_mul_of_pos_right within (by decide)
    refine ⟨divides, ?_, ?_⟩
    · intro product member
      simp only [Timing.products, List.mem_cons, List.not_mem_nil, or_false] at member
      rcases member with same | same
      · rw [same]
        omega
      · rw [same]
        omega
    · have whole : 1000 * timing.duration % 2 ^ 32 = 1000 * timing.duration :=
        Nat.mod_eq_of_lt (by omega)
      unfold Timing.wait Pit.secondsToJiffies
      rw [whole, Nat.mod_eq_of_lt (by omega)]
      unfold duration jiffies
      rw [noWrap]
      exact scaled_division timing.bytes positive

end Timing

namespace Playing

variable {header : WAVHeader} {start playing next : Playing} {content : List UInt8} {position : Nat}

def timing (header : WAVHeader) (playing : Playing) : Timing :=
  { bytes := batchSize (playing.dataSize < 32 * bufferSize) playing.dataSize
    byteRate := header.sampleRateEq }

theorem timing_bytes (header : WAVHeader) (playing : Playing) :
    (playing.timing header).bytes ≤ 32 * bufferSize := by
  unfold timing
  simp only [batchSize, decide_eq_true_eq]
  split <;> omega

/-- The states in front of the turns of the loop. -/
inductive Reached (header : WAVHeader) (start : Playing) : Playing → Prop where
  | start : Reached header start start
  | turn {playing next : Playing} : Reached header start playing → playing.goesOn = true →
      playing.turn header = some next → Reached header start next

theorem reached_idle (idle : start.goesOn = false) (reached : Reached header start playing) :
    playing = start := by
  induction reached with
  | start => rfl
  | turn before goesOn turned same =>
      rw [same, idle] at goesOn
      cases goesOn

/-- A turn begins, and `fillBuffers` comes back: then the divisions are made. -/
def Divides (header : WAVHeader) (playing : Playing) : Prop :=
  playing.goesOn = true ∧ (playing.fill header).isSome = true

/-- A batch carries what the turn has computed. -/
theorem turn_batches (turned : playing.turn header = some next) {batch : Batch}
    (played : batch ∈ next.batches) :
    batch ∈ playing.batches ∨
      (batch.duration = (playing.timing header).duration ∧
        batch.jiffies = (playing.timing header).jiffies) := by
  obtain ⟨filled, _, turned⟩ := Option.bind_eq_some_iff.1 turned
  split at turned
  · cases turned
  · cases turned
    unfold Playing.played at played
    simp only at played
    split at played
    · exact .inl played
    · rcases List.mem_append.1 played with early | last
      · exact .inl early
      · rw [List.mem_singleton.1 last]
        exact .inr ⟨rfl, rfl⟩

theorem turn_divides (goesOn : playing.goesOn = true) (turned : playing.turn header = some next) :
    playing.Divides header := by
  obtain ⟨filled, fills, _⟩ := Option.bind_eq_some_iff.1 turned
  exact ⟨goesOn, Option.isSome_iff_exists.2 ⟨filled, fills⟩⟩

/-- Every batch of the loop comes from one of its turns. -/
theorem loop_batches {turns : Nat} {final : Playing} (reached : Reached header start playing)
    (ran : whileLoop Playing.goesOn (Playing.turn header) turns playing = some final)
    {batch : Batch} (played : batch ∈ final.batches) :
    batch ∈ playing.batches ∨
      ∃ before, Reached header start before ∧ before.Divides header ∧
        batch.duration = (before.timing header).duration ∧
        batch.jiffies = (before.timing header).jiffies := by
  induction turns generalizing playing with
  | zero => cases ran
  | succ turns ih =>
      rw [whileLoop] at ran
      by_cases goesOn : playing.goesOn = true
      · rw [if_pos goesOn] at ran
        obtain ⟨next, turned, rest⟩ := Option.bind_eq_some_iff.1 ran
        rcases ih (.turn reached goesOn turned) rest with here | later
        · rcases turn_batches turned here with early | now
          · exact .inl early
          · exact .inr ⟨playing, reached, turn_divides goesOn turned, now⟩
        · exact .inr later
      · rw [if_neg goesOn] at ran
        cases ran
        exact .inl played

end Playing

namespace Filling

variable {content : List UInt8} {filling : Filling}

/-- A buffer is loaded with what is there, up to the end of the file. -/
theorem load_stands_somewhere (standing : ∃ position, filling.file.Stands content position)
    (index length count : Nat) :
    ∃ next, filling.load index length count = some next ∧
      ∃ position, next.file.Stands content position := by
  obtain ⟨position, stands⟩ := standing
  obtain ⟨result, file, reads, reached⟩ := stands.read count
  unfold load
  rw [reads]
  exact ⟨_, rfl, _, reached⟩

theorem turn_stands_somewhere (standing : ∃ position, filling.file.Stands content position)
    (index : Nat) :
    ∃ next, Filling.turn index filling = some next ∧
      ∃ position, next.file.Stands content position := by
  obtain ⟨next, loaded, reached⟩ := load_stands_somewhere standing index 0xFFFE bufferSize
  unfold Filling.turn
  rw [loaded, Option.map_some]
  exact ⟨_, rfl, reached⟩

end Filling

/-- `fillBuffers` comes back for a file with fixed contents, however much data the
header promises. -/
theorem fillBuffers_isSome {content : List UInt8} {position : Nat} {file : OpenFileStruct}
    (stands : file.Stands content position) (sampleRate : Nat) (last : Bool)
    (dataSize totalSamples : Nat) :
    (fillBuffers file sampleRate last dataSize totalSamples).isSome = true := by
  unfold fillBuffers
  simp only
  generalize (if last = true then dataSize / bufferSize else 32) = numBuffers
  obtain ⟨filling, ran, standing⟩ := forRange_succeeds Filling.turn 0 numBuffers
    { file := file, dataSize := dataSize, totalSamples := totalSamples, loads := [] }
    (fun _ filling => ∃ position, filling.file.Stands content position)
    (fun index _ _ _ standing => Filling.turn_stands_somewhere standing index)
    ⟨position, stands⟩
  rw [ran, Option.bind_some, Option.isSome_map]
  cases last with
  | false => rfl
  | true =>
      obtain ⟨next, loaded, _⟩ := Filling.load_stands_somewhere standing numBuffers
        ((filling.totalSamples + 2 ^ 32 - 1) % 2 ^ 16) filling.dataSize
      rw [if_pos rfl, loaded]
      rfl

/-- Where the header promises data there is a first batch. -/
theorem Playing.start_divides {search : WavSearch} {content : List UInt8} {position : Nat}
    (stands : search.Stands content position) (some : 0 < search.header.dataSize) :
    (Playing.start search).Divides search.header := by
  have goesOn : (Playing.start search).goesOn = true := by
    simp [Playing.goesOn, Playing.start, some]
  exact ⟨goesOn, fillBuffers_isSome stands _ _ _ _⟩

/-- In every batch of play_audio the processor can divide, no product wraps and the wait
is the time of the data bytes, exactly where there are no data or the byte rate is not
0; and these are the times that `AC97::play` gets. -/
theorem play_audio_waits {search : WavSearch} {content : List UInt8} {position : Nat}
    (stands : search.Stands content position) :
    ((∀ playing, Playing.Reached search.header (.start search) playing →
        playing.Divides search.header → (playing.timing search.header).Exact) ↔
      search.header.dataSize = 0 ∨ search.header.sampleRateEq ≠ 0) ∧
    ∀ turns played, stream turns search = some played → ∀ batch ∈ played.batches,
      ∃ playing, Playing.Reached search.header (.start search) playing ∧
        playing.Divides search.header ∧
        batch.duration = (playing.timing search.header).duration ∧
        batch.jiffies = (playing.timing search.header).jiffies := by
  have exact (playing : Playing) : (playing.timing search.header).Exact ↔
      search.header.sampleRateEq ≠ 0 := Timing.exact_iff (playing.timing_bytes search.header)
  constructor
  · constructor
    · intro all
      rcases Nat.eq_zero_or_pos search.header.dataSize with nothing | some
      · exact .inl nothing
      · exact .inr ((exact _).1 (all _ .start (Playing.start_divides stands some)))
    · intro holds playing reached divides
      rw [exact]
      rcases holds with nothing | rate
      · have idle : (Playing.start search).goesOn = false := by
          simp [Playing.goesOn, Playing.start, nothing]
        cases Playing.reached_idle idle reached
        exact absurd divides.1 (by rw [idle]; decide)
      · exact rate
  · intro turns played ran batch member
    obtain ⟨final, looped, result⟩ := Option.map_eq_some_iff.1 ran
    rw [← result] at member
    rcases Playing.loop_batches .start looped member with impossible | found
    · cases impossible
    · exact found

theorem play_audio_waits_sample :
    ∃ turns search, findWavHDR turns
        { file := .make (waveDevice slowFrame.encode (by decide)), header := freshMemory } =
          some search ∧
      ∀ playing, Playing.Reached search.header (.start search) playing →
        playing.Divides search.header → (playing.timing search.header).Exact := by
  have plain : slowFrame.Plain := WaveFile.Even.plain (by decide) rfl
  obtain ⟨turns, search, ran, found⟩ :=
    plain.found (WaveFile.start_stands (waveDevice_serves slowFrame.encode (by decide)) freshMemory)
  refine ⟨turns, search, ran, (play_audio_waits found.stands).1.2 (.inr ?_)⟩
  rw [found.sampleRateEq]
  decide

theorem stopped_short :
    ([1, 0, 2, 0, 2, 0, 0, 0, 0, 0, 0, 0, 4, 0, 16, 0] : List UInt8).length < 2 ^ 32 := by decide

/-- The format of the slow frame with a byte rate of 0. -/
def stoppedFormat : Riff.Chunk where
  tag := fmtTag
  body := [1, 0, 2, 0, 2, 0, 0, 0, 0, 0, 0, 0, 4, 0, 16, 0]
  pad := 0
  tagLength := slow_tagLength
  short := stopped_short

theorem stopped_tag : stoppedFormat.tag = fmtTag := by decide

theorem stopped_body : 16 ≤ stoppedFormat.body.length := by decide

def stoppedFrame : WaveFile :=
  { plainFrame with format := stoppedFormat, formatIs := stopped_tag, formatBody := stopped_body }

/-- The processor divides by a byte rate of 0. -/
theorem play_audio_divides_by_zero :
    ∃ turns search, findWavHDR turns
        { file := .make (waveDevice stoppedFrame.encode (by decide)), header := freshMemory } =
          some search ∧
      ¬ ∀ playing, Playing.Reached search.header (.start search) playing →
        playing.Divides search.header → (playing.timing search.header).Exact := by
  have plain : stoppedFrame.Plain := WaveFile.Even.plain (by decide) rfl
  obtain ⟨turns, search, ran, found⟩ := plain.found
    (WaveFile.start_stands (waveDevice_serves stoppedFrame.encode (by decide)) freshMemory)
  refine ⟨turns, search, ran, fun all => ?_⟩
  have rate : search.header.sampleRateEq = 0 := by
    rw [found.sampleRateEq]
    decide
  have some : 0 < search.header.dataSize := by
    rw [found.dataSize]
    decide
  exact (all _ .start (Playing.start_divides found.stands some)).divides rate

end AC97Kernel
