/-
The lengths in the buffer descriptors.

A full buffer has a fixed length.  That of the last one comes from a count of samples
which starts from the rate of the file, while the bytes that are loaded into it are what
is left of the data.  Modulo 2^16 the count goes up by one with every full buffer.
-/

import AC97Kernel.Audio.Stream

set_option autoImplicit false

namespace AC97Kernel

open Loops Slices LittleEndian

/-- Every descriptor up to the last valid one has the length of what was loaded for it,
and something was. -/
def Filled.Matches (filled : Filled) : Prop :=
  ∀ index ≤ filled.lastValid, ∃ load ∈ filled.loads, load.index = index ∧
    0 < load.bytes.length ∧ load.length + 1 = load.bytes.length / 2

namespace Playing

/-- play_audio in front of its loop. -/
def start (search : WavSearch) : Playing :=
  { file := search.file
    dataSize := search.header.dataSize
    totalSamples := search.header.sampleRate * (search.header.bitsPerSample / 8) % 2 ^ 32 / 2
    batches := []
    result := none }

@[simp] theorem start_dataSize (search : WavSearch) :
    (start search).dataSize = search.header.dataSize := rfl

/-- The call of `fillBuffers` in a turn of the loop. -/
def fill (header : WAVHeader) (playing : Playing) : Option Filled :=
  fillBuffers playing.file header.sampleRate (playing.dataSize < 32 * bufferSize) playing.dataSize
    playing.totalSamples

/-- What `fillBuffers` gives the device in the next turns, also in one that ends with a
division by zero. -/
def programmed (header : WAVHeader) : Nat → Playing → List Filled
  | 0, _ => []
  | turns + 1, playing =>
      if playing.goesOn then
        match playing.fill header with
        | none => []
        | some filled =>
            filled ::
              match playing.turn header with
              | none => []
              | some next => programmed header turns next
      else []

end Playing

/-! ### The loop of fillBuffers -/

variable {content : List UInt8} {position dataSize totalSamples buffers : Nat}
  {filling : Filling}

namespace Filling

theorem load_samples {next : Filling} {index length count : Nat}
    (loaded : filling.load index length count = some next) :
    next.totalSamples = filling.totalSamples := by
  unfold load at loaded
  simp only at loaded
  split at loaded
  · cases loaded
    rfl
  · cases loaded

/-- After some of the full buffers, with the count of samples and the lengths. -/
structure Counted (content : List UInt8) (position dataSize totalSamples buffers : Nat)
    (filling : Filling) : Prop extends Full content position dataSize buffers filling where
  samples : filling.totalSamples % 2 ^ 16 = (totalSamples + buffers) % 2 ^ 16
  whole : ∀ load ∈ filling.loads, load.length = 0xFFFE ∧ load.bytes.length = bufferSize

theorem Counted.turn (counted : Counted content position dataSize totalSamples buffers filling)
    (word : dataSize < 2 ^ 32) (more : (buffers + 1) * bufferSize ≤ dataSize)
    (enough : position + dataSize ≤ content.length) :
    ∃ next, Filling.turn buffers filling = some next ∧
      Counted content position dataSize totalSamples (buffers + 1) next := by
  have sum : (buffers + 1) * bufferSize = buffers * bufferSize + bufferSize :=
    Nat.succ_mul buffers bufferSize
  obtain ⟨next, loaded, _, nextLoads, _⟩ :=
    load_stands counted.stands buffers 0xFFFE bufferSize (by omega)
  obtain ⟨after, ran, full⟩ := counted.toFull.turn word more enough
  have same := load_samples loaded
  have samples := counted.samples
  refine ⟨after, ran, full, ?_, ?_⟩
  · rw [Filling.turn, loaded, Option.map_some] at ran
    cases ran
    simp only [same]
    omega
  · rw [Filling.turn, loaded, Option.map_some] at ran
    cases ran
    simp only [nextLoads]
    intro load member
    rcases List.mem_append.1 member with early | last
    · exact counted.whole load early
    · have inside : bufferSize ≤ content.length - (position + buffers * bufferSize) := by omega
      rw [List.mem_singleton.1 last, length_slice]
      exact ⟨rfl, Nat.min_eq_left inside⟩

theorem counted_loop {file : OpenFileStruct} (stands : file.Stands content position)
    (word : dataSize < 2 ^ 32) (enough : position + dataSize ≤ content.length) (totalSamples : Nat)
    (some : buffers * bufferSize ≤ dataSize) :
    ∃ filling, forRange Filling.turn 0 buffers
        { file := file, dataSize := dataSize, totalSamples := totalSamples, loads := [] } =
          .some filling ∧
      Counted content position dataSize totalSamples buffers filling := by
  have begins : Counted content position dataSize totalSamples 0
      { file := file, dataSize := dataSize, totalSamples := totalSamples, loads := [] } := by
    refine ⟨⟨?_, ?_, rfl, ?_⟩, rfl, ?_⟩
    · rw [Nat.zero_mul]
      exact stands
    · rw [Nat.zero_mul]
      exact Carries.none
    · rw [Nat.zero_mul, Nat.sub_zero]
    · intro load impossible
      cases impossible
  have ran := forRange_succeeds Filling.turn 0 buffers _
    (Counted content position dataSize totalSamples)
    (by
      intro index before _ upper counted
      have most : (index + 1) * bufferSize ≤ buffers * bufferSize :=
        Nat.mul_le_mul_right _ (by omega)
      exact counted.turn word (by omega) enough)
    begins
  rw [Nat.zero_add] at ran
  exact ran

end Filling

/-! ### One batch -/

variable {file : OpenFileStruct}

/-- A batch that is not the last fills all buffers. -/
theorem fillBuffers_whole (stands : file.Stands content position) (word : dataSize < 2 ^ 32)
    (enough : position + dataSize ≤ content.length) (more : 32 * bufferSize ≤ dataSize)
    (sampleRate totalSamples : Nat) :
    ∃ filled, fillBuffers file sampleRate false dataSize totalSamples = some filled ∧
      filled.file.Stands content (position + 32 * bufferSize) ∧ filled.Matches := by
  obtain ⟨filling, ran, counted⟩ :=
    Filling.counted_loop stands word enough totalSamples more
  refine ⟨filling.filled sampleRate 32 false, ?_, counted.stands, ?_⟩
  · unfold fillBuffers
    simp only [Bool.false_eq_true, if_false]
    rw [ran, Option.bind_some]
    rfl
  · intro index upTo
    have valid : (filling.filled sampleRate 32 false).lastValid = 31 := by
      simp [Filling.filled]
    have listed : index ∈ filling.loads.map BufferLoad.index := by
      rw [counted.carries.order, counted.count, List.mem_range]
      omega
    obtain ⟨load, member, at_⟩ := List.mem_map.1 listed
    obtain ⟨length, bytes⟩ := counted.whole load member
    exact ⟨load, member, at_, by rw [bytes]; decide, by rw [length, bytes]; decide⟩

/-- The length of the last descriptor against what is loaded for it. -/
private theorem last_length {samples rest size : Nat} (counted : samples % 2 ^ 16 = size % 2 ^ 16)
    (even : rest % 2 = 0) (part : rest < bufferSize) :
    0 < rest ∧ (samples + 2 ^ 32 - 1) % 2 ^ 16 + 1 = rest / 2 ↔
      rest ≠ 0 ∧ size % 2 ^ 16 = rest / 2 := by
  unfold bufferSize at part
  omega

/-- The last batch: full buffers as before, and one more for the rest of the data. -/
theorem fillBuffers_rest (stands : file.Stands content position) (word : dataSize < 2 ^ 32)
    (enough : position + dataSize ≤ content.length) (short : dataSize < 32 * bufferSize)
    (even : dataSize % 2 = 0) (sampleRate totalSamples : Nat) :
    ∃ filled, fillBuffers file sampleRate true dataSize totalSamples = some filled ∧
      (filled.Matches ↔ dataSize % bufferSize ≠ 0 ∧
        (totalSamples + dataSize / bufferSize) % 2 ^ 16 = dataSize % bufferSize / 2) := by
  have rest := Nat.div_add_mod dataSize bufferSize
  have part := Nat.mod_lt dataSize (by decide : 0 < bufferSize)
  rw [Nat.mul_comm] at rest
  have few : dataSize / bufferSize < 32 := Nat.div_lt_of_lt_mul (by
    rw [Nat.mul_comm]
    exact short)
  obtain ⟨filling, ran, counted⟩ :=
    Filling.counted_loop stands word enough totalSamples (Nat.div_mul_le_self dataSize bufferSize)
  have left : filling.dataSize = dataSize % bufferSize := by
    have left := counted.left
    omega
  obtain ⟨final, loaded, _, finalLoads, _⟩ :=
    Filling.load_stands counted.stands (dataSize / bufferSize)
      ((filling.totalSamples + 2 ^ 32 - 1) % 2 ^ 16) filling.dataSize (by omega)
  have evenRest : dataSize % bufferSize % 2 = 0 := by
    rw [Nat.mod_mod_of_dvd _ (by decide)]
    exact even
  have exact := last_length counted.samples evenRest part
  refine ⟨final.filled sampleRate (dataSize / bufferSize) true, ?_, ?_⟩
  · unfold fillBuffers
    simp only [if_true]
    rw [ran, Option.bind_some, loaded]
    rfl
  have valid : (final.filled sampleRate (dataSize / bufferSize) true).lastValid =
      dataSize / bufferSize := by
    change (dataSize / bufferSize % 2 ^ 8 + 0) % 2 ^ 8 = dataSize / bufferSize
    rw [Nat.add_zero, Nat.mod_mod, Nat.mod_eq_of_lt (Nat.lt_trans few (by decide))]
  have bytes : (slice content (position + dataSize / bufferSize * bufferSize)
      filling.dataSize).length = dataSize % bufferSize := by
    rw [length_slice, left]
    omega
  rw [← exact, Filled.Matches, valid]
  change (∀ index ≤ _, ∃ load ∈ final.loads, _) ↔ _
  rw [finalLoads]
  constructor
  · intro agree
    obtain ⟨load, member, at_, some, length⟩ := agree _ (Nat.le_refl _)
    rcases List.mem_append.1 member with early | last
    · have before := counted.carries.index_lt early
      rw [counted.count, at_] at before
      exact absurd before (Nat.lt_irrefl _)
    · rw [List.mem_singleton.1 last, bytes] at some length
      exact ⟨some, length⟩
  · rintro ⟨some, length⟩ index upTo
    rcases Nat.eq_or_lt_of_le upTo with rfl | before
    · exact ⟨_, List.mem_append_right _ (List.mem_singleton_self _), rfl, by rw [bytes]; exact some,
        by rw [bytes]; exact length⟩
    · have listed : index ∈ filling.loads.map BufferLoad.index := by
        rw [counted.carries.order, counted.count, List.mem_range]
        exact before
      obtain ⟨load, member, at_⟩ := List.mem_map.1 listed
      obtain ⟨full, whole⟩ := counted.whole load member
      exact ⟨load, List.mem_append_left _ member, at_, by rw [whole]; decide,
        by rw [full, whole]; decide⟩

/-! ### The loop over the batches -/

/-- When the descriptors have the right lengths: the data comes out even with the batches,
the loop dies behind a full batch, or the last buffer gets some of the data and as much
as the count of samples leaves for it. -/
def LengthsAgree (sampleRateEq samples dataSize : Nat) : Prop :=
  dataSize % (32 * bufferSize) = 0 ∨ (sampleRateEq = 0 ∧ 32 * bufferSize ≤ dataSize) ∨
    (dataSize % bufferSize ≠ 0 ∧
      (samples + dataSize / bufferSize) % 2 ^ 16 = dataSize % bufferSize / 2)

namespace Playing

variable {header : WAVHeader} {playing : Playing} {filled : Filled}

/-- The lengths are right in all that is programmed from here on. -/
def AllMatch (header : WAVHeader) (playing : Playing) : Prop :=
  ∀ turns, ∀ filled ∈ programmed header turns playing, filled.Matches

theorem allMatch_stopped (stopped : playing.goesOn = false) : AllMatch header playing := by
  intro turns filled member
  cases turns with
  | zero => cases member
  | succ turns =>
      rw [programmed, if_neg (by rw [stopped]; decide)] at member
      cases member

theorem allMatch_turn (goesOn : playing.goesOn = true) (fills : playing.fill header = some filled) :
    AllMatch header playing ↔
      filled.Matches ∧ ∀ next, playing.turn header = some next → AllMatch header next := by
  have unfolded (turns : Nat) : programmed header (turns + 1) playing =
      filled :: match playing.turn header with
        | none => []
        | some next => programmed header turns next := by
    rw [programmed, if_pos goesOn, fills]
  constructor
  · intro all
    constructor
    · exact all 1 filled (by rw [unfolded]; exact List.mem_cons_self)
    · intro next turned turns later member
      apply all (turns + 1) later
      rw [unfolded, turned]
      exact List.mem_cons_of_mem _ member
  · rintro ⟨first, rest⟩ turns later member
    cases turns with
    | zero => cases member
    | succ turns =>
        rw [unfolded] at member
        rcases List.mem_cons.1 member with rfl | behind
        · exact first
        · cases turned : playing.turn header with
          | none =>
              rw [turned] at behind
              cases behind
          | some next =>
              rw [turned] at behind
              exact rest next turned turns later behind

/-- What a turn leaves behind. -/
theorem turn_filled (fills : playing.fill header = some filled) {next : Playing}
    (turned : playing.turn header = some next) (goesOn : playing.result = none) :
    header.sampleRateEq ≠ 0 ∧ next.file = filled.file ∧ next.result = none ∧
      next.dataSize =
        (if playing.dataSize < 32 * bufferSize then 0
        else (playing.dataSize + 2 ^ 32 - 32 * bufferSize) % 2 ^ 32) ∧
      next.totalSamples =
        (if playing.dataSize < 32 * bufferSize then 0
        else (playing.totalSamples + 2 ^ 32 - 0xFFFF * 32) % 2 ^ 32) ∧
      next.batches.map Batch.filled = playing.batches.map Batch.filled ++ [filled] := by
  have unfolded : playing.turn header = (playing.fill header).bind fun filled =>
      if header.sampleRateEq = 0 then none
      else some (playing.played header (decide (playing.dataSize < 32 * bufferSize)) filled) := rfl
  rw [unfolded, fills, Option.bind_some] at turned
  by_cases zero : header.sampleRateEq = 0
  · rw [if_pos zero] at turned
    cases turned
  rw [if_neg zero] at turned
  cases turned
  have size : batchSize (decide (playing.dataSize < 32 * bufferSize)) playing.dataSize ≤
      32 * bufferSize := by
    simp only [batchSize, decide_eq_true_eq]
    split <;> omega
  have bound := Nat.div_le_self
    (batchSize (decide (playing.dataSize < 32 * bufferSize)) playing.dataSize) header.sampleRateEq
  have small : ¬ batchSize (decide (playing.dataSize < 32 * bufferSize)) playing.dataSize /
      header.sampleRateEq = 2 ^ 32 - 1 := by
    unfold bufferSize at *
    omega
  refine ⟨zero, ?_⟩
  simp only [played, if_neg small, decide_eq_true_eq, goesOn, true_and]
  rw [List.map_append, List.map_singleton]

/-- The loop from a state between two batches. -/
theorem allMatch_iff (stands : playing.file.Stands content position)
    (word : playing.dataSize < 2 ^ 32) (enough : position + playing.dataSize ≤ content.length)
    (even : playing.dataSize % 2 = 0) (goesOn : playing.result = none) :
    AllMatch header playing ↔
      LengthsAgree header.sampleRateEq playing.totalSamples playing.dataSize := by
  induction bound : playing.dataSize using Nat.strongRecOn generalizing playing position with
  | ind size ih =>
      subst bound
      rcases Nat.eq_zero_or_pos playing.dataSize with nothing | some
      · refine iff_of_true (allMatch_stopped ?_) (.inl ?_)
        · simp [Playing.goesOn, nothing]
        · rw [nothing, Nat.zero_mod]
      have running : playing.goesOn = true := by simp [Playing.goesOn, goesOn, some]
      by_cases short : playing.dataSize < 32 * bufferSize
      · obtain ⟨filled, ran, exact⟩ := fillBuffers_rest stands word enough short even
          header.sampleRate playing.totalSamples
        have fills : playing.fill header = .some filled := by
          rw [fill, decide_eq_true short, ran]
        have last : ∀ next, playing.turn header = .some next → AllMatch header next := by
          intro next turned
          obtain ⟨_, _, _, size, _, _⟩ := turn_filled fills turned goesOn
          rw [if_pos short] at size
          exact allMatch_stopped (by simp [Playing.goesOn, size])
        have uneven : ¬ playing.dataSize % (32 * bufferSize) = 0 := by
          rw [Nat.mod_eq_of_lt short]
          omega
        have behind : ¬ (header.sampleRateEq = 0 ∧ 32 * bufferSize ≤ playing.dataSize) := by omega
        rw [allMatch_turn running fills, exact, LengthsAgree]
        simp only [uneven, behind, false_or]
        exact and_iff_left last
      · obtain ⟨filled, ran, filledAt, first⟩ := fillBuffers_whole stands word enough (by omega)
          header.sampleRate playing.totalSamples
        have fills : playing.fill header = .some filled := by
          rw [fill, decide_eq_false short, ran]
        rw [allMatch_turn running fills, and_iff_right first]
        by_cases zero : header.sampleRateEq = 0
        · refine iff_of_true ?_ (.inr (.inl ⟨zero, by omega⟩))
          intro next turned
          exact absurd zero (turn_filled fills turned goesOn).1
        · have turns : ∃ next, playing.turn header = .some next := by
            refine ⟨playing.played header (decide (playing.dataSize < 32 * bufferSize)) filled, ?_⟩
            unfold Playing.turn
            simp only
            unfold fill at fills
            rw [fills, Option.bind_some, if_neg zero]
          obtain ⟨next, turned⟩ := turns
          obtain ⟨_, file, result, size, samples, _⟩ := turn_filled fills turned goesOn
          rw [if_neg short] at size samples
          have buffers : bufferSize = 131070 := rfl
          have less : next.dataSize = playing.dataSize - 32 * bufferSize := by omega
          have later := ih next.dataSize (by omega) (file ▸ filledAt) (by omega) (by omega)
            (by omega) result rfl
          have same : LengthsAgree header.sampleRateEq next.totalSamples next.dataSize ↔
              LengthsAgree header.sampleRateEq playing.totalSamples playing.dataSize := by
            unfold LengthsAgree
            simp only [zero, false_and, false_or]
            rw [less, samples]
            unfold bufferSize at *
            omega
          rw [← same, ← later]
          constructor
          · intro all
            exact all next turned
          · intro all other turnedOther
            rw [turned] at turnedOther
            cases turnedOther
            exact all

/-- The batches that the loop has played are what was programmed. -/
theorem loop_programmed {turns : Nat} {final : Playing} (goesOn : playing.result = none)
    (ran : whileLoop Playing.goesOn (Playing.turn header) turns playing = some final) :
    final.batches.map Batch.filled =
      playing.batches.map Batch.filled ++ programmed header turns playing := by
  induction turns generalizing playing with
  | zero => cases ran
  | succ turns ih =>
      rw [whileLoop] at ran
      rw [programmed]
      by_cases running : playing.goesOn = true
      · rw [if_pos running] at ran ⊢
        obtain ⟨next, turned, rest⟩ := Option.bind_eq_some_iff.1 ran
        have unfolded : playing.turn header = (playing.fill header).bind fun filled =>
          if header.sampleRateEq = 0 then none
          else some
            (playing.played header (decide (playing.dataSize < 32 * bufferSize)) filled) := rfl
        cases fills : playing.fill header with
        | none =>
            rw [unfolded, fills] at turned
            cases turned
        | some filled =>
            obtain ⟨_, _, result, _, _, batches⟩ := turn_filled fills turned goesOn
            rw [ih result rest, batches, List.append_assoc]
            simp only [turned, List.singleton_append]
      · rw [if_neg running] at ran ⊢
        cases ran
        rw [List.append_nil]

end Playing

theorem stream_programmed {search : WavSearch} {turns : Nat} {played : Played}
    (ran : stream turns search = some played) :
    played.batches.map Batch.filled =
      Playing.programmed search.header turns (Playing.start search) := by
  obtain ⟨final, looped, rfl⟩ := Option.map_eq_some_iff.1 ran
  exact Playing.loop_programmed rfl looped

/-- When the length fields of all descriptors of a 16-bit file are right: the last buffer
is not empty and its length, which comes from the sample rate, is that of its data, unless
the loop needs no last buffer or does not get to it. -/
theorem descriptors_match {search : WavSearch} (stands : search.Stands content position)
    (enough : position + search.header.dataSize ≤ content.length)
    (sixteen : search.header.bitsPerSample = 16) (even : search.header.dataSize % 2 = 0) :
    Playing.AllMatch search.header (Playing.start search) ↔
      LengthsAgree search.header.sampleRateEq search.header.sampleRate search.header.dataSize := by
  have word : search.header.dataSize < 2 ^ 32 := by
    have small := decode_lt (search.header.window 40 4)
    rw [WAVHeader.length_window] at small
    exact small
  have samples : (Playing.start search).totalSamples =
      search.header.sampleRate * 2 % 2 ^ 32 / 2 := by
    unfold Playing.start
    rw [sixteen]
  have all : Playing.AllMatch search.header (Playing.start search) ↔
      LengthsAgree search.header.sampleRateEq (Playing.start search).totalSamples
        search.header.dataSize := Playing.allMatch_iff stands word enough even rfl
  rw [all, samples]
  unfold LengthsAgree
  have same : (search.header.sampleRate * 2 % 2 ^ 32 / 2 + search.header.dataSize / bufferSize) %
      2 ^ 16 = (search.header.sampleRate + search.header.dataSize / bufferSize) % 2 ^ 16 := by omega
  rw [same]

theorem slow_tagLength : fmtTag.length = 4 := by decide

theorem slow_short :
    ([1, 0, 2, 0, 2, 0, 0, 0, 8, 0, 0, 0, 4, 0, 16, 0] : List UInt8).length < 2 ^ 32 := by decide

/-- Two channels of 16 bits at 2 Hz. -/
def slowFormat : Riff.Chunk where
  tag := fmtTag
  body := [1, 0, 2, 0, 2, 0, 0, 0, 8, 0, 0, 0, 4, 0, 16, 0]
  pad := 0
  tagLength := slow_tagLength
  short := slow_short

theorem slow_tag : slowFormat.tag = fmtTag := by decide

theorem slow_body : 16 ≤ slowFormat.body.length := by decide

/-- One frame at 2 Hz. -/
def slowFrame : WaveFile :=
  { plainFrame with format := slowFormat, formatIs := slow_tag, formatBody := slow_body }

theorem descriptors_match_sample :
    ∃ turns search, findWavHDR turns
        { file := .make (waveDevice slowFrame.encode (by decide)), header := freshMemory } =
          some search ∧ Playing.AllMatch search.header (Playing.start search) := by
  have plain : slowFrame.Plain := WaveFile.Even.plain (by decide) rfl
  obtain ⟨turns, search, ran, found⟩ :=
    plain.found (WaveFile.start_stands (waveDevice_serves slowFrame.encode (by decide)) freshMemory)
  have size := found.dataSize
  refine ⟨turns, search, ran, (descriptors_match found.stands ?_ ?_ ?_).2 ?_⟩
  · rw [size]
    exact slowFrame.data_inside.2
  · rw [found.bitsPerSample]
    decide
  · rw [size]
    decide
  · rw [size, found.sampleRate, found.sampleRateEq]
    exact .inr (.inr ⟨by decide, by decide⟩)

/-- At 44100 Hz the descriptor of the same frame is for 44099 samples more than the
buffer has. -/
theorem descriptors_of_plain_frame :
    ∃ turns search, findWavHDR turns
        { file := .make (waveDevice plainFrame.encode (by decide)), header := freshMemory } =
          some search ∧ search.header.bitsPerSample = 16 ∧ search.header.dataSize = 4 ∧
      ¬ Playing.AllMatch search.header (Playing.start search) := by
  have plain : plainFrame.Plain := WaveFile.Even.plain (by decide) rfl
  obtain ⟨turns, search, ran, found⟩ :=
    plain.found (WaveFile.start_stands (waveDevice_serves plainFrame.encode (by decide)) freshMemory)
  have size := found.dataSize
  have inside := plainFrame.data_inside.2
  rw [← size] at inside
  have frame : search.header.dataSize = 4 := by
    rw [size]
    decide
  have sixteen : search.header.bitsPerSample = 16 := by
    rw [found.bitsPerSample]
    decide
  have rate : search.header.sampleRate = 44100 := by
    rw [found.sampleRate]
    decide
  have samples : (Playing.start search).totalSamples = 44100 := by
    simp only [Playing.start, rate, sixteen]
    decide
  have all : Playing.AllMatch search.header (Playing.start search) ↔
      LengthsAgree search.header.sampleRateEq (Playing.start search).totalSamples
        search.header.dataSize :=
    Playing.allMatch_iff found.stands (by rw [Playing.start_dataSize, frame]; decide) inside
      (by rw [Playing.start_dataSize, frame]) rfl
  refine ⟨turns, search, ran, sixteen, frame, ?_⟩
  rw [all, samples, frame]
  rintro (whole | ⟨_, batch⟩ | ⟨_, length⟩)
  · exact absurd whole (by decide)
  · exact absurd batch (by decide)
  · exact absurd length (by decide)

end AC97Kernel
