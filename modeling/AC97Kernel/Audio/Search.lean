/-
The search for the header of a WAVE file.

A `WaveFile` is a file of chunks.  The search steps over a chunk by its length,
without the padding, and takes the bytes behind the first 16 of the format for
the tag of the next chunk, as if the format always had 16 bytes.
-/

import AC97Kernel.Audio.Header

set_option autoImplicit false

namespace AC97Kernel

open Loops Slices LittleEndian Riff

def riffTag : List UInt8 := [0x52, 0x49, 0x46, 0x46]

/-- `rest` is what follows the body of the data, its padding included. -/
structure WaveFile where
  riffSize : Nat
  before : List Chunk
  format : Chunk
  between : List Chunk
  data : Chunk
  rest : List UInt8
  formatIs : format.tag = fmtTag
  formatBody : 16 ≤ format.body.length
  dataIs : data.tag = dataTag
  others : ∀ chunk ∈ before ++ between, chunk.tag ≠ fmtTag ∧ chunk.tag ≠ dataTag

namespace WaveFile

def riffHeader (wave : WaveFile) : List UInt8 :=
  riffTag ++ LittleEndian.encode 4 wave.riffSize ++ waveTag

def encode (wave : WaveFile) : List UInt8 :=
  wave.riffHeader ++ (encodeAll wave.before ++ (wave.format.encode ++
    (encodeAll wave.between ++ (wave.data.unpadded ++ wave.rest))))

def formatAt (wave : WaveFile) : Nat := 12 + (encodeAll wave.before).length

def betweenAt (wave : WaveFile) : Nat := wave.formatAt + wave.format.encode.length

def dataAt (wave : WaveFile) : Nat := wave.betweenAt + (encodeAll wave.between).length

/-- The first byte of the body of the data. -/
def dataStart (wave : WaveFile) : Nat := wave.dataAt + 8

/-- What the search takes for the tag of the chunk behind the format: the four
bytes at offset 16 of the body of the format, or what follows a body of 16. -/
def spelled (wave : WaveFile) : List UInt8 := slice wave.encode (wave.formatAt + 24) 4

/-- The chunks before the data are of even length. -/
def Even (wave : WaveFile) : Prop :=
  ∀ chunk ∈ wave.before ++ wave.format :: wave.between, chunk.body.length % 2 = 0

instance (wave : WaveFile) : Decidable wave.Even :=
  inferInstanceAs (Decidable (∀ chunk ∈ wave.before ++ wave.format :: wave.between,
    chunk.body.length % 2 = 0))

/-- The search visits the chunks of the file up to the data. -/
structure Plain (wave : WaveFile) : Prop where
  even : wave.Even
  spells : wave.spelled = dataTag ↔ wave.between = []

/-- The search has come to an end with the fields of the file. -/
structure Parsed (wave : WaveFile) (result : WavSearch) : Prop where
  numChannels : result.header.numChannels = decode (slice wave.format.body 2 2)
  sampleRate : result.header.sampleRate = decode (slice wave.format.body 4 4)
  sampleRateEq : result.header.sampleRateEq = decode (slice wave.format.body 8 4)
  bitsPerSample : result.header.bitsPerSample = decode (slice wave.format.body 14 2)
  dataSize : result.header.dataSize = wave.data.body.length
  offset : result.file.myOffset = wave.dataStart

/-- The search comes to an end with these fields, called at the start of the file. -/
def Parses (wave : WaveFile) (node : BlockIO) (memory : WAVHeader) : Prop :=
  ∃ turns result, findWavHDR turns { file := .make node, header := memory } = some result ∧
    wave.Parsed result

/-- Also the data and the chunks behind it are of even length, there is no other
data, and the file is smaller than 2 GB. -/
structure Tidy (wave : WaveFile) (after : List Chunk) : Prop where
  restIs : wave.rest = encodeAll after
  data : wave.data.body.length % 2 = 0
  even : ∀ chunk ∈ after, chunk.body.length % 2 = 0
  other : ∀ chunk ∈ after, chunk.tag ≠ dataTag
  small : wave.encode.length < 2 ^ 31

variable {wave : WaveFile}

/-- Where the pieces of the file stand. -/
structure Laid (wave : WaveFile) : Prop where
  header : OccursAt wave.encode 0 wave.riffHeader
  before : OccursAt wave.encode 12 (encodeAll wave.before)
  format : OccursAt wave.encode wave.formatAt wave.format.encode
  between : OccursAt wave.encode wave.betweenAt (encodeAll wave.between)
  data : OccursAt wave.encode wave.dataAt wave.data.unpadded
  rest : OccursAt wave.encode (wave.dataAt + 8 + wave.data.body.length) wave.rest
  length : wave.dataAt + 8 + wave.data.body.length + wave.rest.length = wave.encode.length

theorem length_riffHeader : wave.riffHeader.length = 12 := by
  simp [riffHeader, riffTag, waveTag]

theorem laid (wave : WaveFile) : wave.Laid := by
  have whole := OccursAt.whole wave.encode
  have parts : OccursAt wave.encode 0 (wave.riffHeader ++ (encodeAll wave.before ++
    (wave.format.encode ++ (encodeAll wave.between ++ (wave.data.unpadded ++ wave.rest))))) := whole
  rw [occursAt_append, occursAt_append, occursAt_append, occursAt_append, occursAt_append,
    Nat.zero_add, length_riffHeader] at parts
  obtain ⟨header, before, format, between, data, rest⟩ := parts
  rw [length_unpadded, ← Nat.add_assoc] at rest
  refine ⟨header, before, format, between, data, rest, ?_⟩
  simp only [encode, dataAt, betweenAt, formatAt, List.length_append, length_riffHeader,
    length_unpadded]
  omega

theorem magic_at (wave : WaveFile) : slice wave.encode 8 4 = waveTag := by
  have header := wave.laid.header
  rw [riffHeader, occursAt_append] at header
  have magic := header.2
  have place : 0 + (riffTag ++ LittleEndian.encode 4 wave.riffSize).length = 8 := by
    simp [riffTag]
  rw [place] at magic
  exact magic

/-- The walk from the first chunk meets the format. -/
theorem Even.meets_format (even : wave.Even) : Meets wave.encode fmtTag 12 wave.formatAt := by
  have format := chunk_at (occursAt_append.mp wave.laid.format).1
  apply Meets.skip (fun chunk member => even chunk (List.mem_append_left _ member))
    (fun chunk member => (wave.others chunk (List.mem_append_left _ member)).1) wave.laid.before
  apply Meets.here
  · have inside := format.2.2.2
    have place : wave.formatAt = 12 + (encodeAll wave.before).length := rfl
    omega
  · exact format.1.trans wave.formatIs

/-- Where the format ends, in a file of even chunks. -/
theorem Even.format_end (even : wave.Even) :
    lengthAt wave.encode wave.formatAt = wave.format.body.length ∧
      wave.formatAt + 8 + wave.format.body.length = wave.betweenAt := by
  have format := chunk_at (occursAt_append.mp wave.laid.format).1
  have size := length_encode_even (even wave.format
    (List.mem_append_right _ List.mem_cons_self))
  refine ⟨format.2.1, ?_⟩
  unfold betweenAt
  omega

theorem data_inside (wave : WaveFile) :
    wave.betweenAt ≤ wave.dataAt ∧
      wave.dataAt + 8 + wave.data.body.length ≤ wave.encode.length := by
  have length := wave.laid.length
  unfold dataAt at length ⊢
  omega

/-- The first half of the search reads the format and enters the chunk behind it
by the bytes that stand for its tag. -/
theorem Even.reads_format (even : wave.Even) {search : WavSearch}
    (stands : search.Stands wave.encode 0) :
    ∃ turns middle, findFormat turns search = some middle ∧
      FormatRead wave.encode 0 wave.formatAt search.header middle ∧
      middle.Stands wave.encode (wave.betweenAt + 4) ∧
      middle.header.window 36 4 = wave.spelled := by
  obtain ⟨lengthIs, place⟩ := even.format_end
  have inside := wave.data_inside
  have room := wave.formatBody
  obtain ⟨turns, middle, found, read⟩ := findFormat_reads stands even.meets_format (by omega)
  have middleAt := read.stands
  have shows := read.body 16 4 (by omega)
  rw [lengthIs, place] at middleAt
  exact ⟨turns, middle, found, read, middleAt, shows⟩

/-- The bytes that stand for the tag lead to the data. -/
theorem Plain.enters (plain : wave.Plain) :
    Enters wave.encode dataTag wave.spelled wave.betweenAt wave.dataAt := by
  cases chunks : wave.between with
  | nil =>
      have place : wave.dataAt = wave.betweenAt := by
        unfold dataAt
        rw [chunks]
        rfl
      exact Or.inl ⟨plain.spells.mpr chunks, place⟩
  | cons chunk rest =>
      have different : wave.spelled ≠ dataTag := by
        intro same
        rw [plain.spells.mp same] at chunks
        cases chunks
      have member (other : Chunk) (among : other ∈ chunk :: rest) :
          other ∈ wave.before ++ wave.format :: wave.between :=
        List.mem_append_right _ (List.mem_cons_of_mem _ (chunks ▸ among))
      have between := wave.laid.between
      rw [chunks, encodeAll, List.flatMap_cons, occursAt_append] at between
      obtain ⟨_, lengthIs, _⟩ := chunk_at (occursAt_append.mp between.1).1
      have size := length_encode_even (plain.even chunk (member chunk List.mem_cons_self))
      have data := chunk_at wave.laid.data
      have place : wave.dataAt =
          wave.betweenAt + 8 + lengthAt wave.encode wave.betweenAt + (encodeAll rest).length := by
        unfold dataAt
        rw [chunks, encodeAll, List.flatMap_cons, List.length_append, size, lengthIs, encodeAll]
        omega
      refine Or.inr ⟨different, ?_⟩
      apply Meets.skip (fun other among => plain.even other (member other
          (List.mem_cons_of_mem _ among)))
        (fun other among => (wave.others other (List.mem_append_right _
          (chunks ▸ List.mem_cons_of_mem _ among))).2)
      · rw [lengthIs, Nat.add_assoc, ← size]
        exact between.2
      · rw [← place]
        exact Meets.here (by omega) (data.1.trans wave.dataIs)

/-- With a format of 16 bytes the bytes behind it are the next tag. -/
theorem Even.plain (even : wave.Even) (sixteen : wave.format.body.length = 16) : wave.Plain := by
  obtain ⟨_, place⟩ := even.format_end
  have next : wave.formatAt + 24 = wave.betweenAt := by omega
  refine ⟨even, ?_⟩
  unfold spelled
  rw [next]
  cases chunks : wave.between with
  | nil =>
      have data := chunk_at wave.laid.data
      have dataNext : wave.dataAt = wave.betweenAt := by
        unfold dataAt
        rw [chunks]
        rfl
      rw [← dataNext]
      simp only [iff_true]
      exact data.1.trans wave.dataIs
  | cons chunk rest =>
      have between := wave.laid.between
      rw [chunks, encodeAll, List.flatMap_cons, occursAt_append] at between
      have first := chunk_at (occursAt_append.mp between.1).1
      have other := (wave.others chunk
        (List.mem_append_right _ (chunks ▸ List.mem_cons_self))).2
      simp only [reduceCtorEq, iff_false]
      intro same
      exact other (first.1.symm.trans same)

/-- What the search has at its end, apart from the fields: a file that stands at
the data, and the magic. -/
structure Found (wave : WaveFile) (result : WavSearch) : Prop extends wave.Parsed result where
  stands : result.Stands wave.encode wave.dataStart
  magic : result.header.magic = waveTag

theorem Plain.found (plain : wave.Plain) {search : WavSearch}
    (stands : search.Stands wave.encode 0) :
    ∃ turns result, findWavHDR turns search = some result ∧ wave.Found result := by
  obtain ⟨_, _, formatBody, _⟩ := chunk_at (occursAt_append.mp wave.laid.format).1
  obtain ⟨_, dataLength, _, _⟩ := chunk_at wave.laid.data
  obtain ⟨lengthIs, _⟩ := plain.even.format_end
  have inside := wave.data_inside
  have room := wave.formatBody
  obtain ⟨first, middle, formatFound, read, middleAt, shows⟩ := plain.even.reads_format stands
  obtain ⟨second, result, dataFound, kept, atData⟩ :=
    findData_ends middleAt (shows.symm ▸ plain.enters)
  obtain ⟨resultAt, size⟩ := atData (by omega)
  -- a field of the format is at the same place of the body and of the header
  have field (inner count : Nat) (within : inner + count ≤ 16) :
      result.header.field (20 + inner) count = decode (slice wave.format.body inner count) := by
    have same : result.header.window (20 + inner) count =
        middle.header.window (20 + inner) count :=
      WAVHeader.window_congr fun index _ before => kept index (by omega)
    have body := congrArg (fun bytes => slice bytes inner count) formatBody
    rw [slice_slice _ (by omega)] at body
    unfold WAVHeader.field
    rw [same, read.body inner count (by omega), body]
  refine ⟨max first second, result, findWavHDR_join formatFound dataFound, ?_⟩
  constructor
  · constructor
    · exact field 2 2 (by decide)
    · exact field 4 4 (by decide)
    · exact field 8 4 (by decide)
    · exact field 14 2 (by decide)
    · rw [size, dataLength]
    · exact resultAt.offset
  · exact resultAt
  · have magic : result.header.magic = middle.header.magic :=
      WAVHeader.window_congr fun index _ before => kept index (by omega)
    rw [magic, read.magic]
    exact wave.magic_at

theorem start_stands {node : BlockIO} {content : List UInt8} (serves : node.Serves content)
    (memory : WAVHeader) :
    WavSearch.Stands { file := .make node, header := memory } content 0 :=
  ⟨serves, rfl, Nat.zero_le _⟩

theorem Plain.parses (plain : wave.Plain) {node : BlockIO} (serves : node.Serves wave.encode)
    (memory : WAVHeader) : wave.Parses node memory := by
  obtain ⟨turns, result, ran, found⟩ := plain.found (start_stands serves memory)
  exact ⟨turns, result, ran, found.toParsed⟩

/-- A tidy file is parsed only if the bytes that stand for the tag lead to the data. -/
theorem Tidy.spells {after : List Chunk} (tidy : wave.Tidy after) (even : wave.Even)
    {node : BlockIO} (serves : node.Serves wave.encode) {memory : WAVHeader}
    (parses : wave.Parses node memory) : wave.spelled = dataTag ↔ wave.between = [] := by
  obtain ⟨turns, result, ran, parsed⟩ := parses
  have inside := wave.data_inside
  obtain ⟨first, middle, formatFound, _, middleAt, shows⟩ :=
    even.reads_format (start_stands serves memory)
  obtain ⟨second, dataFound⟩ := findWavHDR_split formatFound ran
  constructor
  · intro same
    have enters : Enters wave.encode dataTag (middle.header.window 36 4) wave.betweenAt
        wave.betweenAt := Or.inl ⟨shows.trans same, rfl⟩
    obtain ⟨third, other, otherFound, _, atData⟩ := findData_ends middleAt enters
    have equal := findData_unique dataFound otherFound
    have offset := parsed.offset
    rw [equal, (atData (by omega)).1.offset] at offset
    cases chunks : wave.between with
    | nil => rfl
    | cons chunk rest =>
        unfold dataStart dataAt at offset
        rw [chunks, encodeAll, List.flatMap_cons, List.length_append, Chunk.encode,
          List.length_append, length_unpadded] at offset
        omega
  · intro none
    by_contra different
    obtain ⟨_, dataLength, _, _⟩ := chunk_at wave.laid.data
    have place : wave.betweenAt = wave.dataAt := by
      unfold dataAt
      rw [none]
      rfl
    have rest := wave.laid.rest
    have length := wave.laid.length
    rw [tidy.restIs] at rest length
    rw [place] at middleAt
    have leaves := Leaves.past tidy.even tidy.other rest length
    rw [← dataLength] at leaves
    have lost := WavSearch.Lost.inside middleAt (by omega) (shows.symm ▸ different) leaves
    rw [findData_lost lost tidy.small] at dataFound
    cases dataFound

end WaveFile

/-! ### Two files -/

/-- One stereo frame of 16 bits at 44100 Hz, with a format body that goes on with
`extension`. -/
def oneFrame (extension : List UInt8) (short : extension.length < 2 ^ 16) : WaveFile :=
  { riffSize := 40 + extension.length
    before := []
    format :=
      { tag := fmtTag
        body := [1, 0, 2, 0, 0x44, 0xAC, 0, 0, 0x10, 0xB1, 2, 0, 4, 0, 16, 0] ++ extension
        pad := 0
        tagLength := rfl
        short := by
          simp only [List.length_append, List.length_cons, List.length_nil]
          omega }
    between := []
    data := { tag := dataTag, body := [1, 2, 3, 4], pad := 0, tagLength := rfl, short := by decide }
    rest := []
    formatIs := rfl
    formatBody := by
      simp only [List.length_append, List.length_cons, List.length_nil]
      omega
    dataIs := rfl
    others := by
      intro chunk member
      cases member }

def plainFrame : WaveFile := oneFrame [] (by decide)

/-- The format has the field for the size of an extension, which is empty. -/
def extendedFrame : WaveFile := oneFrame [0, 0] (by decide)

def waveDevice (content : List UInt8) (sizeWord : content.length < 2 ^ 32) : BlockIO :=
  .ofBytes 512 content BlockIO.sector_positive BlockIO.sector_short sizeWord

theorem waveDevice_serves (content : List UInt8) (sizeWord : content.length < 2 ^ 32) :
    (waveDevice content sizeWord).Serves content :=
  BlockIO.ofBytes_serves _ _ _

def freshMemory : WAVHeader := { byte := fun _ => 0 }

end AC97Kernel
