/-
What `findWavHDR` does to a file with fixed contents.

Both of its loops are walks from chunk to chunk.  While a walk stays inside the
file, what the loop has read is what stands in the file, so that it ends where
the walk meets the tag.  At the end of the file nothing is read any more, and a
loop that comes there without its tag does not end.
-/

import AC97Kernel.Audio.Model
import AC97Kernel.Library.Riff

set_option autoImplicit false

namespace AC97Kernel

open Loops Slices LittleEndian Riff WavSearch

/-! ### The header as memory -/

namespace WAVHeader

variable {header : WAVHeader} {offset count at' : Nat} {bytes : List UInt8}

@[simp] theorem length_window : (header.window offset count).length = count := by
  simp [window]

theorem store_byte_apart {index : Nat} (apart : index < at' ∨ at' + bytes.length ≤ index) :
    (header.store at' bytes).byte index = header.byte index := by
  unfold store
  by_cases behind : at' ≤ index
  · have beyond : bytes.length ≤ index - at' := by omega
    simp [behind, List.getElem?_eq_none beyond]
  · simp [behind]

theorem store_byte_within (header : WAVHeader) (at' : Nat) {index : Nat}
    (within : index < bytes.length) :
    (header.store at' bytes).byte (at' + index) = bytes[index] := by
  simp [store, within]

@[simp] theorem store_nil : header.store at' [] = header := by
  unfold store
  simp

/-- Storing over two headers that agree on a byte leaves them agreeing on it. -/
theorem store_byte_congr {other : WAVHeader} {index : Nat}
    (same : header.byte index = other.byte index) :
    (header.store at' bytes).byte index = (other.store at' bytes).byte index := by
  simp only [store, same]

/-- A window that the stored bytes cover shows them. -/
theorem window_store {inner : Nat} (inside : inner + count ≤ bytes.length) :
    (header.store at' bytes).window (at' + inner) count = slice bytes inner count := by
  apply List.ext_getElem
  · rw [length_window, length_slice]
    omega
  · intro index before _
    have small : index < count := by simpa using before
    have within : inner + index < bytes.length := by omega
    have shown := store_byte_within header at' within
    simp only [window, List.getElem_map, List.getElem_range, Nat.add_assoc, shown]
    simp [slice]

/-- What a window shows of a stored piece of a file. -/
theorem window_store_slice (at' inner : Nat) {content : List UInt8} {position total : Nat}
    (within : inner + count ≤ total) (inside : position + inner + count ≤ content.length) :
    (header.store at' (slice content position total)).window (at' + inner) count =
      slice content (position + inner) count := by
  rw [window_store (by rw [length_slice]; omega), slice_slice _ within]

theorem window_store_start {content : List UInt8} {position : Nat}
    (inside : position + count ≤ content.length) :
    (header.store at' (slice content position count)).window at' count =
      slice content position count :=
  window_store_slice at' 0 (by omega) inside

/-- A window beside the stored bytes is what it was. -/
theorem window_store_apart (apart : offset + count ≤ at' ∨ at' + bytes.length ≤ offset) :
    (header.store at' bytes).window offset count = header.window offset count := by
  unfold window
  apply List.map_congr_left
  intro index member
  have small := List.mem_range.mp member
  exact store_byte_apart (by omega)

theorem window_congr {other : WAVHeader}
    (same : ∀ index, offset ≤ index → index < offset + count →
      header.byte index = other.byte index) :
    header.window offset count = other.window offset count := by
  unfold window
  apply List.map_congr_left
  intro index member
  have small := List.mem_range.mp member
  exact same _ (by omega) (by omega)

end WAVHeader

namespace WavSearch

variable {search : WavSearch} {content : List UInt8}

/-- The search stands at a position of a file with fixed contents. -/
abbrev Stands (search : WavSearch) (content : List UInt8) (position : Nat) : Prop :=
  search.file.Stands content position

variable {position offset count : Nat}

theorem fetch_stands (stands : search.Stands content position) (offset count : Nat) :
    ∃ next, search.fetch offset count = some next ∧
      next.Stands content (position + min count (content.length - position)) ∧
      next.header = search.header.store offset (slice content position count) := by
  obtain ⟨result, file, reads, reached⟩ := stands.read count
  refine ⟨{ file := file
            header := search.header.store offset (slice content position count) }, ?_, reached, rfl⟩
  unfold fetch
  rw [reads]

/-- A fetch that the file has enough bytes for. -/
theorem fetch_whole (stands : search.Stands content position) (offset count : Nat)
    (enough : position + count ≤ content.length) :
    ∃ next, search.fetch offset count = some next ∧ next.Stands content (position + count) ∧
      next.header = search.header.store offset (slice content position count) := by
  obtain ⟨next, fetched, reached, header⟩ := fetch_stands stands offset count
  rw [Nat.min_eq_left (by omega)] at reached
  exact ⟨next, fetched, reached, header⟩

theorem skip_inside (stands : search.Stands content position) (count : Nat)
    (enough : position + count ≤ content.length) :
    (search.skip count).Stands content (position + count) ∧
      (search.skip count).header = search.header := by
  have word := search.file.node.sizeWord
  have size := stands.serves.size
  have target : (search.file.getOffset + count) % 2 ^ 32 = position + count := by
    unfold OpenFileStruct.getOffset
    rw [stands.offset]
    exact Nat.mod_eq_of_lt (by omega)
  unfold skip
  rw [target, OpenFileStruct.seek_inside (by omega)]
  exact ⟨⟨stands.serves, rfl, enough⟩, rfl⟩

/-- A turn reads the length of its chunk and goes to the end of it; what is left is to read
the next tag. -/
theorem turn_skips (tagOffset : Nat) {chunk : Nat} (stands : search.Stands content (chunk + 4))
    (enough : chunk + 8 + lengthAt content chunk ≤ content.length) :
    ∃ skipped : WavSearch, turn tagOffset search = skipped.fetch tagOffset 4 ∧
      skipped.Stands content (chunk + 8 + lengthAt content chunk) ∧
      skipped.header = search.header.store (tagOffset + 4) (slice content (chunk + 4) 4) ∧
      skipped.header.field (tagOffset + 4) 4 = lengthAt content chunk := by
  obtain ⟨sized, sizeRead, sizedAt, sizedHeader⟩ :=
    fetch_whole stands (tagOffset + 4) 4 (by omega)
  have lengthIs : sized.header.field (tagOffset + 4) 4 = lengthAt content chunk := by
    unfold WAVHeader.field lengthAt
    rw [sizedHeader, WAVHeader.window_store_start (by omega)]
  obtain ⟨skippedAt, sameHeader⟩ := skip_inside sizedAt (lengthAt content chunk) (by omega)
  have place : chunk + 4 + 4 + lengthAt content chunk = chunk + 8 + lengthAt content chunk := by
    omega
  rw [place] at skippedAt
  refine ⟨sized.skip (lengthAt content chunk), ?_, skippedAt, sameHeader.trans sizedHeader, ?_⟩
  · unfold turn
    rw [sizeRead, Option.bind_some, lengthIs]
  · rw [sameHeader, lengthIs]

/-- One turn inside the file goes to the next chunk and reads its tag. -/
theorem turn_inside (tagOffset : Nat) {chunk : Nat} (stands : search.Stands content (chunk + 4))
    (enough : chunk + 8 + lengthAt content chunk + 4 ≤ content.length) :
    ∃ next, turn tagOffset search = some next ∧
      next.Stands content (chunk + 8 + lengthAt content chunk + 4) ∧
      next.header.window tagOffset 4 = tagAt content (chunk + 8 + lengthAt content chunk) ∧
      ∀ index, index < tagOffset ∨ tagOffset + 8 ≤ index →
        next.header.byte index = search.header.byte index := by
  obtain ⟨skipped, turned, skippedAt, skippedHeader, _⟩ := turn_skips tagOffset stands (by omega)
  obtain ⟨next, tagRead, nextAt, nextHeader⟩ :=
    fetch_whole skippedAt tagOffset 4 (by omega)
  refine ⟨next, turned.trans tagRead, nextAt, ?_, ?_⟩
  · rw [nextHeader, WAVHeader.window_store_start (by omega)]
    rfl
  · intro index apart
    rw [nextHeader, skippedHeader, WAVHeader.store_byte_apart, WAVHeader.store_byte_apart]
    · rw [length_slice]
      omega
    · rw [length_slice]
      omega

/-- A loop that stands behind the tag of a chunk ends where the walk from that
chunk meets the wanted tag. -/
theorem loop_meets {tagOffset chunk found : Nat} {tag : List UInt8}
    (meets : Meets content tag chunk found) (stands : search.Stands content (chunk + 4))
    (shows : search.header.window tagOffset 4 = tagAt content chunk) :
    ∃ turns final, whileLoop (misses tagOffset tag) (turn tagOffset) turns search = some final ∧
      final.Stands content (found + 4) ∧ final.header.window tagOffset 4 = tag ∧
      ∀ index, index < tagOffset ∨ tagOffset + 8 ≤ index →
        final.header.byte index = search.header.byte index := by
  induction meets generalizing search with
  | here inside same =>
      have stops : misses tagOffset tag search = false := by
        simp [misses, shows, same]
      exact ⟨1, search, whileLoop_done stops, stands, shows.trans same, fun _ _ => rfl⟩
  | later different rest ih =>
      have ends := rest.ends
      obtain ⟨next, stepped, nextAt, nextShows, kept⟩ :=
        turn_inside tagOffset stands (by omega)
      have goesOn : misses tagOffset tag search = true := by
        simp [misses, shows, different]
      obtain ⟨turns, final, ran, finalAt, finalShows, finalKept⟩ := ih nextAt nextShows
      refine ⟨turns + 1, final, (whileLoop_turn goesOn stepped).trans ran, finalAt, finalShows, ?_⟩
      intro index apart
      rw [finalKept index apart, kept index apart]

/-- A loop that has a tag in the header for the chunk that it stands in ends where
that leads. -/
theorem loop_enters {tagOffset chunk found : Nat} {tag : List UInt8}
    (stands : search.Stands content (chunk + 4))
    (enters : Enters content tag (search.header.window tagOffset 4) chunk found) :
    ∃ turns final, whileLoop (misses tagOffset tag) (turn tagOffset) turns search = some final ∧
      final.Stands content (found + 4) ∧
      ∀ index, index < tagOffset ∨ tagOffset + 8 ≤ index →
        final.header.byte index = search.header.byte index := by
  rcases enters with ⟨same, place⟩ | ⟨different, meets⟩
  · have stops : misses tagOffset tag search = false := by
      simp [misses, same]
    rw [place]
    exact ⟨1, search, whileLoop_done stops, stands, fun _ _ => rfl⟩
  · have ends := meets.ends
    obtain ⟨next, stepped, nextAt, nextShows, kept⟩ :=
      turn_inside tagOffset stands (by omega)
    have goesOn : misses tagOffset tag search = true := by
      simp [misses, different]
    obtain ⟨turns, final, ran, finalAt, _, finalKept⟩ := loop_meets meets nextAt nextShows
    refine ⟨turns + 1, final, (whileLoop_turn goesOn stepped).trans ran, finalAt, ?_⟩
    intro index apart
    rw [finalKept index apart, kept index apart]

/-- At the end of the file a turn changes nothing, unless the stale length wraps. -/
theorem turn_at_end {tagOffset : Nat} (stands : search.Stands content content.length)
    (noWrap : content.length + search.header.field (tagOffset + 4) 4 < 2 ^ 32) {next : WavSearch}
    (stepped : turn tagOffset search = some next) :
    next.Stands content content.length ∧ next.header = search.header := by
  have nothing : slice content content.length 4 = [] := slice_beyond (Nat.le_refl _) 4
  obtain ⟨sized, sizeRead, sizedAt, sizedHeader⟩ := fetch_stands stands (tagOffset + 4) 4
  rw [nothing, WAVHeader.store_nil] at sizedHeader
  rw [Nat.sub_self, Nat.min_zero, Nat.add_zero] at sizedAt
  rw [turn, sizeRead, Option.bind_some, sizedHeader] at stepped
  have skipped : (sized.skip (search.header.field (tagOffset + 4) 4)).Stands content
      content.length := by
    have size := sizedAt.serves.size
    have target : (sized.file.getOffset + search.header.field (tagOffset + 4) 4) % 2 ^ 32 =
        content.length + search.header.field (tagOffset + 4) 4 := by
      unfold OpenFileStruct.getOffset
      rw [sizedAt.offset]
      exact Nat.mod_eq_of_lt noWrap
    have sameNode := sized.file.seek_node
      (content.length + search.header.field (tagOffset + 4) 4)
    unfold skip
    rw [target]
    refine ⟨?_, ?_, Nat.le_refl _⟩
    · simp only [sameNode]
      exact sizedAt.serves
    · simp only [OpenFileStruct.seek]
      split
      · exact sizedAt.offset
      · simp only
        omega
  obtain ⟨last, tagRead, lastAt, lastHeader⟩ := fetch_stands skipped tagOffset 4
  rw [nothing, WAVHeader.store_nil] at lastHeader
  rw [Nat.sub_self, Nat.min_zero, Nat.add_zero] at lastAt
  rw [tagRead] at stepped
  cases stepped
  exact ⟨lastAt, lastHeader.trans sizedHeader⟩

/-- A turn that leads to the end of the file reads no other tag. -/
theorem turn_to_end {tagOffset chunk : Nat} (stands : search.Stands content (chunk + 4))
    (last : chunk + 8 + lengthAt content chunk = content.length) {next : WavSearch}
    (stepped : turn tagOffset search = some next) :
    next.Stands content content.length ∧
      next.header.window tagOffset 4 = search.header.window tagOffset 4 ∧
      next.header.field (tagOffset + 4) 4 = lengthAt content chunk := by
  have nothing : slice content content.length 4 = [] := slice_beyond (Nat.le_refl _) 4
  obtain ⟨skipped, turned, skippedAt, skippedHeader, lengthIs⟩ :=
    turn_skips tagOffset stands (by omega)
  rw [last] at skippedAt
  obtain ⟨read, tagRead, readAt, readHeader⟩ := fetch_stands skippedAt tagOffset 4
  rw [nothing, WAVHeader.store_nil] at readHeader
  rw [Nat.sub_self, Nat.min_zero, Nat.add_zero] at readAt
  rw [turned, tagRead] at stepped
  cases stepped
  refine ⟨readAt, ?_, ?_⟩
  · rw [readHeader, skippedHeader, WAVHeader.window_store_apart (by omega)]
  · rw [readHeader, lengthIs]

/-- The loop has not found its tag and the walk that it is on leaves the file. -/
inductive Lost (content tag : List UInt8) (tagOffset : Nat) (search : WavSearch) : Prop where
  | inside {chunk : Nat} : search.Stands content (chunk + 4) → chunk + 8 ≤ content.length →
      search.header.window tagOffset 4 ≠ tag →
      Leaves content tag (chunk + 8 + lengthAt content chunk) → Lost content tag tagOffset search
  | atEnd : search.Stands content content.length → search.header.window tagOffset 4 ≠ tag →
      content.length + search.header.field (tagOffset + 4) 4 < 2 ^ 32 →
      Lost content tag tagOffset search

theorem Lost.turn {tagOffset : Nat} {tag : List UInt8} (lost : Lost content tag tagOffset search)
    (small : content.length < 2 ^ 31) {next : WavSearch}
    (stepped : WavSearch.turn tagOffset search = some next) : Lost content tag tagOffset next := by
  cases lost with
  | atEnd stands missing noWrap =>
      obtain ⟨nextAt, kept⟩ := turn_at_end stands noWrap stepped
      rw [← kept] at missing noWrap
      exact Lost.atEnd nextAt missing noWrap
  | @inside chunk stands inside missing leaves =>
      cases leaves with
      | last atEnd =>
          obtain ⟨nextAt, window, field⟩ := turn_to_end stands atEnd stepped
          exact Lost.atEnd nextAt (window ▸ missing) (by rw [field]; omega)
      | later room different rest =>
          obtain ⟨after, ran, afterAt, shows, _⟩ :=
            turn_inside tagOffset stands (by omega)
          rw [ran] at stepped
          cases stepped
          exact Lost.inside afterAt room (shows ▸ different) rest

/-- A loop that is lost does not end. -/
theorem Lost.never {tagOffset : Nat} {tag : List UInt8} (lost : Lost content tag tagOffset search)
    (small : content.length < 2 ^ 31) (turns : Nat) :
    whileLoop (misses tagOffset tag) (WavSearch.turn tagOffset) turns search = none := by
  apply whileLoop_never (Lost content tag tagOffset)
  · intro before lost
    constructor
    · cases lost with
      | inside _ _ missing _ => simp [misses, missing]
      | atEnd _ missing _ => simp [misses, missing]
    · intro after stepped
      exact lost.turn small stepped
  · exact lost

end WavSearch

/-! ### The two halves of the search -/

section Halves

variable {search result : WavSearch} {content : List UInt8} {start fmtAt dataAt turns more : Nat}

theorem findFormat_more (found : findFormat turns search = some result) (enough : turns ≤ more) :
    findFormat more search = some result := by
  obtain ⟨read, fetched, rest⟩ := Option.bind_eq_some_iff.mp found
  obtain ⟨met, ran, rest⟩ := Option.bind_eq_some_iff.mp rest
  rw [findFormat, fetched, Option.bind_some, whileLoop_more ran enough]
  exact rest

theorem findData_more (found : findData turns search = some result) (enough : turns ≤ more) :
    findData more search = some result := by
  obtain ⟨met, ran, rest⟩ := Option.bind_eq_some_iff.mp found
  rw [findData, whileLoop_more ran enough]
  exact rest

theorem findData_unique {other : WavSearch} (found : findData turns search = some result)
    (also : findData more search = some other) : result = other := by
  have left := findData_more found (Nat.le_max_left turns more)
  have right := findData_more also (Nat.le_max_right turns more)
  exact Option.some.inj (left.symm.trans right)

theorem findWavHDR_more (found : findWavHDR turns search = some result) (enough : turns ≤ more) :
    findWavHDR more search = some result := by
  obtain ⟨middle, format, data⟩ := Option.bind_eq_some_iff.mp found
  rw [findWavHDR, findFormat_more format enough, Option.bind_some]
  exact findData_more data enough

theorem findWavHDR_join {middle : WavSearch} {first second : Nat}
    (format : findFormat first search = some middle)
    (data : findData second middle = some result) :
    findWavHDR (max first second) search = some result := by
  rw [findWavHDR, findFormat_more format (Nat.le_max_left _ _), Option.bind_some]
  exact findData_more data (Nat.le_max_right _ _)

/-- What the search has after the first half, when the walk from the first chunk
has met the format at `fmtAt`.  The chunk behind the format has been entered by
its tag. -/
structure FormatRead (content : List UInt8) (start fmtAt : Nat) (memory : WAVHeader)
    (search : WavSearch) : Prop where
  stands : search.Stands content (fmtAt + 8 + lengthAt content fmtAt + 4)
  magic : search.header.magic = slice content (start + 8) 4
  body : ∀ inner count, inner + count ≤ lengthAt content fmtAt + 4 →
    search.header.window (20 + inner) count = slice content (fmtAt + 8 + inner) count
  shown : search.header.window 36 4 =
    (memory.store 20 (slice content (fmtAt + 8) (lengthAt content fmtAt + 4))).window 36 4

theorem findFormat_reads (stands : search.Stands content start)
    (meets : Meets content fmtTag (start + 12) fmtAt)
    (inside : fmtAt + 8 + lengthAt content fmtAt + 4 ≤ content.length) :
    ∃ turns result, findFormat turns search = some result ∧
      FormatRead content start fmtAt search.header result := by
  have ends := meets.ends
  have word := search.file.node.sizeWord
  have size := stands.serves.size
  obtain ⟨first, firstRead, firstAt, firstHeader⟩ :=
    WavSearch.fetch_whole stands 0 16 (by omega)
  have firstTag : first.header.window 12 4 = tagAt content (start + 12) := by
    rw [firstHeader]
    exact WAVHeader.window_store_slice 0 12 (by omega) (by omega)
  have firstMagic : first.header.window 8 4 = slice content (start + 8) 4 := by
    rw [firstHeader]
    exact WAVHeader.window_store_slice 0 8 (by omega) (by omega)
  obtain ⟨turns, met, ran, metAt, _, metKept⟩ := WavSearch.loop_meets meets firstAt firstTag
  obtain ⟨sized, sizeRead, sizedAt, sizedHeader⟩ :=
    WavSearch.fetch_whole metAt 16 4 (by omega)
  have lengthIs : sized.header.field 16 4 = lengthAt content fmtAt := by
    unfold WAVHeader.field lengthAt
    rw [sizedHeader, WAVHeader.window_store_start (by omega)]
  have noWrap : (sized.header.field 16 4 + 4) % 2 ^ 32 = lengthAt content fmtAt + 4 := by
    rw [lengthIs]
    exact Nat.mod_eq_of_lt (by omega)
  have place : fmtAt + 4 + 4 = fmtAt + 8 := rfl
  obtain ⟨result, bodyRead, resultAt, resultHeader⟩ :=
    WavSearch.fetch_whole sizedAt 20 (lengthAt content fmtAt + 4) (by omega)
  rw [place] at resultAt resultHeader
  have early (index : Nat) (before : index < 12) :
      result.header.byte index = first.header.byte index := by
    rw [resultHeader, WAVHeader.store_byte_apart (by omega), sizedHeader,
      WAVHeader.store_byte_apart (by omega)]
    exact metKept index (by omega)
  refine ⟨turns, result, ?_, ?_⟩
  · rw [findFormat, firstRead, Option.bind_some, ran, Option.bind_some, sizeRead, Option.bind_some,
      noWrap]
    exact bodyRead
  · constructor
    · exact resultAt
    · rw [← firstMagic]
      exact WAVHeader.window_congr fun index _ before => early index (by omega)
    · intro inner count within
      rw [resultHeader, WAVHeader.window_store_slice 20 inner within (by omega)]
    · -- behind offset 20 the header still holds what it held before the search
      rw [resultHeader]
      apply WAVHeader.window_congr
      intro index lower _
      apply WAVHeader.store_byte_congr
      rw [sizedHeader, WAVHeader.store_byte_apart (by rw [length_slice]; omega),
        metKept index (by omega), firstHeader,
        WAVHeader.store_byte_apart (by rw [length_slice]; omega)]

/-- The second half ends when the tag in the header leads to the data. -/
theorem findData_ends {chunk : Nat} (stands : search.Stands content (chunk + 4))
    (enters : Enters content dataTag (search.header.window 36 4) chunk dataAt) :
    ∃ turns result, findData turns search = some result ∧
      (∀ index < 36, result.header.byte index = search.header.byte index) ∧
      (dataAt + 8 ≤ content.length →
        result.Stands content (dataAt + 8) ∧ result.header.dataSize = lengthAt content dataAt) := by
  obtain ⟨turns, met, ran, metAt, metKept⟩ := WavSearch.loop_enters stands enters
  obtain ⟨result, fetched, resultAt, resultHeader⟩ := WavSearch.fetch_stands metAt 40 4
  refine ⟨turns, result, ?_, ?_, ?_⟩
  · rw [findData, ran]
    exact fetched
  · intro index before
    rw [resultHeader, WAVHeader.store_byte_apart (by omega)]
    exact metKept index (by omega)
  · intro inside
    constructor
    · rw [Nat.min_eq_left (by omega)] at resultAt
      exact resultAt
    · unfold WAVHeader.dataSize WAVHeader.field lengthAt
      rw [resultHeader, WAVHeader.window_store_start (by omega)]

theorem findData_lost (lost : WavSearch.Lost content dataTag 36 search)
    (small : content.length < 2 ^ 31) (turns : Nat) : findData turns search = none := by
  rw [findData, lost.never small]
  rfl

/-- A search that has got through its first half ends in one way at most. -/
theorem findWavHDR_split {middle : WavSearch} {first : Nat}
    (format : findFormat first search = some middle)
    (ran : findWavHDR turns search = some result) : ∃ turns, findData turns middle = some result := by
  obtain ⟨other, found, rest⟩ := Option.bind_eq_some_iff.mp ran
  have left := findFormat_more format (Nat.le_max_left first turns)
  have right := findFormat_more found (Nat.le_max_right first turns)
  have same := Option.some.inj (left.symm.trans right)
  exact ⟨turns, same ▸ rest⟩

end Halves

end AC97Kernel
