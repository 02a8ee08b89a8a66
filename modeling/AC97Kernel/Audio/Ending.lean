/-
Whether the search for the header comes to an end.

It does when the lengths of the chunks lead to the format and from there to the
data, all inside the file.  A walk that comes to the end of the file instead is
not noticed: the reads there store nothing and the seeks fail, and the loop goes
on for ever.
-/

import AC97Kernel.Audio.Search

set_option autoImplicit false

namespace AC97Kernel

open Loops Slices LittleEndian Riff

/-- Where the chunk behind the format begins. -/
def behind (content : List UInt8) (fmtAt : Nat) : Nat := fmtAt + 8 + lengthAt content fmtAt

/-- What the header shows as the next tag, once the format has been read over the
bytes that were in its memory. -/
def shownTag (content : List UInt8) (memory : WAVHeader) (fmtAt : Nat) : List UInt8 :=
  (memory.store 20 (slice content (fmtAt + 8) (lengthAt content fmtAt + 4))).window 36 4

/-- The chunk lengths lead from the first chunk to the format, and the tag that is
shown behind it leads to the data. -/
structure Leads (content : List UInt8) (start : Nat) (memory : WAVHeader) (fmtAt dataAt : Nat) :
    Prop where
  format : Meets content fmtTag (start + 12) fmtAt
  room : behind content fmtAt + 4 ≤ content.length
  data : Enters content dataTag (shownTag content memory fmtAt) (behind content fmtAt) dataAt

/-- The search is called at the end of the file, or the walk from the first chunk,
or the one behind the format, comes to the end of the file. -/
inductive Strays (content : List UInt8) (start : Nat) (memory : WAVHeader) : Prop where
  | atEnd : start = content.length → memory.window 12 4 ≠ fmtTag →
      content.length + memory.field 16 4 < 2 ^ 32 → Strays content start memory
  | noFormat : start + 16 ≤ content.length → Leaves content fmtTag (start + 12) →
      Strays content start memory
  | noData {fmtAt : Nat} : Meets content fmtTag (start + 12) fmtAt →
      behind content fmtAt + 8 ≤ content.length → shownTag content memory fmtAt ≠ dataTag →
      Leaves content dataTag
        (behind content fmtAt + 8 + lengthAt content (behind content fmtAt)) →
      Strays content start memory

variable {search : WavSearch} {content : List UInt8} {start fmtAt dataAt : Nat}

theorem Leads.ends (stands : search.Stands content start)
    (leads : Leads content start search.header fmtAt dataAt) :
    ∃ turns result, findWavHDR turns search = some result ∧
      result.header.magic = slice content (start + 8) 4 := by
  obtain ⟨first, middle, formatFound, read⟩ := findFormat_reads stands leads.format leads.room
  have middleAt : middle.Stands content (behind content fmtAt + 4) := read.stands
  have shows : middle.header.window 36 4 = shownTag content search.header fmtAt := read.shown
  obtain ⟨second, result, dataFound, kept, _⟩ :=
    findData_ends middleAt (shows.symm ▸ leads.data)
  refine ⟨max first second, result, findWavHDR_join formatFound dataFound, ?_⟩
  rw [← read.magic]
  exact WAVHeader.window_congr fun index _ before => kept index (by omega)

theorem Strays.never (stands : search.Stands content start) (small : content.length < 2 ^ 31)
    (strays : Strays content start search.header) (turns : Nat) :
    findWavHDR turns search = none := by
  have noFormat (first : WavSearch) (fetched : search.fetch 0 16 = some first)
      (lost : WavSearch.Lost content fmtTag 12 first) : findWavHDR turns search = none := by
    rw [findWavHDR, findFormat, fetched, Option.bind_some, lost.never small]
    rfl
  cases strays with
  | atEnd last missing noWrap =>
      obtain ⟨first, fetched, firstAt, firstHeader⟩ := WavSearch.fetch_stands stands 0 16
      rw [last, Nat.sub_self, Nat.min_zero, Nat.add_zero] at firstAt
      rw [slice_beyond (by omega), WAVHeader.store_nil] at firstHeader
      rw [← firstHeader] at missing noWrap
      exact noFormat first fetched (.atEnd firstAt missing noWrap)
  | noFormat enough leaves =>
      obtain ⟨first, fetched, firstAt, firstHeader⟩ :=
        WavSearch.fetch_whole stands 0 16 enough
      have shows : first.header.window 12 4 = tagAt content (start + 12) := by
        rw [firstHeader]
        exact WAVHeader.window_store_slice 0 12 (by omega) (by omega)
      cases leaves with
      | last atEnd => omega
      | later room different rest =>
          exact noFormat first fetched (.inside firstAt room (shows ▸ different) rest)
  | @noData fmtAt meets room different leaves =>
      obtain ⟨first, middle, formatFound, read⟩ := findFormat_reads stands meets
        (by unfold behind at room; omega)
      have middleAt : middle.Stands content (behind content fmtAt + 4) := read.stands
      have shows : middle.header.window 36 4 = shownTag content search.header fmtAt := read.shown
      have lost := WavSearch.Lost.inside middleAt room (shows ▸ different) leaves
      cases ran : findWavHDR turns search with
      | none => rfl
      | some result =>
          obtain ⟨more, found⟩ := findWavHDR_split formatFound ran
          rw [findData_lost lost small] at found
          cases found

/-- Chunks as in a WAVE file, in a file that says to be something else. -/
def otherForm : List UInt8 := plainFrame.encode.set 8 0

end AC97Kernel
