/-
Where the reads of `findWavHDR` store.

All but one of them have a fixed length that fits the header.  The one behind
offset 20 is as long as the format chunk says, and four bytes more.  A `Cursor`
is what the first loop knows between two turns; it also follows a walk over the
end of the file, over stale bytes of the header and around 2^32.
-/

import AC97Kernel.Audio.Search

set_option autoImplicit false

namespace AC97Kernel

open Loops Slices LittleEndian WavSearch

/-- What one read stores into the memory of the header, and from where on. -/
structure HeaderWrite where
  offset : Nat
  bytes : List UInt8

def HeaderWrite.Inside (write : HeaderWrite) : Prop :=
  write.offset + write.bytes.length ≤ WAVHeader.size

instance (write : HeaderWrite) : Decidable write.Inside :=
  inferInstanceAs (Decidable (_ ≤ _))

namespace WavSearch

/-- What `fetch` stores, also when the read does not come back. -/
def write (search : WavSearch) (offset count : Nat) : HeaderWrite :=
  { offset := offset, bytes := (search.file.read count).1.bytes }

/-- The two reads of `turn`. -/
def turnWrites (offset : Nat) (search : WavSearch) : List HeaderWrite :=
  search.write (offset + 4) 4 ::
    (search.fetch (offset + 4) 4).elim [] fun search =>
      [(search.skip (search.header.field (offset + 4) 4)).write offset 4]

/-- The reads of the first `turns` turns of a loop. -/
def loopWrites (offset : Nat) (tag : List UInt8) : Nat → WavSearch → List HeaderWrite
  | 0, _ => []
  | turns + 1, search =>
      if misses offset tag search then
        turnWrites offset search ++ (turn offset search).elim [] (loopWrites offset tag turns)
      else []

end WavSearch

/-- The reads of `findFormat`. -/
def findFormatWrites (turns : Nat) (search : WavSearch) : List HeaderWrite :=
  search.write 0 16 ::
    (search.fetch 0 16).elim [] fun search =>
      loopWrites 12 fmtTag turns search ++
        (whileLoop (misses 12 fmtTag) (turn 12) turns search).elim [] fun search =>
          search.write 16 4 ::
            (search.fetch 16 4).elim [] fun search =>
              [search.write 20 ((search.header.field 16 4 + 4) % 2 ^ 32)]

/-- The reads of `findData`. -/
def findDataWrites (turns : Nat) (search : WavSearch) : List HeaderWrite :=
  loopWrites 36 dataTag turns search ++
    (whileLoop (misses 36 dataTag) (turn 36) turns search).elim [] fun search =>
      [search.write 40 4]

/-- The reads of `findWavHDR` during the first `turns` turns of its loops. -/
def findWavHDRWrites (turns : Nat) (search : WavSearch) : List HeaderWrite :=
  findFormatWrites turns search ++ (findFormat turns search).elim [] (findDataWrites turns)

/-! ### The reads of fixed length -/

namespace WavSearch

variable {search : WavSearch} {offset count turns : Nat} {tag : List UInt8}

theorem write_inside (fits : offset + count ≤ 44) : (search.write offset count).Inside := by
  have length := search.file.read_length (n := count)
  unfold HeaderWrite.Inside write WAVHeader.size
  simp only
  omega

theorem turnWrites_inside (fits : offset + 8 ≤ 44) :
    ∀ write ∈ turnWrites offset search, write.Inside := by
  intro write member
  rcases List.mem_cons.mp member with same | rest
  · rw [same]
    exact write_inside (by omega)
  · cases fetched : search.fetch (offset + 4) 4 with
    | none =>
        rw [fetched] at rest
        cases rest
    | some next =>
        rw [fetched] at rest
        rw [List.mem_singleton.mp rest]
        exact write_inside (by omega)

theorem loopWrites_inside (fits : offset + 8 ≤ 44) :
    ∀ write ∈ loopWrites offset tag turns search, write.Inside := by
  induction turns generalizing search with
  | zero =>
      intro write member
      cases member
  | succ turns ih =>
      intro write member
      rw [loopWrites] at member
      by_cases goesOn : misses offset tag search = true
      · rw [if_pos goesOn, List.mem_append] at member
        rcases member with inTurn | later
        · exact turnWrites_inside fits write inTurn
        · cases stepped : turn offset search with
          | none =>
              rw [stepped] at later
              cases later
          | some next =>
              rw [stepped] at later
              exact ih write later
      · rw [if_neg goesOn] at member
        cases member

end WavSearch

theorem findDataWrites_inside {turns : Nat} {search : WavSearch} :
    ∀ write ∈ findDataWrites turns search, write.Inside := by
  intro write member
  rcases List.mem_append.mp member with inLoop | last
  · exact loopWrites_inside (by decide) write inLoop
  · cases ended : whileLoop (misses 36 dataTag) (turn 36) turns search with
    | none =>
        rw [ended] at last
        cases last
    | some final =>
        rw [ended] at last
        rw [List.mem_singleton.mp last]
        exact write_inside (by decide)

/-! ### The walk of the first loop -/

/-- New bytes over the beginning of old ones. -/
def overlay (old new : List UInt8) : List UInt8 := new ++ old.drop new.length

/-- The position in the file, and what the header shows as tag and length of the
chunk there. -/
structure Cursor where
  position : Nat
  tag : List UInt8
  length : List UInt8

namespace Cursor

/-- Behind the read of the length, which the end of the file may cut short. -/
def sized (content : List UInt8) (cursor : Cursor) : Cursor :=
  { cursor with
    position := cursor.position + min 4 (content.length - cursor.position)
    length := overlay cursor.length (slice content cursor.position 4) }

/-- Where a seek by `count` leads; one beyond the file has no effect. -/
def sought (content : List UInt8) (position count : Nat) : Nat :=
  if content.length < (position + count) % 2 ^ 32 then position else (position + count) % 2 ^ 32

/-- Behind the read of the next tag. -/
def next (content : List UInt8) (cursor : Cursor) : Cursor :=
  let sized := cursor.sized content
  let position := sought content sized.position (decode sized.length)
  { sized with
    position := position + min 4 (content.length - position)
    tag := overlay cursor.tag (slice content position 4) }

/-- Behind the first read, into a header with `memory` in it. -/
def first (content : List UInt8) (start : Nat) (memory : WAVHeader) : Cursor :=
  { position := start + min 16 (content.length - start)
    tag := (memory.store 0 (slice content start 16)).window 12 4
    length := memory.window 16 4 }

/-- The walk from one cursor comes to another that shows the tag of the format. -/
inductive Finds (content : List UInt8) : Cursor → Cursor → Prop where
  | here {cursor : Cursor} : cursor.tag = fmtTag → Finds content cursor cursor
  | later {cursor found : Cursor} : cursor.tag ≠ fmtTag →
      Finds content (cursor.next content) found → Finds content cursor found

/-- How much is read behind offset 20 of the header. -/
def bodyRead (content : List UInt8) (cursor : Cursor) : Nat :=
  let sized := cursor.sized content
  min ((decode sized.length + 4) % 2 ^ 32) (content.length - sized.position)

end Cursor

/-- Whatever format the walk comes to, at most 24 bytes are read for it: it says
to have at most 20, or so many that four more wrap, or the file ends before. -/
def FormatFits (content : List UInt8) (start : Nat) (memory : WAVHeader) : Prop :=
  ∀ found, Cursor.Finds content (.first content start memory) found →
    found.bodyRead content ≤ 24

namespace WavSearch

open Cursor

/-- The search stands at the cursor. -/
structure At (search : WavSearch) (content : List UInt8) (cursor : Cursor) : Prop where
  stands : search.Stands content cursor.position
  tag : search.header.window 12 4 = cursor.tag
  length : search.header.window 16 4 = cursor.length

variable {search : WavSearch} {content : List UInt8} {cursor found : Cursor} {position : Nat}

/-- A window that a read of at most its length stores into. -/
theorem window_store_front {header : WAVHeader} {offset count : Nat} {bytes : List UInt8}
    (short : bytes.length ≤ count) :
    (header.store offset bytes).window offset count =
      overlay (header.window offset count) bytes := by
  apply List.ext_getElem
  · simp only [overlay, WAVHeader.length_window, List.length_append, List.length_drop]
    omega
  · intro index before _
    by_cases within : index < bytes.length
    · have stored := WAVHeader.store_byte_within header offset within
      simp [WAVHeader.window, overlay, List.getElem_append_left within, stored]
    · have kept : (header.store offset bytes).byte (offset + index) =
          header.byte (offset + index) := WAVHeader.store_byte_apart (by omega)
      have place : bytes.length + (index - bytes.length) = index := by omega
      simp [WAVHeader.window, overlay, List.getElem_append_right (Nat.le_of_not_lt within), kept,
        place]

theorem skip_stands (stands : search.Stands content position) (count : Nat) :
    (search.skip count).Stands content (sought content position count) := by
  have size := stands.serves.size
  have inside := stands.inside
  unfold skip OpenFileStruct.getOffset OpenFileStruct.seek sought
  rw [stands.offset, ← size]
  by_cases beyond : content.length < (position + count) % 2 ^ 32
  · rw [if_pos beyond, if_pos beyond]
    exact stands
  · rw [if_neg beyond, if_neg beyond]
    exact ⟨stands.serves, rfl, by omega⟩

theorem At.sized (here : search.At content cursor) :
    ∃ next, search.fetch 16 4 = some next ∧ next.At content (cursor.sized content) := by
  obtain ⟨next, fetched, reached, header⟩ := fetch_stands here.stands 16 4
  have short := length_slice content cursor.position 4
  refine ⟨next, fetched, reached, ?_, ?_⟩
  · rw [header, WAVHeader.window_store_apart (by omega)]
    exact here.tag
  · rw [header, window_store_front (by omega), here.length]
    rfl

theorem At.turn (here : search.At content cursor) :
    ∃ next, WavSearch.turn 12 search = some next ∧ next.At content (cursor.next content) := by
  obtain ⟨sized, fetched, there⟩ := here.sized
  have lengthIs : sized.header.field 16 4 = decode (cursor.sized content).length :=
    congrArg decode there.length
  have skipped := skip_stands there.stands (decode (cursor.sized content).length)
  obtain ⟨next, tagRead, reached, header⟩ := fetch_stands skipped 12 4
  have short := length_slice content
    (sought content (cursor.sized content).position (decode (cursor.sized content).length)) 4
  have sameHeader : (sized.skip (decode (cursor.sized content).length)).header = sized.header := rfl
  rw [sameHeader] at header
  refine ⟨next, ?_, reached, ?_, ?_⟩
  · rw [WavSearch.turn, fetched, Option.bind_some, lengthIs]
    exact tagRead
  · rw [header, window_store_front (by omega), there.tag]
    rfl
  · rw [header, WAVHeader.window_store_apart (by omega)]
    exact there.length

/-- The first loop ends where the walk finds the format, and nowhere else. -/
theorem At.finds {turns : Nat} {final : WavSearch} (here : search.At content cursor)
    (ended : whileLoop (misses 12 fmtTag) (WavSearch.turn 12) turns search = some final) :
    ∃ found, Finds content cursor found ∧ final.At content found := by
  induction turns generalizing search cursor with
  | zero => cases ended
  | succ turns ih =>
      by_cases shows : cursor.tag = fmtTag
      · have stops : misses 12 fmtTag search = false := by
          simp [misses, here.tag, shows]
        rw [whileLoop_done stops] at ended
        cases ended
        exact ⟨cursor, .here shows, here⟩
      · have goesOn : misses 12 fmtTag search = true := by
          simp [misses, here.tag, shows]
        obtain ⟨next, stepped, there⟩ := here.turn
        rw [whileLoop_turn goesOn stepped] at ended
        obtain ⟨found, finds, reached⟩ := ih there ended
        exact ⟨found, .later shows finds, reached⟩

theorem At.ends (finds : Finds content cursor found) (here : search.At content cursor) :
    ∃ turns final, whileLoop (misses 12 fmtTag) (WavSearch.turn 12) turns search = some final ∧
      final.At content found := by
  induction finds generalizing search with
  | here shows =>
      have stops : misses 12 fmtTag search = false := by
        simp [misses, here.tag, shows]
      exact ⟨1, search, whileLoop_done stops, here⟩
  | later different _ ih =>
      have goesOn : misses 12 fmtTag search = true := by
        simp [misses, here.tag, different]
      obtain ⟨next, stepped, there⟩ := here.turn
      obtain ⟨turns, final, ended, reached⟩ := ih there
      exact ⟨turns + 1, final, (whileLoop_turn goesOn stepped).trans ended, reached⟩

theorem At.body (here : search.At content cursor) :
    (search.write 20 ((search.header.field 16 4 + 4) % 2 ^ 32)).bytes.length =
      min ((decode cursor.length + 4) % 2 ^ 32) (content.length - cursor.position) := by
  have lengthIs : search.header.field 16 4 = decode cursor.length := congrArg decode here.length
  unfold write
  rw [OpenFileStruct.read_length_serves here.stands.serves, here.stands.serves.size,
    here.stands.offset, lengthIs]

end WavSearch

section Bounds

variable {search : WavSearch} {content : List UInt8} {start : Nat}

theorem first_at (stands : search.Stands content start) :
    ∃ next, search.fetch 0 16 = some next ∧
      next.At content (.first content start search.header) := by
  obtain ⟨next, fetched, reached, header⟩ := fetch_stands stands 0 16
  have short := length_slice content start 16
  refine ⟨next, fetched, reached, ?_, ?_⟩
  · rw [header]
    rfl
  · rw [header, WAVHeader.window_store_apart (by omega)]
    rfl

/-- The only read that may go too far is the one for the body of the format. -/
theorem findFormatWrites_inside (stands : search.Stands content start)
    (fits : FormatFits content start search.header) (turns : Nat) :
    ∀ write ∈ findFormatWrites turns search, write.Inside := by
  intro write member
  obtain ⟨first, fetched, firstAt⟩ := first_at stands
  rw [findFormatWrites, fetched] at member
  rcases List.mem_cons.mp member with same | rest
  · rw [same]
    exact write_inside (by decide)
  · rcases List.mem_append.mp rest with inLoop | behind
    · exact loopWrites_inside (by decide) write inLoop
    · cases ended : whileLoop (misses 12 fmtTag) (turn 12) turns first with
      | none =>
          rw [ended] at behind
          cases behind
      | some final =>
          rw [ended] at behind
          rcases List.mem_cons.mp behind with same | body
          · rw [same]
            exact write_inside (by decide)
          · obtain ⟨found, finds, finalAt⟩ := firstAt.finds ended
            obtain ⟨sized, sizedRead, sizedAt⟩ := finalAt.sized
            rw [sizedRead] at body
            rw [List.mem_singleton.mp body, HeaderWrite.Inside, sizedAt.body]
            have most := fits found finds
            unfold Cursor.bodyRead at most
            exact Nat.add_le_add_left most 20

/-- A format that does not fit is read, and stored behind the header. -/
theorem body_written (stands : search.Stands content start) {found : Cursor}
    (finds : Cursor.Finds content (.first content start search.header) found) :
    ∃ turns, ∃ write ∈ findWavHDRWrites turns search,
      write.offset = 20 ∧ write.bytes.length = found.bodyRead content := by
  obtain ⟨first, fetched, firstAt⟩ := first_at stands
  obtain ⟨turns, final, ended, finalAt⟩ := At.ends finds firstAt
  obtain ⟨sized, sizedRead, sizedAt⟩ := finalAt.sized
  refine ⟨turns, _, List.mem_append_left _ ?_, rfl, sizedAt.body⟩
  rw [findFormatWrites, fetched]
  apply List.mem_cons_of_mem
  apply List.mem_append_right
  rw [ended]
  apply List.mem_cons_of_mem
  rw [sizedRead]
  exact List.mem_singleton.mpr rfl

/-- Every read of `findWavHDR` stores inside the header exactly when the format
that the walk comes to, if it comes to one, fits. -/
theorem findWavHDR_writes_inside {node : BlockIO} (serves : node.Serves content)
    (inside : start ≤ content.length) (memory : WAVHeader) :
    (∀ turns, ∀ write ∈ findWavHDRWrites turns
        { file := { node := node, myOffset := start }, header := memory }, write.Inside) ↔
      FormatFits content start memory := by
  have stands : WavSearch.Stands
      { file := { node := node, myOffset := start }, header := memory } content start :=
    ⟨serves, rfl, inside⟩
  constructor
  · intro allInside found finds
    obtain ⟨turns, write, member, offset, length⟩ := body_written stands finds
    have bounded := allInside turns write member
    rw [HeaderWrite.Inside, offset, length, WAVHeader.size] at bounded
    omega
  · intro fits turns write member
    rcases List.mem_append.mp member with inFormat | inData
    · exact findFormatWrites_inside stands fits turns write inFormat
    · cases ended : findFormat turns
          { file := { node := node, myOffset := start }, header := memory } with
      | none =>
          rw [ended] at inData
          cases inData
      | some middle =>
          rw [ended] at inData
          exact findDataWrites_inside write inData

theorem plainFrame_fits : FormatFits plainFrame.encode 0 freshMemory := by
  intro found finds
  cases finds with
  | here _ => decide
  | later different _ => exact absurd (by decide) different

theorem findWavHDR_writes_inside_sample :
    FormatFits plainFrame.encode 0 freshMemory ∧ ∀ turns, ∀ write ∈ findWavHDRWrites turns
      { file := .make (waveDevice plainFrame.encode (by decide)), header := freshMemory },
      write.Inside :=
  ⟨plainFrame_fits,
    (findWavHDR_writes_inside (waveDevice_serves _ _) (Nat.zero_le _) freshMemory).mpr
      plainFrame_fits⟩

/-- The format of the extensible kind: 40 bytes. -/
def extensibleFrame : WaveFile := oneFrame (List.replicate 24 0) (by decide)

/-- Reading a format of 40 bytes stores up to offset 64, 20 bytes behind the header. -/
theorem findWavHDR_writes_behind :
    ¬ ∀ turns, ∀ write ∈ findWavHDRWrites turns
      { file := .make (waveDevice extensibleFrame.encode (by decide)), header := freshMemory },
      write.Inside := by
  intro allInside
  have stands := WaveFile.start_stands
    (waveDevice_serves extensibleFrame.encode (by decide)) freshMemory
  have shows : (Cursor.first extensibleFrame.encode 0 freshMemory).tag = fmtTag := by decide
  obtain ⟨turns, write, member, offset, length⟩ := body_written stands (.here shows)
  have bounded := allInside turns write member
  rw [HeaderWrite.Inside, offset, length] at bounded
  exact absurd bounded (by decide)

end Bounds

end AC97Kernel
