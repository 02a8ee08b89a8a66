/-
The image of a program that has been loaded.

`load` stores for each segment what the file has of it and clears the rest.  That the
file has all of it is nothing that it looks at: the count of `read_all` is dropped.
-/

import AC97Kernel.Calls.Execl

set_option autoImplicit false

namespace AC97Kernel

open Slices LittleEndian ByteRuns

namespace ELF

/-- The next `left` program headers, at the stride that the file gives. -/
def headersFrom (content : List UInt8) (phentsize : Nat) : Nat → Nat → List ProgramHeader
  | 0, _ => []
  | left + 1, hoff =>
      .ofBytes (slice content hoff ProgramHeader.size) ::
        headersFrom content phentsize left ((hoff + phentsize) % 2 ^ 32)

/-- The headers of the segments to load. -/
def segments (content : List UInt8) : List ProgramHeader :=
  (headersFrom content (headerOf content).phentsize (headerOf content).phnum
    (headerOf content).phoff).filter fun header => header.type = 1

/-- The segment lies in the user's memory and has no more bytes in the file than there,
and `bzero` can count the others. -/
structure Placed (config : Config) (header : ProgramHeader) : Prop where
  noWrap : header.vaddr + header.memsz ≤ 2 ^ 32
  user : ∀ index < header.memsz, UserByte config (header.vaddr + index)
  sizes : header.filesz ≤ header.memsz
  short : header.memsz - header.filesz < 2 ^ 31

/-- No byte belongs to both segments. -/
def Apart (first second : ProgramHeader) : Prop :=
  ∀ address, first.vaddr ≤ address → address < first.vaddr + first.memsz →
    ¬ (second.vaddr ≤ address ∧ address < second.vaddr + second.memsz)

/-- The segment is in memory as the file describes it. -/
structure Built (memory : Nat → UInt8) (content : List UInt8) (header : ProgramHeader) : Prop where
  copied : ∀ index < header.filesz,
    content[header.offset + index]? = some (memory (header.vaddr + index))
  cleared : ∀ index, header.filesz ≤ index → index < header.memsz →
    memory (header.vaddr + index) = 0

/-- The bytes of the segment are in the file. -/
def Contained (content : List UInt8) (header : ProgramHeader) : Prop :=
  header.filesz = 0 ∨ header.offset + header.filesz ≤ content.length

variable {config : Config} {file : BlockIO} {content : List UInt8} {memory later : Nat → UInt8}
  {header : ProgramHeader}

theorem Built.contained (built : Built memory content header) : Contained content header := by
  rcases Nat.eq_zero_or_pos header.filesz with nothing | some
  · exact .inl nothing
  · have last := built.copied (header.filesz - 1) (by omega)
    have inside := (List.getElem?_eq_some_iff.1 last).1
    exact .inr (by omega)

theorem Built.kept (built : Built memory content header) (placed : Placed config header)
    (same : ∀ address, header.vaddr ≤ address → address < header.vaddr + header.memsz →
      later address = memory address) : Built later content header := by
  have sizes := placed.sizes
  constructor
  · intro index inside
    rw [same _ (by omega) (by omega)]
    exact built.copied index inside
  · intro index behind inside
    rw [same _ (by omega) (by omega)]
    exact built.cleared index behind inside

/-- What is stored for a segment that lies where it should. -/
theorem apply_storedFor (memory : Nat → UInt8) (content : List UInt8) (placed : Placed config header)
    (high : 0x80000000 ≤ header.vaddr) :
    SYS.apply memory (storedFor content header).stores =
      put (put memory header.vaddr (slice content header.offset header.filesz))
        (header.vaddr + header.filesz) (List.replicate (header.memsz - header.filesz) 0) := by
  have noWrap := placed.noWrap
  have sizes := placed.sizes
  have count : ELF.cleared header = header.memsz - header.filesz := if_pos placed.short
  have copies : header.vaddr + (slice content header.offset header.filesz).length ≤ 2 ^ 32 := by
    rw [length_slice]
    omega
  have clears : header.vaddr + header.filesz +
      (List.replicate (header.memsz - header.filesz) (0 : UInt8)).length ≤ 2 ^ 32 := by
    rw [List.length_replicate]
    omega
  unfold storedFor
  simp only
  rw [bzero_eq high (by omega), count, SYS.apply_append, SYS.apply_storesAt memory copies,
    SYS.apply_storesAt _ clears]

theorem apply_storedFor_outside (memory : Nat → UInt8) (content : List UInt8)
    (placed : Placed config header) (high : 0x80000000 ≤ header.vaddr) {address : Nat}
    (outside : ¬ (header.vaddr ≤ address ∧ address < header.vaddr + header.memsz)) :
    SYS.apply memory (storedFor content header).stores address = memory address := by
  have sizes := placed.sizes
  rw [apply_storedFor memory content placed high,
    put_outside (by rw [List.length_replicate]; omega), put_outside (by rw [length_slice]; omega)]

theorem built_alone (memory : Nat → UInt8) (placed : Placed config header)
    (high : 0x80000000 ≤ header.vaddr) (contained : Contained content header) :
    Built (SYS.apply memory (storedFor content header).stores) content header := by
  have length : (slice content header.offset header.filesz).length = header.filesz := by
    rw [length_slice]
    rcases contained with nothing | inside <;> omega
  rw [apply_storedFor memory content placed high]
  constructor
  · intro index inside
    have copied := put_occupies memory header.vaddr (slice content header.offset header.filesz)
      index (by rwa [length])
    rw [slice_getElem? _ inside] at copied
    rw [copied]
    exact congrArg some (put_outside (by omega)).symm
  · intro index behind inside
    have zeros := put_occupies (put memory header.vaddr (slice content header.offset header.filesz))
      (header.vaddr + header.filesz) (List.replicate (header.memsz - header.filesz) (0 : UInt8))
      (index - header.filesz) (by rw [List.length_replicate]; omega)
    have at_ : header.vaddr + header.filesz + (index - header.filesz) = header.vaddr + index := by
      omega
    rw [List.getElem?_replicate_of_lt (by omega), at_] at zeros
    exact (Option.some.inj zeros).symm

/-- One segment after the other leaves all of them in memory. -/
theorem built_all (memory : Nat → UInt8) {headers : List ProgramHeader}
    (placed : ∀ header ∈ headers, Placed config header)
    (high : ∀ header ∈ headers, 0x80000000 ≤ header.vaddr)
    (apart : headers.Pairwise Apart) (contained : ∀ header ∈ headers, Contained content header) :
    (∀ header ∈ headers, Built
      (SYS.apply memory ((headers.map (storedFor content)).flatMap fun segment => segment.stores))
      content header) ∧
    ∀ address, (∀ header ∈ headers,
        ¬ (header.vaddr ≤ address ∧ address < header.vaddr + header.memsz)) →
      SYS.apply memory ((headers.map (storedFor content)).flatMap fun segment => segment.stores)
        address = memory address := by
  induction headers generalizing memory with
  | nil =>
      constructor
      · intro header member
        cases member
      · intro address _
        rfl
  | cons first rest ih =>
      obtain ⟨firstApart, restApart⟩ := List.pairwise_cons.1 apart
      obtain ⟨builds, keeps⟩ := ih (SYS.apply memory (storedFor content first).stores)
        (fun header member => placed header (List.mem_cons_of_mem _ member))
        (fun header member => high header (List.mem_cons_of_mem _ member)) restApart
        (fun header member => contained header (List.mem_cons_of_mem _ member))
      have firstPlaced := placed first List.mem_cons_self
      have firstHigh := high first List.mem_cons_self
      rw [List.map_cons, List.flatMap_cons, SYS.apply_append]
      constructor
      · intro header member
        rcases List.mem_cons.1 member with rfl | behind
        · apply (built_alone memory firstPlaced firstHigh (contained _ List.mem_cons_self)).kept
            firstPlaced
          intro address lower upper
          exact keeps address fun other inRest => firstApart other inRest address lower upper
        · exact builds header behind
      · intro address outside
        rw [keeps address fun other inRest => outside other (List.mem_cons_of_mem _ inRest)]
        exact apply_storedFor_outside memory content firstPlaced firstHigh
          (outside first List.mem_cons_self)

/-- Where every header is taken, the accepted ones are those of the segments. -/
theorem acceptedFrom_loadable {phentsize left hoff : Nat}
    (loadable : Loadable config content phentsize left hoff) :
    acceptedFrom config content phentsize left hoff =
      (headersFrom content phentsize left hoff).filter fun header => header.type = 1 := by
  induction left generalizing hoff with
  | zero => rfl
  | succ left ih =>
      obtain ⟨⟨inside, guarded⟩, rest⟩ := loadable
      rw [acceptedFrom, headersFrom, if_pos inside]
      by_cases load : (ProgramHeader.ofBytes (slice content hoff ProgramHeader.size)).type = 1
      · rw [List.filter_cons_of_pos (by simpa using load)]
        simp only [load, ne_eq, not_true_eq_false, if_false, guarded load, Bool.false_eq_true]
        rw [ih rest]
      · rw [List.filter_cons_of_neg (by simpa using load)]
        simp only [ne_eq, load, not_false_eq_true, if_true]
        exact ih rest

theorem accepted_segments (whole : ElfHeader.size ≤ content.length)
    (valid : (headerOf content).valid = true)
    (loadable : Loadable config content (headerOf content).phentsize (headerOf content).phnum
      (headerOf content).phoff) : accepted config content = segments content := by
  have taken : accepted config content =
      acceptedFrom config content (headerOf content).phentsize (headerOf content).phnum
        (headerOf content).phoff := if_pos ⟨whole, valid⟩
  rw [taken, acceptedFrom_loadable loadable, segments]

/-- What is in memory when a file with segments where they should be has been loaded: the
image that it describes, exactly when it contains it.  Nothing is loaded when a header is
not taken. -/
theorem load_builds (serves : file.Serves content) (whole : ElfHeader.size ≤ content.length)
    (valid : (headerOf content).valid = true)
    (placed : ∀ header ∈ segments content, Placed config header)
    (apart : (segments content).Pairwise Apart) (memory : Nat → UInt8) :
    ((load config (some file)).outcome = .returned (headerOf content).entry →
      ∀ header ∈ segments content, Built
        (SYS.apply memory
          ((load config (some file)).loaded.flatMap fun segment => segment.stores))
        content header) ↔
    ¬ Loadable config content (headerOf content).phentsize (headerOf content).phnum
        (headerOf content).phoff ∨
      ∀ header ∈ segments content, Contained content header := by
  rw [load_outcome serves whole valid, load_loaded serves]
  rcases loadHeaders_outcome serves (headerOf content).entry (headerOf content).phentsize
    (headerOf content).phnum (headerOf content).phoff with ⟨returned, loadable⟩ | ⟨panicked, stops⟩
  · have same := accepted_segments whole valid loadable
    rw [returned, same]
    constructor
    · intro builds
      exact .inr fun header member => (builds rfl header member).contained
    · rintro (stops | contained) _
      · exact absurd loadable stops
      · have high : ∀ header ∈ segments content, 0x80000000 ≤ header.vaddr := by
          rw [← same]
          exact accepted_high
        exact (built_all memory placed high apart contained).1
  · rw [panicked]
    refine iff_of_true ?_ (.inl stops)
    intro impossible
    cases impossible

/-! ### Programs of one segment -/

private theorem oneSegment_segments : segments (oneSegment 0x80000000 84 0x1000) =
    [{ type := 1, offset := 0, vaddr := 0x80000000, filesz := 84, memsz := 0x1000 }] := by decide

private theorem oneSegment_placed :
    (∀ header ∈ segments (oneSegment 0x80000000 84 0x1000), Placed usualControllers header) ∧
      (segments (oneSegment 0x80000000 84 0x1000)).Pairwise Apart := by
  rw [oneSegment_segments]
  constructor
  · intro header member
    rw [List.mem_singleton.1 member]
    refine ⟨by decide, ?_, by decide, by decide⟩
    intro index inside
    rw [userByte_iff, usualControllers]
    simp only at inside ⊢
    unfold PhysMem.framedown PhysMem.frameSize
    omega
  · exact List.pairwise_singleton _ _

/-- A program whose first header is taken and is the only one is loaded. -/
private theorem oneSegment_returned {filesz memsz : Nat}
    (whole : ElfHeader.size ≤ (oneSegment 0x80000000 filesz memsz).length)
    (valid : (headerOf (oneSegment 0x80000000 filesz memsz)).valid = true)
    (loadable : Loadable usualControllers (oneSegment 0x80000000 filesz memsz)
      (headerOf (oneSegment 0x80000000 filesz memsz)).phentsize
      (headerOf (oneSegment 0x80000000 filesz memsz)).phnum
      (headerOf (oneSegment 0x80000000 filesz memsz)).phoff) :
    (load usualControllers (some (programFile 0x80000000 filesz memsz))).outcome =
      .returned (headerOf (oneSegment 0x80000000 filesz memsz)).entry := by
  have serves := programFile_serves 0x80000000 filesz memsz
  rw [load_outcome serves whole valid]
  rcases loadHeaders_outcome serves (headerOf (oneSegment 0x80000000 filesz memsz)).entry
    (headerOf (oneSegment 0x80000000 filesz memsz)).phentsize
    (headerOf (oneSegment 0x80000000 filesz memsz)).phnum
    (headerOf (oneSegment 0x80000000 filesz memsz)).phoff with ⟨returned, _⟩ | ⟨_, stops⟩
  · exact returned
  · exact absurd loadable stops

theorem load_builds_sample :
    (load usualControllers (some (programFile 0x80000000 84 0x1000))).outcome =
        .returned (headerOf (oneSegment 0x80000000 84 0x1000)).entry ∧
      ∀ header ∈ segments (oneSegment 0x80000000 84 0x1000), Built
        (SYS.apply (fun _ => 0xFF)
          ((load usualControllers (some (programFile 0x80000000 84 0x1000))).loaded.flatMap
            fun segment => segment.stores))
        (oneSegment 0x80000000 84 0x1000) header := by
  have returned : (load usualControllers (some (programFile 0x80000000 84 0x1000))).outcome =
      .returned (headerOf (oneSegment 0x80000000 84 0x1000)).entry :=
    oneSegment_returned (by decide) (by decide) ⟨⟨by decide, by decide⟩, trivial⟩
  have contained : ∀ header ∈ segments (oneSegment 0x80000000 84 0x1000),
      Contained (oneSegment 0x80000000 84 0x1000) header := by
    intro header member
    rw [oneSegment_segments, List.mem_singleton] at member
    rw [member]
    exact .inr (by decide)
  exact ⟨returned, (load_builds (programFile_serves 0x80000000 84 0x1000) (by decide) (by decide)
    oneSegment_placed.1 oneSegment_placed.2 fun _ => 0xFF).2 (.inr contained) returned⟩

/-- The segment is to have 100 bytes, and the file has 84. -/
theorem load_of_short_file :
    (load usualControllers (some (programFile 0x80000000 100 100))).outcome =
        .returned (headerOf (oneSegment 0x80000000 100 100)).entry ∧
      ¬ ∀ header ∈ segments (oneSegment 0x80000000 100 100), Built
        (SYS.apply (fun _ => 0xFF)
          ((load usualControllers (some (programFile 0x80000000 100 100))).loaded.flatMap
            fun segment => segment.stores))
        (oneSegment 0x80000000 100 100) header := by
  have one : segments (oneSegment 0x80000000 100 100) =
      [{ type := 1, offset := 0, vaddr := 0x80000000, filesz := 100, memsz := 100 }] := by decide
  constructor
  · exact oneSegment_returned (by decide) (by decide) ⟨⟨by decide, by decide⟩, trivial⟩
  · intro builds
    have built := builds (.mk 1 0 0x80000000 100 100) (one ▸ List.mem_singleton.2 rfl)
    rcases built.contained with nothing | inside
    · cases nothing
    · rw [length_oneSegment] at inside
      exact absurd inside (by decide)

end ELF

end AC97Kernel
