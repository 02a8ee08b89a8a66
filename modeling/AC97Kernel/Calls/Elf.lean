/-
Loading a program, as kernel/elf.cc does it.

`load` records what each accepted segment stores.  The guard of a segment looks
at its first address; its sum is a 32-bit word and no such word is above
0xFFFFFFFF.  `bzero` is that of kernel/machine.S, which counts its bytes down
as a signed number.
-/

import AC97Kernel.Calls.UserMemory
import AC97Kernel.Library.LittleEndian
import AC97Kernel.Storage.BlockIO

set_option autoImplicit false

namespace AC97Kernel

open Slices LittleEndian

namespace ELF

/-- A little-endian field of a packed structure. -/
def field (bytes : List UInt8) (offset size : Nat) : Nat := decode (slice bytes offset size)

/-- The fields of `ElfHeader` that loading reads. -/
structure ElfHeader where
  magic0 : Nat
  magic1 : Nat
  magic2 : Nat
  magic3 : Nat
  cls : Nat
  encoding : Nat
  headerVersion : Nat
  abi : Nat
  type : Nat
  version : Nat
  entry : Nat
  phoff : Nat
  phentsize : Nat
  phnum : Nat

def ElfHeader.size : Nat := 52

def ElfHeader.ofBytes (bytes : List UInt8) : ElfHeader :=
  { magic0 := field bytes 0 1
    magic1 := field bytes 1 1
    magic2 := field bytes 2 1
    magic3 := field bytes 3 1
    cls := field bytes 4 1
    encoding := field bytes 5 1
    headerVersion := field bytes 6 1
    abi := field bytes 7 1
    type := field bytes 16 2
    version := field bytes 20 4
    entry := field bytes 24 4
    phoff := field bytes 28 4
    phentsize := field bytes 42 2
    phnum := field bytes 44 2 }

/-- The fields of `ProgramHeader` that loading reads. -/
structure ProgramHeader where
  type : Nat
  offset : Nat
  vaddr : Nat
  filesz : Nat
  memsz : Nat
  deriving DecidableEq

def ProgramHeader.size : Nat := 32

def ProgramHeader.ofBytes (bytes : List UInt8) : ProgramHeader :=
  { type := field bytes 0 4
    offset := field bytes 4 4
    vaddr := field bytes 8 4
    filesz := field bytes 16 4
    memsz := field bytes 20 4 }

/-- An executable for 32-bit little-endian Unix that has program headers. -/
def ElfHeader.valid (header : ElfHeader) : Bool :=
  header.magic0 = 0x7F && header.magic1 = 0x45 && header.magic2 = 0x4C && header.magic3 = 0x46 &&
    header.encoding = 1 && header.cls = 1 && header.abi = 0 && header.headerVersion = 1 &&
    header.version = 1 && header.type = 2 && header.phoff ≠ 0

/-- The guard of a segment. -/
def invalidSegment (config : Config) (header : ProgramHeader) : Bool :=
  header.vaddr < 0x80000000 || (header.vaddr + header.filesz) % 2 ^ 32 > 0xFFFFFFFF ||
    header.vaddr = config.ioAPIC || header.vaddr = config.localAPIC

def bzero (pointer n : Nat) : List Access :=
  if n < 2 ^ 31 then storesAt pointer (List.replicate n 0) else []

/-- An accepted segment and what was stored for it. -/
structure Segment where
  header : ProgramHeader
  stores : List Access
  deriving DecidableEq

structure Loading where
  loaded : List Segment
  outcome : Outcome

def loadSegment (config : Config) (file : BlockIO) (header : ProgramHeader) : Loading :=
  if header.type ≠ 1 then { loaded := [], outcome := .returned 0 }
  else if invalidSegment config header then { loaded := [], outcome := .panicked }
  else
    let p := header.vaddr
    let copied := file.readAll header.offset header.filesz
    match copied.outcome with
    | .returned _ =>
        { loaded :=
            [{ header := header
               stores := storesAt p copied.bytes ++
                 bzero ((p + header.filesz) % 2 ^ 32)
                   ((header.memsz + 2 ^ 32 - header.filesz) % 2 ^ 32) }]
          outcome := .returned 0 }
    | stopped =>
        { loaded := [{ header := header, stores := storesAt p copied.bytes }]
          outcome := stopped }

/-- The loop over the program headers, with the number of them that are left. -/
def loadHeaders (config : Config) (file : BlockIO) (entry phentsize : Nat) : Nat → Nat → Loading
  | 0, _ => { loaded := [], outcome := .returned entry }
  | left + 1, hoff =>
      match file.readThing hoff ProgramHeader.size with
      | none => { loaded := [], outcome := .panicked }
      | some bytes =>
          let segment := loadSegment config file (.ofBytes bytes)
          match segment.outcome with
          | .returned _ =>
              let rest := loadHeaders config file entry phentsize left ((hoff + phentsize) % 2 ^ 32)
              { loaded := segment.loaded ++ rest.loaded, outcome := rest.outcome }
          | _ => segment

/-- The result is the entry point, or -1 as a 32-bit word. -/
def load (config : Config) : Option BlockIO → Loading
  | none => { loaded := [], outcome := .returned (2 ^ 32 - 1) }
  | some file =>
      match file.readThing 0 ElfHeader.size with
      | none => { loaded := [], outcome := .panicked }
      | some bytes =>
          let header := ElfHeader.ofBytes bytes
          if header.valid then
            loadHeaders config file header.entry header.phentsize header.phnum header.phoff
          else { loaded := [], outcome := .returned (2 ^ 32 - 1) }

/-! ### The headers that are accepted -/

/-- Of the next `left` headers those of segments to load, up to the first header
that is not in the file or that the guard stops. -/
def acceptedFrom (config : Config) (content : List UInt8) (phentsize : Nat) :
    Nat → Nat → List ProgramHeader
  | 0, _ => []
  | left + 1, hoff =>
      if hoff + ProgramHeader.size ≤ content.length then
        let header := ProgramHeader.ofBytes (slice content hoff ProgramHeader.size)
        let rest := acceptedFrom config content phentsize left ((hoff + phentsize) % 2 ^ 32)
        if header.type ≠ 1 then rest
        else if invalidSegment config header then []
        else header :: rest
      else []

def accepted (config : Config) (content : List UInt8) : List ProgramHeader :=
  let header := ElfHeader.ofBytes (slice content 0 ElfHeader.size)
  if ElfHeader.size ≤ content.length ∧ header.valid then
    acceptedFrom config content header.phentsize header.phnum header.phoff
  else []

/-- What an accepted segment of a file with fixed contents stores. -/
def storedFor (content : List UInt8) (header : ProgramHeader) : Segment :=
  { header := header
    stores := storesAt header.vaddr (slice content header.offset header.filesz) ++
      bzero ((header.vaddr + header.filesz) % 2 ^ 32)
        ((header.memsz + 2 ^ 32 - header.filesz) % 2 ^ 32) }

variable {config : Config} {file : BlockIO} {content : List UInt8}

theorem loadSegment_serves (serves : file.Serves content) (header : ProgramHeader) :
    loadSegment config file header =
      if header.type ≠ 1 then { loaded := [], outcome := .returned 0 }
      else if invalidSegment config header then { loaded := [], outcome := .panicked }
      else { loaded := [storedFor content header], outcome := .returned 0 } := by
  obtain ⟨bytes, count, returned⟩ := serves.readAll_stores header.offset header.filesz
  unfold loadSegment storedFor
  simp only [returned, bytes]

theorem loadHeaders_loaded (serves : file.Serves content) (entry phentsize left hoff : Nat) :
    (loadHeaders config file entry phentsize left hoff).loaded =
      (acceptedFrom config content phentsize left hoff).map (storedFor content) := by
  induction left generalizing hoff with
  | zero => rfl
  | succ left ih =>
      rw [loadHeaders, acceptedFrom, serves.readThing _ (by decide)]
      by_cases inside : hoff + ProgramHeader.size ≤ content.length
      · rw [if_pos inside, if_pos inside]
        simp only [loadSegment_serves serves]
        by_cases skipped : (ProgramHeader.ofBytes (slice content hoff ProgramHeader.size)).type ≠ 1
        · simp only [if_pos skipped, List.nil_append, ih]
        · by_cases invalid : invalidSegment config
              (ProgramHeader.ofBytes (slice content hoff ProgramHeader.size)) = true
          · simp only [if_neg skipped, if_pos invalid, List.map_nil]
          · simp only [if_neg skipped, if_neg invalid, List.cons_append, List.nil_append,
              List.map_cons, ih]
      · rw [if_neg inside, if_neg inside]
        rfl

/-- Loading stores for the accepted headers and for nothing else. -/
theorem load_loaded (serves : file.Serves content) :
    (load config (some file)).loaded = (accepted config content).map (storedFor content) := by
  have some : 0 < ElfHeader.size := by decide
  have reads := serves.readThing 0 some
  rw [Nat.zero_add] at reads
  simp only [load, accepted, reads]
  by_cases whole : ElfHeader.size ≤ content.length
  · simp only [whole, true_and, if_true]
    split
    · exact loadHeaders_loaded serves _ _ _ _
    · rfl
  · simp only [whole, false_and, if_false, List.map_nil]

/-- A header that lies in the file and is not that of a segment that is stopped. -/
def Takes (config : Config) (content : List UInt8) (hoff : Nat) : Prop :=
  hoff + ProgramHeader.size ≤ content.length ∧
    ((ProgramHeader.ofBytes (slice content hoff ProgramHeader.size)).type = 1 →
      invalidSegment config (ProgramHeader.ofBytes (slice content hoff ProgramHeader.size)) = false)

/-- The next `left` headers are all taken. -/
def Loadable (config : Config) (content : List UInt8) (phentsize : Nat) : Nat → Nat → Prop
  | 0, _ => True
  | left + 1, hoff =>
      Takes config content hoff ∧
        Loadable config content phentsize left ((hoff + phentsize) % 2 ^ 32)

theorem loadHeaders_takes (serves : file.Serves content) {entry phentsize left hoff : Nat}
    (takes : Takes config content hoff) :
    (loadHeaders config file entry phentsize (left + 1) hoff).outcome =
      (loadHeaders config file entry phentsize left ((hoff + phentsize) % 2 ^ 32)).outcome := by
  obtain ⟨inside, guarded⟩ := takes
  rw [loadHeaders, serves.readThing _ (by decide)]
  simp only [if_pos inside, loadSegment_serves serves]
  by_cases skipped : (ProgramHeader.ofBytes (slice content hoff ProgramHeader.size)).type ≠ 1
  · simp only [if_pos skipped]
  · simp only [if_neg skipped, guarded (not_not.mp skipped), Bool.false_eq_true, if_false]

theorem loadHeaders_stops (serves : file.Serves content) {entry phentsize left hoff : Nat}
    (stops : ¬ Takes config content hoff) :
    (loadHeaders config file entry phentsize (left + 1) hoff).outcome = .panicked := by
  rw [loadHeaders, serves.readThing _ (by decide)]
  by_cases inside : hoff + ProgramHeader.size ≤ content.length
  · have refused : ¬ ((ProgramHeader.ofBytes (slice content hoff ProgramHeader.size)).type = 1 →
        invalidSegment config
          (ProgramHeader.ofBytes (slice content hoff ProgramHeader.size)) = false) :=
      fun guarded => stops ⟨inside, guarded⟩
    rw [Classical.not_imp, Bool.not_eq_false] at refused
    simp only [if_pos inside, loadSegment_serves serves]
    rw [if_neg (not_not.mpr refused.1), if_pos refused.2]
  · rw [if_neg inside]

/-- The loop comes back when every header is taken, and panics otherwise. -/
theorem loadHeaders_outcome (serves : file.Serves content) (entry phentsize left hoff : Nat) :
    (loadHeaders config file entry phentsize left hoff).outcome = .returned entry ∧
        Loadable config content phentsize left hoff ∨
      (loadHeaders config file entry phentsize left hoff).outcome = .panicked ∧
        ¬ Loadable config content phentsize left hoff := by
  induction left generalizing hoff with
  | zero => exact Or.inl ⟨rfl, trivial⟩
  | succ left ih =>
      by_cases takes : Takes config content hoff
      · rw [loadHeaders_takes serves takes, Loadable]
        simpa only [takes, true_and] using ih ((hoff + phentsize) % 2 ^ 32)
      · rw [loadHeaders_stops serves takes, Loadable]
        simp only [takes, false_and, not_false_eq_true, and_self, or_true]

/-! ### Where the stores of a segment lie -/

/-- The segment does not leave the 32-bit addresses and all that is stored for it
is the user's. -/
structure Kept (config : Config) (segment : Segment) : Prop where
  noWrap : segment.header.vaddr + max segment.header.filesz segment.header.memsz ≤ 2 ^ 32
  user : ∀ store ∈ segment.stores, UserByte config store.address

/-- How many bytes `bzero` clears behind a segment that ends below 2^32. -/
def cleared (header : ProgramHeader) : Nat :=
  if header.memsz - header.filesz < 2 ^ 31 then header.memsz - header.filesz else 0

/-- The copied and the cleared bytes of the segment fit before the next page that
is not the user's. -/
structure Fits (config : Config) (content : List UInt8) (header : ProgramHeader) : Prop where
  noWrap : header.vaddr + max header.filesz header.memsz ≤ 2 ^ 32
  copied : min header.filesz (content.length - header.offset) ≤ room config header.vaddr
  tail : cleared header ≤ room config (header.vaddr + header.filesz)

theorem bzero_eq {header : ProgramHeader} (high : 0x80000000 ≤ header.vaddr)
    (noWrap : header.vaddr + max header.filesz header.memsz ≤ 2 ^ 32) :
    bzero ((header.vaddr + header.filesz) % 2 ^ 32)
        ((header.memsz + 2 ^ 32 - header.filesz) % 2 ^ 32) =
      storesAt (header.vaddr + header.filesz) (List.replicate (cleared header) 0) := by
  unfold bzero cleared
  by_cases more : header.filesz < header.memsz
  · have count : (header.memsz + 2 ^ 32 - header.filesz) % 2 ^ 32 =
        header.memsz - header.filesz := by omega
    have start : (header.vaddr + header.filesz) % 2 ^ 32 = header.vaddr + header.filesz := by omega
    rw [count, start]
    split
    · rfl
    · rfl
  · have nothing : header.memsz - header.filesz = 0 := by omega
    rw [nothing]
    split
    · have equal : (header.memsz + 2 ^ 32 - header.filesz) % 2 ^ 32 = 0 := by omega
      rw [equal]
      rfl
    · rfl

theorem kept_iff_fits {header : ProgramHeader} (high : 0x80000000 ≤ header.vaddr) :
    Kept config (storedFor content header) ↔ Fits config content header := by
  have parts (noWrap : header.vaddr + max header.filesz header.memsz ≤ 2 ^ 32) :
      (∀ store ∈ (storedFor content header).stores, UserByte config store.address) ↔
        min header.filesz (content.length - header.offset) ≤ room config header.vaddr ∧
          cleared header ≤ room config (header.vaddr + header.filesz) := by
    have clearedLe : cleared header ≤ header.memsz - header.filesz := by
      unfold cleared
      split <;> omega
    have copies := storesAt_user_iff config header.vaddr
      (slice content header.offset header.filesz) high (by rw [length_slice]; omega)
    have clears := storesAt_user_iff config (header.vaddr + header.filesz)
      (List.replicate (cleared header) 0) (by omega) (by rw [List.length_replicate]; omega)
    rw [length_slice] at copies
    rw [List.length_replicate] at clears
    unfold storedFor
    rw [bzero_eq high noWrap, List.forall_mem_append, copies, clears]
  constructor
  · intro kept
    have both := (parts kept.noWrap).mp kept.user
    exact ⟨kept.noWrap, both.1, both.2⟩
  · intro fits
    exact ⟨fits.noWrap, (parts fits.noWrap).mpr ⟨fits.copied, fits.tail⟩⟩

theorem acceptedFrom_high {phentsize left hoff : Nat} :
    ∀ header ∈ acceptedFrom config content phentsize left hoff, 0x80000000 ≤ header.vaddr := by
  induction left generalizing hoff with
  | zero =>
      intro header member
      cases member
  | succ left ih =>
      intro header member
      rw [acceptedFrom] at member
      split at member
      · simp only at member
        split at member
        · exact ih header member
        · split at member
          · cases member
          · rename_i guarded
            rcases List.mem_cons.mp member with same | later
            · subst same
              simp only [invalidSegment, Bool.or_eq_true, decide_eq_true_eq, not_or] at guarded
              omega
            · exact ih header later
      · cases member

theorem accepted_high : ∀ header ∈ accepted config content, 0x80000000 ≤ header.vaddr := by
  intro header member
  unfold accepted at member
  simp only at member
  split at member
  · exact acceptedFrom_high header member
  · cases member

/-- Every accepted segment keeps to user memory exactly when every accepted header
fits, whatever the file holds. -/
theorem load_confined (serves : file.Serves content) :
    (∀ segment ∈ (load config (some file)).loaded, Kept config segment) ↔
      ∀ header ∈ accepted config content, Fits config content header := by
  rw [load_loaded serves, List.forall_mem_map]
  constructor
  · intro kept header member
    exact (kept_iff_fits (accepted_high header member)).mp (kept header member)
  · intro fits header member
    exact (kept_iff_fits (accepted_high header member)).mpr (fits header member)

/-! ### Programs of one segment -/

/-- An executable file whose only segment holds the first `filesz` bytes of the
file itself. -/
def oneSegment (vaddr filesz memsz : Nat) : List UInt8 :=
  [0x7F, 0x45, 0x4C, 0x46, 1, 1, 1, 0, 0, 0, 0, 0, 0, 0, 0, 0] ++
    encode 2 2 ++ encode 2 3 ++ encode 4 1 ++ encode 4 0x80000000 ++ encode 4 52 ++ encode 4 0 ++
    encode 4 0 ++ encode 2 52 ++ encode 2 32 ++ encode 2 1 ++ encode 2 0 ++ encode 2 0 ++
    encode 2 0 ++
    encode 4 1 ++ encode 4 0 ++ encode 4 vaddr ++ encode 4 vaddr ++ encode 4 filesz ++
    encode 4 memsz ++ encode 4 7 ++ encode 4 0x1000

theorem length_oneSegment (vaddr filesz memsz : Nat) :
    (oneSegment vaddr filesz memsz).length = 84 := by
  delta oneSegment
  simp only [List.length_append, length_encode, List.length_cons, List.length_nil]

def programFile (vaddr filesz memsz : Nat) : BlockIO :=
  .ofBytes 512 (oneSegment vaddr filesz memsz) BlockIO.sector_positive BlockIO.sector_short
    (by rw [length_oneSegment]; decide)

theorem programFile_serves (vaddr filesz memsz : Nat) :
    (programFile vaddr filesz memsz).Serves (oneSegment vaddr filesz memsz) :=
  BlockIO.ofBytes_serves _ _ _

private theorem oneSegment_accepted :
    accepted usualControllers (oneSegment 0x80000000 84 0x1000) =
      [{ type := 1, offset := 0, vaddr := 0x80000000, filesz := 84, memsz := 0x1000 }] := by
  decide

theorem load_confined_sample :
    (load usualControllers (some (programFile 0x80000000 84 0x1000))).loaded.length = 1 ∧
      ∀ segment ∈ (load usualControllers (some (programFile 0x80000000 84 0x1000))).loaded,
        Kept usualControllers segment := by
  have serves := programFile_serves 0x80000000 84 0x1000
  constructor
  · rw [load_loaded serves, oneSegment_accepted]
    rfl
  · apply (load_confined serves).mpr
    intro header member
    rw [oneSegment_accepted, List.mem_singleton] at member
    subst member
    exact ⟨by decide, by decide, by decide⟩

/-- The guard lets through a segment that starts inside a controller's page, and
one that runs past the last address. -/
theorem load_overruns :
    ¬ (∀ segment ∈ (load usualControllers (some (programFile 0xFEC00004 1 1))).loaded,
        Kept usualControllers segment) ∧
      ¬ (∀ segment ∈ (load usualControllers (some (programFile 0xFFFFFFFF 2 2))).loaded,
        Kept usualControllers segment) := by
  constructor
  · intro kept
    rw [load_loaded (programFile_serves _ _ _), List.forall_mem_map] at kept
    have inside := kept
      { type := 1, offset := 0, vaddr := 0xFEC00004, filesz := 1, memsz := 1 } (by decide)
    exact absurd ((kept_iff_fits (by decide)).mp inside).copied (by decide)
  · intro kept
    rw [load_loaded (programFile_serves _ _ _), List.forall_mem_map] at kept
    have inside := kept
      { type := 1, offset := 0, vaddr := 0xFFFFFFFF, filesz := 2, memsz := 2 } (by decide)
    exact absurd inside.noWrap (by decide)

end ELF

end AC97Kernel
