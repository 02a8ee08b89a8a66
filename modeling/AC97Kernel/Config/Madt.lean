/-
The entries of the MADT and what `configInit` makes of them.

The loop moves on by the length of an entry before it looks at a type, so that what
it inspects is always the entry behind the one whose bytes it has counted off.  It
goes on as long as bytes are left, however short the entries say they are.
-/

import AC97Kernel.Config.Model
import Mathlib.Algebra.GroupWithZero.Nat

set_option autoImplicit false

namespace AC97Kernel.Acpi

open LittleEndian Loops Slices

/-- An entry that is large enough for its type. -/
structure MadtEntry where
  type : UInt8
  body : List UInt8
  short : body.length + 2 < 256
  processorFits : type = 0 → 6 ≤ body.length
  controllerFits : type = 1 → 10 ≤ body.length

namespace MadtEntry

def len (entry : MadtEntry) : Nat := entry.body.length + 2

def bytes (entry : MadtEntry) : List UInt8 := entry.type :: UInt8.ofNat entry.len :: entry.body

def field (entry : MadtEntry) (offset count : Nat) : Nat :=
  decode (slice entry.bytes offset count)

/-- The processor that an entry of type 0 is about, unless it is that of number 0. -/
def processor (entry : MadtEntry) : Option ApicInfo :=
  if entry.type = 0 ∧ entry.field 2 1 ≠ 0 then
    some { processorId := entry.field 2 1, apicId := entry.field 3 1, flags := entry.field 4 4 }
  else none

/-- The address of the controller that an entry of type 1 is about. -/
def controller (entry : MadtEntry) : Option Nat :=
  if entry.type = 1 then some (entry.field 4 4) else none

/-- Where entries that lie one behind the other begin. -/
def addresses : Nat → List MadtEntry → List Nat
  | _, [] => []
  | address, entry :: entries => address :: addresses (address + entry.len) entries

def total (entries : List MadtEntry) : Nat := (entries.map len).sum

@[simp] theorem length_bytes (entry : MadtEntry) : entry.bytes.length = entry.len := rfl

@[simp] theorem total_cons (entry : MadtEntry) (entries : List MadtEntry) :
    total (entry :: entries) = entry.len + total entries := rfl

theorem len_pos (entry : MadtEntry) : 0 < entry.len := Nat.succ_pos _

end MadtEntry

open MadtEntry

/-- A MADT in memory whose entries tile what is behind its header. -/
structure HoldsMADT (memory : Nat → UInt8) (madt : Nat) (entries : List MadtEntry) : Prop where
  length : valueAt memory (madt + 4) 4 = sizeofMADT + total entries
  fits : madt + sizeofMADT + total entries ≤ 2 ^ 32
  tiles : bytesAt memory (madt + sizeofMADT) (total entries) = entries.flatMap bytes

/-- The loop ends, has inspected the entries of the table and nothing else, and leaves
in the configuration what they say. -/
def ParsesExactly (memory : Nat → UInt8) (madt : Nat) (config : Config)
    (entries : List MadtEntry) : Prop :=
  ∃ turns parse, parseMADT turns memory madt config = some parse ∧
    parse.inspected = addresses (madt + sizeofMADT) entries ∧
    parse.config.nOtherProcs = (entries.filterMap processor).length ∧
    (∀ slot info, (entries.filterMap processor)[slot]? = some info →
      parse.config.apicInfo slot = info) ∧
    (∀ address, (entries.filterMap controller).getLast? = some address →
      parse.config.ioAPIC = address) ∧
    ∀ slot ∈ parse.slots, slot < MAX_PROCS

/-! ### One turn -/

variable {memory : Nat → UInt8} {madt base : Nat} {config : Config}
  {entry : MadtEntry} {entries : List MadtEntry} {parse : Parse}

theorem valueAt_byte (memory : Nat → UInt8) (address : Nat) :
    valueAt memory address 1 = (memory (address % 2 ^ 32)).toNat := rfl

/-- An entry that lies in memory shows its length. -/
theorem valueAt_len {count : Nat} {rest : List UInt8}
    (tiles : bytesAt memory base count = entry.bytes ++ rest) :
    valueAt memory (base + 1) 1 = entry.len := by
  have short := entry.short
  have length := congrArg List.length tiles
  rw [bytesAt, length_tabulate, List.length_append, length_bytes, len] at length
  have shown := congrArg (fun bytes => bytes[1]?) tiles
  rw [bytesAt, getElem?_tabulate _ (by omega)] at shown
  have byte : memory ((base + 1) % 2 ^ 32) = UInt8.ofNat entry.len := Option.some.inj shown
  rw [valueAt_byte, byte, UInt8.toNat_ofNat']
  exact Nat.mod_eq_of_lt short

/-- The entries behind the first one begin behind its bytes. -/
theorem tiles_rest (tiles : bytesAt memory base (total (entry :: entries)) =
      (entry :: entries).flatMap bytes) :
    bytesAt memory (base + entry.len) (total entries) = entries.flatMap bytes := by
  have split := slice_tabulate (fun index => memory ((base + index) % 2 ^ 32))
    (total (entry :: entries)) entry.len (total entries)
  have rest : slice (bytesAt memory base (total (entry :: entries))) entry.len (total entries) =
      entries.flatMap bytes := by
    rw [tiles, List.flatMap_cons, slice, ← length_bytes, List.drop_left]
    apply List.take_of_length_le
    have length := congrArg List.length tiles
    rw [bytesAt, length_tabulate, List.flatMap_cons, List.length_append, length_bytes] at length
    rw [total_cons] at length
    omega
  rw [total_cons, Nat.add_sub_cancel_left, Nat.min_self] at split
  rw [← rest, total_cons]
  unfold bytesAt
  rw [split]
  simp only [Nat.add_assoc]

@[simp] theorem inspect_entryPtr : (parse.inspect memory).entryPtr = parse.entryPtr := by
  unfold Parse.inspect
  simp only
  split
  · split <;> rfl
  · split <;> rfl

@[simp] theorem inspect_bytes :
    (parse.inspect memory).bytesForEntries = parse.bytesForEntries := by
  unfold Parse.inspect
  simp only
  split
  · split <;> rfl
  · split <;> rfl

@[simp] theorem inspect_inspected :
    (parse.inspect memory).inspected = parse.inspected ++ [parse.entryPtr] := by
  unfold Parse.inspect
  simp only
  split
  · split <;> rfl
  · split <;> rfl

/-! ### The walk over a table -/

/-- The first of the addresses from an entry on, with that behind the last one. -/
theorem ends_cons (fits : base + (entry.len + total entries) ≤ 2 ^ 32) :
    (base + entry.len) % 2 ^ 32 ::
        (addresses (base + entry.len) entries ++
          [(base + entry.len + total entries) % 2 ^ 32]).tail =
      addresses (base + entry.len) entries ++ [(base + entry.len + total entries) % 2 ^ 32] := by
  cases entries with
  | nil => rfl
  | cons next entries =>
      have some := next.len_pos
      rw [total_cons] at fits
      rw [addresses, List.cons_append, List.tail_cons, Nat.mod_eq_of_lt (by omega)]

/-- With the entries in memory from the pointer on, the loop inspects the one behind
each of them: the first of them it does not, and the bytes behind the last it does. -/
theorem loop_inspects (tiles : bytesAt memory base (total entries) = entries.flatMap bytes)
    (fits : base + total entries ≤ 2 ^ 32) (at' : parse.entryPtr = base % 2 ^ 32)
    (left : parse.bytesForEntries = total entries) :
    ∃ turns final, whileLoop Parse.goesOn (fun parse => some (parse.turn memory)) turns parse =
        some final ∧
      final.inspected = parse.inspected ++
        (addresses base entries ++ [(base + total entries) % 2 ^ 32]).tail := by
  induction entries generalizing base parse with
  | nil =>
      have stops : parse.goesOn = false := by
        unfold Parse.goesOn
        rw [left]
        rfl
      exact ⟨1, parse, whileLoop_done stops, (List.append_nil _).symm⟩
  | cons entry entries ih =>
      have some := entry.len_pos
      rw [total_cons] at left fits
      have goesOn : parse.goesOn = true := by
        unfold Parse.goesOn
        rw [left]
        exact decide_eq_true (by omega)
      have exact : base % 2 ^ 32 = base := Nat.mod_eq_of_lt (by omega)
      have len : valueAt memory (parse.entryPtr + 1) 1 = entry.len := by
        rw [at', exact]
        exact valueAt_len (tiles.trans (List.flatMap_cons))
      have moved : (parse.turn memory).entryPtr = (base + entry.len) % 2 ^ 32 := by
        unfold Parse.turn
        rw [inspect_entryPtr, len, at', exact]
      obtain ⟨turns, final, ran, inspected⟩ := ih (tiles_rest tiles) (by omega) moved (by
        unfold Parse.turn
        rw [inspect_bytes, len, left]
        simp only
        omega)
      have stepped : (fun parse : Parse => Option.some (parse.turn memory)) parse =
          Option.some (parse.turn memory) := rfl
      refine ⟨turns + 1, final, (whileLoop_turn goesOn stepped).trans ran, ?_⟩
      rw [inspected]
      unfold Parse.turn
      rw [inspect_inspected, len, at', exact, total_cons, addresses, List.cons_append,
        List.tail_cons, List.append_assoc, List.singleton_append, ← Nat.add_assoc,
        ends_cons fits]

/-- A table of 2 GB of entries leaves a negative count, any other the exact one. -/
theorem start_bytes (holds : HoldsMADT memory madt entries) (config : Config) :
    (Parse.start memory madt config).bytesForEntries =
      if total entries < 2 ^ 31 then (total entries : Int) else total entries - 2 ^ 32 := by
  have length := holds.length
  have fits := holds.fits
  unfold Parse.start sizeofMADT at *
  simp only
  rw [length, Int.bmod_def]
  split <;> split <;> omega

/-- What the loop inspects of a table is not its entries, unless it has none. -/
theorem inspected_differs (holds : HoldsMADT memory madt (entry :: entries)) {turns : Nat}
    (ran : parseMADT turns memory madt config = some parse) :
    parse.inspected ≠ addresses (madt + sizeofMADT) (entry :: entries) := by
  have fits := holds.fits
  have bytes := start_bytes holds config
  have some := entry.len_pos
  have header : 0 < sizeofMADT := by decide
  rw [total_cons] at fits
  unfold parseMADT at ran
  intro same
  by_cases positive : total (entry :: entries) < 2 ^ 31
  · rw [if_pos positive] at bytes
    obtain ⟨_, final, ranTo, inspected⟩ := loop_inspects holds.tiles holds.fits rfl bytes
    have first : final.inspected = addresses (madt + sizeofMADT + entry.len) entries ++
        [(madt + sizeofMADT + entry.len + total entries) % 2 ^ 32] := by
      rw [inspected, addresses, total_cons, ← Nat.add_assoc]
      rfl
    rw [whileLoop_unique ran ranTo, first, ← ends_cons fits, addresses] at same
    have heads := (List.cons.inj same).1
    omega
  · rw [if_neg positive] at bytes
    have stops : (Parse.start memory madt config).goesOn = false := by
      unfold Parse.goesOn
      rw [bytes]
      exact decide_eq_false (by rw [total_cons] at *; omega)
    rw [whileLoop_unique ran (whileLoop_done stops : whileLoop _ _ 1 _ = _), addresses] at same
    cases same

/-- `configInit` parses a table as it should exactly when there is nothing to parse. -/
theorem madt_parsed (holds : HoldsMADT memory madt entries) (config : Config) :
    ParsesExactly memory madt config entries ↔ entries = [] := by
  constructor
  · intro exact
    obtain ⟨turns, parse, ran, inspected, _⟩ := exact
    cases entries with
    | nil => rfl
    | cons entry entries => exact absurd inspected (inspected_differs holds ran)
  · intro none
    subst none
    have bytes := start_bytes holds config
    have stops : (Parse.start memory madt config).goesOn = false := by
      unfold Parse.goesOn
      rw [bytes]
      rfl
    refine ⟨1, _, whileLoop_done stops, rfl, rfl, ?_, ?_, ?_⟩
    · intro slot info impossible
      cases impossible
    · intro address impossible
      cases impossible
    · intro slot impossible
      cases impossible

/-- A table at address 1000 with so many bytes of entries, which are given. -/
def tableOf (total : UInt8) (bytes : Nat → UInt8) (address : Nat) : UInt8 :=
  if address = 1004 then 44 + total else if address < 1044 then 0 else bytes (address - 1044)

theorem madt_parsed_sample : ParsesExactly (tableOf 0 fun _ => 0) 1000 kConfig [] :=
  (madt_parsed ⟨by decide, by decide, rfl⟩ kConfig).2 rfl

theorem lonely_short : ([1, 1, 1, 0, 0, 0] : List UInt8).length + 2 < 256 := by decide

theorem lonely_processor : (0 : UInt8) = 0 → 6 ≤ ([1, 1, 1, 0, 0, 0] : List UInt8).length :=
  fun _ => Nat.le_refl 6

theorem lonely_controller : (0 : UInt8) = 1 → 10 ≤ ([1, 1, 1, 0, 0, 0] : List UInt8).length :=
  fun impossible => absurd impossible (by decide)

/-- Processor 1. -/
def lonelyEntry : MadtEntry where
  type := 0
  body := [1, 1, 1, 0, 0, 0]
  short := lonely_short
  processorFits := lonely_processor
  controllerFits := lonely_controller

def lonelyTable : Nat → UInt8 :=
  tableOf 8 fun index => ([0, 8, 1, 1, 1] : List UInt8).getD index 0

/-- The only processor of a table is not seen. -/
theorem madt_of_one_processor :
    HoldsMADT lonelyTable 1000 [lonelyEntry] ∧
      (parseMADT 2 lonelyTable 1000 kConfig).map (fun parse => parse.config.nOtherProcs) =
        some 0 ∧
      ¬ ParsesExactly lonelyTable 1000 kConfig [lonelyEntry] := by
  have holds : HoldsMADT lonelyTable 1000 [lonelyEntry] :=
    ⟨by decide +kernel, by decide, by decide +kernel⟩
  refine ⟨holds, by decide +kernel, fun exact => ?_⟩
  obtain ⟨turns, parse, ran, inspected, _⟩ := exact
  exact inspected_differs holds ran inspected

/-! ### Whether the loop ends -/

/-- The pointer and the bytes that are left. -/
def Parse.place (parse : Parse) : Nat × Int := (parse.entryPtr, parse.bytesForEntries)

/-- From an entry to the one behind it. -/
def advance (memory : Nat → UInt8) (place : Nat × Int) : Nat × Int :=
  ((place.1 + valueAt memory (place.1 + 1) 1) % 2 ^ 32, place.2 - valueAt memory (place.1 + 1) 1)

/-- Where the walk through a table begins. -/
def entriesStart (memory : Nat → UInt8) (madt : Nat) : Nat × Int :=
  ((madt + sizeofMADT) % 2 ^ 32, ((valueAt memory (madt + 4) 4 : Int) - sizeofMADT).bmod (2 ^ 32))

theorem turn_place (memory : Nat → UInt8) (parse : Parse) :
    (parse.turn memory).place = advance memory parse.place := by
  unfold Parse.turn Parse.place
  rw [inspect_entryPtr, inspect_bytes]
  rfl

theorem iterate_place (memory : Nat → UInt8) (parse : Parse) (count : Nat) :
    ((Parse.turn memory)^[count] parse).place = (advance memory)^[count] parse.place := by
  induction count generalizing parse with
  | zero => rfl
  | succ count ih =>
      rw [Function.iterate_succ_apply, ih, turn_place, ← Function.iterate_succ_apply]

section Walk

variable {place : Nat × Int} {count later : Nat}

theorem advance_left (memory : Nat → UInt8) (place : Nat × Int) :
    (advance memory place).2 ≤ place.2 := by
  unfold advance
  simp only
  omega

theorem iterate_left (before : count ≤ later) :
    ((advance memory)^[later] place).2 ≤ ((advance memory)^[count] place).2 := by
  induction later with
  | zero =>
      cases Nat.le_zero.1 before
      exact Int.le_refl _
  | succ later ih =>
      rcases Nat.eq_or_lt_of_le before with same | less
      · subst same
        exact Int.le_refl _
      · rw [Function.iterate_succ_apply']
        exact Int.le_trans (advance_left memory _) (ih (Nat.lt_succ_iff.1 less))

/-- Behind an entry of length 0 is an entry of length 0. -/
theorem iterate_stuck (stuck : valueAt memory (((advance memory)^[count] place).1 + 1) 1 = 0)
    (before : count ≤ later) :
    ((advance memory)^[later] place).2 = ((advance memory)^[count] place).2 ∧
      valueAt memory (((advance memory)^[later] place).1 + 1) 1 = 0 := by
  induction later with
  | zero =>
      rw [Nat.le_zero.1 before] at stuck ⊢
      exact ⟨rfl, stuck⟩
  | succ later ih =>
      rcases Nat.eq_or_lt_of_le before with same | less
      · rw [← same]
        exact ⟨rfl, stuck⟩
      · obtain ⟨left, still⟩ := ih (Nat.lt_succ_iff.1 less)
        rw [Function.iterate_succ_apply']
        unfold advance at *
        simp only at *
        rw [still, left]
        refine ⟨by omega, ?_⟩
        rw [valueAt_byte, Nat.add_zero, Nat.mod_add_mod, ← valueAt_byte]
        exact still

/-- The bytes run out unless the walk comes to an entry of length 0 before. -/
theorem bytes_run_out_iff :
    (∃ count, ((advance memory)^[count] place).2 ≤ 0) ↔
      ∀ count, 0 < ((advance memory)^[count] place).2 →
        valueAt memory (((advance memory)^[count] place).1 + 1) 1 ≠ 0 := by
  constructor
  · intro ends count left stuck
    obtain ⟨last, none⟩ := ends
    rcases Nat.le_total count last with before | after
    · have same := (iterate_stuck stuck before).1
      omega
    · have less : ((advance memory)^[count] place).2 ≤ ((advance memory)^[last] place).2 :=
        iterate_left after
      omega
  · intro moves
    by_contra never
    have left (count : Nat) : ((advance memory)^[count] place).2 ≤ place.2 - count := by
      induction count with
      | zero => simp
      | succ count ih =>
          have some : 0 < ((advance memory)^[count] place).2 := by
            by_contra none
            exact never ⟨count, by omega⟩
          have moved := moves count some
          rw [Function.iterate_succ_apply']
          unfold advance at *
          simp only at *
          omega
    exact never ⟨place.2.toNat, by have last := left place.2.toNat; omega⟩

/-- The loop ends where the bytes run out. -/
theorem loop_ends_iff (memory : Nat → UInt8) (parse : Parse) :
    (∃ turns final, whileLoop Parse.goesOn (fun parse => some (parse.turn memory)) turns parse =
        some final) ↔
      ∀ count, 0 < ((advance memory)^[count] parse.place).2 →
        valueAt memory (((advance memory)^[count] parse.place).1 + 1) 1 ≠ 0 := by
  rw [whileLoop_iterate, ← bytes_run_out_iff]
  apply exists_congr
  intro count
  rw [← iterate_place]
  exact decide_eq_false_iff_not.trans Int.not_lt

end Walk

theorem start_place (memory : Nat → UInt8) (madt : Nat) (config : Config) :
    (Parse.start memory madt config).place = entriesStart memory madt := rfl

/-- The loop of `configInit` ends exactly when the walk through the entries comes to none
of length 0 as long as bytes of the table are left. -/
theorem madt_loop_ends (memory : Nat → UInt8) (madt : Nat) (config : Config) :
    (∃ turns parse, parseMADT turns memory madt config = some parse) ↔
      ∀ count, 0 < ((advance memory)^[count] (entriesStart memory madt)).2 →
        valueAt memory (((advance memory)^[count] (entriesStart memory madt)).1 + 1) 1 ≠ 0 := by
  have loop := loop_ends_iff memory (.start memory madt config)
  rw [start_place] at loop
  exact loop

/-- `configInit` comes back under the same condition, once its assertion holds. -/
theorem configInit_ends (memory : Nat → UInt8) (memInfo : MemInfo) (config : Config) :
    (∃ turns result, configInit turns memory memInfo config = some result) ↔
      (memAbove1M memInfo).isSome = true ∧
        let start := entriesStart memory (findSDT memory (findRSD memory) madtSignature)
        ∀ count, 0 < ((advance memory)^[count] start).2 →
          valueAt memory (((advance memory)^[count] start).1 + 1) 1 ≠ 0 := by
  unfold configInit
  cases memAbove1M memInfo with
  | none => simp
  | some above =>
      have loop := loop_ends_iff memory
        (.start memory (findSDT memory (findRSD memory) madtSignature)
          { config with
            memSize := (above + 1 <<< 20) % 2 ^ 32
            oemid := if findRSD memory ≠ 0 then bytesAt memory (findRSD memory + 9) 6 ++ [0]
              else config.oemid })
      rw [start_place] at loop
      simp only [Option.bind_some, Option.map_eq_some_iff, Option.isSome_some, true_and]
      refine Iff.trans ?_ loop
      constructor
      · intro ends
        obtain ⟨turns, _, parse, ran, _⟩ := ends
        exact ⟨turns, parse, ran⟩
      · intro ends
        obtain ⟨turns, parse, ran⟩ := ends
        exact ⟨turns, _, parse, ran, rfl⟩

/-- An entry of length 0 with two bytes left: the walk stays there. -/
theorem madt_of_zeros :
    ¬ ∃ turns parse, parseMADT turns (tableOf 2 fun _ => 0) 1000 kConfig = some parse := by
  intro ends
  have moves := (loop_ends_iff (tableOf 2 fun _ => 0)
    (.start (tableOf 2 fun _ => 0) 1000 kConfig)).1 ends 0
  exact moves (by decide) (by decide)

end AC97Kernel.Acpi
