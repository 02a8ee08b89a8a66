/-
What kernel/config.cc finds out from the tables of the firmware.

Memory is read at 32-bit addresses and is not changed: the configuration lies apart
from the tables.  What is stored behind the slots of `apicInfo` is kept under its
slot, too, and the loop over the entries of the MADT is given a number of turns.
-/

import AC97Kernel.Library.LittleEndian
import AC97Kernel.Library.Loops
import AC97Kernel.Library.Slices
import Mathlib.Algebra.Group.Int.Defs
import Mathlib.Logic.Function.Basic

set_option autoImplicit false

namespace AC97Kernel.Acpi

open LittleEndian Loops Slices

/-- The bytes from an address on. -/
def bytesAt (memory : Nat → UInt8) (address count : Nat) : List UInt8 :=
  tabulate (fun index => memory ((address + index) % 2 ^ 32)) count

/-- The value of a field. -/
def valueAt (memory : Nat → UInt8) (address count : Nat) : Nat :=
  decode (bytesAt memory address count)

structure MemInfo where
  ax : Nat
  bx : Nat
  cx : Nat
  dx : Nat

structure ApicInfo where
  processorId : Nat
  apicId : Nat
  flags : Nat
  deriving DecidableEq

def MAX_PROCS : Nat := 16

structure Config where
  memSize : Nat
  nOtherProcs : Nat
  totalProcs : Nat
  localAPIC : Nat
  madtFlags : Nat
  ioAPIC : Nat
  apicInfo : Nat → ApicInfo
  oemid : List UInt8

def kConfig : Config :=
  { memSize := 0
    nOtherProcs := 0
    totalProcs := 0
    localAPIC := 0
    madtFlags := 0
    ioAPIC := 0
    apicInfo := fun _ => { processorId := 0, apicId := 0, flags := 0 }
    oemid := List.replicate 7 0 }

/-! ### Finding the tables -/

def iseq (memory : Nat → UInt8) (address : Nat) (name : List UInt8) : Bool :=
  bytesAt memory address name.length = name

/-- `RSD PTR `. -/
def rsdSignature : List UInt8 := [0x52, 0x53, 0x44, 0x20, 0x50, 0x54, 0x52, 0x20]

/-- `APIC`. -/
def madtSignature : List UInt8 := [0x41, 0x50, 0x49, 0x43]

/-- The loop of `findRSDInRange` for so many values of its variable. -/
def searchRSD (memory : Nat → UInt8) : Nat → Nat → Nat
  | 0, _ => 0
  | steps + 1, address =>
      if iseq memory address rsdSignature then address else searchRSD memory steps (address + 16)

def findRSDInRange (memory : Nat → UInt8) (start last : Nat) : Nat :=
  searchRSD memory ((last - start + 15) / 16) start

def findRSD (memory : Nat → UInt8) : Nat :=
  let it := findRSDInRange memory 0x000E0000 0x00100000
  if it = 0 then
    let base := valueAt memory 0x40E 2 <<< 4
    findRSDInRange memory base (base + 1 <<< 10)
  else it

def sizeofSDT : Nat := 36

/-- The loop of `findSDT` from one of the pointers on. -/
def searchSDT (memory : Nat → UInt8) (name : List UInt8) : Nat → Nat → Nat
  | 0, _ => 0
  | entries + 1, address =>
      let h := valueAt memory address 4
      if iseq memory h name then h else searchSDT memory name entries (address + 4)

def findSDT (memory : Nat → UInt8) (rsdp : Nat) (name : List UInt8) : Nat :=
  let rsdt := valueAt memory (rsdp + 16) 4
  let entries := (valueAt memory (rsdt + 4) 4 + 2 ^ 32 - sizeofSDT) % 2 ^ 32 / 4
  searchSDT memory name entries (rsdt + sizeofSDT)

def memAbove1M (memInfo : MemInfo) : Option Nat :=
  if memInfo.cx = 15 * 1024 ∨ memInfo.dx = 0 then
    some ((((memInfo.ax ||| memInfo.cx) <<< 10) + ((memInfo.bx ||| memInfo.dx) <<< 16)) % 2 ^ 32)
  else none

/-! ### The entries of the MADT -/

def sizeofMADT : Nat := 44

/-- The loop over the entries: its two variables and the configuration, with the
entries whose type has been looked at and the slots that have been written. -/
structure Parse where
  entryPtr : Nat
  bytesForEntries : Int
  config : Config
  inspected : List Nat
  slots : List Nat

namespace Parse

def goesOn (parse : Parse) : Bool := parse.bytesForEntries > 0

def addProcessor (parse : Parse) (info : ApicInfo) : Parse :=
  let slot := parse.config.nOtherProcs
  { parse with
    config :=
      { parse.config with
        nOtherProcs := (slot + 1) % 2 ^ 32
        apicInfo := Function.update parse.config.apicInfo slot info }
    slots := parse.slots ++ [slot] }

/-- The body of the loop behind the advance: what is done about the entry at
`entryPtr`. -/
def inspect (memory : Nat → UInt8) (parse : Parse) : Parse :=
  let entryPtr := parse.entryPtr
  let seen : Parse := { parse with inspected := parse.inspected ++ [entryPtr] }
  let type := valueAt memory entryPtr 1
  if type = 0 then
    if valueAt memory (entryPtr + 2) 1 = 0 then seen
    else
      seen.addProcessor
        { processorId := valueAt memory (entryPtr + 2) 1
          apicId := valueAt memory (entryPtr + 3) 1
          flags := valueAt memory (entryPtr + 4) 4 }
  else if type = 1 then
    { seen with config := { seen.config with ioAPIC := valueAt memory (entryPtr + 4) 4 } }
  else seen

/-- One turn of the loop: over the entry at `entryPtr`, and then the next one is
inspected.  Fewer than 2^31 bytes are left, so that the subtraction does not wrap. -/
def turn (memory : Nat → UInt8) (parse : Parse) : Parse :=
  let len := valueAt memory (parse.entryPtr + 1) 1
  inspect memory
    { parse with
      entryPtr := (parse.entryPtr + len) % 2 ^ 32
      bytesForEntries := parse.bytesForEntries - len }

/-- What stands before the loop. -/
def start (memory : Nat → UInt8) (madt : Nat) (config : Config) : Parse :=
  { entryPtr := (madt + sizeofMADT) % 2 ^ 32
    bytesForEntries := ((valueAt memory (madt + 4) 4 : Int) - sizeofMADT).bmod (2 ^ 32)
    config :=
      { config with
        localAPIC := valueAt memory (madt + 36) 4
        madtFlags := valueAt memory (madt + 40) 4
        nOtherProcs := 0 }
    inspected := []
    slots := [] }

end Parse

/-- `configInit` from the MADT on, up to the end of its loop. -/
def parseMADT (turns : Nat) (memory : Nat → UInt8) (madt : Nat) (config : Config) :
    Option Parse :=
  whileLoop Parse.goesOn (fun parse => some (parse.turn memory)) turns
    (.start memory madt config)

def configInit (turns : Nat) (memory : Nat → UInt8) (memInfo : MemInfo) (config : Config) :
    Option Config :=
  (memAbove1M memInfo).bind fun above =>
    let rsdp := findRSD memory
    let config :=
      { config with
        memSize := (above + 1 <<< 20) % 2 ^ 32
        oemid := if rsdp ≠ 0 then bytesAt memory (rsdp + 9) 6 ++ [0] else config.oemid }
    (parseMADT turns memory (findSDT memory rsdp madtSignature) config).map fun parse =>
      { parse.config with totalProcs := (parse.config.nOtherProcs + 1) % 2 ^ 32 }

end AC97Kernel.Acpi
