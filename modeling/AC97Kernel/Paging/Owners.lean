/-
Who owns a frame.

`held` reads the owners off the page tables themselves: a directory owns its
own frame, the tables of its half of the address space and the pages below
them, except for the two APIC pages.  `Owned` is the invariant that every
operation of the memory manager keeps: the allocator is sound, no outstanding
frame has two owners, and the entries have the form the code gives them.
-/

import AC97Kernel.Library.Custody
import AC97Kernel.Paging.Frames

set_option autoImplicit false

namespace AC97Kernel

open PhysMem

/-- The two controllers sit on page boundaries above the memory. -/
structure Config.Valid (config : Config) : Prop where
  memory : config.memSize ≤ 0x80000000
  ioHigh : 0x80000000 ≤ config.ioAPIC
  ioWord : config.ioAPIC < 2 ^ 32
  ioAligned : config.ioAPIC % 4096 = 0
  localHigh : 0x80000000 ≤ config.localAPIC
  localWord : config.localAPIC < 2 ^ 32
  localAligned : config.localAPIC % 4096 = 0

namespace VMM

def Apic (config : Config) (va : Nat) : Prop := va = config.ioAPIC ∨ va = config.localAPIC

/-- The 4 MB that one directory entry covers contain a controller. -/
def ApicSlot (config : Config) (pdi : Nat) : Prop :=
  pdi = directoryIndex config.ioAPIC ∨ pdi = directoryIndex config.localAPIC

instance (config : Config) (va : Nat) : Decidable (Apic config va) :=
  inferInstanceAs (Decidable (_ ∨ _))

instance (config : Config) (pdi : Nat) : Decidable (ApicSlot config pdi) :=
  inferInstanceAs (Decidable (_ ∨ _))

theorem Apic.slot {config : Config} {va : Nat} (apic : Apic config va) :
    ApicSlot config (directoryIndex va) :=
  apic.imp (congrArg directoryIndex) (congrArg directoryIndex)

theorem Apic.high {config : Config} {va : Nat} (apic : Apic config va) (valid : config.Valid) :
    0x80000000 ≤ va := by
  rcases apic with same | same
  · exact same ▸ valid.ioHigh
  · exact same ▸ valid.localHigh

theorem Apic.word {config : Config} {va : Nat} (apic : Apic config va) (valid : config.Valid) :
    va < 2 ^ 32 := by
  rcases apic with same | same
  · exact same ▸ valid.ioWord
  · exact same ▸ valid.localWord

theorem Apic.aligned {config : Config} {va : Nat} (apic : Apic config va) (valid : config.Valid) :
    va % 4096 = 0 := by
  rcases apic with same | same
  · exact same ▸ valid.ioAligned
  · exact same ▸ valid.localAligned

theorem isSpecial_high {config : Config} {va : Nat} (high : 0x80000000 ≤ va) :
    isSpecial config va = true ↔ Apic config va := by
  have notLow : ¬ va < 0x80000000 := Nat.not_lt.mpr high
  simp [isSpecial, Apic, notLow]

/-- The memory with the directories in it. -/
structure Vm where
  mem : PhysMem
  shared : Nat
  live : List Nat

inductive Place where
  | directory (pd : Nat)
  | table (pd pdi : Nat)
  | page (pd pdi pti : Nat)
  deriving DecidableEq

/-- The directory a place belongs to. -/
def Place.owner : Place → Nat
  | .directory pd => pd
  | .table pd _ => pd
  | .page pd _ _ => pd

namespace Vm

def pde (vm : Vm) (pd pdi : Nat) : Nat := vm.mem.frames pd pdi

def pte (vm : Vm) (pd pdi pti : Nat) : Nat := vm.mem.frames (frameOf (vm.pde pd pdi)) pti

/-- The tables that belong to a directory: the lower half of the shared one,
the upper half of every other. -/
def Covers (vm : Vm) (pd pdi : Nat) : Prop :=
  pd = vm.shared ∧ pdi < 512 ∨ pd ∈ vm.live ∧ 512 ≤ pdi ∧ pdi < 1024

def Private (config : Config) (vm : Vm) (pd pdi pti : Nat) : Prop :=
  pd ∈ vm.live ∧ 512 ≤ pdi ∧ pdi < 1024 ∧ pti < 1024 ∧ isSpecial config (address pdi pti) = false

instance (vm : Vm) (pd pdi : Nat) : Decidable (vm.Covers pd pdi) :=
  inferInstanceAs (Decidable (_ ∨ _))

instance (config : Config) (vm : Vm) (pd pdi pti : Nat) :
    Decidable (vm.Private config pd pdi pti) :=
  inferInstanceAs (Decidable (_ ∧ _))

/-- The page at `va` is mapped to itself for the kernel alone. -/
def Identity (vm : Vm) (pd va : Nat) : Prop :=
  ¬ Absent (vm.pde pd (directoryIndex va)) ∧
    vm.pte pd (directoryIndex va) (tableIndex va) = va ||| 3

end Vm

def held (config : Config) (vm : Vm) : Place → Option Nat
  | .directory pd => if pd = vm.shared ∨ pd ∈ vm.live then some pd else none
  | .table pd pdi =>
      if vm.Covers pd pdi ∧ ¬ Absent (vm.pde pd pdi) then some (frameOf (vm.pde pd pdi)) else none
  | .page pd pdi pti =>
      if vm.Private config pd pdi pti ∧ ¬ Absent (vm.pde pd pdi) ∧ ¬ Absent (vm.pte pd pdi pti)
      then some (frameOf (vm.pte pd pdi pti)) else none

variable {config : Config} {vm : Vm} {pd pdi pti frame : Nat}

theorem held_directory :
    held config vm (.directory pd) = some frame ↔
      (pd = vm.shared ∨ pd ∈ vm.live) ∧ pd = frame := by
  simp only [held, Option.ite_none_right_eq_some, Option.some.injEq]

theorem held_table :
    held config vm (.table pd pdi) = some frame ↔
      vm.Covers pd pdi ∧ ¬ Absent (vm.pde pd pdi) ∧ frameOf (vm.pde pd pdi) = frame := by
  simp only [held, Option.ite_none_right_eq_some, Option.some.injEq, and_assoc]

theorem held_page :
    held config vm (.page pd pdi pti) = some frame ↔
      vm.Private config pd pdi pti ∧ ¬ Absent (vm.pde pd pdi) ∧
        ¬ Absent (vm.pte pd pdi pti) ∧ frameOf (vm.pte pd pdi pti) = frame := by
  simp only [held, Option.ite_none_right_eq_some, Option.some.injEq, and_assoc]

/-- A directory or a table: the frames that translations are read from. -/
def Structural (vm : Vm) (frame : Nat) : Prop :=
  frame = vm.shared ∨ frame ∈ vm.live ∨
    ∃ pd pdi, vm.Covers pd pdi ∧ ¬ Absent (vm.pde pd pdi) ∧ frameOf (vm.pde pd pdi) = frame

theorem Structural.placed (structural : Structural vm frame) (config : Config) :
    ∃ place, held config vm place = some frame ∧ ∀ pd pdi pti, place ≠ .page pd pdi pti := by
  rcases structural with isShared | isLive | ⟨pd, pdi, covers, present, same⟩
  · exact ⟨.directory frame, held_directory.mpr ⟨Or.inl isShared, rfl⟩,
      fun _ _ _ impossible => by cases impossible⟩
  · exact ⟨.directory frame, held_directory.mpr ⟨Or.inr isLive, rfl⟩,
      fun _ _ _ impossible => by cases impossible⟩
  · exact ⟨.table pd pdi, held_table.mpr ⟨covers, present, same⟩,
      fun _ _ _ impossible => by cases impossible⟩

/-- Two memories agree on every directory and every table. -/
def Agrees (vm : Vm) (next : PhysMem) : Prop :=
  ∀ frame, Structural vm frame → next.frames frame = vm.mem.frames frame

theorem Agrees.pde_eq {next : PhysMem} (agrees : Agrees vm next)
    (known : pd = vm.shared ∨ pd ∈ vm.live) (pdi : Nat) :
    ({ vm with mem := next } : Vm).pde pd pdi = vm.pde pd pdi := by
  have same : next.frames pd = vm.mem.frames pd := by
    rcases known with isShared | isLive
    · exact agrees pd (Or.inl isShared)
    · exact agrees pd (Or.inr (Or.inl isLive))
  exact congrFun same pdi

theorem Agrees.pte_eq {next : PhysMem} (agrees : Agrees vm next) (covers : vm.Covers pd pdi)
    (present : ¬ Absent (vm.pde pd pdi)) (pti : Nat) :
    ({ vm with mem := next } : Vm).pte pd pdi pti = vm.pte pd pdi pti := by
  have known : pd = vm.shared ∨ pd ∈ vm.live := covers.imp And.left And.left
  have same := agrees (frameOf (vm.pde pd pdi)) (Or.inr (Or.inr ⟨pd, pdi, covers, present, rfl⟩))
  unfold Vm.pte
  rw [agrees.pde_eq known]
  exact congrFun same pti

theorem Vm.Private.covers (isPrivate : vm.Private config pd pdi pti) : vm.Covers pd pdi :=
  Or.inr ⟨isPrivate.1, isPrivate.2.1, isPrivate.2.2.1⟩

/-- Translations are read from directories and tables alone. -/
theorem Agrees.held_eq {next : PhysMem} (agrees : Agrees vm next) (place : Place) :
    held config { vm with mem := next } place = held config vm place := by
  cases place with
  | directory pd => rfl
  | table pd pdi =>
      by_cases covers : vm.Covers pd pdi
      · have same := agrees.pde_eq (covers.imp And.left And.left) pdi
        have coversNext : ({ vm with mem := next } : Vm).Covers pd pdi := covers
        simp only [held, covers, coversNext, same]
      · have coversNext : ¬ ({ vm with mem := next } : Vm).Covers pd pdi := covers
        simp only [held, covers, coversNext, false_and, if_false]
  | page pd pdi pti =>
      by_cases isPrivate : vm.Private config pd pdi pti
      · have same := agrees.pde_eq (Or.inr isPrivate.1) pdi
        have privateNext : ({ vm with mem := next } : Vm).Private config pd pdi pti := isPrivate
        by_cases absent : Absent (vm.pde pd pdi)
        · simp only [held]
          rw [same, if_neg (fun entries => entries.2.1 absent),
            if_neg (fun entries => entries.2.1 absent)]
        · have samePage := agrees.pte_eq isPrivate.covers absent pti
          simp only [held, isPrivate, privateNext, same, samePage]
      · have privateNext : ¬ ({ vm with mem := next } : Vm).Private config pd pdi pti := isPrivate
        simp only [held, isPrivate, privateNext, false_and, if_false]

theorem Agrees.identity {next : PhysMem} (agrees : Agrees vm next) {va : Nat}
    (covers : vm.Covers pd (directoryIndex va)) (identity : vm.Identity pd va) :
    ({ vm with mem := next } : Vm).Identity pd va := by
  obtain ⟨present, same⟩ := identity
  constructor
  · rw [agrees.pde_eq (covers.imp And.left And.left)]
    exact present
  · rw [agrees.pte_eq covers present]
    exact same

/-- The invariant.  `free` are the frames on the free list, `flight` the frames
that the running operation has in its hands, and `whole` the directories whose
two controller pages are in place.  When `exact` holds, no outstanding frame is
lost. -/
structure Owned (config : Config) (start : Nat) (exact : Prop) (vm : Vm)
    (whole free flight : List Nat) : Prop where
  sound : vm.mem.Sound start free
  below : vm.mem.limit ≤ 0x80000000
  custody : Custody (held config vm) flight (vm.mem.Outstanding start free) exact
  apart : vm.shared ∉ vm.live
  wholeLive : ∀ pd ∈ whole, pd ∈ vm.live
  apic : ∀ pd ∈ whole, ∀ va, Apic config va → vm.Identity pd va
  kernelHalf : ∀ pd ∈ vm.live, ∀ pdi < 512,
    vm.pde pd pdi = if pdi < sharedEntries config then vm.pde vm.shared pdi else 0
  tableFlags : ∀ pd ∈ vm.live, ∀ pdi, 512 ≤ pdi → pdi < 1024 → ¬ ApicSlot config pdi →
    ¬ Absent (vm.pde pd pdi) → vm.pde pd pdi &&& 7 = 7
  pageFlags : ∀ pd pdi pti, vm.Private config pd pdi pti → ¬ Absent (vm.pde pd pdi) →
    ¬ Absent (vm.pte pd pdi pti) → vm.pte pd pdi pti &&& 7 = 7

namespace Owned

variable {start : Nat} {exact : Prop} {whole free flight : List Nat}

theorem structural_outstanding (owned : Owned config start exact vm whole free flight)
    (structural : Structural vm frame) : vm.mem.Outstanding start free frame := by
  obtain ⟨place, holds, _⟩ := structural.placed config
  exact owned.custody.heldKnown place frame holds

theorem flight_not_structural (owned : Owned config start exact vm whole free flight)
    (member : frame ∈ flight) : ¬ Structural vm frame := by
  intro structural
  obtain ⟨place, holds, _⟩ := structural.placed config
  exact owned.custody.apart place frame holds member

theorem page_not_structural (owned : Owned config start exact vm whole free flight)
    (holds : held config vm (.page pd pdi pti) = some frame) : ¬ Structural vm frame := by
  intro structural
  obtain ⟨place, placeHolds, notPage⟩ := structural.placed config
  exact notPage pd pdi pti (owned.custody.single place _ frame placeHolds holds)

theorem not_shared (owned : Owned config start exact vm whole free flight)
    (live : pd ∈ vm.live) : pd ≠ vm.shared := fun same => owned.apart (same ▸ live)

/-- The slot of a controller is in the upper half. -/
theorem covers_live (valid : config.Valid) (live : pd ∈ vm.live) {va : Nat}
    (apic : Apic config va) : vm.Covers pd (directoryIndex va) :=
  Or.inr ⟨live, directoryIndex_bounds (apic.high valid) (apic.word valid)⟩

theorem covers_apic (owned : Owned config start exact vm whole free flight)
    (valid : config.Valid) (member : pd ∈ whole) {va : Nat} (apic : Apic config va) :
    vm.Covers pd (directoryIndex va) :=
  covers_live valid (owned.wholeLive pd member) apic

/-- The tables of the controllers are there, in the upper half. -/
theorem slot_present (owned : Owned config start exact vm whole free flight)
    (valid : config.Valid) (member : pd ∈ whole) (slot : ApicSlot config pdi) :
    ¬ Absent (vm.pde pd pdi) ∧ 512 ≤ pdi := by
  have there : ∀ va, Apic config va → pdi = directoryIndex va →
      ¬ Absent (vm.pde pd pdi) ∧ 512 ≤ pdi := by
    intro va apic same
    subst same
    exact ⟨(owned.apic pd member va apic).1,
      (directoryIndex_bounds (apic.high valid) (apic.word valid)).1⟩
  rcases slot with same | same
  · exact there _ (Or.inl rfl) same
  · exact there _ (Or.inr rfl) same

/-- A change of memory that leaves directories and tables alone. -/
theorem reframe (owned : Owned config start exact vm whole free flight) (valid : config.Valid)
    {next : PhysMem} {left moved : List Nat} (agrees : Agrees vm next)
    (sound : next.Sound start left) (sameLimit : next.limit = vm.mem.limit)
    (custody : Custody (held config vm) moved (next.Outstanding start left) exact) :
    Owned config start exact { vm with mem := next } whole left moved := by
  constructor
  · exact sound
  · rw [sameLimit]
    exact owned.below
  · exact custody.congr agrees.held_eq (fun _ => Iff.rfl)
  · exact owned.apart
  · exact owned.wholeLive
  · intro pd member va apic
    exact agrees.identity (owned.covers_apic valid member apic) (owned.apic pd member va apic)
  · intro pd member pdi low
    rw [agrees.pde_eq (Or.inr member)]
    change _ = if _ then ({ vm with mem := next } : Vm).pde vm.shared pdi else 0
    rw [agrees.pde_eq (Or.inl rfl)]
    exact owned.kernelHalf pd member pdi low
  · intro pd member pdi lower upper noSlot present
    rw [agrees.pde_eq (Or.inr member)] at present ⊢
    exact owned.tableFlags pd member pdi lower upper noSlot present
  · intro pd pdi pti isPrivate present pagePresent
    have known : vm.Private config pd pdi pti := isPrivate
    rw [agrees.pde_eq (Or.inr known.1)] at present
    rw [agrees.pte_eq known.covers present] at pagePresent ⊢
    exact owned.pageFlags pd pdi pti known present pagePresent

theorem alloc (owned : Owned config start exact vm whole free flight) (valid : config.Valid)
    {next : PhysMem} (allocated : vm.mem.allocFrame = some (next, frame)) :
    ∃ left, Allocated start vm.mem free next frame left ∧
      Owned config start exact { vm with mem := next } whole left (frame :: flight) := by
  obtain ⟨left, facts⟩ := owned.sound.alloc allocated
  have agrees : Agrees vm next := by
    intro other structural
    have different : other ≠ frame := by
      intro same
      subst same
      exact facts.fresh (owned.structural_outstanding structural)
    rw [facts.frames, Function.update_of_ne different]
  exact ⟨left, facts, owned.reframe valid agrees facts.sound facts.limit
    (owned.custody.issue facts.fresh facts.outstanding)⟩

theorem dealloc (owned : Owned config start exact vm whole free (frame :: flight))
    (valid : config.Valid) :
    ∃ next, vm.mem.deallocFrame frame = some next ∧ Deallocated start vm.mem free next frame ∧
      Owned config start exact { vm with mem := next } whole (frame :: free) flight := by
  obtain ⟨next, released, facts⟩ :=
    owned.sound.dealloc (owned.custody.flightKnown frame List.mem_cons_self)
  have agrees : Agrees vm next := by
    intro other structural
    apply facts.frames
    intro same
    subst same
    exact owned.flight_not_structural List.mem_cons_self structural
  exact ⟨next, released, facts, owned.reframe valid agrees facts.sound facts.limit
    (owned.custody.giveBack facts.outstanding)⟩

/-- Writing into an outstanding frame that nothing is translated through. -/
theorem write (owned : Owned config start exact vm whole free flight) (valid : config.Valid)
    (outstanding : vm.mem.Outstanding start free frame) (content : ¬ Structural vm frame)
    (words : Nat → Nat) :
    Owned config start exact
      { vm with mem := { vm.mem with frames := Function.update vm.mem.frames frame words } }
      whole free flight := by
  have kept : ∀ other, other ≠ frame →
      Function.update vm.mem.frames frame words other = vm.mem.frames other :=
    fun other different => Function.update_of_ne different _ _
  apply owned.reframe valid
  · intro other structural
    exact kept other (fun same => content (same ▸ structural))
  · refine owned.sound.congr rfl rfl rfl ?_
    intro other member
    exact congrFun (kept other (fun same => outstanding.2 (same ▸ member))) 0
  · rfl
  · exact owned.custody.congr (fun _ => rfl) (outstanding_congr rfl)

end Owned

end VMM

end AC97Kernel
