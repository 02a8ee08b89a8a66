/-
What an edit leaves alone.

`Aside` is the frame rule between directories: an operation on one directory
changes neither what the others own nor a word of it.  `Extends` is the rule
within a directory: an operation only fills entries that were not present.
-/

import AC97Kernel.Paging.Edits

set_option autoImplicit false

namespace AC97Kernel.VMM

open PhysMem

variable {config : Config} {start : Nat} {exact : Prop} {vm : Vm} {whole free flight : List Nat}
  {pd pdi pti : Nat}

/-- Every directory but `pd` keeps its places, and their frames keep their words. -/
structure Aside (config : Config) (pd : Nat) (vm next : Vm) : Prop where
  places : ∀ place, place.owner ≠ pd → held config next place = held config vm place
  contents : ∀ place frame, place.owner ≠ pd → held config vm place = some frame →
    next.mem.frames frame = vm.mem.frames frame

theorem Aside.refl (config : Config) (pd : Nat) (vm : Vm) : Aside config pd vm vm := by
  constructor
  · intro place _
    rfl
  · intro place frame _ _
    rfl

theorem Aside.trans {middle last : Vm} (first : Aside config pd vm middle)
    (second : Aside config pd middle last) : Aside config pd vm last := by
  constructor
  · intro place other
    exact (second.places place other).trans (first.places place other)
  · intro place frame other holds
    have holdsMiddle := (first.places place other).trans holds
    exact (second.contents place frame other holdsMiddle).trans
      (first.contents place frame other holds)

/-- Entries that are present stay as they are. -/
def Extends (vm next : Vm) : Prop :=
  ∀ pd pdi, vm.Covers pd pdi → ¬ Absent (vm.pde pd pdi) →
    next.pde pd pdi = vm.pde pd pdi ∧
      ∀ pti, ¬ Absent (vm.pte pd pdi pti) → next.pte pd pdi pti = vm.pte pd pdi pti

theorem Extends.refl (vm : Vm) : Extends vm vm :=
  fun _ _ _ _ => ⟨rfl, fun _ _ => rfl⟩

theorem Extends.trans {middle last : Vm} (first : Extends vm middle)
    (second : Extends middle last)
    (sameCovers : ∀ pd pdi, vm.Covers pd pdi → middle.Covers pd pdi) : Extends vm last := by
  intro pd pdi covers present
  obtain ⟨samePde, samePte⟩ := first pd pdi covers present
  have presentMiddle : ¬ Absent (middle.pde pd pdi) := samePde ▸ present
  obtain ⟨nextPde, nextPte⟩ := second pd pdi (sameCovers pd pdi covers) presentMiddle
  refine ⟨nextPde.trans samePde, ?_⟩
  intro pti pagePresent
  have pageMiddle : ¬ Absent (middle.pte pd pdi pti) := samePte pti pagePresent ▸ pagePresent
  exact (nextPte pti pageMiddle).trans (samePte pti pagePresent)

theorem Agrees.extends {next : PhysMem} (agrees : Agrees vm next) :
    Extends vm { vm with mem := next } := by
  intro pd pdi covers present
  refine ⟨agrees.pde_eq (covers.imp And.left And.left) pdi, ?_⟩
  intro pti _
  exact agrees.pte_eq covers present pti

theorem Extends.identity {next : Vm} (extended : Extends vm next) {va : Nat}
    (covers : vm.Covers pd (directoryIndex va)) (aligned : va % 4096 = 0)
    (identity : vm.Identity pd va) : next.Identity pd va := by
  obtain ⟨present, mapped⟩ := identity
  obtain ⟨samePde, samePte⟩ := extended pd (directoryIndex va) covers present
  have pagePresent : ¬ Absent (vm.pte pd (directoryIndex va) (tableIndex va)) := by
    rw [mapped]
    exact present_entry aligned (by decide) rfl
  constructor
  · rw [samePde]
    exact present
  · rw [samePte _ pagePresent]
    exact mapped

/-- A change that touches no frame anyone holds. -/
def Spares (config : Config) (vm : Vm) (next : PhysMem) : Prop :=
  ∀ place frame, held config vm place = some frame → next.frames frame = vm.mem.frames frame

theorem Spares.agrees {next : PhysMem} (spares : Spares config vm next) : Agrees vm next := by
  intro frame structural
  obtain ⟨place, holds, _⟩ := structural.placed config
  exact spares place frame holds

theorem Spares.aside {next : PhysMem} (spares : Spares config vm next) :
    Aside config pd vm { vm with mem := next } := by
  constructor
  · intro place _
    exact spares.agrees.held_eq place
  · intro place frame _ holds
    exact spares place frame holds

theorem Spares.trans {middle last : PhysMem} (first : Spares config vm middle)
    (second : Spares config { vm with mem := middle } last) : Spares config vm last := by
  intro place frame holds
  have holdsMiddle := (first.agrees.held_eq place).trans holds
  exact (second place frame holdsMiddle).trans (first place frame holds)

namespace Owned

theorem alloc_spares (owned : Owned config start exact vm whole free flight) {next : PhysMem}
    {frame : Nat} {left : List Nat} (facts : Allocated start vm.mem free next frame left) :
    Spares config vm next := by
  intro place other holds
  have different : other ≠ frame := by
    intro same
    subst same
    exact facts.fresh (owned.custody.heldKnown place other holds)
  rw [facts.frames, Function.update_of_ne different]

theorem dealloc_spares {frame : Nat}
    (owned : Owned config start exact vm whole free (frame :: flight)) {next : PhysMem}
    (facts : Deallocated start vm.mem free next frame) : Spares config vm next := by
  intro place other holds
  apply facts.frames
  intro same
  subst same
  exact owned.custody.apart place other holds List.mem_cons_self

theorem write_spares (owned : Owned config start exact vm whole free flight) {frame : Nat}
    (member : frame ∈ flight) (words : Nat → Nat) :
    Spares config vm
      { vm.mem with frames := Function.update vm.mem.frames frame words } := by
  intro place other holds
  apply Function.update_of_ne
  intro same
  subst same
  exact owned.custody.apart place other holds member

/-- A new frame that is filled from another one; nothing is translated through it yet. -/
theorem allocCopy (owned : Owned config start exact vm whole free flight) (valid : config.Valid)
    {middle : PhysMem} {frame : Nat} (allocated : vm.mem.allocFrame = some (middle, frame))
    (src words : Nat) :
    ∃ left, Allocated start vm.mem free middle frame left ∧
      Owned config start exact { vm with mem := middle.memcpy frame src words } whole left
        (frame :: flight) ∧
      Spares config vm (middle.memcpy frame src words) := by
  obtain ⟨left, facts, ownedMiddle⟩ := owned.alloc valid allocated
  have notStructural := ownedMiddle.flight_not_structural List.mem_cons_self
  have outstanding := ownedMiddle.custody.flightKnown frame List.mem_cons_self
  refine ⟨left, facts, ownedMiddle.write valid outstanding notStructural _, ?_⟩
  exact (owned.alloc_spares facts).trans (ownedMiddle.write_spares List.mem_cons_self _)

/-- A store into a page of `pd`. -/
theorem page_aside (owned : Owned config start exact vm whole free flight) {frame : Nat}
    (holds : held config vm (.page pd pdi pti) = some frame) (words : Nat → Nat) :
    Aside config pd vm
      { vm with mem := { vm.mem with frames := Function.update vm.mem.frames frame words } } := by
  have agrees : Agrees vm { vm.mem with frames := Function.update vm.mem.frames frame words } := by
    intro other structural
    apply Function.update_of_ne
    intro same
    subst same
    exact owned.page_not_structural holds structural
  constructor
  · intro place _
    exact agrees.held_eq place
  · intro place other foreign otherHolds
    apply Function.update_of_ne
    intro same
    subst same
    have samePlace := owned.custody.single place _ other otherHolds holds
    exact foreign (congrArg Place.owner samePlace)

theorem setPte_aside (owned : Owned config start exact vm whole free flight)
    (covers : vm.Covers pd pdi) (present : ¬ Absent (vm.pde pd pdi)) (pti word : Nat) :
    Aside config pd vm (vm.setPte pd pdi pti word) := by
  constructor
  · intro place foreign
    apply owned.setPte_held covers present
    intro _ same
    exact foreign (congrArg Place.owner same)
  · intro place other foreign holds
    apply Function.update_of_ne
    intro same
    have asTable : held config vm (.table pd pdi) = some other :=
      held_table.mpr ⟨covers, present, same.symm⟩
    exact foreign (congrArg Place.owner (owned.custody.single place _ other holds asTable))

theorem setPde_aside (owned : Owned config start exact vm whole free flight) {word : Nat}
    (replaceable : vm.Replaceable config flight pd pdi word) :
    Aside config pd vm (vm.setPde pd pdi word) := by
  constructor
  · intro place foreign
    rw [owned.setPde_held replaceable, Function.update_of_ne]
    intro same
    exact foreign (congrArg Place.owner same)
  · intro place other foreign holds
    apply Function.update_of_ne
    intro same
    have known : pd = vm.shared ∨ pd ∈ vm.live := replaceable.covers.imp And.left And.left
    have asDirectory : held config vm (.directory pd) = some other :=
      held_directory.mpr ⟨known, same.symm⟩
    exact foreign (congrArg Place.owner (owned.custody.single place _ other holds asDirectory))

theorem setPte_extends (owned : Owned config start exact vm whole free flight)
    (covers : vm.Covers pd pdi) (present : ¬ Absent (vm.pde pd pdi))
    (unused : Absent (vm.pte pd pdi pti)) (word : Nat) :
    Extends vm (vm.setPte pd pdi pti word) := by
  intro otherPd otherPdi otherCovers otherPresent
  refine ⟨owned.setPte_pde covers present (otherCovers.imp And.left And.left) otherPdi pti word, ?_⟩
  intro otherPti pagePresent
  apply owned.setPte_pte_other covers present otherCovers otherPresent
  intro position
  obtain ⟨samePd, samePdi, samePti⟩ := position
  subst samePd samePdi samePti
  exact pagePresent unused

theorem setPde_extends (owned : Owned config start exact vm whole free flight) {word : Nat}
    (known : pd = vm.shared ∨ pd ∈ vm.live) (absent : Absent (vm.pde pd pdi)) :
    Extends vm (vm.setPde pd pdi word) := by
  intro otherPd otherPdi otherCovers otherPresent
  have different : ¬ (otherPd = pd ∧ otherPdi = pdi) := by
    intro same
    obtain ⟨samePd, samePdi⟩ := same
    subst samePd samePdi
    exact otherPresent absent
  refine ⟨setPde_pde_other different vm word, ?_⟩
  intro otherPti _
  exact owned.setPde_pte_other known otherCovers otherPresent different otherPti word

end Owned

end AC97Kernel.VMM
