/-
Whether an access that faulted succeeds when it is made again.

The entry of a directory keeps the flags of the page it was made for.  The
tables of the controllers are made with the directory, closed to user mode, and
nothing ever opens or removes them.  The faults of the runs below are any faults
at all, also on the controllers' own pages.
-/

import AC97Kernel.Paging.Contract

set_option autoImplicit false

namespace AC97Kernel.VMM

open PhysMem Process

variable {config : Config} {start : Nat} {vm next : Vm} {whole free : List Nat} {pd : Nat}

/-- No promise about the faults. -/
def AnyFault (_vm : Vm) (_pd _address : Nat) : Prop := True

instance (vm : Vm) (pd address : Nat) : Decidable (AnyFault vm pd address) :=
  inferInstanceAs (Decidable True)

/-- Present, writable and open to user mode. -/
def Admits (entry : Nat) : Prop := entry &&& 7 = 7

instance (entry : Nat) : Decidable (Admits entry) := inferInstanceAs (Decidable (_ = _))

/-- User mode may read and write at the address. -/
def Vm.Accessible (vm : Vm) (pd address : Nat) : Prop :=
  Admits (vm.pde pd (directoryIndex address)) ∧
    Admits (vm.pte pd (directoryIndex address) (tableIndex address))

instance (vm : Vm) (pd address : Nat) : Decidable (vm.Accessible pd address) :=
  inferInstanceAs (Decidable (_ ∧ _))

theorem Admits.present {entry : Nat} (admits : Admits entry) : ¬ Absent entry := by
  have masked : (entry &&& 7) &&& 1 = 7 &&& 1 := congrArg (· &&& 1) admits
  rw [Nat.and_assoc] at masked
  intro absent
  change entry &&& 1 = 1 at masked
  rw [absent] at masked
  cases masked

theorem framedown_indices (address : Nat) :
    directoryIndex (framedown address) = directoryIndex address ∧
      tableIndex (framedown address) = tableIndex address := by
  simp only [directoryIndex_eq, tableIndex_eq, framedown, frameSize]
  omega

/-- What is accessible does not fault. -/
theorem Vm.Accessible.quiet {address : Nat} (accessible : vm.Accessible pd address) :
    ¬ Raises vm pd address true := by
  obtain ⟨sameDirectory, sameTable⟩ := framedown_indices address
  obtain ⟨table, page⟩ := accessible
  intro raised
  unfold Raises Vm.Missing Vm.Unmapped at raised
  rw [sameDirectory, sameTable] at raised
  rcases raised with (noTable | noPage) | ⟨_, closedTable | closedPage⟩
  · exact table.present noTable
  · exact page.present noPage
  · exact user_bit table closedTable
  · exact user_bit page closedPage

/-- The invariant of any run: `Owned` without the promise that the controllers
are mapped to themselves, and their tables are there and closed. -/
structure Enclosed (config : Config) (start : Nat) (vm : Vm) (whole free : List Nat) : Prop where
  owned : Owned config start False vm whole free []
  tables : ∀ pd ∈ vm.live, ∀ pdi, ApicSlot config pdi →
    ¬ Absent (vm.pde pd pdi) ∧ vm.pde pd pdi &&& 4 = 0

theorem Aside.directory (aside : Aside config pd vm next) {other : Nat} (live : other ∈ vm.live)
    (different : other ≠ pd) (pdi : Nat) : next.pde other pdi = vm.pde other pdi :=
  congrFun (aside.contents (.directory other) other different
    (held_directory.mpr ⟨Or.inr live, rfl⟩)) pdi

/-- A directory whose controllers are no longer in place. -/
theorem Owned.forget {exact : Prop} {flight : List Nat}
    (owned : Owned config start exact vm whole free flight) (pd : Nat) :
    Owned config start exact vm (whole.filter (· ≠ pd)) free flight := by
  have kept : ∀ other ∈ whole.filter (· ≠ pd), other ∈ whole :=
    fun other member => List.mem_of_mem_filter member
  constructor
  · exact owned.sound
  · exact owned.below
  · exact owned.custody
  · exact owned.apart
  · exact fun other member => owned.wholeLive other (kept other member)
  · exact fun other member => owned.apic other (kept other member)
  · exact owned.kernelHalf
  · exact owned.tableFlags
  · exact owned.pageFlags

theorem Owned.abandon {frame : Nat} {flight : List Nat}
    (owned : Owned config start False vm whole free (frame :: flight)) :
    Owned config start False vm whole free flight := by
  constructor
  · exact owned.sound
  · exact owned.below
  · exact owned.custody.abandon
  · exact owned.apart
  · exact owned.wholeLive
  · exact owned.apic
  · exact owned.kernelHalf
  · exact owned.tableFlags
  · exact owned.pageFlags

/-- `map` puts a frame in place of a controller. -/
theorem Owned.replaceApic {va pa : Nat} {mem : PhysMem}
    (owned : Owned config start False vm whole free [pa]) (valid : config.Valid)
    (live : pd ∈ vm.live) (apic : Apic config va) (ran : map config vm.mem pd va pa = some mem) :
    ∃ left, Owned config start False { vm with mem := mem } (whole.filter (· ≠ pd)) left [] ∧
      Aside config pd vm { vm with mem := mem } := by
  have flagsIs := flagsFor_apic valid apic
  rw [map_eq, flagsIs, Option.map_eq_some_iff] at ran
  obtain ⟨middle, entered, stored⟩ := ran
  subst stored
  have notShared : pd ≠ vm.shared := owned.not_shared live
  have covers : vm.Covers pd (directoryIndex va) :=
    Owned.covers_live valid live apic
  obtain ⟨left, table⟩ := (owned.forget pd).abandon.enterTable valid covers rfl (by decide)
    (fun same => absurd same notShared) (fun noSlot => absurd apic.slot noSlot) entered
  have notPrivate : ¬ ({ vm with mem := middle } : Vm).Private config pd (directoryIndex va)
      (tableIndex va) := fun isPrivate => isPrivate.not_apic valid rfl rfl apic
  refine ⟨left, table.owned.setPte valid covers table.present ?_ ?_ ?_,
    table.aside.trans (table.owned.setPte_aside covers table.present _ _)⟩
  · refine table.owned.custody.congr ?_ (fun _ => Iff.rfl)
    intro place
    exact table.owned.setPte_held covers table.present
      (fun isPrivate => absurd isPrivate notPrivate)
  · intro member
    have filtered := List.of_mem_filter member
    simp at filtered
  · intro isPrivate
    exact absurd isPrivate notPrivate

/-- `map` changes no entry of the directory that is present. -/
theorem Owned.map_entries {exact : Prop} {flight : List Nat} {va pa : Nat} {mem : PhysMem}
    (owned : Owned config start exact vm whole free flight) (valid : config.Valid)
    (live : pd ∈ vm.live) (high : 0x80000000 ≤ va) (word : va < 2 ^ 32)
    (ran : map config vm.mem pd va pa = some mem) {pdi : Nat} (present : ¬ Absent (vm.pde pd pdi)) :
    mem.frames pd pdi = vm.pde pd pdi := by
  rw [map_eq, Option.map_eq_some_iff] at ran
  obtain ⟨middle, entered, stored⟩ := ran
  subst stored
  have notShared : pd ≠ vm.shared := owned.not_shared live
  have covers : vm.Covers pd (directoryIndex va) := Or.inr ⟨live, directoryIndex_bounds high word⟩
  have flags : flagsFor config va % 2 = 1 ∧ flagsFor config va < 8 := by
    unfold flagsFor
    split <;> decide
  have plainFlags : ¬ ApicSlot config (directoryIndex va) → flagsFor config va = 7 := by
    intro noSlot
    have notSpecial : ¬ isSpecial config va = true :=
      fun special => noSlot ((isSpecial_high high).mp special).slot
    rw [flagsFor, if_neg notSpecial]
  obtain ⟨left, table⟩ := owned.enterTable valid covers flags.1 flags.2
    (fun same => absurd same notShared) (fun noSlot _ => plainFlags noSlot) entered
  have stays := table.owned.setPte_pde covers table.present (Or.inr live) pdi
    (tableIndex va) (pa ||| flagsFor config va)
  have kept : pdi ≠ directoryIndex va ∨ ¬ Absent (vm.pde pd (directoryIndex va)) := by
    by_cases here : pdi = directoryIndex va
    · exact Or.inr (here ▸ present)
    · exact Or.inl here
  exact stays.trans (owned.enterTable_others (Or.inr live) entered kept)

namespace Enclosed

/-- An operation on one directory that keeps its entries for the controllers. -/
theorem onDirectory {left : List Nat} {remaining : List Nat}
    (enclosed : Enclosed config start vm whole free)
    (sameLive : next.live = vm.live) (owned : Owned config start False next remaining left [])
    (aside : Aside config pd vm next)
    (own : pd ∈ vm.live → ∀ pdi, ApicSlot config pdi → next.pde pd pdi = vm.pde pd pdi) :
    Enclosed config start next remaining left := by
  refine ⟨owned, ?_⟩
  intro other member pdi slot
  rw [sameLive] at member
  have same : next.pde other pdi = vm.pde other pdi := by
    by_cases here : other = pd
    · subst here
      exact own member pdi slot
    · exact aside.directory member here pdi
  rw [same]
  exact enclosed.tables other member pdi slot

/-- A new directory brings its own closed tables. -/
theorem newDirectory {left : List Nat} (enclosed : Enclosed config start vm whole free)
    (valid : config.Valid) (liveIs : next.live = pd :: vm.live) (fresh : pd ∉ vm.live)
    (owned : Owned config start False next (pd :: whole) left []) (aside : Aside config pd vm next)
    (closed : ∀ pdi, ApicSlot config pdi → next.pde pd pdi &&& 4 = 0) :
    Enclosed config start next (pd :: whole) left := by
  refine ⟨owned, ?_⟩
  intro other member pdi slot
  rw [liveIs] at member
  rcases List.mem_cons.mp member with same | before
  · subst same
    exact ⟨(owned.slot_present valid List.mem_cons_self slot).1, closed pdi slot⟩
  · have different : other ≠ pd := fun same => fresh (same ▸ before)
    rw [aside.directory before different]
    exact enclosed.tables other before pdi slot

theorem pageFault {address : Nat} {mem : PhysMem} (enclosed : Enclosed config start vm whole free)
    (valid : config.Valid) (live : pd ∈ vm.live) (word : address < 2 ^ 32)
    (ran : VMM.pageFault config pd pd pd address vm.mem = some (.resumed mem)) :
    ∃ remaining left, Enclosed config start { vm with mem := mem } remaining left := by
  have aligned := framedown_mod address
  have below := framedown_le address
  have unfolded := ran
  unfold VMM.pageFault at unfolded
  rw [if_pos ⟨rfl, rfl⟩] at unfolded
  by_cases high : 0x80000000 ≤ framedown address
  · simp only [if_pos high] at unfolded
    obtain ⟨⟨middle, pa⟩, allocated, mapped⟩ := Option.bind_eq_some_iff.mp unfolded
    obtain ⟨last, mapRan, resumed⟩ := Option.map_eq_some_iff.mp mapped
    cases resumed
    obtain ⟨rest, facts, ownedMiddle⟩ := enclosed.owned.alloc valid allocated
    have spares := enclosed.owned.alloc_spares facts
    have own : pd ∈ vm.live → ∀ pdi, ApicSlot config pdi →
        ({ vm with mem := mem } : Vm).pde pd pdi = vm.pde pd pdi := by
      intro _ pdi slot
      have sameMiddle := spares.agrees.pde_eq (Or.inr live) pdi
      have present := (enclosed.tables pd live pdi slot).1
      exact (ownedMiddle.map_entries valid live high (by omega) mapRan
        (sameMiddle.symm ▸ present)).trans sameMiddle
    by_cases apic : Apic config (framedown address)
    · obtain ⟨left, ownedNext, aside⟩ := ownedMiddle.replaceApic valid live apic mapRan
      exact ⟨_, left, enclosed.onDirectory rfl ownedNext (spares.aside.trans aside) own⟩
    · rcases enclosed.owned.pageFault valid live word apic
        (fun impossible => absurd impossible id) ran with ⟨exited, _⟩ |
          ⟨_, left, _, resumed, ownedNext, _, aside, _⟩
      · cases exited
      · cases resumed
        exact ⟨whole, left, enclosed.onDirectory rfl ownedNext aside own⟩
  · simp only [if_neg high] at unfolded
    cases unfolded

variable {File Semaphore Output : Type}

/-- One step keeps the invariant. -/
theorem step {action : Action File Semaphore Output} (enclosed : Enclosed config start vm whole free)
    (valid : config.Valid) (permitted : Permitted config AnyFault vm action)
    (stepped : perform config vm action = some next) :
    ∃ remaining left, Enclosed config start next remaining left := by
  have owned := enclosed.owned
  cases action with
  | makePd =>
      obtain ⟨⟨mem, pd⟩, ran, result⟩ := Option.map_eq_some_iff.mp stepped
      subst result
      obtain ⟨left, ownedNext, fresh, aside, _, closed⟩ := owned.makePd valid ran
      refine ⟨_, left, enclosed.newDirectory valid rfl fresh ownedNext aside ?_⟩
      intro pdi slot
      exact closed pdi (ownedNext.slot_present valid List.mem_cons_self slot).2
  | pageFault pd address =>
      obtain ⟨live, word, _⟩ := permitted
      obtain ⟨outcome, ran, result⟩ := Option.map_eq_some_iff.mp stepped
      cases outcome with
      | exited =>
          subst result
          exact ⟨whole, free, enclosed⟩
      | resumed mem =>
          subst result
          exact enclosed.pageFault valid live word ran
  | fork parent output =>
      obtain ⟨forked, ran, result⟩ := Option.map_eq_some_iff.mp stepped
      rcases fork_owned owned valid permitted ran with full | ⟨child, left, childIs, space, closed⟩
      · subst full result
        exact ⟨whole, free, enclosed⟩
      · rw [childIs] at result
        subst result
        exact ⟨_, left,
          enclosed.newDirectory valid rfl space.fresh space.owned space.aside closed⟩
  | deletePrivate pd =>
      obtain ⟨mem, ran, result⟩ := Option.map_eq_some_iff.mp stepped
      subst result
      obtain ⟨last, left, lastRan, ownedNext, aside, _, slots⟩ :=
        owned.deletePrivate valid permitted
      rw [lastRan] at ran
      cases ran
      exact ⟨whole, left, enclosed.onDirectory rfl ownedNext aside (fun _ => slots)⟩
  | deletePd cr3 pd =>
      obtain ⟨mem, ran, result⟩ := Option.map_eq_some_iff.mp stepped
      subst result
      by_cases unused : pd = cr3
      · rw [VMM.deletePd, if_neg (not_not_intro unused)] at ran
        cases ran
      · obtain ⟨last, lastRan, ownedNext, aside⟩ := owned.deletePd valid permitted unused
        rw [lastRan] at ran
        cases ran
        refine ⟨_, _, ownedNext, ?_⟩
        intro other member pdi slot
        obtain ⟨live, different⟩ := List.mem_filter.mp member
        rw [aside.directory live (by simpa using different)]
        exact enclosed.tables other live pdi slot
  | store pd va index word =>
      cases stepped
      obtain ⟨frame, holds⟩ := Option.ne_none_iff_exists'.mp permitted
      have frameIs := (held_page.mp holds).2.2.2
      obtain ⟨ownedNext, aside⟩ := owned.store valid holds index word
      refine ⟨whole, free, enclosed.onDirectory rfl ownedNext aside ?_⟩
      intro live pdi _
      have apart : pd ≠ frame :=
        fun same => owned.page_not_structural holds (Or.inr (Or.inl (same ▸ live)))
      have stays : (vm.store pd va index word).mem.frames pd = vm.mem.frames pd :=
        Function.update_of_ne (frameIs.symm ▸ apart) _ _
      exact congrFun stays pdi

end Enclosed

variable {File Semaphore Output : Type} {booted : Vm}

theorem reached_enclosed {frames : Nat → Nat → Nat} {size : Nat} (valid : config.Valid)
    (real : 0 < start) (within : start + size ≤ config.memSize)
    (boots : boot config frames start size = some booted)
    (reached : (system config AnyFault : StepMachine Vm (Action File Semaphore Output)).Reached
      booted vm) : ∃ whole free, Enclosed config start vm whole free := by
  obtain ⟨nobody, bootFree, bootOwned⟩ := boot_owned False valid real within boots
  apply reached.preserves (fun vm => ∃ whole free, Enclosed config start vm whole free)
  · intro before action after invariant permitted stepped
    obtain ⟨whole, free, enclosed⟩ := invariant
    exact enclosed.step valid permitted stepped
  · refine ⟨[], bootFree, bootOwned, ?_⟩
    rw [nobody]
    intro pd member
    cases member

/-- After a fault off the controllers' own pages the page is accessible, exactly
when its table is none of theirs. -/
theorem Enclosed.progress {address : Nat} (enclosed : Enclosed config start vm whole free)
    (valid : config.Valid) (live : pd ∈ vm.live) (high : 0x80000000 ≤ address)
    (word : address < 2 ^ 32) (plain : ¬ Apic config (framedown address))
    (stepped : perform config vm (.pageFault pd address : Action File Semaphore Output) =
      some next) :
    next.Accessible pd address ↔ ¬ ApicSlot config (directoryIndex address) := by
  obtain ⟨sameDirectory, sameTable⟩ := framedown_indices address
  have aligned := framedown_mod address
  have highPage : 0x80000000 ≤ framedown address := by
    unfold framedown frameSize
    omega
  have below := framedown_le address
  have permitted : Permitted config AnyFault vm
      (.pageFault pd address : Action File Semaphore Output) := ⟨live, word, trivial⟩
  obtain ⟨remaining, left, enclosedNext⟩ := enclosed.step valid permitted stepped
  obtain ⟨outcome, ran, result⟩ := Option.map_eq_some_iff.mp stepped
  rcases enclosed.owned.pageFault valid live word plain (fun impossible => absurd impossible id)
    ran with ⟨_, low⟩ | ⟨mem, rest, frame, resumed, ownedNext, holds, _, _⟩
  · omega
  · subst resumed result
    rw [sameDirectory, sameTable] at holds
    obtain ⟨isPrivate, present, pagePresent, _⟩ := held_page.mp holds
    constructor
    · intro accessible slot
      exact user_bit accessible.1 (enclosedNext.tables pd live _ slot).2
    · intro noSlot
      exact ⟨ownedNext.tableFlags pd live _ isPrivate.2.1 isPrivate.2.2.1 noSlot present,
        ownedNext.pageFlags _ _ _ isPrivate present pagePresent⟩

/-- In every state that the memory manager reaches, whatever faults there were, a
user access off the controllers' pages that faults and is made again is admitted
by both entries, and does not fault again, exactly when the 4 MB around it contain
no controller. -/
theorem demand_paging_progress (valid : config.Valid) {frames : Nat → Nat → Nat} {size : Nat}
    (real : 0 < start) (within : start + size ≤ config.memSize)
    (boots : boot config frames start size = some booted)
    (reached : (system config AnyFault : StepMachine Vm (Action File Semaphore Output)).Reached
      booted vm) {address : Nat} (live : pd ∈ vm.live) (high : 0x80000000 ≤ address)
    (word : address < 2 ^ 32) (plain : ¬ Apic config (framedown address))
    (stepped : perform config vm (.pageFault pd address : Action File Semaphore Output) =
      some next) :
    (next.Accessible pd address ∧ ¬ Raises next pd address true) ↔
      ¬ ApicSlot config (directoryIndex address) := by
  obtain ⟨whole, free, enclosed⟩ := reached_enclosed valid real within boots reached
  rw [← enclosed.progress valid live high word plain stepped]
  exact and_iff_left_of_imp Vm.Accessible.quiet

/-- A process reads its I/O controller, then touches a page far from it. -/
def farRun : List (Action Unit Unit Unit) :=
  [.makePd, .pageFault 0x3000 smallMachine.ioAPIC]

set_option maxRecDepth 100000 in
private theorem farRun_comes_back :
    ∃ booted ∈ boot smallMachine (fun _ _ => 0) 0x1000 0xF000,
      (system smallMachine AnyFault).Lawful booted farRun ∧
        ∃ vm ∈ (system smallMachine AnyFault).run booted farRun, 0x3000 ∈ vm.live ∧
          ((perform smallMachine vm (.pageFault 0x3000 0x80000004 :
            Action Unit Unit Unit)).isSome ∧
          ∃ next ∈ perform smallMachine vm (.pageFault 0x3000 0xFEC01004 :
            Action Unit Unit Unit), ¬ next.Accessible 0x3000 0xFEC01004) := by
  decide +kernel

theorem demand_paging_progress_sample :
    ∃ booted vm next, boot smallMachine (fun _ _ => 0) 0x1000 0xF000 = some booted ∧
      (system smallMachine AnyFault).run booted farRun = some vm ∧
      perform smallMachine vm (.pageFault 0x3000 0x80000004 : Action Unit Unit Unit) = some next ∧
      next.Accessible 0x3000 0x80000004 ∧ ¬ Raises next 0x3000 0x80000004 true := by
  obtain ⟨booted, boots, lawful, vm, ran, live, finished, _⟩ := farRun_comes_back
  obtain ⟨next, stepped⟩ := Option.isSome_iff_exists.mp finished
  exact ⟨booted, vm, next, boots, ran, stepped,
    (demand_paging_progress smallMachine_valid (by decide) (by decide) boots
      ⟨farRun, lawful, ran⟩ live (by decide) (by decide) (by decide) stepped).mpr (by decide)⟩

/-- A page next to the I/O controller stays out of reach after its fault. -/
theorem demand_paging_stalls :
    ∃ booted vm next, boot smallMachine (fun _ _ => 0) 0x1000 0xF000 = some booted ∧
      (system smallMachine AnyFault : StepMachine Vm (Action Unit Unit Unit)).Reached booted vm ∧
      0x3000 ∈ vm.live ∧ ¬ Apic smallMachine (framedown 0xFEC01004) ∧
      perform smallMachine vm (.pageFault 0x3000 0xFEC01004 : Action Unit Unit Unit) =
        some next ∧
      ¬ next.Accessible 0x3000 0xFEC01004 := by
  obtain ⟨booted, boots, lawful, vm, ran, live, _, next, stepped, stalled⟩ := farRun_comes_back
  exact ⟨booted, vm, next, boots, ⟨farRun, lawful, ran⟩, live, by decide, stepped, stalled⟩

end AC97Kernel.VMM
