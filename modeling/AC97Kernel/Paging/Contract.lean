/-
The memory manager as a running system.

The actions are the entry points that change page tables, and stores through
private mappings.  What a run promises about its page faults is a parameter:
`FreshFault` asks for faults on pages that are not mapped, `CleanFault` for what
the hardware raises outside the mapped pages next to a controller, `OtherFault`
only for faults off the controllers' own pages.
-/

import AC97Kernel.Library.StepMachine
import AC97Kernel.Paging.Deletion
import AC97Kernel.Paging.Fork

set_option autoImplicit false

namespace AC97Kernel.VMM

open PhysMem Process Loops

/-- `deletePrivate` and `pageFault` run on a core whose cr3 is the directory.  A
store writes one word of the page mapped at `va`. -/
inductive Action (File Semaphore Output : Type) where
  | makePd
  | pageFault (pd address : Nat)
  | fork (parent : Process File Semaphore Output) (output : Output)
  | deletePrivate (pd : Nat)
  | deletePd (cr3 pd : Nat)
  | store (pd va index word : Nat)

section System

variable {File Semaphore Output : Type}

def Vm.store (vm : Vm) (pd va index word : Nat) : Vm :=
  { vm with
    mem := vm.mem.setWord (frameOf (vm.pte pd (directoryIndex va) (tableIndex va))) index word }

def perform (config : Config) (vm : Vm) : Action File Semaphore Output → Option Vm
  | .makePd =>
      (makePd config vm.shared vm.mem).map fun (mem, pd) =>
        { vm with mem := mem, live := pd :: vm.live }
  | .pageFault pd address =>
      (pageFault config pd pd pd address vm.mem).map fun
        | .resumed mem => { vm with mem := mem }
        | .exited => vm
  | .fork parent output =>
      (fork config vm.shared vm.mem parent output).map fun forked =>
        match forked.child with
        | none => { vm with mem := forked.mem }
        | some child => { vm with mem := forked.mem, live := child.pd :: vm.live }
  | .deletePrivate pd =>
      (deletePrivate config pd pd vm.mem).map fun mem => { vm with mem := mem }
  | .deletePd cr3 pd =>
      (deletePd config cr3 pd vm.mem).map fun mem =>
        { vm with mem := mem, live := vm.live.filter (· ≠ pd) }
  | .store pd va index word => some (vm.store pd va index word)

/-- What the callers keep to; `fault` is the promise about page faults. -/
def Permitted (config : Config) (fault : Vm → Nat → Nat → Prop) (vm : Vm) :
    Action File Semaphore Output → Prop
  | .makePd => True
  | .pageFault pd address => pd ∈ vm.live ∧ address < 2 ^ 32 ∧ fault vm pd address
  | .fork parent _ => parent.pd ∈ vm.live
  | .deletePrivate pd => pd ∈ vm.live
  | .deletePd _ pd => pd ∈ vm.live
  | .store pd va _ _ => held config vm (.page pd (directoryIndex va) (tableIndex va)) ≠ none

def system (config : Config) (fault : Vm → Nat → Nat → Prop) :
    StepMachine Vm (Action File Semaphore Output) :=
  { allowed := Permitted config fault
    step := perform config }

theorem perform_step {config : Config} {fault : Vm → Nat → Nat → Prop} {vm : Vm}
    {action : Action File Semaphore Output} :
    (system config fault).step vm action = perform config vm action :=
  rfl

instance (config : Config) (fault : Vm → Nat → Nat → Prop)
    [∀ vm pd address, Decidable (fault vm pd address)] (vm : Vm)
    (action : Action File Semaphore Output) : Decidable (Permitted config fault vm action) :=
  match action with
  | .makePd => isTrue trivial
  | .pageFault _ _ => inferInstanceAs (Decidable (_ ∧ _ ∧ _))
  | .fork _ _ => inferInstanceAs (Decidable (_ ∈ _))
  | .deletePrivate _ => inferInstanceAs (Decidable (_ ∈ _))
  | .deletePd _ _ => inferInstanceAs (Decidable (_ ∈ _))
  | .store _ _ _ _ => inferInstanceAs (Decidable (_ ≠ _))

variable {config : Config} {start : Nat} {exact : Prop} {fault : Vm → Nat → Nat → Prop}
  {vm next : Vm} {free : List Nat}

/-- A promise about faults that is enough for the invariant. -/
def Tame (config : Config) (start : Nat) (exact : Prop) (fault : Vm → Nat → Nat → Prop) : Prop :=
  ∀ vm free pd address, Owned config start exact vm vm.live free [] → pd ∈ vm.live →
    address < 2 ^ 32 → fault vm pd address →
      ¬ Apic config (framedown address) ∧
        (exact → 0x80000000 ≤ framedown address →
          vm.Unmapped pd (directoryIndex (framedown address)) (tableIndex (framedown address)))

theorem Owned.store {whole : List Nat} (owned : Owned config start exact vm whole free [])
    (valid : config.Valid) {pd va frame : Nat}
    (holds : held config vm (.page pd (directoryIndex va) (tableIndex va)) = some frame)
    (index word : Nat) :
    Owned config start exact (vm.store pd va index word) whole free [] ∧
      Aside config pd vm (vm.store pd va index word) := by
  have frameIs := (held_page.mp holds).2.2.2
  have outstanding := owned.custody.heldKnown _ frame holds
  have content := owned.page_not_structural holds
  unfold Vm.store
  rw [frameIs]
  exact ⟨owned.write valid outstanding content _, owned.page_aside holds _⟩

/-- One step keeps the invariant. -/
theorem perform_owned {action : Action File Semaphore Output} (valid : config.Valid)
    (tame : Tame config start exact fault) (owned : Owned config start exact vm vm.live free [])
    (permitted : Permitted config fault vm action)
    (stepped : perform config vm action = some next) :
    ∃ left, Owned config start exact next next.live left [] := by
  cases action with
  | makePd =>
      obtain ⟨⟨mem, pd⟩, ran, result⟩ := Option.map_eq_some_iff.mp stepped
      subst result
      obtain ⟨left, ownedNext, _⟩ := owned.makePd valid ran
      exact ⟨left, ownedNext⟩
  | pageFault pd address =>
      obtain ⟨live, word, faulted⟩ := permitted
      obtain ⟨outcome, ran, result⟩ := Option.map_eq_some_iff.mp stepped
      obtain ⟨plain, unused⟩ := tame vm free pd address owned live word faulted
      rcases owned.pageFault valid live word plain unused ran with
        ⟨exited, _⟩ | ⟨mem, left, frame, resumed, ownedNext, _⟩
      · subst exited result
        exact ⟨free, owned⟩
      · subst resumed result
        exact ⟨left, ownedNext⟩
  | fork parent output =>
      obtain ⟨forked, ran, result⟩ := Option.map_eq_some_iff.mp stepped
      rcases fork_owned owned valid permitted ran with full | ⟨child, left, childIs, space, _⟩
      · subst full result
        exact ⟨free, owned⟩
      · rw [childIs] at result
        subst result
        exact ⟨left, space.owned⟩
  | deletePrivate pd =>
      obtain ⟨mem, ran, result⟩ := Option.map_eq_some_iff.mp stepped
      subst result
      obtain ⟨last, left, lastRan, ownedNext, _⟩ := owned.deletePrivate valid permitted
      rw [lastRan] at ran
      cases ran
      exact ⟨left, ownedNext⟩
  | deletePd cr3 pd =>
      obtain ⟨mem, ran, result⟩ := Option.map_eq_some_iff.mp stepped
      subst result
      by_cases unused : pd = cr3
      · rw [deletePd, if_neg (not_not_intro unused)] at ran
        cases ran
      · obtain ⟨last, lastRan, ownedNext, _⟩ := owned.deletePd valid permitted unused
        rw [lastRan] at ran
        cases ran
        exact ⟨_, ownedNext⟩
  | store pd va index word =>
      cases stepped
      obtain ⟨frame, holds⟩ := Option.ne_none_iff_exists'.mp permitted
      exact ⟨free, (owned.store valid holds index word).1⟩

/-- Every state of a run that starts where the kernel boots. -/
theorem reached_owned (exact : Prop) {frames : Nat → Nat → Nat} {size : Nat} {booted : Vm}
    (valid : config.Valid) (tame : Tame config start exact fault) (real : 0 < start)
    (within : start + size ≤ config.memSize) (boots : boot config frames start size = some booted)
    (reached : (system config fault : StepMachine Vm (Action File Semaphore Output)).Reached
      booted vm) : ∃ free, Owned config start exact vm vm.live free [] := by
  obtain ⟨nobody, bootFree, bootOwned⟩ := boot_owned exact valid real within boots
  apply reached.preserves (fun vm => ∃ free, Owned config start exact vm vm.live free [])
  · intro before action after invariant permitted stepped
    obtain ⟨free, owned⟩ := invariant
    exact perform_owned valid tame owned permitted stepped
  · refine ⟨bootFree, ?_⟩
    rw [nobody]
    exact bootOwned

instance instDecidableAllowed (config : Config) (fault : Vm → Nat → Nat → Prop)
    [∀ vm pd address, Decidable (fault vm pd address)] (vm : Vm)
    (action : Action File Semaphore Output) :
    Decidable ((system config fault).allowed vm action) :=
  inferInstanceAs (Decidable (Permitted config fault vm action))

end System

/-- The page of an address, by its two indices, is not mapped. -/
def Vm.Missing (vm : Vm) (pd address : Nat) : Prop :=
  vm.Unmapped pd (directoryIndex (framedown address)) (tableIndex (framedown address))

instance (vm : Vm) (pd address : Nat) : Decidable (vm.Missing pd address) :=
  inferInstanceAs (Decidable (_ ∨ _))

/-- The frame that the page at `va` is mapped to. -/
def Vm.translate (vm : Vm) (pd va : Nat) : Option Nat :=
  if vm.Unmapped pd (directoryIndex va) (tableIndex va) then none
  else some (frameOf (vm.pte pd (directoryIndex va) (tableIndex va)))

section Ownership

/-- A fault in the upper half is taken on a page that is not present. -/
def FreshFault (vm : Vm) (pd address : Nat) : Prop :=
  0x80000000 ≤ framedown address → vm.Missing pd address

instance (vm : Vm) (pd address : Nat) : Decidable (FreshFault vm pd address) :=
  inferInstanceAs (Decidable (_ → _))

variable {config : Config} {start : Nat} {exact : Prop} {vm next : Vm} {whole free : List Nat}
  {pd : Nat}

theorem Vm.Identity.mapped {va : Nat} (identity : vm.Identity pd va) (aligned : va % 4096 = 0) :
    ¬ vm.Unmapped pd (directoryIndex va) (tableIndex va) := by
  intro unmapped
  rcases unmapped with noTable | noPage
  · exact identity.1 noTable
  · rw [identity.2] at noPage
    exact present_entry aligned (by decide) rfl noPage

theorem Vm.Identity.translate {va : Nat} (identity : vm.Identity pd va)
    (aligned : va % 4096 = 0) (word : va < 2 ^ 32) : vm.translate pd va = some va := by
  rw [Vm.translate, if_neg (identity.mapped aligned), identity.2,
    frameOf_entry aligned word (by decide)]

theorem Owned.missing_not_apic (owned : Owned config start exact vm whole free [])
    (valid : config.Valid) (member : pd ∈ whole) {address : Nat}
    (missing : vm.Missing pd address) : ¬ Apic config (framedown address) := by
  intro apic
  exact (owned.apic pd member _ apic).mapped (apic.aligned valid) missing

theorem freshFault_tame (valid : config.Valid) : Tame config start exact FreshFault := by
  intro vm free pd address owned live _ fresh
  constructor
  · intro apic
    exact owned.missing_not_apic valid live (fresh (apic.high valid)) apic
  · intro _ high
    exact fresh high

/-- Every frame handed out so far is on the free list once or has one owner. -/
structure Accounted (config : Config) (start : Nat) (vm : Vm) (free : List Nat) : Prop where
  chained : vm.mem.FreeList free
  freeOut : ∀ frame ∈ free, HandedOut start vm.mem frame
  heldOut : ∀ place frame, held config vm place = some frame → HandedOut start vm.mem frame
  once : ∀ frame, HandedOut start vm.mem frame →
    free.count frame = 1 ∧ (∀ place, held config vm place ≠ some frame) ∨
      free.count frame = 0 ∧ ∃! place, held config vm place = some frame

theorem Owned.accounted (owned : Owned config start True vm whole free []) :
    Accounted config start vm free := by
  constructor
  · exact owned.sound.chain
  · exact owned.sound.known
  · intro place frame holds
    exact (owned.custody.heldKnown place frame holds).1
  · intro frame out
    by_cases member : frame ∈ free
    · refine Or.inl ⟨List.count_eq_one_of_mem owned.sound.distinct member, ?_⟩
      intro place holds
      exact (owned.custody.heldKnown place frame holds).2 member
    · refine Or.inr ⟨List.count_eq_zero.mpr member, ?_⟩
      rcases owned.custody.complete trivial frame ⟨out, member⟩ with impossible | placed
      · cases impossible
      · obtain ⟨place, holds⟩ := placed
        refine ⟨place, holds, ?_⟩
        intro other otherHolds
        exact owned.custody.single other place frame otherHolds holds

/-- What `delete_pd` gives back: the frames of its own directory, each once. -/
structure Returned (config : Config) (vm next : Vm) (pd : Nat) (free : List Nat) : Prop where
  chained : next.mem.FreeList ((framesOf config vm pd).reverse ++ free)
  distinct : (framesOf config vm pd).Nodup
  exactly : ∀ frame, frame ∈ framesOf config vm pd ↔
    ∃ place, place.owner = pd ∧ held config vm place = some frame
  others : ∀ place, place.owner ≠ pd → held config next place = held config vm place

variable {File Semaphore Output : Type}

theorem Owned.returned {cr3 : Nat} (owned : Owned config start exact vm vm.live free [])
    (valid : config.Valid) (live : pd ∈ vm.live)
    (stepped : perform config vm (.deletePd cr3 pd : Action File Semaphore Output) = some next) :
    Returned config vm next pd free := by
  obtain ⟨mem, ran, result⟩ := Option.map_eq_some_iff.mp stepped
  subst result
  by_cases unused : pd = cr3
  · rw [VMM.deletePd, if_neg (not_not_intro unused)] at ran
    cases ran
  · obtain ⟨last, lastRan, ownedNext, aside⟩ := owned.deletePd valid live unused
    rw [lastRan] at ran
    cases ran
    constructor
    · exact ownedNext.sound.chain
    · exact owned.framesOf_nodup pd
    · intro frame
      exact owned.mem_framesOf live
    · exact aside.places

/-- Whatever sequence of operations ran since the kernel booted, no frame is both
free and in use, none has two owners and none is lost, and deleting a directory
gives back exactly its own frames. -/
theorem frame_ownership (valid : config.Valid) {frames : Nat → Nat → Nat} {size : Nat}
    {booted : Vm} (real : 0 < start) (within : start + size ≤ config.memSize)
    (boots : boot config frames start size = some booted)
    (reached : (system config FreshFault : StepMachine Vm (Action File Semaphore Output)).Reached
      booted vm) :
    ∃ free, Accounted config start vm free ∧
      ∀ cr3 pd next, pd ∈ vm.live →
        perform config vm (.deletePd cr3 pd : Action File Semaphore Output) = some next →
          Returned config vm next pd free := by
  obtain ⟨free, owned⟩ := reached_owned True valid (freshFault_tame valid) real within boots reached
  refine ⟨free, owned.accounted, ?_⟩
  intro cr3 pd next live stepped
  exact owned.returned valid live stepped

/-! ### Two machines

The addresses of the controllers are the usual ones.  The small machine keeps runs
short; the other one has its frames from 6 MB on, as the kernel asks for. -/

def smallMachine : Config :=
  { memSize := 0x10000
    ioAPIC := 0xFEC00000
    localAPIC := 0xFEE00000 }

def sixMegabytes : Config :=
  { memSize := 0x609000
    ioAPIC := 0xFEC00000
    localAPIC := 0xFEE00000 }

theorem smallMachine_valid : smallMachine.Valid := by
  constructor <;> decide

theorem sixMegabytes_valid : sixMegabytes.Valid := by
  constructor <;> decide

def sampleProcess (pd : Nat) : Process Unit Unit Unit :=
  { files := fun _ => none
    sems := fun _ => none
    children := fun _ => none
    output := ()
    pd := pd }

/-- A process touches a page, forks and goes away. -/
def sampleRun : List (Action Unit Unit Unit) :=
  [.makePd, .pageFault 0x3000 0x80000004, .fork (sampleProcess 0x3000) (), .deletePd 0 0x3000]

set_option maxRecDepth 100000 in
private theorem sampleRun_comes_back :
    ∃ booted ∈ boot smallMachine (fun _ _ => 0) 0x1000 0xF000,
      (system smallMachine FreshFault).Lawful booted sampleRun ∧
        ((system smallMachine FreshFault).run booted sampleRun).isSome := by
  decide +kernel

theorem frame_ownership_sample :
    ∃ booted vm, boot smallMachine (fun _ _ => 0) 0x1000 0xF000 = some booted ∧
      (system smallMachine FreshFault).run booted sampleRun = some vm ∧
      ∃ free, Accounted smallMachine 0x1000 vm free ∧
        ∀ cr3 pd next, pd ∈ vm.live →
          perform smallMachine vm (.deletePd cr3 pd : Action Unit Unit Unit) = some next →
            Returned smallMachine vm next pd free := by
  obtain ⟨booted, boots, lawful, finished⟩ := sampleRun_comes_back
  obtain ⟨vm, ran⟩ := Option.isSome_iff_exists.mp finished
  exact ⟨booted, vm, boots, ran, frame_ownership smallMachine_valid (by decide) (by decide) boots
    ⟨sampleRun, lawful, ran⟩⟩

end Ownership

section Faults

variable {config : Config} {start : Nat} {exact : Prop} {vm next : Vm} {whole free : List Nat}
  {pd : Nat}

/-- What makes the processor fault: the page is not present, or user mode meets
an entry without the user bit. -/
def Raises (vm : Vm) (pd address : Nat) (user : Bool) : Prop :=
  vm.Missing pd address ∨
    user = true ∧ (vm.pde pd (directoryIndex (framedown address)) &&& 4 = 0 ∨
      vm.pte pd (directoryIndex (framedown address)) (tableIndex (framedown address)) &&& 4 = 0)

instance (vm : Vm) (pd address : Nat) (user : Bool) : Decidable (Raises vm pd address user) :=
  inferInstanceAs (Decidable (_ ∨ _))

/-- User mode reaches for a page that is mapped in the 4 MB of a controller. -/
def Intrudes (config : Config) (vm : Vm) (pd address : Nat) (user : Bool) : Prop :=
  user = true ∧ ApicSlot config (directoryIndex (framedown address)) ∧ ¬ vm.Missing pd address

instance (config : Config) (vm : Vm) (pd address : Nat) (user : Bool) :
    Decidable (Intrudes config vm pd address user) :=
  inferInstanceAs (Decidable (_ ∧ _ ∧ _))

def HardwareFault (vm : Vm) (pd address : Nat) : Prop := ∃ user, Raises vm pd address user

instance (vm : Vm) (pd address : Nat) : Decidable (HardwareFault vm pd address) :=
  inferInstanceAs (Decidable (∃ user, Raises vm pd address user))

def CleanFault (config : Config) (vm : Vm) (pd address : Nat) : Prop :=
  ∃ user, Raises vm pd address user ∧ ¬ Intrudes config vm pd address user

instance (config : Config) (vm : Vm) (pd address : Nat) :
    Decidable (CleanFault config vm pd address) :=
  inferInstanceAs
    (Decidable (∃ user, Raises vm pd address user ∧ ¬ Intrudes config vm pd address user))

theorem user_bit {entry : Nat} (flags : entry &&& 7 = 7) : entry &&& 4 ≠ 0 := by
  rw [user_bit_of_flags flags]
  decide

/-- Away from the controllers user mode faults only where nothing is mapped. -/
theorem Owned.raised_missing (owned : Owned config start exact vm whole free [])
    (live : pd ∈ vm.live) {address : Nat} {user : Bool} (word : address < 2 ^ 32)
    (high : 0x80000000 ≤ framedown address) (raised : Raises vm pd address user)
    (clean : ¬ Intrudes config vm pd address user) : vm.Missing pd address := by
  by_cases missing : vm.Missing pd address
  · exact missing
  · have protected' := raised.resolve_left missing
    have noSlot : ¬ ApicSlot config (directoryIndex (framedown address)) :=
      fun slot => clean ⟨protected'.1, slot, missing⟩
    have plain : ¬ Apic config (framedown address) := fun apic => noSlot apic.slot
    have below := framedown_le address
    have isPrivate := private_of_page live high (by omega) (framedown_mod address) plain
    obtain ⟨present, pagePresent⟩ := not_or.mp missing
    rcases protected'.2 with noTable | noPage
    · exact absurd noTable (user_bit
        (owned.tableFlags pd live _ isPrivate.2.1 isPrivate.2.2.1 noSlot present))
    · exact absurd noPage (user_bit (owned.pageFlags _ _ _ isPrivate present pagePresent))

/-- A fault on a page that is present stores another frame in its entry. -/
theorem Owned.fault_overwrites (owned : Owned config start exact vm vm.live free [])
    (valid : config.Valid) (live : pd ∈ vm.live) {address : Nat} (word : address < 2 ^ 32)
    (high : 0x80000000 ≤ framedown address) (present : ¬ vm.Missing pd address)
    {mem : PhysMem} (ran : VMM.pageFault config pd pd pd address vm.mem = some (.resumed mem)) :
    ({ vm with mem := mem } : Vm).pte pd (directoryIndex (framedown address))
        (tableIndex (framedown address)) ≠
      vm.pte pd (directoryIndex (framedown address)) (tableIndex (framedown address)) := by
  have below := framedown_le address
  have aligned := framedown_mod address
  unfold VMM.pageFault at ran
  rw [if_pos ⟨rfl, rfl⟩] at ran
  simp only [if_pos high] at ran
  obtain ⟨⟨middle, pa⟩, allocated, mapped⟩ := Option.bind_eq_some_iff.mp ran
  obtain ⟨last, mapRan, resumed⟩ := Option.map_eq_some_iff.mp mapped
  cases resumed
  obtain ⟨left, facts, ownedMiddle⟩ := owned.alloc valid allocated
  have agrees := (owned.alloc_spares facts).agrees
  obtain ⟨noTable, noPage⟩ := not_or.mp present
  have covers : vm.Covers pd (directoryIndex (framedown address)) :=
    Or.inr ⟨live, directoryIndex_bounds high (by omega)⟩
  have samePde := agrees.pde_eq (Or.inr live) (directoryIndex (framedown address))
  have presentMiddle : ¬ Absent (({ vm with mem := middle } : Vm).pde pd
      (directoryIndex (framedown address))) := by
    rw [samePde]
    exact noTable
  have entry : ¬ Absent (middle.frames pd (directoryIndex (framedown address))) := presentMiddle
  change map config middle pd (framedown address) pa = some _ at mapRan
  rw [map_eq, VMM.enterTable, if_neg entry] at mapRan
  cases mapRan
  have stored := ownedMiddle.setPte_pte_self covers presentMiddle
    (tableIndex (framedown address)) (pa ||| flagsFor config (framedown address))
  change Vm.pte { vm with mem := middle.setWord _ _ _ } _ _ _ = _ at stored
  intro same
  have entryIs : vm.pte pd (directoryIndex (framedown address)) (tableIndex (framedown address)) =
      pa ||| flagsFor config (framedown address) := same.symm.trans stored
  have smallFlags : flagsFor config (framedown address) < 4096 := by
    unfold flagsFor
    split <;> decide
  have frameIs := frameOf_entry facts.out.2.2 (facts.sound.word facts.out) smallFlags
  by_cases apic : Apic config (framedown address)
  · -- the controller's own address is not a frame of memory
    have identity := (owned.apic pd live _ apic).2
    have controller : frameOf (framedown address ||| 3) = framedown address :=
      frameOf_entry aligned (apic.word valid) (by decide)
    rw [← identity, entryIs, frameIs] at controller
    have inside := facts.out.2.1
    have limit := facts.limit
    have bound := facts.sound.availBelow
    have memory := owned.below
    omega
  · have isPrivate := private_of_page live high (by omega) aligned apic
    have holds : held config vm (.page pd (directoryIndex (framedown address))
        (tableIndex (framedown address))) = some pa := by
      rw [held_page, entryIs]
      exact ⟨isPrivate, noTable, entryIs ▸ noPage, frameIs⟩
    exact facts.fresh (owned.custody.heldKnown _ pa holds)

variable {File Semaphore Output : Type}

/-- A fault that the hardware raises keeps every present entry, exactly when it
is not user mode reaching for a mapped page next to a controller. -/
theorem Owned.fault_extends (owned : Owned config start exact vm vm.live free [])
    (valid : config.Valid) (live : pd ∈ vm.live) {address : Nat} {user : Bool}
    (word : address < 2 ^ 32) (raised : Raises vm pd address user)
    (stepped : perform config vm (.pageFault pd address : Action File Semaphore Output) =
      some next) :
    Extends vm next ↔ ¬ Intrudes config vm pd address user := by
  obtain ⟨outcome, ran, result⟩ := Option.map_eq_some_iff.mp stepped
  constructor
  · intro extended intrudes
    obtain ⟨_, slot, present⟩ := intrudes
    have high : 0x80000000 ≤ framedown address := by
      have ioHigh := valid.ioHigh
      have localHigh := valid.localHigh
      rcases slot with same | same <;> rw [directoryIndex_eq, directoryIndex_eq] at same <;> omega
    cases outcome with
    | exited =>
        unfold VMM.pageFault at ran
        rw [if_pos ⟨rfl, rfl⟩] at ran
        simp only [if_pos high] at ran
        obtain ⟨allocated, _, mapped⟩ := Option.bind_eq_some_iff.mp ran
        obtain ⟨mem, _, impossible⟩ := Option.map_eq_some_iff.mp mapped
        cases impossible
    | resumed mem =>
        subst result
        obtain ⟨noTable, noPage⟩ := not_or.mp present
        have below := framedown_le address
        have covers : vm.Covers pd (directoryIndex (framedown address)) :=
          Or.inr ⟨live, directoryIndex_bounds high (by omega)⟩
        exact owned.fault_overwrites valid live word high present ran
          ((extended pd _ covers noTable).2 _ noPage)
  · intro clean
    by_cases high : 0x80000000 ≤ framedown address
    · have missing := owned.raised_missing live word high raised clean
      have plain := owned.missing_not_apic valid live missing
      rcases owned.pageFault valid live word plain (fun _ _ => missing) ran with
        ⟨exited, _⟩ | ⟨mem, left, frame, resumed, _, _, _, extended⟩
      · subst exited result
        exact Extends.refl vm
      · subst resumed result
        exact extended missing
    · unfold VMM.pageFault at ran
      rw [if_pos ⟨rfl, rfl⟩] at ran
      simp only [if_neg high] at ran
      cases ran
      subst result
      exact Extends.refl vm

theorem cleanFault_tame (valid : config.Valid) : Tame config start exact (CleanFault config) := by
  intro vm free pd address owned live word fault
  obtain ⟨user, raised, clean⟩ := fault
  constructor
  · intro apic
    have missing := owned.raised_missing live word (apic.high valid) raised clean
    exact owned.missing_not_apic valid live missing apic
  · intro _ high
    exact owned.raised_missing live word high raised clean

/-- What a run with clean faults keeps: the controllers stay mapped to
themselves in every directory, and every frame handed out is free or has an
owner. -/
structure MappingsKept (config : Config) (start : Nat) (vm : Vm) : Prop where
  controllers : ∀ pd ∈ vm.live, ∀ va, Apic config va → vm.Identity pd va
  referenced : ∃ free, vm.mem.FreeList free ∧
    ∀ frame, HandedOut start vm.mem frame →
      frame ∈ free ∨ ∃ place, held config vm place = some frame

/-- In every state of a run whose faults are not user accesses to mapped pages in
the 4 MB of a controller, nothing is lost, and the next fault keeps all present
entries exactly when it is not such an access either. -/
theorem page_fault_keeps_mappings (valid : config.Valid) {frames : Nat → Nat → Nat} {size : Nat}
    {booted : Vm} (real : 0 < start) (within : start + size ≤ config.memSize)
    (boots : boot config frames start size = some booted)
    (reached : (system config (CleanFault config) :
      StepMachine Vm (Action File Semaphore Output)).Reached booted vm) :
    MappingsKept config start vm ∧
      ∀ pd address user next, pd ∈ vm.live → address < 2 ^ 32 → Raises vm pd address user →
        perform config vm (.pageFault pd address : Action File Semaphore Output) = some next →
          (Extends vm next ↔ ¬ Intrudes config vm pd address user) := by
  obtain ⟨free, owned⟩ := reached_owned True valid (cleanFault_tame valid) real within
    boots reached
  refine ⟨⟨owned.apic, free, owned.sound.chain, ?_⟩, ?_⟩
  · intro frame out
    by_cases member : frame ∈ free
    · exact Or.inl member
    · rcases owned.custody.complete trivial frame ⟨out, member⟩ with impossible | placed
      · cases impossible
      · exact Or.inr placed
  · intro pd address user next live word raised stepped
    exact owned.fault_extends valid live word raised stepped

/-- One page is mapped far from the controllers, one right next to them. -/
def cleanRun : List (Action Unit Unit Unit) :=
  [.makePd, .pageFault 0x3000 0x80000004, .pageFault 0x3000 0xFEC01000]

set_option maxRecDepth 100000 in
private theorem cleanRun_comes_back :
    ∃ booted ∈ boot smallMachine (fun _ _ => 0) 0x1000 0xF000,
      (system smallMachine (CleanFault smallMachine)).Lawful booted cleanRun ∧
        ((system smallMachine (CleanFault smallMachine)).run booted cleanRun).isSome := by
  decide +kernel

theorem page_fault_keeps_mappings_sample :
    ∃ booted vm, boot smallMachine (fun _ _ => 0) 0x1000 0xF000 = some booted ∧
      (system smallMachine (CleanFault smallMachine)).run booted cleanRun = some vm ∧
      MappingsKept smallMachine 0x1000 vm ∧
        ∀ pd address user next, pd ∈ vm.live → address < 2 ^ 32 → Raises vm pd address user →
          perform smallMachine vm (.pageFault pd address : Action Unit Unit Unit) = some next →
            (Extends vm next ↔ ¬ Intrudes smallMachine vm pd address user) := by
  obtain ⟨booted, boots, lawful, finished⟩ := cleanRun_comes_back
  obtain ⟨vm, ran⟩ := Option.isSome_iff_exists.mp finished
  exact ⟨booted, vm, boots, ran, page_fault_keeps_mappings smallMachine_valid (by decide)
    (by decide) boots ⟨cleanRun, lawful, ran⟩⟩

/-- After the first page; its table is new. -/
def sixMegabytesFirst : PhysMem :=
  let mem : PhysMem :=
    { frames := fun _ _ => 0, firstFree := 0, avail := 0x602000, limit := 0x609000 }
  (((mem.bzero 0x600000).bzero 0x601000).setWord 0x600000 0 0x601003).setWord 0x601000 1 0x1003

/-- After the first page of the second table. -/
def sixMegabytesSecond : PhysMem :=
  let frames := Function.update sixMegabytesFirst.frames 0x601000 fun pti =>
    if 2 ≤ pti ∧ pti < 2 + 1022 then (0 * 1024 + pti) * frameSize ||| 3
    else sixMegabytesFirst.frames 0x601000 pti
  let mem : PhysMem := { sixMegabytesFirst with frames := frames, avail := 0x603000 }
  ((mem.bzero 0x602000).setWord 0x600000 1 0x602003).setWord 0x602000 0 0x400003

def sixMegabytesBooted : Vm where
  mem :=
    { sixMegabytesSecond with
      frames := Function.update sixMegabytesSecond.frames 0x602000 fun pti =>
        if 1 ≤ pti ∧ pti < 1 + 520 then (1 * 1024 + pti) * frameSize ||| 3
        else sixMegabytesSecond.frames 0x602000 pti }
  shared := 0x600000
  live := []

/-- The loop of `global_init` in the stretches of its two tables. -/
theorem sixMegabytes_boots :
    boot sixMegabytes (fun _ _ => 0) 0x600000 0x9000 = some sixMegabytesBooted := by
  have allocated :
      allocFrame { frames := fun _ _ => 0, firstFree := 0, avail := 0x600000, limit := 0x609000 } =
        some ({ frames := Function.update (fun _ _ => 0) 0x600000 fun _ => 0
                firstFree := 0, avail := 0x601000, limit := 0x609000 }, 0x600000) := rfl
  have pages : (sixMegabytes.memSize + frameSize - 1) / frameSize - 1 = 1 + (1022 + (1 + 520)) := by
    decide
  have first : forRange (fun page mem => map sixMegabytes mem 0x600000 (page * frameSize)
      (page * frameSize)) 1 1
        { frames := Function.update (fun _ _ => 0) 0x600000 fun _ => 0
          firstFree := 0, avail := 0x601000, limit := 0x609000 } = some sixMegabytesFirst := rfl
  have firstTable : sixMegabytesFirst.frames 0x600000 0 = 0x601003 := by decide
  have filled := map_stretch sixMegabytes firstTable (by decide) (by decide) (by decide)
    (by decide : 2 + 1022 ≤ 1024)
  have second : forRange (fun page mem => map sixMegabytes mem 0x600000 (page * frameSize)
      (page * frameSize)) (1 + 1 + 1022) 1
        { sixMegabytesFirst with
          frames := Function.update sixMegabytesFirst.frames (frameOf 0x601003) fun pti =>
            if 2 ≤ pti ∧ pti < 2 + 1022 then (0 * 1024 + pti) * frameSize ||| 3
            else sixMegabytesFirst.frames (frameOf 0x601003) pti } = some sixMegabytesSecond := rfl
  have secondTable : sixMegabytesSecond.frames 0x600000 1 = 0x602003 := by decide
  have rest := map_stretch sixMegabytes secondTable (by decide) (by decide) (by decide)
    (by decide : 1 + 520 ≤ 1024)
  have looped : forRange (fun page mem => map sixMegabytes mem 0x600000 (page * frameSize)
      (page * frameSize)) 1 (1 + (1022 + (1 + 520)))
        { frames := Function.update (fun _ _ => 0) 0x600000 fun _ => 0
          firstFree := 0, avail := 0x601000, limit := 0x609000 } =
        some sixMegabytesBooted.mem := by
    rw [forRange_add, first, Option.bind_some, forRange_add]
    rw [filled, Option.bind_some, forRange_add, second, Option.bind_some]
    exact rest
  have started : PhysMem.init (fun _ _ => 0) 0x600000 0x9000 = some
      { frames := fun _ _ => 0, firstFree := 0, avail := 0x600000, limit := 0x609000 } := rfl
  unfold boot globalInit
  rw [started, Option.bind_some, allocated, Option.bind_some]
  simp only [pages, looped, Option.map_some]
  rfl

set_option maxRecDepth 100000 in
/-- The first process reads its own I/O controller page from user mode, and then
forks.  The frame 0x605000 has taken the place of the controller. -/
private theorem intrusion_comes_back :
    ∃ booted ∈ boot sixMegabytes (fun _ _ => 0) 0x600000 0x9000,
      ∃ vm ∈ perform sixMegabytes booted (.makePd : Action Unit Unit Unit),
        0x603000 ∈ vm.live ∧ Raises vm 0x603000 sixMegabytes.ioAPIC true ∧
          Intrudes sixMegabytes vm 0x603000 sixMegabytes.ioAPIC true ∧
          ∃ next ∈ perform sixMegabytes vm
              (.pageFault 0x603000 sixMegabytes.ioAPIC : Action Unit Unit Unit),
            0x603000 ∈ next.live ∧
              next.translate 0x603000 sixMegabytes.ioAPIC = some 0x605000 ∧
              ∃ forked ∈ fork sixMegabytes next.shared next.mem (sampleProcess 0x603000) (),
                ∃ child ∈ forked.child,
                  Vm.translate { next with mem := forked.mem } 0x603000 sixMegabytes.ioAPIC =
                      some 0x605000 ∧
                    Vm.translate { next with mem := forked.mem } child.pd sixMegabytes.ioAPIC =
                      some sixMegabytes.ioAPIC :=
  ⟨sixMegabytesBooted, sixMegabytes_boots, by decide +kernel⟩

theorem page_fault_destroys_mapping :
    ∃ booted vm next, boot sixMegabytes (fun _ _ => 0) 0x600000 0x9000 = some booted ∧
      (system sixMegabytes HardwareFault : StepMachine Vm (Action Unit Unit Unit)).Reached
        booted vm ∧
      0x603000 ∈ vm.live ∧ Raises vm 0x603000 sixMegabytes.ioAPIC true ∧
      perform sixMegabytes vm (.pageFault 0x603000 sixMegabytes.ioAPIC : Action Unit Unit Unit) =
        some next ∧
      ¬ Extends vm next ∧ ¬ next.Identity 0x603000 sixMegabytes.ioAPIC := by
  obtain ⟨booted, boots, vm, made, live, raised, intrudes, next, faulted, _, moved, _⟩ :=
    intrusion_comes_back
  obtain ⟨nobody, free, ownedBoot⟩ := boot_owned True sixMegabytes_valid (by decide) (by decide)
    boots
  have ownedStart : Owned sixMegabytes 0x600000 True booted booted.live free [] := by
    rw [nobody]
    exact ownedBoot
  have permitted : Permitted sixMegabytes (CleanFault sixMegabytes) booted
      (.makePd : Action Unit Unit Unit) := trivial
  obtain ⟨left, owned⟩ := perform_owned sixMegabytes_valid
    (cleanFault_tame sixMegabytes_valid) ownedStart permitted made
  refine ⟨booted, vm, next, boots, ?_, live, raised, faulted, ?_, ?_⟩
  · have makes : (system sixMegabytes HardwareFault).allowed booted
        (.makePd : Action Unit Unit Unit) := trivial
    exact .cons makes made (.refl _ _)
  · intro extended
    exact (owned.fault_extends sixMegabytes_valid live (by decide) raised faulted).mp extended
      intrudes
  · intro identity
    rw [identity.translate (by decide) (by decide)] at moved
    exact absurd moved (by decide)

end Faults

section Isolation

variable {config : Config} {start : Nat} {exact : Prop} {vm next : Vm} {whole free : List Nat}
  {pd : Nat}

/-- No fault is taken on the page of a controller. -/
def OtherFault (config : Config) (_vm : Vm) (_pd address : Nat) : Prop :=
  ¬ Apic config (framedown address)

instance (config : Config) (vm : Vm) (pd address : Nat) :
    Decidable (OtherFault config vm pd address) :=
  inferInstanceAs (Decidable (¬ _))

theorem otherFault_tame : Tame config start False (OtherFault config) :=
  fun _ _ _ _ _ _ _ other => ⟨other, fun impossible => absurd impossible id⟩

/-- A page of the upper half that no controller has. -/
structure PrivatePage (config : Config) (va : Nat) : Prop where
  high : 0x80000000 ≤ va
  word : va < 2 ^ 32
  aligned : va % 4096 = 0
  plain : ¬ Apic config va

theorem translate_private {va : Nat} (live : pd ∈ vm.live) (page : PrivatePage config va) :
    vm.translate pd va = held config vm (.page pd (directoryIndex va) (tableIndex va)) := by
  have isPrivate := private_of_page live page.high page.word page.aligned page.plain
  unfold Vm.translate
  by_cases unmapped : vm.Unmapped pd (directoryIndex va) (tableIndex va)
  · rw [if_pos unmapped, unmapped.held_none]
  · obtain ⟨present, pagePresent⟩ := not_or.mp unmapped
    rw [if_neg unmapped]
    exact (held_page.mpr ⟨isPrivate, present, pagePresent, rfl⟩).symm

/-- What fork does to the two address spaces. -/
structure ForkCopy (config : Config) (vm next : Vm) (parent child : Nat) : Prop where
  mapped : ∀ va, PrivatePage config va →
    (next.translate child va = none ↔ next.translate parent va = none)
  copies : ∀ va, PrivatePage config va → ∀ copy frame, next.translate child va = some copy →
    next.translate parent va = some frame →
      copy ≠ frame ∧ ∀ index < 1024, next.mem.frames copy index = next.mem.frames frame index
  controllers : ∀ va, Apic config va → next.translate child va = next.translate parent va
  kernelHalf : ∀ pdi < 512, next.pde child pdi = next.pde parent pdi
  directory : next.mem.frames parent = vm.mem.frames parent
  tables : ∀ pdi, 512 ≤ pdi → pdi < 1024 → ¬ Absent (vm.pde parent pdi) →
    next.mem.frames (frameOf (vm.pde parent pdi)) = vm.mem.frames (frameOf (vm.pde parent pdi))
  pages : ∀ va, PrivatePage config va → ∀ frame, vm.translate parent va = some frame →
    next.translate parent va = some frame ∧ next.mem.frames frame = vm.mem.frames frame

/-- A store through a private mapping of one directory is not seen in another. -/
def Isolated (config : Config) (vm : Vm) : Prop :=
  ∀ writer ∈ vm.live, ∀ reader ∈ vm.live, writer ≠ reader →
    ∀ target index word, PrivatePage config target → vm.translate writer target ≠ none →
      ∀ va, PrivatePage config va → ∀ frame, vm.translate reader va = some frame →
        (vm.store writer target index word).translate reader va = some frame ∧
          (vm.store writer target index word).mem.frames frame = vm.mem.frames frame

theorem Owned.isolated (owned : Owned config start exact vm vm.live free [])
    (valid : config.Valid) : Isolated config vm := by
  intro writer writerLive reader readerLive different target index word targetPage mapped va page
    frame readable
  rw [translate_private writerLive targetPage] at mapped
  obtain ⟨written, holds⟩ := Option.ne_none_iff_exists'.mp mapped
  have aside := (owned.store valid holds index word).2
  have foreign : (Place.page reader (directoryIndex va) (tableIndex va)).owner ≠ writer :=
    fun same => different same.symm
  rw [translate_private readerLive page] at readable
  have liveAfter : reader ∈ (vm.store writer target index word).live := readerLive
  rw [translate_private liveAfter page, aside.places _ foreign]
  exact ⟨readable, aside.contents _ frame foreign readable⟩

theorem forkCopy_of_space {parent child : Nat} {mem : PhysMem} {left : List Nat}
    (valid : config.Valid) (live : parent ∈ vm.live)
    (space : ForkedSpace config start exact vm { vm with mem := mem, live := child :: vm.live }
      vm.live left parent child) :
    ForkCopy config vm { vm with mem := mem, live := child :: vm.live } parent child := by
  have different : parent ≠ child := fun same => space.fresh (same ▸ live)
  have childLive : child ∈ child :: vm.live := List.mem_cons_self
  have parentLive : parent ∈ child :: vm.live := List.mem_cons_of_mem child live
  have parentPage (va : Nat) (page : PrivatePage config va) :
      Vm.translate { vm with mem := mem, live := child :: vm.live } parent va =
        vm.translate parent va := by
    rw [translate_private parentLive page, translate_private live page]
    exact space.aside.places (.page parent _ _) different
  have kept (place : Place) (frame : Nat) (mine : place.owner = parent)
      (holds : held config vm place = some frame) : mem.frames frame = vm.mem.frames frame :=
    space.aside.contents place frame (fun same => different (mine.symm.trans same)) holds
  constructor
  · intro va page
    rw [parentPage va page, translate_private childLive page, translate_private live page]
    constructor
    · intro nothing
      cases holds : held config vm (.page parent (directoryIndex va) (tableIndex va)) with
      | none => rfl
      | some frame =>
          obtain ⟨copy, copyHolds, _⟩ := space.copied _ _ frame holds
          rw [nothing] at copyHolds
          cases copyHolds
    · exact space.blank _ _
  · intro va page copy frame copyIs frameIs
    have atParent := (parentPage va page).symm.trans frameIs
    rw [translate_private live page] at atParent
    rw [translate_private childLive page] at copyIs
    rw [translate_private parentLive page] at frameIs
    obtain ⟨other, otherHolds, sameWords⟩ := space.copied _ _ frame atParent
    rw [copyIs] at otherHolds
    cases otherHolds
    constructor
    · intro same
      subst same
      have samePlace := space.owned.custody.single _ _ copy copyIs frameIs
      cases samePlace
      exact different rfl
    · intro index small
      exact (sameWords index small).trans (congrFun (kept _ frame rfl atParent) index).symm
  · intro va apic
    have childIdentity := space.owned.apic child List.mem_cons_self va apic
    have parentIdentity := space.owned.apic parent parentLive va apic
    rw [childIdentity.translate (apic.aligned valid) (apic.word valid),
      parentIdentity.translate (apic.aligned valid) (apic.word valid)]
  · intro pdi low
    rw [space.owned.kernelHalf child childLive pdi low,
      space.owned.kernelHalf parent parentLive pdi low]
  · exact kept (.directory parent) parent rfl (held_directory.mpr ⟨Or.inr live, rfl⟩)
  · intro pdi lower upper present
    exact kept (.table parent pdi) _ rfl
      (held_table.mpr ⟨Or.inr ⟨live, lower, upper⟩, present, rfl⟩)
  · intro va page frame translated
    refine ⟨(parentPage va page).trans translated, ?_⟩
    rw [translate_private live page] at translated
    exact kept _ frame rfl translated

variable {File Semaphore Output : Type}

/-- While no fault is taken on a controller's page, fork copies the private pages
and nothing else, and from then on no process sees what another one stores. -/
theorem fork_copies_and_isolates (valid : config.Valid) {frames : Nat → Nat → Nat} {size : Nat}
    {booted : Vm} (real : 0 < start) (within : start + size ≤ config.memSize)
    (boots : boot config frames start size = some booted)
    (reached : (system config (OtherFault config) :
      StepMachine Vm (Action File Semaphore Output)).Reached booted vm)
    {parent child : Process File Semaphore Output} {output : Output}
    {forked : Forked File Semaphore Output} (live : parent.pd ∈ vm.live)
    (ran : fork config vm.shared vm.mem parent output = some forked)
    (succeeds : forked.child = some child) :
    ForkCopy config vm { vm with mem := forked.mem, live := child.pd :: vm.live } parent.pd
        child.pd ∧
      ∀ later, (system config (OtherFault config) :
          StepMachine Vm (Action File Semaphore Output)).Reached
            { vm with mem := forked.mem, live := child.pd :: vm.live } later →
        Isolated config later := by
  obtain ⟨free, owned⟩ := reached_owned False valid otherFault_tame real within boots reached
  rcases fork_owned owned valid live ran with full | ⟨copy, left, copyIs, space, _⟩
  · rw [full] at succeeds
    cases succeeds
  · rw [copyIs] at succeeds
    cases succeeds
    refine ⟨forkCopy_of_space valid live space, ?_⟩
    intro later onward
    obtain ⟨rest, ownedLater⟩ := onward.preserves
      (fun vm => ∃ free, Owned config start False vm vm.live free [])
      (by
        intro before action after invariant permitted stepped
        obtain ⟨free, owned⟩ := invariant
        exact perform_owned valid otherFault_tame owned permitted stepped)
      ⟨left, space.owned⟩
    exact ownedLater.isolated valid

set_option maxRecDepth 100000 in
private theorem isolatedRun_comes_back :
    ∃ booted ∈ boot smallMachine (fun _ _ => 0) 0x1000 0xF000,
      (system smallMachine (OtherFault smallMachine)).Lawful booted cleanRun ∧
        ∃ vm ∈ (system smallMachine (OtherFault smallMachine)).run booted cleanRun,
          0x3000 ∈ vm.live ∧
            ∃ forked ∈ fork smallMachine vm.shared vm.mem (sampleProcess 0x3000) (),
              forked.child.isSome := by
  decide +kernel

theorem fork_copies_and_isolates_sample :
    ∃ booted vm forked child, boot smallMachine (fun _ _ => 0) 0x1000 0xF000 = some booted ∧
      (system smallMachine (OtherFault smallMachine)).run booted cleanRun = some vm ∧
      fork smallMachine vm.shared vm.mem (sampleProcess 0x3000) () = some forked ∧
      forked.child = some child ∧
      ForkCopy smallMachine vm { vm with mem := forked.mem, live := child.pd :: vm.live } 0x3000
        child.pd ∧
      ∀ later, (system smallMachine (OtherFault smallMachine) :
          StepMachine Vm (Action Unit Unit Unit)).Reached
            { vm with mem := forked.mem, live := child.pd :: vm.live } later →
        Isolated smallMachine later := by
  obtain ⟨booted, boots, lawful, vm, ran, live, forked, forks, succeeds⟩ := isolatedRun_comes_back
  obtain ⟨child, childIs⟩ := Option.isSome_iff_exists.mp succeeds
  have liveProcess : (sampleProcess 0x3000).pd ∈ vm.live := live
  exact ⟨booted, vm, forked, child, boots, ran, forks, childIs,
    fork_copies_and_isolates smallMachine_valid (by decide) (by decide) boots
      ⟨cleanRun, lawful, ran⟩ liveProcess forks childIs⟩

/-- After a fault on the controller's page parent and child disagree about it. -/
theorem fork_separates_controller :
    ∃ booted vm forked child, boot sixMegabytes (fun _ _ => 0) 0x600000 0x9000 = some booted ∧
      (system sixMegabytes HardwareFault : StepMachine Vm (Action Unit Unit Unit)).Reached
        booted vm ∧
      0x603000 ∈ vm.live ∧
      fork sixMegabytes vm.shared vm.mem (sampleProcess 0x603000) () = some forked ∧
      forked.child = some child ∧
      Vm.translate { vm with mem := forked.mem } child.pd sixMegabytes.ioAPIC ≠
        Vm.translate { vm with mem := forked.mem } 0x603000 sixMegabytes.ioAPIC := by
  obtain ⟨booted, boots, vm, made, live, raised, _, next, faulted, liveNext, _, forked, forks,
    child, childIs, atParent, atChild⟩ := intrusion_comes_back
  have makes : (system sixMegabytes HardwareFault).allowed booted
      (.makePd : Action Unit Unit Unit) := trivial
  have faults : (system sixMegabytes HardwareFault).allowed vm
      (.pageFault 0x603000 sixMegabytes.ioAPIC : Action Unit Unit Unit) :=
    ⟨live, by decide, true, raised⟩
  refine ⟨booted, next, forked, child, boots, ?_, liveNext, forks, childIs, ?_⟩
  · exact .cons makes (perform_step.trans made) (.cons faults (perform_step.trans faulted)
      (.refl _ _))
  · rw [atParent, atChild]
    decide

end Isolation

end AC97Kernel.VMM
