/-
`map` and the operations built on it: `make_pd`, `global_init` and the page
fault handler.

`map` first sees to it that the directory entry has a table and then stores the
table entry.  The two halves are treated apart; fork uses the first one too.
-/

import AC97Kernel.Paging.Separation

set_option autoImplicit false

namespace AC97Kernel.VMM

open PhysMem Loops

variable {config : Config} {start : Nat} {exact : Prop} {vm : Vm} {whole free flight : List Nat}
  {pd pdi pti : Nat}

/-- `num` in `map`. -/
def flagsFor (config : Config) (va : Nat) : Nat := if isSpecial config va then 3 else 7

/-- A controller is mapped for the kernel alone. -/
theorem flagsFor_apic (valid : config.Valid) {va : Nat} (apic : Apic config va) :
    flagsFor config va = 3 := by
  have special : isSpecial config va = true := (isSpecial_high (apic.high valid)).mpr apic
  simp [flagsFor, special]

/-- A directory entry that is not present gets an empty table. -/
def enterTable (mem : PhysMem) (pd pdi num : Nat) : Option PhysMem :=
  if Absent (mem.frames pd pdi) then
    mem.allocFrame.map fun (mem, frame) => mem.setWord pd pdi (frame ||| num)
  else some mem

theorem setWord_same (mem : PhysMem) (frame index word : Nat) :
    (mem.setWord frame index word).frames frame index = word := by
  simp [setWord]

theorem map_eq (config : Config) (mem : PhysMem) (pd va pa : Nat) :
    map config mem pd va pa =
      (enterTable mem pd (directoryIndex va) (flagsFor config va)).map fun mem =>
        mem.setWord (frameOf (mem.frames pd (directoryIndex va))) (tableIndex va)
          (pa ||| flagsFor config va) := by
  have sameFlags : (if va < 0x80000000 ∨ va = config.ioAPIC ∨ va = config.localAPIC then 3 else 7)
      = flagsFor config va := by
    simp only [flagsFor, isSpecial, Bool.or_eq_true, decide_eq_true_eq, or_assoc]
  unfold map enterTable
  simp only [sameFlags]
  by_cases absent : Absent (mem.frames pd (directoryIndex va))
  · have entry : mem.frames pd (va >>> 22) &&& 1 = 0 := absent
    rw [if_pos entry, if_pos absent, Option.map_map, Option.map_map]
    congr 1
    funext allocated
    simp only [Function.comp_apply, setWord_same]
    rfl
  · have entry : ¬ mem.frames pd (va >>> 22) &&& 1 = 0 := absent
    rw [if_neg entry, if_neg absent]
    rfl

/-- Pages of a table that is there already. -/
theorem map_stretch (config : Config) {mem : PhysMem} {pd pdi entry first count : Nat}
    (entered : mem.frames pd pdi = entry) (present : ¬ Absent entry) (apart : pd ≠ frameOf entry)
    (low : pdi < 512) (inside : first + count ≤ 1024) :
    forRange (fun page mem => map config mem pd (page * frameSize) (page * frameSize))
        (pdi * 1024 + first) count mem =
      some { mem with
        frames := Function.update mem.frames (frameOf entry) fun pti =>
          if first ≤ pti ∧ pti < first + count then (pdi * 1024 + pti) * frameSize ||| 3
          else mem.frames (frameOf entry) pti } := by
  induction count generalizing first mem with
  | zero =>
      have nothing (pti : Nat) : ¬ (first ≤ pti ∧ pti < first + 0) := by omega
      simp only [nothing, if_false, Function.update_eq_self]
      rfl
  | succ count ih =>
      have directory : directoryIndex ((pdi * 1024 + first) * frameSize) = pdi := by
        rw [directoryIndex_eq, frameSize]
        omega
      have table : tableIndex ((pdi * 1024 + first) * frameSize) = first := by
        rw [tableIndex_eq, frameSize]
        omega
      have flags : flagsFor config ((pdi * 1024 + first) * frameSize) = 3 := by
        have user : (pdi * 1024 + first) * frameSize < 0x80000000 := by
          rw [frameSize]
          omega
        simp [flagsFor, isSpecial, user]
      have kept : (mem.setWord (frameOf entry) first
          ((pdi * 1024 + first) * frameSize ||| 3)).frames pd pdi = entry := by
        rw [← entered]
        exact congrFun (Function.update_of_ne (entered ▸ apart) _ _) pdi
      have mapped : map config mem pd ((pdi * 1024 + first) * frameSize)
          ((pdi * 1024 + first) * frameSize) =
            some (mem.setWord (frameOf entry) first ((pdi * 1024 + first) * frameSize ||| 3)) := by
        rw [map_eq, directory, table, flags, enterTable, if_neg (by rwa [entered]),
          Option.map_some, entered]
      rw [forRange, mapped, Option.bind_some, Nat.add_assoc, ih kept (by omega)]
      unfold setWord
      simp only [Function.update_idem, Function.update_self]
      congr 2
      congr 1
      funext pti
      by_cases here : pti = first
      · subst here
        rw [if_neg (by omega), Function.update_self, if_pos (by omega)]
      · rw [Function.update_of_ne here]
        congr 1
        rw [eq_iff_iff]
        omega

/-- What the first half of `map` leaves. -/
structure TableEntered (config : Config) (start : Nat) (exact : Prop) (vm next : Vm)
    (whole left flight : List Nat) (pd pdi : Nat) : Prop where
  owned : Owned config start exact next whole left flight
  present : ¬ Absent (next.pde pd pdi)
  aside : Aside config pd vm next
  extends' : Extends vm next
  pages : ∀ pd pdi pti, held config next (.page pd pdi pti) = held config vm (.page pd pdi pti)
  words : ∀ pd pdi pti frame, held config vm (.page pd pdi pti) = some frame →
    next.mem.frames frame = vm.mem.frames frame

theorem Owned.enterTable {num : Nat} {next : PhysMem}
    (owned : Owned config start exact vm whole free flight) (valid : config.Valid)
    (covers : vm.Covers pd pdi) (odd : num % 2 = 1) (small : num < 8)
    (early : pd = vm.shared → vm.live = [])
    (flags : ¬ ApicSlot config pdi → pd ∈ vm.live → num = 7)
    (ran : enterTable vm.mem pd pdi num = some next) :
    ∃ left, TableEntered config start exact vm { vm with mem := next } whole left flight pd pdi := by
  have known : pd = vm.shared ∨ pd ∈ vm.live := covers.imp And.left And.left
  unfold VMM.enterTable at ran
  by_cases absent : Absent (vm.mem.frames pd pdi)
  · rw [if_pos absent, Option.map_eq_some_iff] at ran
    obtain ⟨⟨middle, frame⟩, allocated, stored⟩ := ran
    subst stored
    obtain ⟨left, facts, ownedMiddle⟩ := owned.alloc valid allocated
    have spares := owned.alloc_spares facts
    have samePde : ({ vm with mem := middle } : Vm).pde pd pdi = vm.pde pd pdi :=
      spares.agrees.pde_eq known pdi
    have absentMiddle : Absent (({ vm with mem := middle } : Vm).pde pd pdi) := by
      rw [samePde]
      exact absent
    have empty : middle.frames frame = fun _ => 0 := by
      rw [facts.frames, Function.update_self]
    obtain ⟨ownedNext, heldIs, present⟩ := ownedMiddle.installTable valid covers
      absentMiddle empty odd small early flags
    have replaceable := ownedMiddle.fresh_replaceable covers absentMiddle empty small
    refine ⟨left, ownedNext, present, ?_, ?_, ?_, ?_⟩
    · exact spares.aside.trans (ownedMiddle.setPde_aside replaceable)
    · exact spares.agrees.extends.trans (ownedMiddle.setPde_extends known absentMiddle)
        (fun _ _ inside => inside)
    · intro otherPd otherPdi otherPti
      have atNext := congrFun heldIs (.page otherPd otherPdi otherPti)
      rw [Function.update_of_ne (by intro impossible; cases impossible)] at atNext
      exact atNext.trans (spares.agrees.held_eq _)
    · intro otherPd otherPdi otherPti other holds
      have notDirectory : other ≠ pd := by
        intro same
        have asDirectory : held config vm (.directory pd) = some other :=
          held_directory.mpr ⟨known, same.symm⟩
        cases owned.custody.single _ _ other holds asDirectory
      exact (Function.update_of_ne notDirectory _ _).trans (spares _ other holds)
  · rw [if_neg absent] at ran
    cases ran
    exact ⟨free, owned, absent, Aside.refl config pd vm, Extends.refl vm, fun _ _ _ => rfl,
      fun _ _ _ _ _ => rfl⟩

/-- A table that is entered now has the flags of the page it is entered for. -/
theorem enterTable_flags {mem next : PhysMem} {num : Nat} (sound : mem.Sound start free)
    (absent : Absent (mem.frames pd pdi)) (small : num < 8)
    (ran : enterTable mem pd pdi num = some next) : next.frames pd pdi &&& 7 = num := by
  rw [enterTable, if_pos absent, Option.map_eq_some_iff] at ran
  obtain ⟨⟨middle, frame⟩, allocated, stored⟩ := ran
  subst stored
  obtain ⟨left, facts⟩ := sound.alloc allocated
  rw [setWord_same]
  exact flags_entry facts.out.2.2 small

/-- No other entry of the directory changes. -/
theorem Owned.enterTable_others {num : Nat} {next : PhysMem}
    (owned : Owned config start exact vm whole free flight)
    (known : pd = vm.shared ∨ pd ∈ vm.live)
    (ran : VMM.enterTable vm.mem pd pdi num = some next) {other : Nat}
    (kept : other ≠ pdi ∨ ¬ Absent (vm.pde pd pdi)) :
    next.frames pd other = vm.pde pd other := by
  unfold VMM.enterTable at ran
  by_cases absent : Absent (vm.mem.frames pd pdi)
  · rw [if_pos absent, Option.map_eq_some_iff] at ran
    obtain ⟨⟨middle, frame⟩, allocated, stored⟩ := ran
    subst stored
    obtain ⟨left, facts⟩ := owned.sound.alloc allocated
    have different : other ≠ pdi := kept.resolve_right (fun present => present absent)
    have stays : (middle.setWord pd pdi (frame ||| num)).frames pd other =
        middle.frames pd other := by
      simp [setWord, different]
    exact stays.trans ((owned.alloc_spares facts).agrees.pde_eq known other)
  · rw [if_neg absent] at ran
    cases ran
    rfl

section Pages

/-- Nothing is mapped at the page with these indices. -/
def Vm.Unmapped (vm : Vm) (pd pdi pti : Nat) : Prop :=
  Absent (vm.pde pd pdi) ∨ Absent (vm.pte pd pdi pti)

instance (vm : Vm) (pd pdi pti : Nat) : Decidable (vm.Unmapped pd pdi pti) :=
  inferInstanceAs (Decidable (_ ∨ _))

theorem Vm.Unmapped.held_none (unmapped : vm.Unmapped pd pdi pti) (config : Config) :
    held config vm (.page pd pdi pti) = none := by
  rw [held, if_neg]
  intro entries
  rcases unmapped with noTable | noPage
  · exact entries.2.1 noTable
  · exact entries.2.2 noPage

theorem unmapped_of_held_none (isPrivate : vm.Private config pd pdi pti)
    (nothing : held config vm (.page pd pdi pti) = none) : vm.Unmapped pd pdi pti := by
  by_cases noTable : Absent (vm.pde pd pdi)
  · exact Or.inl noTable
  · by_cases noPage : Absent (vm.pte pd pdi pti)
    · exact Or.inr noPage
    · have mapped : held config vm (.page pd pdi pti) = some (frameOf (vm.pte pd pdi pti)) :=
        held_page.mpr ⟨isPrivate, noTable, noPage, rfl⟩
      rw [nothing] at mapped
      cases mapped

/-- `map` puts a frame in flight at a private address. -/
theorem Owned.mapPage {pa va : Nat} {next : PhysMem}
    (owned : Owned config start exact vm whole free (pa :: flight)) (valid : config.Valid)
    (aligned : va % 4096 = 0)
    (isPrivate : vm.Private config pd (directoryIndex va) (tableIndex va))
    (unused : exact → vm.Unmapped pd (directoryIndex va) (tableIndex va))
    (ran : map config vm.mem pd va pa = some next) :
    ∃ left, Owned config start exact { vm with mem := next } whole left flight ∧
      held config { vm with mem := next } (.page pd (directoryIndex va) (tableIndex va)) =
        some pa ∧
      Aside config pd vm { vm with mem := next } ∧
      (vm.Unmapped pd (directoryIndex va) (tableIndex va) →
        Extends vm { vm with mem := next }) := by
  have plain : isSpecial config va = false := by
    have special := isPrivate.2.2.2.2
    rw [address_indices aligned] at special
    exact special
  have flagsIs : flagsFor config va = 7 := by simp [flagsFor, plain]
  rw [map_eq, flagsIs, Option.map_eq_some_iff] at ran
  obtain ⟨middle, entered, stored⟩ := ran
  subst stored
  have notShared : pd ≠ vm.shared := fun same => owned.apart (same ▸ isPrivate.1)
  obtain ⟨left, table⟩ := owned.enterTable valid isPrivate.covers rfl (by decide)
    (fun same => absurd same notShared) (fun _ _ => rfl) entered
  have unmappedMiddle (before : vm.Unmapped pd (directoryIndex va) (tableIndex va)) :
      Absent (({ vm with mem := middle } : Vm).pte pd (directoryIndex va) (tableIndex va)) := by
    have privateMiddle : ({ vm with mem := middle } : Vm).Private config pd
        (directoryIndex va) (tableIndex va) := isPrivate
    have nothing := (table.pages pd _ _).trans (before.held_none config)
    exact (unmapped_of_held_none privateMiddle nothing).resolve_left table.present
  obtain ⟨ownedNext, heldIs⟩ := table.owned.installPage valid isPrivate table.present
    (fun exactly => unmappedMiddle (unused exactly))
  refine ⟨left, ownedNext, ?_, ?_, ?_⟩
  · exact (congrFun heldIs _).trans (Function.update_self _ _ _)
  · exact table.aside.trans (table.owned.setPte_aside isPrivate.covers table.present _ _)
  · intro before
    exact table.extends'.trans (table.owned.setPte_extends isPrivate.covers table.present
      (unmappedMiddle before) _) (fun _ _ inside => inside)

theorem private_of_page {va : Nat} (live : pd ∈ vm.live) (high : 0x80000000 ≤ va)
    (word : va < 2 ^ 32) (aligned : va % 4096 = 0) (plain : ¬ Apic config va) :
    vm.Private config pd (directoryIndex va) (tableIndex va) := by
  obtain ⟨lower, upper⟩ := directoryIndex_bounds high word
  refine ⟨live, lower, upper, tableIndex_lt va, ?_⟩
  rw [address_indices aligned, ← Bool.not_eq_true, isSpecial_high high]
  exact plain

/-- The page fault handler on a private page: the page is mapped afterwards. -/
theorem Owned.pageFault {cr3 saved address : Nat} {outcome : FaultOutcome}
    (owned : Owned config start exact vm whole free []) (valid : config.Valid)
    (live : pd ∈ vm.live) (word : address < 2 ^ 32)
    (plain : ¬ Apic config (framedown address))
    (unused : exact → 0x80000000 ≤ framedown address →
      vm.Unmapped pd (directoryIndex (framedown address)) (tableIndex (framedown address)))
    (ran : pageFault config cr3 pd saved address vm.mem = some outcome) :
    outcome = .exited ∧ framedown address < 0x80000000 ∨
    ∃ next left frame, outcome = .resumed next ∧
      Owned config start exact { vm with mem := next } whole left [] ∧
      held config { vm with mem := next }
        (.page pd (directoryIndex (framedown address)) (tableIndex (framedown address))) =
          some frame ∧
      Aside config pd vm { vm with mem := next } ∧
      (vm.Unmapped pd (directoryIndex (framedown address)) (tableIndex (framedown address)) →
        Extends vm { vm with mem := next }) := by
  have aligned := framedown_mod address
  have below := framedown_le address
  unfold VMM.pageFault at ran
  split at ran
  · by_cases high : 0x80000000 ≤ framedown address
    · simp only [if_pos high] at ran
      obtain ⟨⟨middle, pa⟩, allocated, mapped⟩ := Option.bind_eq_some_iff.mp ran
      obtain ⟨next, mapRan, resumed⟩ := Option.map_eq_some_iff.mp mapped
      obtain ⟨left, facts, ownedMiddle⟩ := owned.alloc valid allocated
      have spares := owned.alloc_spares facts
      have isPrivate : ({ vm with mem := middle } : Vm).Private config pd
          (directoryIndex (framedown address)) (tableIndex (framedown address)) :=
        private_of_page live high (by omega) aligned plain
      have unmappedMiddle (before : vm.Unmapped pd (directoryIndex (framedown address))
          (tableIndex (framedown address))) :
          ({ vm with mem := middle } : Vm).Unmapped pd (directoryIndex (framedown address))
            (tableIndex (framedown address)) := by
        apply unmapped_of_held_none isPrivate
        rw [spares.agrees.held_eq]
        exact before.held_none config
      obtain ⟨rest, ownedNext, heldIs, aside, extended⟩ := ownedMiddle.mapPage valid aligned
        isPrivate (fun exactly => unmappedMiddle (unused exactly high)) mapRan
      refine Or.inr ⟨next, rest, pa, resumed.symm, ownedNext, heldIs, spares.aside.trans aside, ?_⟩
      intro before
      exact spares.agrees.extends.trans (extended (unmappedMiddle before))
        (fun _ _ inside => inside)
    · simp only [if_neg high] at ran
      cases ran
      exact Or.inl ⟨rfl, Nat.lt_of_not_le high⟩
  · cases ran

end Pages

section MakePd

theorem sharedEntries_le (valid : config.Valid) : sharedEntries config ≤ 512 := by
  have memory := valid.memory
  unfold sharedEntries
  omega

theorem Owned.complete (owned : Owned config start exact vm whole free flight)
    (live : pd ∈ vm.live) (identity : ∀ va, Apic config va → vm.Identity pd va) :
    Owned config start exact vm (pd :: whole) free flight := by
  constructor
  · exact owned.sound
  · exact owned.below
  · exact owned.custody
  · exact owned.apart
  · intro other member
    rcases List.mem_cons.mp member with same | inWhole
    · exact same ▸ live
    · exact owned.wholeLive other inWhole
  · intro other member va apic
    rcases List.mem_cons.mp member with same | inWhole
    · exact same ▸ identity va apic
    · exact owned.apic other inWhole va apic
  · exact owned.kernelHalf
  · exact owned.tableFlags
  · exact owned.pageFlags

/-- `map` on a controller page. -/
theorem Owned.mapApic {va : Nat} {next : PhysMem}
    (owned : Owned config start exact vm whole free flight) (valid : config.Valid)
    (live : pd ∈ vm.live) (apic : Apic config va) (ran : map config vm.mem pd va va = some next) :
    ∃ left, Owned config start exact { vm with mem := next } whole left flight ∧
      (∀ other, Apic config other → other = va ∨ vm.Identity pd other →
        ({ vm with mem := next } : Vm).Identity pd other) ∧
      Aside config pd vm { vm with mem := next } ∧
      (∀ pd pdi pti, held config { vm with mem := next } (.page pd pdi pti) =
        held config vm (.page pd pdi pti)) ∧
      ∀ pdi, vm.pde pd pdi &&& 4 = 0 → next.frames pd pdi &&& 4 = 0 := by
  have flagsIs := flagsFor_apic valid apic
  rw [map_eq, flagsIs, Option.map_eq_some_iff] at ran
  obtain ⟨middle, entered, stored⟩ := ran
  subst stored
  have notShared : pd ≠ vm.shared := owned.not_shared live
  have covers : vm.Covers pd (directoryIndex va) :=
    Owned.covers_live valid live apic
  obtain ⟨left, table⟩ := owned.enterTable valid covers rfl (by decide)
    (fun same => absurd same notShared) (fun noSlot => absurd apic.slot noSlot) entered
  obtain ⟨ownedNext, heldIs⟩ := table.owned.installApic valid live apic table.present
  refine ⟨left, ownedNext, ?_, ?_, ?_, ?_⟩
  · intro other otherApic mapped
    apply table.owned.installApic_identity valid live apic table.present otherApic
    refine mapped.imp id (fun identity => ?_)
    have otherCovers : vm.Covers pd (directoryIndex other) :=
      Owned.covers_live valid live otherApic
    exact table.extends'.identity otherCovers (otherApic.aligned valid) identity
  · exact table.aside.trans (table.owned.setPte_aside covers table.present _ _)
  · intro otherPd otherPdi otherPti
    exact (heldIs _).trans (table.pages otherPd otherPdi otherPti)
  · intro pdi closed
    have sameEntry := table.owned.setPte_pde covers table.present (Or.inr live) pdi
      (tableIndex va) (va ||| 3)
    have entryIs : (middle.setWord (frameOf (middle.frames pd (directoryIndex va))) (tableIndex va)
        (va ||| 3)).frames pd pdi = middle.frames pd pdi := sameEntry
    rw [entryIs]
    by_cases here : pdi = directoryIndex va ∧ Absent (vm.pde pd (directoryIndex va))
    · obtain ⟨same, absent⟩ := here
      subst same
      exact no_user_bit (enterTable_flags owned.sound absent (by decide) entered)
    · have kept : pdi ≠ directoryIndex va ∨ ¬ Absent (vm.pde pd (directoryIndex va)) :=
        not_and_or.mp here
      rw [owned.enterTable_others (Or.inr live) entered kept]
      exact closed

/-- A new directory before the controllers are mapped: it has the shared half and
nothing else. -/
theorem Owned.copyShared {first : PhysMem}
    (owned : Owned config start exact vm whole free flight) (valid : config.Valid)
    (allocated : vm.mem.allocFrame = some (first, pd)) :
    ∃ left, first.Sound start left ∧ pd ∉ left ∧ pd ∉ vm.live ∧
      Owned config start exact
        { vm with
          mem := first.memcpy pd vm.shared (sharedEntries config)
          live := pd :: vm.live } whole left flight ∧
      Aside config pd vm
        { vm with
          mem := first.memcpy pd vm.shared (sharedEntries config)
          live := pd :: vm.live } ∧
      (∀ pdi pti, held config
        { vm with
          mem := first.memcpy pd vm.shared (sharedEntries config)
          live := pd :: vm.live } (.page pd pdi pti) = none) ∧
      ∀ pdi, 512 ≤ pdi → (first.memcpy pd vm.shared (sharedEntries config)).frames pd pdi = 0 := by
  -- the copy of the shared half goes into a frame that is still in flight
  obtain ⟨left, facts, ownedSecond, spares⟩ :=
    owned.allocCopy valid allocated vm.shared (sharedEntries config)
  have notStructural := ownedSecond.flight_not_structural List.mem_cons_self
  have notShared : pd ≠ vm.shared := fun same => notStructural (Or.inl same)
  have notLive : pd ∉ vm.live := fun live => notStructural (Or.inr (Or.inl live))
  have outstanding := ownedSecond.custody.flightKnown pd List.mem_cons_self
  have empty : first.frames pd = fun _ => 0 := by
    rw [facts.frames, Function.update_self]
  have short := sharedEntries_le valid
  have copied : ∀ pdi, (first.memcpy pd vm.shared (sharedEntries config)).frames pd pdi =
      if pdi < sharedEntries config then first.frames vm.shared pdi else 0 := by
    intro pdi
    simp [memcpy, empty]
  have upper : ∀ pdi, 512 ≤ pdi →
      (first.memcpy pd vm.shared (sharedEntries config)).frames pd pdi = 0 := by
    intro pdi above
    rw [copied pdi, if_neg (by omega)]
  have sharedKept : ∀ pdi, (first.memcpy pd vm.shared (sharedEntries config)).frames vm.shared pdi =
      first.frames vm.shared pdi := by
    intro pdi
    simp only [memcpy, Function.update_of_ne notShared.symm]
  obtain ⟨ownedThird, enteredHeld⟩ := ownedSecond.enter
    (fun pdi above _ => (congrArg Absent (upper pdi above)).mpr absent_zero)
    (by
      intro pdi _
      have entryIs := copied pdi
      rw [← sharedKept pdi] at entryIs
      exact entryIs)
  have enteredAside : Aside config pd
      { vm with mem := first.memcpy pd vm.shared (sharedEntries config) }
      { vm with
        mem := first.memcpy pd vm.shared (sharedEntries config)
        live := pd :: vm.live } := by
    constructor
    · intro place foreign
      refine (congrFun enteredHeld place).trans (Function.update_of_ne ?_ _ _)
      intro same
      exact foreign (congrArg Place.owner same)
    · intro place other _ _
      rfl
  refine ⟨left, facts.sound, outstanding.2, notLive, ownedThird,
    spares.aside.trans enteredAside, ?_, upper⟩
  intro pdi pti
  have atThird := congrFun enteredHeld (.page pd pdi pti)
  rw [Function.update_of_ne (by intro impossible; cases impossible)] at atThird
  have noPage : held config
      { vm with mem := first.memcpy pd vm.shared (sharedEntries config) }
      (.page pd pdi pti) = none := by
    refine if_neg (fun entries => ?_)
    exact notLive entries.1.1
  exact atThird.trans noPage

/-- A new directory owns its two or three frames and no page, and nobody else
notices. -/
theorem Owned.makePd {next : PhysMem}
    (owned : Owned config start exact vm whole free flight) (valid : config.Valid)
    (ran : makePd config vm.shared vm.mem = some (next, pd)) :
    ∃ left, Owned config start exact { vm with mem := next, live := pd :: vm.live }
        (pd :: whole) left flight ∧
      pd ∉ vm.live ∧
      Aside config pd vm { vm with mem := next, live := pd :: vm.live } ∧
      (∀ pdi pti, held config { vm with mem := next, live := pd :: vm.live }
        (.page pd pdi pti) = none) ∧
      ∀ pdi, 512 ≤ pdi → next.frames pd pdi &&& 4 = 0 := by
  unfold VMM.makePd at ran
  obtain ⟨⟨first, frame⟩, allocated, ran⟩ := Option.bind_eq_some_iff.mp ran
  obtain ⟨third, mappedIo, ran⟩ := Option.bind_eq_some_iff.mp ran
  obtain ⟨fourth, mappedLocal, results⟩ := Option.map_eq_some_iff.mp ran
  cases results
  obtain ⟨left, _, _, notLive, ownedThird, asideThird, noPage, upper⟩ :=
    owned.copyShared valid allocated
  obtain ⟨leftIo, ownedIo, identityIo, asideIo, pagesIo, closedIo⟩ :=
    ownedThird.mapApic valid List.mem_cons_self (Or.inl rfl) mappedIo
  obtain ⟨leftLocal, ownedLocal, identityLocal, asideLocal, pagesLocal, closedLocal⟩ :=
    ownedIo.mapApic valid List.mem_cons_self (Or.inr rfl) mappedLocal
  refine ⟨leftLocal, ownedLocal.complete List.mem_cons_self ?_, notLive,
    (asideThird.trans asideIo).trans asideLocal, ?_, ?_⟩
  · intro va apic
    rcases apic with isIo | isLocal
    · exact identityLocal va (Or.inl isIo) (Or.inr (identityIo va (Or.inl isIo) (Or.inl isIo)))
    · exact identityLocal va (Or.inr isLocal) (Or.inl isLocal)
  · intro pdi pti
    exact ((pagesLocal pd pdi pti).trans (pagesIo pd pdi pti)).trans (noPage pdi pti)
  · intro pdi above
    apply closedLocal
    apply closedIo
    exact (congrArg (· &&& 4) (upper pdi above)).trans (Nat.zero_and 4)

end MakePd

section Boot

/-- `PhysMem::init` and `VMM::global_init`, as the kernel starts. -/
def boot (config : Config) (frames : Nat → Nat → Nat) (start size : Nat) : Option Vm :=
  (PhysMem.init frames start size).bind fun mem =>
    (globalInit config mem).map fun (mem, shared) => { mem := mem, shared := shared, live := [] }

private theorem nothing_held (empty : vm.mem.frames vm.shared = fun _ => 0)
    (nobody : vm.live = []) :
    held config vm =
      Function.update (fun _ => none) (Place.directory vm.shared) (some vm.shared) := by
  funext place
  cases place with
  | directory other =>
      by_cases same : other = vm.shared
      · subst same
        rw [Function.update_self]
        exact held_directory.mpr ⟨Or.inl rfl, rfl⟩
      · rw [Function.update_of_ne (by intro equal; cases equal; exact same rfl)]
        refine if_neg (fun known => ?_)
        rw [nobody] at known
        exact known.elim same List.not_mem_nil
  | table other pdi =>
      rw [Function.update_of_ne (by intro impossible; cases impossible)]
      refine if_neg (fun entries => ?_)
      rcases entries.1 with isShared | isLive
      · apply entries.2
        rw [Vm.pde, isShared.1, empty]
        exact absent_zero
      · rw [nobody] at isLive
        exact List.not_mem_nil isLive.1
  | page other pdi pti =>
      rw [Function.update_of_ne (by intro impossible; cases impossible)]
      refine if_neg (fun entries => ?_)
      rw [Vm.Private, nobody] at entries
      exact List.not_mem_nil entries.1.1

/-- The freshly allocated shared directory is all there is. -/
private theorem alone_owned {mem next : PhysMem} {shared : Nat} {left : List Nat}
    (below : mem.limit ≤ 0x80000000)
    (unissued : ∀ frame, ¬ mem.Outstanding start free frame)
    (facts : Allocated start mem free next shared left) :
    Owned config start exact { mem := next, shared := shared, live := [] } [] left [] := by
  have base : Custody (fun _ : Place => (none : Option Nat)) [] (mem.Outstanding start free)
      exact := by
    constructor
    · intro first second item impossible
      cases impossible
    · exact List.nodup_nil
    · intro place item impossible
      cases impossible
    · intro place item impossible
      cases impossible
    · intro item impossible
      cases impossible
    · intro _ item outstanding
      exact absurd outstanding (unissued item)
  have empty : next.frames shared = fun _ => 0 := by
    rw [facts.frames, Function.update_self]
  constructor
  · exact facts.sound
  · change next.limit ≤ 0x80000000
    rw [facts.limit]
    exact below
  · rw [nothing_held empty rfl]
    exact (base.issue facts.fresh facts.outstanding).deposit (fun _ => rfl)
  · exact List.not_mem_nil
  · intro pd member
    cases member
  · intro pd member
    cases member
  · intro pd member
    cases member
  · intro pd member
    cases member
  · intro pd pdi pti isPrivate
    cases isPrivate.1

/-- `map` on a page of the kernel while no process exists. -/
theorem Owned.mapShared {va : Nat} {next : PhysMem}
    (owned : Owned config start exact vm [] free []) (valid : config.Valid)
    (nobody : vm.live = []) (low : va < 0x80000000)
    (ran : map config vm.mem vm.shared va va = some next) :
    ∃ left, Owned config start exact { vm with mem := next } [] left [] := by
  have flagsIs : flagsFor config va = 3 := by simp [flagsFor, isSpecial, low]
  rw [map_eq, flagsIs, Option.map_eq_some_iff] at ran
  obtain ⟨middle, entered, stored⟩ := ran
  subst stored
  have covers : vm.Covers vm.shared (directoryIndex va) := by
    refine Or.inl ⟨rfl, ?_⟩
    rw [directoryIndex_eq]
    omega
  obtain ⟨left, table⟩ := owned.enterTable valid covers rfl (by decide) (fun _ => nobody)
    (fun _ live => absurd live (by rw [nobody]; exact List.not_mem_nil)) entered
  have notPrivate : ¬ ({ vm with mem := middle } : Vm).Private config vm.shared
      (directoryIndex va) (tableIndex va) := by
    intro isPrivate
    exact table.owned.apart isPrivate.1
  refine ⟨left, table.owned.setPte valid covers table.present ?_ ?_ ?_⟩
  · refine table.owned.custody.congr ?_ (fun _ => Iff.rfl)
    intro place
    exact table.owned.setPte_held covers table.present
      (fun isPrivate => absurd isPrivate notPrivate)
  · intro member
    cases member
  · intro isPrivate
    exact absurd isPrivate notPrivate

/-- The kernel starts with the shared directory and its tables alone. -/
theorem boot_owned (exact : Prop) {frames : Nat → Nat → Nat} {size : Nat} (valid : config.Valid)
    (real : 0 < start) (within : start + size ≤ config.memSize)
    (booted : boot config frames start size = some vm) :
    vm.live = [] ∧ ∃ free, Owned config start exact vm [] free [] := by
  have memory := valid.memory
  obtain ⟨mem, started, ran⟩ := Option.bind_eq_some_iff.mp booted
  obtain ⟨⟨last, shared⟩, initialised, result⟩ := Option.map_eq_some_iff.mp ran
  subst result
  obtain ⟨sound, limitIs, availIs⟩ := init_sound started real (by omega)
  unfold globalInit at initialised
  obtain ⟨⟨first, frame⟩, allocated, looped⟩ := Option.bind_eq_some_iff.mp initialised
  obtain ⟨final, ran, results⟩ := Option.map_eq_some_iff.mp looped
  cases results
  obtain ⟨left, facts⟩ := sound.alloc allocated
  have unissued : ∀ frame, ¬ mem.Outstanding start [] frame := by
    intro other outstanding
    have lower := outstanding.1.1
    have upper := outstanding.1.2.1
    omega
  refine ⟨rfl, ?_⟩
  apply forRange_preserves _ _ _
    (fun _ mem => ∃ free,
      Owned config start exact { mem := mem, shared := shared, live := [] } [] free []) ?_
    ⟨left, alone_owned (by omega) unissued facts⟩ ran
  intro page before after lower upper invariant mapped
  obtain ⟨free, owned⟩ := invariant
  apply owned.mapShared valid rfl ?_ mapped
  have inside : page < (config.memSize + frameSize - 1) / frameSize := by omega
  unfold frameSize at *
  omega

end Boot

end AC97Kernel.VMM
