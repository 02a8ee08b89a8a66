/-
The copy that fork makes.

The loop meets the places of the parent in address order.  Behind it every
private page of the parent has a copy in the child, ahead of it the child has
no page; the parent is never touched.
-/

import AC97Kernel.Paging.Mapping

set_option autoImplicit false

namespace AC97Kernel.Process

open PhysMem VMM Loops

variable {config : Config} {start : Nat} {exact : Prop} {vm : Vm} {whole free : List Nat}
  {parent child pdi pti : Nat}

/-- The child has a page with the same words as the parent's. -/
def CopiedPage (config : Config) (vm next : Vm) (parent child pdi pti : Nat) : Prop :=
  ∀ frame, held config vm (.page parent pdi pti) = some frame →
    ∃ copy, held config next (.page child pdi pti) = some copy ∧
      ∀ index < 1024, next.mem.frames copy index = vm.mem.frames frame index

/-- The loop of fork has passed the first `done` places of the address space. -/
structure Copying (config : Config) (start : Nat) (exact : Prop) (vm : Vm) (whole : List Nat)
    (parent child done : Nat) (mem : PhysMem) : Prop where
  owned : ∃ free, Owned config start exact { vm with mem := mem } whole free []
  aside : Aside config child vm { vm with mem := mem }
  copied : ∀ i j, i * 1024 + j < done → CopiedPage config vm { vm with mem := mem } parent child i j
  blank : ∀ i j, done ≤ i * 1024 + j ∨ held config vm (.page parent i j) = none →
    held config { vm with mem := mem } (.page child i j) = none

/-- A place where the parent has no page is passed without a change. -/
private theorem Copying.skip {done : Nat} {mem : PhysMem}
    (copying : Copying config start exact vm whole parent child done mem) {until' : Nat}
    (forward : done ≤ until')
    (nothing : ∀ i j, j < 1024 → done ≤ i * 1024 + j → i * 1024 + j < until' →
      held config vm (.page parent i j) = none) :
    Copying config start exact vm whole parent child until' mem := by
  have beyond : ∀ i j, ¬ j < 1024 → held config vm (.page parent i j) = none :=
    fun i j outside => if_neg (fun holds => outside holds.1.2.2.2.1)
  constructor
  · exact copying.owned
  · exact copying.aside
  · intro i j before frame holds
    by_cases earlier : i * 1024 + j < done
    · exact copying.copied i j earlier frame holds
    · by_cases inside : j < 1024
      · rw [nothing i j inside (Nat.le_of_not_lt earlier) before] at holds
        cases holds
      · rw [beyond i j inside] at holds
        cases holds
  · intro i j ahead
    apply copying.blank
    by_cases earlier : i * 1024 + j < done
    · rcases ahead with later | gone
      · omega
      · exact Or.inr gone
    · exact Or.inl (Nat.le_of_not_lt earlier)

/-- The page of the parent at the next place has got its copy. -/
private theorem Copying.advance {mem next : PhysMem} {frame childFrame : Nat}
    (copying : Copying config start exact vm whole parent child (pdi * 1024 + pti) mem)
    (holds : held config vm (.page parent pdi pti) = some frame)
    (ownedNext : Owned config start exact { vm with mem := next } whole free [])
    (asideNext : Aside config child { vm with mem := mem } { vm with mem := next })
    (heldNext : held config { vm with mem := next } =
      Function.update (held config { vm with mem := mem }) (.page child pdi pti) (some childFrame))
    (kept : ∀ i j copy, held config { vm with mem := mem } (.page child i j) = some copy →
      next.frames copy = mem.frames copy)
    (words : ∀ index < 1024, next.frames childFrame index = vm.mem.frames frame index) :
    Copying config start exact vm whole parent child (pdi * 1024 + (pti + 1)) next := by
  refine ⟨⟨free, ownedNext⟩, copying.aside.trans asideNext, ?_, ?_⟩
  · intro i j before source sourceHolds
    by_cases here : i * 1024 + j < pdi * 1024 + pti
    · obtain ⟨copy, copyHolds, sameWords⟩ := copying.copied i j here source sourceHolds
      have notHere : Place.page child i j ≠ .page child pdi pti := by
        intro same
        cases same
        exact Nat.lt_irrefl _ here
      refine ⟨copy, ?_, ?_⟩
      · rw [heldNext, Function.update_of_ne notHere]
        exact copyHolds
      · intro index small
        change next.frames copy index = _
        rw [kept i j copy copyHolds]
        exact sameWords index small
    · have sourceInside : j < 1024 := (held_page.mp sourceHolds).1.2.2.2.1
      have insideHere : pti < 1024 := (held_page.mp holds).1.2.2.2.1
      have samePosition : i = pdi ∧ j = pti := by omega
      obtain ⟨samePdi, samePti⟩ := samePosition
      subst samePdi samePti
      rw [holds] at sourceHolds
      cases sourceHolds
      refine ⟨childFrame, ?_, words⟩
      rw [heldNext, Function.update_self]
  · intro i j ahead
    have notHere : Place.page child i j ≠ .page child pdi pti := by
      intro same
      cases same
      rcases ahead with later | nothing
      · omega
      · rw [holds] at nothing
        cases nothing
    rw [heldNext, Function.update_of_ne notHere]
    apply copying.blank
    rcases ahead with later | nothing
    · exact Or.inl (by omega)
    · exact Or.inr nothing

section OneTable

variable {mem : PhysMem} {parentEntry childEntry : Nat}

/-- What the two directories look like while their tables at `pdi` are copied. -/
structure TablesOpen (config : Config) (vm : Vm) (parent child pdi parentEntry childEntry : Nat)
    (mem : PhysMem) : Prop where
  parentLive : parent ∈ vm.live
  childLive : child ∈ vm.live
  different : parent ≠ child
  lower : 512 ≤ pdi
  upper : pdi < 1024
  parentIs : vm.pde parent pdi = parentEntry
  parentPresent : ¬ Absent parentEntry
  childIs : mem.frames child pdi = childEntry
  childPresent : ¬ Absent childEntry

theorem TablesOpen.parentTable (tables : TablesOpen config vm parent child pdi parentEntry
    childEntry mem) : held config vm (.table parent pdi) = some (frameOf parentEntry) := by
  rw [held_table, tables.parentIs]
  exact ⟨Or.inr ⟨tables.parentLive, tables.lower, tables.upper⟩, tables.parentPresent, rfl⟩

/-- The parent's page is copied and the copy entered into the child's table. -/
private theorem copyPage_step {frame : Nat} {next : PhysMem} (valid : config.Valid)
    (copying : Copying config start exact vm whole parent child (pdi * 1024 + pti) mem)
    (tables : TablesOpen config vm parent child pdi parentEntry childEntry mem)
    (holds : held config vm (.page parent pdi pti) = some frame)
    (isPrivate : vm.Private config child pdi pti) {childFrame : Nat} {middle : PhysMem}
    (allocated : mem.allocFrame = some (middle, childFrame))
    (stored : (middle.memcpy childFrame frame 1024).setWord (frameOf childEntry) pti
      (childFrame ||| 7) = next) :
    Copying config start exact vm whole parent child (pdi * 1024 + (pti + 1)) next ∧
      next.frames child = mem.frames child := by
  obtain ⟨free, owned⟩ := copying.owned
  obtain ⟨left, facts, ownedCopy, spares⟩ := owned.allocCopy valid allocated frame 1024
  have heldCopy : ∀ place, held config { vm with mem := middle.memcpy childFrame frame 1024 } place
      = held config { vm with mem := mem } place := spares.agrees.held_eq
  -- the copied words are those the page had before the loop
  have parentHolds : held config { vm with mem := mem } (.page parent pdi pti) = some frame :=
    (copying.aside.places (.page parent pdi pti) tables.different).trans holds
  have sourceWords : middle.frames frame = vm.mem.frames frame :=
    (owned.alloc_spares facts _ frame parentHolds).trans
      (copying.aside.contents (.page parent pdi pti) frame tables.different holds)
  have copyWords : ∀ index < 1024,
      (middle.memcpy childFrame frame 1024).frames childFrame index =
        vm.mem.frames frame index := by
    intro index small
    rw [← sourceWords]
    simp [memcpy, small]
  -- the child's table is where it was
  have childDirectory : held config { vm with mem := mem } (.directory child) = some child :=
    held_directory.mpr ⟨Or.inr tables.childLive, rfl⟩
  have childPde : ({ vm with mem := middle.memcpy childFrame frame 1024 } : Vm).pde child pdi =
      childEntry := by
    exact (congrFun (spares _ child childDirectory) pdi).trans tables.childIs
  have present : ¬ Absent
      (({ vm with mem := middle.memcpy childFrame frame 1024 } : Vm).pde child pdi) := by
    rw [childPde]
    exact tables.childPresent
  have blankHere : held config { vm with mem := middle.memcpy childFrame frame 1024 }
      (.page child pdi pti) = none :=
    (heldCopy _).trans (copying.blank pdi pti (Or.inl (Nat.le_refl _)))
  have privateHere : ({ vm with mem := middle.memcpy childFrame frame 1024 } : Vm).Private config
      child pdi pti := isPrivate
  have unused := (unmapped_of_held_none privateHere blankHere).resolve_left present
  obtain ⟨ownedNext, heldIs⟩ := ownedCopy.installPage valid privateHere present (fun _ => unused)
  have storedAt : ({ vm with mem := middle.memcpy childFrame frame 1024 } : Vm).setPte child pdi pti
      (childFrame ||| 7) = { vm with mem := next } := by
    unfold Vm.setPte
    rw [childPde, ← stored]
  have covers : ({ vm with mem := middle.memcpy childFrame frame 1024 } : Vm).Covers child pdi :=
    isPrivate.covers
  have nextAside := ownedCopy.setPte_aside covers present pti (childFrame ||| 7)
  have entryKept (i : Nat) := ownedCopy.setPte_pde covers present
    (Or.inr tables.childLive) i pti (childFrame ||| 7)
  -- pages do not change when a table entry is stored
  have pageWords : ∀ other, other ≠ frameOf childEntry →
      next.frames other = (middle.memcpy childFrame frame 1024).frames other := by
    intro other notTable
    rw [← stored]
    exact Function.update_of_ne notTable _ _
  have tableHolds : held config { vm with mem := middle.memcpy childFrame frame 1024 }
      (.table child pdi) = some (frameOf childEntry) := by
    rw [held_table, childPde]
    exact ⟨covers, tables.childPresent, rfl⟩
  simp only [storedAt] at ownedNext heldIs nextAside entryKept
  have heldNext : held config { vm with mem := next } = Function.update
      (held config { vm with mem := mem }) (.page child pdi pti) (some childFrame) :=
    heldIs.trans (congrArg (Function.update · _ _) (funext heldCopy))
  refine ⟨copying.advance holds ownedNext (spares.aside.trans nextAside) heldNext ?_ ?_,
    funext fun i => (entryKept i).trans (congrFun (spares _ child childDirectory) i)⟩
  · intro i j copy copyHolds
    have notTable : copy ≠ frameOf childEntry := by
      intro same
      subst same
      cases ownedCopy.custody.single _ _ _ ((heldCopy _).trans copyHolds) tableHolds
    exact (pageWords copy notTable).trans (spares _ copy copyHolds)
  · intro index small
    have notTable : childFrame ≠ frameOf childEntry := by
      intro same
      rw [← same] at tableHolds
      exact ownedCopy.custody.apart _ childFrame tableHolds List.mem_cons_self
    rw [pageWords childFrame notTable]
    exact copyWords index small

theorem copyEntry_step {next : PhysMem} (valid : config.Valid) (childWhole : child ∈ whole)
    (copying : Copying config start exact vm whole parent child (pdi * 1024 + pti) mem)
    (tables : TablesOpen config vm parent child pdi parentEntry childEntry mem)
    (inside : pti < 1024)
    (ran : copyEntry (frameOf parentEntry) (frameOf childEntry) pti mem = some next) :
    Copying config start exact vm whole parent child (pdi * 1024 + (pti + 1)) next ∧
      next.frames child = mem.frames child := by
  have lower := tables.lower
  have upper := tables.upper
  have skipped (nothing : held config vm (.page parent pdi pti) = none) :
      Copying config start exact vm whole parent child (pdi * 1024 + (pti + 1)) mem := by
    apply copying.skip (by omega)
    intro i j small from' before
    have samePosition : i = pdi ∧ j = pti := by omega
    rw [samePosition.1, samePosition.2]
    exact nothing
  obtain ⟨free, owned⟩ := copying.owned
  have childPte : mem.frames (frameOf childEntry) pti =
      ({ vm with mem := mem } : Vm).pte child pdi pti := by
    unfold Vm.pte Vm.pde
    rw [tables.childIs]
  have childPresent : ¬ Absent (({ vm with mem := mem } : Vm).pde child pdi) := by
    unfold Vm.pde
    rw [tables.childIs]
    exact tables.childPresent
  have parentPte : mem.frames (frameOf parentEntry) pti = vm.pte parent pdi pti := by
    unfold Vm.pte
    rw [tables.parentIs]
    exact congrFun (copying.aside.contents (.table parent pdi) _ tables.different
      tables.parentTable) pti
  unfold copyEntry at ran
  by_cases taken : mem.frames (frameOf childEntry) pti &&& 1 = 1
  · -- only a controller can be there already
    rw [if_pos taken] at ran
    cases ran
    refine ⟨skipped ?_, rfl⟩
    refine if_neg (fun holds => ?_)
    have isPrivate : ({ vm with mem := mem } : Vm).Private config child pdi pti :=
      ⟨tables.childLive, holds.1.2⟩
    have blankHere := copying.blank pdi pti (Or.inl (Nat.le_refl _))
    have absent := (unmapped_of_held_none isPrivate blankHere).resolve_left childPresent
    rw [← childPte] at absent
    exact (present_iff _).mp taken absent
  · rw [if_neg taken] at ran
    by_cases empty : mem.frames (frameOf parentEntry) pti &&& 1 = 0
    · simp only [if_pos empty] at ran
      cases ran
      refine ⟨skipped ?_, rfl⟩
      exact Vm.Unmapped.held_none (Or.inr (parentPte ▸ empty)) config
    · simp only [if_neg empty] at ran
      obtain ⟨⟨middle, childFrame⟩, allocated, stored⟩ := Option.map_eq_some_iff.mp ran
      -- the controllers are in place in the child, so this is a private page
      have plain : isSpecial config (address pdi pti) = false := by
        by_cases special : isSpecial config (address pdi pti) = true
        · have apic := (isSpecial_high (address_high lower inside)).mp special
          have identity := (owned.apic child childWhole _ apic).2
          rw [directoryIndex_address pdi inside, tableIndex_address pdi inside, ← childPte] at identity
          have present : ¬ Absent (address pdi pti ||| 3) :=
            present_entry (apic.aligned valid) (by decide) rfl
          rw [← identity] at present
          exact absurd ((present_iff _).mpr present) taken
        · simpa using special
      have holds : held config vm (.page parent pdi pti) =
          some (frameOf (mem.frames (frameOf parentEntry) pti)) := by
        rw [held_page, parentPte, tables.parentIs]
        refine ⟨⟨tables.parentLive, lower, upper, inside, plain⟩, tables.parentPresent, ?_, rfl⟩
        rw [← parentPte]
        exact empty
      exact copyPage_step valid copying tables holds
        ⟨tables.childLive, lower, upper, inside, plain⟩ allocated stored

end OneTable

/-- The child gets the table for the copies. -/
theorem Copying.enterTable {mem entered : PhysMem} {done : Nat} (valid : config.Valid)
    (copying : Copying config start exact vm whole parent child done mem)
    (childLive : child ∈ vm.live) (lower : 512 ≤ pdi) (upper : pdi < 1024)
    (ran : VMM.enterTable mem child pdi 7 = some entered) :
    Copying config start exact vm whole parent child done entered ∧
      ¬ Absent (entered.frames child pdi) := by
  obtain ⟨free, owned⟩ := copying.owned
  have covers : ({ vm with mem := mem } : Vm).Covers child pdi := Or.inr ⟨childLive, lower, upper⟩
  have notShared : child ≠ vm.shared := fun same => owned.apart (same ▸ childLive)
  obtain ⟨left, table⟩ := owned.enterTable valid covers rfl (by decide)
    (fun same => absurd same notShared) (fun _ _ => rfl) ran
  refine ⟨?_, table.present⟩
  constructor
  · exact ⟨left, table.owned⟩
  · exact copying.aside.trans table.aside
  · intro i j before frame holds
    obtain ⟨copy, copyHolds, sameWords⟩ := copying.copied i j before frame holds
    refine ⟨copy, (table.pages child i j).trans copyHolds, ?_⟩
    intro index small
    exact (congrFun (table.words child i j copy copyHolds) index).trans (sameWords index small)
  · intro i j ahead
    exact (table.pages child i j).trans (copying.blank i j ahead)

/-- The table for the copies, as `enterTable` would provide it. -/
theorem prepared_eq {mem next : PhysMem} {childPt : Nat}
    (sound : mem.Sound start free)
    (prepared : (if mem.frames child pdi &&& 1 = 0 then
        mem.allocFrame.map fun (mem, childPt) => (mem.setWord child pdi (childPt ||| 7), childPt)
      else some (mem, mem.frames child pdi &&& 0xFFFFF000)) = some (next, childPt)) :
    enterTable mem child pdi 7 = some next ∧ childPt = frameOf (next.frames child pdi) := by
  unfold enterTable
  by_cases absent : Absent (mem.frames child pdi)
  · rw [if_pos absent] at prepared ⊢
    obtain ⟨⟨middle, frame⟩, allocated, results⟩ := Option.map_eq_some_iff.mp prepared
    cases results
    obtain ⟨left, facts⟩ := sound.alloc allocated
    refine ⟨?_, ?_⟩
    · rw [allocated]
      rfl
    · rw [setWord_same, frameOf_entry facts.out.2.2 (facts.sound.word facts.out) (by decide)]
  · rw [if_neg absent] at prepared ⊢
    cases prepared
    exact ⟨rfl, rfl⟩

theorem copyTable_step {mem next : PhysMem} (valid : config.Valid)
    (childWhole : child ∈ whole) (parentLive : parent ∈ vm.live) (childLive : child ∈ vm.live)
    (different : parent ≠ child) (lower : 512 ≤ pdi) (upper : pdi < 1024)
    (copying : Copying config start exact vm whole parent child (pdi * 1024) mem)
    (ran : copyTable parent child pdi mem = some next) :
    Copying config start exact vm whole parent child ((pdi + 1) * 1024) next ∧
      ∀ i, ¬ Absent (mem.frames child i) → next.frames child i = mem.frames child i := by
  obtain ⟨free, owned⟩ := copying.owned
  have parentDirectory : held config vm (.directory parent) = some parent :=
    held_directory.mpr ⟨Or.inr parentLive, rfl⟩
  have parentPde : mem.frames parent pdi = vm.pde parent pdi :=
    congrFun (copying.aside.contents (.directory parent) parent different parentDirectory) pdi
  unfold copyTable at ran
  by_cases absent : Absent (mem.frames parent pdi)
  · rw [if_pos absent] at ran
    cases ran
    refine ⟨copying.skip (by omega) ?_, fun _ _ => rfl⟩
    intro i j small from' before
    have samePdi : i = pdi := by omega
    rw [samePdi]
    exact Vm.Unmapped.held_none (Or.inl (parentPde ▸ absent)) config
  · rw [if_neg absent] at ran
    obtain ⟨⟨entered, childPt⟩, prepared, ran⟩ := Option.bind_eq_some_iff.mp ran
    obtain ⟨tableRan, childPtIs⟩ := prepared_eq owned.sound prepared
    obtain ⟨opened, childPresent⟩ := copying.enterTable valid childLive lower upper tableRan
    rw [← Nat.add_zero (pdi * 1024)] at opened
    subst childPtIs
    change forRange (copyEntry (frameOf (mem.frames parent pdi))
      (frameOf (entered.frames child pdi))) 0 1024 entered = some next at ran
    rw [parentPde] at ran absent
    have finished := forRange_preserves
      (copyEntry (frameOf (vm.pde parent pdi)) (frameOf (entered.frames child pdi))) 0 1024
      (fun pti current =>
        Copying config start exact vm whole parent child (pdi * 1024 + pti) current ∧
          current.frames child = entered.frames child)
      (by
        intro pti before after _ inside invariant stepped
        obtain ⟨copied, same⟩ := copyEntry_step valid childWhole invariant.1
          ⟨parentLive, childLive, different, lower, upper, rfl, absent,
            congrFun invariant.2 pdi, childPresent⟩
          (by omega) stepped
        exact ⟨copied, same.trans invariant.2⟩)
      ⟨opened, rfl⟩ ran
    have sameEnd : pdi * 1024 + (0 + 1024) = (pdi + 1) * 1024 := by omega
    rw [← sameEnd]
    refine ⟨finished.1, ?_⟩
    intro i present
    rw [finished.2]
    by_cases here : i = pdi
    · exact owned.enterTable_others (Or.inr childLive) tableRan (Or.inr (here ▸ present))
    · exact owned.enterTable_others (Or.inr childLive) tableRan (Or.inl here)

/-- Before the loop. -/
theorem copying_start (parent : Nat) (owned : Owned config start exact vm whole free [])
    (blank : ∀ pdi pti, held config vm (.page child pdi pti) = none) :
    Copying config start exact vm whole parent child (512 * 1024) vm.mem := by
  constructor
  · exact ⟨free, owned⟩
  · exact Aside.refl config child vm
  · intro i j before frame holds
    have lower := (held_page.mp holds).1.2.1
    omega
  · intro i j _
    exact blank i j

/-- After the loop the child has exactly the parent's private pages, with the
same words in frames of its own.  The entries it had before are as they were. -/
theorem copyPrivate_owned {next : PhysMem} (owned : Owned config start exact vm whole free [])
    (valid : config.Valid) (childWhole : child ∈ whole) (parentLive : parent ∈ vm.live)
    (different : parent ≠ child)
    (blank : ∀ pdi pti, held config vm (.page child pdi pti) = none)
    (ran : copyPrivate parent child vm.mem = some next) :
    ∃ left, Owned config start exact { vm with mem := next } whole left [] ∧
      Aside config child vm { vm with mem := next } ∧
      (∀ pdi pti, CopiedPage config vm { vm with mem := next } parent child pdi pti) ∧
      (∀ pdi pti, held config vm (.page parent pdi pti) = none →
        held config { vm with mem := next } (.page child pdi pti) = none) ∧
      ∀ pdi, ¬ Absent (vm.pde child pdi) → next.frames child pdi = vm.pde child pdi := by
  have childLive := owned.wholeLive child childWhole
  have opening := copying_start parent owned blank
  have finished := forRange_preserves (copyTable parent child) 512 512
    (fun pdi current => Copying config start exact vm whole parent child (pdi * 1024) current ∧
      ∀ i, ¬ Absent (vm.pde child i) → current.frames child i = vm.pde child i)
    (by
      intro pdi before after lower upper invariant stepped
      obtain ⟨copied, kept⟩ := copyTable_step valid childWhole parentLive childLive different lower
        (by omega) invariant.1 stepped
      refine ⟨copied, ?_⟩
      intro i present
      have same := invariant.2 i present
      exact (kept i (same ▸ present)).trans same)
    ⟨opening, fun _ _ => rfl⟩ ran
  obtain ⟨⟨⟨left, ownedNext⟩, aside, copied, blankNext⟩, entries⟩ := finished
  refine ⟨left, ownedNext, aside, ?_, fun pdi pti nothing => blankNext pdi pti (Or.inr nothing),
    entries⟩
  intro pdi pti frame holds
  obtain ⟨_, _, upper, inside, _⟩ := (held_page.mp holds).1
  exact copied pdi pti (by omega) frame holds

section Fork

variable {File Semaphore Output : Type}

/-- What a successful fork leaves, for a child with the directory `child`. -/
structure ForkedSpace (config : Config) (start : Nat) (exact : Prop) (vm next : Vm)
    (whole left : List Nat) (parent child : Nat) : Prop where
  owned : Owned config start exact next (child :: whole) left []
  fresh : child ∉ vm.live
  aside : Aside config child vm next
  copied : ∀ pdi pti, CopiedPage config vm next parent child pdi pti
  blank : ∀ pdi pti, held config vm (.page parent pdi pti) = none →
    held config next (.page child pdi pti) = none

/-- Fork returns -1 and changes nothing, or it makes a copy.  The child's entries
for the tables of the controllers are closed to user mode. -/
theorem fork_owned {process : Process File Semaphore Output} {output : Output}
    {forked : Forked File Semaphore Output} (owned : Owned config start exact vm whole free [])
    (valid : config.Valid) (live : process.pd ∈ vm.live)
    (ran : fork config vm.shared vm.mem process output = some forked) :
    forked = { mem := vm.mem, parent := process, child := none, id := -1 } ∨
    ∃ child left, forked.child = some child ∧
      ForkedSpace config start exact vm
        { vm with mem := forked.mem, live := child.pd :: vm.live } whole left process.pd
        child.pd ∧
      ∀ pdi, ApicSlot config pdi → forked.mem.frames child.pd pdi &&& 4 = 0 := by
  unfold fork at ran
  cases slot : (List.finRange 10).find? (fun index => (process.children index).isNone) with
  | none =>
      rw [slot] at ran
      cases ran
      exact Or.inl rfl
  | some index =>
      rw [slot] at ran
      obtain ⟨⟨made, childPd⟩, makeRan, ran⟩ := Option.bind_eq_some_iff.mp ran
      obtain ⟨last, copyRan, result⟩ := Option.map_eq_some_iff.mp ran
      subst result
      obtain ⟨madeLeft, ownedMade, fresh, asideMade, blank, closed⟩ := owned.makePd valid makeRan
      have different : process.pd ≠ childPd := fun same => fresh (same ▸ live)
      obtain ⟨left, ownedLast, asideLast, copied, blankLast, entries⟩ :=
        copyPrivate_owned ownedMade valid List.mem_cons_self (List.mem_cons_of_mem _ live)
          different blank copyRan
      refine Or.inr ⟨_, left, rfl, ⟨ownedLast, fresh, asideMade.trans asideLast, ?_, ?_⟩, ?_⟩
      · intro pdi pti frame holds
        obtain ⟨copy, copyHolds, sameWords⟩ :=
          copied pdi pti frame
            ((asideMade.places (.page process.pd pdi pti) different).trans holds)
        refine ⟨copy, copyHolds, ?_⟩
        intro wordIndex small
        exact (sameWords wordIndex small).trans
          (congrFun (asideMade.contents (.page process.pd pdi pti) frame different holds)
            wordIndex)
      · intro pdi pti nothing
        exact blankLast pdi pti
          ((asideMade.places (.page process.pd pdi pti) different).trans nothing)
      · intro pdi slot
        obtain ⟨present, high⟩ := ownedMade.slot_present valid List.mem_cons_self slot
        exact (congrArg (· &&& 4) (entries pdi present)).trans (closed pdi high)

end Fork

end AC97Kernel.Process
