/-
`delete_private` and `delete_pd`.

The first one clears the entries of a directory that is in use and keeps the
invariant at every step.  The second one leaves the entries as they are and
only gives the frames back, so it is compared with giving back one list.
-/

import AC97Kernel.Paging.Mapping
import Mathlib.Data.List.FinRange

set_option autoImplicit false

namespace AC97Kernel.VMM

open PhysMem Loops

variable {config : Config} {start : Nat} {exact : Prop} {vm : Vm} {whole free flight : List Nat}
  {pd pdi pti : Nat}

section DeletePrivate

/-- The directory `pd` while `delete_private` is at the entry `pti` of the table
under `pdi`; everything in front of it is gone. -/
structure Clearing (config : Config) (start : Nat) (exact : Prop) (vm : Vm) (whole : List Nat)
    (pd pdi pti : Nat) (mem : PhysMem) : Prop where
  owned : ∃ free, Owned config start exact { vm with mem := mem } whole free []
  aside : Aside config pd vm { vm with mem := mem }
  tables : ∀ i j, i < pdi → held config { vm with mem := mem } (.page pd i j) = none
  entries : ∀ j < pti, held config { vm with mem := mem } (.page pd pdi j) = none

/-- No controller is seen in a table exactly when its slot has none. -/
private theorem seen_special (valid : config.Valid) (lower : 512 ≤ pdi) :
    (∃ pti < 1024, isSpecial config (address pdi pti) = true) ↔ ApicSlot config pdi := by
  constructor
  · intro seen
    obtain ⟨pti, inside, special⟩ := seen
    rw [isSpecial_high (address_high lower inside)] at special
    rw [← directoryIndex_address pdi inside]
    exact special.slot
  · intro slot
    have witnessed : ∀ va, Apic config va → pdi = directoryIndex va →
        ∃ pti < 1024, isSpecial config (address pdi pti) = true := by
      intro va apic same
      refine ⟨tableIndex va, tableIndex_lt va, ?_⟩
      rw [same, address_indices (apic.aligned valid), isSpecial_high (apic.high valid)]
      exact apic
    rcases slot with same | same
    · exact witnessed _ (Or.inl rfl) same
    · exact witnessed _ (Or.inr rfl) same

private theorem clearEntry_step {entry : Nat} {state : PhysMem × Bool} (valid : config.Valid)
    (live : pd ∈ vm.live) (lower : 512 ≤ pdi) (upper : pdi < 1024) (inside : pti < 1024)
    (clearing : Clearing config start exact vm whole pd pdi pti state.1)
    (entryIs : state.1.frames pd pdi = entry) (present : ¬ Absent entry)
    (flag : state.2 = true ↔ ∃ j < pti, isSpecial config (address pdi j) = true) :
    ∃ after, clearEntry config pdi (frameOf entry) pti state = some after ∧
      Clearing config start exact vm whole pd pdi (pti + 1) after.1 ∧
      after.1.frames pd = state.1.frames pd ∧
      (after.2 = true ↔ ∃ j < pti + 1, isSpecial config (address pdi j) = true) := by
  obtain ⟨⟨free, owned⟩, aside, tables, entries⟩ := clearing
  have extend (mem : PhysMem)
      (earlier : ∀ j < pti, held config { vm with mem := mem } (.page pd pdi j) = none)
      (here : held config { vm with mem := mem } (.page pd pdi pti) = none) :
      ∀ j < pti + 1, held config { vm with mem := mem } (.page pd pdi j) = none := by
    intro j below
    rcases Nat.lt_succ_iff_lt_or_eq.mp below with before | same
    · exact earlier j before
    · exact same ▸ here
  have plainFlag (plain : isSpecial config (address pdi pti) = false) :
      (∃ j < pti + 1, isSpecial config (address pdi j) = true) ↔
        ∃ j < pti, isSpecial config (address pdi j) = true := by
    constructor
    · intro seen
      obtain ⟨j, below, special⟩ := seen
      rcases Nat.lt_succ_iff_lt_or_eq.mp below with before | same
      · exact ⟨j, before, special⟩
      · subst same
        rw [plain] at special
        cases special
    · intro seen
      obtain ⟨j, below, special⟩ := seen
      exact ⟨j, by omega, special⟩
  unfold clearEntry
  by_cases special : isSpecial config (address pdi pti) = true
  · rw [if_pos special]
    refine ⟨_, rfl, ⟨⟨free, owned⟩, aside, tables, extend _ entries ?_⟩, rfl, ?_⟩
    · refine if_neg (fun holds => ?_)
      rw [holds.1.2.2.2.2] at special
      cases special
    · exact iff_of_true rfl ⟨pti, Nat.lt_succ_self pti, special⟩
  · rw [if_neg special]
    have plain : isSpecial config (address pdi pti) = false := by simpa using special
    have isPrivate : ({ vm with mem := state.1 } : Vm).Private config pd pdi pti :=
      ⟨live, lower, upper, inside, plain⟩
    have presentNow : ¬ Absent (({ vm with mem := state.1 } : Vm).pde pd pdi) := by
      unfold Vm.pde
      rw [entryIs]
      exact present
    have pteIs : state.1.frames (frameOf entry) pti =
        ({ vm with mem := state.1 } : Vm).pte pd pdi pti := by
      unfold Vm.pte Vm.pde
      rw [entryIs]
    by_cases absent : Absent (state.1.frames (frameOf entry) pti)
    · simp only [if_pos absent]
      refine ⟨state, rfl, ⟨⟨free, owned⟩, aside, tables, extend _ entries ?_⟩, rfl, ?_⟩
      · exact Vm.Unmapped.held_none (Or.inr (pteIs ▸ absent)) config
      · rw [flag]
        exact (plainFlag plain).symm
    · simp only [if_neg absent]
      have holds : held config { vm with mem := state.1 } (.page pd pdi pti) =
          some (frameOf (state.1.frames (frameOf entry) pti)) := by
        rw [held_page, ← pteIs]
        exact ⟨isPrivate, presentNow, absent, rfl⟩
      obtain ⟨ownedCleared, heldIs⟩ := owned.clearPage valid holds
      have clearedAside := owned.setPte_aside isPrivate.covers presentNow pti 0
      have storedAt : ({ vm with mem := state.1 } : Vm).setPte pd pdi pti 0 =
          { vm with mem := state.1.setWord (frameOf entry) pti 0 } := by
        unfold Vm.setPte Vm.pde
        rw [entryIs]
      have entryKept (i : Nat) := owned.setPte_pde isPrivate.covers presentNow
        (Or.inr live) i pti 0
      simp only [storedAt] at ownedCleared heldIs clearedAside entryKept
      obtain ⟨next, released, facts, ownedNext⟩ := ownedCleared.dealloc valid
      have spares := ownedCleared.dealloc_spares facts
      have heldNext : ∀ place, held config { vm with mem := next } place =
          Function.update (held config { vm with mem := state.1 }) (.page pd pdi pti) none
            place := by
        intro place
        exact (spares.agrees.held_eq place).trans (congrFun heldIs place)
      refine ⟨(next, state.2), ?_, ⟨⟨_, ownedNext⟩, ?_, ?_, ?_⟩, ?_, ?_⟩
      · exact congrArg (Option.map fun mem => (mem, state.2)) released
      · exact (aside.trans clearedAside).trans spares.aside
      · intro i j before
        rw [heldNext, Function.update_of_ne (by intro same; cases same; omega)]
        exact tables i j before
      · apply extend
        · intro j below
          rw [heldNext, Function.update_of_ne (by intro same; cases same; omega)]
          exact entries j below
        · rw [heldNext, Function.update_self]
      · funext i
        have afterDealloc := spares.agrees.pde_eq (Or.inr live) i
        exact afterDealloc.trans (entryKept i)
      · rw [flag]
        exact (plainFlag plain).symm

private theorem clearTable_step {mem : PhysMem} (valid : config.Valid) (live : pd ∈ vm.live)
    (lower : 512 ≤ pdi) (upper : pdi < 1024)
    (clearing : Clearing config start exact vm whole pd pdi 0 mem) :
    ∃ after, clearTable config pd pdi mem = some after ∧
      Clearing config start exact vm whole pd (pdi + 1) 0 after ∧
      ∀ i, ApicSlot config i → after.frames pd i = mem.frames pd i := by
  obtain ⟨⟨free, owned⟩, aside, tables, _⟩ := clearing
  have extend (next : PhysMem)
      (earlier : ∀ i j, i < pdi → held config { vm with mem := next } (.page pd i j) = none)
      (here : ∀ j, held config { vm with mem := next } (.page pd pdi j) = none) :
      ∀ i j, i < pdi + 1 → held config { vm with mem := next } (.page pd i j) = none := by
    intro i j below
    rcases Nat.lt_succ_iff_lt_or_eq.mp below with before | same
    · exact earlier i j before
    · exact same ▸ here j
  have noEntries (next : PhysMem) :
      ∀ j < 0, held config { vm with mem := next } (.page pd (pdi + 1) j) = none :=
    fun j impossible => absurd impossible (Nat.not_lt_zero j)
  unfold VMM.clearTable
  by_cases absent : Absent (mem.frames pd pdi)
  · simp only [if_pos absent]
    refine ⟨mem, rfl, ⟨⟨free, owned⟩, aside, extend mem tables ?_, noEntries mem⟩, fun _ _ => rfl⟩
    intro j
    have unmapped : ({ vm with mem := mem } : Vm).Unmapped pd pdi j := Or.inl absent
    exact unmapped.held_none config
  · simp only [if_neg absent]
    obtain ⟨⟨last, seen⟩, ran, cleared, sameDirectory, flag⟩ := forRange_succeeds
      (clearEntry config pdi (frameOf (mem.frames pd pdi))) 0 1024 (mem, false)
      (fun pti state =>
        Clearing config start exact vm whole pd pdi pti state.1 ∧
          state.1.frames pd = mem.frames pd ∧
          (state.2 = true ↔ ∃ j < pti, isSpecial config (address pdi j) = true))
      (by
        intro pti state _ inside invariant
        obtain ⟨clearing, same, flag⟩ := invariant
        obtain ⟨after, stepped, cleared, kept, flagAfter⟩ := clearEntry_step valid live lower upper
          (by omega) clearing (congrFun same pdi) absent flag
        exact ⟨after, stepped, cleared, kept.trans same, flagAfter⟩)
      ⟨⟨⟨free, owned⟩, aside, tables, fun j below => absurd below (Nat.not_lt_zero j)⟩, rfl,
        by simp⟩
    obtain ⟨⟨rest, ownedLast⟩, asideLast, tablesLast, entriesLast⟩ := cleared
    have bare : ∀ j, held config { vm with mem := last } (.page pd pdi j) = none := by
      intro j
      by_cases inside : j < 1024
      · exact entriesLast j (by omega)
      · exact if_neg (fun holds => inside holds.1.2.2.2.1)
    have entryIs : last.frames pd pdi = mem.frames pd pdi := congrFun sameDirectory pdi
    rw [Nat.zero_add] at flag
    have slotIff : seen = true ↔ ApicSlot config pdi := flag.trans (seen_special valid lower)
    change ∃ after, (forRange (clearEntry config pdi (frameOf (mem.frames pd pdi))) 0 1024
      (mem, false)).bind _ = some after ∧ _
    rw [ran]
    by_cases special : seen = true
    · exact ⟨last, if_pos special, ⟨⟨rest, ownedLast⟩, asideLast, extend last tablesLast bare,
        noEntries last⟩, fun i _ => congrFun sameDirectory i⟩
    · have plain : ¬ ApicSlot config pdi := fun slot => special (slotIff.mpr slot)
      have notShared : pd ≠ vm.shared := owned.not_shared live
      have covers : ({ vm with mem := last } : Vm).Covers pd pdi := Or.inr ⟨live, lower, upper⟩
      have holds : held config { vm with mem := last } (.table pd pdi) =
          some (frameOf (mem.frames pd pdi)) := by
        rw [held_table, ← entryIs]
        refine ⟨covers, ?_, rfl⟩
        unfold Vm.pde
        rw [entryIs]
        exact absent
      obtain ⟨ownedCleared, heldIs⟩ := ownedLast.clearTable valid holds bare plain notShared
      have replaceable : ({ vm with mem := last } : Vm).Replaceable config [] pd pdi 0 :=
        ⟨covers, bare, fun impossible => absurd absent_zero impossible,
          fun impossible => absurd absent_zero impossible⟩
      have clearedAside := ownedLast.setPde_aside replaceable
      obtain ⟨next, released, facts, ownedNext⟩ := ownedCleared.dealloc valid
      have spares := ownedCleared.dealloc_spares facts
      have pagesNext : ∀ i j, held config { vm with mem := next } (.page pd i j) =
          held config { vm with mem := last } (.page pd i j) := by
        intro i j
        refine (spares.agrees.held_eq _).trans ((congrFun heldIs _).trans ?_)
        exact Function.update_of_ne (by intro impossible; cases impossible) _ _
      refine ⟨next, (if_neg special).trans released,
        ⟨⟨_, ownedNext⟩, ?_, ?_, noEntries next⟩, ?_⟩
      · exact (asideLast.trans clearedAside).trans spares.aside
      · apply extend
        · intro i j before
          rw [pagesNext]
          exact tablesLast i j before
        · intro j
          rw [pagesNext]
          exact bare j
      · intro i slot
        have elsewhere : ¬ (pd = pd ∧ i = pdi) := fun same => plain (same.2 ▸ slot)
        have afterDealloc := spares.agrees.pde_eq (Or.inr live) i
        have cleared := setPde_pde_other elsewhere ({ vm with mem := last } : Vm) 0
        exact afterDealloc.trans (cleared.trans (congrFun sameDirectory i))

/-- `delete_private` comes back, and the directory has no page left.  It keeps the
entries for the tables of the controllers. -/
theorem Owned.deletePrivate (owned : Owned config start exact vm whole free [])
    (valid : config.Valid) (live : pd ∈ vm.live) :
    ∃ next left, VMM.deletePrivate config pd pd vm.mem = some next ∧
      Owned config start exact { vm with mem := next } whole left [] ∧
      Aside config pd vm { vm with mem := next } ∧
      (∀ pdi pti, held config { vm with mem := next } (.page pd pdi pti) = none) ∧
      ∀ pdi, ApicSlot config pdi → next.frames pd pdi = vm.pde pd pdi := by
  obtain ⟨next, ran, cleared, slots⟩ := forRange_succeeds (VMM.clearTable config pd) 512 512 vm.mem
    (fun pdi mem => Clearing config start exact vm whole pd pdi 0 mem ∧
      ∀ i, ApicSlot config i → mem.frames pd i = vm.pde pd i)
    (by
      intro pdi mem lower upper invariant
      obtain ⟨clearing, slots⟩ := invariant
      obtain ⟨after, stepped, cleared, kept⟩ :=
        clearTable_step valid live lower (by omega) clearing
      exact ⟨after, stepped, cleared, fun i slot => (kept i slot).trans (slots i slot)⟩)
    ⟨⟨⟨free, owned⟩, Aside.refl config pd vm,
      fun i j below => if_neg (fun holds => absurd holds.1.2.1 (by omega)),
      fun j below => absurd below (Nat.not_lt_zero j)⟩, fun _ _ => rfl⟩
  obtain ⟨⟨left, ownedNext⟩, aside, tables, _⟩ := cleared
  refine ⟨next, left, ?_, ownedNext, aside, ?_, slots⟩
  · unfold VMM.deletePrivate
    rw [if_pos rfl]
    exact ran
  · intro pdi pti
    by_cases inside : pdi < 1024
    · exact tables pdi pti (by omega)
    · exact if_neg (fun holds => inside holds.1.2.2.1)

end DeletePrivate

section DeletePd

/-- The places of one table in the order in which `delete_pd` visits them. -/
def tablePlaces (pd pdi : Nat) : List Place :=
  (List.range' 0 1024).map (Place.page pd pdi) ++ [Place.table pd pdi]

def directoryPlaces (pd : Nat) : List Place :=
  (List.range' 512 512).flatMap (tablePlaces pd) ++ [Place.directory pd]

/-- The frames that belong to a directory, in the order of `delete_pd`. -/
def framesOf (config : Config) (vm : Vm) (pd : Nat) : List Nat :=
  (directoryPlaces pd).filterMap (held config vm)

def deallocAll : List Nat → PhysMem → Option PhysMem
  | [], mem => some mem
  | frame :: rest, mem => (mem.deallocFrame frame).bind (deallocAll rest)

theorem deallocAll_append (first second : List Nat) (mem : PhysMem) :
    deallocAll (first ++ second) mem = (deallocAll first mem).bind (deallocAll second) := by
  induction first generalizing mem with
  | nil => rfl
  | cons frame rest ih =>
      simp only [List.cons_append, deallocAll, Option.bind_assoc]
      congr 1
      funext next
      exact ih next

theorem deallocFrame_frames {mem next : PhysMem} {frame other : Nat}
    (released : mem.deallocFrame frame = some next) (different : other ≠ frame) :
    next.frames other = mem.frames other := by
  unfold deallocFrame at released
  split at released
  · cases released
    exact Function.update_of_ne different _ _
  · cases released

theorem deallocAll_frames {frames : List Nat} {mem next : PhysMem} {other : Nat}
    (released : deallocAll frames mem = some next) (absent : other ∉ frames) :
    next.frames other = mem.frames other := by
  induction frames generalizing mem with
  | nil =>
      cases released
      rfl
  | cons frame rest ih =>
      obtain ⟨middle, first, remaining⟩ := Option.bind_eq_some_iff.mp released
      have different : other ≠ frame := fun same => absent (same ▸ List.mem_cons_self)
      have notRest : other ∉ rest := fun member => absent (List.mem_cons_of_mem frame member)
      exact (ih remaining notRest).trans (deallocFrame_frames first different)

theorem mem_directoryPlaces {place : Place} {frame : Nat} (live : pd ∈ vm.live)
    (apart : vm.shared ∉ vm.live) (mine : place.owner = pd)
    (holds : held config vm place = some frame) : place ∈ directoryPlaces pd := by
  have listed : ∀ i, 512 ≤ i → i < 1024 → ∀ inner ∈ tablePlaces pd i,
      inner ∈ directoryPlaces pd := by
    intro i lower upper inner member
    apply List.mem_append_left
    refine List.mem_flatMap.mpr ⟨i, ?_, member⟩
    rw [List.mem_range'_1]
    omega
  cases place with
  | directory other =>
      cases mine
      exact List.mem_append_right _ List.mem_cons_self
  | table other i =>
      cases mine
      obtain ⟨covers, _, _⟩ := held_table.mp holds
      rcases covers with isShared | isLive
      · exact absurd (isShared.1 ▸ live) apart
      · exact listed i isLive.2.1 isLive.2.2 _ (List.mem_append_right _ List.mem_cons_self)
  | page other i j =>
      cases mine
      obtain ⟨_, lower, upper, inside, _⟩ := (held_page.mp holds).1
      apply listed i lower upper
      apply List.mem_append_left
      refine List.mem_map.mpr ⟨j, ?_, rfl⟩
      rw [List.mem_range'_1]
      omega

private theorem tablePlaces_owned {place : Place} (member : place ∈ tablePlaces pd pdi) :
    (∃ pti, place = .page pd pdi pti) ∨ place = .table pd pdi := by
  rcases List.mem_append.mp member with inPages | isTable
  · obtain ⟨pti, _, same⟩ := List.mem_map.mp inPages
    exact Or.inl ⟨pti, same.symm⟩
  · exact Or.inr (List.mem_singleton.mp isTable)

theorem directoryPlaces_nodup (pd : Nat) : (directoryPlaces pd).Nodup := by
  have pagesNodup : ∀ pdi, ((List.range' 0 1024).map (Place.page pd pdi)).Nodup := by
    intro pdi
    apply List.Nodup.map
    · intro first second same
      cases same
      rfl
    · exact List.nodup_range'
  unfold directoryPlaces
  rw [List.nodup_append, List.nodup_flatMap]
  refine ⟨⟨?_, ?_⟩, List.nodup_singleton _, ?_⟩
  · intro pdi _
    unfold tablePlaces
    rw [List.nodup_append]
    refine ⟨pagesNodup pdi, List.nodup_singleton _, ?_⟩
    intro first inPages second isTable same
    obtain ⟨pti, _, page⟩ := List.mem_map.mp inPages
    cases page.trans (same.trans (List.mem_singleton.mp isTable))
  · refine List.Pairwise.imp ?_ (List.nodup_range' : (List.range' 512 512).Nodup)
    intro first second different place inFirst inSecond
    rcases tablePlaces_owned inFirst with ⟨pti, page⟩ | table
    · rcases tablePlaces_owned inSecond with ⟨other, otherPage⟩ | otherTable
      · cases page.symm.trans otherPage
        exact different rfl
      · cases page.symm.trans otherTable
    · rcases tablePlaces_owned inSecond with ⟨other, otherPage⟩ | otherTable
      · cases table.symm.trans otherPage
      · cases table.symm.trans otherTable
        exact different rfl
  · intro first inTables second isDirectory same
    obtain ⟨pdi, _, member⟩ := List.mem_flatMap.mp inTables
    have directory := List.mem_singleton.mp isDirectory
    rcases tablePlaces_owned member with ⟨pti, page⟩ | table
    · cases page.symm.trans (same.trans directory)
    · cases table.symm.trans (same.trans directory)

theorem Owned.framesOf_nodup (owned : Owned config start exact vm whole free flight) (pd : Nat) :
    (framesOf config vm pd).Nodup := by
  apply List.Nodup.filterMap ?_ (directoryPlaces_nodup pd)
  intro first second frame holdsFirst holdsSecond
  exact owned.custody.single first second frame holdsFirst holdsSecond

theorem Owned.mem_framesOf (owned : Owned config start exact vm whole free flight)
    (live : pd ∈ vm.live) {frame : Nat} :
    frame ∈ framesOf config vm pd ↔
      ∃ place, place.owner = pd ∧ held config vm place = some frame := by
  unfold framesOf
  rw [List.mem_filterMap]
  constructor
  · intro listed
    obtain ⟨place, member, holds⟩ := listed
    refine ⟨place, ?_, holds⟩
    rcases List.mem_append.mp member with inTables | isDirectory
    · obtain ⟨pdi, _, inTable⟩ := List.mem_flatMap.mp inTables
      rcases tablePlaces_owned inTable with ⟨pti, page⟩ | table
      · exact page ▸ rfl
      · exact table ▸ rfl
    · exact List.mem_singleton.mp isDirectory ▸ rfl
  · intro placed
    obtain ⟨place, mine, holds⟩ := placed
    exact ⟨place, mem_directoryPlaces live owned.apart mine holds, holds⟩

/-- Giving back all frames in flight. -/
theorem Owned.deallocAll {frames : List Nat}
    (owned : Owned config start exact vm whole free (frames ++ flight)) (valid : config.Valid) :
    ∃ next, VMM.deallocAll frames vm.mem = some next ∧
      Owned config start exact { vm with mem := next } whole (frames.reverse ++ free) flight ∧
      Spares config vm next := by
  induction frames generalizing vm free with
  | nil => exact ⟨vm.mem, rfl, owned, fun _ _ _ => rfl⟩
  | cons frame rest ih =>
      obtain ⟨middle, released, facts, ownedMiddle⟩ := owned.dealloc valid
      have spares := owned.dealloc_spares facts
      obtain ⟨next, remaining, ownedNext, sparesNext⟩ := ih ownedMiddle
      refine ⟨next, ?_, ?_, ?_⟩
      · rw [VMM.deallocAll, released]
        exact remaining
      · rw [List.reverse_cons, List.append_assoc]
        exact ownedNext
      · exact spares.trans sparesNext

/-- The inner loop gives back the pages of one table. -/
private theorem dropEntries_eq (mem : PhysMem) (first count : Nat) {entry : Nat}
    (live : pd ∈ vm.live) (lower : 512 ≤ pdi) (upper : pdi < 1024) (inside : first + count ≤ 1024)
    (entryIs : vm.pde pd pdi = entry) (present : ¬ Absent entry)
    (sameTable : mem.frames (frameOf entry) = vm.mem.frames (frameOf entry))
    (separate : frameOf entry ∉
      ((List.range' first count).map (Place.page pd pdi)).filterMap (held config vm)) :
    forRange (dropEntry config pdi (frameOf entry)) first count mem =
      deallocAll (((List.range' first count).map (Place.page pd pdi)).filterMap
        (held config vm)) mem := by
  induction count generalizing first mem with
  | zero => rfl
  | succ count ih =>
      rw [List.range'_succ, List.map_cons] at separate ⊢
      have pteIs : mem.frames (frameOf entry) first = vm.pte pd pdi first := by
        unfold Vm.pte
        rw [entryIs, sameTable]
      have presentPde : ¬ Absent (vm.pde pd pdi) := entryIs ▸ present
      have skipped (nothing : held config vm (.page pd pdi first) = none)
          (stepped : dropEntry config pdi (frameOf entry) first mem = some mem) :
          forRange (dropEntry config pdi (frameOf entry)) first (count + 1) mem =
            deallocAll ((Place.page pd pdi first ::
              (List.range' (first + 1) count).map (Place.page pd pdi)).filterMap
                (held config vm)) mem := by
        rw [List.filterMap_cons_none nothing] at separate ⊢
        rw [forRange, stepped]
        exact ih mem (first + 1) (by omega) sameTable separate
      by_cases absent : Absent (mem.frames (frameOf entry) first)
      · apply skipped
        · exact Vm.Unmapped.held_none (Or.inr (pteIs ▸ absent)) config
        · exact if_pos absent
      · by_cases special : isSpecial config (address pdi first) = true
        · apply skipped
          · refine if_neg (fun holds => ?_)
            rw [holds.1.2.2.2.2] at special
            cases special
          · exact (if_neg absent).trans (if_pos special)
        · have plain : isSpecial config (address pdi first) = false := by simpa using special
          have holds : held config vm (.page pd pdi first) =
              some (frameOf (mem.frames (frameOf entry) first)) := by
            rw [held_page, ← pteIs]
            exact ⟨⟨live, lower, upper, by omega, plain⟩, presentPde, absent, rfl⟩
          have stepped : dropEntry config pdi (frameOf entry) first mem =
              mem.deallocFrame (frameOf (mem.frames (frameOf entry) first)) :=
            (if_neg absent).trans (if_neg special)
          rw [List.filterMap_cons_some holds] at separate ⊢
          rw [forRange, stepped, VMM.deallocAll]
          apply Option.bind_congr
          intro next released
          obtain ⟨different, notRest⟩ := not_or.mp (fun both => separate (List.mem_cons.mpr both))
          exact ih next (first + 1) (by omega)
            ((deallocFrame_frames released different).trans sameTable) notRest

/-- The outer loop gives back every table with its pages in front. -/
private theorem dropTables_eq (mem : PhysMem) (first count : Nat) (live : pd ∈ vm.live)
    (lower : 512 ≤ first) (inside : first + count ≤ 1024)
    (distinct : (((List.range' first count).flatMap (tablePlaces pd)).filterMap
      (held config vm)).Nodup)
    (separate : pd ∉ ((List.range' first count).flatMap (tablePlaces pd)).filterMap
      (held config vm))
    (agree : ∀ frame, frame = pd ∨ frame ∈ ((List.range' first count).flatMap
      (tablePlaces pd)).filterMap (held config vm) → mem.frames frame = vm.mem.frames frame) :
    forRange (dropTable config pd) first count mem =
      deallocAll (((List.range' first count).flatMap (tablePlaces pd)).filterMap
        (held config vm)) mem := by
  induction count generalizing first mem with
  | zero => rfl
  | succ count ih =>
      rw [List.range'_succ, List.flatMap_cons, List.filterMap_append] at distinct separate agree ⊢
      have entryIs : vm.pde pd first = mem.frames pd first :=
        (congrFun (agree pd (Or.inl rfl)) first).symm
      obtain ⟨tableDistinct, restDistinct, parted⟩ := List.nodup_append.mp distinct
      obtain ⟨notTable, notRest⟩ := not_or.mp (fun both => separate (List.mem_append.mpr both))
      have remaining (next : PhysMem)
          (kept : ∀ frame, frame ∉ (tablePlaces pd first).filterMap (held config vm) →
            next.frames frame = mem.frames frame) :
          forRange (dropTable config pd) (first + 1) count next =
            deallocAll (((List.range' (first + 1) count).flatMap (tablePlaces pd)).filterMap
              (held config vm)) next := by
        apply ih next (first + 1) (by omega) (by omega) restDistinct notRest
        intro frame concerned
        have notHere : frame ∉ (tablePlaces pd first).filterMap (held config vm) := by
          intro member
          rcases concerned with same | inRest
          · exact notTable (same ▸ member)
          · exact parted frame member frame inRest rfl
        refine (kept frame notHere).trans (agree frame ?_)
        exact concerned.imp id (List.mem_append_right _)
      by_cases absent : Absent (mem.frames pd first)
      · have nothing : (tablePlaces pd first).filterMap (held config vm) = [] := by
          rw [List.filterMap_eq_nil_iff]
          intro place member
          rcases tablePlaces_owned member with ⟨pti, page⟩ | table
          · subst page
            exact Vm.Unmapped.held_none (Or.inl (entryIs ▸ absent)) config
          · subst table
            exact if_neg (fun holds => holds.2 (entryIs ▸ absent))
        rw [forRange, dropTable, if_pos absent, nothing, List.nil_append]
        exact remaining mem (fun _ _ => rfl)
      · have holds : held config vm (.table pd first) = some (frameOf (mem.frames pd first)) := by
          rw [held_table, entryIs]
          exact ⟨Or.inr ⟨live, lower, by omega⟩, absent, rfl⟩
        have split : (tablePlaces pd first).filterMap (held config vm) =
            ((List.range' 0 1024).map (Place.page pd first)).filterMap (held config vm) ++
              [frameOf (mem.frames pd first)] := by
          rw [tablePlaces, List.filterMap_append, List.filterMap_cons_some holds,
            List.filterMap_nil]
        have tableListed : frameOf (mem.frames pd first) ∈
            (tablePlaces pd first).filterMap (held config vm) := by
          rw [split]
          exact List.mem_append_right _ List.mem_cons_self
        have notPage : frameOf (mem.frames pd first) ∉
            ((List.range' 0 1024).map (Place.page pd first)).filterMap (held config vm) := by
          intro member
          rw [split] at tableDistinct
          exact (List.nodup_append.mp tableDistinct).2.2 _ member _ List.mem_cons_self rfl
        have inner := dropEntries_eq mem 0 1024 live lower (by omega)
          (by omega) entryIs absent
          (agree _ (Or.inr (List.mem_append_left _ tableListed))) notPage
        have body : dropTable config pd first mem =
            deallocAll ((tablePlaces pd first).filterMap (held config vm)) mem := by
          rw [split, deallocAll_append, ← inner]
          refine (if_neg absent).trans ?_
          apply Option.bind_congr
          intro next _
          exact (Option.bind_fun_some _).symm
        rw [forRange, body, deallocAll_append]
        apply Option.bind_congr
        intro next released
        exact remaining next (fun frame notHere => deallocAll_frames released notHere)

/-- `delete_pd` comes back with the frames of its directory, and no others, on
the free list. -/
theorem Owned.deletePd {cr3 : Nat} (owned : Owned config start exact vm whole free [])
    (valid : config.Valid) (live : pd ∈ vm.live) (unused : pd ≠ cr3) :
    ∃ next, VMM.deletePd config cr3 pd vm.mem = some next ∧
      Owned config start exact { vm with mem := next, live := vm.live.filter (· ≠ pd) }
        (whole.filter (· ≠ pd)) ((framesOf config vm pd).reverse ++ free) [] ∧
      Aside config pd vm { vm with mem := next, live := vm.live.filter (· ≠ pd) } := by
  have directoryHolds : held config vm (.directory pd) = some pd :=
    held_directory.mpr ⟨Or.inr live, rfl⟩
  have framesAre : framesOf config vm pd =
      ((List.range' 512 512).flatMap (tablePlaces pd)).filterMap (held config vm) ++ [pd] := by
    unfold framesOf directoryPlaces
    rw [List.filterMap_append, List.filterMap_cons_some directoryHolds, List.filterMap_nil]
  have distinct := owned.framesOf_nodup pd
  rw [framesAre] at distinct
  obtain ⟨tablesDistinct, _, parted⟩ := List.nodup_append.mp distinct
  have loop := dropTables_eq vm.mem 512 512 live
    (by omega) (by omega) tablesDistinct
    (fun member => parted pd member pd List.mem_cons_self rfl) (fun _ _ => rfl)
  have sameRun : VMM.deletePd config cr3 pd vm.mem =
      VMM.deallocAll (framesOf config vm pd) vm.mem := by
    unfold VMM.deletePd
    rw [if_pos unused, loop, framesAre, deallocAll_append]
    apply Option.bind_congr
    intro next _
    exact (Option.bind_fun_some _).symm
  obtain ⟨ownedLeft, heldIs⟩ := owned.leave live (owned.framesOf_nodup pd)
    (fun _ => owned.mem_framesOf live)
  obtain ⟨next, released, ownedNext, spares⟩ := ownedLeft.deallocAll valid
  have left : Aside config pd vm { vm with live := vm.live.filter (· ≠ pd) } := by
    constructor
    · intro place foreign
      rw [heldIs, if_neg foreign]
    · intro place frame _ _
      rfl
  exact ⟨next, sameRun.trans released, ownedNext, left.trans spares.aside⟩

end DeletePd

end AC97Kernel.VMM
