/-
The edits that change who owns what.

There are two kinds of them, a store into a table and a store into a directory.
Each lemma says which place changes hands and that `Owned` survives.
-/

import AC97Kernel.Paging.Owners

set_option autoImplicit false

namespace AC97Kernel.VMM

open PhysMem

variable {config : Config} {start : Nat} {exact : Prop} {vm : Vm} {whole free flight : List Nat}
  {pd pdi pti : Nat}

namespace Vm

/-- The table below a directory entry gets a new entry. -/
def setPte (vm : Vm) (pd pdi pti word : Nat) : Vm :=
  { vm with mem := vm.mem.setWord (frameOf (vm.pde pd pdi)) pti word }

def setPde (vm : Vm) (pd pdi word : Nat) : Vm :=
  { vm with mem := vm.mem.setWord pd pdi word }

theorem Private.not_apic (isPrivate : vm.Private config pd pdi pti) (valid : config.Valid)
    {va : Nat} (samePdi : directoryIndex va = pdi) (samePti : tableIndex va = pti) :
    ¬ Apic config va := by
  intro apic
  have special : isSpecial config (address pdi pti) = true := by
    rw [← samePdi, ← samePti, address_indices (apic.aligned valid)]
    exact (isSpecial_high (apic.high valid)).mpr apic
  rw [isPrivate.2.2.2.2] at special
  cases special

end Vm

section SetPte

theorem Owned.table_not_directory (owned : Owned config start exact vm whole free flight)
    (covers : vm.Covers pd pdi) (present : ¬ Absent (vm.pde pd pdi)) {other : Nat}
    (known : other = vm.shared ∨ other ∈ vm.live) : other ≠ frameOf (vm.pde pd pdi) := by
  intro same
  have asDirectory : held config vm (.directory other) = some other :=
    held_directory.mpr ⟨known, rfl⟩
  have asTable : held config vm (.table pd pdi) = some other :=
    held_table.mpr ⟨covers, present, same.symm⟩
  cases owned.custody.single _ _ other asDirectory asTable

theorem Owned.table_unique (owned : Owned config start exact vm whole free flight)
    (covers : vm.Covers pd pdi) (present : ¬ Absent (vm.pde pd pdi)) {otherPd otherPdi : Nat}
    (otherCovers : vm.Covers otherPd otherPdi) (otherPresent : ¬ Absent (vm.pde otherPd otherPdi))
    (same : frameOf (vm.pde otherPd otherPdi) = frameOf (vm.pde pd pdi)) :
    otherPd = pd ∧ otherPdi = pdi := by
  have first : held config vm (.table otherPd otherPdi) = some (frameOf (vm.pde pd pdi)) :=
    held_table.mpr ⟨otherCovers, otherPresent, same⟩
  have second : held config vm (.table pd pdi) = some (frameOf (vm.pde pd pdi)) :=
    held_table.mpr ⟨covers, present, rfl⟩
  cases owned.custody.single _ _ _ first second
  exact ⟨rfl, rfl⟩

variable {word : Nat}

theorem Owned.setPte_pde (owned : Owned config start exact vm whole free flight)
    (covers : vm.Covers pd pdi) (present : ¬ Absent (vm.pde pd pdi)) {otherPd : Nat}
    (known : otherPd = vm.shared ∨ otherPd ∈ vm.live) (otherPdi pti word : Nat) :
    (vm.setPte pd pdi pti word).pde otherPd otherPdi = vm.pde otherPd otherPdi := by
  change Function.update vm.mem.frames _ _ otherPd otherPdi = _
  rw [Function.update_of_ne (owned.table_not_directory covers present known)]
  rfl

theorem Owned.setPte_pte_other (owned : Owned config start exact vm whole free flight)
    (covers : vm.Covers pd pdi) (present : ¬ Absent (vm.pde pd pdi)) {otherPd otherPdi otherPti : Nat}
    (otherCovers : vm.Covers otherPd otherPdi) (otherPresent : ¬ Absent (vm.pde otherPd otherPdi))
    (different : ¬ (otherPd = pd ∧ otherPdi = pdi ∧ otherPti = pti)) (word : Nat) :
    (vm.setPte pd pdi pti word).pte otherPd otherPdi otherPti =
      vm.pte otherPd otherPdi otherPti := by
  unfold Vm.pte
  rw [owned.setPte_pde covers present (otherCovers.imp And.left And.left)]
  change Function.update vm.mem.frames _ _ _ _ = _
  by_cases sameTable : frameOf (vm.pde otherPd otherPdi) = frameOf (vm.pde pd pdi)
  · obtain ⟨samePd, samePdi⟩ :=
      owned.table_unique covers present otherCovers otherPresent sameTable
    rw [sameTable, Function.update_self, Function.update_of_ne]
    intro samePti
    exact different ⟨samePd, samePdi, samePti⟩
  · rw [Function.update_of_ne sameTable]

theorem Owned.setPte_pte_self (owned : Owned config start exact vm whole free flight)
    (covers : vm.Covers pd pdi) (present : ¬ Absent (vm.pde pd pdi)) (pti word : Nat) :
    (vm.setPte pd pdi pti word).pte pd pdi pti = word := by
  unfold Vm.pte
  rw [owned.setPte_pde covers present (covers.imp And.left And.left)]
  change Function.update vm.mem.frames _ _ _ _ = _
  rw [Function.update_self, Function.update_self]

theorem Owned.setPte_held (owned : Owned config start exact vm whole free flight)
    (covers : vm.Covers pd pdi) (present : ¬ Absent (vm.pde pd pdi)) {place : Place}
    (different : vm.Private config pd pdi pti → place ≠ .page pd pdi pti) :
    held config (vm.setPte pd pdi pti word) place = held config vm place := by
  cases place with
  | directory otherPd => rfl
  | table otherPd otherPdi =>
      by_cases otherCovers : vm.Covers otherPd otherPdi
      · have coversNext : (vm.setPte pd pdi pti word).Covers otherPd otherPdi := otherCovers
        have same := owned.setPte_pde covers present
          (otherCovers.imp And.left And.left) otherPdi pti word
        simp only [held, otherCovers, coversNext, same]
      · have coversNext : ¬ (vm.setPte pd pdi pti word).Covers otherPd otherPdi := otherCovers
        simp only [held, otherCovers, coversNext, false_and, if_false]
  | page otherPd otherPdi otherPti =>
      by_cases isPrivate : vm.Private config otherPd otherPdi otherPti
      · have privateNext :
          (vm.setPte pd pdi pti word).Private config otherPd otherPdi otherPti := isPrivate
        have same := owned.setPte_pde covers present
          (Or.inr isPrivate.1) otherPdi pti word
        by_cases absent : Absent (vm.pde otherPd otherPdi)
        · simp only [held]
          rw [same, if_neg (fun entries => entries.2.1 absent),
            if_neg (fun entries => entries.2.1 absent)]
        · have elsewhere : ¬ (otherPd = pd ∧ otherPdi = pdi ∧ otherPti = pti) := by
            intro position
            obtain ⟨samePd, samePdi, samePti⟩ := position
            subst samePd samePdi samePti
            exact different isPrivate rfl
          have samePage := owned.setPte_pte_other covers present isPrivate.covers absent
            elsewhere word
          simp only [held, isPrivate, privateNext, same, samePage]
      · have privateNext :
          ¬ (vm.setPte pd pdi pti word).Private config otherPd otherPdi otherPti := isPrivate
        simp only [held, isPrivate, privateNext, false_and, if_false]

theorem Owned.setPte_held_self (owned : Owned config start exact vm whole free flight)
    (isPrivate : vm.Private config pd pdi pti) (present : ¬ Absent (vm.pde pd pdi)) :
    held config (vm.setPte pd pdi pti word) (.page pd pdi pti) =
      if Absent word then none else some (frameOf word) := by
  have privateNext : (vm.setPte pd pdi pti word).Private config pd pdi pti := isPrivate
  have samePde := owned.setPte_pde isPrivate.covers present
    (Or.inr isPrivate.1) pdi pti word
  have pteIs := owned.setPte_pte_self isPrivate.covers present pti word
  simp only [held, samePde, pteIs]
  by_cases absent : Absent word
  · rw [if_pos absent, if_neg (fun entries => entries.2.2 absent)]
  · rw [if_neg absent, if_pos ⟨privateNext, present, absent⟩]

/-- A store into a table keeps the invariant when it keeps the custody, leaves
the controller pages of whole directories alone and sets all three flags. -/
theorem Owned.setPte (owned : Owned config start exact vm whole free flight)
    (valid : config.Valid) (covers : vm.Covers pd pdi) (present : ¬ Absent (vm.pde pd pdi))
    {moved : List Nat}
    (custody : Custody (held config (vm.setPte pd pdi pti word)) moved
      (vm.mem.Outstanding start free) exact)
    (keepsApic : pd ∈ whole → ∀ va, Apic config va → directoryIndex va = pdi →
      tableIndex va = pti → word = va ||| 3)
    (flags : vm.Private config pd pdi pti → ¬ Absent word → word &&& 7 = 7) :
    Owned config start exact (vm.setPte pd pdi pti word) whole free moved := by
  have tableOut : vm.mem.Outstanding start free (frameOf (vm.pde pd pdi)) :=
    owned.structural_outstanding (Or.inr (Or.inr ⟨pd, pdi, covers, present, rfl⟩))
  constructor
  · refine owned.sound.congr rfl rfl rfl ?_
    intro other member
    refine congrFun (Function.update_of_ne ?_ _ _) 0
    intro same
    exact tableOut.2 (same ▸ member)
  · exact owned.below
  · exact custody.congr (fun _ => rfl) (outstanding_congr rfl)
  · exact owned.apart
  · exact owned.wholeLive
  · intro otherPd member va apic
    obtain ⟨identityPresent, identity⟩ := owned.apic otherPd member va apic
    have otherCovers := owned.covers_apic valid member apic
    constructor
    · rw [owned.setPte_pde covers present (otherCovers.imp And.left And.left)]
      exact identityPresent
    · by_cases position : otherPd = pd ∧ directoryIndex va = pdi ∧ tableIndex va = pti
      · obtain ⟨samePd, samePdi, samePti⟩ := position
        have wordIs := keepsApic (samePd ▸ member) va apic samePdi samePti
        rw [samePd, samePdi, samePti, owned.setPte_pte_self covers present, wordIs]
      · rw [owned.setPte_pte_other covers present otherCovers identityPresent position]
        exact identity
  · intro otherPd member otherPdi low
    rw [owned.setPte_pde covers present (Or.inr member)]
    change _ = if _ then (vm.setPte pd pdi pti word).pde vm.shared otherPdi else 0
    rw [owned.setPte_pde covers present (Or.inl rfl)]
    exact owned.kernelHalf otherPd member otherPdi low
  · intro otherPd member otherPdi lower upper noSlot
    rw [owned.setPte_pde covers present (Or.inr member)]
    exact owned.tableFlags otherPd member otherPdi lower upper noSlot
  · intro otherPd otherPdi otherPti isPrivate
    have known : vm.Private config otherPd otherPdi otherPti := isPrivate
    rw [owned.setPte_pde covers present (Or.inr known.1)]
    intro otherPresent
    by_cases position : otherPd = pd ∧ otherPdi = pdi ∧ otherPti = pti
    · obtain ⟨samePd, samePdi, samePti⟩ := position
      subst samePd samePdi samePti
      rw [owned.setPte_pte_self covers present]
      exact flags known
    · rw [owned.setPte_pte_other covers present known.covers otherPresent position]
      exact owned.pageFlags otherPd otherPdi otherPti known otherPresent

/-- A frame in flight becomes a private page.  Only when losses do not count may
the entry have been in use. -/
theorem Owned.installPage {frame : Nat}
    (owned : Owned config start exact vm whole free (frame :: flight)) (valid : config.Valid)
    (isPrivate : vm.Private config pd pdi pti) (present : ¬ Absent (vm.pde pd pdi))
    (unused : exact → Absent (vm.pte pd pdi pti)) :
    Owned config start exact (vm.setPte pd pdi pti (frame ||| 7)) whole free flight ∧
      held config (vm.setPte pd pdi pti (frame ||| 7)) =
        Function.update (held config vm) (.page pd pdi pti) (some frame) := by
  have out := (owned.custody.flightKnown frame List.mem_cons_self).1
  have word := owned.sound.word out
  have pagePresent : ¬ Absent (frame ||| 7) := present_entry out.2.2 (by decide) rfl
  have heldIs : held config (vm.setPte pd pdi pti (frame ||| 7)) =
      Function.update (held config vm) (.page pd pdi pti) (some frame) := by
    funext place
    by_cases same : place = .page pd pdi pti
    · subst same
      rw [Function.update_self, owned.setPte_held_self isPrivate present, if_neg pagePresent,
        frameOf_entry out.2.2 word (by decide)]
    · rw [Function.update_of_ne same]
      exact owned.setPte_held isPrivate.covers present (fun _ => same)
  refine ⟨owned.setPte valid isPrivate.covers present ?_ ?_ ?_, heldIs⟩
  · rw [heldIs]
    apply owned.custody.deposit
    intro exactly
    rw [held, if_neg]
    intro entries
    exact entries.2.2 (unused exactly)
  · intro _ va apic samePdi samePti
    exact absurd apic (isPrivate.not_apic valid samePdi samePti)
  · intro _ _
    exact flags_entry out.2.2 (by decide)

/-- A private page is unmapped; its frame is in flight. -/
theorem Owned.clearPage {frame : Nat}
    (owned : Owned config start exact vm whole free flight) (valid : config.Valid)
    (holds : held config vm (.page pd pdi pti) = some frame) :
    Owned config start exact (vm.setPte pd pdi pti 0) whole free (frame :: flight) ∧
      held config (vm.setPte pd pdi pti 0) =
        Function.update (held config vm) (.page pd pdi pti) none := by
  obtain ⟨isPrivate, present, _, _⟩ := held_page.mp holds
  have heldIs : held config (vm.setPte pd pdi pti 0) =
      Function.update (held config vm) (.page pd pdi pti) none := by
    funext place
    by_cases same : place = .page pd pdi pti
    · subst same
      rw [Function.update_self, owned.setPte_held_self isPrivate present, if_pos absent_zero]
    · rw [Function.update_of_ne same]
      exact owned.setPte_held isPrivate.covers present (fun _ => same)
  refine ⟨owned.setPte valid isPrivate.covers present ?_ ?_ ?_, heldIs⟩
  · rw [heldIs]
    exact owned.custody.withdraw holds
  · intro _ va apic samePdi samePti
    exact absurd apic (isPrivate.not_apic valid samePdi samePti)
  · intro _ impossible
    exact absurd absent_zero impossible

/-- A controller page is mapped to itself.  Nobody owns its frame. -/
theorem Owned.installApic {va : Nat}
    (owned : Owned config start exact vm whole free flight) (valid : config.Valid)
    (live : pd ∈ vm.live) (apic : Apic config va)
    (present : ¬ Absent (vm.pde pd (directoryIndex va))) :
    Owned config start exact
        (vm.setPte pd (directoryIndex va) (tableIndex va) (va ||| 3)) whole free flight ∧
      ∀ place, held config (vm.setPte pd (directoryIndex va) (tableIndex va) (va ||| 3)) place =
        held config vm place := by
  have covers : vm.Covers pd (directoryIndex va) :=
    Owned.covers_live valid live apic
  have notPrivate : ¬ vm.Private config pd (directoryIndex va) (tableIndex va) :=
    fun isPrivate => isPrivate.not_apic valid rfl rfl apic
  have heldIs : ∀ place,
      held config (vm.setPte pd (directoryIndex va) (tableIndex va) (va ||| 3)) place =
        held config vm place := by
    intro place
    exact owned.setPte_held covers present (fun isPrivate => absurd isPrivate notPrivate)
  refine ⟨owned.setPte valid covers present ?_ ?_ ?_, heldIs⟩
  · exact owned.custody.congr heldIs (fun _ => Iff.rfl)
  · intro _ other otherApic sameDirectory sameTable
    rw [eq_of_indices (otherApic.aligned valid) (apic.aligned valid) sameDirectory sameTable]
  · intro isPrivate
    exact absurd isPrivate notPrivate

/-- The page just mapped to itself is so, and the other controller still is. -/
theorem Owned.installApic_identity {va : Nat}
    (owned : Owned config start exact vm whole free flight) (valid : config.Valid)
    (live : pd ∈ vm.live) (apic : Apic config va)
    (present : ¬ Absent (vm.pde pd (directoryIndex va))) {other : Nat}
    (otherApic : Apic config other) (mapped : other = va ∨ vm.Identity pd other) :
    (vm.setPte pd (directoryIndex va) (tableIndex va) (va ||| 3)).Identity pd other := by
  have covers : vm.Covers pd (directoryIndex va) :=
    Owned.covers_live valid live apic
  by_cases same : other = va
  · subst same
    constructor
    · rw [owned.setPte_pde covers present (Or.inr live)]
      exact present
    · exact owned.setPte_pte_self covers present _ _
  · obtain ⟨otherPresent, identity⟩ := mapped.resolve_left same
    have otherCovers : vm.Covers pd (directoryIndex other) :=
      Owned.covers_live valid live otherApic
    have elsewhere : ¬ (pd = pd ∧ directoryIndex other = directoryIndex va ∧
        tableIndex other = tableIndex va) := by
      intro position
      exact same (eq_of_indices (otherApic.aligned valid) (apic.aligned valid) position.2.1
        position.2.2)
    constructor
    · rw [owned.setPte_pde covers present (Or.inr live)]
      exact otherPresent
    · rw [owned.setPte_pte_other covers present otherCovers otherPresent elsewhere]
      exact identity

end SetPte

section SetPde

variable {word : Nat}

/-- What a directory store needs: no page hangs below the old entry, and the
table of the new one is empty and still in nobody's hands but the caller's. -/
structure Vm.Replaceable (config : Config) (vm : Vm) (flight : List Nat) (pd pdi word : Nat) :
    Prop where
  covers : vm.Covers pd pdi
  bare : ∀ pti, held config vm (.page pd pdi pti) = none
  unowned : ¬ Absent word → frameOf word ∈ flight
  empty : ¬ Absent word → ∀ pti, Absent (vm.mem.frames (frameOf word) pti)

theorem setPde_pde_other {otherPd otherPdi : Nat} (different : ¬ (otherPd = pd ∧ otherPdi = pdi))
    (vm : Vm) (word : Nat) :
    (vm.setPde pd pdi word).pde otherPd otherPdi = vm.pde otherPd otherPdi := by
  change Function.update vm.mem.frames _ _ otherPd otherPdi = vm.mem.frames otherPd otherPdi
  by_cases samePd : otherPd = pd
  · subst samePd
    rw [Function.update_self, Function.update_of_ne]
    intro samePdi
    exact different ⟨rfl, samePdi⟩
  · rw [Function.update_of_ne samePd]

theorem setPde_pde_self : (vm.setPde pd pdi word).pde pd pdi = word := by
  change Function.update vm.mem.frames _ _ pd pdi = word
  rw [Function.update_self, Function.update_self]

theorem Owned.setPde_pte_other (owned : Owned config start exact vm whole free flight)
    (known : pd = vm.shared ∨ pd ∈ vm.live) {otherPd otherPdi : Nat}
    (otherCovers : vm.Covers otherPd otherPdi) (otherPresent : ¬ Absent (vm.pde otherPd otherPdi))
    (different : ¬ (otherPd = pd ∧ otherPdi = pdi)) (otherPti word : Nat) :
    (vm.setPde pd pdi word).pte otherPd otherPdi otherPti = vm.pte otherPd otherPdi otherPti := by
  unfold Vm.pte
  rw [setPde_pde_other different]
  change Function.update vm.mem.frames _ _ (frameOf (vm.pde otherPd otherPdi)) otherPti = _
  rw [Function.update_of_ne (owned.table_not_directory otherCovers otherPresent known).symm]

theorem Owned.setPde_empty (owned : Owned config start exact vm whole free flight)
    (replaceable : vm.Replaceable config flight pd pdi word) (present : ¬ Absent word) (pti : Nat) :
    Absent ((vm.setPde pd pdi word).pte pd pdi pti) := by
  have notDirectory : frameOf word ≠ pd := by
    intro same
    have asDirectory : held config vm (.directory pd) = some pd :=
      held_directory.mpr ⟨replaceable.covers.imp And.left And.left, rfl⟩
    exact owned.custody.apart _ pd asDirectory (same ▸ replaceable.unowned present)
  unfold Vm.pte
  rw [setPde_pde_self]
  change Absent (Function.update vm.mem.frames _ _ (frameOf word) pti)
  rw [Function.update_of_ne notDirectory]
  exact replaceable.empty present pti

theorem Owned.setPde_held (owned : Owned config start exact vm whole free flight)
    (replaceable : vm.Replaceable config flight pd pdi word) :
    held config (vm.setPde pd pdi word) =
      Function.update (held config vm) (.table pd pdi)
        (if Absent word then none else some (frameOf word)) := by
  have covers := replaceable.covers
  have known : pd = vm.shared ∨ pd ∈ vm.live := covers.imp And.left And.left
  funext place
  cases place with
  | directory otherPd =>
      rw [Function.update_of_ne (by intro impossible; cases impossible)]
      rfl
  | table otherPd otherPdi =>
      by_cases same : otherPd = pd ∧ otherPdi = pdi
      · obtain ⟨samePd, samePdi⟩ := same
        subst samePd samePdi
        have coversNext : (vm.setPde otherPd otherPdi word).Covers otherPd otherPdi := covers
        rw [Function.update_self]
        simp only [held, setPde_pde_self]
        by_cases absent : Absent word
        · rw [if_pos absent, if_neg (fun entries => entries.2 absent)]
        · rw [if_neg absent, if_pos ⟨coversNext, absent⟩]
      · rw [Function.update_of_ne (by intro equal; cases equal; exact same ⟨rfl, rfl⟩)]
        simp only [held, setPde_pde_other same]
        rfl
  | page otherPd otherPdi otherPti =>
      rw [Function.update_of_ne (by intro impossible; cases impossible)]
      by_cases same : otherPd = pd ∧ otherPdi = pdi
      · obtain ⟨samePd, samePdi⟩ := same
        subst samePd samePdi
        rw [replaceable.bare otherPti]
        simp only [held]
        rw [if_neg]
        intro entries
        have present : ¬ Absent word := by
          have entry := entries.2.1
          rw [setPde_pde_self] at entry
          exact entry
        exact entries.2.2 (owned.setPde_empty replaceable present otherPti)
      · by_cases isPrivate : vm.Private config otherPd otherPdi otherPti
        · have privateNext :
            (vm.setPde pd pdi word).Private config otherPd otherPdi otherPti := isPrivate
          have samePde := setPde_pde_other same vm word
          by_cases absent : Absent (vm.pde otherPd otherPdi)
          · simp only [held]
            rw [samePde, if_neg (fun entries => entries.2.1 absent),
              if_neg (fun entries => entries.2.1 absent)]
          · have samePte := owned.setPde_pte_other known isPrivate.covers absent same
              otherPti word
            simp only [held, isPrivate, privateNext, samePde, samePte]
        · have privateNext :
            ¬ (vm.setPde pd pdi word).Private config otherPd otherPdi otherPti := isPrivate
          simp only [held, isPrivate, privateNext, false_and, if_false]

/-- A store into a directory keeps the invariant when it keeps the custody.  The
entries that hold a controller of a whole directory stay as they are, and the
shared directory is only written while there is no other. -/
theorem Owned.setPde (owned : Owned config start exact vm whole free flight)
    (valid : config.Valid) (replaceable : vm.Replaceable config flight pd pdi word)
    {moved : List Nat}
    (custody : Custody (held config (vm.setPde pd pdi word)) moved
      (vm.mem.Outstanding start free) exact)
    (keepsApic : pd ∈ whole → ¬ ApicSlot config pdi)
    (early : pd = vm.shared → vm.live = [])
    (flags : pd ∈ vm.live → ¬ ApicSlot config pdi → ¬ Absent word → word &&& 7 = 7) :
    Owned config start exact (vm.setPde pd pdi word) whole free moved := by
  have covers := replaceable.covers
  have known : pd = vm.shared ∨ pd ∈ vm.live := covers.imp And.left And.left
  have directoryOut : vm.mem.Outstanding start free pd :=
    owned.structural_outstanding (known.elim Or.inl (fun live => Or.inr (Or.inl live)))
  constructor
  · refine owned.sound.congr rfl rfl rfl ?_
    intro other member
    have different : other ≠ pd := fun same => directoryOut.2 (same ▸ member)
    exact congrFun (Function.update_of_ne different _ _) 0
  · exact owned.below
  · exact custody.congr (fun _ => rfl) (outstanding_congr rfl)
  · exact owned.apart
  · exact owned.wholeLive
  · intro otherPd member va apic
    obtain ⟨identityPresent, identity⟩ := owned.apic otherPd member va apic
    have different : ¬ (otherPd = pd ∧ directoryIndex va = pdi) := by
      intro same
      exact keepsApic (same.1 ▸ member) (same.2 ▸ apic.slot)
    constructor
    · rw [setPde_pde_other different]
      exact identityPresent
    · rw [owned.setPde_pte_other known (owned.covers_apic valid member apic) identityPresent
        different]
      exact identity
  · intro otherPd member otherPdi low
    have notShared : pd ≠ vm.shared := by
      intro same
      have live : otherPd ∈ vm.live := member
      rw [early same] at live
      cases live
    have upper : 512 ≤ pdi := (covers.resolve_left (fun lower => notShared lower.1)).2.1
    rw [setPde_pde_other (fun same => absurd same.2 (by omega))]
    change _ = if _ then (vm.setPde pd pdi word).pde vm.shared otherPdi else 0
    rw [setPde_pde_other (fun same => notShared same.1.symm)]
    exact owned.kernelHalf otherPd member otherPdi low
  · intro otherPd member otherPdi lower upper noSlot
    by_cases same : otherPd = pd ∧ otherPdi = pdi
    · obtain ⟨samePd, samePdi⟩ := same
      subst samePd samePdi
      rw [setPde_pde_self]
      exact flags member noSlot
    · rw [setPde_pde_other same]
      exact owned.tableFlags otherPd member otherPdi lower upper noSlot
  · intro otherPd otherPdi otherPti isPrivate
    have private' : vm.Private config otherPd otherPdi otherPti := isPrivate
    by_cases same : otherPd = pd ∧ otherPdi = pdi
    · obtain ⟨samePd, samePdi⟩ := same
      subst samePd samePdi
      rw [setPde_pde_self]
      intro present pagePresent
      exact absurd (owned.setPde_empty replaceable present otherPti) pagePresent
    · rw [setPde_pde_other same]
      intro present
      rw [owned.setPde_pte_other known private'.covers present same]
      exact owned.pageFlags otherPd otherPdi otherPti private' present

theorem Owned.fresh_replaceable {frame num : Nat}
    (owned : Owned config start exact vm whole free (frame :: flight))
    (covers : vm.Covers pd pdi) (absent : Absent (vm.pde pd pdi))
    (empty : vm.mem.frames frame = fun _ => 0) (small : num < 8) :
    vm.Replaceable config (frame :: flight) pd pdi (frame ||| num) := by
  have out := (owned.custody.flightKnown frame List.mem_cons_self).1
  have frameIs : frameOf (frame ||| num) = frame :=
    frameOf_entry out.2.2 (owned.sound.word out) (by omega)
  constructor
  · exact covers
  · intro pti
    rw [held, if_neg (fun entries => entries.2.1 absent)]
  · intro _
    rw [frameIs]
    exact List.mem_cons_self
  · intro _ pti
    rw [frameIs, empty]
    exact absent_zero

/-- An empty frame in flight becomes a table. -/
theorem Owned.installTable {frame num : Nat}
    (owned : Owned config start exact vm whole free (frame :: flight)) (valid : config.Valid)
    (covers : vm.Covers pd pdi) (absent : Absent (vm.pde pd pdi))
    (empty : vm.mem.frames frame = fun _ => 0) (odd : num % 2 = 1) (small : num < 8)
    (early : pd = vm.shared → vm.live = [])
    (flags : ¬ ApicSlot config pdi → pd ∈ vm.live → num = 7) :
    Owned config start exact (vm.setPde pd pdi (frame ||| num)) whole free flight ∧
      held config (vm.setPde pd pdi (frame ||| num)) =
        Function.update (held config vm) (.table pd pdi) (some frame) ∧
      ¬ Absent ((vm.setPde pd pdi (frame ||| num)).pde pd pdi) := by
  have out := (owned.custody.flightKnown frame List.mem_cons_self).1
  have frameIs : frameOf (frame ||| num) = frame :=
    frameOf_entry out.2.2 (owned.sound.word out) (by omega)
  have present : ¬ Absent (frame ||| num) := present_entry out.2.2 (by omega) odd
  have replaceable := owned.fresh_replaceable covers absent empty small
  have heldIs := owned.setPde_held replaceable
  rw [if_neg present, frameIs] at heldIs
  refine ⟨owned.setPde valid replaceable ?_ ?_ early ?_, heldIs, ?_⟩
  · rw [heldIs]
    apply owned.custody.deposit
    intro _
    rw [held, if_neg (fun entries => entries.2 absent)]
  · -- the tables of a whole directory's controllers are there already
    intro member slot
    rcases slot with same | same
    · exact (owned.apic pd member config.ioAPIC (Or.inl rfl)).1 (same ▸ absent)
    · exact (owned.apic pd member config.localAPIC (Or.inr rfl)).1 (same ▸ absent)
  · intro live noSlot _
    rw [flags noSlot live]
    exact flags_entry out.2.2 (by decide)
  · rw [setPde_pde_self]
    exact present

/-- A table without pages is taken out; its frame is in flight. -/
theorem Owned.clearTable {frame : Nat}
    (owned : Owned config start exact vm whole free flight) (valid : config.Valid)
    (holds : held config vm (.table pd pdi) = some frame)
    (bare : ∀ pti, held config vm (.page pd pdi pti) = none)
    (plain : ¬ ApicSlot config pdi) (notShared : pd ≠ vm.shared) :
    Owned config start exact (vm.setPde pd pdi 0) whole free (frame :: flight) ∧
      held config (vm.setPde pd pdi 0) =
        Function.update (held config vm) (.table pd pdi) none := by
  have replaceable : vm.Replaceable config flight pd pdi 0 := by
    constructor
    · exact (held_table.mp holds).1
    · exact bare
    · intro impossible
      exact absurd absent_zero impossible
    · intro impossible
      exact absurd absent_zero impossible
  have heldIs := owned.setPde_held replaceable
  rw [if_pos absent_zero] at heldIs
  refine ⟨owned.setPde valid replaceable ?_ (fun _ => plain) (fun same => absurd same notShared) ?_,
    heldIs⟩
  · rw [heldIs]
    exact owned.custody.withdraw holds
  · intro _ _ impossible
    exact absurd absent_zero impossible

end SetPde

section Directories

/-- A directory that comes or goes concerns only the places it owns. -/
theorem held_elsewhere {live : List Nat} {place : Place}
    (member : place.owner ∈ live ↔ place.owner ∈ vm.live) :
    held config { vm with live := live } place = held config vm place := by
  cases place with
  | directory otherPd =>
      exact if_congr (or_congr Iff.rfl member) rfl rfl
  | table otherPd pdi =>
      refine if_congr (and_congr (or_congr Iff.rfl ?_) Iff.rfl) rfl rfl
      exact and_congr member Iff.rfl
  | page otherPd pdi pti =>
      refine if_congr (and_congr ?_ Iff.rfl) rfl rfl
      exact and_congr member Iff.rfl

/-- A frame in flight whose upper half is empty becomes a directory. -/
theorem Owned.enter (owned : Owned config start exact vm whole free (pd :: flight))
    (upper : ∀ pdi, 512 ≤ pdi → pdi < 1024 → Absent (vm.pde pd pdi))
    (lower : ∀ pdi < 512,
      vm.pde pd pdi = if pdi < sharedEntries config then vm.pde vm.shared pdi else 0) :
    Owned config start exact { vm with live := pd :: vm.live } whole free flight ∧
      held config { vm with live := pd :: vm.live } =
        Function.update (held config vm) (.directory pd) (some pd) := by
  have unknown : ¬ (pd = vm.shared ∨ pd ∈ vm.live) := by
    intro known
    exact owned.custody.apart _ pd (held_directory.mpr ⟨known, rfl⟩) List.mem_cons_self
  have noEntries : ∀ otherPdi, ¬ vm.Covers pd otherPdi :=
    fun _ covers => unknown (covers.imp And.left And.left)
  have heldIs : held config { vm with live := pd :: vm.live } =
      Function.update (held config vm) (.directory pd) (some pd) := by
    funext place
    by_cases mine : place.owner = pd
    · cases place with
      | directory otherPd =>
          have same : otherPd = pd := mine
          rw [same, Function.update_self]
          exact held_directory.mpr ⟨Or.inr List.mem_cons_self, rfl⟩
      | table otherPd pdi =>
          have same : otherPd = pd := mine
          have outside : held config vm (.table pd pdi) = none :=
            if_neg (fun entries => noEntries pdi entries.1)
          rw [same, Function.update_of_ne (by intro impossible; cases impossible), outside]
          refine if_neg (fun entries => ?_)
          rcases entries.1 with isShared | isLive
          · exact unknown (Or.inl isShared.1)
          · exact entries.2 (upper pdi isLive.2.1 isLive.2.2)
      | page otherPd pdi pti =>
          have same : otherPd = pd := mine
          have outside : held config vm (.page pd pdi pti) = none :=
            if_neg (fun entries => unknown (Or.inr entries.1.1))
          rw [same, Function.update_of_ne (by intro impossible; cases impossible), outside]
          refine if_neg (fun entries => ?_)
          exact entries.2.1 (upper pdi entries.1.2.1 entries.1.2.2.1)
    · have different : place ≠ .directory pd := by
        intro same
        subst same
        exact mine rfl
      rw [Function.update_of_ne different]
      apply held_elsewhere
      simp [mine]
  refine ⟨?_, heldIs⟩
  constructor
  · exact owned.sound
  · exact owned.below
  · rw [heldIs]
    apply owned.custody.deposit
    intro _
    rw [held, if_neg unknown]
  · intro member
    rcases List.mem_cons.mp member with same | live
    · exact unknown (Or.inl same.symm)
    · exact owned.apart live
  · intro otherPd member
    exact List.mem_cons_of_mem pd (owned.wholeLive otherPd member)
  · exact owned.apic
  · intro otherPd member
    rcases List.mem_cons.mp member with same | live
    · subst same
      exact lower
    · exact owned.kernelHalf otherPd live
  · intro otherPd member pdi above below noSlot present
    rcases List.mem_cons.mp member with same | live
    · subst same
      exact absurd (upper pdi above below) present
    · exact owned.tableFlags otherPd live pdi above below noSlot present
  · intro otherPd pdi pti isPrivate present
    rcases List.mem_cons.mp isPrivate.1 with same | live
    · subst same
      exact absurd (upper pdi isPrivate.2.1 isPrivate.2.2.1) present
    · exact owned.pageFlags otherPd pdi pti ⟨live, isPrivate.2⟩ present

/-- A directory is no longer used; everything it owned is in flight. -/
theorem Owned.leave (owned : Owned config start exact vm whole free flight)
    (live : pd ∈ vm.live) {released : List Nat} (distinct : released.Nodup)
    (released_iff : ∀ frame, frame ∈ released ↔
      ∃ place, place.owner = pd ∧ held config vm place = some frame) :
    Owned config start exact { vm with live := vm.live.filter (· ≠ pd) }
        (whole.filter (· ≠ pd)) free (released ++ flight) ∧
      ∀ place, held config { vm with live := vm.live.filter (· ≠ pd) } place =
        if place.owner = pd then none else held config vm place := by
  have notShared : pd ≠ vm.shared := owned.not_shared live
  have member_iff : ∀ other, other ∈ vm.live.filter (· ≠ pd) ↔ other ∈ vm.live ∧ other ≠ pd := by
    intro other
    simp [List.mem_filter]
  have heldIs : ∀ place, held config { vm with live := vm.live.filter (· ≠ pd) } place =
      if place.owner = pd then none else held config vm place := by
    intro place
    by_cases mine : place.owner = pd
    · rw [if_pos mine]
      have absent : place.owner ∉ vm.live.filter (· ≠ pd) :=
        fun member => ((member_iff _).mp member).2 mine
      have notKnown : place.owner ≠ vm.shared := fun same => notShared (mine.symm.trans same)
      cases place with
      | directory otherPd => exact if_neg (not_or.mpr ⟨notKnown, absent⟩)
      | table otherPd pdi =>
          refine if_neg (fun entries => ?_)
          rcases entries.1 with isShared | isLive
          · exact notKnown isShared.1
          · exact absent isLive.1
      | page otherPd pdi pti => exact if_neg (fun entries => absent entries.1.1)
    · rw [if_neg mine]
      apply held_elsewhere
      rw [member_iff]
      simp [mine]
  refine ⟨?_, heldIs⟩
  constructor
  · exact owned.sound
  · exact owned.below
  · apply owned.custody.retire (fun place => place.owner = pd) distinct released_iff
    · intro place closing
      rw [heldIs, if_pos closing]
    · intro place staying
      rw [heldIs, if_neg staying]
  · intro member
    exact owned.apart ((member_iff _).mp member).1
  · intro other member
    obtain ⟨inWhole, different⟩ := List.mem_filter.mp member
    exact (member_iff other).mpr ⟨owned.wholeLive other inWhole, by simpa using different⟩
  · intro other member
    exact owned.apic other (List.mem_filter.mp member).1
  · intro other member
    exact owned.kernelHalf other ((member_iff other).mp member).1
  · intro other member
    exact owned.tableFlags other ((member_iff other).mp member).1
  · intro other pdi pti isPrivate
    exact owned.pageFlags other pdi pti ⟨((member_iff other).mp isPrivate.1).1, isPrivate.2⟩

end Directories

end AC97Kernel.VMM
