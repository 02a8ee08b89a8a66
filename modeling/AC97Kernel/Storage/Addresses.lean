/-
When the byte addresses of the file system are exact.

A reading is sound when no address it gives to the disk is cut off and it divides
by nothing that is 0.  Soundness goes through a sequence of steps one by one, so
that what it takes for a function of the file system is read off its text.
-/

import AC97Kernel.Storage.Files

set_option autoImplicit false

namespace AC97Kernel

open Slices LittleEndian

namespace Reading

variable {First Second : Type}

/-- Every address is passed on unchanged, and no division is by 0. -/
structure Sound (reading : Reading First) : Prop where
  exact : ∀ address ∈ reading.addresses, address % 2 ^ 32 = address
  divides : reading.result ≠ .error .divided

/-- The reading is sound, and `holds` is true of what it results in. -/
def Leads (reading : Reading First) (holds : First → Prop) : Prop :=
  reading.Sound ∧ ∀ value, reading.result = .ok value → holds value

theorem leads_true {reading : Reading First} : (reading.Leads fun _ => True) ↔ reading.Sound := by
  constructor
  · intro leads
    exact leads.1
  · intro sound
    exact ⟨sound, fun _ _ => trivial⟩

/-- A step that reads nothing leads to its result. -/
theorem leads_silent {reading : Reading First} {holds : First → Prop}
    (silent : reading.addresses = []) :
    reading.Leads holds ↔
      reading.result ≠ .error .divided ∧ ∀ value, reading.result = .ok value → holds value := by
  constructor
  · intro leads
    exact ⟨leads.1.divides, leads.2⟩
  · intro both
    refine ⟨⟨?_, both.1⟩, both.2⟩
    intro address member
    rw [silent] at member
    cases member

@[simp] theorem leads_pure {value : First} {holds : First → Prop} :
    (pure value : Reading First).Leads holds ↔ holds value := by
  rw [leads_silent rfl]
  constructor
  · intro both
    exact both.2 value rfl
  · intro holdsIt
    refine ⟨by simp, ?_⟩
    intro other same
    cases same
    exact holdsIt

@[simp] theorem leads_panic {holds : First → Prop} : (panic : Reading First).Leads holds := by
  rw [leads_silent rfl]
  refine ⟨by simp [panic], ?_⟩
  intro value impossible
  cases impossible

@[simp] theorem leads_assert {asserted : Prop} [Decidable asserted] {holds : Unit → Prop} :
    (assert asserted).Leads holds ↔ (asserted → holds ()) := by
  rw [leads_silent rfl]
  unfold assert
  by_cases true' : asserted
  · rw [if_pos true']
    constructor
    · intro both _
      exact both.2 () rfl
    · intro later
      exact ⟨by simp, fun _ _ => later true'⟩
  · simp [true']

@[simp] theorem leads_divide {dividend divisor : Nat} {holds : Nat → Prop} :
    (divide dividend divisor).Leads holds ↔ divisor ≠ 0 ∧ holds (dividend / divisor) := by
  rw [leads_silent rfl]
  unfold divide
  by_cases zero : divisor = 0
  · simp [zero]
  · simp [zero]

theorem leads_ite {condition : Prop} [Decidable condition] {first second : Reading First}
    {holds : First → Prop} :
    (if condition then first else second).Leads holds ↔
      if condition then first.Leads holds else second.Leads holds := by
  split
  · rfl
  · rfl

/-- One address is sound when it is a word. -/
theorem sound_single {address : Nat} {result : Except Fault First}
    (divides : result ≠ .error .divided) :
    ({ addresses := [address], result := result } : Reading First).Sound ↔ address < 2 ^ 32 := by
  constructor
  · intro sound
    have exact := sound.exact address (List.mem_singleton_self address)
    omega
  · intro word
    refine ⟨?_, divides⟩
    intro other member
    rw [List.mem_singleton] at member
    rw [member, Nat.mod_eq_of_lt word]

theorem sound_fetch {ide : BlockIO} {address size : Nat} :
    (fetch ide address size).Sound ↔ address < 2 ^ 32 := by
  apply sound_single
  cases ide.readThing (address % 2 ^ 32) size with
  | none => simp
  | some bytes => simp

variable {first : Reading First} {next : First → Reading Second}

theorem bind_addresses {value : First} (ran : first.result = .ok value) :
    (first >>= next).addresses = first.addresses ++ (next value).addresses := by
  change (Reading.bind first next).addresses = _
  unfold Reading.bind
  rw [ran]

theorem bind_addresses_error {fault : Fault} (failed : first.result = .error fault) :
    (first >>= next).addresses = first.addresses := by
  change (Reading.bind first next).addresses = _
  unfold Reading.bind
  rw [failed]

/-- Two steps are sound when the first is, and the second where it is reached. -/
theorem sound_bind : (first >>= next).Sound ↔ first.Leads fun value => (next value).Sound := by
  unfold Leads
  cases ran : first.result with
  | error fault =>
      constructor
      · intro sound
        refine ⟨⟨?_, ?_⟩, by intro value impossible; cases impossible⟩
        · rw [← bind_addresses_error ran]
          exact sound.exact
        · have divides := sound.divides
          rw [bind_error ran] at divides
          rw [ran]
          intro same
          cases same
          exact divides rfl
      · intro both
        constructor
        · rw [bind_addresses_error ran]
          exact both.1.exact
        · have divides := both.1.divides
          rw [ran] at divides
          rw [bind_error ran]
          intro same
          cases same
          exact divides rfl
  | ok value =>
      constructor
      · intro sound
        have exact := sound.exact
        rw [bind_addresses ran, List.forall_mem_append] at exact
        have divides := sound.divides
        rw [bind_result ran] at divides
        refine ⟨⟨exact.1, by rw [ran]; intro impossible; cases impossible⟩, ?_⟩
        intro other same
        cases same
        exact ⟨exact.2, divides⟩
      · intro both
        have second := both.2 value rfl
        constructor
        · rw [bind_addresses ran, List.forall_mem_append]
          exact ⟨both.1.exact, second.exact⟩
        · rw [bind_result ran]
          exact second.divides

theorem bind_ok {result : Second} :
    (first >>= next).result = .ok result ↔
      ∃ value, first.result = .ok value ∧ (next value).result = .ok result := by
  cases ran : first.result with
  | error fault =>
      rw [bind_error ran]
      constructor
      · intro impossible
        cases impossible
      · rintro ⟨value, impossible, _⟩
        cases impossible
  | ok value =>
      rw [bind_result ran]
      constructor
      · intro same
        exact ⟨value, rfl, same⟩
      · rintro ⟨other, same, later⟩
        cases same
        exact later

/-- What a sequence leads to is what its first step leads the rest to. -/
@[simp] theorem leads_bind {holds : Second → Prop} :
    (first >>= next).Leads holds ↔ first.Leads fun value => (next value).Leads holds := by
  constructor
  · intro leads
    have sound := sound_bind.mp leads.1
    refine ⟨sound.1, ?_⟩
    intro value ran
    refine ⟨sound.2 value ran, ?_⟩
    intro result later
    exact leads.2 result (bind_ok.mpr ⟨value, ran, later⟩)
  · intro leads
    refine ⟨sound_bind.mpr ⟨leads.1, fun value ran => (leads.2 value ran).1⟩, ?_⟩
    intro result ran
    obtain ⟨value, before, later⟩ := bind_ok.mp ran
    exact (leads.2 value before).2 result later

/-! ### Divisions by 0 -/

theorem bind_divided :
    (first >>= next).result = .error .divided ↔
      first.result = .error .divided ∨
        ∃ value, first.result = .ok value ∧ (next value).result = .error .divided := by
  cases ran : first.result with
  | error fault =>
      rw [bind_error ran]
      simp
  | ok value =>
      rw [bind_result ran]
      simp

@[simp] theorem pure_divided (value : First) :
    (pure value : Reading First).result ≠ .error .divided := by
  simp

theorem assert_bind_divided {asserted : Prop} [Decidable asserted] {next : Unit → Reading Second} :
    (assert asserted >>= next).result = .error .divided ↔
      asserted ∧ (next ()).result = .error .divided := by
  rw [bind_divided]
  unfold assert
  by_cases true' : asserted
  · simp only [if_pos, true', reduceCtorEq, false_or, true_and]
    constructor
    · intro reached
      obtain ⟨value, later⟩ := reached
      exact later
    · intro later
      exact ⟨(), later⟩
  · simp [true']

theorem divide_bind_divided {dividend divisor : Nat} {next : Nat → Reading Second} :
    (divide dividend divisor >>= next).result = .error .divided ↔
      divisor = 0 ∨ divisor ≠ 0 ∧ (next (dividend / divisor)).result = .error .divided := by
  rw [bind_divided]
  unfold divide
  by_cases zero : divisor = 0
  · simp [zero]
  · simp [zero]

end Reading

open Reading

/-- A pointer that is read at a word address, and what follows where it is on the
disk. -/
def PointerFits (image : Nat → UInt8) (address : Nat) (next : Nat → Prop) : Prop :=
  address < 2 ^ 32 ∧ (address + 4 < 2 ^ 32 → next (wordOn image address))

/-- The pointers on the way to a block of a file, and the block, have byte addresses
of 32 bits. -/
def BlockFits (image : Nat → UInt8) (blockSize : Nat) (data : NodeData) (index : Nat) : Prop :=
  let refsPerBlock := blockSize / 4
  if index < 12 then data.pointer index * blockSize < 2 ^ 32
  else if index < (12 + refsPerBlock) % 2 ^ 32 then
    PointerFits image (data.indirect1 * blockSize + (index - 12) * 4)
      fun block => block * blockSize < 2 ^ 32
  else if index < (12 + refsPerBlock + refsPerBlock * refsPerBlock) % 2 ^ 32 then
    PointerFits image
      (data.indirect2 * blockSize + (index - 12 - refsPerBlock) / refsPerBlock * 4)
      fun singly => PointerFits image
        (singly * blockSize + (index - 12 - refsPerBlock) % refsPerBlock * 4)
        fun block => block * blockSize < 2 ^ 32
  else True

section Blocks

variable {image : Nat → UInt8} {blockSize index : Nat} {data : NodeData}

/-- A pointer is read where it lies on the disk as a whole. -/
theorem pointerAt_ide {address block : Nat} (word : address < 2 ^ 32) :
    (pointerAt (Ide image) address).result = .ok block ↔
      address + 4 < 2 ^ 32 ∧ block = wordOn image address := by
  rw [pointerAt_wrapped, Nat.mod_eq_of_lt word]
  by_cases inside : address + 4 < 2 ^ 32
  · rw [if_pos inside, and_iff_right inside]
    constructor
    · intro same
      exact (Except.ok.inj same).symm
    · intro same
      rw [same]
  · rw [if_neg inside]
    constructor
    · intro impossible
      cases impossible
    · intro both
      exact absurd both.1 inside

/-- Reading a pointer leads to the word that the disk has there. -/
theorem leads_pointerAt {address : Nat} {holds : Nat → Prop} :
    (pointerAt (Ide image) address).Leads holds ↔ PointerFits image address holds := by
  have sound : (pointerAt (Ide image) address).Sound ↔ address < 2 ^ 32 := by
    unfold pointerAt
    rw [sound_bind]
    constructor
    · intro both
      exact sound_fetch.mp both.1
    · intro word
      exact ⟨sound_fetch.mpr word, fun _ _ => leads_true.mp (leads_pure.mpr trivial)⟩
  unfold Leads PointerFits
  rw [sound]
  constructor
  · intro both
    refine ⟨both.1, ?_⟩
    intro inside
    exact both.2 _ ((pointerAt_ide both.1).mpr ⟨inside, rfl⟩)
  · intro both
    refine ⟨both.1, ?_⟩
    intro block ran
    obtain ⟨inside, same⟩ := (pointerAt_ide both.1).mp ran
    rw [same]
    exact both.2 inside

/-- `read_block` is sound for blocks of a sector or more and pointers that fit. -/
theorem readDataBlock_sound :
    (readDataBlock (Ide image) blockSize data index).Sound ↔
      512 ≤ blockSize ∧
        (index < data.nSectors / (blockSize / 512) → BlockFits image blockSize data index) := by
  have unit : blockSize / 512 ≠ 0 ↔ 512 ≤ blockSize := by omega
  have transfer (address : Nat) :
      ({ addresses := [address],
         result := .ok ((Ide image).readAll (address % 2 ^ 32) blockSize) } :
        Reading Transfer).Sound ↔ address < 2 ^ 32 :=
    sound_single (by intro impossible; cases impossible)
  unfold readDataBlock blockIndex BlockFits
  rw [sound_bind]
  simp only [leads_bind, leads_divide, leads_assert, leads_ite, leads_pure, leads_panic,
    leads_pointerAt, transfer, unit]
  refine and_congr_right fun _ => imp_congr_right fun _ => ?_
  split
  · rfl
  · split
    · rfl
    · split
      · rfl
      · simp

end Blocks

/-- The inode that passes the checks of `get_node` has a byte address of 32 bits. -/
def NodeFits (fs : Ext2) (number : Nat) : Prop :=
  let index := number - 1
  let group := index / fs.iNodesPerGroup
  0 < number → number ≤ fs.numberOfNodes → group < fs.nGroups →
    fs.iNodeTables.getD group 0 ≤ fs.numberOfBlocks →
      fs.iNodeTables.getD group 0 * fs.blockSize + index % fs.iNodesPerGroup * fs.iNodeSize < 2 ^ 32

namespace Ext2

variable {fs : Ext2} {image : Nat → UInt8} {number : Nat}

theorem getNode_sound (grouped : fs.iNodesPerGroup ≠ 0) :
    (fs.getNode number).Sound ↔ NodeFits fs number := by
  have fetched (address : Nat) :
      ((fetch fs.ide address NodeData.size).Leads fun bytes =>
        (pure (NodeData.ofBytes bytes) : Reading NodeData).Leads fun _ => True) ↔
        address < 2 ^ 32 := by
    simp only [leads_pure]
    rw [leads_true, sound_fetch]
  unfold getNode NodeFits
  rw [← leads_true]
  simp only [leads_bind, leads_divide, leads_assert, fetched, gt_iff_lt]
  constructor
  · intro sound positive known inGroups onDisk
    exact (sound positive known).2 inGroups onDisk
  · intro fits positive known
    exact ⟨grouped, fits positive known⟩

/-- `get_node` divides by 0 exactly for a known inode in groups of none. -/
theorem getNode_divided :
    (fs.getNode number).result = .error .divided ↔
      0 < number ∧ number ≤ fs.numberOfNodes ∧ fs.iNodesPerGroup = 0 := by
  have fetched (address : Nat) :
      ¬ (fetch fs.ide address NodeData.size >>= fun bytes =>
        (pure (NodeData.ofBytes bytes) : Reading NodeData)).result = .error .divided := by
    rw [bind_divided]
    rintro (atFetch | ⟨bytes, _, impossible⟩)
    · unfold fetch at atFetch
      split at atFetch
      · cases atFetch
      · cases atFetch
    · exact pure_divided _ impossible
  unfold getNode
  simp only [assert_bind_divided, divide_bind_divided, fetched, and_false, or_false, gt_iff_lt]

/-- The super block of a disk. -/
def superBlock (image : Nat → UInt8) : SuperBlock :=
  .ofBytes (tabulate (fun index => image (1024 + index)) SuperBlock.size)

theorem fetch_superBlock :
    (fetch (Ide image) 1024 SuperBlock.size).result =
      .ok (tabulate (fun index => image (1024 + index)) SuperBlock.size) :=
  fetch_result (Ide_serves image) (by decide) (by decide)

/-- Reading the tables divides by 0 exactly when there are no blocks in a group. -/
theorem tables_divided {ide : BlockIO} {bytes : List UInt8}
    (fetched : (fetch ide 1024 SuperBlock.size).result = .ok bytes) :
    (tables ide).result = .error .divided ↔ (SuperBlock.ofBytes bytes).blocksPerGroup = 0 := by
  have groups {blocksCount blocksPerGroup : Nat} :
      (groupsFor blocksCount blocksPerGroup).result = .error .divided ↔ blocksPerGroup = 0 := by
    unfold groupsFor divide
    by_cases zero : blocksPerGroup = 0
    · simp [zero]
    · simp [zero]
  unfold tables
  rw [bind_result fetched, bind_divided, groups]
  simp only [assert_bind_divided, pure_divided, and_false, exists_false, or_false]

/-- The fields of a mounted file system that come from the super block. -/
theorem tables_fields (read : (tables (Ide image)).result = .ok fs) :
    fs.ide = Ide image ∧ fs.numberOfNodes = (superBlock image).inodesCount ∧
      fs.iNodesPerGroup = (superBlock image).inodesPerGroup := by
  unfold tables at read
  obtain ⟨bytes, fetched, read⟩ := bind_ok.mp read
  rw [fetch_superBlock] at fetched
  cases fetched
  obtain ⟨groups, _, read⟩ := bind_ok.mp read
  obtain ⟨_, _, read⟩ := bind_ok.mp read
  obtain ⟨_, _, read⟩ := bind_ok.mp read
  obtain ⟨_, _, read⟩ := bind_ok.mp read
  cases read
  exact ⟨rfl, rfl, rfl⟩

/-- What is mounted was read from the tables, and its root directory is an inode. -/
theorem mount_ok :
    (mount (Ide image)).result = .ok fs ↔
      (tables (Ide image)).result = .ok fs ∧ ∃ root, (fs.getNode 2).result = .ok root := by
  unfold mount
  rw [bind_ok]
  constructor
  · rintro ⟨tabled, read, later⟩
    obtain ⟨root, found, same⟩ := bind_ok.mp later
    cases same
    exact ⟨read, root, found⟩
  · rintro ⟨read, root, found⟩
    exact ⟨fs, read, bind_ok.mpr ⟨root, found, rfl⟩⟩

end Ext2

open Ext2

/-- No division by 0 on the way to a mounted file system, and on a mounted one every
address is passed on unchanged, with no division by 0. -/
def AddressesExact (image : Nat → UInt8) (number : Nat) (data : NodeData) (index : Nat) : Prop :=
  (mount (Ide image)).result ≠ .error .divided ∧
    ∀ fs, (mount (Ide image)).result = .ok fs →
      (fs.getNode number).Sound ∧ (readDataBlock fs.ide fs.blockSize data index).Sound

/-- Groups have blocks and, as far as they are asked for, inodes; the blocks of an
accepted file system are a sector or more, and the byte addresses in question are
of 32 bits. -/
structure Addressable (image : Nat → UInt8) (number : Nat) (data : NodeData) (index : Nat) :
    Prop where
  blocks : (superBlock image).blocksPerGroup ≠ 0
  inodes : ∀ fs, (tables (Ide image)).result = .ok fs → 2 ≤ (superBlock image).inodesCount →
    (superBlock image).inodesPerGroup ≠ 0
  node : ∀ fs, (mount (Ide image)).result = .ok fs → NodeFits fs number
  unit : ∀ fs, (mount (Ide image)).result = .ok fs → 512 ≤ fs.blockSize
  block : ∀ fs, (mount (Ide image)).result = .ok fs →
    index < data.nSectors / (fs.blockSize / 512) → BlockFits image fs.blockSize data index

/-- Mounting divides by zero in the constructor only. -/
private theorem mount_noDivision (image : Nat → UInt8) :
    (mount (Ide image)).result ≠ .error .divided ↔
      (superBlock image).blocksPerGroup ≠ 0 ∧
        ∀ fs, (tables (Ide image)).result = .ok fs → 2 ≤ (superBlock image).inodesCount →
          (superBlock image).inodesPerGroup ≠ 0 := by
  have atRoot (fs : Ext2) (read : (tables (Ide image)).result = .ok fs) :
      (fs.getNode 2 >>= fun _ => pure fs).result = .error .divided ↔
        2 ≤ (superBlock image).inodesCount ∧ (superBlock image).inodesPerGroup = 0 := by
    obtain ⟨_, nodes, perGroup⟩ := tables_fields read
    rw [bind_divided, getNode_divided, nodes, perGroup]
    simp
  unfold mount
  rw [Ne, bind_divided, tables_divided fetch_superBlock, not_or, not_exists]
  refine and_congr_right fun _ => forall_congr' fun fs => ?_
  rw [not_and]
  refine imp_congr_right fun read => ?_
  rw [atRoot fs read, not_and]

/-- A file system whose root could be read has inodes in its groups. -/
private theorem mounted_grouped {image : Nat → UInt8} {fs : Ext2}
    (mounted : (mount (Ide image)).result = .ok fs) : fs.iNodesPerGroup ≠ 0 := by
  obtain ⟨_, root, found⟩ := mount_ok.mp mounted
  intro none
  have known : 2 ≤ fs.numberOfNodes := by
    by_contra unknown
    unfold getNode at found
    obtain ⟨_, _, later⟩ := bind_ok.mp found
    obtain ⟨_, asserted, _⟩ := bind_ok.mp later
    rw [assert, if_neg unknown] at asserted
    cases asserted
  rw [getNode_divided.mpr ⟨by decide, known, none⟩] at found
  cases found

private theorem mounted_sound {image : Nat → UInt8} {fs : Ext2} (number : Nat) (data : NodeData)
    (index : Nat) (mounted : (mount (Ide image)).result = .ok fs) :
    (fs.getNode number).Sound ∧ (readDataBlock fs.ide fs.blockSize data index).Sound ↔
      NodeFits fs number ∧ 512 ≤ fs.blockSize ∧
        (index < data.nSectors / (fs.blockSize / 512) →
          BlockFits image fs.blockSize data index) := by
  obtain ⟨read, _, _⟩ := mount_ok.mp mounted
  rw [getNode_sound (mounted_grouped mounted), (tables_fields read).1, readDataBlock_sound]

/-- A disk of 8 GB in blocks of 1024 bytes, in one group whose inode table starts at
4 GB. -/
def lateTable (address : Nat) : UInt8 :=
  let superBlockBytes :=
    encode 4 2 ++ encode 4 0x800000 ++ List.replicate 16 0 ++ encode 4 0 ++ encode 4 0 ++
      encode 4 0x800000 ++ encode 4 0 ++ encode 4 2 ++ List.replicate 44 0 ++ encode 2 128
  let groupBytes := encode 4 0 ++ encode 4 0 ++ encode 4 0x400000
  if address < 2048 then superBlockBytes.getD (address - 1024) 0
  else groupBytes.getD (address - 2048) 0

end AC97Kernel
