/-
Going through the records of a directory.

What `entries` hands to its callback is what the records on the disk say, in
their order, however they lie across the blocks.  The offset advances by a length
that is on the disk, too: `following` is where a record says the next one begins.
A lookup keeps the last record with its name, and an unused one may have the name
of one in use.
-/

import AC97Kernel.Library.Orbits
import AC97Kernel.Storage.Directories

set_option autoImplicit false

namespace AC97Kernel

open Slices LittleEndian Turns Orbits Relation

/-- `Node::entry_count`. -/
def Node.entryCount (node : Node) (turns : Nat) : Except Stop Nat := do
  ensure (node.isDir = true)
  let calls ← node.entries turns
  return calls.length % 2 ^ 32

/-- The fields of a record that the traversal reads lie in a directory: its header, and
its name, which is read from an offset of 32 bits. -/
def Complete (content : List UInt8) (offset : Nat) : Prop :=
  offset + 7 ≤ content.length ∧
    (decode (slice content (offset + 6) 1) = 0 ∨
      (offset + 8) % 2 ^ 32 + decode (slice content (offset + 6) 1) ≤ content.length)

instance (content : List UInt8) (offset : Nat) : Decidable (Complete content offset) :=
  inferInstanceAs (Decidable (_ ∧ _))

/-- Where the record behind the one at an offset begins. -/
def following (content : List UInt8) (offset : Nat) : Option Nat :=
  if Complete content offset then
    some ((offset + decode (slice content (offset + 4) 2)) % 2 ^ 32)
  else none

/-- What `work` makes of its arguments: a number and a string. -/
def Node.called (node : Node) (turns : Nat) : Except Stop (List (Nat × List UInt8)) := do
  let calls ← node.entries turns
  return calls.map fun call => (call.1, cstring call.2)

theorem shelf_positive : 0 < 16 := by decide

theorem shelf_short : 16 < 2 ^ 31 := by decide

/-- A node on a device with blocks of 16 bytes. -/
def shelf (mode : Nat) (content : List UInt8) (small : content.length < 2 ^ 32) : Node where
  io := .ofBytes 16 content shelf_positive shelf_short small
  data := { mode := mode, sizeLow := content.length, nSectors := 0, pointers := [] }
  sized := rfl

theorem shelf_isDir (content : List UInt8) (small : content.length < 2 ^ 32) :
    (shelf 0x4000 content small).isDir = true := by
  have type : 0x4000 >>> 12 = 4 := by decide
  exact decide_eq_true type

theorem shelf_serves (mode : Nat) (content : List UInt8) (small : content.length < 2 ^ 32) :
    (shelf mode content small).io.Serves content := BlockIO.ofBytes_serves _ _ _

namespace Node

variable {node : Node} {content : List UInt8} {records : List Record}

/-- Each record is handed over once, in the order in which they lie on the disk. -/
theorem entries_decode (isDir : node.isDir = true) (fits : ∀ record ∈ records, record.Fits)
    (noNul : ∀ record ∈ records, 0 ∉ record.name)
    (laid : node.io.Serves (records.flatMap Record.bytes)) :
    Settles .unfinished node.called
      (.ok (records.map fun record => (record.inode, record.name))) := by
  have stores : node.Stores (.directory records) := ⟨of_decide_eq_true isDir, laid⟩
  apply (entries_directory stores fits).bind
  have names : (records.map fun record => (record.inode, record.name)).map
      (fun call => (call.1, cstring call.2)) =
        records.map fun record => (record.inode, record.name) := by
    rw [List.map_map]
    apply List.map_congr_left
    intro record member
    change (record.inode, cstring record.name) = (record.inode, record.name)
    rw [cstring_eq (noNul record member)]
  rw [names]
  exact Settles.constant _

/-- The header of the second record goes on in the second block. -/
theorem entries_decode_sample :
    Settles .unfinished
      (shelf 0x4000
        ([OneName.record, Record.mk 12 7 [0x62, 0x63] []].flatMap Record.bytes) (by decide)).called
      (.ok [(11, [0x61]), (12, [0x62, 0x63])]) :=
  entries_decode (shelf_isDir _ _)
    (by
      intro record member
      simp only [List.mem_cons, List.not_mem_nil, or_false] at member
      rcases member with rfl | rfl
      · exact ⟨by decide, by decide, by decide⟩
      · exact ⟨by decide, by decide, by decide⟩)
    (by decide) (shelf_serves _ _ _)

/-! ### The offsets of a traversal -/

variable {offset : Nat}

theorem read_serves (serves : node.io.Serves content) {size : Nat} (some : 0 < size) :
    node.read offset size =
      if offset % 2 ^ 32 + size ≤ content.length then .ok (slice content (offset % 2 ^ 32) size)
      else .error .panicked := by
  unfold Node.read
  rw [serves.readThing _ some]
  by_cases inside : offset % 2 ^ 32 + size ≤ content.length
  · rw [if_pos inside, if_pos inside]
  · rw [if_neg inside, if_neg inside]

/-- A name of no bytes is read from any offset. -/
theorem readName_serves (serves : node.io.Serves content) (length : Nat) :
    node.readName offset length =
      if length = 0 ∨ offset % 2 ^ 32 + length ≤ content.length then
        .ok (slice content (offset % 2 ^ 32) length)
      else .error .panicked := by
  have size := serves.size
  have bytes := (serves.readAll_stores (offset % 2 ^ 32) length).1
  have counted : (node.io.readAll (offset % 2 ^ 32) length).outcome = .returned length ↔
      length = 0 ∨ offset % 2 ^ 32 + length ≤ content.length := by
    rcases Nat.eq_zero_or_pos length with nothing | some
    · subst nothing
      exact iff_of_true rfl (.inl rfl)
    · by_cases inside : offset % 2 ^ 32 ≤ content.length
      · rw [serves.readAll inside, Outcome.returned.injEq]
        omega
      · have past : node.io.readAll (offset % 2 ^ 32) length = .nothing (-1) :=
          BlockIO.readAll_past (by omega) some
        rw [past, Transfer.nothing, Outcome.returned.injEq]
        omega
  unfold Node.readName
  simp only [counted, bytes]

/-- One turn of the loop on any contents. -/
theorem entriesLoop_turn (serves : node.io.Serves content) (turns offset : Nat) :
    (following content offset = none ∧
      node.entriesLoop (turns + 1) offset ≠ .error .unfinished) ∨
    ∃ later call, following content offset = some later ∧
      node.entriesLoop (turns + 1) offset =
        (do
          let rest ← node.entriesLoop turns later
          return call :: rest) := by
  have word := Serves.word serves
  have sized : content.length = node.data.sizeLow := serves.size.trans node.sized
  rw [entriesLoop]
  by_cases header : offset + 7 ≤ content.length
  · have atInode : offset % 2 ^ 32 = offset := Nat.mod_eq_of_lt (by omega)
    have atTotal : (offset + 4) % 2 ^ 32 = offset + 4 := Nat.mod_eq_of_lt (by omega)
    have atLength : (offset + 6) % 2 ^ 32 = offset + 6 := Nat.mod_eq_of_lt (by omega)
    rw [if_pos (by omega), read_serves serves (by decide), read_serves serves (by decide),
      read_serves serves (by decide), atInode, atTotal, atLength, if_pos (by omega),
      if_pos (by omega), if_pos (by omega)]
    simp only [Bind.bind, Except.bind, readName_serves serves]
    by_cases name : decode (slice content (offset + 6) 1) = 0 ∨
        (offset + 8) % 2 ^ 32 + decode (slice content (offset + 6) 1) ≤ content.length
    · rw [if_pos name]
      exact .inr ⟨_, _, if_pos ⟨header, name⟩, rfl⟩
    · rw [if_neg name]
      exact .inl ⟨if_neg fun complete => name complete.2, fun same => by cases same⟩
  · -- the record is cut off, and a read of its header fails
    refine .inl ⟨if_neg fun complete => header complete.1, ?_⟩
    by_cases within : offset < node.data.sizeLow
    · rw [if_pos within, read_serves serves (by decide), read_serves serves (by decide),
        read_serves serves (by decide)]
      by_cases first : offset % 2 ^ 32 + 4 ≤ content.length
      · rw [if_pos first]
        by_cases second : (offset + 4) % 2 ^ 32 + 2 ≤ content.length
        · rw [if_pos second, if_neg (by omega)]
          exact fun same => by cases same
        · rw [if_neg second]
          exact fun same => by cases same
      · rw [if_neg first]
        exact fun same => by cases same
    · rw [if_neg within]
      exact fun same => by cases same

theorem bind_unfinished {Value Result : Type} {run : Except Stop Value} {next : Value → Result} :
    (do
      let value ← run
      return next value) = .error Stop.unfinished ↔ run = .error .unfinished :=
  bind_error_iff fun _ impossible => by cases impossible

theorem entriesLoop_spends (serves : node.io.Serves content) :
    Spends (following content) .unfinished node.entriesLoop where
  none _ := rfl
  last turns offset nothing := by
    rcases entriesLoop_turn serves turns offset with ⟨_, finished⟩ | ⟨later, call, goesOn, _⟩
    · exact finished
    · rw [nothing] at goesOn
      cases goesOn
  goesOn turns offset later steps := by
    rcases entriesLoop_turn serves turns offset with ⟨none_, _⟩ | ⟨other, call, goesOn, ran⟩
    · rw [none_] at steps
      cases steps
    · rw [steps] at goesOn
      cases goesOn
      rw [ran, bind_unfinished]

theorem following_small {later : Nat} (steps : following content offset = some later) :
    later < 2 ^ 32 := by
  unfold following at steps
  split at steps
  · cases steps
    exact Nat.mod_lt _ (by decide)
  · cases steps

/-- The traversal ends exactly when the records do not come back to one before. -/
theorem entries_ends (isDir : node.isDir = true) (serves : node.io.Serves content) :
    (∃ turns, node.entries turns ≠ .error .unfinished) ↔ ¬ Circles (following content) 0 := by
  have loop (turns : Nat) : node.entries turns = node.entriesLoop turns 0 := by
    unfold entries
    rw [ensure_true isDir]
    rfl
  have finite : {other | ReflTransGen (Steps (following content)) 0 other}.Finite :=
    reached_finite (by decide) fun _ _ steps => following_small steps
  rw [← ends_iff_straight finite, ← (entriesLoop_spends serves).ends_iff]
  exact exists_congr fun turns => by rw [loop]

theorem find_ends (turns : Nat) (name : List UInt8) :
    node.find turns name = .error .unfinished ↔ node.entries turns = .error .unfinished :=
  bind_unfinished

theorem entryCount_ends (isDir : node.isDir = true) (turns : Nat) :
    node.entryCount turns = .error .unfinished ↔ node.entries turns = .error .unfinished := by
  unfold entryCount
  rw [ensure_true isDir]
  exact bind_unfinished

/-- In a directory that a length cannot lead past the 32-bit offsets, none leads back. -/
theorem following_grows (small : content.length + 2 ^ 16 ≤ 2 ^ 32) (earlier later : Nat)
    (steps : following content earlier = some later) : earlier ≤ later := by
  unfold following at steps
  split at steps
  · rename_i complete
    have header := complete.1
    have length := decode_lt (slice content (earlier + 4) 2)
    have two : (slice content (earlier + 4) 2).length = 2 := by
      rw [length_slice]
      omega
    rw [two] at length
    cases steps
    omega
  · cases steps

/-- When the traversal ends, whatever the directory holds, and with it a lookup and the
count of the entries.  Short of 4 GB it does unless it gets to a record of length 0. -/
theorem traversal_ends (isDir : node.isDir = true) (serves : node.io.Serves content) :
    ((∃ turns, node.entries turns ≠ .error .unfinished) ↔ ¬ Circles (following content) 0) ∧
    (∀ name, (∃ turns, node.find turns name ≠ .error .unfinished) ↔
      ¬ Circles (following content) 0) ∧
    ((∃ turns, node.entryCount turns ≠ .error .unfinished) ↔ ¬ Circles (following content) 0) ∧
    (content.length + 2 ^ 16 ≤ 2 ^ 32 →
      (Circles (following content) 0 ↔
        ∃ offset, ReflTransGen (Steps (following content)) 0 offset ∧
          following content offset = some offset)) := by
  refine ⟨entries_ends isDir serves, ?_, ?_, ?_⟩
  · intro name
    rw [← entries_ends isDir serves]
    exact exists_congr fun turns => not_congr (find_ends turns name)
  · rw [← entries_ends isDir serves]
    exact exists_congr fun turns => not_congr (entryCount_ends isDir turns)
  · intro small
    exact circles_iff_stays (following_grows small)

private theorem one_record_ends : ¬ Circles (following OneName.record.bytes) 0 := by
  have first : following OneName.record.bytes 0 = some 12 := by decide
  have last : following OneName.record.bytes 12 = none := by decide
  exact (Ends.turn first (.stop last)).not_circles

theorem traversal_ends_sample :
    ∃ turns, OneName.rootNode.entries turns ≠ .error .unfinished := by
  have isDir : OneName.rootNode.isDir = true := by decide
  have serves : OneName.rootNode.io.Serves OneName.record.bytes := BlockIO.ofBytes_serves _ _ _
  exact (traversal_ends isDir serves).1.2 one_record_ends

/-- Of zeros alone the first record has length 0, and the offset stays where it is. -/
theorem traversal_of_zeros :
    ¬ ∃ turns, (shelf 0x4000 (List.replicate 12 0) (by decide)).entries turns ≠
      .error .unfinished := by
  rw [entries_ends (shelf_isDir _ _) (shelf_serves _ _ _), not_not]
  have stays : following (List.replicate 12 0) 0 = some 0 := by decide
  exact ⟨0, .refl, .single stays⟩

end Node

/-! ### Names that unused records keep -/

section Stale

variable {records : List Record} {name : List UInt8}

/-- A lookup answers with the record in use that has the name, and with 0 where there is
none, exactly when no unused record behind that one keeps its name. -/
theorem Node.find_live {node : Node} (isDir : node.isDir = true)
    (laid : node.io.Serves (records.flatMap Record.bytes))
    (fits : ∀ record ∈ records, record.Fits)
    (liveNames : ∀ record ∈ records, record.Live → 0 ∉ record.name)
    (distinct : ((records.filter fun record => record.Live).map Record.name).Nodup)
    (noNul : 0 ∉ name) :
    Settles .unfinished (fun turns => node.find turns name)
        (.ok (Reader.format.find records name)) ↔ Unshadowed records name := by
  have stores : node.Stores (.directory records) := ⟨of_decide_eq_true isDir, laid⟩
  have settles := Node.find_directory stores fits name
  rw [← find_agrees_iff liveNames distinct noNul]
  constructor
  · intro other
    exact Except.ok.inj (settles.unique other)
  · intro agrees
    rw [← agrees]
    exact settles

theorem find_live_sample :
    Settles .unfinished (fun turns => OneName.rootNode.find turns [0x61]) (.ok 11) := by
  have fits : ∀ record ∈ [OneName.record], record.Fits := by
    intro record member
    rw [List.mem_singleton.1 member]
    exact ⟨by decide, by decide, by decide⟩
  have laid : OneName.rootNode.io.Serves ([OneName.record].flatMap Record.bytes) :=
    BlockIO.ofBytes_serves _ _ _
  refine (Node.find_live (by decide) laid fits (by decide) (by decide) (by decide)).2 ?_
  intro before record after split live named unused member dead
  have alive : ∀ record ∈ [OneName.record], record.Live := by decide
  refine absurd (alive unused ?_) dead
  rw [split]
  exact List.mem_append_right _ (List.mem_cons_of_mem _ member)

/-- The name of a file that has been created again, and after it a record that is no
longer used and has the same name. -/
def staleRecords : List Record :=
  [OneName.record, { inode := 0, fileType := 0, name := [0x61], padding := [0, 0, 0] }]

theorem find_of_stale_name :
    ¬ Settles .unfinished
      (fun turns => (shelf 0x4000 (staleRecords.flatMap Record.bytes) (by decide)).find turns [0x61])
      (.ok (Reader.format.find staleRecords [0x61])) := by
  have fits : ∀ record ∈ staleRecords, record.Fits := by
    intro record member
    simp only [staleRecords, List.mem_cons, List.not_mem_nil, or_false] at member
    rcases member with rfl | rfl
    · exact ⟨by decide, by decide, by decide⟩
    · exact ⟨by decide, by decide, by decide⟩
  have found := Node.find_directory ⟨of_decide_eq_true (shelf_isDir _ (by decide)),
    shelf_serves 0x4000 (staleRecords.flatMap Record.bytes) (by decide)⟩ fits [0x61]
  intro settles
  have same := Except.ok.inj (found.unique settles)
  exact absurd same (by decide)

end Stale

end AC97Kernel
