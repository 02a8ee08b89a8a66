/-
The handle tables of a process, as kernel/process.cc and kernel/process.h keep
them.

An id is an `int`; its upper four bits are the kind and the others the index.
The operations come one after the other.  The threads and the address space of
the process are not part of this file.  `wait` comes back when the child has set
its status, which `get` delivers.
-/

import AC97Kernel.Calls.Buffers
import Mathlib.Data.Nat.Bitwise
import Mathlib.Data.List.Perm.Subperm
import Mathlib.Data.Option.Basic
import Mathlib.Logic.Function.Basic

set_option autoImplicit false

namespace AC97Kernel

/-- The three tables of a process. -/
structure Handles (File Semaphore Future : Type) where
  files : Nat → Option File
  sems : Nat → Option Semaphore
  children : Nat → Option Future

namespace Handles

abbrev Id := BitVec 32

def NFILE : Nat := 10

def NSEM : Nat := 10

def NCHILD : Nat := 10

def FL : Id := 0x00000000

def PROC : Id := 0x10000000

def SEM : Id := 0x20000000

def INDEX_MASK : Id := 0x0FFFFFFF

def error : Id := -1

/-- The index of an id of a kind that has `count` slots, or -1. -/
def indexOf (wanted : Id) (count : Nat) (id : Id) : Int :=
  let kind := id &&& 0xF0000000
  let index := id &&& INDEX_MASK
  if kind ≠ wanted then -1
  else if index.toInt ≥ count then -1
  else index.toInt

def getSemaphoreIndex : Id → Int := indexOf SEM NSEM

def getChildIndex : Id → Int := indexOf PROC NCHILD

def getFileIndex : Id → Int := indexOf FL NFILE

/-- The first slot that is null. -/
def firstFree {Item : Type} (table : Nat → Option Item) (count : Nat) : Option Nat :=
  (List.range count).find? fun index => (table index).isNone

variable {File Semaphore Future : Type}

/-- What an operation returns, and the child whose status it has delivered. -/
structure Result (File Semaphore Future : Type) where
  handles : Handles File Semaphore Future
  returned : Id
  delivered : Option Future

def newSemaphore (handles : Handles File Semaphore Future) (made : Semaphore) :
    Result File Semaphore Future :=
  match firstFree handles.sems NSEM with
  | some index =>
      { handles := { handles with sems := Function.update handles.sems index (some made) }
        returned := SEM ||| (BitVec.ofNat 32 index &&& INDEX_MASK)
        delivered := none }
  | none => { handles := handles, returned := error, delivered := none }

def getSemaphore (handles : Handles File Semaphore Future) (id : Id) : Option Semaphore :=
  let index := id &&& INDEX_MASK
  if index.toInt ≥ NSEM ∨ id &&& 0xF0000000 ≠ SEM then none else handles.sems index.toNat

def getFile (handles : Handles File Semaphore Future) (fd : Id) : Option File :=
  if getFileIndex fd < 0 then none else handles.files fd.toNat

def setFile (handles : Handles File Semaphore Future) (file : File) :
    Result File Semaphore Future :=
  match firstFree handles.files NFILE with
  | some index =>
      { handles := { handles with files := Function.update handles.files index (some file) }
        returned := BitVec.ofNat 32 index
        delivered := none }
  | none => { handles := handles, returned := error, delivered := none }

/-- The child gets the semaphores and files; `output` is where it will set its status. -/
def fork (handles : Handles File Semaphore Future) (output : Future) :
    Option (Handles File Semaphore Future) × Result File Semaphore Future :=
  match firstFree handles.children NCHILD with
  | some index =>
      (some
        { files := handles.files
          sems := handles.sems
          children := fun _ => none },
        { handles := { handles with children := Function.update handles.children index (some output) }
          returned := PROC ||| BitVec.ofNat 32 index
          delivered := none })
  | none => (none, { handles := handles, returned := error, delivered := none })

def close (handles : Handles File Semaphore Future) (id : Id) : Result File Semaphore Future :=
  let failed : Result File Semaphore Future :=
    { handles := handles, returned := error, delivered := none }
  if getSemaphoreIndex id ≠ -1 then
    let index := (getSemaphoreIndex id).toNat
    match handles.sems index with
    | none => failed
    | some _ =>
        { handles := { handles with sems := Function.update handles.sems index none }
          returned := 0
          delivered := none }
  else if getChildIndex id ≠ -1 then
    let index := (getChildIndex id).toNat
    match handles.children index with
    | none => failed
    | some _ =>
        { handles := { handles with children := Function.update handles.children index none }
          returned := 0
          delivered := none }
  else if getFileIndex id ≠ -1 then
    let index := (getFileIndex id).toNat
    match handles.files index with
    | none => failed
    | some _ =>
        { handles := { handles with files := Function.update handles.files index none }
          returned := 0
          delivered := none }
  else failed

def wait (handles : Handles File Semaphore Future) (id : Id) : Result File Semaphore Future :=
  let index := getChildIndex id
  if index < 0 then
    { handles := handles, returned := BitVec.ofInt 32 index, delivered := none }
  else
    match handles.children index.toNat with
    | none => { handles := handles, returned := error, delivered := none }
    | some child =>
        { handles := { handles with
            children := Function.update handles.children index.toNat none }
          returned := 0
          delivered := some child }

inductive Operation (File Semaphore Future : Type) where
  | newSemaphore (made : Semaphore)
  | setFile (file : File)
  | fork (output : Future)
  | close (id : Id)
  | wait (id : Id)

def step (handles : Handles File Semaphore Future) :
    Operation File Semaphore Future → Result File Semaphore Future
  | .newSemaphore made => handles.newSemaphore made
  | .setFile file => handles.setFile file
  | .fork output => (handles.fork output).2
  | .close id => handles.close id
  | .wait id => handles.wait id

/-! ### Ids and slots -/

/-- The mask keeps the upper four bits of a word. -/
private theorem and_high {n : Nat} (word : n < 2 ^ 32) : n &&& 0xF0000000 = n / 2 ^ 28 * 2 ^ 28 := by
  apply Nat.eq_of_testBit_eq
  intro bit
  have mask : 0xF0000000 = (2 ^ 4 - 1) * 2 ^ 28 := by decide
  rw [Nat.testBit_and, mask, Nat.testBit_mul_two_pow, Nat.testBit_mul_two_pow,
    Nat.testBit_two_pow_sub_one, Nat.testBit_div_two_pow]
  by_cases high : 28 ≤ bit
  · rw [Nat.sub_add_cancel high]
    by_cases inWord : bit < 32
    · have small : bit - 28 < 4 := by omega
      simp [high, small]
    · rw [Nat.testBit_lt_two_pow (Nat.lt_of_lt_of_le word
        (Nat.pow_le_pow_right (by decide) (by omega)))]
      simp
  · simp [high]

theorem kind_iff (id wanted : Id) :
    id &&& 0xF0000000 = wanted ↔ id.toNat / 2 ^ 28 * 2 ^ 28 = wanted.toNat := by
  have mask : (0xF0000000 : Id).toNat = 0xF0000000 := rfl
  rw [← BitVec.toNat_inj, BitVec.toNat_and, mask, and_high id.isLt]

theorem index_toNat (id : Id) : (id &&& INDEX_MASK).toNat = id.toNat % 2 ^ 28 := by
  have mask : INDEX_MASK.toNat = 2 ^ 28 - 1 := rfl
  rw [BitVec.toNat_and, mask, Nat.and_two_pow_sub_one_eq_mod]

theorem index_toInt (id : Id) : (id &&& INDEX_MASK).toInt = (id.toNat % 2 ^ 28 : Nat) := by
  rw [BitVec.toInt_eq_toNat_of_lt (by rw [index_toNat]; omega), index_toNat]

/-- The ids of a kind are consecutive words from its constant on. -/
theorem indexOf_eq (wanted : Id) (aligned : wanted.toNat % 2 ^ 28 = 0) {count : Nat}
    (few : count ≤ 2 ^ 28) (id : Id) :
    indexOf wanted count id =
      if wanted.toNat ≤ id.toNat ∧ id.toNat < wanted.toNat + count then
        ((id.toNat - wanted.toNat : Nat) : Int)
      else -1 := by
  unfold indexOf
  simp only [index_toInt, ne_eq, kind_iff]
  by_cases kind : id.toNat / 2 ^ 28 * 2 ^ 28 = wanted.toNat
  · rw [if_neg (by omega)]
    by_cases inTable : id.toNat % 2 ^ 28 < count
    · rw [if_neg (by omega), if_pos (by omega)]
      congr 1
      omega
    · rw [if_pos (by omega), if_neg (by omega)]
  · rw [if_pos kind, if_neg (by omega)]

inductive Kind where
  | semaphore
  | child
  | file
deriving DecidableEq

def Kind.tag : Kind → Id
  | .semaphore => SEM
  | .child => PROC
  | .file => FL

def Kind.slots : Kind → Nat
  | .semaphore => NSEM
  | .child => NCHILD
  | .file => NFILE

/-- The id of a slot. -/
def Kind.id (kind : Kind) (index : Nat) : Id :=
  BitVec.ofNat 32 (kind.tag.toNat + index)

/-- The slot that an id names. -/
def slotOf (id : Id) : Option (Kind × Nat) :=
  if getSemaphoreIndex id ≠ -1 then some (.semaphore, (getSemaphoreIndex id).toNat)
  else if getChildIndex id ≠ -1 then some (.child, (getChildIndex id).toNat)
  else if getFileIndex id ≠ -1 then some (.file, (getFileIndex id).toNat)
  else none

theorem Kind.id_toNat {kind : Kind} {index : Nat} (inTable : index < kind.slots) :
    (kind.id index).toNat = kind.tag.toNat + index := by
  rw [Kind.id, BitVec.toNat_ofNat, Nat.mod_eq_of_lt]
  cases kind <;> simp [Kind.tag, Kind.slots, SEM, PROC, FL, NSEM, NCHILD, NFILE] at inTable ⊢ <;> omega

theorem eq_id_iff (id : Id) {kind : Kind} {index : Nat} (inTable : index < kind.slots) :
    id = kind.id index ↔ id.toNat = kind.tag.toNat + index := by
  rw [← BitVec.toNat_inj, Kind.id_toNat inTable]

theorem Kind.tag_aligned (kind : Kind) : kind.tag.toNat % 2 ^ 28 = 0 := by
  cases kind <;> decide

theorem Kind.slots_le (kind : Kind) : kind.slots ≤ 2 ^ 28 := by
  cases kind <;> decide

theorem Kind.tag_injective {one other : Kind} (same : one.tag.toNat = other.tag.toNat) :
    one = other := by
  cases one <;> cases other <;> first | rfl | exact absurd same (by decide)

theorem Kind.id_injective {one other : Kind} {index place : Nat} (inTable : index < one.slots)
    (inOther : place < other.slots) (same : one.id index = other.id place) :
    one = other ∧ index = place := by
  have words := (eq_id_iff _ inOther).1 same
  rw [Kind.id_toNat inTable] at words
  have aligned := one.tag_aligned
  have aligned' := other.tag_aligned
  have few := one.slots_le
  have few' := other.slots_le
  have sameTag : one.tag.toNat = other.tag.toNat := by omega
  exact ⟨Kind.tag_injective sameTag, by omega⟩

theorem indexOf_eq_natCast_iff (kind : Kind) (id : Id) (index : Nat) :
    indexOf kind.tag kind.slots id = index ↔ index < kind.slots ∧ id = kind.id index := by
  rw [indexOf_eq kind.tag kind.tag_aligned kind.slots_le]
  by_cases inKind : kind.tag.toNat ≤ id.toNat ∧ id.toNat < kind.tag.toNat + kind.slots
  · rw [if_pos inKind]
    constructor
    · intro same
      have inTable : index < kind.slots := by omega
      exact ⟨inTable, (eq_id_iff id inTable).2 (by omega)⟩
    · rintro ⟨inTable, named⟩
      rw [eq_id_iff id inTable] at named
      omega
  · rw [if_neg inKind]
    constructor
    · intro same
      omega
    · rintro ⟨inTable, named⟩
      rw [eq_id_iff id inTable] at named
      omega

theorem indexOf_eq_error_or (kind : Kind) (id : Id) :
    indexOf kind.tag kind.slots id = -1 ∨ ∃ index : Nat, indexOf kind.tag kind.slots id = index := by
  rw [indexOf_eq kind.tag kind.tag_aligned kind.slots_le]
  split
  · exact .inr ⟨_, rfl⟩
  · exact .inl rfl

private theorem toNat_index (kind : Kind) (id : Id) (found : indexOf kind.tag kind.slots id ≠ -1) :
    ((indexOf kind.tag kind.slots id).toNat : Int) = indexOf kind.tag kind.slots id := by
  rcases indexOf_eq_error_or kind id with missing | ⟨index, at_⟩
  · exact absurd missing found
  · rw [at_, Int.toNat_natCast]

/-- Every id names at most one slot, and every slot has one id. -/
theorem slotOf_eq_some_iff (id : Id) (kind : Kind) (index : Nat) :
    slotOf id = some (kind, index) ↔ index < kind.slots ∧ id = kind.id index := by
  constructor
  · intro named
    apply (indexOf_eq_natCast_iff kind id index).1
    unfold slotOf at named
    split at named
    · obtain ⟨rfl, rfl⟩ := Prod.mk.inj (Option.some.inj named)
      exact (toNat_index .semaphore id ‹_›).symm
    split at named
    · obtain ⟨rfl, rfl⟩ := Prod.mk.inj (Option.some.inj named)
      exact (toNat_index .child id ‹_›).symm
    split at named
    · obtain ⟨rfl, rfl⟩ := Prod.mk.inj (Option.some.inj named)
      exact (toNat_index .file id ‹_›).symm
    · cases named
  · rintro ⟨inTable, rfl⟩
    have found := (indexOf_eq_natCast_iff kind _ index).2 ⟨inTable, rfl⟩
    have others (other : Kind) (different : other ≠ kind) :
        indexOf other.tag other.slots (kind.id index) = -1 := by
      rcases indexOf_eq_error_or other (kind.id index) with none_ | ⟨place, some_⟩
      · exact none_
      · have named := (indexOf_eq_natCast_iff other _ place).1 some_
        exact absurd (Kind.id_injective inTable named.1 named.2).1.symm different
    unfold slotOf
    cases kind with
    | semaphore =>
        have here : getSemaphoreIndex (Kind.semaphore.id index) = index := found
        rw [here, if_pos (by omega), Int.toNat_natCast]
    | child =>
        have here : getChildIndex (Kind.child.id index) = index := found
        have notSemaphore : getSemaphoreIndex (Kind.child.id index) = -1 :=
          others .semaphore (by decide)
        rw [notSemaphore, if_neg (by decide), here, if_pos (by omega), Int.toNat_natCast]
    | file =>
        have here : getFileIndex (Kind.file.id index) = index := found
        have notSemaphore : getSemaphoreIndex (Kind.file.id index) = -1 :=
          others .semaphore (by decide)
        have notChild : getChildIndex (Kind.file.id index) = -1 := others .child (by decide)
        rw [notSemaphore, if_neg (by decide), notChild, if_neg (by decide), here,
          if_pos (by omega), Int.toNat_natCast]

theorem slotOf_id {kind : Kind} {index : Nat} (inTable : index < kind.slots) :
    slotOf (kind.id index) = some (kind, index) :=
  (slotOf_eq_some_iff _ kind index).2 ⟨inTable, rfl⟩

/-! ### What an id resolves to -/

inductive Object (File Semaphore Future : Type) where
  | semaphore (made : Semaphore)
  | child (output : Future)
  | file (opened : File)

def Object.semaphore? : Object File Semaphore Future → Option Semaphore
  | .semaphore made => some made
  | _ => none

def Object.child? : Object File Semaphore Future → Option Future
  | .child output => some output
  | _ => none

def Object.file? : Object File Semaphore Future → Option File
  | .file opened => some opened
  | _ => none

def Object.kind : Object File Semaphore Future → Kind
  | .semaphore _ => .semaphore
  | .child _ => .child
  | .file _ => .file

def objectAt (handles : Handles File Semaphore Future) :
    Kind → Nat → Option (Object File Semaphore Future)
  | .semaphore, index => (handles.sems index).map .semaphore
  | .child, index => (handles.children index).map .child
  | .file, index => (handles.files index).map .file

theorem objectAt_kind {handles : Handles File Semaphore Future} {kind : Kind} {index : Nat}
    {object : Object File Semaphore Future} (bound : handles.objectAt kind index = some object) :
    object.kind = kind := by
  cases kind with
  | semaphore =>
      obtain ⟨made, _, rfl⟩ := Option.map_eq_some_iff.1 bound
      rfl
  | child =>
      obtain ⟨output, _, rfl⟩ := Option.map_eq_some_iff.1 bound
      rfl
  | file =>
      obtain ⟨opened, _, rfl⟩ := Option.map_eq_some_iff.1 bound
      rfl

/-- Which objects the ids of a process are bound to. -/
abbrev Bindings (File Semaphore Future : Type) := Id → Option (Object File Semaphore Future)

def resolve (handles : Handles File Semaphore Future) : Bindings File Semaphore Future :=
  fun id => (slotOf id).bind fun slot => handles.objectAt slot.1 slot.2

theorem resolve_id (handles : Handles File Semaphore Future) {kind : Kind} {index : Nat}
    (inTable : index < kind.slots) :
    handles.resolve (kind.id index) = handles.objectAt kind index := by
  rw [resolve, slotOf_id inTable, Option.bind_some]

/-- One slot changes, and the id of that slot only. -/
theorem resolve_edit {handles edited : Handles File Semaphore Future} {kind : Kind} {index : Nat}
    {value : Option (Object File Semaphore Future)} (inTable : index < kind.slots)
    (edit : ∀ other at_, edited.objectAt other at_ =
      if other = kind ∧ at_ = index then value else handles.objectAt other at_) :
    edited.resolve = Function.update handles.resolve (kind.id index) value := by
  funext id
  by_cases same : id = kind.id index
  · rw [same, Function.update_self, resolve_id edited inTable, edit, if_pos ⟨rfl, rfl⟩]
  · rw [Function.update_of_ne same, resolve, resolve]
    cases slot : slotOf id with
    | none => rfl
    | some named =>
        obtain ⟨other, place⟩ := named
        rw [Option.bind_some, Option.bind_some, edit, if_neg]
        intro equal
        obtain ⟨rfl, rfl⟩ := equal
        exact same ((slotOf_eq_some_iff id other place).1 slot).2

/-- All three decoders agree with the one slot that an id names. -/
theorem indexOf_slot (kind : Kind) (id : Id) :
    indexOf kind.tag kind.slots id =
      match slotOf id with
      | some (other, index) => if other = kind then (index : Int) else -1
      | none => -1 := by
  rcases indexOf_eq_error_or kind id with missing | ⟨index, found⟩
  · rw [missing]
    cases slot : slotOf id with
    | none => rfl
    | some named =>
        obtain ⟨other, place⟩ := named
        by_cases same : other = kind
        · subst other
          have found := (indexOf_eq_natCast_iff kind id place).2
            ((slotOf_eq_some_iff id kind place).1 slot)
          rw [missing] at found
          omega
        · exact (if_neg same).symm
  · rw [found, (slotOf_eq_some_iff id kind index).2
      ((indexOf_eq_natCast_iff kind id index).1 found)]
    exact (if_pos rfl).symm

/-- `getSemaphore` checks the index before the kind, and finds what `close` finds. -/
theorem getSemaphore_index (handles : Handles File Semaphore Future) (id : Id) :
    handles.getSemaphore id =
      if getSemaphoreIndex id < 0 then none else handles.sems (getSemaphoreIndex id).toNat := by
  unfold getSemaphore getSemaphoreIndex indexOf
  simp only [index_toNat, index_toInt]
  by_cases kind : id &&& 0xF0000000 = SEM
  · by_cases inTable : id.toNat % 2 ^ 28 < NSEM
    · have found : ¬((id.toNat % 2 ^ 28 : Nat) ≥ (NSEM : Int) ∨ id &&& 0xF0000000 ≠ SEM) := by
        rintro (outside | other)
        · omega
        · exact other kind
      rw [if_neg found, if_neg (not_not.2 kind), if_neg (by omega), if_neg (by omega),
        Int.toNat_natCast]
    · rw [if_pos (.inl (by omega)), if_neg (not_not.2 kind), if_pos (by omega)]
  · rw [if_pos (.inr kind), if_pos kind]
    rfl

theorem getSemaphore_eq (handles : Handles File Semaphore Future) (id : Id) :
    handles.getSemaphore id = (handles.resolve id).bind Object.semaphore? := by
  have index : getSemaphoreIndex id = _ := indexOf_slot .semaphore id
  rw [getSemaphore_index, index, resolve]
  cases slotOf id with
  | none => rfl
  | some slot =>
      obtain ⟨kind, place⟩ := slot
      cases kind with
      | semaphore =>
          simp only [if_true, Option.bind_some, objectAt, Int.toNat_natCast]
          rw [if_neg (by omega)]
          cases handles.sems place <;> rfl
      | child =>
          simp only [Option.bind_some, objectAt]
          cases handles.children place <;> rfl
      | file =>
          simp only [Option.bind_some, objectAt]
          cases handles.files place <;> rfl

/-- The descriptor itself is the index, as the kind of files is zero. -/
theorem getFile_eq (handles : Handles File Semaphore Future) (fd : Id) :
    handles.getFile fd = (handles.resolve fd).bind Object.file? := by
  have index : getFileIndex fd = _ := indexOf_slot .file fd
  rw [getFile, index, resolve]
  cases slot : slotOf fd with
  | none => rfl
  | some named =>
      obtain ⟨kind, place⟩ := named
      cases kind with
      | semaphore =>
          simp only [Option.bind_some, objectAt]
          cases handles.sems place <;> rfl
      | child =>
          simp only [Option.bind_some, objectAt]
          cases handles.children place <;> rfl
      | file =>
          have named := (slotOf_eq_some_iff fd .file place).1 slot
          have word : fd.toNat = place := by
            have words := (eq_id_iff fd named.1).1 named.2
            have fl : Kind.file.tag.toNat = 0 := rfl
            omega
          simp only [if_true, Option.bind_some, objectAt, word]
          rw [if_neg (by omega)]
          cases handles.files place <;> rfl

/-- The child that `wait` waits for. -/
theorem child_eq (handles : Handles File Semaphore Future) (id : Id) :
    (if getChildIndex id < 0 then none else handles.children (getChildIndex id).toNat) =
      (handles.resolve id).bind Object.child? := by
  have index : getChildIndex id = _ := indexOf_slot .child id
  rw [index, resolve]
  cases slotOf id with
  | none => rfl
  | some slot =>
      obtain ⟨kind, place⟩ := slot
      cases kind with
      | semaphore =>
          simp only [Option.bind_some, objectAt]
          cases handles.sems place <;> rfl
      | child =>
          simp only [if_true, Option.bind_some, objectAt, Int.toNat_natCast]
          rw [if_neg (by omega)]
          cases handles.children place <;> rfl
      | file =>
          simp only [Option.bind_some, objectAt]
          cases handles.files place <;> rfl

/-! ### One operation -/

/-- The id that an operation binds when it succeeds, and the object. -/
def Operation.change : Operation File Semaphore Future → Id → Id × Option (Object File Semaphore Future)
  | .newSemaphore made, returned => (returned, some (.semaphore made))
  | .setFile file, returned => (returned, some (.file file))
  | .fork output, returned => (returned, some (.child output))
  | .close id, _ => (id, none)
  | .wait id, _ => (id, none)

/-- What is bound after an operation that has returned. -/
def rebind (bindings : Bindings File Semaphore Future)
    (operation : Operation File Semaphore Future) (returned : Id) : Bindings File Semaphore Future :=
  if returned.toInt < 0 then bindings
  else Function.update bindings (operation.change returned).1 (operation.change returned).2

/-- What one operation does to the tables, and what it returns. -/
inductive Effect (handles : Handles File Semaphore Future)
    (operation : Operation File Semaphore Future) (result : Result File Semaphore Future) : Prop where
  | failed (unchanged : result.handles = handles) (returned : result.returned = error)
      (delivered : result.delivered = none)
  | created (kind : Kind) (index : Nat) (object : Object File Semaphore Future)
      (inTable : index < kind.slots) (free : handles.objectAt kind index = none)
      (returned : result.returned = kind.id index)
      (change : operation.change result.returned = (kind.id index, some object))
      (edit : ∀ other place, result.handles.objectAt other place =
        if other = kind ∧ place = index then some object else handles.objectAt other place)
      (delivered : result.delivered = none)
  | released (kind : Kind) (index : Nat) (object : Object File Semaphore Future)
      (inTable : index < kind.slots) (bound : handles.objectAt kind index = some object)
      (returned : result.returned = 0)
      (change : operation.change result.returned = (kind.id index, none))
      (edit : ∀ other place, result.handles.objectAt other place =
        if other = kind ∧ place = index then none else handles.objectAt other place)
      (delivered : result.delivered = none ∨ result.delivered = object.child?)

theorem firstFree_some {Item : Type} {table : Nat → Option Item} {count index : Nat}
    (found : firstFree table count = some index) : index < count ∧ table index = none := by
  have member := List.mem_of_find?_eq_some found
  have null := List.find?_some found
  exact ⟨List.mem_range.1 member, Option.isNone_iff_eq_none.1 null⟩

theorem semaphore_id {index : Nat} (inTable : index < NSEM) :
    SEM ||| (BitVec.ofNat 32 index &&& INDEX_MASK) = Kind.semaphore.id index := by
  have every : ∀ index : Fin NSEM,
      SEM ||| (BitVec.ofNat 32 index &&& INDEX_MASK) = Kind.semaphore.id index := by decide
  exact every ⟨index, inTable⟩

theorem child_id {index : Nat} (inTable : index < NCHILD) :
    PROC ||| BitVec.ofNat 32 index = Kind.child.id index := by
  have every : ∀ index : Fin NCHILD, PROC ||| BitVec.ofNat 32 index = Kind.child.id index := by
    decide
  exact every ⟨index, inTable⟩

theorem file_id (index : Nat) : BitVec.ofNat 32 index = Kind.file.id index := by
  rw [Kind.id, Kind.tag, FL]
  simp

theorem newSemaphore_effect (handles : Handles File Semaphore Future) (made : Semaphore) :
    Effect handles (.newSemaphore made) (handles.newSemaphore made) := by
  unfold newSemaphore
  cases found : firstFree handles.sems NSEM with
  | none => exact .failed rfl rfl rfl
  | some index =>
      obtain ⟨inTable, free⟩ := firstFree_some found
      refine .created .semaphore index (.semaphore made) inTable ?_ (semaphore_id inTable)
        ?_ ?_ rfl
      · rw [objectAt, free, Option.map_none]
      · exact congrArg (·, _) (semaphore_id inTable)
      · intro other place
        cases other with
        | semaphore =>
            by_cases same : place = index
            · subst place
              simp [objectAt]
            · simp [objectAt, same]
        | child => simp [objectAt]
        | file => simp [objectAt]

theorem setFile_effect (handles : Handles File Semaphore Future) (file : File) :
    Effect handles (.setFile file) (handles.setFile file) := by
  unfold setFile
  cases found : firstFree handles.files NFILE with
  | none => exact .failed rfl rfl rfl
  | some index =>
      obtain ⟨inTable, free⟩ := firstFree_some found
      refine .created .file index (.file file) inTable ?_ (file_id index) ?_ ?_ rfl
      · rw [objectAt, free, Option.map_none]
      · exact congrArg (·, _) (file_id index)
      · intro other place
        cases other with
        | semaphore => simp [objectAt]
        | child => simp [objectAt]
        | file =>
            by_cases same : place = index
            · subst place
              simp [objectAt]
            · simp [objectAt, same]

theorem fork_effect (handles : Handles File Semaphore Future) (output : Future) :
    Effect handles (.fork output) (handles.fork output).2 := by
  unfold fork
  cases found : firstFree handles.children NCHILD with
  | none => exact .failed rfl rfl rfl
  | some index =>
      obtain ⟨inTable, free⟩ := firstFree_some found
      refine .created .child index (.child output) inTable ?_ (child_id inTable) ?_ ?_ rfl
      · rw [objectAt, free, Option.map_none]
      · exact congrArg (·, _) (child_id inTable)
      · intro other place
        cases other with
        | semaphore => simp [objectAt]
        | child =>
            by_cases same : place = index
            · subst place
              simp [objectAt]
            · simp [objectAt, same]
        | file => simp [objectAt]

/-- `close` clears the slot that its id names. -/
def clear (handles : Handles File Semaphore Future) (index : Nat) :
    Kind → Handles File Semaphore Future
  | .semaphore => { handles with sems := Function.update handles.sems index none }
  | .child => { handles with children := Function.update handles.children index none }
  | .file => { handles with files := Function.update handles.files index none }

theorem objectAt_clear (handles : Handles File Semaphore Future) (kind : Kind) (index : Nat)
    (other : Kind) (place : Nat) :
    (handles.clear index kind).objectAt other place =
      if other = kind ∧ place = index then none else handles.objectAt other place := by
  by_cases same : place = index
  · subst place
    cases kind <;> cases other <;> simp [clear, objectAt]
  · cases kind <;> cases other <;> simp [clear, objectAt, same]

theorem close_eq (handles : Handles File Semaphore Future) (id : Id) :
    handles.close id =
      match slotOf id with
      | none => { handles := handles, returned := error, delivered := none }
      | some (kind, index) =>
          match handles.objectAt kind index with
          | none => { handles := handles, returned := error, delivered := none }
          | some _ => { handles := handles.clear index kind, returned := 0, delivered := none } := by
  unfold close slotOf
  by_cases semaphore : getSemaphoreIndex id ≠ -1
  · simp only [if_pos semaphore, objectAt]
    cases handles.sems (getSemaphoreIndex id).toNat <;> rfl
  by_cases child : getChildIndex id ≠ -1
  · simp only [if_neg semaphore, if_pos child, objectAt]
    cases handles.children (getChildIndex id).toNat <;> rfl
  by_cases file : getFileIndex id ≠ -1
  · simp only [if_neg semaphore, if_neg child, if_pos file, objectAt]
    cases handles.files (getFileIndex id).toNat <;> rfl
  · simp only [if_neg semaphore, if_neg child, if_neg file]

theorem close_effect (handles : Handles File Semaphore Future) (id : Id) :
    Effect handles (.close id) (handles.close id) := by
  rw [close_eq]
  cases slot : slotOf id with
  | none => exact .failed rfl rfl rfl
  | some named =>
      obtain ⟨kind, index⟩ := named
      obtain ⟨inTable, rfl⟩ := (slotOf_eq_some_iff id kind index).1 slot
      cases bound : handles.objectAt kind index with
      | none => simpa only [bound] using .failed rfl rfl rfl
      | some object =>
          simp only [bound]
          exact .released kind index object inTable bound rfl rfl
            (objectAt_clear handles kind index) (.inl rfl)

theorem close_returned (handles : Handles File Semaphore Future) (id : Id) :
    (handles.close id).returned = if (handles.resolve id).isSome then 0 else error := by
  rw [close_eq, resolve]
  cases slotOf id with
  | none => rfl
  | some slot =>
      obtain ⟨kind, index⟩ := slot
      rw [Option.bind_some]
      simp only
      cases handles.objectAt kind index <;> rfl

theorem wait_eq (handles : Handles File Semaphore Future) (id : Id) :
    handles.wait id =
      match (handles.resolve id).bind Object.child? with
      | none => { handles := handles, returned := error, delivered := none }
      | some child =>
          { handles := handles.clear (getChildIndex id).toNat .child
            returned := 0
            delivered := some child } := by
  rw [← child_eq]
  unfold wait
  by_cases missing : getChildIndex id < 0
  · have index : getChildIndex id = -1 := by
      rcases indexOf_eq_error_or .child id with none_ | ⟨index, found⟩
      · exact none_
      · have found : getChildIndex id = index := found
        omega
    simp only [if_pos missing]
    rw [index]
    rfl
  · simp only [if_neg missing]
    cases handles.children (getChildIndex id).toNat <;> rfl

theorem wait_effect (handles : Handles File Semaphore Future) (id : Id) :
    Effect handles (.wait id) (handles.wait id) := by
  have index : getChildIndex id = _ := indexOf_slot .child id
  rw [wait_eq]
  cases found : (handles.resolve id).bind Object.child? with
  | none => exact .failed rfl rfl rfl
  | some child =>
      obtain ⟨object, bound, isChild⟩ := Option.bind_eq_some_iff.1 found
      rw [resolve] at bound
      obtain ⟨⟨kind, place⟩, slot, at_⟩ := Option.bind_eq_some_iff.1 bound
      rw [slot] at index
      obtain ⟨inTable, rfl⟩ := (slotOf_eq_some_iff id kind place).1 slot
      cases kind with
      | semaphore =>
          obtain ⟨made, _, rfl⟩ := Option.map_eq_some_iff.1 at_
          cases isChild
      | file =>
          obtain ⟨file, _, rfl⟩ := Option.map_eq_some_iff.1 at_
          cases isChild
      | child =>
          simp only [if_true] at index
          simp only [index, Int.toNat_natCast]
          exact .released .child place object inTable at_ rfl rfl
            (objectAt_clear handles .child place) (.inr isChild.symm)

theorem step_effect (handles : Handles File Semaphore Future)
    (operation : Operation File Semaphore Future) :
    Effect handles operation (handles.step operation) := by
  cases operation with
  | newSemaphore made => exact newSemaphore_effect handles made
  | setFile file => exact setFile_effect handles file
  | fork output => exact fork_effect handles output
  | close id => exact close_effect handles id
  | wait id => exact wait_effect handles id

theorem Kind.id_nonnegative {kind : Kind} {index : Nat} (inTable : index < kind.slots) :
    0 ≤ (kind.id index).toInt := by
  have word := Kind.id_toNat inTable
  have small : kind.tag.toNat + kind.slots ≤ 2 ^ 30 := by
    cases kind <;> decide
  rw [BitVec.toInt_eq_toNat_of_lt (by omega)]
  exact Int.natCast_nonneg _

/-- After one operation the ids are bound as its result says. -/
theorem step_resolve (handles : Handles File Semaphore Future)
    (operation : Operation File Semaphore Future) :
    (handles.step operation).handles.resolve =
      rebind handles.resolve operation (handles.step operation).returned := by
  cases step_effect handles operation with
  | failed unchanged returned delivered =>
      rw [unchanged, rebind, returned, if_pos (by decide)]
  | created kind index object inTable free returned change edit delivered =>
      have positive := Kind.id_nonnegative inTable
      rw [rebind, if_neg (by rw [returned]; omega), change]
      exact resolve_edit inTable edit
  | released kind index object inTable bound returned change edit delivered =>
      rw [rebind, if_neg (by rw [returned]; decide), change]
      exact resolve_edit inTable edit

theorem step_failed (handles : Handles File Semaphore Future)
    (operation : Operation File Semaphore Future)
    (negative : (handles.step operation).returned.toInt < 0) :
    handles.step operation = { handles := handles, returned := error, delivered := none } := by
  cases step_effect handles operation with
  | failed unchanged returned delivered =>
      cases result : handles.step operation with
      | mk after id child =>
          rw [result] at unchanged returned delivered
          subst unchanged returned delivered
          rfl
  | created kind index object inTable free returned change edit delivered =>
      have positive := Kind.id_nonnegative inTable
      rw [returned] at negative
      omega
  | released kind index object inTable bound returned change edit delivered =>
      rw [returned] at negative
      exact absurd negative (by decide)

/-! ### Histories -/

/-- What one operation of a history returned, and the child whose status it delivered. -/
structure Event (File Semaphore Future : Type) where
  operation : Operation File Semaphore Future
  returned : Id
  delivered : Option Future

def Event.of (handles : Handles File Semaphore Future)
    (operation : Operation File Semaphore Future) : Event File Semaphore Future :=
  { operation := operation
    returned := (handles.step operation).returned
    delivered := (handles.step operation).delivered }

def run (handles : Handles File Semaphore Future) :
    List (Operation File Semaphore Future) → Handles File Semaphore Future
  | [] => handles
  | operation :: later => (handles.step operation).handles.run later

def history (handles : Handles File Semaphore Future) :
    List (Operation File Semaphore Future) → List (Event File Semaphore Future)
  | [] => []
  | operation :: later =>
      Event.of handles operation :: (handles.step operation).handles.history later

/-- What the ids are bound to, from the returned values of a history alone. -/
def replay (bindings : Bindings File Semaphore Future) :
    List (Event File Semaphore Future) → Bindings File Semaphore Future
  | [] => bindings
  | event :: later => replay (rebind bindings event.operation event.returned) later

def Event.output (event : Event File Semaphore Future) : Option Future :=
  match event.operation with
  | .fork output => if event.returned.toInt < 0 then none else some output
  | _ => none

theorem run_resolve (operations : List (Operation File Semaphore Future))
    (handles : Handles File Semaphore Future) :
    (handles.run operations).resolve = replay handles.resolve (handles.history operations) := by
  induction operations generalizing handles with
  | nil => rfl
  | cons operation later ih =>
      rw [run, history, replay, ih, step_resolve]
      rfl

/-! ### The contract -/

/-- The lookups of a process agree with what its ids are bound to. -/
structure Agrees (handles : Handles File Semaphore Future)
    (bindings : Bindings File Semaphore Future) : Prop where
  semaphores : ∀ id, handles.getSemaphore id = (bindings id).bind Object.semaphore?
  files : ∀ id, handles.getFile id = (bindings id).bind Object.file?
  waits : ∀ id, (handles.wait id).delivered = (bindings id).bind Object.child? ∧
    (handles.wait id).returned = if ((bindings id).bind Object.child?).isSome then 0 else error
  closes : ∀ id, (handles.close id).returned = if (bindings id).isSome then 0 else error

theorem agrees_resolve (handles : Handles File Semaphore Future) :
    Agrees handles handles.resolve where
  semaphores := getSemaphore_eq handles
  files := getFile_eq handles
  closes := close_returned handles
  waits id := by
    rw [wait_eq]
    cases (handles.resolve id).bind Object.child? with
    | none => exact ⟨rfl, rfl⟩
    | some child => exact ⟨rfl, rfl⟩

/-- What an operation keeps, whatever its argument is. -/
structure Careful (handles : Handles File Semaphore Future)
    (bindings : Bindings File Semaphore Future)
    (operation : Operation File Semaphore Future) : Prop where
  fresh : ∀ object, (operation.change (handles.step operation).returned).2 = some object →
    0 ≤ (handles.step operation).returned.toInt →
    bindings (handles.step operation).returned = none
  isolated : ∀ other, other ≠ (operation.change (handles.step operation).returned).1 →
    (handles.step operation).handles.getSemaphore other = handles.getSemaphore other ∧
    (handles.step operation).handles.getFile other = handles.getFile other ∧
    ((handles.step operation).handles.wait other).delivered = (handles.wait other).delivered
  errors : (handles.step operation).returned.toInt < 0 →
    (handles.step operation).handles = handles

theorem step_careful (handles : Handles File Semaphore Future)
    (operation : Operation File Semaphore Future) :
    Careful handles handles.resolve operation where
  fresh := by
    intro object creates positive
    cases step_effect handles operation with
    | failed unchanged returned delivered =>
        rw [returned] at positive
        exact absurd positive (by decide)
    | created kind index made inTable free returned change edit delivered =>
        rw [returned, resolve_id handles inTable, free]
    | released kind index made inTable bound returned change edit delivered =>
        rw [change] at creates
        cases creates
  isolated := by
    intro other different
    have same : (handles.step operation).handles.resolve other = handles.resolve other := by
      rw [step_resolve, rebind]
      split
      · rfl
      · exact Function.update_of_ne different _ _
    have before := agrees_resolve handles
    have after := agrees_resolve (handles.step operation).handles
    rw [before.semaphores, before.files, (before.waits other).1, after.semaphores, after.files,
      (after.waits other).1, same]
    exact ⟨rfl, rfl, rfl⟩
  errors negative := by
    rw [step_failed handles operation negative]

/-- A forked child has the semaphores and the files of its parent, and no child. -/
structure Inherits (child parent : Handles File Semaphore Future) : Prop where
  semaphores : ∀ id, child.getSemaphore id = parent.getSemaphore id
  files : ∀ id, child.getFile id = parent.getFile id
  childless : ∀ id, child.wait id = { handles := child, returned := error, delivered := none }

theorem fork_inherits {handles child : Handles File Semaphore Future} {output : Future}
    (forked : (handles.fork output).1 = some child) : Inherits child handles := by
  unfold fork at forked
  split at forked
  · injection forked with made
    subst made
    constructor
    · intro id
      rfl
    · intro id
      rfl
    · intro id
      rw [wait_eq, ← child_eq]
      split_ifs <;> rfl
  · cases forked

/-! ### Every status is delivered once -/

def statuses (handles : Handles File Semaphore Future) : List Future :=
  (List.range NCHILD).filterMap handles.children

/-- Clearing a slot takes its child from the list of those that are waited for. -/
theorem statuses_clear {children : Nat → Option Future} {index : Nat} {child : Future}
    (bound : children index = some child) (count : Nat) (inTable : index < count) :
    ((List.range count).filterMap children).Perm
      (child :: (List.range count).filterMap (Function.update children index none)) := by
  induction count with
  | zero => omega
  | succ count ih =>
      rw [List.range_succ, List.filterMap_append, List.filterMap_append]
      by_cases last : index = count
      · subst last
        have before : (List.range index).filterMap (Function.update children index none) =
            (List.range index).filterMap children := by
          apply List.filterMap_congr
          intro place member
          rw [Function.update_of_ne (Nat.ne_of_lt (List.mem_range.1 member))]
        have cleared : [index].filterMap (Function.update children index none) = [] := by simp
        have taken : [index].filterMap children = [child] := by simp [bound]
        rw [before, cleared, taken, List.append_nil]
        exact List.perm_append_singleton _ _
      · have kept : [count].filterMap (Function.update children index none) =
            [count].filterMap children := by
          apply List.filterMap_congr
          intro place member
          rw [List.mem_singleton.1 member, Function.update_of_ne (Ne.symm last)]
        rw [kept, ← List.cons_append]
        exact (ih (by omega)).append_right _

private theorem children_of_edit {handles edited : Handles File Semaphore Future} {kind : Kind}
    {index : Nat} {value : Option (Object File Semaphore Future)}
    (edit : ∀ other place, edited.objectAt other place =
      if other = kind ∧ place = index then value else handles.objectAt other place) :
    edited.children =
      if kind = .child then Function.update handles.children index (value.bind Object.child?)
      else handles.children := by
  have back (table : Handles File Semaphore Future) (place : Nat) :
      table.children place = (table.objectAt .child place).bind Object.child? := by
    rw [objectAt]
    cases table.children place <;> rfl
  funext place
  rw [back, edit]
  by_cases isChild : kind = .child
  · subst kind
    by_cases same : place = index
    · subst place
      simp
    · rw [if_neg (by simp [same]), if_pos rfl, Function.update_of_ne same, ← back]
  · rw [if_neg (by simp [Ne.symm isChild]), if_neg isChild, ← back]

/-- A status that an operation delivers is one that it no longer waits for. -/
theorem step_statuses (handles : Handles File Semaphore Future)
    (operation : Operation File Semaphore Future) :
    ((Event.of handles operation).delivered.toList ++ (handles.step operation).handles.statuses).Subperm
      (handles.statuses ++ (Event.of handles operation).output.toList) := by
  cases step_effect handles operation with
  | failed unchanged returned delivered =>
      have none_ : (Event.of handles operation).delivered = none := delivered
      rw [none_, unchanged]
      exact (List.sublist_append_left _ _).subperm
  | created kind index object inTable free returned change edit delivered =>
      have made := objectAt_kind ((edit kind index).trans (if_pos ⟨rfl, rfl⟩))
      have children := children_of_edit edit
      have none_ : (Event.of handles operation).delivered = none := delivered
      rw [none_, Option.toList_none, List.nil_append]
      cases object with
      | semaphore =>
          rw [← made, if_neg (by simp [Object.kind])] at children
          rw [statuses, children]
          exact (List.sublist_append_left _ _).subperm
      | file =>
          rw [← made, if_neg (by simp [Object.kind])] at children
          rw [statuses, children]
          exact (List.sublist_append_left _ _).subperm
      | child output =>
          obtain rfl : kind = .child := made.symm
          rw [if_pos rfl] at children
          have slot : (handles.step operation).handles.children index = some output := by
            rw [children, Function.update_self]
            rfl
          have before : handles.children index = none := Option.map_eq_none_iff.1 free
          have cleared : Function.update (handles.step operation).handles.children index none =
              handles.children := by
            rw [children, Function.update_idem, ← before, Function.update_eq_self]
          have taken := statuses_clear slot NCHILD inTable
          rw [cleared] at taken
          have positive := Kind.id_nonnegative inTable
          have forked : Event.output (Event.of handles operation) = some output := by
            cases operation with
            | fork made =>
                simp only [Operation.change, Prod.mk.injEq, Option.some.injEq,
                  Object.child.injEq] at change
                rw [Event.output, Event.of]
                simp only
                rw [if_neg (by rw [returned]; omega), change.2]
            | newSemaphore made => simp [Operation.change] at change
            | setFile file => simp [Operation.change] at change
            | close id => simp [Operation.change] at change
            | wait id => simp [Operation.change] at change
          rw [forked]
          exact (taken.trans (List.perm_append_singleton _ _).symm).subperm
  | released kind index object inTable bound returned change edit delivered =>
      have named := objectAt_kind bound
      have children := children_of_edit edit
      cases object with
      | semaphore =>
          rw [← named, if_neg (by simp [Object.kind])] at children
          have none_ : (Event.of handles operation).delivered = none := delivered.elim id id
          rw [none_, statuses, children]
          exact (List.sublist_append_left _ _).subperm
      | file =>
          rw [← named, if_neg (by simp [Object.kind])] at children
          have none_ : (Event.of handles operation).delivered = none := delivered.elim id id
          rw [none_, statuses, children]
          exact (List.sublist_append_left _ _).subperm
      | child output =>
          obtain rfl : kind = .child := named.symm
          rw [if_pos rfl, Option.bind_none] at children
          have slot : handles.children index = some output := by
            obtain ⟨child, at_, same⟩ := Option.map_eq_some_iff.1 bound
            injection same with same
            rw [at_, same]
          have taken := statuses_clear slot NCHILD inTable
          rw [statuses, children]
          have released : ((Event.of handles operation).delivered.toList ++
              (List.range NCHILD).filterMap (Function.update handles.children index none)).Subperm
              handles.statuses := by
            rcases delivered with none_ | some_
            · have none_ : (Event.of handles operation).delivered = none := none_
              rw [none_, Option.toList_none, List.nil_append]
              exact ((List.sublist_cons_self _ _).subperm).trans taken.symm.subperm
            · have some_ : (Event.of handles operation).delivered = some output := some_
              rw [some_]
              exact taken.symm.subperm
          exact released.trans (List.sublist_append_left _ _).subperm

private theorem filterMap_cons_toList {Item Value : Type} (value : Item → Option Value)
    (item : Item) (items : List Item) :
    (item :: items).filterMap value = (value item).toList ++ items.filterMap value := by
  rw [List.filterMap_cons]
  cases value item <;> rfl

theorem history_statuses (operations : List (Operation File Semaphore Future))
    (handles : Handles File Semaphore Future) :
    ((handles.history operations).filterMap Event.delivered).Subperm
      (handles.statuses ++ (handles.history operations).filterMap Event.output) := by
  induction operations generalizing handles with
  | nil => exact (List.nil_sublist _).subperm
  | cons operation later ih =>
      have first := step_statuses handles operation
      have rest := ih (handles.step operation).handles
      rw [history, filterMap_cons_toList, filterMap_cons_toList]
      have both := (List.subperm_append_left (Event.of handles operation).delivered.toList).2 rest
      rw [← List.append_assoc] at both ⊢
      exact both.trans ((List.subperm_append_right _).2 first)

/-- No status is delivered twice when all the outputs are different objects. -/
theorem delivered_nodup (operations : List (Operation File Semaphore Future))
    (handles : Handles File Semaphore Future)
    (distinct : (handles.statuses ++ (handles.history operations).filterMap Event.output).Nodup) :
    ((handles.history operations).filterMap Event.delivered).Nodup := by
  obtain ⟨ordered, same, within⟩ := history_statuses operations handles
  exact same.nodup_iff.1 (within.nodup distinct)

/-! ### The tables of a process -/

def ofSlots {Item : Type} (slots : Fin 10 → Option Item) (index : Nat) : Option Item :=
  if inside : index < 10 then slots ⟨index, inside⟩ else none

end Handles

def Process.handles {File Semaphore Output : Type} (process : Process File Semaphore Output) :
    Handles File Semaphore Output :=
  { files := Handles.ofSlots process.files
    sems := Handles.ofSlots process.sems
    children := Handles.ofSlots process.children }

namespace Handles

variable {File Semaphore Future Output : Type}

theorem ofSlots_index {Item : Type} (slots : Fin 10 → Option Item) (index : Fin 10) :
    ofSlots slots index = slots index := by
  unfold ofSlots
  rw [dif_pos index.isLt]

theorem ofSlots_update {Item : Type} (slots : Fin 10 → Option Item) (index : Fin 10)
    (value : Option Item) :
    ofSlots (Function.update slots index value) = Function.update (ofSlots slots) index value := by
  funext place
  by_cases inside : place < 10
  · by_cases same : place = index
    · subst same
      rw [ofSlots_index, Function.update_self, Function.update_self]
    · have other : (⟨place, inside⟩ : Fin 10) ≠ index := by
        intro equal
        exact same (congrArg Fin.val equal)
      rw [Function.update_of_ne same, ofSlots, dif_pos inside, Function.update_of_ne other, ofSlots,
        dif_pos inside]
  · have other : place ≠ index := by
      have within := index.isLt
      omega
    rw [Function.update_of_ne other, ofSlots, dif_neg inside, ofSlots, dif_neg inside]

theorem ofSlots_none {Item : Type} :
    ofSlots (fun _ => none : Fin 10 → Option Item) = fun _ => none := by
  funext index
  unfold ofSlots
  split <;> rfl

theorem firstFree_ofSlots {Item : Type} (slots : Fin 10 → Option Item) :
    firstFree (ofSlots slots) 10 =
      ((List.finRange 10).find? fun index => (slots index).isNone).map Fin.val := by
  have range : List.range 10 = (List.finRange 10).map Fin.val := by decide
  unfold firstFree
  rw [range, List.find?_map]
  congr 2
  funext index
  simp only [Function.comp, ofSlots_index]

/-- A fork that has got its frames does to the tables what `fork` does here. -/
theorem fork_handles {config : Config} {shared : Nat} {mem : PhysMem}
    {parent : Process File Semaphore Output} {output : Output}
    {forked : Process.Forked File Semaphore Output}
    (ran : Process.fork config shared mem parent output = some forked) :
    forked.child.map Process.handles = (parent.handles.fork output).1 ∧
      forked.parent.handles = (parent.handles.fork output).2.handles ∧
      forked.id = (parent.handles.fork output).2.returned.toInt := by
  have slot := firstFree_ofSlots parent.children
  unfold Process.fork at ran
  unfold fork
  cases found : (List.finRange 10).find? fun index => (parent.children index).isNone with
  | none =>
      rw [found] at slot ran
      injection ran with same
      subst same
      have none_ : firstFree parent.handles.children NCHILD = none := slot
      rw [none_]
      exact ⟨rfl, rfl, rfl⟩
  | some index =>
      rw [found] at slot ran
      have some_ : firstFree parent.handles.children NCHILD = some index.val := slot
      obtain ⟨⟨prepared, childPd⟩, _, copied⟩ := Option.bind_eq_some_iff.1 ran
      obtain ⟨mem', _, rfl⟩ := Option.map_eq_some_iff.1 copied
      rw [some_]
      refine ⟨?_, ?_, ?_⟩
      · simp only [Option.map_some, Process.handles, ofSlots_none]
      · simp only [Process.handles, ofSlots_update]
      · have every : ∀ index : Fin 10, ((0x10000000 ||| index.val : Nat) : Int) =
            (PROC ||| BitVec.ofNat 32 index.val).toInt := by decide
        exact every index

/-- The files that the handlers with a buffer find are those of `getFile`. -/
theorem getFile_handles (process : Process File Semaphore Output) (fd : Id) :
    process.getFile fd.toNat = process.handles.getFile fd := by
  have high : fd.toNat &&& 0xF0000000 = fd.toNat / 2 ^ 28 * 2 ^ 28 := and_high fd.isLt
  have low : fd.toNat &&& 0x0FFFFFFF = fd.toNat % 2 ^ 28 := Nat.and_two_pow_sub_one_eq_mod _ 28
  have index : getFileIndex fd = if FL.toNat ≤ fd.toNat ∧ fd.toNat < FL.toNat + NFILE then
      ((fd.toNat - FL.toNat : Nat) : Int) else -1 := indexOf_eq FL (by decide) (by decide) fd
  have fl : FL.toNat = 0 := rfl
  have count : NFILE = 10 := rfl
  rw [fl, count, Nat.zero_add, Nat.sub_zero] at index
  by_cases inTable : fd.toNat < 10
  · have small : fd.toNat &&& 0x0FFFFFFF < 10 := by omega
    have same : (⟨fd.toNat &&& 0x0FFFFFFF, small⟩ : Fin 10) = ⟨fd.toNat, inTable⟩ := by
      apply Fin.ext
      change fd.toNat &&& 0x0FFFFFFF = fd.toNat
      omega
    have found : Process.getFileIndex fd.toNat = some ⟨fd.toNat, inTable⟩ := by
      unfold Process.getFileIndex Process.handleIndex Process.fileKind Process.indexMask
      rw [high, if_neg (by omega), dif_pos small, same]
    rw [if_pos ⟨Nat.zero_le _, inTable⟩] at index
    rw [Process.getFile, found, getFile, if_neg (by omega)]
    exact (ofSlots_index process.files ⟨fd.toNat, inTable⟩).symm
  · have missing : Process.getFileIndex fd.toNat = none := by
      unfold Process.getFileIndex Process.handleIndex Process.fileKind Process.indexMask
      rw [high]
      by_cases ofFiles : fd.toNat / 2 ^ 28 * 2 ^ 28 = 0
      · rw [if_neg (not_not.2 ofFiles), dif_neg (by omega)]
      · rw [if_pos ofFiles]
    rw [if_neg (fun both => inTable both.2)] at index
    rw [Process.getFile, missing, getFile, index, if_pos (by decide)]
    rfl

/-! ### All operations, from any tables -/

/-- What the ids of a process resolve to is what the returned values of its history say. -/
theorem handles_resolve (start : Handles File Semaphore Future)
    (operations : List (Operation File Semaphore Future)) :
    Agrees (start.run operations) (replay start.resolve (start.history operations)) ∧
    (∀ operation, Careful (start.run operations)
      (replay start.resolve (start.history operations)) operation) ∧
    (∀ output child, ((start.run operations).fork output).1 = some child →
      Inherits child (start.run operations)) ∧
    ((start.statuses ++ (start.history operations).filterMap Event.output).Nodup →
      ((start.history operations).filterMap Event.delivered).Nodup) := by
  rw [← run_resolve]
  refine ⟨agrees_resolve _, step_careful _, ?_, delivered_nodup operations start⟩
  intro output child forked
  exact fork_inherits forked

/-- A forked child is waited for twice, and its status is delivered once. -/
theorem handles_resolve_sample :
    let start : Handles Unit Unit Nat :=
      { files := fun _ => none, sems := fun _ => none, children := fun _ => none }
    let operations : List (Operation Unit Unit Nat) :=
      [.fork 7, .wait 0x10000000, .wait 0x10000000, .fork 8]
    (start.history operations).filterMap Event.delivered = [7] ∧
    ((start.history operations).filterMap Event.delivered).Nodup := by
  intro start operations
  exact ⟨by decide, (handles_resolve start operations).2.2.2 (by decide)⟩

end Handles

end AC97Kernel
