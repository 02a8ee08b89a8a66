/-
Shared, the counting handles of kernel/shared.h.

Handles are variables of the program or members of objects.  The members of an
object are constructed one after the other and destroyed the last one first.  An
object keeps its number when it is deleted.  An operation that touches a handle or
an object that is not there returns nothing.
-/

import AC97Kernel.Library.StepMachine
import AC97Kernel.Library.Census
import Mathlib.Logic.Relation

set_option autoImplicit false

namespace AC97Kernel.Shared

open Function

/-- Where a handle is. -/
inductive Handle where
  | loose (name : Nat)
  | inside (object index : Nat)
  deriving DecidableEq

/-- A handle takes four of the 2 ^ 32 bytes of memory, so no `ref_count` wraps. -/
structure Memory where
  /-- What is in the handles; there is no handle where this is `none`. -/
  ptr : Handle → Option (Option Nat)
  refCount : Nat → Option Int
  /-- How many handles an object has. -/
  members : Nat → Nat
  /-- The number of the next object. -/
  made : Nat
  deleted : List Nat

namespace Memory

def setPtr (memory : Memory) (handle : Handle) (value : Option Nat) : Memory :=
  { memory with ptr := update memory.ptr handle (some value) }

def setCount (memory : Memory) (object : Nat) (count : Int) : Memory :=
  { memory with refCount := update memory.refCount object (some count) }

def store (memory : Memory) (handle : Handle) (value : Option Nat) : Option Memory :=
  (memory.ptr handle).map fun _ => memory.setPtr handle value

def addFetch (memory : Memory) (object : Nat) (delta : Int) : Option (Int × Memory) :=
  (memory.refCount object).map fun count => (count + delta, memory.setCount object (count + delta))

/-- A handle comes to life. -/
def occupy (memory : Memory) (handle : Handle) (value : Option Nat) : Memory :=
  { memory with
    ptr := update memory.ptr handle (some value)
    members :=
      match handle with
      | .loose _ => memory.members
      | .inside object index => update memory.members object (index + 1) }

/-- The life of a handle ends. -/
def vacate (memory : Memory) (handle : Handle) : Memory :=
  { memory with
    ptr := update memory.ptr handle none
    members :=
      match handle with
      | .loose _ => memory.members
      | .inside object index => update memory.members object index }

def erase (memory : Memory) (object : Nat) : Memory :=
  { memory with
    refCount := update memory.refCount object none
    deleted := object :: memory.deleted }

/-- `operator delete`; the destructor has run. -/
def release (memory : Memory) (object : Nat) : Option Memory :=
  (memory.refCount object).map fun _ => memory.erase object

/-- The destructor of an object: those of its handles, the last one first. -/
def destroyMembers (drop : Memory → Handle → Option Memory) (object : Nat) :
    Nat → Memory → Option Memory
  | 0, memory => some memory
  | index + 1, memory => do
      let memory ← drop memory (.inside object index)
      destroyMembers drop object index (memory.vacate (.inside object index))

/-- The fuel bounds how many destructors are under way at once. -/
def drop : Nat → Memory → Handle → Option Memory
  | 0, _, _ => none
  | fuel + 1, memory, handle => do
      let ptr ← memory.ptr handle
      match ptr with
      | none => some memory
      | some object =>
          let (newCount, memory) ← memory.addFetch object (-1)
          if newCount = 0 then
            let memory ← destroyMembers (drop fuel) object (memory.members object) memory
            let memory ← memory.release object
            memory.store handle none
          else some memory

/-- No object is deleted inside its own destructor. -/
def depth (memory : Memory) : Nat := memory.made + 1

def add (memory : Memory) (handle : Handle) : Option Memory := do
  let ptr ← memory.ptr handle
  match ptr with
  | none => some memory
  | some object => (memory.addFetch object 1).map Prod.snd

/-- `new T`; its members are constructed by actions of their own. -/
def new (memory : Memory) : Memory :=
  { memory with
    refCount := update memory.refCount memory.made (some 0)
    members := update memory.members memory.made 0
    made := memory.made + 1 }

/-! ### The constructors, the destructor and the assignments -/

def construct (memory : Memory) (handle : Handle) (it : Option Nat) : Option Memory :=
  (memory.occupy handle it).add handle

def constructNull (memory : Memory) (handle : Handle) : Option Memory :=
  some (memory.occupy handle none)

def constructCopy (memory : Memory) (handle rhs : Handle) : Option Memory := do
  let ptr ← memory.ptr rhs
  (memory.occupy handle ptr).add handle

def constructMove (memory : Memory) (handle rhs : Handle) : Option Memory := do
  let ptr ← memory.ptr rhs
  (memory.occupy handle ptr).store rhs none

def destroy (memory : Memory) (handle : Handle) : Option Memory :=
  (memory.drop memory.depth handle).map fun memory => memory.vacate handle

def assignRaw (memory : Memory) (handle : Handle) (rhs : Option Nat) : Option Memory := do
  let ptr ← memory.ptr handle
  if ptr ≠ rhs then
    let memory ← memory.drop memory.depth handle
    let memory ← memory.store handle rhs
    memory.add handle
  else some memory

def assignCopy (memory : Memory) (handle rhs : Handle) : Option Memory := do
  let otherPtr ← memory.ptr rhs
  let ptr ← memory.ptr handle
  if ptr ≠ otherPtr then
    let memory ← memory.drop memory.depth handle
    let memory ← memory.store handle otherPtr
    memory.add handle
  else some memory

def assignMove (memory : Memory) (handle rhs : Handle) : Option Memory := do
  let memory ← memory.drop memory.depth handle
  let ptr ← memory.ptr rhs
  let memory ← memory.store handle ptr
  memory.store rhs none

def make (memory : Memory) (handle : Handle) : Option Memory :=
  memory.new.construct handle (some memory.made)

end Memory

/-! ### Programs -/

inductive Action where
  | new
  | make (handle : Handle)
  | construct (handle : Handle) (it : Option Nat)
  | constructNull (handle : Handle)
  | constructCopy (handle rhs : Handle)
  | constructMove (handle rhs : Handle)
  | assignRaw (handle : Handle) (rhs : Option Nat)
  | assignCopy (handle rhs : Handle)
  | assignMove (handle rhs : Handle)
  | destroy (name : Nat)

def step (memory : Memory) : Action → Option Memory
  | .new => some memory.new
  | .make handle => memory.make handle
  | .construct handle it => memory.construct handle it
  | .constructNull handle => memory.constructNull handle
  | .constructCopy handle rhs => memory.constructCopy handle rhs
  | .constructMove handle rhs => memory.constructMove handle rhs
  | .assignRaw handle rhs => memory.assignRaw handle rhs
  | .assignCopy handle rhs => memory.assignCopy handle rhs
  | .assignMove handle rhs => memory.assignMove handle rhs
  | .destroy name => memory.destroy (.loose name)

def start : Memory :=
  { ptr := fun _ => none
    refCount := fun _ => none
    members := fun _ => 0
    made := 0
    deleted := [] }

namespace Memory

def Live (memory : Memory) (object : Nat) : Prop := (memory.refCount object).isSome = true

def There (memory : Memory) (handle : Handle) : Prop := (memory.ptr handle).isSome = true

/-- Where the next handle may be constructed. -/
def Vacant (memory : Memory) : Handle → Prop
  | .loose name => memory.ptr (.loose name) = none
  | .inside object index => memory.Live object ∧ index = memory.members object

/-- A raw pointer that may be passed. -/
def Valid (memory : Memory) (it : Option Nat) : Prop := ∀ object ∈ it, memory.Live object

/-- One object holds a handle to the other. -/
def Holds (memory : Memory) (holder object : Nat) : Prop :=
  ∃ index, memory.ptr (.inside holder index) = some (some object)

def Acyclic (memory : Memory) : Prop := ∀ object, ¬ Relation.TransGen memory.Holds object object

instance (memory : Memory) (object : Nat) : Decidable (memory.Live object) :=
  inferInstanceAs (Decidable (_ = true))

instance (memory : Memory) (handle : Handle) : Decidable (memory.There handle) :=
  inferInstanceAs (Decidable (_ = true))

end Memory

/-- What a C++ program keeps to: only handles and objects that are there are used. -/
def allowed (memory : Memory) (action : Action) : Prop :=
  memory.Acyclic ∧
    match action with
    | .new => True
    | .make handle => memory.Vacant handle
    | .construct handle it => memory.Vacant handle ∧ memory.Valid it
    | .constructNull handle => memory.Vacant handle
    | .constructCopy handle rhs => memory.Vacant handle ∧ memory.There rhs
    | .constructMove handle rhs => memory.Vacant handle ∧ memory.There rhs
    | .assignRaw handle rhs => memory.There handle ∧ memory.Valid rhs
    | .assignCopy handle rhs => memory.There handle ∧ memory.There rhs
    | .assignMove handle rhs => memory.There handle ∧ memory.There rhs
    | .destroy name => memory.There (.loose name)

def machine : StepMachine Memory Action :=
  { allowed := allowed
    step := step }

/-! ### What an assignment must spare -/

/-- The object has an owner of its own: a chain of handles leads to it that begins in a
variable, or in an object that no handle points to, and avoids `handle`. -/
inductive Kept (memory : Memory) (handle : Handle) : Nat → Prop where
  | unowned (object : Nat) (live : memory.Live object)
      (nobody : ∀ other, memory.ptr other ≠ some (some object)) : Kept memory handle object
  | loose (name object : Nat) (apart : Handle.loose name ≠ handle)
      (points : memory.ptr (.loose name) = some (some object)) : Kept memory handle object
  | inside (holder index object : Nat) (kept : Kept memory handle holder)
      (apart : Handle.inside holder index ≠ handle)
      (points : memory.ptr (.inside holder index) = some (some object)) :
      Kept memory handle object

/-- A variable, or a member of such an object. -/
def Rooted (kept : Nat → Prop) : Handle → Prop
  | .loose _ => True
  | .inside object _ => kept object

/-- The pointer that is assigned is the old one, or its object has another owner. -/
def Spares (memory : Memory) (handle : Handle) (value : Option Nat) : Prop :=
  memory.ptr handle = some value ∨ ∀ object ∈ value, Kept memory handle object

/-- The condition on a step. -/
def sparing (memory : Memory) : Action → Prop
  | .assignRaw handle rhs => Spares memory handle rhs
  | .assignCopy handle rhs => ∀ value ∈ memory.ptr rhs, Spares memory handle value
  | .assignMove handle rhs => Rooted (Kept memory handle) rhs
  | _ => True

/-- The machine of the programs whose assignments all meet the condition. -/
def sparingMachine : StepMachine Memory Action :=
  { allowed := fun memory action => machine.allowed memory action ∧ sparing memory action
    step := step }

end AC97Kernel.Shared
