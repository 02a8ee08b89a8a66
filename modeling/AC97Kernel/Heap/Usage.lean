/-
What a call of the kernel does to the heap.

A call takes blocks with `new` and gives them back with `delete`; a counted object is
a block, too, and the counts of kernel/shared.h are kept beside the words of the heap.
A handle takes four of the 2^32 bytes of memory, so that no count wraps.  What a call
stores into its blocks, and what other threads take and give back meanwhile, is left
out.
-/

import AC97Kernel.Library.Runs
import AC97Kernel.Library.Ownership
import AC97Kernel.Heap.Contract

set_option autoImplicit false

namespace AC97Kernel

open Ownership Run

structure KernelHeap where
  client : Client
  refCount : Int → Int

abbrev Usage (Value : Type) := Run KernelHeap Value

namespace KernelHeap

def store (kernel : KernelHeap) : Store Int where
  live := {p | p ∈ kernel.client.live}
  count := kernel.refCount

def Sound (kernel : KernelHeap) : Prop :=
  ∃ blocks order, Client.Invariant kernel.client blocks order

end KernelHeap

namespace Usage

/-- `operator new`, which panics when there is no room. -/
def new (size : UInt32) : Usage Int := fun kernel =>
  (kernel.client.heap.operatorNew size).map fun (heap, p) =>
    (p, { kernel with
          client :=
            { heap := heap
              live := if size = 0 then kernel.client.live else p :: kernel.client.live } })

/-- `operator delete`. -/
def delete (p : Int) : Usage Unit := fun kernel =>
  (kernel.client.heap.free p).map fun heap =>
    ((), { kernel with client := { heap := heap, live := kernel.client.live.erase p } })

/-- The bytes of an array.  The kernel is compiled without exceptions, and for more than
half of the addresses the largest number of bytes is asked for. -/
def arrayBytes (count size : Nat) : UInt32 :=
  if count * size ≤ 2 ^ 31 then .ofNat (count * size) else 0xFFFFFFFF

/-! ### Handles -/

/-- `ref_count.add_fetch(delta)`. -/
def addFetch (p delta : Int) : Usage Int := fun kernel =>
  some (kernel.refCount p + delta,
    { kernel with
      refCount := Function.update kernel.refCount p (kernel.refCount p + delta) })

def add (p : Int) : Usage Unit := do
  let _ ← addFetch p 1

def drop (p : Int) : Usage Unit := do
  let newCount ← addFetch p (-1)
  if newCount = 0 then delete p

/-- The constructor of the object sets its count. -/
def construct (p : Int) : Usage Unit := fun kernel =>
  some ((), { kernel with refCount := Function.update kernel.refCount p 0 })

/-- `Shared<T>::make`, for an object of `size` bytes. -/
def make (size : UInt32) : Usage Int := do
  let p ← new size
  construct p
  add p
  return p

end Usage

/-- What a call that began with `start` has taken and not given back. -/
structure Owing (start : KernelHeap) (blocks handles : List Int) (now : KernelHeap) : Prop where
  sound : now.Sound
  base : now.client.heap.base = start.client.heap.base
  owes : Owes start.store blocks handles now.store

/-- A call that gives back what it takes. -/
def Balanced {Value : Type} (usage : Usage Value) : Prop :=
  ∀ start blocks handles, Keeps (Owing start blocks handles) usage

/-- The block of an allocation: nothing for no bytes. -/
def payload (size : UInt32) (p : Int) : List Int := if size = 0 then [] else [p]

theorem payload_some {size : UInt32} (some_ : size ≠ 0) (p : Int) : payload size p = [p] :=
  if_neg some_

variable {start now after : KernelHeap} {blocks handles : List Int} {p : Int} {size : UInt32}

theorem Owing.nothing (sound : start.Sound) : Owing start [] [] start :=
  ⟨sound, rfl, .start start.store⟩

theorem Owing.perm {blocks' : List Int} (owing : Owing start blocks handles now)
    (same : blocks.Perm blocks') : Owing start blocks' handles now :=
  ⟨owing.sound, owing.base, owing.owes.perm same⟩

theorem Owing.permHandles {handles' : List Int} (owing : Owing start blocks handles now)
    (same : handles.Perm handles') : Owing start blocks handles' now :=
  ⟨owing.sound, owing.base, owing.owes.permHandles same⟩

namespace KernelHeap

/-- No block begins where the heap begins. -/
theorem Sound.base_free (sound : now.Sound) : now.client.heap.base ∉ now.client.live := by
  intro live
  obtain ⟨blocks, order, invariant⟩ := sound
  obtain ⟨block, member, isHeld, address⟩ := invariant.held_block live
  have inside := invariant.layout.tiling.within block member
  unfold Heap.Layout.payloadAddress at address
  omega

/-- `new` either takes a block that nobody had or, for no bytes, nothing. -/
theorem new_cases (sound : now.Sound) (ran : (Usage.new size).run now = some (p, after)) :
    after.Sound ∧ after.client.heap.base = now.client.heap.base ∧
      ((size = 0 ∧ p = now.client.heap.base ∧ after = now) ∨
        (size ≠ 0 ∧ p ∉ now.store.live ∧ after.store = now.store.take p)) := by
  obtain ⟨blocks, order, invariant⟩ := sound
  obtain ⟨⟨heap, q⟩, allocated, same⟩ := Option.map_eq_some_iff.mp ran
  cases same
  obtain ⟨result, came, room⟩ := Option.bind_eq_some_iff.mp allocated
  by_cases zero : size = 0
  · subst zero
    have based := invariant.based
    cases came
    rw [if_neg (by change ¬ now.client.heap.base = 0; omega)] at room
    cases room
    exact ⟨⟨blocks, order, invariant⟩, rfl, .inl ⟨rfl, rfl, rfl⟩⟩
  · cases chosen : now.client.heap.choice (Heap.intsFor size) order with
    | none =>
        rw [invariant.layout.malloc_none invariant.below_sentinel zero chosen] at came
        cases came
        rw [if_pos rfl] at room
        cases room
    | some it =>
        obtain ⟨block, member, free, _, fits, expected⟩ :=
          invariant.layout.malloc_some invariant.below_sentinel zero chosen
        rw [expected] at came
        cases came
        split at room
        · cases room
        · cases room
          have served := invariant.malloc_served member free fits
          have fresh := (List.nodup_cons.mp served.distinct).1
          rw [if_neg zero]
          refine ⟨⟨_, _, served⟩, Heap.carveBlock_base _ _ _, .inr ⟨zero, fresh, ?_⟩⟩
          unfold KernelHeap.store Store.take
          congr 1
          ext q
          exact List.mem_cons

/-- Who deletes a block gives it back. -/
theorem delete_live (sound : now.Sound) (live : p ∈ now.store.live)
    (ran : (Usage.delete p).run now = some ((), after)) :
    after.Sound ∧ after.client.heap.base = now.client.heap.base ∧
      after.store = now.store.give p := by
  obtain ⟨blocks, order, invariant⟩ := sound
  obtain ⟨heap, freed, same⟩ := Option.map_eq_some_iff.mp ran
  cases same
  obtain ⟨before, block, next, around, address, result⟩ := invariant.free_between live
  rw [result] at freed
  cases freed
  have served := invariant.free_served around
  rw [← address] at served
  refine ⟨⟨_, _, served⟩, Heap.releaseBlock_base _ _ _ _, ?_⟩
  unfold KernelHeap.store Store.give
  congr 1
  ext q
  change q ∈ now.client.live.erase p ↔ q ∈ now.client.live ∧ q ∉ {p}
  rw [invariant.distinct.mem_erase_iff, Set.mem_singleton_iff, and_comm]

/-- Who deletes what `new` gives for no bytes does nothing. -/
theorem delete_base (sound : now.Sound) (base : p = now.client.heap.base)
    (ran : (Usage.delete p).run now = some ((), after)) : after = now := by
  have free := sound.base_free
  obtain ⟨heap, freed, same⟩ := Option.map_eq_some_iff.mp ran
  cases same
  unfold Heap.free at freed
  rw [if_pos base, ite_self] at freed
  cases freed
  rw [base, List.erase_of_not_mem free]

end KernelHeap

open KernelHeap

theorem new_owing (size : UInt32) : Triple (Owing start blocks handles) (Usage.new size)
    fun p now => (size = 0 → p = start.client.heap.base) ∧
      Owing start (payload size p ++ blocks) handles now := by
  intro before p now owing ran
  obtain ⟨sound, base, ⟨zero, atBase, same⟩ | ⟨some_, fresh, takes⟩⟩ := new_cases owing.sound ran
  · subst same
    refine ⟨fun _ => atBase.trans owing.base, ?_⟩
    rw [payload, if_pos zero]
    exact owing
  · refine ⟨fun zero => absurd zero some_, sound, base.trans owing.base, ?_⟩
    rw [payload_some some_, takes]
    exact owing.owes.take fresh

theorem delete_owing (atBase : size = 0 → p = start.client.heap.base) :
    Triple (Owing start (payload size p ++ blocks) handles) (Usage.delete p)
      fun _ => Owing start blocks handles := by
  intro before _ now owing ran
  by_cases zero : size = 0
  · rw [payload, if_pos zero] at owing
    rw [delete_base owing.sound ((atBase zero).trans owing.base.symm) ran]
    exact owing
  · rw [payload_some zero] at owing
    have live : p ∈ before.store.live := (owing.owes.live p).mpr (.inl List.mem_cons_self)
    obtain ⟨sound, base, gives⟩ := delete_live owing.sound live ran
    refine ⟨sound, base.trans owing.base, ?_⟩
    rw [gives]
    exact owing.owes.give

/-- A block that is not empty. -/
theorem new_block (some_ : size ≠ 0) : Triple (Owing start blocks handles) (Usage.new size)
    fun p => Owing start (p :: blocks) handles := by
  refine (new_owing size).mono (fun _ => id) fun p now owing => ?_
  rw [payload_some some_] at owing
  exact owing.2

theorem delete_block : Triple (Owing start (p :: blocks) handles) (Usage.delete p)
    fun _ => Owing start blocks handles :=
  delete_owing fun (impossible : (1 : UInt32) = 0) => absurd impossible (by decide)

theorem arrayBytes_zero_iff {count size : Nat} (positive : 0 < size) :
    Usage.arrayBytes count size = 0 ↔ count = 0 := by
  have zero (bytes : Nat) (small : bytes < 2 ^ 32) : UInt32.ofNat bytes = 0 ↔ bytes = 0 := by
    rw [← UInt32.toNat_inj, UInt32.toNat_ofNat_of_lt' small]
    exact Iff.rfl
  unfold Usage.arrayBytes
  split
  · rw [zero _ (by omega), Nat.mul_eq_zero]
    exact or_iff_left (by omega)
  · refine iff_of_false (by decide) ?_
    rintro rfl
    omega

/-! ### The rules of the handles -/

theorem make_owing (some_ : size ≠ 0) : Triple (Owing start blocks handles) (Usage.make size)
    fun p => Owing start blocks (p :: handles) := by
  intro before p now owing ran
  unfold Usage.make at ran
  rw [StateT.run_bind] at ran
  obtain ⟨⟨q, middle⟩, came, rest⟩ := Option.bind_eq_some_iff.mp ran
  obtain ⟨sound, base, ⟨zero, _⟩ | ⟨_, fresh, takes⟩⟩ := new_cases owing.sound came
  · exact absurd zero some_
  · have made := owing.owes.make fresh
    rw [← takes] at made
    cases rest
    refine ⟨sound, base.trans owing.base, ?_⟩
    have counted : middle.store.setCount q 1 =
        { live := middle.store.live
          count := Function.update (Function.update middle.refCount q 0) q
            (Function.update middle.refCount q 0 q + 1) } := by
      rw [Function.update_self, Function.update_idem]
      rfl
    rw [counted] at made
    exact made

theorem add_owing
    (known : p ∈ handles ∨ p ∈ start.client.live ∧ 1 ≤ start.refCount p) :
    Triple (Owing start blocks handles) (Usage.add p)
      fun _ => Owing start blocks (p :: handles) := by
  intro before _ now owing ran
  cases ran
  exact ⟨owing.sound, owing.base, owing.owes.add known⟩

theorem drop_owing : Triple (Owing start blocks (p :: handles)) (Usage.drop p)
    fun _ => Owing start blocks handles := by
  intro before _ now owing ran
  unfold Usage.drop at ran
  rw [StateT.run_bind] at ran
  obtain ⟨⟨newCount, middle⟩, came, rest⟩ := Option.bind_eq_some_iff.mp ran
  cases came
  by_cases last : before.refCount p + -1 = 0
  · have gone := owing.owes.drop_last last
    simp only [if_pos last] at rest
    have live : p ∈ before.store.live :=
      (owing.owes.live p).mpr (.inr (.inl List.mem_cons_self))
    have lowered : KernelHeap.Sound { before with
      refCount := Function.update before.refCount p (before.refCount p + -1) } := owing.sound
    obtain ⟨sound, base, gives⟩ := delete_live lowered live rest
    refine ⟨sound, base.trans owing.base, ?_⟩
    rw [gives, last]
    exact gone
  · simp only [if_neg last] at rest
    cases rest
    exact ⟨owing.sound, owing.base, owing.owes.drop last⟩

end AC97Kernel
