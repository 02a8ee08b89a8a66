/-
Words on the stack, and the way into a handler and back.

Values that are pushed one after the other are found from the stack pointer on, the last
one first.
-/

import AC97Kernel.Library.I386

set_option autoImplicit false

namespace I386

namespace Memory

/-- What memory is when `values` are pushed on a stack that ends at `top`. -/
def pushes : Memory → Word → List Word → Memory
  | memory, _, [] => memory
  | memory, top, value :: values => pushes (memory.store (top - 4) value) (top - 4) values

variable {memory : Memory} {top place : Word} {values : List Word}

theorem pushes_beyond (short : 4 * values.length ≤ 2 ^ 32)
    (beyond : Beyond (top - BitVec.ofNat 32 (4 * values.length)) (4 * values.length) place) :
    memory.pushes top values place = memory place := by
  induction values generalizing memory top with
  | nil => rfl
  | cons value values ih =>
      rw [List.length_cons] at short beyond
      have below : top - BitVec.ofNat 32 (4 * (values.length + 1)) =
          top - 4 - BitVec.ofNat 32 (4 * values.length) := by bv_omega
      rw [below] at beyond
      rw [pushes, ih (by omega) (Nat.le_trans (by omega) beyond), store_beyond]
      unfold Beyond at *
      bv_omega

/-- The last value is the lowest. -/
theorem load_pushes (short : 4 * values.length < 2 ^ 32) {index : Nat}
    (inside : index < values.length) :
    (memory.pushes top values).load (top - BitVec.ofNat 32 (4 * (index + 1))) = values[index] := by
  induction values generalizing memory top index with
  | nil => exact absurd inside (Nat.not_lt_zero index)
  | cons value values ih =>
      rw [List.length_cons] at short
      cases index with
      | zero =>
          have kept : ((memory.store (top - 4) value).pushes (top - 4) values).load (top - 4) =
              (memory.store (top - 4) value).load (top - 4) := by
            apply load_congr
            intro index small
            apply pushes_beyond (by omega)
            unfold Beyond
            bv_omega
          exact kept.trans (load_store _ _ _)
      | succ index =>
          have below : top - BitVec.ofNat 32 (4 * (index + 1 + 1)) =
              top - 4 - BitVec.ofNat 32 (4 * (index + 1)) := by bv_omega
          rw [below, pushes]
          exact ih (by omega) (Nat.lt_of_succ_lt_succ inside)

end Memory

namespace Machine

def pushes (machine : Machine) (values : List Word) : Machine := values.foldl push machine

/-- A word of the stack, counted from the top of the stack. -/
def stackWord (machine : Machine) (index : Nat) : Word :=
  machine.memory.load (machine.general .esp + BitVec.ofNat 32 (4 * index))

/-- The `count` words on top of the stack are still there. -/
def HasStack (before after : Machine) (count : Nat) : Prop :=
  ∀ index < count, after.stackWord index = before.stackWord index

variable {machine after : Machine} {values : List Word}

theorem pushes_esp :
    (machine.pushes values).general .esp =
      machine.general .esp - BitVec.ofNat 32 (4 * values.length) := by
  induction values generalizing machine with
  | nil => exact (BitVec.sub_zero _).symm
  | cons value values ih =>
      change ((machine.push value).pushes values).general .esp = _
      rw [ih, List.length_cons]
      change machine.general .esp - 4 - _ = _
      bv_omega

theorem pushes_memory :
    (machine.pushes values).memory = machine.memory.pushes (machine.general .esp) values := by
  induction values generalizing machine with
  | nil => rfl
  | cons value values ih =>
      change ((machine.push value).pushes values).memory = _
      rw [ih]
      rfl

theorem Keeps.pushes : Keeps [.esp] machine (machine.pushes values) := by
  induction values generalizing machine with
  | nil => exact .refl _ _
  | cons value values ih => exact (Keeps.push machine value (by decide)).trans ih

theorem pushes_eflags : (machine.pushes values).eflags = machine.eflags := by
  induction values generalizing machine with
  | nil => rfl
  | cons value values ih => exact ih

theorem stackWord_pushes (short : 4 * values.length < 2 ^ 32) {index : Nat} {value : Word}
    (found : values.reverse[index]? = some value) :
    (machine.pushes values).stackWord index = value := by
  obtain ⟨inside, rfl⟩ := List.getElem?_eq_some_iff.mp found
  rw [List.length_reverse] at inside
  have low : values.length - 1 - index < values.length := by omega
  rw [List.getElem_reverse, ← @Memory.load_pushes machine.memory (machine.general .esp) values short
    _ low]
  unfold stackWord
  rw [pushes_esp, pushes_memory]
  congr 1
  bv_omega

/-- What is pushed keeps off the words that are already there. -/
theorem stackWord_behind {count index : Nat} (long : values.length = count)
    (short : 4 * (count + index + 1) ≤ 2 ^ 32) :
    (machine.pushes values).stackWord (count + index) = machine.stackWord index := by
  subst long
  unfold stackWord
  rw [pushes_esp, pushes_memory]
  have there : machine.general .esp - BitVec.ofNat 32 (4 * values.length) +
      BitVec.ofNat 32 (4 * (values.length + index)) =
      machine.general .esp + BitVec.ofNat 32 (4 * index) := by bv_omega
  rw [there]
  apply Memory.load_congr
  intro byte small
  apply Memory.pushes_beyond (by omega)
  unfold Beyond
  bv_omega

theorem pusha_eq : machine.pusha = machine.pushes
    ([Register.eax, .ecx, .edx, .ebx, .esp, .ebp, .esi, .edi].map machine.general) := rfl

theorem top_eq : machine.top = machine.stackWord 0 :=
  congrArg machine.memory.load (BitVec.add_zero _).symm

theorem stackWord_discard (words index : Nat) :
    (machine.discard words).stackWord index = machine.stackWord (words + index) := by
  unfold stackWord
  rw [memory_discard, general_discard, if_pos rfl, BitVec.add_assoc, ← BitVec.ofNat_add,
    ← Nat.mul_add]

/-- Words are dropped by an addition as well. -/
theorem stackWord_add (words index : Nat) :
    (machine.add (BitVec.ofNat 32 (4 * words)) .esp).stackWord index =
      machine.stackWord (words + index) :=
  stackWord_discard words index

theorem stackWord_pop {register : Register} (other : register ≠ .esp) (index : Nat) :
    (machine.pop register).stackWord index = machine.stackWord (1 + index) := by
  rw [← stackWord_discard]
  unfold pop stackWord
  rw [general_set, if_neg other.symm]
  rfl

/-- The registers that `popa` finds on the stack. -/
theorem popa_general (register : Register) : machine.popa.general register =
    match register with
    | .edi => machine.stackWord 0
    | .esi => machine.stackWord 1
    | .ebp => machine.stackWord 2
    | .ebx => machine.stackWord 4
    | .edx => machine.stackWord 5
    | .ecx => machine.stackWord 6
    | .eax => machine.stackWord 7
    | .esp => machine.general .esp + 32 := by
  let low := ((machine.pop .edi).pop .esi).pop .ebp
  let high := (low.discard 1).pop .ebx
  cases register with
  | edi => exact top_eq
  | esi =>
      change (machine.pop .edi).top = _
      rw [top_eq, stackWord_pop (by decide)]
  | ebp =>
      change ((machine.pop .edi).pop .esi).top = _
      rw [top_eq, stackWord_pop (by decide), stackWord_pop (by decide)]
  | ebx =>
      change (low.discard 1).top = _
      rw [top_eq, stackWord_discard, stackWord_pop (by decide), stackWord_pop (by decide),
        stackWord_pop (by decide)]
  | edx =>
      change high.top = _
      rw [top_eq, stackWord_pop (by decide), stackWord_discard, stackWord_pop (by decide),
        stackWord_pop (by decide), stackWord_pop (by decide)]
  | ecx =>
      change (high.pop .edx).top = _
      rw [top_eq, stackWord_pop (by decide), stackWord_pop (by decide), stackWord_discard,
        stackWord_pop (by decide), stackWord_pop (by decide), stackWord_pop (by decide)]
  | eax =>
      change ((high.pop .edx).pop .ecx).top = _
      rw [top_eq, stackWord_pop (by decide), stackWord_pop (by decide), stackWord_pop (by decide),
        stackWord_discard, stackWord_pop (by decide), stackWord_pop (by decide),
        stackWord_pop (by decide)]
  | esp =>
      change machine.general .esp + 4 + 4 + 4 + 4 + 4 + 4 + 4 + 4 = _
      bv_omega

theorem popa_esp : machine.popa.general .esp = machine.general .esp + 32 := popa_general .esp

theorem popa_memory : machine.popa.memory = machine.memory := rfl

theorem stackWord_popa (index : Nat) : machine.popa.stackWord index = machine.stackWord (8 + index) := by
  unfold stackWord
  rw [popa_esp, popa_memory]
  congr 1
  bv_omega

/-- `popa` takes back what `pusha` has saved, with the words behind it. -/
theorem popa_pusha {saver : Machine} {words : Nat} (short : 4 * (8 + words) ≤ 2 ^ 32)
    (esp : machine.general .esp = saver.pusha.general .esp)
    (same : HasStack saver.pusha machine (8 + words)) :
    machine.popa.general = saver.general ∧ HasStack saver machine.popa words := by
  have word (index : Nat) (small : index < 8) (value : Word)
      (found : ([Register.eax, .ecx, .edx, .ebx, .esp, .ebp, .esi, .edi].map
        saver.general).reverse[index]? = some value) : machine.stackWord index = value := by
    rw [same index (by omega), pusha_eq]
    exact stackWord_pushes (by simp) found
  constructor
  · funext register
    rw [popa_general]
    cases register with
    | edi => exact word 0 (by decide) _ rfl
    | esi => exact word 1 (by decide) _ rfl
    | ebp => exact word 2 (by decide) _ rfl
    | ebx => exact word 4 (by decide) _ rfl
    | edx => exact word 5 (by decide) _ rfl
    | ecx => exact word 6 (by decide) _ rfl
    | eax => exact word 7 (by decide) _ rfl
    | esp =>
        simp only
        rw [esp, pusha_eq, pushes_esp]
        exact BitVec.sub_add_cancel _ _
  · intro index inside
    rw [stackWord_popa, same _ (by omega), pusha_eq]
    exact stackWord_behind rfl (by omega)

/-! ### Handlers -/

/-- Where a handler runs: its selectors, the stack for a change to an inner level, and whether
it runs with interrupts off. -/
structure Entry where
  cs : BitVec 16
  ss : BitVec 16
  stack : Word
  masks : Bool

variable {entry : Entry} {back : Word}

/-- What the processor pushes on its way into a handler. -/
def frame (machine : Machine) (entry : Entry) (back : Word) : List Word :=
  let always := [machine.eflags, machine.cs.setWidth 32, back]
  if level entry.cs < level machine.cs then
    machine.ss.setWidth 32 :: machine.general .esp :: always
  else always

/-- With the stack of the handler. -/
def onStack (machine : Machine) (entry : Entry) : Machine :=
  if level entry.cs < level machine.cs then { machine.set .esp entry.stack with ss := entry.ss }
  else machine

/-- An interrupt, an exception or `int`, to come back to `back`. -/
def enter (machine : Machine) (entry : Entry) (back : Word) : Machine :=
  { (machine.onStack entry).pushes (machine.frame entry back) with
    cs := entry.cs
    eflags := if entry.masks then setFlag machine.eflags .interrupt false else machine.eflags }

theorem frame_inner (inner : level entry.cs < level machine.cs) : machine.frame entry back =
    [machine.ss.setWidth 32, machine.general .esp, machine.eflags, machine.cs.setWidth 32, back] :=
  if_pos inner

theorem frame_same (same : ¬ level entry.cs < level machine.cs) :
    machine.frame entry back = [machine.eflags, machine.cs.setWidth 32, back] :=
  if_neg same

theorem enter_general {register : Register} (other : register ≠ .esp) :
    (machine.enter entry back).general register = machine.general register := by
  change ((machine.onStack entry).pushes _).general register = _
  rw [Keeps.pushes.general register (by simpa using other)]
  unfold onStack
  split
  · exact if_neg other
  · rfl

theorem frame_length : (machine.frame entry back).length ≤ 5 := by
  by_cases inner : level entry.cs < level machine.cs
  · rw [frame_inner inner]
    rfl
  · rw [frame_same inner]
    simp

/-- A handler that is back at the top of its stack, with the frame still there. -/
structure Unwound (interrupted : Machine) (entry : Entry) (back : Word) (after : Machine) :
    Prop where
  esp : after.general .esp = (interrupted.enter entry back).general .esp
  cs : after.cs = entry.cs
  ss : after.ss = (interrupted.enter entry back).ss
  frame : HasStack (interrupted.enter entry back) after (interrupted.frame entry back).length

/-- What `iret` does at the end of a handler. -/
structure Resumed (interrupted : Machine) (back : Word) (after : Machine) : Prop where
  back : after.top = back
  esp : after.iret.general .esp = interrupted.general .esp
  cs : after.iret.cs = interrupted.cs
  ss : after.iret.ss = interrupted.ss
  eflags : after.iret.eflags = interrupted.eflags

theorem iret_general {register : Register} (other : register ≠ .esp) :
    machine.iret.general register = machine.general register := by
  unfold iret
  simp only
  split
  · exact (if_neg other).trans (if_neg other)
  · exact if_neg other

theorem iret_memory : machine.iret.memory = machine.memory := by
  unfold iret
  simp only
  split <;> rfl

theorem iret_control : machine.iret.control = machine.control := by
  unfold iret
  simp only
  split <;> rfl

theorem selector_again (selector : BitVec 16) : (selector.setWidth 32).setWidth 16 = selector := by
  rw [BitVec.setWidth_setWidth_of_le _ (by decide)]
  exact BitVec.setWidth_eq selector

theorem Unwound.resumed {interrupted : Machine} (unwound : Unwound interrupted entry back after) :
    Resumed interrupted back after := by
  have short : 4 * (interrupted.frame entry back).length < 2 ^ 32 := by
    have := @frame_length interrupted entry back
    omega
  have word (index : Nat) (value : Word)
      (found : (interrupted.frame entry back).reverse[index]? = some value) :
      after.stackWord index = value := by
    obtain ⟨inside, _⟩ := List.getElem?_eq_some_iff.mp found
    rw [List.length_reverse] at inside
    exact (unwound.frame index inside).trans (stackWord_pushes short found)
  have popped (words : Nat) : (after.discard words).top = after.stackWord words := by
    rw [top_eq, stackWord_discard, Nat.add_zero]
  have stack : after.general .esp = (interrupted.onStack entry).general .esp -
      BitVec.ofNat 32 (4 * (interrupted.frame entry back).length) := unwound.esp.trans pushes_esp
  have selector : after.ss = (interrupted.onStack entry).ss := unwound.ss.trans Keeps.pushes.ss
  unfold onStack at stack selector
  by_cases inner : level entry.cs < level interrupted.cs
  · rw [frame_inner inner] at word
    have cs : ((after.discard 1).top).setWidth 16 = interrupted.cs := by
      rw [popped, word 1 _ rfl]
      exact selector_again _
    constructor
    case back => exact top_eq.trans (word 0 _ rfl)
    all_goals
      unfold iret
      simp only [cs, unwound.cs, if_pos inner]
    case esp => exact (popped 3).trans (word 3 _ rfl)
    case cs => rfl
    case eflags => exact (popped 2).trans (word 2 _ rfl)
    case ss =>
      have last : ((after.discard 3).discard 1).top = interrupted.ss.setWidth 32 := by
        rw [top_eq, stackWord_discard, stackWord_discard]
        exact word 4 _ rfl
      exact (congrArg (BitVec.setWidth 16) last).trans (selector_again _)
  · rw [frame_same inner] at word stack
    simp only [if_neg inner] at stack selector
    have cs : ((after.discard 1).top).setWidth 16 = interrupted.cs := by
      rw [popped, word 1 _ rfl]
      exact selector_again _
    constructor
    case back => exact top_eq.trans (word 0 _ rfl)
    all_goals
      unfold iret
      simp only [cs, unwound.cs, if_neg inner]
    case esp =>
      change after.general .esp + 12 = _
      rw [stack]
      exact BitVec.sub_add_cancel _ _
    case eflags => exact (popped 2).trans (word 2 _ rfl)
    case ss => exact selector

end Machine

end I386
