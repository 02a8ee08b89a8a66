/-
Runs of bytes in a memory.

A run is put into memory from an address on, one byte after the other.  It stays
there while what is put later keeps off its addresses.
-/

import Mathlib.Algebra.Group.Nat.Defs
import Mathlib.Logic.Function.Basic

set_option autoImplicit false

namespace ByteRuns

variable {Byte : Type} {memory later : Nat → Byte} {address pointer : Nat} {bytes : List Byte}

def put (memory : Nat → Byte) : Nat → List Byte → Nat → Byte
  | _, [] => memory
  | pointer, byte :: bytes => put (Function.update memory pointer byte) (pointer + 1) bytes

/-- The bytes stand in memory from an address on. -/
def Occupies (memory : Nat → Byte) (address : Nat) (bytes : List Byte) : Prop :=
  ∀ index < bytes.length, bytes[index]? = some (memory (address + index))

theorem put_outside (outside : address < pointer ∨ pointer + bytes.length ≤ address) :
    put memory pointer bytes address = memory address := by
  induction bytes generalizing memory pointer with
  | nil => rfl
  | cons byte bytes ih =>
      rw [List.length_cons] at outside
      rw [put, ih (by omega)]
      exact Function.update_of_ne (by omega) _ _

theorem put_occupies (memory : Nat → Byte) (pointer : Nat) (bytes : List Byte) :
    Occupies (put memory pointer bytes) pointer bytes := by
  induction bytes generalizing memory pointer with
  | nil =>
      intro index inside
      cases inside
  | cons byte bytes ih =>
      intro index inside
      rw [put]
      cases index with
      | zero =>
          rw [put_outside (by omega), Nat.add_zero, Function.update_self]
          rfl
      | succ index =>
          have rest := ih (Function.update memory pointer byte) (pointer + 1) index
            (Nat.lt_of_succ_lt_succ inside)
          rw [List.getElem?_cons_succ, rest]
          congr 2
          omega

/-- Two runs, the second from the end of the first, are one. -/
theorem put_append (memory : Nat → Byte) (pointer : Nat) (bytes more : List Byte) :
    put (put memory pointer bytes) (pointer + bytes.length) more =
      put memory pointer (bytes ++ more) := by
  induction bytes generalizing memory pointer with
  | nil => rfl
  | cons byte bytes ih =>
      have joined := ih (Function.update memory pointer byte) (pointer + 1)
      rw [List.length_cons, List.cons_append, put, put, ← joined]
      congr 1
      omega

/-- Runs of one length leave the same memory only if they are the same. -/
theorem put_injective {others : List Byte} (length : bytes.length = others.length)
    (same : put memory pointer bytes = put memory pointer others) : bytes = others := by
  apply List.ext_getElem? fun index => ?_
  by_cases inside : index < bytes.length
  · rw [put_occupies memory pointer bytes index inside, same,
      put_occupies memory pointer others index (length ▸ inside)]
  · rw [List.getElem?_eq_none (by omega), List.getElem?_eq_none (by omega)]

theorem Occupies.kept (occupies : Occupies memory address bytes)
    (same : ∀ place, address ≤ place → place < address + bytes.length →
      later place = memory place) : Occupies later address bytes := by
  intro index inside
  rw [same _ (by omega) (by omega)]
  exact occupies index inside

end ByteRuns
