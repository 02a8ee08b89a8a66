/-
Loops whose body may stop the program.

`forRange body start count` runs `body` on `start`, `start + 1` and so on,
`count` times, and gives nothing as soon as one of them gives nothing.
`whileLoop guard body turns` gives nothing, too, when the guard still holds
after `turns` turns.
-/

import Mathlib.Data.Option.Basic
import Mathlib.Logic.Function.Iterate

set_option autoImplicit false

namespace Loops

variable {State : Type}

def forRange (body : Nat → State → Option State) : Nat → Nat → State → Option State
  | _, 0, state => some state
  | start, count + 1, state =>
      (body start state).bind (forRange body (start + 1) count)

/-- The turns of a loop in two stretches. -/
theorem forRange_add (body : Nat → State → Option State) (start first second : Nat)
    (state : State) : forRange body start (first + second) state =
      (forRange body start first state).bind (forRange body (start + first) second) := by
  induction first generalizing start state with
  | zero => rw [Nat.zero_add, Nat.add_zero, forRange, Option.bind_some]
  | succ first ih =>
      have later : start + (first + 1) = start + 1 + first := by omega
      rw [Nat.succ_add, forRange, forRange, Option.bind_assoc, later]
      exact congrArg _ (funext fun next => ih (start + 1) next)

/-- What one turn carries from its index to the next holds after the last turn. -/
theorem forRange_preserves (body : Nat → State → Option State) (start count : Nat)
    (holds : Nat → State → Prop) {state final : State}
    (turn : ∀ index before after, start ≤ index → index < start + count →
      holds index before → body index before = some after → holds (index + 1) after)
    (initially : holds start state)
    (ran : forRange body start count state = some final) : holds (start + count) final := by
  induction count generalizing start state with
  | zero =>
      cases ran
      exact initially
  | succ count ih =>
      obtain ⟨next, stepped, remaining⟩ := Option.bind_eq_some_iff.mp ran
      have first : holds (start + 1) next :=
        turn start state next (Nat.le_refl start) (by omega) initially stepped
      have last : holds (start + 1 + count) final := by
        apply ih (start + 1) _ first remaining
        intro index before after lower upper
        exact turn index before after (by omega) (by omega)
      have sameEnd : start + (count + 1) = start + 1 + count := by omega
      rw [sameEnd]
      exact last

/-- The loop comes back when every turn does. -/
theorem forRange_succeeds (body : Nat → State → Option State) (start count : Nat)
    (state : State) (holds : Nat → State → Prop)
    (turn : ∀ index before, start ≤ index → index < start + count → holds index before →
      ∃ after, body index before = some after ∧ holds (index + 1) after)
    (initially : holds start state) :
    ∃ final, forRange body start count state = some final ∧ holds (start + count) final := by
  induction count generalizing start state with
  | zero => exact ⟨state, rfl, initially⟩
  | succ count ih =>
      obtain ⟨next, stepped, first⟩ := turn start state (Nat.le_refl start) (by omega) initially
      obtain ⟨final, ran, last⟩ := ih (start + 1) next
        (fun index before lower upper => turn index before (by omega) (by omega)) first
      have sameEnd : start + (count + 1) = start + 1 + count := by omega
      refine ⟨final, ?_, ?_⟩
      · rw [forRange, stepped]
        exact ran
      · rw [sameEnd]
        exact last

def whileLoop (guard : State → Bool) (body : State → Option State) : Nat → State → Option State
  | 0, _ => none
  | turns + 1, state =>
      if guard state then (body state).bind (whileLoop guard body turns) else some state

section While

variable {guard : State → Bool} {body : State → Option State} {turns larger : Nat}
  {state next final other : State}

theorem whileLoop_done (stops : guard state = false) :
    whileLoop guard body (turns + 1) state = some state := by
  simp [whileLoop, stops]

theorem whileLoop_turn (goesOn : guard state = true) (stepped : body state = some next) :
    whileLoop guard body (turns + 1) state = whileLoop guard body turns next := by
  simp [whileLoop, goesOn, stepped]

/-- A loop that has ended is not changed by more turns. -/
theorem whileLoop_more (ran : whileLoop guard body turns state = some final)
    (more : turns ≤ larger) : whileLoop guard body larger state = some final := by
  induction turns generalizing state larger with
  | zero => cases ran
  | succ turns ih =>
      obtain ⟨rest, rfl⟩ : ∃ rest, larger = rest + 1 := ⟨larger - 1, by omega⟩
      rw [whileLoop] at ran ⊢
      by_cases goesOn : guard state = true
      · rw [if_pos goesOn] at ran ⊢
        obtain ⟨next, stepped, remaining⟩ := Option.bind_eq_some_iff.mp ran
        rw [stepped]
        exact ih remaining (by omega)
      · rw [if_neg goesOn] at ran ⊢
        exact ran

/-- A loop whose turns keep `holds` and shrink a measure ends. -/
theorem whileLoop_ends (guard : State → Bool) (body : State → Option State)
    (holds : State → Prop) (measure : State → Nat)
    (turn : ∀ before, holds before → guard before = true →
      ∃ after, body before = some after ∧ holds after ∧ measure after < measure before)
    (initially : holds state) :
    ∃ turns final, whileLoop guard body turns state = some final ∧ holds final ∧
      guard final = false := by
  induction bound : measure state using Nat.strongRecOn generalizing state with
  | ind bound ih =>
      cases goesOn : guard state with
      | false => exact ⟨1, state, whileLoop_done goesOn, initially, goesOn⟩
      | true =>
          obtain ⟨after, stepped, kept, smaller⟩ := turn state initially goesOn
          obtain ⟨turns, final, ran, last, stops⟩ := ih _ (bound ▸ smaller) kept rfl
          exact ⟨turns + 1, final, (whileLoop_turn goesOn stepped).trans ran, last, stops⟩

/-- A loop that cannot leave states in which the guard holds does not end. -/
theorem whileLoop_never (holds : State → Prop)
    (turn : ∀ before, holds before → guard before = true ∧
      ∀ after, body before = some after → holds after)
    (initially : holds state) (turns : Nat) : whileLoop guard body turns state = none := by
  induction turns generalizing state with
  | zero => rfl
  | succ turns ih =>
      obtain ⟨goesOn, closed⟩ := turn state initially
      rw [whileLoop, if_pos goesOn]
      cases stepped : body state with
      | none => rfl
      | some after => exact ih (closed after stepped)

/-- What every turn keeps holds when the loop has ended. -/
theorem whileLoop_preserves (holds : State → Prop)
    (turn : ∀ before after, holds before → body before = some after → holds after)
    (initially : holds state) (ran : whileLoop guard body turns state = some final) :
    holds final := by
  induction turns generalizing state with
  | zero => cases ran
  | succ turns ih =>
      rw [whileLoop] at ran
      by_cases goesOn : guard state = true
      · rw [if_pos goesOn] at ran
        obtain ⟨next, stepped, remaining⟩ := Option.bind_eq_some_iff.mp ran
        exact ih (turn state next initially stepped) remaining
      · rw [if_neg goesOn] at ran
        cases ran
        exact initially

/-- Two runs of a loop that have ended have ended the same way. -/
theorem whileLoop_unique (ran : whileLoop guard body turns state = some final)
    (ranOther : whileLoop guard body larger state = some other) : final = other := by
  have first := whileLoop_more ran (Nat.le_max_left turns larger)
  have second := whileLoop_more ranOther (Nat.le_max_right turns larger)
  exact Option.some.inj (first.symm.trans second)

/-- A loop whose body always comes back ends where the guard fails for the first time. -/
theorem whileLoop_iterate {step : State → State} :
    (∃ turns final, whileLoop guard (fun state => some (step state)) turns state = some final) ↔
      ∃ count, guard (step^[count] state) = false := by
  have stepped (state : State) : (fun state => some (step state)) state = some (step state) := rfl
  constructor
  · intro ends
    obtain ⟨turns, final, ran⟩ := ends
    induction turns generalizing state with
    | zero => cases ran
    | succ turns ih =>
        cases goesOn : guard state with
        | false => exact ⟨0, goesOn⟩
        | true =>
            rw [whileLoop_turn goesOn (stepped state)] at ran
            obtain ⟨count, stops⟩ := ih ran
            exact ⟨count + 1, stops⟩
  · intro stops
    obtain ⟨count, stops⟩ := stops
    induction count generalizing state with
    | zero => exact ⟨1, state, whileLoop_done stops⟩
    | succ count ih =>
        cases goesOn : guard state with
        | false => exact ⟨1, state, whileLoop_done goesOn⟩
        | true =>
            obtain ⟨turns, final, ran⟩ := ih stops
            exact ⟨turns + 1, final, (whileLoop_turn goesOn (stepped state)).trans ran⟩

end While

end Loops
