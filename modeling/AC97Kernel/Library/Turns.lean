/-
Computations that are given a number of turns.

A loop that may not end is a function of the turns that it may take, and fails
with `unfinished` when they are used up.  It settles on a result when it has that
result or is unfinished, and has it from some number of turns on.
-/

import Mathlib.Order.Basic

set_option autoImplicit false

namespace Turns

variable {Error Value Result : Type}

/-- Steps that do not fail with an error leave it to those in front of them. -/
theorem bind_error_iff {run : Except Error Value} {next : Value → Except Error Result}
    {error : Error} (passes : ∀ value, next value ≠ .error error) :
    (run >>= next) = .error error ↔ run = .error error := by
  cases run with
  | error other =>
      constructor
      · intro same
        cases same
        rfl
      · intro same
        cases same
        rfl
  | ok value =>
      constructor
      · intro failed
        exact absurd failed (passes value)
      · intro impossible
        cases impossible

structure Settles (unfinished : Error) (run : Nat → Except Error Value)
    (found : Except Error Value) : Prop where
  soon : ∃ bound, ∀ turns ≥ bound, run turns = found
  only : ∀ turns, run turns = found ∨ run turns = .error unfinished

variable {unfinished : Error} {run : Nat → Except Error Value} {found : Except Error Value}

theorem Settles.constant (found : Except Error Value) :
    Settles unfinished (fun _ => found) found where
  soon := ⟨0, fun _ _ => rfl⟩
  only _ := .inl rfl

/-- A result that is not `unfinished` is the one that the run settles on. -/
theorem Settles.eq_of_ok (settles : Settles unfinished run found) {turns : Nat} {value : Value}
    (ran : run turns = .ok value) : found = .ok value := by
  rcases settles.only turns with same | stopped
  · rw [← same, ran]
  · rw [stopped] at ran
    cases ran

/-- A run settles on one result. -/
theorem Settles.unique {other : Except Error Value} (settles : Settles unfinished run found)
    (settlesOther : Settles unfinished run other) : found = other := by
  obtain ⟨first, ran⟩ := settles.soon
  obtain ⟨second, ranOther⟩ := settlesOther.soon
  rw [← ran (max first second) (Nat.le_max_left _ _), ranOther _ (Nat.le_max_right _ _)]

theorem Settles.congr {other : Nat → Except Error Value} (settles : Settles unfinished run found)
    (same : ∀ turns, other turns = run turns) : Settles unfinished other found := by
  rwa [funext same]

/-- One turn goes to what comes before the run. -/
theorem Settles.later {other : Nat → Except Error Value} (settles : Settles unfinished run found)
    (none_ : other 0 = .error unfinished) (turn : ∀ turns, other (turns + 1) = run turns) :
    Settles unfinished other found where
  soon := by
    obtain ⟨bound, ran⟩ := settles.soon
    refine ⟨bound + 1, fun turns enough => ?_⟩
    obtain ⟨left, rfl⟩ : ∃ left, turns = left + 1 := ⟨turns - 1, by omega⟩
    rw [turn]
    exact ran left (by omega)
  only turns := by
    cases turns with
    | zero => exact .inr none_
    | succ left =>
        rw [turn]
        exact settles.only left

theorem Settles.bind {next : Value → Nat → Except Error Result} {value : Value}
    {last : Except Error Result} (first : Settles unfinished run (.ok value))
    (second : Settles unfinished (next value) last) :
    Settles unfinished (fun turns => run turns >>= fun value => next value turns) last where
  soon := by
    obtain ⟨bound, ran⟩ := first.soon
    obtain ⟨later, reaches⟩ := second.soon
    refine ⟨max bound later, fun turns enough => ?_⟩
    rw [ran turns (by omega)]
    exact reaches turns (by omega)
  only turns := by
    rcases first.only turns with same | stopped
    · rw [same]
      exact second.only turns
    · rw [stopped]
      exact .inr rfl

theorem Settles.bind_error {next : Value → Nat → Except Error Result} {error : Error}
    (first : Settles unfinished run (.error error)) :
    Settles unfinished (fun turns => run turns >>= fun value => next value turns)
      (.error error) where
  soon := by
    obtain ⟨bound, ran⟩ := first.soon
    refine ⟨bound, fun turns enough => ?_⟩
    rw [ran turns enough]
    rfl
  only turns := by
    rcases first.only turns with same | stopped
    · rw [same]
      exact .inl rfl
    · rw [stopped]
      exact .inr rfl

end Turns
