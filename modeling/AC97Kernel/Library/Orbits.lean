/-
Runs of a partial function.

From a state the function leads to the next one or to none.  A run ends when it
gets to a state that none follows.  Among finitely many states it ends unless it
comes back to a state that it has been in.
-/

import Mathlib.Data.Fintype.Card
import Mathlib.Data.Set.Finite.Basic
import Mathlib.Logic.Relation

set_option autoImplicit false

namespace Orbits

open Relation

variable {State : Type} {next : State → Option State} {state later : State}

def Steps (next : State → Option State) (first second : State) : Prop := next first = some second

/-- The run from a state ends. -/
def Ends (next : State → Option State) (state : State) : Prop :=
  Acc (fun later earlier => Steps next earlier later) state

/-- The run from a state gets to one that it comes back to. -/
def Circles (next : State → Option State) (state : State) : Prop :=
  ∃ turn, ReflTransGen (Steps next) state turn ∧ TransGen (Steps next) turn turn

theorem Ends.stop (none_ : next state = none) : Ends next state := by
  constructor
  intro other steps
  rw [Steps, none_] at steps
  cases steps

theorem Ends.turn (steps : next state = some later) (rest : Ends next later) :
    Ends next state := by
  constructor
  intro other stepsOther
  rw [Steps, steps] at stepsOther
  cases stepsOther
  exact rest

theorem Ends.reached (ends : Ends next state) (reached : ReflTransGen (Steps next) state later) :
    Ends next later := by
  induction reached with
  | refl => exact ends
  | tail _ steps ih => exact Acc.inv ih steps

/-- A run that ends does not come back. -/
theorem Ends.not_circles (ends : Ends next state) : ¬ Circles next state := by
  rintro ⟨turn, reached, circle⟩
  have endsThere := ends.reached reached
  have back : Acc (TransGen fun later earlier => Steps next earlier later) turn :=
    Acc.transGen endsThere
  have swapped : TransGen (fun later earlier => Steps next earlier later) turn turn :=
    transGen_swap.2 circle
  clear circle reached endsThere
  induction back with
  | intro turn _ ih => exact ih turn swapped swapped

/-- Among finitely many states a run that does not come back ends. -/
theorem ends_of_finite (finite : {other | ReflTransGen (Steps next) state other}.Finite)
    (straight : ¬ Circles next state) : Ends next state := by
  let Reached := {other // ReflTransGen (Steps next) state other}
  let behind (second first : Reached) : Prop := TransGen (Steps next) first.1 second.1
  have few : Finite Reached := finite.to_subtype
  have transitive : IsTrans Reached behind :=
    ⟨fun _ _ _ second first => first.trans second⟩
  have irreflexive : Std.Irrefl behind :=
    ⟨fun turn circle => straight ⟨turn.1, turn.2, circle⟩⟩
  have wellFounded := Finite.wellFounded_of_trans_of_irrefl behind
  have ends (reached : Reached) : Ends next reached.1 := by
    induction reached using wellFounded.induction with
    | _ reached ih =>
        constructor
        intro other steps
        exact ih ⟨other, reached.2.tail steps⟩ (.single steps)
  exact ends ⟨state, .refl⟩

theorem ends_iff_straight (finite : {other | ReflTransGen (Steps next) state other}.Finite) :
    Ends next state ↔ ¬ Circles next state := by
  constructor
  · intro ends
    exact ends.not_circles
  · intro straight
    exact ends_of_finite finite straight

/-- States that a bounded number stands for are finitely many. -/
theorem reached_finite {next : Nat → Option Nat} {state bound : Nat} (first : state < bound)
    (small : ∀ earlier later, next earlier = some later → later < bound) :
    {other | ReflTransGen (Steps next) state other}.Finite := by
  apply (Set.finite_lt_nat bound).subset
  intro other reached
  change ReflTransGen (Steps next) state other at reached
  cases reached with
  | refl => exact first
  | tail _ steps => exact small _ _ steps

theorem reached_ge {next : Nat → Option Nat} {state later : Nat}
    (grows : ∀ earlier later, next earlier = some later → earlier ≤ later)
    (reached : ReflTransGen (Steps next) state later) : state ≤ later := by
  induction reached with
  | refl => exact Nat.le_refl state
  | tail _ steps ih => exact Nat.le_trans ih (grows _ _ steps)

/-- Where no step leads back, the only way to come back is to stay. -/
theorem circles_iff_stays {next : Nat → Option Nat} {state : Nat}
    (grows : ∀ earlier later, next earlier = some later → earlier ≤ later) :
    Circles next state ↔ ∃ turn, ReflTransGen (Steps next) state turn ∧ next turn = some turn := by
  constructor
  · rintro ⟨turn, reached, circle⟩
    obtain ⟨second, steps, back⟩ := TransGen.head'_iff.1 circle
    have same : second = turn := Nat.le_antisymm (reached_ge grows back) (grows _ _ steps)
    rw [same] at steps
    exact ⟨turn, reached, steps⟩
  · rintro ⟨turn, reached, stays⟩
    exact ⟨turn, reached, .single stays⟩

/-! ### Loops that are given a number of turns -/

section Turns

variable {Error Value : Type} {unfinished : Error} {run : Nat → State → Except Error Value}

/-- The run takes one turn for every state. -/
structure Spends (next : State → Option State) (unfinished : Error)
    (run : Nat → State → Except Error Value) : Prop where
  none : ∀ state, run 0 state = .error unfinished
  last : ∀ turns state, next state = .none → run (turns + 1) state ≠ .error unfinished
  goesOn : ∀ turns state later, next state = some later →
    (run (turns + 1) state = .error unfinished ↔ run turns later = .error unfinished)

/-- Some number of turns is enough exactly when the run ends. -/
theorem Spends.ends_iff (spends : Spends next unfinished run) :
    (∃ turns, run turns state ≠ .error unfinished) ↔ Ends next state := by
  constructor
  · rintro ⟨turns, finished⟩
    induction turns generalizing state with
    | zero => exact absurd (spends.none state) finished
    | succ turns ih =>
        cases steps : next state with
        | none => exact .stop steps
        | some later =>
            rw [ne_eq, spends.goesOn turns state later steps] at finished
            exact .turn steps (ih finished)
  · intro ends
    induction ends with
    | intro state _ ih =>
        cases steps : next state with
        | none => exact ⟨1, spends.last 0 state steps⟩
        | some later =>
            obtain ⟨turns, finished⟩ := ih later steps
            refine ⟨turns + 1, ?_⟩
            rw [ne_eq, spends.goesOn turns state later steps]
            exact finished

end Turns

end Orbits
