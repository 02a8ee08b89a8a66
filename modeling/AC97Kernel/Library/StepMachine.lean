/-
Machines that take one action at a time and may stop.

A step returns nothing when the machine stops for good: it panics, or it never
comes back.  `allowed` is the promise made by whoever chooses the actions.  The
two run rules below turn facts about one step into facts about every lawful
sequence of actions.
-/

import Mathlib.Logic.Basic

set_option autoImplicit false

structure StepMachine (State Action : Type) where
  allowed : State → Action → Prop
  step : State → Action → Option State

namespace StepMachine

variable {State Action : Type}

def run (machine : StepMachine State Action) : State → List Action → Option State
  | state, [] => some state
  | state, action :: rest =>
      (machine.step state action).bind (fun next => run machine next rest)

/-- Every action is allowed in the state it is taken in. -/
def Lawful (machine : StepMachine State Action) : State → List Action → Prop
  | _, [] => True
  | state, action :: rest =>
      machine.allowed state action ∧
        ∀ next ∈ machine.step state action, Lawful machine next rest

instance instDecidableLawful (machine : StepMachine State Action)
    [decideAllowed : ∀ state action, Decidable (machine.allowed state action)]
    (state : State) (actions : List Action) : Decidable (machine.Lawful state actions) :=
  match actions with
  | [] => isTrue trivial
  | action :: rest =>
      have (next : State) : Decidable (machine.Lawful next rest) :=
        instDecidableLawful machine next rest
      inferInstanceAs (Decidable (machine.allowed state action ∧
        ∀ next ∈ machine.step state action, machine.Lawful next rest))

/-- `state` is where some lawful sequence of actions from `start` ends. -/
def Reached (machine : StepMachine State Action) (start state : State) : Prop :=
  ∃ actions, machine.Lawful start actions ∧ machine.run start actions = some state

variable {machine : StepMachine State Action}

theorem run_cons_some {start final : State} {action : Action} {rest : List Action}
    (ran : machine.run start (action :: rest) = some final) :
    ∃ next, machine.step start action = some next ∧ machine.run next rest = some final :=
  Option.bind_eq_some_iff.mp ran

/-- Partial correctness: what every allowed step preserves holds wherever a
lawful run ends. -/
theorem run_preserves (holds : State → Prop)
    (preserved : ∀ state action next, holds state → machine.allowed state action →
      machine.step state action = some next → holds next)
    (actions : List Action) (start final : State) (initially : holds start)
    (lawful : machine.Lawful start actions) (ran : machine.run start actions = some final) :
    holds final := by
  induction actions generalizing start with
  | nil =>
      cases ran
      exact initially
  | cons action rest ih =>
      obtain ⟨next, stepped, remaining⟩ := run_cons_some ran
      exact ih next (preserved start action next initially lawful.1 stepped)
        (lawful.2 next stepped) remaining

/-- Total correctness: when every allowed step succeeds and preserves `holds`,
no lawful run stops early. -/
theorem run_succeeds (holds : State → Prop)
    (succeeds : ∀ state action, holds state → machine.allowed state action →
      ∃ next, machine.step state action = some next ∧ holds next)
    (actions : List Action) (start : State) (initially : holds start)
    (lawful : machine.Lawful start actions) :
    ∃ final, machine.run start actions = some final ∧ holds final := by
  induction actions generalizing start with
  | nil => exact ⟨start, rfl, initially⟩
  | cons action rest ih =>
      obtain ⟨next, stepped, held⟩ := succeeds start action initially lawful.1
      obtain ⟨final, ran, finally'⟩ := ih next held (lawful.2 next stepped)
      refine ⟨final, ?_, finally'⟩
      rw [run, stepped]
      exact ran

theorem Reached.preserves {start state : State} (reached : machine.Reached start state)
    (holds : State → Prop)
    (preserved : ∀ state action next, holds state → machine.allowed state action →
      machine.step state action = some next → holds next)
    (initially : holds start) : holds state := by
  obtain ⟨actions, lawful, ran⟩ := reached
  exact run_preserves holds preserved actions start state initially lawful ran

theorem Reached.refl (machine : StepMachine State Action) (start : State) :
    machine.Reached start start :=
  ⟨[], trivial, rfl⟩

theorem Reached.cons {start next state : State} {action : Action}
    (permitted : machine.allowed start action)
    (stepped : machine.step start action = some next)
    (reached : machine.Reached next state) : machine.Reached start state := by
  obtain ⟨actions, lawful, ran⟩ := reached
  refine ⟨action :: actions, ⟨permitted, ?_⟩, ?_⟩
  · intro other same
    rw [Option.mem_def, stepped] at same
    cases same
    exact lawful
  · rw [run, stepped]
    exact ran

theorem Reached.trans {start middle final : State} (first : machine.Reached start middle)
    (second : machine.Reached middle final) : machine.Reached start final := by
  obtain ⟨actions, lawful, ran⟩ := first
  induction actions generalizing start with
  | nil =>
      cases ran
      exact second
  | cons action rest ih =>
      obtain ⟨next, stepped, remaining⟩ := run_cons_some ran
      exact .cons lawful.1 stepped (ih (lawful.2 next stepped) remaining)

end StepMachine
