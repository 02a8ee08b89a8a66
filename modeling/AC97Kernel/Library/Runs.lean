/-
Programs with a state that may stop.

A run that has stopped comes back with nothing.  `Triple` is partial correctness: it
speaks of the runs that come back.  `Keeps` is the case where one condition holds
before and after, whatever the value; `Computes` is about the value alone.
-/

import AC97Kernel.Library.Loops

set_option autoImplicit false

open Loops

abbrev Run (State Value : Type) := StateT State Option Value

namespace Run

variable {State Value Next Error : Type}

def stop : Run State Value := fun _ => none

/-- The value, where there is one. -/
def ofOption : Option Value → Run State Value
  | some value => pure value
  | none => stop

def ofExcept : Except Error Value → Run State Value
  | .ok value => pure value
  | .error _ => stop

/-- A loop over a local variable. -/
def loop (guard : Value → Bool) (body : Value → Run State Value) (turns : Nat) (first : Value) :
    Run State Value :=
  fun state => whileLoop (fun pair => guard pair.1) (fun pair => (body pair.1).run pair.2) turns
    (first, state)

/-- A loop that counts from 0. -/
def times (body : Nat → Value → Run State Value) (count : Nat) (first : Value) :
    Run State Value :=
  fun state => forRange (fun index pair => (body index pair.1).run pair.2) 0 count (first, state)

def Triple (pre : State → Prop) (run : Run State Value) (post : Value → State → Prop) : Prop :=
  ∀ state value after, pre state → run.run state = some (value, after) → post value after

def Keeps (holds : State → Prop) (run : Run State Value) : Prop :=
  Triple holds run fun _ => holds

variable {pre holds : State → Prop} {run : Run State Value} {post : Value → State → Prop}

theorem Triple.pure {value : Value} (ends : ∀ state, pre state → post value state) :
    Triple pre (pure value) post := by
  intro state result after starts ran
  cases ran
  exact ends state starts

theorem Triple.bind {next : Value → Run State Next} {last : Next → State → Prop}
    (first : Triple pre run post) (rest : ∀ value, Triple (post value) (next value) last) :
    Triple pre (run >>= next) last := by
  intro state result after starts ran
  rw [StateT.run_bind] at ran
  obtain ⟨⟨value, middle⟩, came, goesOn⟩ := Option.bind_eq_some_iff.mp ran
  exact rest value middle result after (first state value middle starts came) goesOn

theorem Triple.stop : Triple pre (stop : Run State Value) post := by
  intro state value after starts ran
  cases ran

theorem Triple.mono {weaker : State → Prop} {stronger : Value → State → Prop}
    (triple : Triple pre run stronger) (starts : ∀ state, weaker state → pre state)
    (ends : ∀ value state, stronger value state → post value state) : Triple weaker run post :=
  fun state value after initially ran =>
    ends value after (triple state value after (starts state initially) ran)

/-- What does not depend on the state is known from then on. -/
theorem Triple.known {fact : Prop} (triple : fact → Triple pre run post) :
    Triple (fun state => fact ∧ pre state) run post :=
  fun state value after starts ran => triple starts.1 state value after starts.2 ran

theorem Triple.ofOption {value : Option Value}
    (ends : ∀ result state, value = some result → pre state → post result state) :
    Triple pre (ofOption value) post := by
  cases value with
  | none => exact .stop
  | some result => exact .pure fun state starts => ends result state rfl starts

theorem Triple.ofExcept {value : Except Error Value}
    (ends : ∀ result state, value = .ok result → pre state → post result state) :
    Triple pre (ofExcept value) post := by
  cases value with
  | error _ => exact .stop
  | ok result => exact .pure fun state starts => ends result state rfl starts

theorem Keeps.pure (value : Value) : Keeps holds (pure value : Run State Value) :=
  Triple.pure fun _ => id

theorem Keeps.stop : Keeps holds (stop : Run State Value) := Triple.stop

theorem Keeps.bind {next : Value → Run State Next} (first : Keeps holds run)
    (rest : ∀ value, Keeps holds (next value)) : Keeps holds (run >>= next) :=
  Triple.bind first rest

theorem Keeps.ofOption (value : Option Value) :
    Keeps holds (ofOption value : Run State Value) :=
  Triple.ofOption fun _ _ _ => id

theorem Keeps.ofExcept (value : Except Error Value) :
    Keeps holds (ofExcept value : Run State Value) :=
  Triple.ofExcept fun _ _ _ => id

theorem Keeps.loop {guard : Value → Bool} {body : Value → Run State Value}
    (turn : ∀ value, Keeps holds (body value)) (turns : Nat) (first : Value) :
    Keeps holds (loop guard body turns first) := by
  intro state value after starts ran
  exact whileLoop_preserves (fun pair => holds pair.2)
    (fun before after held stepped => turn before.1 before.2 after.1 after.2 held stepped)
    starts ran

theorem Keeps.times {body : Nat → Value → Run State Value}
    (turn : ∀ index value, Keeps holds (body index value)) (count : Nat) (first : Value) :
    Keeps holds (times body count first) := by
  intro state value after starts ran
  exact forRange_preserves _ 0 count (fun _ pair => holds pair.2)
    (fun index before after _ _ held stepped =>
      turn index before.1 before.2 after.1 after.2 held stepped)
    starts ran

theorem Keeps.forM {Item : Type} {body : Item → Run State Unit}
    (turn : ∀ item, Keeps holds (body item)) (items : List Item) :
    Keeps holds (items.forM body) := by
  induction items with
  | nil => exact Keeps.pure ()
  | cons item items ih => exact Keeps.bind (turn item) fun _ => ih

/-- Whenever the run comes back, it has computed `value`. -/
def Computes (run : Run State Value) (value : Option Value) : Prop :=
  ∀ state result after, run.run state = some (result, after) → value = some result

theorem Computes.pure (value : Value) : Computes (pure value : Run State Value) (some value) := by
  intro state result after ran
  cases ran
  rfl

theorem Computes.ofOption (value : Option Value) :
    Computes (ofOption value : Run State Value) value := by
  cases value with
  | none =>
      intro state result after ran
      cases ran
  | some value => exact .pure value

theorem Computes.bind {value : Option Value} {next : Value → Run State Next}
    {rest : Value → Option Next} (first : Computes run value)
    (second : ∀ value, Computes (next value) (rest value)) :
    Computes (run >>= next) (value.bind rest) := by
  intro state result after ran
  rw [StateT.run_bind] at ran
  obtain ⟨⟨found, middle⟩, came, goesOn⟩ := Option.bind_eq_some_iff.mp ran
  rw [first state found middle came, Option.bind_some]
  exact second found middle result after goesOn

/-- What is run before may change the state, and the value stays. -/
theorem Computes.after {next : Value → Run State Next} {value : Option Next}
    (second : ∀ found, Computes (next found) value) : Computes (run >>= next) value := by
  intro state result after ran
  rw [StateT.run_bind] at ran
  obtain ⟨⟨found, middle⟩, _, goesOn⟩ := Option.bind_eq_some_iff.mp ran
  exact second found middle result after goesOn

/-- And so may what is run behind it. -/
theorem Computes.before {next : Value → Run State Value} {value : Option Value}
    (first : Computes run value) (second : ∀ found, Computes (next found) (some found)) :
    Computes (run >>= next) value := by
  rw [← Option.bind_fun_some value]
  exact first.bind second

theorem Computes.loop {guard : Value → Bool} {body : Value → Run State Value}
    {turn : Value → Option Value} (turns : Nat) (first : Value)
    (each : ∀ value, Computes (body value) (turn value)) :
    Computes (loop guard body turns first) (whileLoop guard turn turns first) := by
  intro state result after ran
  change whileLoop _ _ turns (first, state) = some (result, after) at ran
  induction turns generalizing first state with
  | zero => cases ran
  | succ turns ih =>
      rw [whileLoop] at ran ⊢
      by_cases goesOn : guard first = true
      · rw [if_pos goesOn] at ran ⊢
        obtain ⟨⟨next, middle⟩, stepped, remaining⟩ := Option.bind_eq_some_iff.mp ran
        rw [each first state next middle stepped, Option.bind_some]
        exact ih next middle remaining
      · rw [if_neg goesOn] at ran ⊢
        cases ran
        rfl

end Run
