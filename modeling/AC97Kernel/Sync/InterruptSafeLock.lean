/-
The `InterruptSafeLock` of kernel/atomic.h, on any number of cores.

A core takes one atomic step at a time.  The setting of the interrupt flag is saved
in the lock, which any core may overwrite that gets it.  `held` is no field of the
source: it lists the locks that a core holds, the latest first, each with the setting
that the flag had when `lock` was called.
-/

import AC97Kernel.Library.StepMachine
import Mathlib.Logic.Function.Basic
import Mathlib.Data.List.Basic

set_option autoImplicit false

namespace AC97Kernel.Sync

open Function

/-- `Interrupts::restore`, on the setting of the flag. -/
def restore (disabled wasDisabled : Bool) : Bool := if wasDisabled then disabled else false

/-- Where a core is in `lock` or `unlock`: in front of the step of that name.  `before`
is the setting at the call of `lock`. -/
inductive LockPoint (Lock : Type) where
  | idle
  | disable (lock : Lock) (before : Bool)
  | exchange (lock : Lock) (before wasDisabled : Bool)
  | storeWas (lock : Lock) (before wasDisabled : Bool)
  | retry (lock : Lock) (before wasDisabled : Bool)
  | readWas (lock : Lock)
  | clear (lock : Lock) (wasDisabled : Bool)
  | restore (before wasDisabled : Bool)

structure CoreState (Lock : Type) where
  disabled : Bool
  point : LockPoint Lock
  held : List (Lock × Bool)

/-- The fields of all locks, and the cores. -/
structure LockSystem (Core Lock : Type) where
  taken : Lock → Bool
  was : Lock → Bool
  cores : Core → CoreState Lock

inductive LockAction (Lock : Type) where
  | lock (lock : Lock)
  | unlock
  | step

/-- The fields of the locks with one core. -/
structure LockTurn (Lock : Type) where
  taken : Lock → Bool
  was : Lock → Bool
  core : CoreState Lock

namespace LockTurn

variable {Lock : Type} [DecidableEq Lock]

/-- One atomic step of a core. -/
def step (turn : LockTurn Lock) : Option (LockTurn Lock) :=
  match turn.core.point with
  | .idle => none
  | .disable lock before =>
      some
        { turn with
          core :=
            { turn.core with
              disabled := true
              point := .exchange lock before turn.core.disabled } }
  | .exchange lock before wasDisabled =>
      some
        { turn with
          taken := update turn.taken lock true
          core :=
            { turn.core with
              point :=
                if turn.taken lock then .retry lock before wasDisabled
                else .storeWas lock before wasDisabled } }
  | .storeWas lock before wasDisabled =>
      some
        { turn with
          was := update turn.was lock wasDisabled
          core := { turn.core with point := .idle, held := (lock, before) :: turn.core.held } }
  | .retry lock before wasDisabled =>
      some
        { turn with
          core :=
            { turn.core with
              disabled := Sync.restore turn.core.disabled wasDisabled
              point := .disable lock before } }
  | .readWas lock =>
      some { turn with core := { turn.core with point := .clear lock (turn.was lock) } }
  | .clear lock wasDisabled =>
      match turn.core.held with
      | [] => none
      | (_, before) :: held =>
          some
            { turn with
              taken := update turn.taken lock false
              core := { turn.core with point := .restore before wasDisabled, held := held } }
  | .restore _ wasDisabled =>
      some
        { turn with
          core :=
            { turn.core with
              disabled := Sync.restore turn.core.disabled wasDisabled
              point := .idle } }

/-- A core that is in neither function calls one of them, or goes on in it. -/
def act (turn : LockTurn Lock) : LockAction Lock → Option (LockTurn Lock)
  | .lock lock =>
      match turn.core.point with
      | .idle =>
          some
            { turn with
              core := { turn.core with point := .disable lock turn.core.disabled } }
      | _ => none
  | .unlock =>
      match turn.core.point, turn.core.held with
      | .idle, (lock, _) :: _ =>
          some { turn with core := { turn.core with point := .readWas lock } }
      | _, _ => none
  | .step => turn.step

end LockTurn

variable {Core Lock : Type} [DecidableEq Core] [DecidableEq Lock]

def LockSystem.turn (system : LockSystem Core Lock) (core : Core) : LockTurn Lock :=
  { taken := system.taken, was := system.was, core := system.cores core }

def LockSystem.put (system : LockSystem Core Lock) (core : Core) (turn : LockTurn Lock) :
    LockSystem Core Lock :=
  { taken := turn.taken, was := turn.was, cores := update system.cores core turn.core }

/-- Properly nested calls: a core locks no lock that it holds, and unlocks the one that it
has locked last. -/
def locks (Core Lock : Type) [DecidableEq Core] [DecidableEq Lock] :
    StepMachine (LockSystem Core Lock) (Core × LockAction Lock) where
  allowed system action :=
    match action.2 with
    | .lock lock => lock ∉ (system.cores action.1).held.map Prod.fst
    | _ => True
  step system action := ((system.turn action.1).act action.2).map (system.put action.1)

/-- No lock is taken, no core is in a call; the flags may be as they like. -/
def LockSystem.start (was : Lock → Bool) (disabled : Core → Bool) : LockSystem Core Lock :=
  { taken := fun _ => false
    was := was
    cores := fun core => { disabled := disabled core, point := .idle, held := [] } }

/-- The core has come back from `lock` and not yet cleared `taken` in `unlock`. -/
def CoreState.Holds (core : CoreState Lock) (lock : Lock) : Prop := lock ∈ core.held.map Prod.fst

/-! ### The invariant -/

/-- Inside a lock the flag is off when another one is asked for. -/
def Nested : List (Lock × Bool) → Prop
  | [] => True
  | entry :: held => (held ≠ [] → entry.2 = true) ∧ Nested held

/-- What a core knows of the flag at each point. -/
def LockPoint.Fits (held : List (Lock × Bool)) (disabled : Bool) : LockPoint Lock → Prop
  | .idle => held ≠ [] → disabled = true
  | .disable lock before =>
      disabled = before ∧ lock ∉ held.map Prod.fst ∧ (held ≠ [] → before = true)
  | .exchange lock before wasDisabled | .storeWas lock before wasDisabled
  | .retry lock before wasDisabled =>
      disabled = true ∧ wasDisabled = before ∧ lock ∉ held.map Prod.fst ∧
        (held ≠ [] → before = true)
  | .readWas lock => disabled = true ∧ ∃ before rest, held = (lock, before) :: rest
  | .clear lock wasDisabled => disabled = true ∧ ∃ rest, held = (lock, wasDisabled) :: rest
  | .restore before wasDisabled =>
      disabled = true ∧ wasDisabled = before ∧ (held ≠ [] → before = true)

/-- Every lock that the core holds keeps the setting from before. -/
structure CoreState.Fine (was : Lock → Bool) (core : CoreState Lock) : Prop where
  saved : ∀ entry ∈ core.held, was entry.1 = entry.2
  nested : Nested core.held
  distinct : (core.held.map Prod.fst).Nodup
  point : core.point.Fits core.held core.disabled

/-- The core has found `taken` false in its exchange, and not yet cleared it. -/
def CoreState.Owns (core : CoreState Lock) (lock : Lock) : Prop :=
  core.Holds lock ∨ ∃ before wasDisabled, core.point = .storeWas lock before wasDisabled

structure LockSystem.Invariant (system : LockSystem Core Lock) : Prop where
  fine : ∀ core, (system.cores core).Fine system.was
  taken : ∀ core lock, (system.cores core).Owns lock → system.taken lock = true
  alone : ∀ first second lock, (system.cores first).Owns lock →
    (system.cores second).Owns lock → first = second

/-! ### One step -/

variable {system : LockSystem Core Lock} {core : Core} {turn : LockTurn Lock}
  {was other : Lock → Bool} {state : CoreState Lock}

omit [DecidableEq Lock] in
theorem CoreState.Fine.congr (fine : state.Fine was)
    (same : ∀ lock, state.Holds lock → other lock = was lock) : state.Fine other := by
  refine ⟨fun entry member => ?_, fine.nested, fine.distinct, fine.point⟩
  rw [same entry.1 (List.mem_map_of_mem member)]
  exact fine.saved entry member

omit [DecidableEq Lock] in
theorem LockSystem.Invariant.put (invariant : system.Invariant) (fine : turn.core.Fine turn.was)
    (others : ∀ another, another ≠ core → (system.cores another).Fine turn.was)
    (taken : ∀ lock, turn.core.Owns lock → turn.taken lock = true)
    (keeps : ∀ another, another ≠ core → ∀ lock, (system.cores another).Owns lock →
      turn.taken lock = true)
    (alone : ∀ another, another ≠ core → ∀ lock, turn.core.Owns lock →
      ¬ (system.cores another).Owns lock) : (system.put core turn).Invariant := by
  have here : (system.put core turn).cores core = turn.core := update_self _ _ _
  have there (another : Core) (different : another ≠ core) :
      (system.put core turn).cores another = system.cores another := update_of_ne different _ _
  constructor
  · intro another
    by_cases same : another = core
    · rw [same, here]
      exact fine
    · rw [there another same]
      exact others another same
  · intro another lock owns
    by_cases same : another = core
    · rw [same, here] at owns
      exact taken lock owns
    · rw [there another same] at owns
      exact keeps another same lock owns
  · intro first second lock ownsFirst ownsSecond
    by_cases isFirst : first = core
    · by_cases isSecond : second = core
      · rw [isFirst, isSecond]
      · rw [isFirst, here] at ownsFirst
        rw [there second isSecond] at ownsSecond
        exact absurd ownsSecond (alone second isSecond lock ownsFirst)
    · rw [there first isFirst] at ownsFirst
      by_cases isSecond : second = core
      · rw [isSecond, here] at ownsSecond
        exact absurd ownsFirst (alone first isFirst lock ownsSecond)
      · rw [there second isSecond] at ownsSecond
        exact invariant.alone first second lock ownsFirst ownsSecond

omit [DecidableEq Lock] in
/-- A step that changes nothing but its core, which comes to own no lock by it. -/
theorem LockSystem.Invariant.stays (invariant : system.Invariant) {next : CoreState Lock}
    (fine : next.Fine system.was)
    (owns : ∀ lock, next.Owns lock → (system.cores core).Owns lock) :
    (system.put core { system.turn core with core := next }).Invariant := by
  apply invariant.put fine
  · intro another _
    exact invariant.fine another
  · intro lock now
    exact invariant.taken core lock (owns lock now)
  · intro another _ lock ownsOther
    exact invariant.taken another lock ownsOther
  · intro another different lock now ownsOther
    exact different (invariant.alone another core lock ownsOther (owns lock now))

omit [DecidableEq Lock] in
/-- A core that is at another point, with the same locks. -/
theorem LockSystem.Invariant.moves (invariant : system.Invariant) {point : LockPoint Lock}
    {disabled : Bool} (fits : point.Fits (system.cores core).held disabled)
    (notStore : ∀ lock before wasDisabled, point ≠ .storeWas lock before wasDisabled) :
    (system.put core
      { system.turn core with
        core := { system.cores core with disabled := disabled, point := point } }).Invariant := by
  have fine := invariant.fine core
  have kept : CoreState.Fine system.was
      { system.cores core with disabled := disabled, point := point } :=
    ⟨fine.saved, fine.nested, fine.distinct, fits⟩
  apply invariant.stays kept
  intro lock owns
  rcases owns with holds | ⟨before, wasDisabled, at_⟩
  · exact .inl holds
  · exact absurd at_ (notStore lock before wasDisabled)

theorem restore_saved (wasDisabled : Bool) : restore true wasDisabled = wasDisabled := by
  cases wasDisabled <;> rfl

/-- The lock is free, and then it is this core's. -/
theorem LockSystem.Invariant.takes (invariant : system.Invariant) {lock : Lock}
    {before wasDisabled : Bool}
    (point : (system.cores core).point = .exchange lock before wasDisabled)
    (free : system.taken lock = false) :
    (system.put core
      { taken := update system.taken lock true
        was := system.was
        core :=
          { system.cores core with point := .storeWas lock before wasDisabled } }).Invariant := by
  have fine := invariant.fine core
  have fits := fine.point
  rw [point] at fits
  have keeps (other : Core) (wanted : Lock) (owns : (system.cores other).Owns wanted) :
      update system.taken lock true wanted = true := by
    by_cases same : wanted = lock
    · rw [same, update_self]
    · rw [update_of_ne same]
      exact invariant.taken other wanted owns
  have owned (wanted : Lock) (owns : CoreState.Owns
      { system.cores core with point := .storeWas lock before wasDisabled } wanted) :
      wanted = lock ∨ (system.cores core).Owns wanted := by
    rcases owns with holds | ⟨_, _, at_⟩
    · exact .inr (.inl holds)
    · cases at_
      exact .inl rfl
  apply invariant.put
  · exact ⟨fine.saved, fine.nested, fine.distinct, fits⟩
  · intro another _
    exact invariant.fine another
  · intro wanted owns
    rcases owned wanted owns with same | owns
    · exact same ▸ update_self _ _ _
    · exact keeps core wanted owns
  · intro another _ wanted owns
    exact keeps another wanted owns
  · intro another different wanted owns ownsOther
    rcases owned wanted owns with same | owns
    · have taken := invariant.taken another wanted ownsOther
      rw [same, free] at taken
      cases taken
    · exact different (invariant.alone another core wanted ownsOther owns)

/-- The setting is saved in the lock, of which no other core has one. -/
theorem LockSystem.Invariant.stores (invariant : system.Invariant) {lock : Lock}
    {before wasDisabled : Bool}
    (point : (system.cores core).point = .storeWas lock before wasDisabled) :
    (system.put core
      { taken := system.taken
        was := update system.was lock wasDisabled
        core :=
          { system.cores core with
            point := .idle, held := (lock, before) :: (system.cores core).held } }).Invariant := by
  have fine := invariant.fine core
  have fits := fine.point
  rw [point] at fits
  obtain ⟨disabled, saved, apart, deeper⟩ := fits
  have owns : (system.cores core).Owns lock := .inr ⟨before, wasDisabled, point⟩
  have kept (wanted : Lock) (different : wanted ≠ lock) :
      update system.was lock wasDisabled wanted = system.was wanted := update_of_ne different _ _
  have owned (wanted : Lock) (now : CoreState.Owns
      { system.cores core with
        point := .idle, held := (lock, before) :: (system.cores core).held } wanted) :
      (system.cores core).Owns wanted := by
    rcases now with holds | ⟨_, _, impossible⟩
    · rcases List.mem_cons.1 holds with same | earlier
      · rw [same]
        exact owns
      · exact .inl earlier
    · cases impossible
  apply invariant.put
  · refine ⟨?_, ⟨deeper, fine.nested⟩, List.nodup_cons.2 ⟨apart, fine.distinct⟩,
      fun _ => disabled⟩
    intro entry member
    rcases List.mem_cons.1 member with first | earlier
    · rw [first]
      exact (update_self _ _ _).trans saved
    · have different : entry.1 ≠ lock := by
        intro same
        exact apart (same ▸ List.mem_map_of_mem earlier)
      exact (kept entry.1 different).trans (fine.saved entry earlier)
  · intro another different
    apply (invariant.fine another).congr
    intro wanted holds
    apply kept
    intro same
    exact different (invariant.alone another core lock (.inl (same ▸ holds)) owns)
  · intro wanted now
    exact invariant.taken core wanted (owned wanted now)
  · intro another _ wanted ownsOther
    exact invariant.taken another wanted ownsOther
  · intro another different wanted now ownsOther
    exact different (invariant.alone another core wanted ownsOther (owned wanted now))

/-- The lock is given back; nobody else owns it, and the core does not own it twice. -/
theorem LockSystem.Invariant.clears (invariant : system.Invariant) {lock held : Lock}
    {before wasDisabled : Bool} {rest : List (Lock × Bool)}
    (point : (system.cores core).point = .clear lock wasDisabled)
    (list : (system.cores core).held = (held, before) :: rest) :
    (system.put core
      { taken := update system.taken lock false
        was := system.was
        core :=
          { system.cores core with
            point := .restore before wasDisabled, held := rest } }).Invariant := by
  have fine := invariant.fine core
  have fits := fine.point
  have nested := fine.nested
  have distinct := fine.distinct
  have saved := fine.saved
  rw [point] at fits
  rw [list] at fits nested distinct saved
  obtain ⟨disabled, other, same⟩ := fits
  cases same
  rw [List.map_cons, List.nodup_cons] at distinct
  have owns : (system.cores core).Owns lock := by
    refine .inl ?_
    rw [CoreState.Holds, list]
    exact List.mem_cons_self
  have owned (wanted : Lock) (now : CoreState.Owns
      { system.cores core with point := .restore before before, held := rest } wanted) :
      wanted ≠ lock ∧ (system.cores core).Owns wanted := by
    rcases now with holds | ⟨_, _, impossible⟩
    · refine ⟨fun same => distinct.1 (same ▸ holds), .inl ?_⟩
      rw [CoreState.Holds, list]
      exact List.mem_cons_of_mem _ holds
    · cases impossible
  have keeps (other : Core) (wanted : Lock) (different : wanted ≠ lock)
      (ownsOther : (system.cores other).Owns wanted) :
      update system.taken lock false wanted = true := by
    rw [update_of_ne different]
    exact invariant.taken other wanted ownsOther
  apply invariant.put
  · exact ⟨fun entry member => saved entry (List.mem_cons_of_mem _ member), nested.2, distinct.2,
      disabled, rfl, nested.1⟩
  · intro another _
    exact invariant.fine another
  · intro wanted now
    obtain ⟨different, before'⟩ := owned wanted now
    exact keeps core wanted different before'
  · intro another different wanted ownsOther
    apply keeps another wanted _ ownsOther
    intro same
    exact different (invariant.alone another core lock (same ▸ ownsOther) owns)
  · intro another different wanted now ownsOther
    exact different (invariant.alone another core wanted ownsOther (owned wanted now).2)

/-- Every atomic step keeps the invariant. -/
theorem LockSystem.Invariant.step (invariant : system.Invariant)
    (stepped : (system.turn core).step = some turn) : (system.put core turn).Invariant := by
  have fits := (invariant.fine core).point
  unfold LockTurn.step LockSystem.turn at stepped
  simp only at stepped
  cases point : (system.cores core).point with
  | idle =>
      rw [point] at stepped
      cases stepped
  | disable lock before =>
      rw [point] at stepped fits
      cases stepped
      obtain ⟨same, apart, deeper⟩ := fits
      exact invariant.moves ⟨rfl, same, apart, deeper⟩ (by intro _ _ _ impossible; cases impossible)
  | exchange lock before wasDisabled =>
      rw [point] at stepped fits
      cases taken : system.taken lock with
      | false =>
          simp only [taken, Bool.false_eq_true, if_false] at stepped
          cases stepped
          exact invariant.takes point taken
      | true =>
          have same : update system.taken lock true = system.taken := by
            rw [← taken, update_eq_self]
          simp only [taken, if_true, same] at stepped
          cases stepped
          exact invariant.moves fits (by intro _ _ _ impossible; cases impossible)
  | storeWas lock before wasDisabled =>
      rw [point] at stepped
      cases stepped
      exact invariant.stores point
  | retry lock before wasDisabled =>
      rw [point] at stepped fits
      cases stepped
      obtain ⟨disabled, same, apart, deeper⟩ := fits
      refine invariant.moves ⟨?_, apart, deeper⟩ (by intro _ _ _ impossible; cases impossible)
      rw [disabled, restore_saved, same]
  | readWas lock =>
      rw [point] at stepped fits
      cases stepped
      obtain ⟨disabled, before, rest, list⟩ := fits
      refine invariant.moves ⟨disabled, rest, ?_⟩ (by intro _ _ _ impossible; cases impossible)
      have entry : (lock, before) ∈ (system.cores core).held := by
        rw [list]
        exact List.mem_cons_self
      rw [list, (invariant.fine core).saved _ entry]
  | clear lock wasDisabled =>
      rw [point] at stepped
      cases list : (system.cores core).held with
      | nil =>
          rw [list] at stepped
          cases stepped
      | cons entry rest =>
          rw [list] at stepped
          cases stepped
          exact invariant.clears point list
  | restore before wasDisabled =>
      rw [point] at stepped fits
      cases stepped
      obtain ⟨disabled, same, deeper⟩ := fits
      refine invariant.moves ?_ (by intro _ _ _ impossible; cases impossible)
      intro inside
      rw [disabled, restore_saved, same]
      exact deeper inside

/-- So does every call. -/
theorem LockSystem.Invariant.act (invariant : system.Invariant) {action : LockAction Lock}
    (permitted : (locks Core Lock).allowed system (core, action))
    (acted : (system.turn core).act action = some turn) : (system.put core turn).Invariant := by
  have fits := (invariant.fine core).point
  cases action with
  | lock lock =>
      unfold LockTurn.act LockSystem.turn at acted
      simp only at acted
      split at acted
      · rename_i point
        rw [point] at fits
        cases acted
        exact invariant.moves ⟨rfl, permitted, fits⟩
          (by intro _ _ _ impossible; cases impossible)
      · cases acted
  | unlock =>
      unfold LockTurn.act LockSystem.turn at acted
      simp only at acted
      split at acted
      · rename_i lock before rest point list
        rw [point] at fits
        cases acted
        have some : (system.cores core).held ≠ [] := by
          rw [list]
          exact List.cons_ne_nil _ _
        exact invariant.moves ⟨fits some, before, rest, list⟩
          (by intro _ _ _ impossible; cases impossible)
      · cases acted
  | step => exact invariant.step acted

omit [DecidableEq Core] [DecidableEq Lock] in
theorem LockSystem.start_invariant (was : Lock → Bool) (disabled : Core → Bool) :
    (LockSystem.start was disabled).Invariant := by
  have nothing (core : Core) (lock : Lock) :
      ¬ ((LockSystem.start was disabled).cores core).Owns lock := by
    intro owns
    rcases owns with holds | ⟨_, _, impossible⟩
    · cases holds
    · cases impossible
  constructor
  · intro core
    refine ⟨?_, trivial, List.nodup_nil, fun impossible => absurd rfl impossible⟩
    intro entry impossible
    cases impossible
  · intro core lock owns
    exact absurd owns (nothing core lock)
  · intro first second lock owns
    exact absurd owns (nothing first lock)

theorem reached_invariant {disabled : Core → Bool}
    (reached : (locks Core Lock).Reached (.start was disabled) system) : system.Invariant := by
  apply reached.preserves LockSystem.Invariant
  · intro state action next invariant permitted stepped
    obtain ⟨turn, acted, same⟩ := Option.map_eq_some_iff.1 stepped
    rw [← same]
    exact invariant.act permitted acted
  · exact LockSystem.start_invariant was disabled

omit [DecidableEq Lock] in
/-- A core that holds a lock has its interrupts off. -/
theorem LockPoint.Fits.disabled {point : LockPoint Lock} {held : List (Lock × Bool)}
    {disabled : Bool} (fits : point.Fits held disabled) (some : held ≠ []) : disabled = true := by
  cases point with
  | idle => exact fits some
  | disable lock before => exact fits.1.trans (fits.2.2 some)
  | exchange lock before wasDisabled => exact fits.1
  | storeWas lock before wasDisabled => exact fits.1
  | retry lock before wasDisabled => exact fits.1
  | readWas lock => exact fits.1
  | clear lock wasDisabled => exact fits.1
  | restore before wasDisabled => exact fits.1

end AC97Kernel.Sync
