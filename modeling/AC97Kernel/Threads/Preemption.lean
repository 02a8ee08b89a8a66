/-
The flag that keeps the timer from preempting a thread.

`block` sets it and the context switch clears it.  A `block` that returns because
`readyQ` is empty leaves it set.
-/

import AC97Kernel.Threads.Contract

set_option autoImplicit false

namespace AC97Kernel

/-- The flag of the thread that a core runs, inside `block`. -/
def Phase.Flag : Phase → Nat → Prop
  | .outside, _ => True
  | .entered _ _ _, flag => flag = 1
  | .switching _ _, flag => flag = 1
  | .handling _ _, flag => flag = 0

/-- The thread that comes out of `block` if nobody is ready. -/
def Phase.returner : Phase → Option Nat
  | .entered .canReturn _ me => some me
  | _ => none

namespace Threads

open Function

variable {Core : Type}

/-- The core that takes the step. -/
def Action.core : Action Core → Core
  | .take core => core
  | .contextSwitch core => core
  | .handle core => core
  | .tick core => core
  | .yield core => core
  | .stop core => core
  | .down core _ => core
  | .up core _ => core
  | .schedule core => core
  | .create core _ => core
  | .reap core => core
  | .delete core => core

variable {start threads after : Threads Core}
  {contents : QueueName → List Nat} {action : Action Core} {core : Core}

def flag (threads : Threads Core) (core : Core) : Nat :=
  threads.noPreempt (threads.activeThreads core)

def Flagged (threads : Threads Core) : Prop :=
  ∀ core, (threads.phase core).Flag (threads.flag core)

/-- The core runs a thread, and not the scheduler. -/
def Runs (threads : Threads Core) (core : Core) : Prop :=
  threads.phase core = .outside ∧ threads.isIdle (threads.activeThreads core) = false

/-- A tick preempts every thread outside `block`. -/
def Preemptible (threads : Threads Core) : Prop :=
  ∀ core, threads.Runs core → threads.flag core = 0

structure SameAt (threads after : Threads Core) (core : Core) : Prop where
  phase : after.phase core = threads.phase core
  runs : after.Runs core → threads.Runs core
  flag : after.flag core = threads.flag core

theorem SameAt.refl (threads : Threads Core) (core : Core) : threads.SameAt threads core :=
  ⟨rfl, id, rfl⟩

theorem SameAt.of_fields (phase : after.phase core = threads.phase core)
    (active : after.activeThreads core = threads.activeThreads core)
    (isIdle : after.isIdle (threads.activeThreads core) =
      threads.isIdle (threads.activeThreads core))
    (noPreempt : after.noPreempt (threads.activeThreads core) =
      threads.noPreempt (threads.activeThreads core)) : threads.SameAt after core where
  phase := phase
  runs runs := by
    unfold Runs at runs ⊢
    rw [phase, active, isIdle] at runs
    exact runs
  flag := by
    change after.noPreempt (after.activeThreads core) = _
    rw [active, noPreempt]
    rfl

theorem flag_at {phase : Phase} (is : after.phase core = phase)
    (flag : phase.Flag (after.flag core)) : (after.phase core).Flag (after.flag core) := by
  rw [is]
  exact flag

theorem not_runs {phase : Phase} (is : after.phase core = phase) (inside : phase ≠ .outside) :
    ¬ after.Runs core := by
  rintro ⟨outside, _⟩
  exact inside (is.symm.trans outside)

theorem boot_flagged (boot : start.Boot) : start.Flagged := by
  intro core
  rw [boot.outside]
  trivial

theorem boot_preemptible (boot : start.Boot) : start.Preemptible := by
  rintro core ⟨_, user⟩
  rw [boot.active, boot.idleIs] at user
  cases user

variable [DecidableEq Core]

/-- A step of one core changes nothing for the others. -/
theorem Effect.elsewhere (placed : threads.Placed contents) (effect : Effect threads action after)
    {other : Core} (apart : other ≠ action.core) : threads.SameAt after other := by
  have notMine : threads.activeThreads other ≠ threads.activeThreads action.core :=
    fun same => apart (placed.active_apart same)
  cases effect with
  | spin phase nobody => exact .refl threads other
  | giveUp phase nobody => exact .of_fields (update_of_ne apart _ _) rfl rfl rfl
  | @choose core option handler me nextTcb phase first =>
      have notNext : threads.activeThreads other ≠ nextTcb := fun same =>
        placed.rests_not_active (.queued .ready) trivial (placed.first_mem first) other
          same.symm
      exact .of_fields (update_of_ne apart _ _) (update_of_ne apart _ _) rfl
        (update_of_ne notNext _ _)
  | @idle core handler me phase user nobody =>
      have notIdle : threads.activeThreads other ≠ threads.idleThreads core := by
        intro same
        have isIdle : threads.isIdle (threads.activeThreads other) = true := by
          rw [same]
          exact placed.idleIs core
        exact apart (placed.idleApart other core ((placed.activeIdle other isIdle).symm.trans same))
      exact .of_fields (update_of_ne apart _ _) (update_of_ne apart _ _) rfl
        (update_of_ne notIdle _ _)
  | @switch core handler me phase =>
      have leaver : (threads.phase core).leaver = some me := by
        rw [phase]
        rfl
      have notLeaver : threads.activeThreads other ≠ me :=
        (placed.leaver_not_active leaver other).symm
      refine .of_fields (update_of_ne apart _ _) rfl rfl ?_
      exact (update_of_ne notMine _ _).trans (update_of_ne notLeaver _ _)
  | leave phase isIdle noDown => exact .of_fields (update_of_ne apart _ _) rfl rfl rfl
  | @enqueue core handler me phase user =>
      cases handler with
      | yield => exact .of_fields (update_of_ne apart _ _) rfl rfl rfl
      | stop => exact .of_fields (update_of_ne apart _ _) rfl rfl rfl
      | down sem => exact .of_fields (update_of_ne apart _ _) rfl rfl rfl
  | ignore because => exact .refl threads other
  | preempt outside =>
      exact .of_fields (update_of_ne apart _ _) rfl rfl (update_of_ne notMine _ _)
  | yield outside =>
      exact .of_fields (update_of_ne apart _ _) rfl rfl (update_of_ne notMine _ _)
  | stop outside empty =>
      exact .of_fields (update_of_ne apart _ _) rfl rfl (update_of_ne notMine _ _)
  | pass outside unlocked positive => exact .of_fields rfl rfl rfl rfl
  | block outside unlocked zero =>
      exact .of_fields (update_of_ne apart _ _) rfl rfl (update_of_ne notMine _ _)
  | raise outside unlocked nobody => exact .of_fields rfl rfl rfl rfl
  | wake outside unlocked first => exact .of_fields rfl rfl rfl rfl
  | @schedule core role t rest outside head alive =>
      rw [schedule_held placed head]
      exact .of_fields rfl rfl rfl rfl
  | @create core t outside real fresh =>
      have old : threads.activeThreads other ≠ t := by
        intro same
        cases fresh.symm.trans (same ▸ placed.active_live other)
      exact .of_fields rfl rfl (update_of_ne old _ _) (update_of_ne old _ _)
  | noZombie nobody => exact .refl threads other
  | reap outside first => exact .of_fields rfl rfl rfl rfl
  | delete outside head => exact .of_fields rfl rfl rfl rfl

/-- Inside `block` the flag is set until the context switch. -/
theorem effect_flagged (placed : threads.Placed contents) (effect : Effect threads action after)
    (flagged : threads.Flagged) : after.Flagged := by
  intro other
  by_cases apart : other ≠ action.core
  · have same := effect.elsewhere placed apart
    rw [same.phase, same.flag]
    exact flagged other
  · have here : other = action.core := not_ne_iff.1 apart
    subst here
    cases effect with
    | spin phase nobody => exact flagged _
    | giveUp phase nobody => exact flag_at (update_self _ _ _) trivial
    | @choose core option handler me nextTcb phase first =>
        refine flag_at (update_self _ _ _) ?_
        change update threads.noPreempt nextTcb 1
          (update threads.activeThreads core nextTcb core) = 1
        rw [update_self, update_self]
    | @idle core handler me phase user nobody =>
        refine flag_at (update_self _ _ _) ?_
        change update threads.noPreempt (threads.idleThreads core) 1
          (update threads.activeThreads core (threads.idleThreads core) core) = 1
        rw [update_self, update_self]
    | switch phase => exact flag_at (update_self _ _ _) (update_self _ _ _)
    | leave phase isIdle noDown => exact flag_at (update_self _ _ _) trivial
    | enqueue phase user => exact flag_at (update_self _ _ _) trivial
    | ignore because => exact flagged _
    | preempt outside => exact flag_at (update_self _ _ _) (update_self _ _ _)
    | yield outside => exact flag_at (update_self _ _ _) (update_self _ _ _)
    | stop outside empty => exact flag_at (update_self _ _ _) (update_self _ _ _)
    | pass outside unlocked positive => exact flag_at outside trivial
    | block outside unlocked zero => exact flag_at (update_self _ _ _) (update_self _ _ _)
    | raise outside unlocked nobody => exact flag_at outside trivial
    | wake outside unlocked first => exact flag_at outside trivial
    | schedule outside head alive =>
        rw [schedule_held placed head]
        exact flag_at outside trivial
    | create outside real fresh => exact flag_at outside trivial
    | noZombie nobody => exact flagged _
    | reap outside first => exact flag_at outside trivial
    | delete outside head => exact flag_at outside trivial

/-- No `block` of a thread other than an idle one is about to return because `readyQ`
is empty. -/
def Succeeds (threads : Threads Core) : Action Core → Prop
  | .take core => ∀ me ∈ (threads.phase core).returner,
      threads.isIdle me = false → (threads.queues .ready).first ≠ 0
  | _ => True

/-- Out of `block` the flag is clear if no other thread was wanting. -/
theorem effect_preemptible (placed : threads.Placed contents)
    (effect : Effect threads action after) (flagged : threads.Flagged)
    (succeeds : threads.Succeeds action) (preemptible : threads.Preemptible) :
    after.Preemptible := by
  intro other runs
  by_cases apart : other ≠ action.core
  · have same := effect.elsewhere placed apart
    rw [same.flag]
    exact preemptible other (same.runs runs)
  · have here : other = action.core := not_ne_iff.1 apart
    subst here
    cases effect with
    | spin phase nobody => exact preemptible _ runs
    | @giveUp core handler me phase nobody =>
        have consistent := placed.consistent core
        rw [phase] at consistent
        have user : threads.isIdle me = false := by
          rw [consistent.1]
          exact runs.2
        have returner : me ∈ (threads.phase core).returner := by
          rw [phase]
          rfl
        exact absurd (Queue.remove_none.1 nobody) (succeeds me returner user)
    | choose phase first => exact absurd runs (not_runs (update_self _ _ _) Phase.noConfusion)
    | idle phase user nobody => exact absurd runs (not_runs (update_self _ _ _) Phase.noConfusion)
    | switch phase => exact absurd runs (not_runs (update_self _ _ _) Phase.noConfusion)
    | @leave core handler me phase isIdle noDown =>
        have clear := flagged core
        rw [phase] at clear
        exact clear
    | @enqueue core handler me phase user =>
        have clear := flagged core
        rw [phase] at clear
        cases handler with
        | yield => exact clear
        | stop => exact clear
        | down sem => exact clear
    | ignore because => exact preemptible _ runs
    | preempt outside => exact absurd runs (not_runs (update_self _ _ _) Phase.noConfusion)
    | yield outside => exact absurd runs (not_runs (update_self _ _ _) Phase.noConfusion)
    | stop outside empty => exact absurd runs (not_runs (update_self _ _ _) Phase.noConfusion)
    | pass outside unlocked positive => exact preemptible _ runs
    | block outside unlocked zero =>
        exact absurd runs (not_runs (update_self _ _ _) Phase.noConfusion)
    | raise outside unlocked nobody => exact preemptible _ runs
    | wake outside unlocked first => exact preemptible _ runs
    | schedule outside head alive =>
        rw [schedule_held placed head] at runs ⊢
        exact preemptible _ runs
    | @create core t outside real fresh =>
        have old : threads.activeThreads core ≠ t := by
          intro same
          cases fresh.symm.trans (same ▸ placed.active_live core)
        have user := (update_of_ne old _ _).symm.trans runs.2
        exact (update_of_ne old _ _).trans (preemptible core ⟨outside, user⟩)
    | noZombie nobody => exact preemptible _ runs
    | reap outside first => exact preemptible _ runs
    | delete outside head => exact preemptible _ runs

/-- A tick hands the core to the first thread that is ready. -/
def Preempts (threads : Threads Core) : Prop :=
  ∀ core, threads.Runs core → threads.noPreempt (threads.activeThreads core) = 0 ∧
    ∀ nextTcb, (threads.remove .ready).1 = some nextTcb →
      ∃ after, (machine Core).run threads [.tick core, .take core] = some after ∧
        after.phase core = .switching .yield (threads.activeThreads core) ∧
        after.activeThreads core = nextTcb

theorem tick_enters (placed : threads.Placed contents) (runs : threads.Runs core)
    (clear : threads.noPreempt (threads.activeThreads core) = 0) :
    threads.tick core = some (threads.enter core .canReturn .yield) := by
  have real : threads.activeThreads core ≠ 0 := placed.real _ (placed.active_live core)
  have heeded : ¬ (threads.activeThreads core = 0 ∨
      threads.isIdle (threads.activeThreads core) = true ∨
        threads.noPreempt (threads.activeThreads core) ≠ 0) := by
    rintro (null | isIdle | set)
    · exact real null
    · cases runs.2.symm.trans isIdle
    · exact set clear
  unfold tick
  simp only [runs.1]
  exact if_neg heeded

theorem take_chooses {handler : Handler} {option : BlockOption} {me nextTcb : Nat}
    (phase : threads.phase core = .entered option handler me)
    (first : (threads.remove .ready).1 = some nextTcb) :
    threads.take core = some ((threads.remove .ready).2.activate core handler me nextTcb) := by
  have removed : threads.remove .ready = (some nextTcb, (threads.remove .ready).2) :=
    Prod.ext first rfl
  unfold take
  rw [phase, removed]

theorem preemptible_iff (placed : threads.Placed contents) :
    threads.Preempts ↔ threads.Preemptible := by
  constructor
  · exact fun preempts core runs => (preempts core runs).1
  · intro preemptible core runs
    refine ⟨preemptible core runs, fun nextTcb first => ?_⟩
    have entered := tick_enters placed runs (preemptible core runs)
    have chosen : (threads.enter core .canReturn .yield).take core = _ :=
      take_chooses (update_self _ _ _) first
    refine ⟨((threads.enter core .canReturn .yield).remove .ready).2.activate core .yield
      (threads.me core) nextTcb, ?_, update_self _ _ _, update_self _ _ _⟩
    change (threads.tick core).bind _ = _
    rw [entered]
    change ((threads.enter core .canReturn .yield).take core).bind _ = _
    rw [chosen]
    rfl

/-- The thread that finds nobody comes out of `block` with the flag set. -/
theorem unlucky_take (placed : threads.Placed contents) (flagged : threads.Flagged)
    {handler : Handler} {me : Nat} (phase : threads.phase core = .entered .canReturn handler me)
    (user : threads.isIdle me = false) (nobody : (threads.queues .ready).first = 0)
    (stepped : threads.take core = some after) : ¬ after.Preemptible := by
  have removed : threads.remove .ready = (none, (threads.remove .ready).2) :=
    Prod.ext (Queue.remove_none.2 nobody) rfl
  have left : after = threads.setPhase core .outside := by
    unfold take at stepped
    rw [phase, removed] at stepped
    cases stepped
    rfl
  subst left
  have consistent := placed.consistent core
  have set := flagged core
  rw [phase] at consistent set
  intro preemptible
  have runs : (threads.setPhase core .outside).Runs core :=
    ⟨update_self _ _ _, consistent.1 ▸ user⟩
  exact absurd (set.symm.trans (preemptible core runs)) (by decide)

/-- The machine whose calls of `block` do not return for want of another thread. -/
def succeeding (Core : Type) [DecidableEq Core] : StepMachine (Threads Core) (Action Core) where
  allowed threads action := Allowed threads action ∧ threads.Succeeds action
  step := step

theorem reached_flagged (boot : start.Boot) (reached : (machine Core).Reached start threads) :
    threads.Flagged ∧ ∃ contents, threads.Placed contents := by
  refine reached.preserves
    (fun threads => threads.Flagged ∧ ∃ contents, threads.Placed contents) ?_
    ⟨boot_flagged boot, _, boot_placed boot⟩
  rintro before action next ⟨flagged, contents, placed⟩ allowed stepped
  have effect := step_effect allowed stepped
  exact ⟨effect_flagged placed effect flagged, _, effect_placed placed effect⟩

/-- A tick that comes in `block` before the context switch changes nothing. -/
theorem tick_inside (boot : start.Boot) (reached : (machine Core).Reached start threads)
    (inside : (threads.phase core).caller ≠ none)
    (before : ∀ handler me, threads.phase core ≠ .handling handler me) :
    threads.tick core = some threads := by
  have set := (reached_flagged boot reached).1 core
  have ignored (one : threads.noPreempt (threads.activeThreads core) = 1) :
      threads.activeThreads core = 0 ∨ threads.isIdle (threads.activeThreads core) = true ∨
        threads.noPreempt (threads.activeThreads core) ≠ 0 := by
    refine .inr (.inr ?_)
    rw [one]
    exact Nat.one_ne_zero
  unfold tick
  cases phase : threads.phase core with
  | outside =>
      rw [phase] at inside
      exact absurd rfl inside
  | entered option handler me =>
      rw [phase] at set
      exact if_pos (ignored set)
  | switching handler me =>
      rw [phase] at set
      exact if_pos (ignored set)
  | handling handler me => exact absurd phase (before handler me)

/-- Preemption stays enabled as long as no `block` returns for want of another thread, and not
longer. -/
theorem preemption_enabled (boot : start.Boot)
    (reached : (succeeding Core).Reached start threads) :
    threads.Preempts ∧
      ∀ action after, (machine Core).allowed threads action →
        (machine Core).step threads action = some after →
          (after.Preempts ↔ threads.Succeeds action) := by
  have known : threads.Preemptible ∧ threads.Flagged ∧ ∃ contents, threads.Placed contents := by
    refine reached.preserves
      (fun threads => threads.Preemptible ∧ threads.Flagged ∧ ∃ contents, threads.Placed contents)
      ?_ ⟨boot_preemptible boot, boot_flagged boot, _, boot_placed boot⟩
    rintro before action next ⟨preemptible, flagged, contents, placed⟩ allowed stepped
    have effect := step_effect allowed.1 stepped
    exact ⟨effect_preemptible placed effect flagged allowed.2 preemptible,
      effect_flagged placed effect flagged, _, effect_placed placed effect⟩
  obtain ⟨preemptible, flagged, contents, placed⟩ := known
  refine ⟨(preemptible_iff placed).2 preemptible, ?_⟩
  intro action after allowed stepped
  have effect := step_effect allowed stepped
  rw [preemptible_iff (effect_placed placed effect)]
  constructor
  · intro preempts
    cases action with
    | take core =>
        intro me returner user nobody
        cases phase : threads.phase core with
        | entered option handler caller =>
            rw [phase] at returner
            cases option with
            | canReturn =>
                cases returner
                exact unlucky_take placed flagged phase user nobody stepped preempts
            | mustBlock => cases returner
        | outside => rw [phase] at returner; cases returner
        | switching handler caller => rw [phase] at returner; cases returner
        | handling handler caller => rw [phase] at returner; cases returner
    | _ => trivial
  · exact fun succeeds => effect_preemptible placed effect flagged succeeds preemptible

instance instDecidableSucceeds (threads : Threads Core) (action : Action Core) :
    Decidable ((succeeding Core).allowed threads action) :=
  have : Decidable (threads.Succeeds action) :=
    match action with
    | .take core => inferInstanceAs (Decidable (∀ me ∈ (threads.phase core).returner,
        threads.isIdle me = false → (threads.queues .ready).first ≠ 0))
    | .contextSwitch _ | .handle _ | .tick _ | .yield _ | .stop _ | .down _ _ | .up _ _
    | .schedule _ | .create _ _ | .reap _ | .delete _ => isTrue trivial
  inferInstanceAs (Decidable ((machine Core).allowed threads action ∧ threads.Succeeds action))

/-- A thread on each of the two cores. -/
def bothRun : List (Action Bool) :=
  [.create true 3, .schedule true, .create true 4, .schedule true, .stop false, .take false,
    .contextSwitch false, .handle false, .stop true, .take true, .contextSwitch true,
    .handle true]

theorem preemption_enabled_sample :
    ∃ threads, (machine Bool).run (booted 0) bothRun = some threads ∧ threads.Preempts := by
  have ran : ((machine Bool).run (booted 0) bothRun).isSome = true := by decide
  obtain ⟨threads, final⟩ := Option.isSome_iff_exists.1 ran
  have lawful : (succeeding Bool).Lawful (booted 0) bothRun := by decide
  have enabled := preemption_enabled (booted_boot (Nat.two_pow_pos 32)) ⟨bothRun, lawful, final⟩
  exact ⟨threads, final, enabled.1⟩

/-- One of the two threads is preempted when no other is ready, and comes back from `yield`.
Later a third is ready, and no tick preempts the thread for it. -/
def tickedAlone : List (Action Bool) :=
  bothRun ++ [.tick true, .take true, .create false 5, .schedule false, .tick true]

theorem preemption_lost :
    ∃ threads, (machine Bool).Reached (booted 0) threads ∧ threads.Runs true ∧
      threads.noPreempt (threads.activeThreads true) = 1 ∧
        (threads.remove .ready).1 = some 5 ∧ threads.tick true = some threads := by
  have ran : ((machine Bool).run (booted 0) tickedAlone).map (fun threads =>
      (threads.phase true, threads.isIdle (threads.activeThreads true),
        threads.noPreempt (threads.activeThreads true), (threads.remove .ready).1)) =
      some (.outside, false, 1, some 5) := by decide
  obtain ⟨threads, final, facts⟩ := Option.map_eq_some_iff.1 ran
  have lawful : (machine Bool).Lawful (booted 0) tickedAlone := by decide
  obtain ⟨outside, user, set, ready⟩ : threads.phase true = .outside ∧
      threads.isIdle (threads.activeThreads true) = false ∧
        threads.noPreempt (threads.activeThreads true) = 1 ∧
          (threads.remove .ready).1 = some 5 := by
    simpa only [Prod.mk.injEq] using facts
  refine ⟨threads, ⟨tickedAlone, lawful, final⟩, ⟨outside, user⟩, set, ready, ?_⟩
  unfold tick
  simp only [outside]
  refine if_pos (.inr (.inr ?_))
  rw [set]
  exact Nat.one_ne_zero

end Threads

end AC97Kernel
