/-
What a semaphore gives out is what it was given.

A ledger records, for one semaphore, what the steps of a run did to it.  The count
wraps at 2^64, and the balance holds up to there.
-/

import AC97Kernel.Threads.Contract

set_option autoImplicit false

namespace AC97Kernel

def Handler.sem : Handler → Option Nat
  | .down sem => some sem
  | _ => none

/-- The semaphore whose lock is held by the thread that is in `block`. -/
def Phase.blockedOn : Phase → Option Nat
  | .outside => none
  | .entered _ handler _ => handler.sem
  | .switching handler _ => handler.sem
  | .handling handler _ => handler.sem

/-- `queued` and `released` list the threads that waited, the first one first. -/
structure Ledger where
  ups : Nat
  raised : Nat
  passed : Nat
  queued : List Nat
  released : List Nat

namespace Threads

open Function

variable {Core : Type} {start threads after : Threads Core} {contents : QueueName → List Nat}
  {core : Core} {sem initial : Nat} {ledger : Ledger}

/-- A thread on its way into a wait queue holds the lock of the semaphore, alone. -/
structure Guarded (threads : Threads Core) : Prop where
  locked : ∀ core sem, (threads.phase core).blockedOn = some sem →
    (threads.sems sem).locked = true ∧ (threads.sems sem).count = 0
  alone : ∀ core other sem, (threads.phase core).blockedOn = some sem →
    (threads.phase other).blockedOn = some sem → core = other

theorem boot_guarded (boot : start.Boot) : start.Guarded where
  locked core sem blocked := by
    rw [boot.outside] at blocked
    cases blocked
  alone core other sem blocked _ := by
    rw [boot.outside] at blocked
    cases blocked

/-- Nobody new holds a lock, and what is locked is left alone. -/
theorem Guarded.mono (guarded : threads.Guarded)
    (fewer : ∀ core sem, (after.phase core).blockedOn = some sem →
      (threads.phase core).blockedOn = some sem ∧ after.sems sem = threads.sems sem) :
    after.Guarded where
  locked core sem blocked := by
    obtain ⟨before, same⟩ := fewer core sem blocked
    rw [same]
    exact guarded.locked core sem before
  alone core other sem blocked also :=
    guarded.alone core other sem (fewer core sem blocked).1 (fewer other sem also).1

theorem Guarded.not_blocked (guarded : threads.Guarded)
    (unlocked : (threads.sems sem).locked = false) (core : Core) :
    (threads.phase core).blockedOn ≠ some sem := by
  intro blocked
  cases (guarded.locked core sem blocked).1.symm.trans unlocked

/-- A semaphore that is not locked may be given any count. -/
theorem Guarded.setSem (guarded : threads.Guarded) (unlocked : (threads.sems sem).locked = false)
    (semaphore : Semaphore) : (threads.setSem sem semaphore).Guarded := by
  refine guarded.mono fun core other blocked => ⟨blocked, ?_⟩
  apply update_of_ne
  intro same
  exact guarded.not_blocked unlocked core (same ▸ blocked)

/-- The laws of one semaphore. -/
structure Balanced (threads : Threads Core) (contents : QueueName → List Nat) (sem initial : Nat)
    (ledger : Ledger) : Prop where
  closed : 0 < (threads.sems sem).count → contents (.waiting sem) = []
  ups : ledger.ups = ledger.raised + ledger.released.length
  kept : initial + ledger.ups < 2 ^ 64 → initial + ledger.ups =
    (threads.sems sem).count + ledger.passed + ledger.released.length
  order : ledger.queued = ledger.released ++ contents (.waiting sem)

def opened : Ledger := { ups := 0, raised := 0, passed := 0, queued := [], released := [] }

theorem opened_balanced (start : Threads Core) (sem : Nat) :
    start.Balanced (fun _ => []) sem (start.sems sem).count opened where
  closed _ := rfl
  ups := rfl
  kept _ := rfl
  order := rfl

theorem Balanced.frame {later : QueueName → List Nat}
    (balanced : threads.Balanced contents sem initial ledger)
    (count : (after.sems sem).count = (threads.sems sem).count)
    (waiting : later (.waiting sem) = contents (.waiting sem)) :
    after.Balanced later sem initial ledger where
  closed := by
    rw [count, waiting]
    exact balanced.closed
  ups := balanced.ups
  kept := by
    rw [count]
    exact balanced.kept
  order := by
    rw [waiting]
    exact balanced.order

/-- A `down` that does not block takes one from the count. -/
theorem Balanced.pass (balanced : threads.Balanced contents sem initial ledger)
    (positive : 0 < (threads.sems sem).count) (locked : Bool) :
    (threads.setSem sem { count := (threads.sems sem).count - 1, locked := locked }).Balanced
      contents sem initial { ledger with passed := ledger.passed + 1 } where
  closed _ := balanced.closed positive
  ups := balanced.ups
  kept bound := by
    have kept := balanced.kept bound
    simp only [setSem, update_self]
    omega
  order := balanced.order

/-- An `up` that finds nobody adds one to the count. -/
theorem Balanced.raise (balanced : threads.Balanced contents sem initial ledger)
    (nobody : contents (.waiting sem) = []) (locked : Bool) :
    (threads.setSem sem
      { count := ((threads.sems sem).count + 1) % 2 ^ 64, locked := locked }).Balanced
      contents sem initial
      { ledger with ups := ledger.ups + 1, raised := ledger.raised + 1 } where
  closed _ := nobody
  ups := by
    have ups := balanced.ups
    simp only
    omega
  kept bound := by
    have kept := balanced.kept (by simp only at bound; omega)
    have small : (threads.sems sem).count + 1 < 2 ^ 64 := by
      simp only at bound
      omega
    simp only [setSem, update_self, Nat.mod_eq_of_lt small]
    omega
  order := balanced.order

/-- An `up` that finds somebody gives the one to the first that waits. -/
theorem Balanced.wake {later : QueueName → List Nat} {t : Nat} {rest : List Nat}
    (balanced : threads.Balanced contents sem initial ledger)
    (count : (after.sems sem).count = (threads.sems sem).count)
    (before : contents (.waiting sem) = t :: rest)
    (waiting : later (.waiting sem) = rest) :
    after.Balanced later sem initial
      { ledger with ups := ledger.ups + 1, released := ledger.released ++ [t] } where
  closed positive := by
    rw [count] at positive
    have nobody := balanced.closed positive
    rw [before] at nobody
    cases nobody
  ups := by
    have ups := balanced.ups
    simp only [List.length_append, List.length_singleton]
    omega
  kept bound := by
    have kept := balanced.kept (by simp only at bound; omega)
    simp only [count, List.length_append, List.length_singleton]
    omega
  order := by
    rw [waiting, balanced.order, before]
    simp

/-- A thread that blocks comes last. -/
theorem Balanced.enqueue {later : QueueName → List Nat} {me : Nat}
    (balanced : threads.Balanced contents sem initial ledger)
    (count : (after.sems sem).count = (threads.sems sem).count)
    (zero : (threads.sems sem).count = 0)
    (waiting : later (.waiting sem) = contents (.waiting sem) ++ [me]) :
    after.Balanced later sem initial { ledger with queued := ledger.queued ++ [me] } where
  closed positive := by
    rw [count, zero] at positive
    cases positive
  ups := balanced.ups
  kept := by
    rw [count]
    exact balanced.kept
  order := by
    rw [waiting, balanced.order, List.append_assoc]

variable [DecidableEq Core] {action : Action Core}

/-- The ledger of the semaphore after a step. -/
def record (threads : Threads Core) (sem : Nat) (ledger : Ledger) : Action Core → Ledger
  | .down _ other =>
      if other = sem ∧ 0 < (threads.sems sem).count then
        { ledger with passed := ledger.passed + 1 }
      else ledger
  | .up _ other =>
      if other = sem then
        match (threads.remove (.waiting sem)).1 with
        | none => { ledger with ups := ledger.ups + 1, raised := ledger.raised + 1 }
        | some t =>
            { ledger with ups := ledger.ups + 1, released := ledger.released ++ [t] }
      else ledger
  | .handle core =>
      match threads.phase core with
      | .handling (.down other) me =>
          if other = sem then { ledger with queued := ledger.queued ++ [me] } else ledger
      | _ => ledger
  | _ => ledger

/-- The threads with the ledger of one semaphore. -/
def audited (Core : Type) [DecidableEq Core] (sem : Nat) :
    StepMachine (Threads Core × Ledger) (Action Core) where
  allowed state action := Allowed state.1 action
  step state action :=
    (state.1.step action).map fun after => (after, state.1.record sem state.2 action)

theorem Guarded.setPhase (guarded : threads.Guarded) {phase : Phase}
    (moved : after.phase = update threads.phase core phase) (sems : after.sems = threads.sems)
    (same : ∀ sem, phase.blockedOn = some sem → (threads.phase core).blockedOn = some sem) :
    after.Guarded := by
  refine guarded.mono fun other sem blocked => ⟨?_, by rw [sems]⟩
  rw [moved] at blocked
  by_cases here : other = core
  · subst here
    rw [update_self] at blocked
    exact same sem blocked
  · rw [update_of_ne here] at blocked
    exact blocked

/-- The thread that blocks takes the lock with it. -/
theorem Guarded.block (guarded : threads.Guarded) (unlocked : (threads.sems sem).locked = false)
    (zero : (threads.sems sem).count = 0) {option : BlockOption} :
    ((threads.lock sem).enter core option (.down sem)).Guarded := by
  have mine (held : Nat) (blocked : (((threads.lock sem).enter core option
      (.down sem)).phase core).blockedOn = some held) : sem = held := by
    simp only [enter, lock, Threads.setSem, update_self] at blocked
    exact Option.some.inj blocked
  have before (other : Core) (apart : other ≠ core) (held : Nat)
      (blocked : (((threads.lock sem).enter core option
        (.down sem)).phase other).blockedOn = some held) :
      (threads.phase other).blockedOn = some held := by
    simp only [enter, lock, Threads.setSem, update_of_ne apart] at blocked
    exact blocked
  constructor
  · intro other held blocked
    by_cases here : other = core
    · subst here
      have same := mine held blocked
      subst same
      simp only [enter, lock, Threads.setSem, update_self]
      exact ⟨trivial, zero⟩
    · have blocked := before other here held blocked
      have apart : held ≠ sem := by
        intro same
        exact guarded.not_blocked unlocked other (same ▸ blocked)
      simp only [enter, lock, Threads.setSem, update_of_ne apart]
      exact guarded.locked other held blocked
  · intro first second held blocked also
    by_cases here : first = core
    · by_cases there : second = core
      · rw [here, there]
      · subst here
        have same := mine held blocked
        exact absurd (before second there held also) (same ▸ guarded.not_blocked unlocked second)
    · by_cases there : second = core
      · subst there
        have same := mine held also
        exact absurd (before first here held blocked) (same ▸ guarded.not_blocked unlocked first)
      · exact guarded.alone first second held (before first here held blocked)
          (before second there held also)

theorem effect_guarded (placed : threads.Placed contents) (effect : Effect threads action after)
    (guarded : threads.Guarded) : after.Guarded := by
  cases effect with
  | spin phase nobody => exact guarded
  | giveUp phase nobody => exact guarded.setPhase rfl rfl fun _ blocked => by cases blocked
  | choose phase first =>
      refine guarded.setPhase rfl rfl fun sem blocked => ?_
      rw [phase]
      exact blocked
  | idle phase user nobody =>
      refine guarded.setPhase rfl rfl fun sem blocked => ?_
      rw [phase]
      exact blocked
  | switch phase =>
      refine guarded.setPhase rfl rfl fun sem blocked => ?_
      rw [phase]
      exact blocked
  | leave phase isIdle noDown => exact guarded.setPhase rfl rfl fun _ blocked => by cases blocked
  | @enqueue core handler me phase user =>
      cases handler with
      | yield => exact guarded.setPhase rfl rfl fun _ blocked => by cases blocked
      | stop => exact guarded.setPhase rfl rfl fun _ blocked => by cases blocked
      | down sem =>
          have mine : (threads.phase core).blockedOn = some sem := by
            rw [phase]
            rfl
          refine guarded.mono fun other held blocked => ?_
          by_cases here : other = core
          · subst here
            simp only [setPhase, update_self] at blocked
            cases blocked
          · have before : (threads.phase other).blockedOn = some held := by
              rw [← @update_of_ne _ _ _ _ _ here .outside threads.phase]
              exact blocked
            refine ⟨before, update_of_ne ?_ _ _⟩
            intro same
            exact here (guarded.alone other core held before (same ▸ mine))
  | ignore because => exact guarded
  | preempt outside => exact guarded.setPhase rfl rfl fun _ blocked => by cases blocked
  | yield outside => exact guarded.setPhase rfl rfl fun _ blocked => by cases blocked
  | stop outside empty => exact guarded.setPhase rfl rfl fun _ blocked => by cases blocked
  | pass outside unlocked positive => exact guarded.setSem unlocked _
  | @block core sem outside unlocked zero => exact guarded.block unlocked zero
  | raise outside unlocked nobody => exact guarded.setSem unlocked _
  | wake outside unlocked first => exact guarded.mono fun core sem blocked => ⟨blocked, rfl⟩
  | schedule outside head alive =>
      rw [schedule_held placed head]
      exact guarded.mono fun core sem blocked => ⟨blocked, rfl⟩
  | create outside real fresh => exact guarded.mono fun core sem blocked => ⟨blocked, rfl⟩
  | noZombie nobody => exact guarded
  | reap outside first => exact guarded.mono fun core sem blocked => ⟨blocked, rfl⟩
  | delete outside head => exact guarded.mono fun core sem blocked => ⟨blocked, rfl⟩

theorem effect_balanced (placed : threads.Placed contents) (guarded : threads.Guarded)
    (effect : Effect threads action after)
    (balanced : threads.Balanced contents sem initial ledger) :
    after.Balanced (threads.queuesAfter contents action) sem initial
      (threads.record sem ledger action) := by
  have notReady (items : List Nat) :
      update contents .ready items (.waiting sem) = contents (.waiting sem) :=
    update_of_ne QueueName.noConfusion _ _
  have notZombies (items : List Nat) :
      update contents .zombies items (.waiting sem) = contents (.waiting sem) :=
    update_of_ne QueueName.noConfusion _ _
  have notWaiting {other : Nat} (apart : other ≠ sem) (items : List Nat) :
      update contents (.waiting other) items (.waiting sem) = contents (.waiting sem) := by
    apply update_of_ne
    intro same
    cases same
    exact apart rfl
  have notOther {other : Nat} (apart : other ≠ sem) (semaphore : Semaphore) :
      (update threads.sems other semaphore sem).count = (threads.sems sem).count :=
    congrArg Semaphore.count (update_of_ne (Ne.symm apart) _ _)
  cases effect with
  | spin phase nobody => exact balanced.frame rfl (notReady _)
  | giveUp phase nobody => exact balanced.frame rfl (notReady _)
  | choose phase first => exact balanced.frame rfl (notReady _)
  | idle phase user nobody => exact balanced.frame rfl (notReady _)
  | switch phase => exact balanced.frame rfl rfl
  | @leave core handler me phase isIdle noDown =>
      simp only [queuesAfter, record, phase, if_pos isIdle]
      cases handler with
      | yield => exact balanced.frame rfl rfl
      | stop => exact balanced.frame rfl rfl
      | down other => exact absurd rfl (noDown other)
  | @enqueue core handler me phase user =>
      cases handler with
      | yield =>
          simp only [queuesAfter, record, phase, user, Bool.false_eq_true, if_false]
          exact balanced.frame rfl (notReady _)
      | stop =>
          simp only [queuesAfter, record, phase, user, Bool.false_eq_true, if_false]
          exact balanced.frame rfl (notZombies _)
      | down other =>
          simp only [queuesAfter, record, phase, user, Bool.false_eq_true, if_false]
          by_cases same : other = sem
          · subst same
            rw [if_pos rfl]
            have blocked : (threads.phase core).blockedOn = some other := by
              rw [phase]
              rfl
            refine balanced.enqueue ?_ (guarded.locked core other blocked).2 (update_self _ _ _)
            simp only [setPhase, release, unlock, Threads.setSem, update_self]
            rfl
          · rw [if_neg same]
            exact balanced.frame (notOther same _) (notWaiting same _)
  | ignore because => exact balanced.frame rfl rfl
  | preempt outside => exact balanced.frame rfl rfl
  | yield outside => exact balanced.frame rfl rfl
  | stop outside empty => exact balanced.frame rfl rfl
  | @pass core other outside unlocked positive =>
      simp only [queuesAfter, record]
      by_cases same : other = sem
      · subst same
        rw [if_pos ⟨rfl, positive⟩]
        exact balanced.pass positive _
      · rw [if_neg fun both => same both.1]
        exact balanced.frame (notOther same _) rfl
  | @block core other outside unlocked zero =>
      simp only [queuesAfter, record]
      by_cases same : other = sem
      · subst same
        rw [if_neg (by omega)]
        refine balanced.frame ?_ rfl
        simp only [enter, lock, Threads.setSem, update_self]
      · rw [if_neg fun both => same both.1]
        exact balanced.frame (notOther same _) rfl
  | @raise core other outside unlocked nobody =>
      simp only [queuesAfter, record]
      by_cases same : other = sem
      · subst same
        rw [if_pos rfl, nobody, placed.nobody_after nobody]
        rw [placed.remove_first, List.head?_eq_none_iff] at nobody
        exact balanced.raise nobody _
      · rw [if_neg same]
        exact balanced.frame (notOther same _) (notWaiting same _)
  | @wake core other t outside unlocked first =>
      simp only [queuesAfter, record]
      by_cases same : other = sem
      · subst same
        rw [if_pos rfl, first]
        exact balanced.wake rfl (placed.remove_cons first).1 (update_self _ _ _)
      · rw [if_neg same]
        exact balanced.frame rfl (notWaiting same _)
  | @schedule core role t rest outside head alive =>
      rw [schedule_held placed head]
      simp only [queuesAfter, head]
      exact balanced.frame rfl (notReady _)
  | create outside real fresh => exact balanced.frame rfl rfl
  | noZombie nobody => exact balanced.frame rfl (notZombies _)
  | reap outside first => exact balanced.frame rfl (notZombies _)
  | delete outside head => exact balanced.frame rfl rfl

theorem audited_balanced (boot : start.Boot)
    (reached : (audited Core sem).Reached (start, opened) (threads, ledger)) :
    ∃ contents, threads.Placed contents ∧ threads.Guarded ∧
      threads.Balanced contents sem (start.sems sem).count ledger := by
  refine reached.preserves (fun state => ∃ contents, state.1.Placed contents ∧ state.1.Guarded ∧
    state.1.Balanced contents sem (start.sems sem).count state.2) ?_
    ⟨_, boot_placed boot, boot_guarded boot, opened_balanced start sem⟩
  rintro ⟨before, ledger⟩ action next ⟨contents, placed, guarded, balanced⟩ allowed stepped
  obtain ⟨after, taken, same⟩ := Option.map_eq_some_iff.1 stepped
  subst same
  have effect := step_effect allowed taken
  exact ⟨_, effect_placed placed effect, effect_guarded placed effect guarded,
    effect_balanced placed guarded effect balanced⟩

/-- An `up` adds one to the count, or takes the first that waits for `schedule` to make it
runnable. -/
def Gives (threads : Threads Core) (contents : QueueName → List Nat) (core : Core) (sem : Nat)
    (after : Threads Core) : Prop :=
  (contents (.waiting sem) = [] ∧ (after.sems sem).count = (threads.sems sem).count + 1 ∧
    after.queues = threads.queues ∧ after.hands = threads.hands) ∨
  ∃ t rest, contents (.waiting sem) = t :: rest ∧ after.sems = threads.sems ∧
    (after.queues (.waiting sem)).Holds after.next rest ∧
    after.hands = update threads.hands (threads.me core)
      (⟨.woken, t⟩ :: threads.hands (threads.me core)) ∧
    ∃ later, after.step (.schedule core) = some later ∧
      (later.queues .ready).Holds later.next (contents .ready ++ [t])

theorem schedule_steps {role : Role} {t : Nat} {rest : List Hold}
    (outside : threads.phase core = .outside)
    (head : threads.hands (threads.me core) = ⟨role, t⟩ :: rest) (alive : role ≠ .reaped) :
    threads.step (.schedule core) =
      some ((threads.setHands (threads.me core) rest).schedule t) := by
  change threads.whenOutside core (threads.scheduleHeld core) = _
  unfold whenOutside scheduleHeld
  rw [if_pos outside, head]
  exact if_neg alive

theorem up_gives (placed : threads.Placed contents)
    (stepped : threads.step (.up core sem) = some after)
    (bound : (threads.sems sem).count + 1 < 2 ^ 64) : threads.Gives contents core sem after := by
  have allowed : threads.Allowed (.up core sem) := trivial
  cases step_effect allowed stepped with
  | raise outside unlocked nobody =>
      rw [placed.remove_first, List.head?_eq_none_iff] at nobody
      refine .inl ⟨nobody, ?_, rfl, rfl⟩
      simp only [setSem, update_self, Nat.mod_eq_of_lt bound]
  | @wake _ _ t outside unlocked first =>
      have alive : Role.woken = .reaped → QueueName.waiting sem = .zombies := Role.noConfusion
      have held := hold_first_placed placed outside first alive
      have head : ((threads.remove (.waiting sem)).2.hold core .woken t).hands (threads.me core) =
          ⟨.woken, t⟩ :: threads.hands (threads.me core) := update_self _ _ _
      have ready := (scheduleHeld_placed held outside head).holding .ready
      rw [update_self, update_of_ne QueueName.noConfusion] at ready
      refine .inr ⟨t, _, (placed.remove_cons first).1, rfl, ?_, rfl, ?_⟩
      · have waiting := held.holding (.waiting sem)
        rw [update_self] at waiting
        exact waiting
      · exact ⟨_, schedule_steps outside head Role.noConfusion, ready⟩

/-- The balance of every semaphore, whoever calls `down` and `up` and when. -/
theorem semaphore_balanced (boot : start.Boot)
    (reached : (audited Core sem).Reached (start, opened) (threads, ledger)) :
    ∃ contents : QueueName → List Nat,
      (∀ name, (threads.queues name).Holds threads.next (contents name)) ∧
        threads.Balanced contents sem (start.sems sem).count ledger ∧
          ∀ core after, (machine Core).step threads (.up core sem) = some after →
            (start.sems sem).count + ledger.ups + 1 < 2 ^ 64 →
              threads.Gives contents core sem after := by
  obtain ⟨contents, placed, _, balanced⟩ := audited_balanced boot reached
  refine ⟨contents, placed.holding, balanced, ?_⟩
  intro core after stepped bound
  apply up_gives placed stepped
  have kept := balanced.kept (by omega)
  omega

instance instDecidableAudited (state : Threads Core × Ledger) (action : Action Core) :
    Decidable ((audited Core sem).allowed state action) :=
  inferInstanceAs (Decidable ((machine Core).allowed state.1 action))

/-- A thread waits before the semaphore is raised, and is woken. -/
def waitsAndWakes : List (Action Bool) :=
  waits ++ [.create true 4, .schedule true, .up true 7]

theorem semaphore_balanced_sample :
    ∃ threads ledger contents,
      (audited Bool 7).run (booted 0, opened) waitsAndWakes = some (threads, ledger) ∧
        ledger.ups = 1 ∧ ledger.released = [3] ∧
          threads.Balanced contents 7 ((booted 0).sems 7).count ledger := by
  have ran : ((audited Bool 7).run (booted 0, opened) waitsAndWakes).map
      (fun state => (state.2.ups, state.2.released)) = some (1, [3]) := by decide
  obtain ⟨⟨threads, ledger⟩, final, facts⟩ := Option.map_eq_some_iff.1 ran
  have lawful : (audited Bool 7).Lawful (booted 0, opened) waitsAndWakes := by decide
  obtain ⟨contents, _, balanced, _⟩ :=
    semaphore_balanced (booted_boot (Nat.two_pow_pos 32)) ⟨waitsAndWakes, lawful, final⟩
  obtain ⟨ups, released⟩ : ledger.ups = 1 ∧ ledger.released = [3] := by
    simpa only [Prod.mk.injEq] using facts
  exact ⟨threads, ledger, contents, final, ups, released, balanced⟩

theorem up_raises (outside : threads.phase core = .outside)
    (unlocked : (threads.sems sem).locked = false)
    (nobody : (threads.queues (.waiting sem)).first = 0) :
    (audited Core sem).step (threads, ledger) (.up core sem) =
      some (threads.setSem sem
          { count := ((threads.sems sem).count + 1) % 2 ^ 64, locked := false },
        { ledger with ups := ledger.ups + 1, raised := ledger.raised + 1 }) := by
  have first : (threads.remove (.waiting sem)).1 = none := Queue.remove_none.2 nobody
  have removed : threads.remove (.waiting sem) = (none, (threads.remove (.waiting sem)).2) :=
    Prod.ext first rfl
  have stepped : threads.step (.up core sem) = some (threads.setSem sem
      { count := ((threads.sems sem).count + 1) % 2 ^ 64, locked := false }) := by
    change threads.whenOutside core (threads.up core sem) = _
    unfold whenOutside up
    rw [if_pos outside, removed]
    simp only [unlocked, Bool.false_eq_true, if_false]
  change (threads.step (.up core sem)).map _ = _
  rw [stepped]
  simp only [Option.map_some, record, if_pos, first]

/-- As many times `up` as one likes, and nobody who calls `down`. -/
theorem raised_often (times : Nat) :
    ∃ threads ledger, (audited Bool 7).Reached (booted 1, opened) (threads, ledger) ∧
      (threads.phase true = .outside ∧ (threads.sems 7).locked = false ∧
        (threads.queues (.waiting 7)).first = 0) ∧
      (threads.sems 7).count = (1 + times) % 2 ^ 64 ∧ ledger.ups = times ∧ ledger.passed = 0 ∧
        ledger.released = [] := by
  induction times with
  | zero => exact ⟨booted 1, opened, .refl _ _, ⟨rfl, rfl, rfl⟩, rfl, rfl, rfl, rfl⟩
  | succ times ih =>
      obtain ⟨threads, ledger, reached, ⟨outside, unlocked, nobody⟩, count, ups, passed,
        released⟩ := ih
      have stepped := @up_raises Bool threads true 7 ledger _ outside unlocked nobody
      have permitted : (audited Bool 7).allowed (threads, ledger) (.up true 7) := trivial
      refine ⟨_, _, reached.trans (.cons permitted stepped (.refl _ _)), ⟨outside, ?_, nobody⟩, ?_,
        congrArg (· + 1) ups, passed, released⟩
      · simp only [setSem, update_self]
      · simp only [setSem, update_self, count]
        omega

/-- From a count of 1, one `up` less than 2^64 of them brings the count to 0. -/
theorem count_wraps :
    ∃ threads ledger, (audited Bool 7).Reached (booted 1, opened) (threads, ledger) ∧
      ledger.ups < 2 ^ 64 ∧
        ((booted 1).sems 7).count + ledger.ups ≠
          (threads.sems 7).count + ledger.passed + ledger.released.length := by
  obtain ⟨threads, ledger, reached, _, count, ups, passed, released⟩ := raised_often (2 ^ 64 - 1)
  refine ⟨threads, ledger, reached, ?_, ?_⟩
  · rw [ups]
    omega
  · rw [count, ups, passed, released]
    change 1 + (2 ^ 64 - 1) ≠ (1 + (2 ^ 64 - 1)) % 2 ^ 64 + 0 + 0
    omega

end Threads

end AC97Kernel
