/-
The scheduler loses no thread and doubles none.
-/

import AC97Kernel.Threads.Moves

set_option autoImplicit false

namespace AC97Kernel.Threads

open Function

variable {Core : Type} [DecidableEq Core] {start threads after : Threads Core}
  {contents : QueueName → List Nat} {action : Action Core}

/-- What the queues hold after a step. -/
def queuesAfter (threads : Threads Core) (contents : QueueName → List Nat) :
    Action Core → QueueName → List Nat
  | .take _ => update contents .ready (contents .ready).tail
  | .handle core =>
      match threads.phase core with
      | .handling handler me =>
          if threads.isIdle me then contents
          else update contents handler.target (contents handler.target ++ [me])
      | _ => contents
  | .up _ sem => update contents (.waiting sem) (contents (.waiting sem)).tail
  | .schedule core =>
      match threads.hands (threads.me core) with
      | ⟨_, t⟩ :: _ => update contents .ready (contents .ready ++ [t])
      | [] => contents
  | .reap _ => update contents .zombies (contents .zombies).tail
  | _ => contents

/-- What one step preserves. -/
theorem effect_placed (placed : threads.Placed contents) (effect : Effect threads action after) :
    after.Placed (threads.queuesAfter contents action) := by
  cases effect with
  | spin phase nobody =>
      simp only [queuesAfter, placed.nobody_after nobody]
      exact placed
  | giveUp phase nobody =>
      simp only [queuesAfter, placed.nobody_after nobody]
      refine outside_placed placed ?_
      intro me leaver
      rw [phase] at leaver
      cases leaver
  | choose phase first => exact activate_ready_placed placed phase first
  | idle phase user nobody =>
      simp only [queuesAfter, placed.nobody_after nobody]
      exact activate_idle_placed placed phase user
  | switch phase => exact contextSwitch_placed placed phase
  | leave phase isIdle noDown =>
      simp only [queuesAfter, phase, if_pos isIdle]
      refine outside_placed placed ?_
      intro me leaver
      rw [phase] at leaver
      cases leaver
      exact isIdle
  | @enqueue core handler me phase user =>
      simp only [queuesAfter, phase, user, Bool.false_eq_true, if_false]
      have queued := release_placed (add_leaver_placed placed phase user) handler
      cases handler with
      | yield => exact queued
      | stop => exact queued
      | down sem => exact queued
  | ignore because => exact placed
  | preempt outside => exact enter_placed placed outside Handler.noConfusion
  | yield outside => exact enter_placed placed outside Handler.noConfusion
  | stop outside empty => exact enter_placed placed outside fun _ => empty
  | pass outside unlocked positive => exact setSem_placed placed _ _
  | block outside unlocked zero =>
      exact enter_placed (setSem_placed placed _ _) outside Handler.noConfusion
  | raise outside unlocked nobody =>
      simp only [queuesAfter, placed.nobody_after nobody]
      exact setSem_placed placed _ _
  | wake outside unlocked first => exact hold_first_placed placed outside first Role.noConfusion
  | schedule outside head alive =>
      simp only [queuesAfter, head]
      exact scheduleHeld_placed placed outside head
  | create outside real fresh => exact create_placed placed outside real fresh
  | noZombie nobody =>
      simp only [queuesAfter, placed.nobody_after nobody]
      exact placed
  | reap outside first => exact hold_first_placed placed outside first fun _ => rfl
  | delete outside head => exact delete_placed placed outside head

/-- What every run preserves. -/
theorem reached_placed (boot : start.Boot) (reached : (machine Core).Reached start threads) :
    ∃ contents, threads.Placed contents := by
  refine reached.preserves (fun threads => ∃ contents, threads.Placed contents) ?_
    ⟨_, boot_placed boot⟩
  rintro before action next ⟨contents, placed⟩ allowed stepped
  exact ⟨_, effect_placed placed (step_effect allowed stepped)⟩

structure Orderly (threads : Threads Core) (contents : QueueName → List Nat) : Prop where
  queues : ∀ name, (threads.queues name).Holds threads.next (contents name)
  onePlace : ∀ t, threads.User t → ∃! place, threads.Located contents place t
  handsOnce : ∀ t, (threads.hands t).Nodup
  idleQueued : ∀ core name, threads.idleThreads core ∉ contents name
  idleActive : ∀ core other, threads.activeThreads other = threads.idleThreads core → other = core
  savedFirst : ∀ name t, t ∈ contents name → threads.saved t = true

theorem always_orderly (boot : start.Boot) (reached : (machine Core).Reached start threads) :
    ∃ contents, threads.Orderly contents := by
  obtain ⟨contents, placed⟩ := reached_placed boot reached
  refine ⟨contents, ?_⟩
  exact
    { queues := placed.holding
      onePlace := fun _ user => placed.one.existsUnique user
      handsOnce := placed.handsOnce
      idleQueued := fun core name member => by
        have user := placed.one.known (.queued name) _ member
        rw [User, placed.idleIs] at user
        cases user.2
      idleActive := fun core other same => by
        have isIdle : threads.isIdle (threads.activeThreads other) = true := by
          rw [same]
          exact placed.idleIs core
        have home := placed.activeIdle other isIdle
        exact placed.idleApart other core (home.symm.trans same)
      savedFirst := fun name t member => placed.saved (.queued name) t trivial member }

instance instDecidableAllowed (threads : Threads Core) (action : Action Core) :
    Decidable ((machine Core).allowed threads action) :=
  match action with
  | .stop core => inferInstanceAs (Decidable (threads.hands (threads.me core) = []))
  | .create _ t => inferInstanceAs (Decidable (t ≠ 0 ∧ threads.live t = false))
  | .take _ | .contextSwitch _ | .handle _ | .tick _ | .yield _ | .down _ _ | .up _ _
  | .schedule _ | .reap _ | .delete _ => isTrue trivial

/-- Two cores, and semaphores that start at a count. -/
def booted (count : Nat) : Threads Bool where
  live t := t == 1 || t == 2
  isIdle t := t == 1 || t == 2
  next _ := 0
  noPreempt _ := 0
  saved _ := false
  hands _ := []
  queues _ := .empty
  sems _ := { count := count, locked := false }
  idleThreads core := if core then 1 else 2
  activeThreads core := if core then 1 else 2
  phase _ := .outside

theorem booted_boot {count : Nat} (small : count < 2 ^ 32) : (booted count).Boot where
  idleLive := by simp [booted]
  idleIs := by simp [booted]
  idleReal := by simp [booted]
  idleApart := by simp [booted]
  onlyIdle t isLive := by
    rcases (Bool.or_eq_true_iff.1 isLive) with one | two
    · exact ⟨true, (beq_iff_eq.1 one).symm⟩
    · exact ⟨false, (beq_iff_eq.1 two).symm⟩
  active := rfl
  outside _ := rfl
  noHands _ := rfl
  empty _ := rfl
  unlocked _ := rfl
  counts _ := small

/-- A thread is created and scheduled, runs on the other core, and waits there. -/
def waits : List (Action Bool) :=
  [.create true 3, .schedule true, .stop false, .take false, .contextSwitch false, .handle false,
    .down false 7, .take false, .contextSwitch false, .handle false]

theorem always_orderly_sample :
    ∃ threads contents, (machine Bool).run (booted 0) waits = some threads ∧
      threads.Orderly contents := by
  have ran : ((machine Bool).run (booted 0) waits).isSome = true := by decide
  obtain ⟨threads, final⟩ := Option.isSome_iff_exists.1 ran
  have lawful : (machine Bool).Lawful (booted 0) waits := by decide
  obtain ⟨contents, orderly⟩ :=
    always_orderly (booted_boot (Nat.two_pow_pos 32)) ⟨waits, lawful, final⟩
  exact ⟨threads, contents, final, orderly⟩

end AC97Kernel.Threads
