/-
The condition variable of kernel/condition.h and its lock.

What happens while the lock is held is one step.  A thread that waits has released
the lock and is in limbo until its handler, on the stack of the next thread, takes
the lock again and puts it in the queue, or makes it runnable when there has been a
notification in between.  `waits` and `notifies` are no fields: they count the calls.
Threads are not idle threads, and take the lock with interrupts enabled.
-/

import AC97Kernel.Library.StepMachine
import Mathlib.Algebra.Group.Nat.Defs
import Mathlib.Data.List.Nodup
import Mathlib.Data.Set.Card

set_option autoImplicit false

namespace AC97Kernel.Sync

open Function StepMachine

/-- Where a thread is in `wait`, with the epoch that it remembers. -/
inductive WaitPhase where
  | outside
  | limbo (oldEpoch : Nat)
  | queued
  | runnable
  deriving DecidableEq

structure Condition (Thread : Type) where
  taken : Option Thread
  epoch : Nat
  queue : List Thread
  phase : Thread → WaitPhase
  waits : Thread → Nat
  notifies : Nat

namespace Condition

variable {Thread : Type} [DecidableEq Thread]

def new : Condition Thread where
  taken := none
  epoch := 0
  queue := []
  phase _ := .outside
  waits _ := 0
  notifies := 0

def setPhase (condition : Condition Thread) (thread : Thread) (phase : WaitPhase) :
    Condition Thread :=
  { condition with phase := update condition.phase thread phase }

/-- Nothing while the lock is taken: the thread spins. -/
def lock (condition : Condition Thread) (me : Thread) : Option (Condition Thread) :=
  if condition.taken = none then some { condition with taken := some me } else none

def unlock (condition : Condition Thread) : Condition Thread :=
  { condition with taken := none }

/-- `wait` up to the call of `block`. -/
def wait (condition : Condition Thread) (me : Thread) : Condition Thread :=
  { (condition.setPhase me (.limbo condition.epoch)).unlock with
    waits := update condition.waits me (condition.waits me + 1) }

/-- The handler that `wait` gives to `block`. -/
def handle (condition : Condition Thread) (me : Thread) : Option (Condition Thread) :=
  match condition.phase me with
  | .limbo oldEpoch =>
      if condition.taken ≠ none then none
      else if condition.epoch = oldEpoch then
        some { condition.setPhase me .queued with queue := condition.queue ++ [me] }
      else if condition.epoch > oldEpoch then some (condition.setPhase me .runnable)
      else none
  | _ => none

/-- The end of `wait`. -/
def comeBack (condition : Condition Thread) (me : Thread) : Option (Condition Thread) :=
  if condition.phase me = .runnable then (condition.setPhase me .outside).lock me else none

/-- A thread in the queue becomes runnable without a notification. -/
def wakeFalsely (condition : Condition Thread) (me : Thread) : Option (Condition Thread) :=
  if condition.phase me = .queued then
    some { condition.setPhase me .runnable with queue := condition.queue.erase me }
  else none

/-- The loop of `notify`: the threads that it takes from the queue, and the queue. -/
def wakeUp (limit : Nat) : List Thread → List Thread × List Thread
  | [] => ([], [])
  | next :: rest =>
      if limit = 0 then ([], next :: rest)
      else (next :: (wakeUp (limit - 1) rest).1, (wakeUp (limit - 1) rest).2)

def notify (condition : Condition Thread) (limit : Nat) : Condition Thread :=
  { condition with
    epoch := (condition.epoch + 1) % 2 ^ 64
    queue := (wakeUp limit condition.queue).2
    phase := fun thread =>
      if thread ∈ (wakeUp limit condition.queue).1 then .runnable else condition.phase thread
    notifies := condition.notifies + 1 }

def notifyOne (condition : Condition Thread) : Condition Thread := condition.notify 1

def notifyAll (condition : Condition Thread) : Condition Thread := condition.notify (2 ^ 64 - 1)

inductive Action (Thread : Type) where
  | lock (me : Thread)
  | unlock (me : Thread)
  | wait (me : Thread)
  | handle (me : Thread)
  | comeBack (me : Thread)
  | notify (me : Thread) (limit : Nat)

/-- Whoever waits, notifies or unlocks has the lock. -/
def machine (Thread : Type) [DecidableEq Thread] :
    StepMachine (Condition Thread) (Action Thread) where
  allowed condition
    | .lock me => condition.phase me = .outside
    | .unlock me => condition.taken = some me
    | .wait me => condition.taken = some me
    | .notify me limit => condition.taken = some me ∧ limit < 2 ^ 64
    | _ => True
  step condition
    | .lock me => condition.lock me
    | .unlock _ => some condition.unlock
    | .wait me => some (condition.wait me)
    | .handle me => condition.handle me
    | .comeBack me => condition.comeBack me
    | .notify _ limit => some (condition.notify limit)

instance instDecidableAllowed (condition : Condition Thread) (action : Action Thread) :
    Decidable ((machine Thread).allowed condition action) :=
  match action with
  | .lock _ => inferInstanceAs (Decidable (_ = _))
  | .unlock _ => inferInstanceAs (Decidable (_ = _))
  | .wait _ => inferInstanceAs (Decidable (_ = _))
  | .notify _ _ => inferInstanceAs (Decidable (_ ∧ _))
  | .handle _ => inferInstanceAs (Decidable True)
  | .comeBack _ => inferInstanceAs (Decidable True)

omit [DecidableEq Thread] in
theorem wakeUp_eq (limit : Nat) (queue : List Thread) :
    wakeUp limit queue = (queue.take limit, queue.drop limit) := by
  induction queue generalizing limit with
  | nil => simp [wakeUp]
  | cons next rest ih =>
      cases limit with
      | zero => rfl
      | succ limit =>
          rw [wakeUp, if_neg (Nat.succ_ne_zero limit), Nat.add_sub_cancel, ih]
          rfl

/-- What holds between two steps. -/
structure Orderly (condition : Condition Thread) : Prop where
  queued : ∀ thread, thread ∈ condition.queue ↔ condition.phase thread = .queued
  once : condition.queue.Nodup
  epoch : condition.epoch = condition.notifies % 2 ^ 64
  older : condition.notifies < 2 ^ 64 → ∀ thread oldEpoch,
    condition.phase thread = .limbo oldEpoch → oldEpoch ≤ condition.epoch
  holder : ∀ thread, condition.taken = some thread → condition.phase thread = .outside

omit [DecidableEq Thread] in
theorem new_orderly : (new : Condition Thread).Orderly where
  queued thread := iff_of_false List.not_mem_nil WaitPhase.noConfusion
  once := List.nodup_nil
  epoch := rfl
  older _ thread oldEpoch impossible := by cases impossible
  holder thread impossible := by cases impossible

variable {condition after : Condition Thread} {me : Thread}

/-- A thread that is not in the queue goes on, and not into the queue. -/
theorem Orderly.move (orderly : condition.Orderly) (me : Thread) (phase : WaitPhase)
    (queue : after.queue = condition.queue) (epoch : after.epoch = condition.epoch)
    (notifies : after.notifies = condition.notifies)
    (moved : after.phase = update condition.phase me phase)
    (before : condition.phase me ≠ .queued) (now : phase ≠ .queued)
    (limbo : ∀ oldEpoch, phase = .limbo oldEpoch → oldEpoch ≤ condition.epoch)
    (holder : ∀ thread, after.taken = some thread → after.phase thread = .outside) :
    after.Orderly where
  queued thread := by
    rw [queue, moved, orderly.queued]
    by_cases same : thread = me
    · subst same
      rw [update_self]
      exact iff_of_false before now
    · rw [update_of_ne same]
  once := by
    rw [queue]
    exact orderly.once
  epoch := by
    rw [epoch, notifies]
    exact orderly.epoch
  older := by
    intro few thread oldEpoch is_
    rw [moved] at is_
    rw [epoch]
    by_cases same : thread = me
    · subst same
      rw [update_self] at is_
      exact limbo oldEpoch is_
    · rw [update_of_ne same] at is_
      exact orderly.older (notifies ▸ few) thread oldEpoch is_
  holder := holder

theorem lock_orderly (orderly : condition.Orderly) (outside : condition.phase me = .outside)
    (locked : condition.lock me = some after) : after.Orderly := by
  unfold lock at locked
  split at locked
  · cases locked
    refine orderly.move me _ rfl rfl rfl (update_eq_self me condition.phase).symm
      ?_ ?_ ?_ ?_
    · rw [outside]
      exact WaitPhase.noConfusion
    · rw [outside]
      exact WaitPhase.noConfusion
    · intro oldEpoch is_
      rw [outside] at is_
      cases is_
    · intro thread mine
      cases mine
      exact outside
  · cases locked

omit [DecidableEq Thread] in
theorem unlock_orderly (orderly : condition.Orderly) : condition.unlock.Orderly where
  queued := orderly.queued
  once := orderly.once
  epoch := orderly.epoch
  older := orderly.older
  holder thread impossible := by cases impossible

theorem wait_orderly (orderly : condition.Orderly) (mine : condition.taken = some me) :
    (condition.wait me).Orderly := by
  have outside := orderly.holder me mine
  refine orderly.move me (.limbo condition.epoch) rfl rfl rfl rfl ?_
    WaitPhase.noConfusion ?_ ?_
  · rw [outside]
    exact WaitPhase.noConfusion
  · intro oldEpoch is_
    cases is_
    exact Nat.le_refl _
  · intro thread impossible
    cases impossible

/-- What the handler does. -/
theorem handle_cases (handled : condition.handle me = some after) :
    ∃ oldEpoch, condition.phase me = .limbo oldEpoch ∧ condition.taken = none ∧
      ((condition.epoch = oldEpoch ∧
        after = { condition.setPhase me .queued with queue := condition.queue ++ [me] }) ∨
      (oldEpoch < condition.epoch ∧ after = condition.setPhase me .runnable)) := by
  unfold handle at handled
  split at handled
  · rename_i oldEpoch limbo
    split at handled
    · cases handled
    · rename_i free
      split at handled
      · rename_i same
        cases handled
        exact ⟨oldEpoch, limbo, not_not.mp free, .inl ⟨same, rfl⟩⟩
      · split at handled
        · rename_i later
          cases handled
          exact ⟨oldEpoch, limbo, not_not.mp free, .inr ⟨later, rfl⟩⟩
        · cases handled
  · cases handled

theorem enqueue_orderly (orderly : condition.Orderly) {oldEpoch : Nat}
    (limbo : condition.phase me = .limbo oldEpoch) (free : condition.taken = none) :
    Orderly { condition.setPhase me .queued with queue := condition.queue ++ [me] } where
  queued thread := by
    change thread ∈ condition.queue ++ [me] ↔ update condition.phase me .queued thread = .queued
    rw [List.mem_append, List.mem_singleton, orderly.queued]
    by_cases same : thread = me
    · subst same
      rw [update_self]
      exact iff_of_true (.inr rfl) rfl
    · rw [update_of_ne same]
      exact or_iff_left same
  once := by
    apply List.Nodup.append orderly.once (List.nodup_singleton me)
    rw [List.disjoint_singleton, orderly.queued, limbo]
    exact WaitPhase.noConfusion
  epoch := orderly.epoch
  older := by
    intro few thread old is_
    change update condition.phase me .queued thread = .limbo old at is_
    by_cases same : thread = me
    · subst same
      rw [update_self] at is_
      cases is_
    · rw [update_of_ne same] at is_
      exact orderly.older few thread old is_
  holder thread mine := by
    change condition.taken = some thread at mine
    rw [free] at mine
    cases mine

theorem handle_orderly (orderly : condition.Orderly) (handled : condition.handle me = some after) :
    after.Orderly := by
  obtain ⟨oldEpoch, limbo, free, ⟨_, same⟩ | ⟨_, same⟩⟩ := handle_cases handled
  · subst same
    exact enqueue_orderly orderly limbo free
  · subst same
    refine orderly.move me .runnable rfl rfl rfl rfl ?_ WaitPhase.noConfusion
      ?_ ?_
    · rw [limbo]
      exact WaitPhase.noConfusion
    · intro old impossible
      cases impossible
    · intro thread mine
      change condition.taken = some thread at mine
      rw [free] at mine
      cases mine

theorem comeBack_cases (back : condition.comeBack me = some after) :
    condition.phase me = .runnable ∧ condition.taken = none ∧
      after = { condition.setPhase me .outside with taken := some me } := by
  unfold comeBack lock at back
  split at back
  · rename_i runnable
    split at back
    · rename_i free
      cases back
      exact ⟨runnable, free, rfl⟩
    · cases back
  · cases back

theorem comeBack_orderly (orderly : condition.Orderly)
    (back : condition.comeBack me = some after) : after.Orderly := by
  obtain ⟨runnable, _, same⟩ := comeBack_cases back
  subst same
  refine orderly.move me .outside rfl rfl rfl rfl ?_ WaitPhase.noConfusion ?_ ?_
  · rw [runnable]
    exact WaitPhase.noConfusion
  · intro old impossible
    cases impossible
  · intro thread mine
    cases mine
    exact update_self me _ _

theorem wakeFalsely_orderly (orderly : condition.Orderly)
    (woken : condition.wakeFalsely me = some after) : after.Orderly := by
  unfold wakeFalsely at woken
  split at woken
  · rename_i queued
    cases woken
    constructor
    · intro thread
      change thread ∈ condition.queue.erase me ↔
        update condition.phase me .runnable thread = .queued
      rw [orderly.once.mem_erase_iff, orderly.queued]
      by_cases same : thread = me
      · subst same
        rw [update_self]
        exact iff_of_false (fun both => both.1 rfl) WaitPhase.noConfusion
      · rw [update_of_ne same]
        exact and_iff_right same
    · exact orderly.once.erase me
    · exact orderly.epoch
    · intro few thread oldEpoch limbo
      change update condition.phase me .runnable thread = .limbo oldEpoch at limbo
      by_cases same : thread = me
      · subst same
        rw [update_self] at limbo
        cases limbo
      · rw [update_of_ne same] at limbo
        exact orderly.older few thread oldEpoch limbo
    · intro thread mine
      have outside := orderly.holder thread mine
      change update condition.phase me .runnable thread = .outside
      rw [update_of_ne]
      · exact outside
      · intro same
        rw [same, queued] at outside
        cases outside
  · cases woken

/-- The phases after `notify`. -/
theorem notify_phase (limit : Nat) (thread : Thread) :
    (condition.notify limit).phase thread =
      if thread ∈ condition.queue.take limit then .runnable else condition.phase thread := by
  change (if thread ∈ (wakeUp limit condition.queue).1 then _ else _) = _
  rw [wakeUp_eq]

theorem notify_orderly (orderly : condition.Orderly) (limit : Nat) :
    (condition.notify limit).Orderly where
  queued thread := by
    have parts := List.take_append_drop limit condition.queue
    have once := orderly.once
    rw [← parts] at once
    have all := orderly.queued thread
    rw [← parts, List.mem_append] at all
    rw [notify_phase]
    change thread ∈ (wakeUp limit condition.queue).2 ↔ _
    rw [wakeUp_eq]
    split
    · rename_i taken
      exact iff_of_false (List.disjoint_of_nodup_append once taken) WaitPhase.noConfusion
    · rename_i left
      rw [← all]
      exact (or_iff_right left).symm
  once := by
    change (wakeUp limit condition.queue).2.Nodup
    rw [wakeUp_eq]
    exact orderly.once.sublist (List.drop_sublist limit condition.queue)
  epoch := by
    change (condition.epoch + 1) % 2 ^ 64 = (condition.notifies + 1) % 2 ^ 64
    rw [orderly.epoch, Nat.mod_add_mod]
  older := by
    intro few thread old is_
    change condition.notifies + 1 < 2 ^ 64 at few
    rw [notify_phase] at is_
    split at is_
    · cases is_
    · have before := orderly.older (by omega) thread old is_
      have epoch := orderly.epoch
      change old ≤ (condition.epoch + 1) % 2 ^ 64
      rw [Nat.mod_eq_of_lt (by omega)] at epoch
      rw [Nat.mod_eq_of_lt (by omega)]
      omega
  holder := by
    intro thread mine
    have outside := orderly.holder thread mine
    rw [notify_phase]
    split
    · rename_i taken
      have queued := (orderly.queued thread).mp (List.mem_of_mem_take taken)
      rw [outside] at queued
      cases queued
    · exact outside

theorem step_orderly {action : Action Thread} (orderly : condition.Orderly)
    (permitted : (machine Thread).allowed condition action)
    (stepped : (machine Thread).step condition action = some after) : after.Orderly := by
  cases action with
  | lock me => exact lock_orderly orderly permitted stepped
  | unlock me =>
      cases stepped
      exact unlock_orderly orderly
  | wait me =>
      cases stepped
      exact wait_orderly orderly permitted
  | handle me => exact handle_orderly orderly stepped
  | comeBack me => exact comeBack_orderly orderly stepped
  | notify me limit =>
      cases stepped
      exact notify_orderly orderly limit

theorem reached_orderly (orderly : condition.Orderly)
    (reached : (machine Thread).Reached condition after) : after.Orderly :=
  reached.preserves Orderly (fun _ _ _ => step_orderly) orderly

/-- A thread in this one of its waits has been notified, while no epoch comes twice. -/
structure Signalled (thread : Thread) (wait : Nat) (condition : Condition Thread) : Prop where
  since : wait ≤ condition.waits thread
  notQueued : condition.notifies < 2 ^ 64 → condition.waits thread = wait →
    condition.phase thread ≠ .queued
  older : condition.notifies < 2 ^ 64 → condition.waits thread = wait →
    ∀ oldEpoch, condition.phase thread = .limbo oldEpoch → oldEpoch < condition.epoch

variable {thread : Thread} {wait : Nat}

omit [DecidableEq Thread] in
theorem Signalled.keep (signalled : Signalled thread wait condition)
    (waits : after.waits thread = condition.waits thread)
    (epoch : after.epoch = condition.epoch) (notifies : after.notifies = condition.notifies)
    (phase : after.phase thread = condition.phase thread ∨ after.phase thread = .runnable ∨
      after.phase thread = .outside) : Signalled thread wait after where
  since := waits ▸ signalled.since
  notQueued few this_ := by
    rcases phase with same | same | same
    · rw [same]
      exact signalled.notQueued (notifies ▸ few) (waits ▸ this_)
    · rw [same]
      exact WaitPhase.noConfusion
    · rw [same]
      exact WaitPhase.noConfusion
  older few this_ oldEpoch limbo := by
    rcases phase with same | same | same
    · rw [epoch]
      exact signalled.older (notifies ▸ few) (waits ▸ this_) oldEpoch (same ▸ limbo)
    · rw [same] at limbo
      cases limbo
    · rw [same] at limbo
      cases limbo

theorem wait_signalled (signalled : Signalled thread wait condition) :
    Signalled thread wait (condition.wait me) := by
  by_cases same : thread = me
  · subst same
    have next : (condition.wait thread).waits thread = condition.waits thread + 1 :=
      update_self thread _ _
    have since := signalled.since
    refine ⟨by omega, ?_, ?_⟩
    · intro _ this_
      omega
    · intro _ this_
      omega
  · exact signalled.keep (update_of_ne same _ _) rfl rfl (.inl (update_of_ne same _ _))

theorem handle_signalled (signalled : Signalled thread wait condition)
    (handled : condition.handle me = some after) : Signalled thread wait after := by
  obtain ⟨oldEpoch, limbo, free, ⟨unchanged, same⟩ | ⟨_, same⟩⟩ := handle_cases handled
  · subst same
    by_cases isMe : thread = me
    · subst isMe
      have late (few : condition.notifies < 2 ^ 64) (this_ : condition.waits thread = wait) :
          False := by
        have older := signalled.older few this_ oldEpoch limbo
        omega
      exact ⟨signalled.since, fun few this_ => (late few this_).elim,
        fun few this_ => (late few this_).elim⟩
    · exact signalled.keep rfl rfl rfl (.inl (update_of_ne isMe _ _))
  · subst same
    by_cases isMe : thread = me
    · subst isMe
      exact signalled.keep rfl rfl rfl (.inr (.inl (update_self _ _ _)))
    · exact signalled.keep rfl rfl rfl (.inl (update_of_ne isMe _ _))

theorem notify_signalled (orderly : condition.Orderly) (signalled : Signalled thread wait condition)
    (limit : Nat) : Signalled thread wait (condition.notify limit) where
  since := signalled.since
  notQueued few this_ := by
    change condition.notifies + 1 < 2 ^ 64 at few
    rw [notify_phase]
    split
    · exact WaitPhase.noConfusion
    · exact signalled.notQueued (by omega) this_
  older few this_ oldEpoch limbo := by
    change condition.notifies + 1 < 2 ^ 64 at few
    rw [notify_phase] at limbo
    split at limbo
    · cases limbo
    · have older := signalled.older (by omega) this_ oldEpoch limbo
      have epoch := orderly.epoch
      change oldEpoch < (condition.epoch + 1) % 2 ^ 64
      rw [Nat.mod_eq_of_lt (by omega)] at epoch
      rw [Nat.mod_eq_of_lt (by omega)]
      omega

theorem step_signalled {action : Action Thread} (orderly : condition.Orderly)
    (stepped : (machine Thread).step condition action = some after)
    (signalled : Signalled thread wait condition) : Signalled thread wait after := by
  cases action with
  | lock me =>
      change condition.lock me = some after at stepped
      unfold lock at stepped
      split at stepped
      · cases stepped
        exact signalled.keep rfl rfl rfl (.inl rfl)
      · cases stepped
  | unlock me =>
      cases stepped
      exact signalled.keep rfl rfl rfl (.inl rfl)
  | wait me =>
      cases stepped
      exact wait_signalled signalled
  | handle me => exact handle_signalled signalled stepped
  | comeBack me =>
      obtain ⟨_, _, same⟩ := comeBack_cases stepped
      subst same
      by_cases isMe : thread = me
      · subst isMe
        exact signalled.keep rfl rfl rfl (.inr (.inr (update_self _ _ _)))
      · exact signalled.keep rfl rfl rfl (.inl (update_of_ne isMe _ _))
  | notify me limit =>
      cases stepped
      exact notify_signalled orderly signalled limit

theorem reached_signalled (orderly : condition.Orderly)
    (reached : (machine Thread).Reached condition after)
    (signalled : Signalled thread wait condition) : Signalled thread wait after := by
  have both := reached.preserves
    (fun condition => condition.Orderly ∧ Signalled thread wait condition)
    (fun before action next both permitted stepped =>
      ⟨step_orderly both.1 permitted stepped, step_signalled both.1 stepped both.2⟩)
    ⟨orderly, signalled⟩
  exact both.2

/-- The thread has released the lock in `wait`, and is not runnable. -/
def Waits (condition : Condition Thread) (thread : Thread) : Prop :=
  condition.phase thread = .queued ∨ ∃ oldEpoch, condition.phase thread = .limbo oldEpoch

/-- In this one of its waits the thread is not queued any more, and its handler makes it
runnable if it is not runnable yet. -/
structure Roused (condition : Condition Thread) (thread : Thread) (wait : Nat) : Prop where
  now : condition.phase thread = .runnable ∨ ∃ oldEpoch, condition.phase thread = .limbo oldEpoch
  always : ∀ later, (machine Thread).Reached condition later → later.notifies < 2 ^ 64 →
    later.waits thread = wait → thread ∉ later.queue ∧
      ∀ oldEpoch, later.phase thread = .limbo oldEpoch → later.taken = none →
        later.handle thread = some (later.setPhase thread .runnable)

theorem Signalled.roused (orderly : condition.Orderly)
    (signalled : Signalled thread wait condition)
    (now : condition.phase thread = .runnable ∨
      ∃ oldEpoch, condition.phase thread = .limbo oldEpoch) :
    Roused condition thread wait where
  now := now
  always later reached few this_ := by
    have still := reached_signalled orderly reached signalled
    have orderlyLater := reached_orderly orderly reached
    refine ⟨?_, ?_⟩
    · rw [orderlyLater.queued]
      exact still.notQueued few this_
    · intro oldEpoch limbo free
      have older := still.older few this_ oldEpoch limbo
      unfold handle
      rw [limbo]
      simp only [free, ne_eq, not_true_eq_false, if_false]
      rw [if_neg (by omega), if_pos older]

/-- Whoever is in limbo or taken from the queue is roused. -/
theorem notify_rouses (orderly : condition.Orderly) (limit : Nat)
    (few : condition.notifies + 1 < 2 ^ 64) (waiting : condition.Waits thread)
    (taken : condition.phase thread = .queued → thread ∈ condition.queue.take limit) :
    Roused (condition.notify limit) thread (condition.waits thread) := by
  have orderlyAfter := notify_orderly orderly limit
  rcases waiting with queued | ⟨oldEpoch, limbo⟩
  · have runnable : (condition.notify limit).phase thread = .runnable := by
      rw [notify_phase, if_pos (taken queued)]
    refine Signalled.roused orderlyAfter ⟨Nat.le_refl _, ?_, ?_⟩ (.inl runnable)
    · intro _ _
      rw [runnable]
      exact WaitPhase.noConfusion
    · intro _ _ old impossible
      rw [runnable] at impossible
      cases impossible
  · have notTaken : thread ∉ condition.queue.take limit := by
      intro member
      have queued := (orderly.queued thread).mp (List.mem_of_mem_take member)
      rw [limbo] at queued
      cases queued
    have still : (condition.notify limit).phase thread = .limbo oldEpoch := by
      rw [notify_phase, if_neg notTaken, limbo]
    have older := orderly.older (by omega) thread oldEpoch limbo
    have epoch := orderly.epoch
    rw [Nat.mod_eq_of_lt (by omega)] at epoch
    refine Signalled.roused orderlyAfter ⟨Nat.le_refl _, ?_, ?_⟩ (.inr ⟨oldEpoch, still⟩)
    · intro _ _
      rw [still]
      exact WaitPhase.noConfusion
    · intro _ _ old is_
      rw [still] at is_
      cases is_
      change oldEpoch < (condition.epoch + 1) % 2 ^ 64
      rw [Nat.mod_eq_of_lt (by omega)]
      omega

/-- When nobody is left in the queue, no thread is queued on account of a wait that it has
begun before. -/
theorem notify_empties (orderly : condition.Orderly) {limit : Nat}
    (few : condition.notifies + 1 < 2 ^ 64) (all : condition.queue.length ≤ limit)
    (thread : Thread) {later : Condition Thread}
    (reached : (machine Thread).Reached (condition.notify limit) later)
    (fewLater : later.notifies < 2 ^ 64) (this_ : later.waits thread = condition.waits thread) :
    thread ∉ later.queue := by
  by_cases waiting : condition.Waits thread
  · have roused := notify_rouses orderly limit few waiting (by
      intro queued
      rw [List.take_of_length_le all]
      exact (orderly.queued thread).mpr queued)
    exact (roused.always later reached fewLater this_).1
  · have notTaken : thread ∉ condition.queue.take limit := by
      intro member
      exact waiting (.inl ((orderly.queued thread).mp (List.mem_of_mem_take member)))
    have still : (condition.notify limit).phase thread = condition.phase thread := by
      rw [notify_phase, if_neg notTaken]
    have orderlyAfter := notify_orderly orderly limit
    have signalled : Signalled thread (condition.waits thread) (condition.notify limit) := by
      refine ⟨Nat.le_refl _, ?_, ?_⟩
      · intro _ _ queued
        exact waiting (.inl (still ▸ queued))
      · intro _ _ old limbo
        exact absurd (.inr ⟨old, still ▸ limbo⟩) waiting
    rw [(reached_orderly orderlyAfter reached).queued]
    exact (reached_signalled orderlyAfter reached signalled).notQueued fewLater this_

/-- As many are roused as the limit says, or all. -/
theorem notify_rouses_many [Finite Thread] (orderly : condition.Orderly) (limit : Nat)
    (few : condition.notifies + 1 < 2 ^ 64) :
    min limit (Set.ncard {thread | condition.Waits thread}) ≤
      Set.ncard {thread | condition.Waits thread ∧
        Roused (condition.notify limit) thread (condition.waits thread)} := by
  by_cases all : condition.queue.length ≤ limit
  · apply Nat.le_trans (Nat.min_le_right _ _)
    apply Set.ncard_le_ncard _ (Set.toFinite _)
    intro thread waiting
    refine ⟨waiting, notify_rouses orderly limit few waiting ?_⟩
    intro queued
    rw [List.take_of_length_le all]
    exact (orderly.queued thread).mpr queued
  · have length : (condition.queue.take limit).length = limit := by
      rw [List.length_take]
      omega
    have once := orderly.once.sublist (List.take_sublist limit condition.queue)
    have taken : Set.ncard ((condition.queue.take limit).toFinset : Set Thread) = limit := by
      rw [Set.ncard_coe_finset, List.toFinset_card_of_nodup once, length]
    refine Nat.le_trans (Nat.min_le_left _ _) (Nat.le_trans (Nat.le_of_eq taken.symm) ?_)
    apply Set.ncard_le_ncard _ (Set.toFinite _)
    intro thread member
    have first := List.mem_toFinset.mp (Finset.mem_coe.mp member)
    have queued := (orderly.queued thread).mp (List.mem_of_mem_take first)
    exact ⟨.inl queued, notify_rouses orderly limit few (.inl queued) fun _ => first⟩

end Condition

/-- A thread is known by the address of its TCB. -/
abbrev Tcb := Fin (2 ^ 32)

namespace Condition

/-- While `notify` is called fewer than 2^64 times: it rouses as many of the threads that
wait as its limit says, or all of them; and after `notifyAll` no thread is in the queue on
account of a wait that it began before. -/
theorem no_missed_signal {condition after : Condition Tcb} {me : Tcb} {limit : Nat}
    (reached : (machine Tcb).Reached new condition)
    (stepped : (machine Tcb).step condition (.notify me limit) = some after)
    (few : after.notifies < 2 ^ 64) :
    min limit (Set.ncard {thread | condition.Waits thread}) ≤
        Set.ncard {thread | condition.Waits thread ∧
          Roused after thread (condition.waits thread)} ∧
      (limit = 2 ^ 64 - 1 → ∀ thread later, (machine Tcb).Reached after later →
        later.notifies < 2 ^ 64 → later.waits thread = condition.waits thread →
          thread ∉ later.queue) := by
  have orderly := reached_orderly new_orderly reached
  cases stepped
  refine ⟨notify_rouses_many orderly limit few, ?_⟩
  intro isAll thread later reachedLater fewLater this_
  refine notify_empties orderly few ?_ thread reachedLater fewLater this_
  have length := orderly.once.length_le_card
  rw [Fintype.card_fin] at length
  omega

/-- A thread is in limbo, and another one has the lock and has notified so many times. -/
def inLimbo (notifies : Nat) : Condition Tcb where
  taken := some 1
  epoch := notifies % 2 ^ 64
  queue := []
  phase := update (fun _ => .outside) 0 (.limbo 0)
  waits := update (fun _ => 0) 0 1
  notifies := notifies

theorem inLimbo_reached : (machine Tcb).Reached new (inLimbo 0) :=
  ⟨[.lock 0, .wait 0, .lock 1], by decide, rfl⟩

theorem inLimbo_notify (notifies limit : Nat) :
    (inLimbo notifies).notify limit = inLimbo (notifies + 1) := by
  simp [notify, inLimbo, wakeUp]

theorem inLimbo_often (first more : Nat) :
    (machine Tcb).Reached (inLimbo first) (inLimbo (first + more)) := by
  induction more with
  | zero => exact .refl _ _
  | succ more ih =>
      have permitted : (machine Tcb).allowed (inLimbo (first + more)) (.notify 1 0) :=
        ⟨rfl, Nat.two_pow_pos 64⟩
      have stepped : (machine Tcb).step (inLimbo (first + more)) (.notify 1 0) =
          some (inLimbo (first + (more + 1))) := congrArg some (inLimbo_notify (first + more) 0)
      exact ih.trans (.cons permitted stepped (.refl _ _))

/-- When the epoch is back where it was, the handler puts the thread in the queue. -/
theorem inLimbo_handle {notifies : Nat} (back : notifies % 2 ^ 64 = 0) :
    (inLimbo notifies).unlock.handle 0 =
      some { (inLimbo notifies).unlock.setPhase 0 .queued with queue := [0] } := by
  have limbo : (inLimbo notifies).unlock.phase 0 = .limbo 0 := by
    change update (fun _ => WaitPhase.outside) 0 (.limbo 0) 0 = _
    rw [update_self]
  have epoch : (inLimbo notifies).unlock.epoch = 0 := back
  unfold handle
  rw [limbo]
  simp only [epoch, if_true]
  rfl

/-- With 2^64 notifications while it is in limbo, a thread is queued after all. -/
theorem signal_lost :
    ∃ condition after later : Condition Tcb, ∃ thread : Tcb,
      (machine Tcb).Reached new condition ∧
      (machine Tcb).step condition (.notify 1 (2 ^ 64 - 1)) = some after ∧
      condition.Waits thread ∧ (machine Tcb).Reached after later ∧
      later.waits thread = condition.waits thread ∧ thread ∈ later.queue := by
  have often := inLimbo_often 1 (2 ^ 64 - 1)
  rw [Nat.add_sub_of_le Nat.one_le_two_pow] at often
  have notified : (machine Tcb).step (inLimbo 0) (.notify 1 (2 ^ 64 - 1)) = some (inLimbo 1) :=
    congrArg some (inLimbo_notify 0 (2 ^ 64 - 1))
  have mine : (machine Tcb).allowed (inLimbo (2 ^ 64)) (.unlock 1) := rfl
  have unlocked : (machine Tcb).step (inLimbo (2 ^ 64)) (.unlock 1) =
      some (inLimbo (2 ^ 64)).unlock := rfl
  have handled : (machine Tcb).step (inLimbo (2 ^ 64)).unlock (.handle 0) = some _ :=
    inLimbo_handle (Nat.mod_self (2 ^ 64))
  have queues := Reached.cons trivial handled (.refl _ _)
  exact ⟨inLimbo 0, inLimbo 1, _, 0, inLimbo_reached, notified, .inr ⟨0, rfl⟩,
    often.trans (.cons mine unlocked queues), rfl, List.mem_singleton_self 0⟩

/-- One thread is in the queue and one in limbo. -/
def twoWait : List (Action Tcb) :=
  [.lock 0, .wait 0, .handle 0, .lock 1, .wait 1, .lock 2]

theorem no_missed_signal_sample :
    ∃ condition, (machine Tcb).run new twoWait = some condition ∧ condition.queue = [0] ∧
      min 1 (Set.ncard {thread | condition.Waits thread}) ≤
        Set.ncard {thread | condition.Waits thread ∧
          Roused condition.notifyOne thread (condition.waits thread)} := by
  have ran : ((machine Tcb).run new twoWait).map (fun condition =>
      (condition.queue, condition.notifies)) = some ([0], 0) := by decide
  obtain ⟨condition, final, facts⟩ := Option.map_eq_some_iff.mp ran
  obtain ⟨queue, none_⟩ := Prod.mk.inj facts
  have lawful : (machine Tcb).Lawful new twoWait := by decide
  have few : condition.notifyOne.notifies < 2 ^ 64 := by
    change condition.notifies + 1 < 2 ^ 64
    omega
  have stepped : (machine Tcb).step condition (.notify 2 1) = some condition.notifyOne := rfl
  exact ⟨condition, final, queue, (no_missed_signal ⟨twoWait, lawful, final⟩ stepped few).1⟩

end Condition

end AC97Kernel.Sync
