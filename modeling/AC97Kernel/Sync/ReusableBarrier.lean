/-
The reusable barrier of kernel/barrier.h.

What `sync` does while it has the lock is one step: up to its first `wait`, or from
the end of a `wait` to the next one or to the end.  A thread may also be woken
falsely.  `entered` and `returned` are no fields: they count the calls.
-/

import AC97Kernel.Sync.Condition

set_option autoImplicit false

namespace AC97Kernel.Sync

open Function StepMachine

/-- `t` is the local variable of `sync`. -/
structure ReusableBarrier (Thread : Type) where
  newEpoch : Condition Thread
  count : Nat
  epoch : Nat
  t : Thread → Nat
  entered : Thread → Nat
  returned : Thread → Nat

namespace ReusableBarrier

variable {Thread : Type} [DecidableEq Thread]

def new (initialCount : Nat) : ReusableBarrier Thread where
  newEpoch := .new
  count := initialCount
  epoch := 0
  t _ := 0
  entered _ := 0
  returned _ := 0

def leave (barrier : ReusableBarrier Thread) (me : Thread) : ReusableBarrier Thread :=
  { barrier with
    newEpoch := barrier.newEpoch.unlock
    returned := update barrier.returned me (barrier.returned me + 1) }

/-- The loop of `sync` up to the next `wait`, or to the end. -/
def loop (barrier : ReusableBarrier Thread) (me : Thread) : ReusableBarrier Thread :=
  if barrier.epoch ≤ barrier.t me then { barrier with newEpoch := barrier.newEpoch.wait me }
  else barrier.leave me

/-- The thread has taken one from the count, which is not 0. -/
def take (barrier : ReusableBarrier Thread) (me : Thread) : ReusableBarrier Thread :=
  { barrier with
    count := barrier.count - 1
    t := update barrier.t me barrier.epoch
    entered := update barrier.entered me (barrier.entered me + 1) }

/-- The last thread of a round opens the next one. -/
def openNext (barrier : ReusableBarrier Thread) (initialCount : Nat) : ReusableBarrier Thread :=
  { barrier with
    newEpoch := barrier.newEpoch.notifyAll
    count := initialCount
    epoch := (barrier.epoch + 1) % 2 ^ 64 }

/-- `sync` up to its first `wait`, or to the end. -/
def enter (barrier : ReusableBarrier Thread) (initialCount : Nat) (me : Thread) :
    Option (ReusableBarrier Thread) :=
  match barrier.newEpoch.lock me with
  | none => none
  | some newEpoch =>
      if barrier.count = 0 then none
      else
        let locked := { barrier with newEpoch := newEpoch }
        if (locked.take me).count = 0 then
          some (((locked.take me).openNext initialCount).leave me)
        else some ((locked.take me).loop me)

inductive Action (Thread : Type) where
  | enter (me : Thread)
  | handle (me : Thread)
  | wakeFalsely (me : Thread)
  | comeBack (me : Thread)

/-- A thread calls `sync` when it is not in it. -/
def machine (Thread : Type) [DecidableEq Thread] (initialCount : Nat) :
    StepMachine (ReusableBarrier Thread) (Action Thread) where
  allowed barrier
    | .enter me => barrier.newEpoch.phase me = .outside
    | _ => True
  step barrier
    | .enter me => barrier.enter initialCount me
    | .handle me =>
        (barrier.newEpoch.handle me).map fun newEpoch => { barrier with newEpoch := newEpoch }
    | .wakeFalsely me =>
        (barrier.newEpoch.wakeFalsely me).map fun newEpoch => { barrier with newEpoch := newEpoch }
    | .comeBack me =>
        (barrier.newEpoch.comeBack me).map fun newEpoch =>
          loop { barrier with newEpoch := newEpoch } me

instance instDecidableAllowed (initialCount : Nat) (barrier : ReusableBarrier Thread)
    (action : Action Thread) : Decidable ((machine Thread initialCount).allowed barrier action) :=
  match action with
  | .enter _ => inferInstanceAs (Decidable (_ = _))
  | .handle _ => inferInstanceAs (Decidable True)
  | .wakeFalsely _ => inferInstanceAs (Decidable True)
  | .comeBack _ => inferInstanceAs (Decidable True)

variable {barrier after : ReusableBarrier Thread} {me : Thread} {newEpoch : Condition Thread}

/-- A thread enters with the lock free and the count not 0, and is the last one or waits. -/
theorem enter_cases {initialCount : Nat} (entered : barrier.enter initialCount me = some after) :
    barrier.newEpoch.taken = none ∧ barrier.count ≠ 0 ∧
      ((barrier.count = 1 ∧ after =
        ((take { barrier with newEpoch := { barrier.newEpoch with taken := some me } } me).openNext
          initialCount).leave me) ∨
      (1 < barrier.count ∧ after =
        { barrier.take me with
          newEpoch := Condition.wait { barrier.newEpoch with taken := some me } me })) := by
  unfold enter Condition.lock at entered
  by_cases free : barrier.newEpoch.taken = none
  · simp only [if_pos free] at entered
    split at entered
    · cases entered
    · rename_i some_
      refine ⟨free, some_, ?_⟩
      split at entered
      · rename_i last
        change barrier.count - 1 = 0 at last
        cases entered
        exact .inl ⟨by omega, rfl⟩
      · rename_i notLast
        change barrier.count - 1 ≠ 0 at notLast
        refine .inr ⟨by omega, ?_⟩
        cases entered
        unfold loop
        rw [if_pos]
        · rfl
        · exact Nat.le_of_eq (update_self me barrier.epoch barrier.t).symm
  · simp only [if_neg free] at entered
    cases entered

variable [Fintype Thread]

/-- The threads that have not entered the round yet. -/
def missing (barrier : ReusableBarrier Thread) : Finset Thread :=
  Finset.univ.filter fun thread => barrier.entered thread = barrier.newEpoch.notifies

/-- The invariant while no epoch comes twice.  The rounds are counted by `notifies`. -/
structure Rounds (barrier : ReusableBarrier Thread) : Prop where
  count : barrier.count = barrier.missing.card
  positive : 0 < barrier.count
  outside : ∀ thread, barrier.newEpoch.phase thread = .outside →
    barrier.entered thread = barrier.newEpoch.notifies ∧
      barrier.returned thread = barrier.newEpoch.notifies
  inside : ∀ thread, barrier.newEpoch.phase thread ≠ .outside →
    barrier.entered thread = barrier.t thread + 1 ∧
      barrier.returned thread = barrier.t thread ∧
      (barrier.t thread = barrier.newEpoch.notifies ∨
        barrier.t thread + 1 = barrier.newEpoch.notifies)
  limbo : ∀ thread oldEpoch, barrier.newEpoch.phase thread = .limbo oldEpoch →
    oldEpoch = barrier.t thread
  queued : ∀ thread, barrier.newEpoch.phase thread = .queued →
    barrier.t thread = barrier.newEpoch.notifies

structure Sound (barrier : ReusableBarrier Thread) : Prop where
  orderly : barrier.newEpoch.Orderly
  free : barrier.newEpoch.taken = none
  epoch : barrier.epoch = barrier.newEpoch.epoch
  rounds : barrier.newEpoch.notifies < 2 ^ 64 → barrier.Rounds

omit [DecidableEq Thread] in
theorem new_sound (some_ : 1 ≤ Fintype.card Thread) :
    (new (Fintype.card Thread) : ReusableBarrier Thread).Sound where
  orderly := Condition.new_orderly
  free := rfl
  epoch := rfl
  rounds _ :=
    { count := by
        have all : (new (Fintype.card Thread) : ReusableBarrier Thread).missing = Finset.univ :=
          Finset.filter_true_of_mem fun _ _ => rfl
        rw [all]
        rfl
      positive := some_
      outside := fun _ _ => ⟨rfl, rfl⟩
      inside := fun _ impossible => absurd rfl impossible
      limbo := fun _ _ impossible => by cases impossible
      queued := fun _ impossible => by cases impossible }

omit [DecidableEq Thread] in
theorem Sound.epoch_eq (sound : barrier.Sound) (few : barrier.newEpoch.notifies < 2 ^ 64) :
    barrier.newEpoch.epoch = barrier.newEpoch.notifies := by
  rw [sound.orderly.epoch, Nat.mod_eq_of_lt few]

/-- A thread goes from one part of `wait` to another. -/
theorem Rounds.rephase (rounds : barrier.Rounds) {phase : WaitPhase}
    (notifies : newEpoch.notifies = barrier.newEpoch.notifies)
    (moved : newEpoch.phase = update barrier.newEpoch.phase me phase)
    (before : barrier.newEpoch.phase me ≠ .outside) (now : phase ≠ .outside)
    (limbo : ∀ oldEpoch, phase = .limbo oldEpoch → oldEpoch = barrier.t me)
    (queued : phase = .queued → barrier.t me = barrier.newEpoch.notifies) :
    Rounds { barrier with newEpoch := newEpoch } where
  count := by
    have same : missing { barrier with newEpoch := newEpoch } = barrier.missing := by
      unfold missing
      rw [notifies]
    rw [same]
    exact rounds.count
  positive := rounds.positive
  outside := by
    intro thread is_
    change newEpoch.phase thread = .outside at is_
    rw [moved] at is_
    rw [notifies]
    by_cases same : thread = me
    · subst same
      rw [update_self] at is_
      exact absurd is_ now
    · rw [update_of_ne same] at is_
      exact rounds.outside thread is_
  inside := by
    intro thread is_
    change newEpoch.phase thread ≠ .outside at is_
    rw [moved] at is_
    rw [notifies]
    by_cases same : thread = me
    · subst same
      exact rounds.inside thread before
    · rw [update_of_ne same] at is_
      exact rounds.inside thread is_
  limbo := by
    intro thread oldEpoch is_
    change newEpoch.phase thread = .limbo oldEpoch at is_
    rw [moved] at is_
    by_cases same : thread = me
    · subst same
      rw [update_self] at is_
      exact limbo oldEpoch is_
    · rw [update_of_ne same] at is_
      exact rounds.limbo thread oldEpoch is_
  queued := by
    intro thread is_
    change newEpoch.phase thread = .queued at is_
    rw [moved] at is_
    rw [notifies]
    by_cases same : thread = me
    · subst same
      rw [update_self] at is_
      exact queued is_
    · rw [update_of_ne same] at is_
      exact rounds.queued thread is_

theorem handle_sound (sound : barrier.Sound)
    (handled : barrier.newEpoch.handle me = some newEpoch) :
    Sound { barrier with newEpoch := newEpoch } := by
  have orderly := Condition.handle_orderly sound.orderly handled
  obtain ⟨oldEpoch, limbo, free, ⟨unchanged, same⟩ | ⟨_, same⟩⟩ :=
    Condition.handle_cases handled
  · subst same
    refine ⟨orderly, free, sound.epoch, fun few => ?_⟩
    have rounds := sound.rounds few
    refine rounds.rephase rfl rfl ?_ ?_ ?_ ?_
    · rw [limbo]
      exact WaitPhase.noConfusion
    · exact WaitPhase.noConfusion
    · intro _ impossible
      cases impossible
    · intro _
      rw [← rounds.limbo me oldEpoch limbo, ← unchanged]
      exact sound.epoch_eq few
  · subst same
    refine ⟨orderly, free, sound.epoch, fun few => ?_⟩
    refine (sound.rounds few).rephase rfl rfl ?_ ?_ ?_ ?_
    · rw [limbo]
      exact WaitPhase.noConfusion
    · exact WaitPhase.noConfusion
    · intro _ impossible
      cases impossible
    · intro impossible
      cases impossible

theorem wakeFalsely_sound (sound : barrier.Sound)
    (woken : barrier.newEpoch.wakeFalsely me = some newEpoch) :
    Sound { barrier with newEpoch := newEpoch } := by
  have orderly := Condition.wakeFalsely_orderly sound.orderly woken
  unfold Condition.wakeFalsely at woken
  split at woken
  · rename_i queued
    cases woken
    refine ⟨orderly, sound.free, sound.epoch, fun few => ?_⟩
    refine (sound.rounds few).rephase rfl rfl ?_ ?_ ?_ ?_
    · rw [queued]
      exact WaitPhase.noConfusion
    · exact WaitPhase.noConfusion
    · intro _ impossible
      cases impossible
    · intro impossible
      cases impossible
  · cases woken

/-- A thread whose round is over leaves. -/
theorem Rounds.leave (rounds : barrier.Rounds) (phase : barrier.newEpoch.phase me ≠ .outside)
    (ended : barrier.t me + 1 = barrier.newEpoch.notifies)
    (notifies : newEpoch.notifies = barrier.newEpoch.notifies)
    (moved : newEpoch.phase = update barrier.newEpoch.phase me .outside) :
    Rounds (ReusableBarrier.leave { barrier with newEpoch := newEpoch } me) where
  count := by
    have same : missing (ReusableBarrier.leave { barrier with newEpoch := newEpoch } me) =
        barrier.missing := by
      unfold missing
      change (Finset.univ.filter fun thread => barrier.entered thread = newEpoch.notifies) = _
      rw [notifies]
    rw [same]
    exact rounds.count
  positive := rounds.positive
  outside := by
    intro thread is_
    change newEpoch.phase thread = .outside at is_
    change barrier.entered thread = newEpoch.notifies ∧
      update barrier.returned me (barrier.returned me + 1) thread = newEpoch.notifies
    rw [moved] at is_
    rw [notifies]
    by_cases same : thread = me
    · subst same
      obtain ⟨entered, returned, _⟩ := rounds.inside thread phase
      rw [update_self, entered, returned]
      exact ⟨ended, ended⟩
    · rw [update_of_ne same] at is_ ⊢
      exact rounds.outside thread is_
  inside := by
    intro thread is_
    change newEpoch.phase thread ≠ .outside at is_
    change _ ∧ update barrier.returned me (barrier.returned me + 1) thread = barrier.t thread ∧
      (barrier.t thread = newEpoch.notifies ∨ barrier.t thread + 1 = newEpoch.notifies)
    rw [moved] at is_
    rw [notifies]
    by_cases same : thread = me
    · subst same
      rw [update_self] at is_
      exact absurd rfl is_
    · rw [update_of_ne same] at is_ ⊢
      exact rounds.inside thread is_
  limbo := by
    intro thread oldEpoch is_
    change newEpoch.phase thread = .limbo oldEpoch at is_
    rw [moved] at is_
    by_cases same : thread = me
    · subst same
      rw [update_self] at is_
      cases is_
    · rw [update_of_ne same] at is_
      exact rounds.limbo thread oldEpoch is_
  queued := by
    intro thread is_
    change newEpoch.phase thread = .queued at is_
    change barrier.t thread = newEpoch.notifies
    rw [moved] at is_
    rw [notifies]
    by_cases same : thread = me
    · subst same
      rw [update_self] at is_
      cases is_
    · rw [update_of_ne same] at is_
      exact rounds.queued thread is_

theorem comeBack_sound (sound : barrier.Sound)
    (back : barrier.newEpoch.comeBack me = some newEpoch) :
    Sound (loop { barrier with newEpoch := newEpoch } me) := by
  have orderly := Condition.comeBack_orderly sound.orderly back
  obtain ⟨runnable, free, same⟩ := Condition.comeBack_cases back
  subst same
  have inside : barrier.newEpoch.phase me ≠ .outside := by
    rw [runnable]
    exact WaitPhase.noConfusion
  unfold loop
  split
  · rename_i early
    change barrier.epoch ≤ barrier.t me at early
    refine ⟨Condition.wait_orderly orderly rfl, rfl, sound.epoch, fun few => ?_⟩
    have rounds := sound.rounds few
    have epoch := sound.epoch_eq few
    have same : barrier.t me = barrier.newEpoch.epoch := by
      have law := (rounds.inside me inside).2.2
      have agree := sound.epoch
      omega
    refine rounds.rephase rfl (update_idem _ _ _) inside WaitPhase.noConfusion ?_ ?_
    · intro oldEpoch limbo
      cases limbo
      exact same.symm
    · intro impossible
      cases impossible
  · rename_i late
    change ¬ barrier.epoch ≤ barrier.t me at late
    refine ⟨Condition.unlock_orderly orderly, rfl, sound.epoch, fun few => ?_⟩
    have rounds := sound.rounds few
    have epoch := sound.epoch_eq few
    have ended : barrier.t me + 1 = barrier.newEpoch.notifies := by
      have law := (rounds.inside me inside).2.2
      have agree := sound.epoch
      omega
    exact rounds.leave inside ended rfl rfl

omit [DecidableEq Thread] in
/-- The only thread that is missing is the last one. -/
theorem Rounds.others_entered (rounds : barrier.Rounds)
    (outside : barrier.newEpoch.phase me = .outside) (last : barrier.count = 1)
    {thread : Thread} (other : thread ≠ me) :
    barrier.newEpoch.phase thread ≠ .outside ∧
      barrier.t thread = barrier.newEpoch.notifies := by
  have single : barrier.missing.card ≤ 1 := by
    rw [← rounds.count, last]
  have mine : me ∈ barrier.missing :=
    Finset.mem_filter.mpr ⟨Finset.mem_univ _, (rounds.outside me outside).1⟩
  have notMissing : barrier.entered thread ≠ barrier.newEpoch.notifies := by
    intro same
    exact other (Finset.card_le_one.mp single thread
      (Finset.mem_filter.mpr ⟨Finset.mem_univ _, same⟩) me mine)
  have inside : barrier.newEpoch.phase thread ≠ .outside :=
    fun is_ => notMissing (rounds.outside thread is_).1
  obtain ⟨entered, _, law⟩ := rounds.inside thread inside
  exact ⟨inside, by omega⟩

/-- The next round begins with nobody in it and nobody in the queue. -/
theorem Rounds.openNext (rounds : barrier.Rounds) (orderly : barrier.newEpoch.Orderly)
    (few : barrier.newEpoch.queue.length < 2 ^ 64)
    (outside : barrier.newEpoch.phase me = .outside) (last : barrier.count = 1) :
    Rounds (((take { barrier with newEpoch := { barrier.newEpoch with taken := some me } }
      me).openNext (Fintype.card Thread)).leave me) := by
  have entered (thread : Thread) : update barrier.entered me (barrier.entered me + 1) thread =
      barrier.newEpoch.notifies + 1 := by
    by_cases same : thread = me
    · subst same
      rw [update_self, (rounds.outside thread outside).1]
    · obtain ⟨inside, remembered⟩ := rounds.others_entered outside last same
      rw [update_of_ne same, (rounds.inside thread inside).1, remembered]
  have awake (thread : Thread) :
      ({ barrier.newEpoch with taken := some me } : Condition Thread).notifyAll.phase thread =
        if thread ∈ barrier.newEpoch.queue then .runnable else barrier.newEpoch.phase thread := by
    unfold Condition.notifyAll
    rw [Condition.notify_phase, List.take_of_length_le (Nat.le_sub_one_of_lt few)]
  constructor
  · have all : missing (((take { barrier with newEpoch := { barrier.newEpoch with
        taken := some me } } me).openNext (Fintype.card Thread)).leave me) = Finset.univ :=
      Finset.filter_true_of_mem fun thread _ => entered thread
    rw [all]
    rfl
  · exact Fintype.card_pos_iff.mpr ⟨me⟩
  · intro thread is_
    refine ⟨entered thread, ?_⟩
    change update barrier.returned me (barrier.returned me + 1) thread =
      barrier.newEpoch.notifies + 1
    by_cases same : thread = me
    · subst same
      rw [update_self, (rounds.outside thread outside).2]
    · have inside := (rounds.others_entered outside last same).1
      have awoken := (awake thread).symm.trans is_
      split at awoken
      · cases awoken
      · exact absurd awoken inside
  · intro thread is_
    have other : thread ≠ me := by
      intro same
      have notQueued : me ∉ barrier.newEpoch.queue := by
        rw [orderly.queued, outside]
        exact WaitPhase.noConfusion
      apply is_
      apply (awake thread).trans
      rw [same, if_neg notQueued, outside]
    obtain ⟨inside, remembered⟩ := rounds.others_entered outside last other
    have stays : update barrier.t me barrier.epoch thread = barrier.t thread :=
      update_of_ne other _ _
    change update barrier.entered me (barrier.entered me + 1) thread =
        update barrier.t me barrier.epoch thread + 1 ∧
      update barrier.returned me (barrier.returned me + 1) thread =
        update barrier.t me barrier.epoch thread ∧
      (update barrier.t me barrier.epoch thread = barrier.newEpoch.notifies + 1 ∨
        update barrier.t me barrier.epoch thread + 1 = barrier.newEpoch.notifies + 1)
    rw [entered, stays, remembered, update_of_ne other, (rounds.inside thread inside).2.1,
      remembered]
    exact ⟨rfl, rfl, .inr rfl⟩
  · intro thread oldEpoch is_
    have awoken := (awake thread).symm.trans is_
    split at awoken
    · cases awoken
    · change oldEpoch = update barrier.t me barrier.epoch thread
      rw [update_of_ne]
      · exact rounds.limbo thread oldEpoch awoken
      · intro same
        rw [same, outside] at awoken
        cases awoken
  · intro thread is_
    have awoken := (awake thread).symm.trans is_
    split at awoken
    · cases awoken
    · rename_i notQueued
      exact absurd ((orderly.queued thread).mpr awoken) notQueued

/-- A thread that is not the last one is missing no more, and waits. -/
theorem Rounds.join (rounds : barrier.Rounds) (epoch : barrier.epoch = barrier.newEpoch.notifies)
    (same : barrier.newEpoch.epoch = barrier.epoch)
    (outside : barrier.newEpoch.phase me = .outside) (notLast : 1 < barrier.count) :
    Rounds { barrier.take me with
      newEpoch := Condition.wait { barrier.newEpoch with taken := some me } me } := by
  obtain ⟨entered, returned⟩ := rounds.outside me outside
  constructor
  · have fewer : missing { barrier.take me with
        newEpoch := Condition.wait { barrier.newEpoch with taken := some me } me } =
          barrier.missing.erase me := by
      ext thread
      unfold missing
      rw [Finset.mem_filter, Finset.mem_erase, Finset.mem_filter]
      change _ ∧ update barrier.entered me (barrier.entered me + 1) thread =
        barrier.newEpoch.notifies ↔ _
      by_cases isMe : thread = me
      · subst isMe
        rw [update_self, entered]
        exact iff_of_false (fun both => Nat.succ_ne_self _ both.2) (fun both => both.1 rfl)
      · rw [update_of_ne isMe]
        exact (and_iff_right isMe).symm
    have mine : me ∈ barrier.missing := Finset.mem_filter.mpr ⟨Finset.mem_univ _, entered⟩
    rw [fewer, Finset.card_erase_of_mem mine, ← rounds.count]
    rfl
  · change 0 < barrier.count - 1
    omega
  · intro thread is_
    change update barrier.newEpoch.phase me _ thread = .outside at is_
    change update barrier.entered me (barrier.entered me + 1) thread = barrier.newEpoch.notifies ∧
      barrier.returned thread = barrier.newEpoch.notifies
    by_cases isMe : thread = me
    · subst isMe
      rw [update_self] at is_
      cases is_
    · rw [update_of_ne isMe] at is_ ⊢
      exact rounds.outside thread is_
  · intro thread is_
    change update barrier.newEpoch.phase me _ thread ≠ .outside at is_
    change update barrier.entered me (barrier.entered me + 1) thread =
        update barrier.t me barrier.epoch thread + 1 ∧
      barrier.returned thread = update barrier.t me barrier.epoch thread ∧
      (update barrier.t me barrier.epoch thread = barrier.newEpoch.notifies ∨
        update barrier.t me barrier.epoch thread + 1 = barrier.newEpoch.notifies)
    by_cases isMe : thread = me
    · subst isMe
      rw [update_self, update_self, entered, returned, epoch]
      exact ⟨rfl, rfl, .inl rfl⟩
    · rw [update_of_ne isMe] at is_
      rw [update_of_ne isMe, update_of_ne isMe]
      exact rounds.inside thread is_
  · intro thread oldEpoch is_
    change update barrier.newEpoch.phase me (.limbo barrier.newEpoch.epoch) thread =
      .limbo oldEpoch at is_
    change oldEpoch = update barrier.t me barrier.epoch thread
    by_cases isMe : thread = me
    · subst isMe
      rw [update_self] at is_ ⊢
      cases is_
      exact same
    · rw [update_of_ne isMe] at is_ ⊢
      exact rounds.limbo thread oldEpoch is_
  · intro thread is_
    change update barrier.newEpoch.phase me _ thread = .queued at is_
    change update barrier.t me barrier.epoch thread = barrier.newEpoch.notifies
    by_cases isMe : thread = me
    · subst isMe
      rw [update_self] at is_
      cases is_
    · rw [update_of_ne isMe] at is_ ⊢
      exact rounds.queued thread is_

theorem enter_sound (sound : barrier.Sound) (word : Fintype.card Thread < 2 ^ 32)
    (outside : barrier.newEpoch.phase me = .outside)
    (entered : barrier.enter (Fintype.card Thread) me = some after) : after.Sound := by
  obtain ⟨free, _, ⟨last, same⟩ | ⟨notLast, same⟩⟩ := enter_cases entered
  · have locked := Condition.lock_orderly sound.orderly outside (if_pos free)
    subst same
    refine ⟨Condition.unlock_orderly (Condition.notify_orderly locked _), rfl, ?_, fun few => ?_⟩
    · change (barrier.epoch + 1) % 2 ^ 64 = (barrier.newEpoch.epoch + 1) % 2 ^ 64
      rw [sound.epoch]
    · change barrier.newEpoch.notifies + 1 < 2 ^ 64 at few
      have length := sound.orderly.once.length_le_card
      exact (sound.rounds (by omega)).openNext sound.orderly (by omega) outside last
  · have locked := Condition.lock_orderly sound.orderly outside (if_pos free)
    subst same
    refine ⟨Condition.wait_orderly locked rfl, rfl, sound.epoch, fun few => ?_⟩
    have epoch := sound.epoch_eq few
    exact (sound.rounds few).join (sound.epoch.trans epoch) sound.epoch.symm outside notLast

theorem step_sound (word : Fintype.card Thread < 2 ^ 32) {action : Action Thread}
    (sound : barrier.Sound)
    (permitted : (machine Thread (Fintype.card Thread)).allowed barrier action)
    (stepped : (machine Thread (Fintype.card Thread)).step barrier action = some after) :
    after.Sound := by
  cases action with
  | enter me => exact enter_sound sound word permitted stepped
  | handle me =>
      obtain ⟨newEpoch, handled, same⟩ := Option.map_eq_some_iff.mp stepped
      subst same
      exact handle_sound sound handled
  | wakeFalsely me =>
      obtain ⟨newEpoch, woken, same⟩ := Option.map_eq_some_iff.mp stepped
      subst same
      exact wakeFalsely_sound sound woken
  | comeBack me =>
      obtain ⟨newEpoch, back, same⟩ := Option.map_eq_some_iff.mp stepped
      subst same
      exact comeBack_sound sound back

theorem reached_sound (some_ : 1 ≤ Fintype.card Thread) (word : Fintype.card Thread < 2 ^ 32)
    (reached : (machine Thread (Fintype.card Thread)).Reached (new (Fintype.card Thread))
      barrier) : barrier.Sound :=
  reached.preserves Sound
    (fun _ _ _ sound permitted stepped => step_sound word sound permitted stepped)
    (new_sound some_)

/-- While fewer than 2^64 rounds are over: nobody has returned from a round that somebody
has not entered, the count is not 0 when a thread takes one from it, and nobody is in the
queue whose round all have entered. -/
theorem rounds_apart (some_ : 1 ≤ Fintype.card Thread) (word : Fintype.card Thread < 2 ^ 32)
    (reached : (machine Thread (Fintype.card Thread)).Reached (new (Fintype.card Thread)) barrier)
    (few : barrier.newEpoch.notifies < 2 ^ 64) :
    (∀ one other, barrier.returned one ≤ barrier.entered other) ∧ 0 < barrier.count ∧
      ∀ thread, (∀ other, barrier.entered thread ≤ barrier.entered other) →
        thread ∉ barrier.newEpoch.queue := by
  have sound := reached_sound some_ word reached
  have rounds := sound.rounds few
  refine ⟨?_, rounds.positive, ?_⟩
  · intro one other
    have most : barrier.returned one ≤ barrier.newEpoch.notifies := by
      by_cases outside : barrier.newEpoch.phase one = .outside
      · exact Nat.le_of_eq (rounds.outside one outside).2
      · have law := rounds.inside one outside
        omega
    have least : barrier.newEpoch.notifies ≤ barrier.entered other := by
      by_cases outside : barrier.newEpoch.phase other = .outside
      · exact Nat.le_of_eq (rounds.outside other outside).1.symm
      · have law := rounds.inside other outside
        omega
    exact Nat.le_trans most least
  · intro thread all queued
    have phase := (sound.orderly.queued thread).mp queued
    have remembered := rounds.queued thread phase
    have inside := rounds.inside thread (by rw [phase]; exact WaitPhase.noConfusion)
    have someone : 0 < barrier.missing.card := rounds.count ▸ rounds.positive
    obtain ⟨other, missing⟩ := Finset.card_pos.mp someone
    have entered := (Finset.mem_filter.mp missing).2
    have least := all other
    omega

/-- One thread waits, is woken falsely, and waits again; the other one has not entered. -/
theorem rounds_apart_sample :
    ∃ barrier, (machine Bool 2).run (new 2)
        [.enter true, .handle true, .enter false, .comeBack true, .enter false, .handle false,
          .wakeFalsely false, .comeBack false, .handle false] = some barrier ∧
      barrier.newEpoch.queue = [false] ∧
      (∀ one other, barrier.returned one ≤ barrier.entered other) ∧ 0 < barrier.count ∧
        ∀ thread, (∀ other, barrier.entered thread ≤ barrier.entered other) →
          thread ∉ barrier.newEpoch.queue := by
  have ran : ((machine Bool 2).run (new 2)
      [.enter true, .handle true, .enter false, .comeBack true, .enter false, .handle false,
        .wakeFalsely false, .comeBack false, .handle false]).map (fun barrier =>
      (barrier.newEpoch.queue, barrier.newEpoch.notifies)) = some ([false], 1) := by decide
  obtain ⟨barrier, final, facts⟩ := Option.map_eq_some_iff.mp ran
  obtain ⟨queue, one⟩ := Prod.mk.inj facts
  have few : barrier.newEpoch.notifies < 2 ^ 64 := by omega
  exact ⟨barrier, final, queue,
    rounds_apart (by decide) (by decide) ⟨_, by decide, final⟩ few⟩

/-- Two threads outside the barrier, after so many rounds. -/
def quiet (rounds epoch : Nat) (t waits : Bool → Nat) : ReusableBarrier Bool where
  newEpoch :=
    { taken := none
      epoch := epoch
      queue := []
      phase := fun _ => .outside
      waits := waits
      notifies := rounds }
  count := 2
  epoch := epoch
  t := t
  entered _ := rounds
  returned _ := rounds

/-- The second thread has opened the next round, and the first one was in the queue. -/
def opened (rounds epoch next : Nat) (waits : Bool → Nat) : ReusableBarrier Bool where
  newEpoch :=
    { taken := none
      epoch := next
      queue := []
      phase := update (fun _ => .outside) false .runnable
      waits := waits
      notifies := rounds + 1 }
  count := 2
  epoch := next
  t _ := epoch
  entered _ := rounds + 1
  returned := update (fun _ => rounds) true (rounds + 1)

theorem quiet_opens (rounds epoch : Nat) (t waits : Bool → Nat) :
    (machine Bool 2).Reached (quiet rounds epoch t waits)
      (opened rounds epoch ((epoch + 1) % 2 ^ 64) (update waits false (waits false + 1))) := by
  refine ⟨[.enter false, .handle false, .enter true], ?_, ?_⟩
  · simp [Lawful, machine, enter, quiet, Condition.lock, take, loop, Condition.wait,
      Condition.handle, Condition.setPhase, Condition.unlock]
  · simp [run, machine, enter, quiet, Condition.lock, take, loop, Condition.wait,
      Condition.handle, Condition.setPhase, Condition.unlock, openNext, leave,
      Condition.notifyAll, Condition.notify, Condition.wakeUp, opened]
    refine ⟨?_, ?_, ?_⟩ <;> funext thread <;> cases thread <;> rfl

theorem opened_ends (rounds : Nat) {epoch next : Nat} (later : epoch < next)
    (waits : Bool → Nat) :
    (machine Bool 2).Reached (opened rounds epoch next waits)
      (quiet (rounds + 1) next (fun _ => epoch) waits) := by
  refine ⟨[.comeBack false], ⟨trivial, fun _ _ => trivial⟩, ?_⟩
  simp [run, machine, quiet, Condition.comeBack, Condition.lock, loop, Condition.setPhase,
    Condition.unlock, leave, opened, Nat.not_le.mpr later]
  funext thread
  cases thread <;> rfl

/-- The first thread does not see that the next round is open, and waits again. -/
theorem opened_repeats (rounds epoch next : Nat) (earlier : next ≤ epoch)
    (waits : Bool → Nat) :
    ∃ final, (machine Bool 2).Reached (opened rounds epoch next waits) final ∧
      final.newEpoch.queue = [false] ∧ final.entered = fun _ => rounds + 1 := by
  have lawful : (machine Bool 2).Lawful (opened rounds epoch next waits)
      [.comeBack false, .handle false] := ⟨trivial, fun _ _ => ⟨trivial, fun _ _ => trivial⟩⟩
  have ran : ∃ final, (machine Bool 2).run (opened rounds epoch next waits)
      [.comeBack false, .handle false] = some final ∧ final.newEpoch.queue = [false] ∧
        final.entered = fun _ => rounds + 1 := by
    simp [run, machine, Condition.comeBack, Condition.lock, loop, Condition.setPhase,
      Condition.wait, Condition.handle, Condition.unlock, opened, earlier]
  obtain ⟨final, ran, queued⟩ := ran
  exact ⟨final, ⟨_, lawful, ran⟩, queued⟩

theorem quiet_reached (rounds : Nat) (few : rounds < 2 ^ 64) :
    ∃ t waits, (machine Bool 2).Reached (new 2) (quiet rounds rounds t waits) := by
  induction rounds with
  | zero => exact ⟨_, _, Reached.refl _ _⟩
  | succ rounds ih =>
      obtain ⟨t, waits, reached⟩ := ih (Nat.lt_of_succ_lt few)
      have opens := quiet_opens rounds rounds t waits
      rw [Nat.mod_eq_of_lt few] at opens
      exact ⟨_, _, (reached.trans opens).trans (opened_ends rounds (Nat.lt_succ_self rounds) _)⟩

/-- When 2^64 rounds are over, both threads have entered as often, and one of them is in the
queue. -/
theorem rounds_overlap : ∃ barrier : ReusableBarrier Bool,
    (machine Bool 2).Reached (new 2) barrier ∧ barrier.newEpoch.queue = [false] ∧
      ∀ one other, barrier.entered one = barrier.entered other := by
  obtain ⟨t, waits, reached⟩ := quiet_reached (2 ^ 64 - 1) (by omega)
  obtain ⟨final, repeats, queue, entered⟩ :=
    opened_repeats (2 ^ 64 - 1) (2 ^ 64 - 1) ((2 ^ 64 - 1 + 1) % 2 ^ 64) (by omega)
      (update waits false (waits false + 1))
  refine ⟨final, (reached.trans (quiet_opens _ _ t waits)).trans repeats, queue, ?_⟩
  intro one other
  rw [entered]

end ReusableBarrier

end AC97Kernel.Sync
