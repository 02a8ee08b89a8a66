/-
What a step of the scheduler can do, one constructor for each way it can go.

Invariants are proved by cases on these, and not on the branches of the source.
-/

import AC97Kernel.Threads.Model

set_option autoImplicit false

namespace AC97Kernel

/-- The queue that a handler adds the old thread to. -/
def Handler.target : Handler → QueueName
  | .yield => .ready
  | .stop => .zombies
  | .down sem => .waiting sem

namespace Threads

open Function

variable {Core : Type}

theorem whenOutside_some {threads after : Threads Core} {core : Core}
    {next : Option (Threads Core)}
    (stepped : threads.whenOutside core next = some after) :
    threads.phase core = .outside ∧ next = some after := by
  unfold whenOutside at stepped
  by_cases outside : threads.phase core = .outside
  · rw [if_pos outside] at stepped
    exact ⟨outside, stepped⟩
  · rw [if_neg outside] at stepped
    cases stepped

variable [DecidableEq Core]

/-- What the handler does besides. -/
def release (threads : Threads Core) : Handler → Threads Core
  | .down sem => threads.unlock sem
  | _ => threads

inductive Effect (threads : Threads Core) : Action Core → Threads Core → Prop where
  | spin {core : Core} {option : BlockOption} {handler : Handler} {me : Nat}
      (phase : threads.phase core = .entered option handler me)
      (nobody : (threads.remove .ready).1 = none) :
      Effect threads (.take core) threads
  | giveUp {core : Core} {handler : Handler} {me : Nat}
      (phase : threads.phase core = .entered .canReturn handler me)
      (nobody : (threads.remove .ready).1 = none) :
      Effect threads (.take core) (threads.setPhase core .outside)
  | choose {core : Core} {option : BlockOption} {handler : Handler} {me nextTcb : Nat}
      (phase : threads.phase core = .entered option handler me)
      (first : (threads.remove .ready).1 = some nextTcb) :
      Effect threads (.take core) ((threads.remove .ready).2.activate core handler me nextTcb)
  | idle {core : Core} {handler : Handler} {me : Nat}
      (phase : threads.phase core = .entered .mustBlock handler me)
      (user : threads.isIdle me = false) (nobody : (threads.remove .ready).1 = none) :
      Effect threads (.take core)
        (threads.activate core handler me (threads.idleThreads core))
  | switch {core : Core} {handler : Handler} {me : Nat}
      (phase : threads.phase core = .switching handler me) :
      Effect threads (.contextSwitch core) (threads.contextSwitch core handler me)
  | leave {core : Core} {handler : Handler} {me : Nat}
      (phase : threads.phase core = .handling handler me)
      (isIdle : threads.isIdle me = true)
      (noDown : ∀ sem, handler ≠ .down sem) :
      Effect threads (.handle core) (threads.setPhase core .outside)
  | enqueue {core : Core} {handler : Handler} {me : Nat}
      (phase : threads.phase core = .handling handler me)
      (user : threads.isIdle me = false) :
      Effect threads (.handle core)
        (((threads.add handler.target me).release handler).setPhase core .outside)
  | ignore {core : Core}
      (because : threads.phase core ≠ .outside ∨ threads.activeThreads core = 0 ∨
        threads.isIdle (threads.activeThreads core) = true ∨
          threads.noPreempt (threads.activeThreads core) ≠ 0) :
      Effect threads (.tick core) threads
  | preempt {core : Core} (outside : threads.phase core = .outside) :
      Effect threads (.tick core) (threads.enter core .canReturn .yield)
  | yield {core : Core} (outside : threads.phase core = .outside) :
      Effect threads (.yield core) (threads.enter core .canReturn .yield)
  | stop {core : Core} (outside : threads.phase core = .outside)
      (empty : threads.hands (threads.me core) = []) :
      Effect threads (.stop core) (threads.enter core .mustBlock .stop)
  | pass {core : Core} {sem : Nat} (outside : threads.phase core = .outside)
      (unlocked : (threads.sems sem).locked = false) (positive : 0 < (threads.sems sem).count) :
      Effect threads (.down core sem)
        (threads.setSem sem { count := (threads.sems sem).count - 1, locked := false })
  | block {core : Core} {sem : Nat} (outside : threads.phase core = .outside)
      (unlocked : (threads.sems sem).locked = false) (zero : (threads.sems sem).count = 0) :
      Effect threads (.down core sem)
        ((threads.lock sem).enter core .mustBlock (.down sem))
  | raise {core : Core} {sem : Nat} (outside : threads.phase core = .outside)
      (unlocked : (threads.sems sem).locked = false)
      (nobody : (threads.remove (.waiting sem)).1 = none) :
      Effect threads (.up core sem)
        (threads.setSem sem
          { count := ((threads.sems sem).count + 1) % 2 ^ 64, locked := false })
  | wake {core : Core} {sem t : Nat} (outside : threads.phase core = .outside)
      (unlocked : (threads.sems sem).locked = false)
      (first : (threads.remove (.waiting sem)).1 = some t) :
      Effect threads (.up core sem) ((threads.remove (.waiting sem)).2.hold core .woken t)
  | schedule {core : Core} {role : Role} {t : Nat} {rest : List Hold}
      (outside : threads.phase core = .outside)
      (head : threads.hands (threads.me core) = ⟨role, t⟩ :: rest) (alive : role ≠ .reaped) :
      Effect threads (.schedule core)
        ((threads.setHands (threads.me core) rest).schedule t)
  | create {core : Core} {t : Nat} (outside : threads.phase core = .outside)
      (real : t ≠ 0) (fresh : threads.live t = false) :
      Effect threads (.create core t) (threads.create core t)
  | noZombie {core : Core} (nobody : (threads.remove .zombies).1 = none) :
      Effect threads (.reap core) threads
  | reap {core : Core} {t : Nat} (outside : threads.phase core = .outside)
      (first : (threads.remove .zombies).1 = some t) :
      Effect threads (.reap core) ((threads.remove .zombies).2.hold core .reaped t)
  | delete {core : Core} {t : Nat} {rest : List Hold}
      (outside : threads.phase core = .outside)
      (head : threads.hands (threads.me core) = ⟨.reaped, t⟩ :: rest) :
      Effect threads (.delete core)
        { threads.setHands (threads.me core) rest with live := update threads.live t false }

variable {threads after : Threads Core} {core : Core} {action : Action Core}

private theorem take_effect (stepped : threads.take core = some after) :
    Effect threads (.take core) after := by
  unfold take at stepped
  cases phase : threads.phase core with
  | entered option handler me =>
      rw [phase] at stepped
      simp only at stepped
      split at stepped
      case h_1 nextTcb rest removed =>
        cases stepped
        have first : (threads.remove .ready).1 = some nextTcb := by rw [removed]
        have same : (threads.remove .ready).2 = rest := by rw [removed]
        exact same ▸ .choose phase first
      case h_2 rest removed =>
        have nobody : (threads.remove .ready).1 = none := by rw [removed]
        cases option with
        | canReturn =>
            rw [if_pos rfl] at stepped
            cases stepped
            exact .giveUp phase nobody
        | mustBlock =>
            rw [if_neg (by decide)] at stepped
            cases isIdle : threads.isIdle me with
            | true =>
                rw [isIdle, if_pos rfl] at stepped
                split at stepped
                · cases stepped
                  exact .spin phase nobody
                · cases stepped
            | false =>
                rw [isIdle, if_neg (by decide)] at stepped
                cases stepped
                exact .idle phase isIdle nobody
  | outside => rw [phase] at stepped; cases stepped
  | switching handler me => rw [phase] at stepped; cases stepped
  | handling handler me => rw [phase] at stepped; cases stepped

private theorem handle_effect (stepped : threads.handle core = some after) :
    Effect threads (.handle core) after := by
  unfold handle at stepped
  cases phase : threads.phase core with
  | handling handler me =>
      rw [phase] at stepped
      cases isIdle : threads.isIdle me with
      | true =>
          cases handler with
          | yield =>
              simp only [schedule, isIdle, if_true] at stepped
              cases stepped
              exact .leave phase isIdle (fun _ => Handler.noConfusion)
          | stop =>
              simp only [isIdle, if_true] at stepped
              cases stepped
              exact .leave phase isIdle (fun _ => Handler.noConfusion)
          | down sem =>
              simp only [isIdle, if_true] at stepped
              cases stepped
      | false =>
          have queued := Effect.enqueue phase isIdle
          cases handler with
          | yield =>
              simp only [schedule, isIdle, Bool.false_eq_true, if_false] at stepped
              cases stepped
              exact queued
          | stop =>
              simp only [isIdle, Bool.false_eq_true, if_false] at stepped
              cases stepped
              exact queued
          | down sem =>
              simp only [isIdle, Bool.false_eq_true, if_false] at stepped
              cases stepped
              exact queued
  | outside => rw [phase] at stepped; cases stepped
  | entered option handler me => rw [phase] at stepped; cases stepped
  | switching handler me => rw [phase] at stepped; cases stepped

private theorem tick_effect (stepped : threads.tick core = some after) :
    Effect threads (.tick core) after := by
  unfold tick at stepped
  cases phase : threads.phase core with
  | outside =>
      rw [phase] at stepped
      simp only at stepped
      split at stepped
      case isTrue ignored =>
        cases stepped
        exact .ignore (.inr ignored)
      case isFalse heeded =>
        cases stepped
        exact .preempt phase
  | entered option handler me =>
      rw [phase] at stepped
      simp only at stepped
      split at stepped
      · cases stepped
        exact .ignore (.inl (by rw [phase]; exact Phase.noConfusion))
      · cases stepped
  | switching handler me =>
      rw [phase] at stepped
      simp only at stepped
      split at stepped
      · cases stepped
        exact .ignore (.inl (by rw [phase]; exact Phase.noConfusion))
      · cases stepped
  | handling handler me =>
      rw [phase] at stepped
      cases stepped

private theorem down_effect {sem : Nat} (outside : threads.phase core = .outside)
    (stepped : threads.down core sem = some after) : Effect threads (.down core sem) after := by
  unfold down at stepped
  cases unlocked : (threads.sems sem).locked with
  | true =>
      simp only [unlocked, if_true] at stepped
      cases stepped
  | false =>
      simp only [unlocked, Bool.false_eq_true, if_false] at stepped
      split at stepped
      case isTrue positive =>
        cases stepped
        exact .pass outside unlocked positive
      case isFalse zero =>
        cases stepped
        exact .block outside unlocked (by omega)

private theorem up_effect {sem : Nat} (outside : threads.phase core = .outside)
    (stepped : threads.up core sem = some after) : Effect threads (.up core sem) after := by
  unfold up at stepped
  cases unlocked : (threads.sems sem).locked with
  | true =>
      simp only [unlocked, if_true] at stepped
      cases stepped
  | false =>
      simp only [unlocked, Bool.false_eq_true, if_false] at stepped
      split at stepped
      case h_1 rest removed =>
        cases stepped
        exact .raise outside unlocked (by rw [removed])
      case h_2 t rest removed =>
        cases stepped
        have first : (threads.remove (.waiting sem)).1 = some t := by rw [removed]
        have same : (threads.remove (.waiting sem)).2 = rest := by rw [removed]
        exact same ▸ .wake outside unlocked first

/-- Every allowed step is one of the effects. -/
theorem step_effect (allowed : threads.Allowed action)
    (stepped : threads.step action = some after) : Effect threads action after := by
  cases action with
  | take core => exact take_effect stepped
  | contextSwitch core =>
      simp only [step] at stepped
      split at stepped
      case h_1 handler me phase =>
        cases stepped
        exact .switch phase
      case h_2 => cases stepped
  | handle core => exact handle_effect stepped
  | tick core => exact tick_effect stepped
  | yield core =>
      obtain ⟨outside, same⟩ := whenOutside_some stepped
      cases same
      exact .yield outside
  | stop core =>
      obtain ⟨outside, same⟩ := whenOutside_some stepped
      cases same
      exact .stop outside allowed
  | down core sem =>
      obtain ⟨outside, same⟩ := whenOutside_some stepped
      exact down_effect outside same
  | up core sem =>
      obtain ⟨outside, same⟩ := whenOutside_some stepped
      exact up_effect outside same
  | schedule core =>
      obtain ⟨outside, same⟩ := whenOutside_some stepped
      unfold scheduleHeld at same
      split at same
      case h_1 role t rest head =>
        split at same
        · cases same
        · cases same
          exact .schedule outside head ‹_›
      case h_2 => cases same
  | create core t =>
      obtain ⟨outside, same⟩ := whenOutside_some stepped
      cases same
      exact .create outside allowed.1 allowed.2
  | reap core =>
      obtain ⟨outside, same⟩ := whenOutside_some stepped
      unfold reap at same
      cases removed : threads.remove .zombies with
      | mk first rest =>
          cases first with
          | none =>
              rw [removed] at same
              cases same
              exact .noZombie (by rw [removed])
          | some t =>
              rw [removed] at same
              cases same
              have first : (threads.remove .zombies).1 = some t := by rw [removed]
              have same : (threads.remove .zombies).2 = rest := by rw [removed]
              exact same ▸ .reap outside first
  | delete core =>
      obtain ⟨outside, same⟩ := whenOutside_some stepped
      unfold delete at same
      split at same
      case h_1 t rest head =>
        cases same
        exact .delete outside head
      case h_2 => cases same

end Threads

end AC97Kernel
