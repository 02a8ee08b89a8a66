/-
Where the threads are.

A place is a core, a queue or the hands of a thread.  Between the two stacks of a
switch the old thread is with the core that it leaves.  Every thread that is not an
idle one is in one place; the idle thread of a core is only ever on that core.
-/

import AC97Kernel.Library.Places
import AC97Kernel.Threads.Effects

set_option autoImplicit false

namespace AC97Kernel

inductive Place (Core : Type) where
  | held (role : Role) (holder : Nat)
  | active (core : Core)
  | leaving (core : Core)
  | queued (name : QueueName)

/-- The places of threads that have left their registers in the save area. -/
def Place.Rests {Core : Type} : Place Core → Prop
  | .held _ _ => True
  | .active _ => False
  | .leaving _ => False
  | .queued _ => True

/-- The places of threads that do not run again. -/
def Place.Dead {Core : Type} : Place Core → Prop
  | .held .reaped _ => True
  | .queued .zombies => True
  | _ => False

/-- The thread that is on its way out. -/
def Phase.leaver : Phase → Option Nat
  | .switching _ me => some me
  | .handling _ me => some me
  | _ => none

def Phase.caller : Phase → Option Nat
  | .outside => none
  | .entered _ _ me => some me
  | .switching _ me => some me
  | .handling _ me => some me

theorem Phase.caller_of_leaver {phase : Phase} {me : Nat} (leaver : phase.leaver = some me) :
    phase.caller = some me := by
  cases phase with
  | outside => cases leaver
  | entered option handler who => cases leaver
  | switching handler who => exact leaver
  | handling handler who => exact leaver

/-- Who has called `block` is about to look for a successor, or has found one. -/
theorem Phase.caller_cases {phase : Phase} {me : Nat} (caller : phase.caller = some me) :
    (∃ option handler, phase = .entered option handler me) ∨ phase.leaver = some me := by
  cases phase with
  | outside => cases caller
  | entered option handler who =>
      cases caller
      exact .inl ⟨option, handler, rfl⟩
  | switching handler who => exact .inr caller
  | handling handler who => exact .inr caller

namespace Threads

open Function

variable {Core : Type}

def Located (threads : Threads Core) (contents : QueueName → List Nat) : Place Core → Nat → Prop
  | .held role holder, t => ⟨role, t⟩ ∈ threads.hands holder
  | .active core, t => threads.activeThreads core = t ∧ threads.isIdle t = false
  | .leaving core, t => (threads.phase core).leaver = some t ∧ threads.isIdle t = false
  | .queued name, t => t ∈ contents name

/-- A TCB that exists and is not that of an idle thread. -/
def User (threads : Threads Core) (t : Nat) : Prop :=
  threads.live t = true ∧ threads.isIdle t = false

structure Leaving (threads : Threads Core) (core : Core) (handler : Handler) (me : Nat) :
    Prop where
  other : me ≠ threads.activeThreads core
  idle : threads.isIdle me = true → me = threads.idleThreads core
  stops : handler = .stop → threads.hands me = []

/-- What is known of a core in each phase. -/
def Consistent (threads : Threads Core) (core : Core) : Phase → Prop
  | .outside => True
  | .entered _ handler me =>
      me = threads.activeThreads core ∧ (handler = .stop → threads.hands me = [])
  | .switching handler me => threads.Leaving core handler me
  | .handling handler me => threads.Leaving core handler me ∧ threads.saved me = true

/-- The invariant, with what the queues hold. -/
structure Placed (threads : Threads Core) (contents : QueueName → List Nat) : Prop where
  holding : ∀ name, (threads.queues name).Holds threads.next (contents name)
  one : OnePlace (threads.Located contents) threads.User
  handsOnce : ∀ t, (threads.hands t).Nodup
  handsLive : ∀ t, threads.hands t ≠ [] → threads.live t = true
  real : ∀ t, threads.live t = true → t ≠ 0
  idleLive : ∀ core, threads.live (threads.idleThreads core) = true
  idleIs : ∀ core, threads.isIdle (threads.idleThreads core) = true
  idleApart : ∀ one other, threads.idleThreads one = threads.idleThreads other → one = other
  activeIdle : ∀ core, threads.isIdle (threads.activeThreads core) = true →
    threads.activeThreads core = threads.idleThreads core
  consistent : ∀ core, threads.Consistent core (threads.phase core)
  saved : ∀ place t, place.Rests → threads.Located contents place t → threads.saved t = true
  dead : ∀ place t, place.Dead → threads.Located contents place t → threads.hands t = []

variable {threads after : Threads Core} {contents : QueueName → List Nat} {core other : Core}
  {t me : Nat} {handler : Handler} {option : BlockOption}

/-- At boot there is no thread but the idle ones. -/
theorem boot_nowhere (boot : threads.Boot) (place : Place Core) (t : Nat) :
    ¬ threads.Located (fun _ => []) place t := by
  intro there
  cases place with
  | held role holder => simp only [Located, boot.noHands, List.not_mem_nil] at there
  | active core =>
      obtain ⟨same, user⟩ := there
      rw [boot.active] at same
      rw [← same, boot.idleIs] at user
      cases user
  | leaving core =>
      have left := there.1
      rw [boot.outside] at left
      cases left
  | queued name => cases there

theorem boot_placed (boot : threads.Boot) : threads.Placed fun _ => [] where
  holding name := boot.empty name ▸ Queue.holds_empty threads.next
  one :=
    { somewhere := fun t user => by
        obtain ⟨core, same⟩ := boot.onlyIdle t user.1
        have isIdle := boot.idleIs core
        rw [same, user.2] at isIdle
        cases isIdle
      once := fun t first _ there _ => absurd there (boot_nowhere boot first t)
      known := fun place t there => absurd there (boot_nowhere boot place t) }
  handsOnce t := boot.noHands t ▸ List.nodup_nil
  handsLive t some_ := absurd (boot.noHands t) some_
  real t isLive := by
    obtain ⟨core, same⟩ := boot.onlyIdle t isLive
    exact same ▸ boot.idleReal core
  idleLive := boot.idleLive
  idleIs := boot.idleIs
  idleApart := boot.idleApart
  activeIdle core _ := by rw [boot.active]
  consistent core := by
    rw [boot.outside]
    trivial
  saved place t _ there := absurd there (boot_nowhere boot place t)
  dead _ t _ _ := boot.noHands t

/-! What follows from the invariant. -/

theorem Placed.active_live (placed : threads.Placed contents) (core : Core) :
    threads.live (threads.activeThreads core) = true := by
  cases isIdle : threads.isIdle (threads.activeThreads core) with
  | true =>
      rw [placed.activeIdle core isIdle]
      exact placed.idleLive core
  | false => exact (placed.one.known (.active core) _ ⟨rfl, isIdle⟩).1

/-- Two cores never run the same thread. -/
theorem Placed.active_apart (placed : threads.Placed contents)
    (same : threads.activeThreads core = threads.activeThreads other) : core = other := by
  cases isIdle : threads.isIdle (threads.activeThreads core) with
  | true =>
      have first := placed.activeIdle core isIdle
      have second := placed.activeIdle other (same ▸ isIdle)
      exact placed.idleApart core other (by rw [← first, ← second, same])
  | false =>
      have places := placed.one.once _ (.active core) (.active other) ⟨rfl, isIdle⟩
        ⟨same.symm, isIdle⟩
      cases places
      rfl

/-- A thread that rests is not on a core. -/
theorem Placed.rests_not_active (placed : threads.Placed contents) (place : Place Core)
    (rests : place.Rests) (there : threads.Located contents place t) (core : Core) :
    t ≠ threads.activeThreads core := by
  intro same
  have user := (placed.one.known place t there).2
  have places := placed.one.once t place (.active core) there ⟨same.symm, user⟩
  rw [places] at rests
  exact rests

theorem Placed.leaving (placed : threads.Placed contents)
    (leaver : (threads.phase core).leaver = some me) :
    me ≠ threads.activeThreads core ∧
      (threads.isIdle me = true → me = threads.idleThreads core) := by
  have consistent := placed.consistent core
  cases phase : threads.phase core with
  | outside =>
      rw [phase] at leaver
      cases leaver
  | entered option handler caller =>
      rw [phase] at leaver
      cases leaver
  | switching handler caller =>
      rw [phase] at leaver consistent
      cases leaver
      exact ⟨consistent.other, consistent.idle⟩
  | handling handler caller =>
      rw [phase] at leaver consistent
      cases leaver
      exact ⟨consistent.1.other, consistent.1.idle⟩

theorem Placed.leaver_not_active (placed : threads.Placed contents)
    (leaver : (threads.phase core).leaver = some me) (other : Core) :
    me ≠ threads.activeThreads other := by
  intro same
  cases isIdle : threads.isIdle me with
  | true =>
      have home := (placed.leaving leaver).2 isIdle
      have active := placed.activeIdle other (same ▸ isIdle)
      have cores : core = other := placed.idleApart core other (by rw [← home, ← active, same])
      subst cores
      exact (placed.leaving leaver).1 same
  | false =>
      have places := placed.one.once me (.leaving core) (.active other) ⟨leaver, isIdle⟩
        ⟨same.symm, isIdle⟩
      cases places

/-- The thread that a core is in `block` for does not run on another. -/
theorem Placed.caller_apart (placed : threads.Placed contents) (apart : other ≠ core)
    (caller : (threads.phase other).caller = some me) : me ≠ threads.activeThreads core := by
  rcases Phase.caller_cases caller with ⟨option, handler, phase⟩ | leaver
  · have consistent := placed.consistent other
    rw [phase] at consistent
    intro same
    exact apart (placed.active_apart (consistent.1 ▸ same))
  · exact placed.leaver_not_active leaver core

theorem Placed.caller_live (placed : threads.Placed contents)
    (caller : (threads.phase core).caller = some me) : threads.live me = true := by
  rcases Phase.caller_cases caller with ⟨option, handler, phase⟩ | leaver
  · have consistent := placed.consistent core
    rw [phase] at consistent
    rw [consistent.1]
    exact placed.active_live core
  · cases isIdle : threads.isIdle me with
    | true =>
        rw [(placed.leaving leaver).2 isIdle]
        exact placed.idleLive core
    | false => exact (placed.one.known (.leaving core) me ⟨leaver, isIdle⟩).1

theorem Placed.queues_apart (placed : threads.Placed contents) {one other : QueueName}
    (member : t ∈ contents one) (also : t ∈ contents other) : one = other := by
  have places := placed.one.once t (.queued one) (.queued other) member also
  cases places
  rfl

/-- What a core is doing depends on these only. -/
theorem Consistent.congr {phase : Phase} (consistent : threads.Consistent core phase)
    (active : after.activeThreads core = threads.activeThreads core)
    (idle : after.idleThreads core = threads.idleThreads core)
    (isIdle : ∀ me, phase.caller = some me → after.isIdle me = threads.isIdle me)
    (hands : ∀ me, phase.caller = some me → after.hands me = threads.hands me)
    (saved : ∀ me, phase.caller = some me → threads.saved me = true → after.saved me = true) :
    after.Consistent core phase := by
  have keeps {handler : Handler} {me : Nat} (caller : phase.caller = some me)
      (leaving : threads.Leaving core handler me) : after.Leaving core handler me :=
    { other := active ▸ leaving.other
      idle := fun is => idle ▸ leaving.idle (isIdle me caller ▸ is)
      stops := fun stops => hands me caller ▸ leaving.stops stops }
  cases phase with
  | outside => trivial
  | entered option handler me =>
      exact ⟨active ▸ consistent.1, fun stops => hands me rfl ▸ consistent.2 stops⟩
  | switching handler me => exact keeps rfl consistent
  | handling handler me => exact ⟨keeps rfl consistent.1, saved me rfl consistent.2⟩

/-! Queues and hands. -/

theorem Placed.add_holding (placed : threads.Placed contents) {into : QueueName} (real : t ≠ 0)
    (fresh : ∀ name, t ∉ contents name) (name : QueueName) :
    ((threads.add into t).queues name).Holds (threads.add into t).next
      (update contents into (contents into ++ [t]) name) := by
  by_cases same : name = into
  · subst same
    simp only [add, update_self]
    exact (placed.holding name).add real (fresh name)
  · simp only [add, update_of_ne same]
    refine (placed.holding name).add_other (placed.holding into) ?_ (fresh name)
    intro item member also
    exact same (placed.queues_apart member also)

theorem Placed.remove_holding (placed : threads.Placed contents) (source name : QueueName) :
    ((threads.remove source).2.queues name).Holds threads.next
      (update contents source (contents source).tail name) := by
  by_cases same : name = source
  · subst same
    simp only [remove, update_self]
    exact (placed.holding name).remove.2
  · simp only [remove, update_of_ne same]
    exact placed.holding name

/-- `remove` returns nothing or the first that the queue holds. -/
theorem Placed.remove_first (placed : threads.Placed contents) (source : QueueName) :
    (threads.remove source).1 = (contents source).head? :=
  (placed.holding source).remove.1

theorem Placed.remove_cons (placed : threads.Placed contents) {source : QueueName}
    (first : (threads.remove source).1 = some t) :
    contents source = t :: (contents source).tail ∧ t ∉ (contents source).tail := by
  rw [placed.remove_first] at first
  have split : contents source = t :: (contents source).tail :=
    (List.cons_head?_tail first).symm
  have distinct := (placed.holding source).distinct
  rw [split, List.nodup_cons] at distinct
  exact ⟨split, distinct.1⟩

theorem Placed.nobody_after (placed : threads.Placed contents) {name : QueueName}
    (nobody : (threads.remove name).1 = none) :
    update contents name (contents name).tail = contents := by
  rw [placed.remove_first, List.head?_eq_none_iff] at nobody
  rw [update_eq_self_iff, nobody]
  rfl

/-- What a queue holds after the removal it held before. -/
theorem mem_of_removed {source name : QueueName}
    (member : t ∈ update contents source (contents source).tail name) : t ∈ contents name := by
  by_cases same : name = source
  · subst same
    rw [update_self] at member
    exact List.mem_of_mem_tail member
  · rw [update_of_ne same] at member
    exact member

theorem Placed.mem_removed (placed : threads.Placed contents) {source : QueueName}
    (first : (threads.remove source).1 = some t) (item : Nat) :
    item ∈ update contents source (contents source).tail source ↔
      item ≠ t ∧ item ∈ contents source := by
  obtain ⟨split, absent⟩ := placed.remove_cons first
  rw [update_self]
  constructor
  · intro member
    refine ⟨?_, List.mem_of_mem_tail member⟩
    intro same
    exact absent (same ▸ member)
  · rintro ⟨other, member⟩
    rw [split, List.mem_cons] at member
    exact member.resolve_left other

theorem Placed.first_mem (placed : threads.Placed contents) {source : QueueName}
    (first : (threads.remove source).1 = some t) : t ∈ contents source := by
  rw [(placed.remove_cons first).1]
  exact List.mem_cons_self

theorem mem_added {into name : QueueName} {item : Nat} :
    item ∈ update contents into (contents into ++ [t]) name ↔
      (name = into ∧ item = t) ∨ item ∈ contents name := by
  by_cases same : name = into
  · subst same
    rw [update_self, List.mem_append, List.mem_singleton]
    simp [or_comm]
  · rw [update_of_ne same]
    simp [same]

theorem mem_push {hands : Nat → List Hold} {role kind : Role} {holder who item : Nat} :
    (⟨kind, item⟩ : Hold) ∈ update hands who (⟨role, t⟩ :: hands who) holder ↔
      (kind = role ∧ holder = who ∧ item = t) ∨ ⟨kind, item⟩ ∈ hands holder := by
  by_cases same : holder = who
  · subst same
    rw [update_self, List.mem_cons, Hold.mk.injEq]
    simp
  · rw [update_of_ne same]
    simp [same]

theorem mem_pop {hands : Nat → List Hold} {role kind : Role} {holder who item : Nat}
    {rest : List Hold} (head : hands who = ⟨role, t⟩ :: rest) (once : (hands who).Nodup) :
    (⟨kind, item⟩ : Hold) ∈ update hands who rest holder ↔
      ⟨kind, item⟩ ∈ hands holder ∧ ¬ (kind = role ∧ holder = who ∧ item = t) := by
  by_cases same : holder = who
  · subst same
    rw [head, List.nodup_cons] at once
    rw [update_self, head, List.mem_cons, Hold.mk.injEq]
    constructor
    · intro member
      refine ⟨.inr member, ?_⟩
      rintro ⟨rfl, -, rfl⟩
      exact once.1 member
    · rintro ⟨⟨rfl, rfl⟩ | member, other⟩
      · exact absurd ⟨rfl, rfl, rfl⟩ other
      · exact member
  · rw [update_of_ne same]
    simp [same]

end Threads

end AC97Kernel
