/-
The future of kernel/future.h, set once and read by any number of threads.

A thread reads or writes one field at a time.  `called`, `stored`, `completed` and
`answers` are no fields: they record the call of `set`, how far it has come, and
what the calls of `get` have returned.
-/

import AC97Kernel.Sync.Permits

set_option autoImplicit false

namespace AC97Kernel.Sync

open Function Census

inductive FutureSem where
  | go
  deriving DecidableEq

structure Future (T : Type) where
  isReady : Bool
  t : T
  called : Option T
  stored : Bool
  completed : Bool
  answers : List T

/-- The points of `get`, then those of `set`. -/
inductive FuturePoint (T : Type) where
  | idle
  | check
  | down
  | up
  | read
  | assertNotReady (v : T)
  | ifReady (v : T)
  | store (v : T)
  | publish
  | raise
  | finish
  deriving DecidableEq

namespace Future

variable {T : Type}

def code : FuturePoint T → Instruction FutureSem (Future T) (FuturePoint T)
  | .idle => .access fun _ => none
  | .check => .access fun future => some (future, if future.isReady then .read else .down)
  | .down => .down .go .up
  | .up => .up .go .read
  | .read => .access fun future =>
      some ({ future with answers := future.answers ++ [future.t] }, .idle)
  | .assertNotReady v => .access fun future =>
      if future.isReady then none else some (future, .ifReady v)
  | .ifReady v => .access fun future =>
      some (future, if future.isReady then .finish else .store v)
  | .store v => .access fun future => some ({ future with t := v, stored := true }, .publish)
  | .publish => .access fun future => some ({ future with isReady := true }, .raise)
  | .raise => .up .go .finish
  | .finish => .access fun future => some ({ future with completed := true }, .idle)

/-- Anybody may call `get`, and somebody `set`, which is called once. -/
def isEntry (future : Future T) : FuturePoint T → Bool
  | .check => true
  | .assertNotReady _ => future.called.isNone
  | _ => false

def enter (future : Future T) : FuturePoint T → Future T
  | .assertNotReady v => { future with called := some v }
  | _ => future

def program (T : Type) : Program FutureSem (Future T) (FuturePoint T) where
  idle := .idle
  permits future point := future.isEntry point = true
  enter := enter
  code := code

/-- The constructor. -/
def new (t : T) : Future T :=
  { isReady := false, t := t, called := none, stored := false, completed := false, answers := [] }

section Weights

/-- Between `down` and `up` of `get`. -/
def holding : FuturePoint T → Nat
  | .up => 1
  | _ => 0

/-- In `set`, before the value is stored. -/
def early : FuturePoint T → Nat
  | .assertNotReady _ => 1
  | .ifReady _ => 1
  | .store _ => 1
  | _ => 0

def publishing : FuturePoint T → Nat
  | .publish => 1
  | _ => 0

def raising : FuturePoint T → Nat
  | .raise => 1
  | _ => 0

def finishing : FuturePoint T → Nat
  | .finish => 1
  | _ => 0

/-- The value that `set` is about to store. -/
def value : FuturePoint T → Option T
  | .assertNotReady v => some v
  | .ifReady v => some v
  | .store v => some v
  | _ => none

def uncalled : Option T → Nat
  | none => 1
  | some _ => 0

end Weights

variable {Thread : Type}

/-- The invariant of the moves.  There is one token, which `set` makes, and getters pass
it on. -/
structure Delivering (view : View Thread FutureSem (Future T) (FuturePoint T)) : Prop where
  token : view.counts .go + census holding view.place + census early view.place +
    census publishing view.place + census raising view.place + uncalled view.data.called = 1
  completed : view.data.completed.toNat + census finishing view.place + census early view.place +
    census publishing view.place + census raising view.place + uncalled view.data.called = 1
  stored : view.data.stored.toNat + census early view.place + uncalled view.data.called = 1
  isReady : view.data.isReady.toNat + census early view.place + census publishing view.place +
    uncalled view.data.called = 1
  kept : view.data.stored = true → view.data.called = some view.data.t
  asked : ∀ thread v, value (view.place thread) = some v → view.data.called = some v
  reads : ∀ thread, view.place thread = .read → view.data.stored = true
  answers : ∀ v ∈ view.data.answers, view.data.stored = true ∧ view.data.called = some v

variable {view next : View Thread FutureSem (Future T) (FuturePoint T)}

theorem start_delivering (counts : FutureSem → Nat) (zero : counts .go = 0) (t : T) :
    Delivering ((program T).start counts (new t) :
      Crew Thread FutureSem (Future T) (FuturePoint T)).view := by
  have nobody (weight : FuturePoint T → Nat) (idle : weight .idle = 0) :=
    @start_census Thread _ _ _ (program T) weight idle counts (new t)
  have noHolding := nobody holding rfl
  have noEarly := nobody early rfl
  have noPublishing := nobody publishing rfl
  have noRaising := nobody raising rfl
  have noFinishing := nobody finishing rfl
  constructor
  · rw [noHolding, noEarly, noPublishing, noRaising]
    change counts .go + 0 + 0 + 0 + 0 + 1 = 1
    rw [zero]
  · rw [noFinishing, noEarly, noPublishing, noRaising]
    rfl
  · rw [noEarly]
    rfl
  · rw [noEarly, noPublishing]
    rfl
  · intro impossible
    cases impossible
  · intro thread v impossible
    cases impossible
  · intro thread impossible
    cases impossible
  · intro v impossible
    cases impossible

/-- What is counted as one is true. -/
theorem eq_true_of_toNat {bit : Bool} (one : bit.toNat = 1) : bit = true := by
  cases bit with
  | true => rfl
  | false => cases one

theorem Delivering.stored_of_ready (delivering : Delivering view)
    (ready : view.data.isReady = true) : view.data.stored = true := by
  have isReady := delivering.isReady
  have stored := delivering.stored
  rw [ready, Bool.toNat_true] at isReady
  exact eq_true_of_toNat (by omega)

/-- Once `set` is done, the token is in the semaphore or with a getter. -/
theorem Delivering.token_left (delivering : Delivering view)
    (completed : view.data.completed = true) :
    view.counts .go + census holding view.place = 1 ∧ census finishing view.place = 0 := by
  have law := delivering.completed
  have token := delivering.token
  rw [completed, Bool.toNat_true] at law
  omega

/-- In `get`, with its `down` returned and its `up` not. -/
def Between : Stage Thread FutureSem (FuturePoint T) → Prop
  | .running .up => True
  | .waking _ .read => True
  | _ => False

/-- In a `down` that has not returned. -/
def Blocked (stage : Stage Thread FutureSem (FuturePoint T)) : Prop :=
  stage.waitsFor = some .go ∨ stage.Woken

variable {crew : Crew Thread FutureSem (Future T) (FuturePoint T)}

/-- Where no thread has the token, nobody waits for it. -/
theorem nobody_waits (orderly : crew.Orderly (program T)) (delivering : Delivering crew.view)
    (completed : crew.data.completed = true)
    (nobody : ∀ thread, (crew.stage thread).place ≠ .up) (thread : Thread) :
    (crew.stage thread).waitsFor ≠ some .go := by
  intro waits
  have noHolding : census holding crew.view.place = 0 := by
    apply census_zero
    intro other
    have elsewhere := nobody other
    change holding (crew.stage other).place = 0
    cases at_ : (crew.stage other).place <;> first | rfl | exact absurd at_ elsewhere
  have left := (delivering.token_left completed).1
  have empty := orderly.lined.closed .go (by change 0 < crew.view.counts .go; omega)
  have queued := (orderly.lined.queued thread .go).mpr waits
  rw [empty] at queued
  cases queued

/-- Whoever has the token is between `down` and `up`, or has been taken from the queue. -/
theorem nobody_up (orderly : crew.Orderly (program T)) {thread : Thread}
    (notBetween : ¬ Between (crew.stage thread)) (notWoken : ¬ (crew.stage thread).Woken) :
    (crew.stage thread).place ≠ .up := by
  intro up
  have lawful := orderly.lined.lawful thread
  cases at_ : crew.stage thread with
  | running point =>
      rw [at_] at up notBetween
      cases up
      exact notBetween trivial
  | waiting sem before after =>
      rw [at_] at up lawful
      cases up
      cases lawful
  | woken after =>
      rw [at_] at notWoken
      exact notWoken trivial
  | waking other after =>
      rw [at_] at up lawful
      cases up
      obtain ⟨sem, before, code⟩ := lawful
      cases before <;> cases code

variable [DecidableEq Thread] {thread : Thread} {point target : FuturePoint T}

/-- How the weights change when a thread moves. -/
theorem go_weights (sparse : Sparse .idle view.place) (thread : Thread)
    (target : FuturePoint T) :
    census holding (view.go thread target).place + holding (view.place thread) =
      census holding view.place + holding target ∧
    census early (view.go thread target).place + early (view.place thread) =
      census early view.place + early target ∧
    census publishing (view.go thread target).place + publishing (view.place thread) =
      census publishing view.place + publishing target ∧
    census raising (view.go thread target).place + raising (view.place thread) =
      census raising view.place + raising target ∧
    census finishing (view.go thread target).place + finishing (view.place thread) =
      census finishing view.place + finishing target :=
  ⟨census_move sparse rfl thread target, census_move sparse rfl thread target,
    census_move sparse rfl thread target, census_move sparse rfl thread target,
    census_move sparse rfl thread target⟩

/-- What one thread and the semaphore have together stays the same, and what is known is
not forgotten. -/
theorem Delivering.exchange (sparse : Sparse .idle view.place) (delivering : Delivering view)
    (here : view.place thread = point) (counts : FutureSem → Nat) (data : Future T)
    (token : counts .go + holding target + early target + publishing target + raising target +
        uncalled data.called =
      view.counts .go + holding point + early point + publishing point + raising point +
        uncalled view.data.called)
    (completed : data.completed.toNat + finishing target + early target + publishing target +
        raising target + uncalled data.called =
      view.data.completed.toNat + finishing point + early point + publishing point +
        raising point + uncalled view.data.called)
    (stored : data.stored.toNat + early target + uncalled data.called =
      view.data.stored.toNat + early point + uncalled view.data.called)
    (isReady : data.isReady.toNat + early target + publishing target + uncalled data.called =
      view.data.isReady.toNat + early point + publishing point + uncalled view.data.called)
    (asks : ∀ v, value target = some v → data.called = some v)
    (called : ∀ v, view.data.called = some v → data.called = some v)
    (reads : target = .read → data.stored = true)
    (stays : view.data.stored = true → data.stored = true)
    (kept : data.stored = true → data.called = some data.t)
    (answers : ∀ v ∈ data.answers, data.stored = true ∧ data.called = some v) :
    Delivering { view.go thread target with counts := counts, data := data } := by
  obtain ⟨goHolding, goEarly, goPublishing, goRaising, goFinishing⟩ :=
    go_weights sparse thread target
  rw [here] at goHolding goEarly goPublishing goRaising goFinishing
  refine ⟨?_, ?_, ?_, ?_, kept, ?_, ?_, answers⟩
  · have law := delivering.token
    change counts .go + census holding (view.go thread target).place +
      census early (view.go thread target).place +
      census publishing (view.go thread target).place +
      census raising (view.go thread target).place + uncalled data.called = 1
    omega
  · have law := delivering.completed
    change data.completed.toNat + census finishing (view.go thread target).place +
      census early (view.go thread target).place +
      census publishing (view.go thread target).place +
      census raising (view.go thread target).place + uncalled data.called = 1
    omega
  · have law := delivering.stored
    change data.stored.toNat + census early (view.go thread target).place +
      uncalled data.called = 1
    omega
  · have law := delivering.isReady
    change data.isReady.toNat + census early (view.go thread target).place +
      census publishing (view.go thread target).place + uncalled data.called = 1
    omega
  · intro other v asks_
    change value ((view.go thread target).place other) = some v at asks_
    by_cases same : other = thread
    · subst same
      rw [View.go_self] at asks_
      exact asks v asks_
    · rw [View.go_other _ same] at asks_
      exact called v (delivering.asked other v asks_)
  · intro other reads_
    change (view.go thread target).place other = .read at reads_
    by_cases same : other = thread
    · subst same
      rw [View.go_self] at reads_
      exact reads reads_
    · rw [View.go_other _ same] at reads_
      exact stays (delivering.reads other reads_)

/-- A thread goes on, and the future stays. -/
theorem Delivering.go (sparse : Sparse .idle view.place) (delivering : Delivering view)
    (here : view.place thread = point) (counts : FutureSem → Nat)
    (token : counts .go + holding target + raising target =
      view.counts .go + holding point + raising point)
    (finishes : finishing target + raising target = finishing point + raising point)
    (earlies : early target = early point) (publishes : publishing target = publishing point)
    (asks : ∀ v, value target = some v → view.data.called = some v)
    (reads : target = .read → view.data.stored = true) :
    Delivering { view.go thread target with counts := counts } := by
  apply delivering.exchange sparse here counts view.data
  · omega
  · omega
  · omega
  · omega
  · exact asks
  · exact fun _ => id
  · exact reads
  · exact id
  · exact delivering.kept
  · exact delivering.answers

theorem down_delivering (sparse : Sparse .idle view.place) (delivering : Delivering view)
    {sem : FutureSem} (here : code (view.place thread) = .down sem target)
    (positive : 0 < view.counts sem) :
    Delivering ((view.setCount sem (view.counts sem - 1)).go thread target) := by
  have passed := View.counts_pass view positive .go
  cases at_ : view.place thread with
  | down =>
      rw [at_] at here
      cases here
      exact delivering.go sparse at_ _ passed rfl rfl rfl (fun _ asks => by cases asks)
        (fun reads => by cases reads)
  | _ =>
      rw [at_] at here
      cases here

theorem at_least (sparse : Sparse .idle view.place) (here : view.place thread = point)
    (weight : FuturePoint T → Nat) (idle : weight .idle = 0) :
    weight point ≤ census weight view.place :=
  here ▸ le_census sparse idle thread

/-- Who has the token finds the value stored. -/
theorem Delivering.stored_of_up (sparse : Sparse .idle view.place) (delivering : Delivering view)
    (here : view.place thread = .up) : view.data.stored = true := by
  have mine := at_least sparse here holding rfl
  have token := delivering.token
  have stored := delivering.stored
  simp only [holding] at mine
  exact eq_true_of_toNat (by omega)

/-- Before the value is stored, the future is not ready. -/
theorem Delivering.not_ready_of_early (sparse : Sparse .idle view.place)
    (delivering : Delivering view) (here : view.place thread = point) (isEarly : early point = 1) :
    view.data.stored.toNat = 0 ∧ view.data.isReady.toNat = 0 := by
  have mine := at_least sparse here early rfl
  have stored := delivering.stored
  have isReady := delivering.isReady
  omega

theorem up_delivering (sparse : Sparse .idle view.place) (delivering : Delivering view)
    {sem : FutureSem} (here : code (view.place thread) = .up sem target) :
    Delivering ((view.setCount sem ((view.counts sem + 1) % 2 ^ 64)).go thread target) := by
  have few : view.counts .go + 1 < 2 ^ 64 := by
    have token := delivering.token
    omega
  have raised := View.counts_raise view few .go
  cases at_ : view.place thread with
  | up =>
      rw [at_] at here
      cases here
      exact delivering.go sparse at_ _ raised rfl rfl rfl (fun _ asks => by cases asks)
        (fun _ => delivering.stored_of_up sparse at_)
  | raise =>
      rw [at_] at here
      cases here
      exact delivering.go sparse at_ _ raised rfl rfl rfl (fun _ asks => by cases asks)
        (fun reads => by cases reads)
  | _ =>
      rw [at_] at here
      cases here

theorem enter_delivering (sparse : Sparse .idle view.place) (delivering : Delivering view)
    (idle : view.place thread = .idle) (entry : view.data.isEntry target = true) :
    Delivering { view.go thread target with data := enter view.data target } := by
  cases target with
  | check =>
      exact delivering.go sparse idle view.counts rfl rfl rfl rfl (fun _ asks => by cases asks)
        (fun reads => by cases reads)
  | assertNotReady v =>
      have nobody : view.data.called = none := Option.isNone_iff_eq_none.mp entry
      have notStored : view.data.stored ≠ true := by
        intro stored
        have called := delivering.kept stored
        rw [nobody] at called
        cases called
      apply delivering.exchange sparse idle view.counts (enter view.data (.assertNotReady v))
      · rw [nobody]
        rfl
      · rw [nobody]
        rfl
      · rw [nobody]
        rfl
      · rw [nobody]
        rfl
      · exact fun _ asks => asks
      · intro other called
        rw [nobody] at called
        cases called
      · exact fun reads => by cases reads
      · exact id
      · exact fun stored => absurd stored notStored
      · exact fun answer member => absurd (delivering.answers answer member).1 notStored
  | _ => cases entry

theorem access_delivering (sparse : Sparse .idle view.place) (delivering : Delivering view)
    {run : Future T → Option (Future T × FuturePoint T)} {data : Future T}
    (here : code (view.place thread) = .access run) (ran : run view.data = some (data, target)) :
    Delivering { view.go thread target with data := data } := by
  cases at_ : view.place thread with
  | check =>
      rw [at_] at here
      cases here
      obtain ⟨rfl, rfl⟩ := Prod.mk.inj (Option.some.inj ran)
      by_cases ready : view.data.isReady = true
      · rw [if_pos ready]
        exact delivering.go sparse at_ view.counts rfl rfl rfl rfl (fun _ asks => by cases asks)
          (fun _ => delivering.stored_of_ready ready)
      · rw [if_neg ready]
        exact delivering.go sparse at_ view.counts rfl rfl rfl rfl (fun _ asks => by cases asks)
          (fun reads => by cases reads)
  | read =>
      rw [at_] at here
      cases here
      cases ran
      have stored := delivering.reads thread at_
      refine delivering.exchange sparse at_ view.counts
        { view.data with answers := view.data.answers ++ [view.data.t] } rfl rfl rfl rfl
          ?_ ?_ ?_ ?_ ?_ ?_
      · exact fun _ asks => by cases asks
      · exact fun _ => id
      · exact fun reads => by cases reads
      · exact id
      · exact delivering.kept
      · intro answer member
        rcases List.mem_append.mp member with before | last
        · exact delivering.answers answer before
        · rw [List.mem_singleton.mp last]
          exact ⟨stored, delivering.kept stored⟩
  | assertNotReady v =>
      rw [at_] at here
      cases here
      change (if view.data.isReady = true then none else some (view.data, FuturePoint.ifReady v)) = _
        at ran
      have notReady := (delivering.not_ready_of_early sparse at_ rfl).2
      rw [if_neg fun ready => by rw [ready] at notReady; cases notReady] at ran
      cases ran
      exact delivering.go sparse at_ view.counts rfl rfl rfl rfl
        (fun other asks => delivering.asked thread other (at_ ▸ asks))
        (fun reads => by cases reads)
  | ifReady v =>
      rw [at_] at here
      cases here
      obtain ⟨rfl, rfl⟩ := Prod.mk.inj (Option.some.inj ran)
      have notReady := (delivering.not_ready_of_early sparse at_ rfl).2
      rw [if_neg fun ready => by rw [ready] at notReady; cases notReady]
      exact delivering.go sparse at_ view.counts rfl rfl rfl rfl
        (fun other asks => delivering.asked thread other (at_ ▸ asks))
        (fun reads => by cases reads)
  | store v =>
      rw [at_] at here
      cases here
      cases ran
      have notStored := (delivering.not_ready_of_early sparse at_ rfl).1
      have called : view.data.called = some v := delivering.asked thread v (at_ ▸ rfl)
      refine delivering.exchange sparse at_ view.counts { view.data with t := v, stored := true }
        rfl rfl ?_ rfl ?_ ?_ ?_ ?_ ?_ ?_
      · rw [notStored]
        rfl
      · exact fun _ asks => by cases asks
      · exact fun _ => id
      · exact fun _ => rfl
      · exact fun _ => rfl
      · exact fun _ => called
      · exact fun answer member => ⟨rfl, (delivering.answers answer member).2⟩
  | publish =>
      rw [at_] at here
      cases here
      cases ran
      have mine := at_least sparse at_ publishing rfl
      have isReady := delivering.isReady
      simp only [publishing] at mine
      have notReady : view.data.isReady.toNat = 0 := by omega
      refine delivering.exchange sparse at_ view.counts { view.data with isReady := true }
        rfl rfl rfl ?_ ?_ (fun _ => id) ?_ id delivering.kept delivering.answers
      · rw [notReady]
        rfl
      · exact fun _ asks => by cases asks
      · exact fun reads => by cases reads
  | finish =>
      rw [at_] at here
      cases here
      cases ran
      have mine := at_least sparse at_ finishing rfl
      have completed := delivering.completed
      simp only [finishing] at mine
      have notCompleted : view.data.completed.toNat = 0 := by omega
      refine delivering.exchange sparse at_ view.counts { view.data with completed := true }
        rfl ?_ rfl rfl ?_ (fun _ => id) ?_ id delivering.kept delivering.answers
      · rw [notCompleted]
        rfl
      · exact fun _ asks => by cases asks
      · exact fun reads => by cases reads
  | idle =>
      rw [at_] at here
      cases here
      cases ran
  | _ =>
      rw [at_] at here
      cases here

theorem move_delivering (sparse : Sparse .idle view.place) (delivering : Delivering view)
    (move : Move (program T) view next) : Delivering next := by
  cases move with
  | enter idle entry => exact enter_delivering sparse delivering idle entry
  | access here ran => exact access_delivering sparse delivering here ran
  | pass here positive => exact down_delivering sparse delivering here positive
  | raise here => exact up_delivering sparse delivering here

/-- Where nobody is between `down` and `up` and `set` is done, nobody has been taken from
the queue. -/
theorem nobody_woken (orderly : crew.Orderly (program T)) (sparse : Sparse .idle crew.view.place)
    (delivering : Delivering crew.view) (completed : crew.data.completed = true)
    (nobody : ∀ thread, ¬ Between (crew.stage thread)) (thread : Thread) :
    ¬ (crew.stage thread).Woken := by
  intro woken
  obtain ⟨waker, wakes⟩ := (orderly.handed.woken thread).mp woken
  have notBetween := nobody waker
  have lawful := orderly.lined.lawful waker
  cases at_ : crew.stage waker with
  | waking other after =>
      rw [at_] at notBetween lawful
      obtain ⟨sem, before, code⟩ := lawful
      cases before <;> cases code
      · exact notBetween trivial
      · have mine := at_least sparse (congrArg Stage.place at_) finishing rfl
        have none_ := (delivering.token_left completed).2
        simp only [Stage.place, finishing] at mine
        omega
  | running point =>
      rw [at_] at wakes
      cases wakes
  | waiting sem before after =>
      rw [at_] at wakes
      cases wakes
  | woken after =>
      rw [at_] at wakes
      cases wakes

/-- Every `get` that returns returns the value that was set, and none returns before it
is stored.  When `set` is done and no thread is between `down` and `up`, no thread is
blocked; nor is one in the queue when no thread has been let through to `up`. -/
theorem future_delivers {t : T}
    (reached : (program T).machine.Reached ((program T).start (fun _ => 0) (new t)) crew) :
    (∀ v ∈ crew.data.answers, crew.data.called = some v) ∧
      (crew.data.answers ≠ [] → crew.data.stored = true) ∧
      (crew.data.completed = true → (∀ thread, ¬ Between (crew.stage thread)) →
        ∀ thread, ¬ Blocked (crew.stage thread)) ∧
      (crew.data.completed = true → (∀ thread, (crew.stage thread).place ≠ .up) →
        ∀ thread, (crew.stage thread).waitsFor ≠ some .go) := by
  obtain ⟨orderly, sparse, delivering⟩ := reached_view Delivering
    (start_delivering (fun _ => 0) rfl t)
    (fun _ _ sparse delivering move => move_delivering sparse delivering move) reached
  refine ⟨fun v member => (delivering.answers v member).2, ?_, ?_, ?_⟩
  · intro some_
    obtain ⟨v, member⟩ := List.exists_mem_of_ne_nil crew.data.answers some_
    exact (delivering.answers v member).1
  · intro completed nobody thread blocked
    have notWoken := nobody_woken orderly sparse delivering completed nobody
    have notUp (other : Thread) : (crew.stage other).place ≠ .up :=
      nobody_up orderly (nobody other) (notWoken other)
    rcases blocked with waits | woken
    · exact nobody_waits orderly delivering completed notUp thread waits
    · exact notWoken thread woken
  · intro completed nobody thread
    exact nobody_waits orderly delivering completed nobody thread

instance instDecidablePermits (future : Future T) (point : FuturePoint T) :
    Decidable ((program T).permits future point) :=
  inferInstanceAs (Decidable (_ = true))

/-- Two threads wait for a value, a third one sets it, and they pass the token on. -/
def waitAndSet : List (Action Nat (FuturePoint Nat)) :=
  [.call 0 .check, .run 0, .run 0, .call 1 .check, .run 1, .run 1,
    .call 2 (.assertNotReady 7), .run 2, .run 2, .run 2, .run 2, .run 2, .schedule 2, .run 2,
    .run 0, .schedule 0, .run 0, .run 1, .run 1]

theorem future_delivers_sample :
    ∃ crew, (program Nat).machine.run ((program Nat).start (fun _ => 0) (new 0)) waitAndSet =
        some crew ∧ crew.data.answers = [7, 7] ∧ crew.data.called = some 7 := by
  have ran : ((program Nat).machine.run ((program Nat).start (fun _ => 0) (new 0))
      waitAndSet).map (fun crew => crew.data.answers) = some [7, 7] := by decide
  obtain ⟨crew, final, answers⟩ := Option.map_eq_some_iff.mp ran
  have lawful : (program Nat).machine.Lawful ((program Nat).start (fun _ => 0) (new 0))
      waitAndSet := by decide
  obtain ⟨all, _⟩ := future_delivers ⟨waitAndSet, lawful, final⟩
  exact ⟨crew, final, answers, all 7 (answers ▸ List.mem_cons_self)⟩

end Future

end AC97Kernel.Sync
