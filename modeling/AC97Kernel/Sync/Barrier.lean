/-
The one-shot barrier of kernel/barrier.h, which as many threads pass as it was made for.

Each thread calls `sync` once: from the point `returned` there is no way on.  `called`
and `decremented` are no fields: they count the calls, and those that have taken one
from the count.
-/

import AC97Kernel.Sync.Permits

set_option autoImplicit false

namespace AC97Kernel.Sync

open Function Census

inductive BarrierSem where
  | sem
  deriving DecidableEq

structure Barrier where
  count : Int
  called : Nat
  decremented : Nat

/-- The points of `sync`: `last` is its first `up`, and `up` the one after the `down`. -/
inductive BarrierPoint where
  | idle
  | decrement
  | panic
  | last
  | down
  | up
  | returned
  deriving DecidableEq

namespace Barrier

/-- `count.add_fetch(-1)`, which wraps as a signed 32-bit number does. -/
def addFetch (barrier : Barrier) : Int := (barrier.count - 1).bmod (2 ^ 32)

/-- Where `sync` goes on with the count that it has left. -/
def branch (x : Int) : BarrierPoint :=
  if x < 0 then .panic else if x = 0 then .last else .down

def code : BarrierPoint → Instruction BarrierSem Barrier BarrierPoint
  | .idle => .access fun _ => none
  | .decrement => .access fun barrier =>
      some ({ barrier with
        count := barrier.addFetch, decremented := barrier.decremented + 1 },
        branch barrier.addFetch)
  | .panic => .access fun _ => none
  | .last => .up .sem .returned
  | .down => .down .sem .up
  | .up => .up .sem .returned
  | .returned => .access fun _ => none

/-- The program of `n` threads, or of fewer as long as not all have called. -/
def program (n : UInt32) : Program BarrierSem Barrier BarrierPoint where
  idle := .idle
  permits barrier point := point = .decrement ∧ barrier.called < n.toNat
  enter barrier _ := { barrier with called := barrier.called + 1 }
  code := code

/-- The constructor, which puts an unsigned number into a signed one. -/
def new (n : UInt32) : Barrier where
  count := (n.toNat : Int).bmod (2 ^ 32)
  called := 0
  decremented := 0

section Weights

/-- In `sync`, before the count is decremented. -/
def deciding : BarrierPoint → Nat
  | .decrement => 1
  | _ => 0

/-- Between `down` and `up`. -/
def holding : BarrierPoint → Nat
  | .up => 1
  | _ => 0

/-- Before the `up` of the thread that found the count at 0. -/
def opening : BarrierPoint → Nat
  | .last => 1
  | _ => 0

end Weights

/-- The tokens in use: one as soon as all have decremented. -/
def tokens (n : UInt32) (barrier : Barrier) : Nat :=
  if barrier.decremented = n.toNat then 1 else 0

variable {Thread : Type} {n : UInt32}

/-- The invariant of the moves.  The token is made by the thread that decrements last, and
every other thread takes it and puts it back. -/
structure Opening (n : UInt32) (view : View Thread BarrierSem Barrier BarrierPoint) : Prop where
  count : view.data.count = ((n.toNat : Int) - view.data.decremented).bmod (2 ^ 32)
  called : view.data.decremented + census deciding view.place = view.data.called
  few : view.data.called ≤ n.toNat
  token : view.counts .sem + census holding view.place + census opening view.place =
    view.data.tokens n
  returned : ∀ thread, view.place thread = .returned → view.data.decremented = n.toNat

variable {view next : View Thread BarrierSem Barrier BarrierPoint}

theorem new_count (n : UInt32) :
    (new n).count = ((n.toNat : Int) - (new n).decremented).bmod (2 ^ 32) := by
  unfold new
  simp only [Int.natCast_zero, Int.sub_zero]

theorem start_opening (counts : BarrierSem → Nat) (zero : counts .sem = 0)
    (positive : 1 ≤ n.toNat) :
    Opening n ((program n).start counts (new n) :
      Crew Thread BarrierSem Barrier BarrierPoint).view := by
  have nobody (weight : BarrierPoint → Nat) (idle : weight .idle = 0) :=
    @start_census Thread _ _ _ (program n) weight idle counts (new n)
  have noDeciding := nobody deciding rfl
  have noHolding := nobody holding rfl
  have noOpening := nobody opening rfl
  constructor
  · exact new_count n
  · rw [noDeciding]
    rfl
  · exact Nat.zero_le _
  · rw [noHolding, noOpening]
    change counts .sem + 0 + 0 = if 0 = n.toNat then 1 else 0
    rw [zero, if_neg (by omega)]
  · intro thread impossible
    cases impossible

/-- The count that is left says how many threads are still to come. -/
theorem Opening.addFetch_eq (opened : Opening n view) :
    view.data.addFetch = ((n.toNat : Int) - (view.data.decremented + 1)).bmod (2 ^ 32) := by
  have whole : (n.toNat : Int) - view.data.decremented - 1 =
      (n.toNat : Int) - (view.data.decremented + 1) := by omega
  unfold addFetch
  rw [opened.count, Int.bmod_sub_bmod, whole]

/-- Only the last thread finds the count at 0. -/
theorem Opening.addFetch_zero_iff (opened : Opening n view)
    (more : view.data.decremented < n.toNat) :
    view.data.addFetch = 0 ↔ view.data.decremented + 1 = n.toNat := by
  have small := n.toNat_lt
  rw [opened.addFetch_eq, Int.bmod_def]
  omega

/-- Whoever finds the count at 0 goes on to an `up`, and nobody else does. -/
theorem branch_tokens (x : Int) :
    holding (branch x) + opening (branch x) = if x = 0 then 1 else 0 := by
  unfold branch
  by_cases negative : x < 0
  · rw [if_pos negative, if_neg (Int.ne_of_lt negative)]
    rfl
  · rw [if_neg negative]
    by_cases zero : x = 0
    · rw [if_pos zero, if_pos zero]
      rfl
    · rw [if_neg zero, if_neg zero]
      rfl

theorem branch_inside (x : Int) : deciding (branch x) = 0 ∧ branch x ≠ .returned := by
  unfold branch
  split
  · exact ⟨rfl, (nomatch ·)⟩
  · split
    · exact ⟨rfl, (nomatch ·)⟩
    · exact ⟨rfl, (nomatch ·)⟩

/-- In `sync`, with an `up` to make or to finish. -/
def Between : Stage Thread BarrierSem BarrierPoint → Prop
  | .running .up => True
  | .running .last => True
  | .waking _ .returned => True
  | _ => False

/-- In a `down` that has not returned. -/
def Blocked (stage : Stage Thread BarrierSem BarrierPoint) : Prop :=
  stage.waitsFor = some .sem ∨ stage.Woken

variable {crew : Crew Thread BarrierSem Barrier BarrierPoint}

/-- Where no thread has the token, nobody waits for it. -/
theorem nobody_waits (orderly : crew.Orderly (program n)) (opened : Opening n crew.view)
    (all : crew.data.decremented = n.toNat)
    (nobody : ∀ thread, (crew.stage thread).place ≠ .up ∧ (crew.stage thread).place ≠ .last)
    (thread : Thread) : (crew.stage thread).waitsFor ≠ some .sem := by
  intro waits
  have noHolding : census holding crew.view.place = 0 := by
    apply census_zero
    intro other
    have elsewhere := (nobody other).1
    change holding (crew.stage other).place = 0
    cases at_ : (crew.stage other).place with
    | up => exact absurd at_ elsewhere
    | _ => rfl
  have noOpening : census opening crew.view.place = 0 := by
    apply census_zero
    intro other
    have elsewhere := (nobody other).2
    change opening (crew.stage other).place = 0
    cases at_ : (crew.stage other).place with
    | last => exact absurd at_ elsewhere
    | _ => rfl
  have token := opened.token
  unfold tokens at token
  rw [noHolding, noOpening, if_pos (show crew.view.data.decremented = n.toNat from all)] at token
  have empty := orderly.lined.closed .sem (by change 0 < crew.view.counts .sem; omega)
  have queued := (orderly.lined.queued thread .sem).mpr waits
  rw [empty] at queued
  cases queued

/-- Whoever is taken from the queue is taken by a thread in its `up`. -/
theorem nobody_woken (orderly : crew.Orderly (program n))
    (nobody : ∀ thread, ¬ Between (crew.stage thread)) (thread : Thread) :
    ¬ (crew.stage thread).Woken := by
  intro woken
  obtain ⟨waker, wakes⟩ := (orderly.handed.woken thread).mp woken
  have notBetween := nobody waker
  have lawful := orderly.lined.lawful waker
  cases at_ : crew.stage waker with
  | waking other after =>
      rw [at_] at notBetween lawful
      obtain ⟨name, before, code⟩ := lawful
      cases before <;> cases code
      · exact notBetween trivial
      · exact notBetween trivial
  | running point =>
      rw [at_] at wakes
      cases wakes
  | waiting name before after =>
      rw [at_] at wakes
      cases wakes
  | woken after =>
      rw [at_] at wakes
      cases wakes

/-- Whoever has the token is between `down` and `up`, or has been taken from the queue. -/
theorem nobody_up (orderly : crew.Orderly (program n)) {thread : Thread}
    (notBetween : ¬ Between (crew.stage thread)) (notWoken : ¬ (crew.stage thread).Woken) :
    (crew.stage thread).place ≠ .up ∧ (crew.stage thread).place ≠ .last := by
  have lawful := orderly.lined.lawful thread
  cases at_ : crew.stage thread with
  | running point =>
      rw [at_] at notBetween
      constructor
      · intro up
        cases up
        exact notBetween trivial
      · intro last
        cases last
        exact notBetween trivial
  | waiting name before after =>
      rw [at_] at lawful
      cases before <;> cases lawful
      exact ⟨(nomatch ·), (nomatch ·)⟩
  | woken after =>
      rw [at_] at notWoken
      exact absurd trivial notWoken
  | waking other after =>
      rw [at_] at lawful
      obtain ⟨name, before, code⟩ := lawful
      cases before <;> cases code
      · exact ⟨(nomatch ·), (nomatch ·)⟩
      · exact ⟨(nomatch ·), (nomatch ·)⟩

/-- A thread that is not done with its `up` was let through after the last decrement. -/
theorem Opening.all_of_token (opened : Opening n view)
    (some_ : 1 ≤ view.counts .sem + census holding view.place + census opening view.place) :
    view.data.decremented = n.toNat := by
  by_contra notAll
  have token := opened.token
  unfold tokens at token
  rw [if_neg notAll] at token
  omega

variable [DecidableEq Thread] {thread : Thread} {point target : BarrierPoint}

/-- What one thread and the semaphore have together changes with the tokens in use. -/
theorem Opening.exchange (sparse : Sparse .idle view.place) (opened : Opening n view)
    (here : view.place thread = point) (counts : BarrierSem → Nat) (data : Barrier)
    (count : data.count = ((n.toNat : Int) - data.decremented).bmod (2 ^ 32))
    (called : data.decremented + deciding target + view.data.called =
      view.data.decremented + deciding point + data.called)
    (few : data.called ≤ n.toNat)
    (token : counts .sem + holding target + opening target + view.data.tokens n =
      view.counts .sem + holding point + opening point + data.tokens n)
    (returns : target = .returned → data.decremented = n.toNat)
    (stays : view.data.decremented = n.toNat → data.decremented = n.toNat) :
    Opening n { view.go thread target with counts := counts, data := data } := by
  have goDeciding := @census_move _ _ _ _ deciding _ sparse rfl thread target
  have goHolding := @census_move _ _ _ _ holding _ sparse rfl thread target
  have goOpening := @census_move _ _ _ _ opening _ sparse rfl thread target
  rw [here] at goDeciding goHolding goOpening
  refine ⟨count, ?_, few, ?_, ?_⟩
  · have law := opened.called
    change data.decremented + census deciding (update view.place thread target) = data.called
    omega
  · have law := opened.token
    change counts .sem + census holding (update view.place thread target) +
      census opening (update view.place thread target) = data.tokens n
    omega
  · intro other returned
    change (view.go thread target).place other = .returned at returned
    by_cases same : other = thread
    · subst same
      rw [View.go_self] at returned
      exact returns returned
    · rw [View.go_other _ same] at returned
      exact stays (opened.returned other returned)

/-- A thread goes on, and the barrier stays. -/
theorem Opening.go (sparse : Sparse .idle view.place) (opened : Opening n view)
    (here : view.place thread = point) (counts : BarrierSem → Nat)
    (token : counts .sem + holding target + opening target =
      view.counts .sem + holding point + opening point)
    (decides : deciding target = deciding point)
    (returns : target = .returned → view.data.decremented = n.toNat) :
    Opening n { view.go thread target with counts := counts } := by
  apply opened.exchange sparse here counts view.data
  · exact opened.count
  · omega
  · exact opened.few
  · omega
  · exact returns
  · exact id

theorem down_opening (sparse : Sparse .idle view.place) (opened : Opening n view)
    {name : BarrierSem} (here : code (view.place thread) = .down name target)
    (positive : 0 < view.counts name) :
    Opening n ((view.setCount name (view.counts name - 1)).go thread target) := by
  have passed := View.counts_pass view positive .sem
  cases at_ : view.place thread with
  | down =>
      rw [at_] at here
      cases here
      exact opened.go sparse at_ _ passed rfl (fun impossible => by cases impossible)
  | _ =>
      rw [at_] at here
      cases here

theorem up_opening (sparse : Sparse .idle view.place) (opened : Opening n view)
    {name : BarrierSem} (here : code (view.place thread) = .up name target) :
    Opening n ((view.setCount name ((view.counts name + 1) % 2 ^ 64)).go thread target) := by
  have few : view.counts .sem + 1 < 2 ^ 64 := by
    have token := opened.token
    unfold tokens at token
    split at token <;> omega
  have raised := View.counts_raise view few .sem
  cases at_ : view.place thread with
  | last =>
      have mine := @le_census _ _ _ _ opening _ sparse rfl thread
      rw [at_] at here mine
      cases here
      refine opened.go sparse at_ _ raised rfl fun _ => opened.all_of_token ?_
      simp only [opening] at mine
      omega
  | up =>
      have mine := @le_census _ _ _ _ holding _ sparse rfl thread
      rw [at_] at here mine
      cases here
      refine opened.go sparse at_ _ raised rfl fun _ => opened.all_of_token ?_
      simp only [holding] at mine
      omega
  | _ =>
      rw [at_] at here
      cases here

theorem enter_opening (sparse : Sparse .idle view.place) (opened : Opening n view)
    (idle : view.place thread = .idle) (permitted : (program n).permits view.data target) :
    Opening n { view.go thread target with data := (program n).enter view.data target } := by
  obtain ⟨rfl, more⟩ := permitted
  apply opened.exchange sparse idle view.counts { view.data with called := view.data.called + 1 }
  · exact opened.count
  · simp only [deciding]
    omega
  · exact more
  · rfl
  · exact (nomatch ·)
  · exact id

/-- The thread that finds the count at 0 is the last one, and makes the token. -/
theorem decrement_opening (sparse : Sparse .idle view.place) (opened : Opening n view)
    (here : view.place thread = .decrement) :
    Opening n { view.go thread (branch view.data.addFetch) with
      data := { view.data with
        count := view.data.addFetch, decremented := view.data.decremented + 1 } } := by
  have mine := @le_census _ _ _ _ deciding _ sparse rfl thread
  rw [here] at mine
  have more : view.data.decremented < n.toNat := by
    have called := opened.called
    have few := opened.few
    simp only [deciding] at mine
    omega
  have lastIff := opened.addFetch_zero_iff more
  have notBefore : view.data.decremented ≠ n.toNat := Nat.ne_of_lt more
  have handed := branch_tokens view.data.addFetch
  obtain ⟨notDeciding, notReturned⟩ := branch_inside view.data.addFetch
  apply opened.exchange sparse here view.counts
    { view.data with
      count := view.data.addFetch, decremented := view.data.decremented + 1 }
  · change view.data.addFetch = _
    rw [opened.addFetch_eq, Int.natCast_succ]
  · rw [notDeciding]
    simp only [deciding]
  · exact opened.few
  · rw [Nat.add_assoc (view.counts .sem), handed]
    simp only [tokens, lastIff, if_neg notBefore, holding, opening]
    omega
  · exact fun returned => absurd returned notReturned
  · exact fun all => absurd all notBefore

theorem move_opening (sparse : Sparse .idle view.place) (opened : Opening n view)
    (move : Move (program n) view next) : Opening n next := by
  cases move with
  | enter idle permitted => exact enter_opening sparse opened idle permitted
  | @access thread _ run _ here ran =>
      cases at_ : view.place thread with
      | decrement =>
          rw [at_] at here
          cases here
          cases ran
          exact decrement_opening sparse opened at_
      | idle =>
          rw [at_] at here
          cases here
          cases ran
      | panic =>
          rw [at_] at here
          cases here
          cases ran
      | returned =>
          rw [at_] at here
          cases here
          cases ran
      | _ =>
          rw [at_] at here
          cases here
  | pass here positive => exact down_opening sparse opened here positive
  | raise here => exact up_opening sparse opened here

/-- No `sync` returns before all `n` threads have decremented the count.  When they have,
and no thread has an `up` to make or to finish, no thread is blocked; nor is one in the
queue when no thread has been let through to its `up`. -/
theorem barrier_opens (positive : 1 ≤ n.toNat)
    (reached : (program n).machine.Reached ((program n).start (fun _ => 0) (new n)) crew) :
    (∀ thread, crew.stage thread = .running .returned → crew.data.decremented = n.toNat) ∧
      (crew.data.decremented = n.toNat → (∀ thread, ¬ Between (crew.stage thread)) →
        ∀ thread, ¬ Blocked (crew.stage thread)) ∧
      (crew.data.decremented = n.toNat →
        (∀ thread, (crew.stage thread).place ≠ .up ∧ (crew.stage thread).place ≠ .last) →
        ∀ thread, (crew.stage thread).waitsFor ≠ some .sem) := by
  obtain ⟨orderly, sparse, opened⟩ := reached_view (Opening n)
    (start_opening (fun _ => 0) rfl positive)
    (fun _ _ sparse opened move => move_opening sparse opened move) reached
  refine ⟨?_, ?_, ?_⟩
  · intro thread returned
    exact opened.returned thread (place_running returned)
  · intro all nobody thread blocked
    have notWoken := nobody_woken orderly nobody
    have notUp (other : Thread) := nobody_up orderly (nobody other) (notWoken other)
    rcases blocked with waits | woken
    · exact nobody_waits orderly opened all notUp thread waits
    · exact notWoken thread woken
  · intro all nobody thread
    exact nobody_waits orderly opened all nobody thread

instance instDecidablePermits (n : UInt32) (barrier : Barrier) (point : BarrierPoint) :
    Decidable ((program n).permits barrier point) :=
  inferInstanceAs (Decidable (_ ∧ _))

/-- Two threads wait, the third one opens the barrier, and they pass the token on. -/
def syncAll : List (Action Nat BarrierPoint) :=
  [.call 0 .decrement, .run 0, .run 0, .call 1 .decrement, .run 1, .run 1,
    .call 2 .decrement, .run 2, .run 2, .schedule 2, .run 0, .schedule 0, .run 1]

theorem barrier_opens_sample :
    ∃ crew, (program 3).machine.run ((program 3).start (fun _ => 0) (new 3)) syncAll =
        some crew ∧ crew.stage 1 = .running .returned ∧ crew.data.decremented = 3 := by
  have ran : ((program 3).machine.run ((program 3).start (fun _ => 0) (new 3))
      syncAll).map (fun crew : Crew Nat BarrierSem Barrier BarrierPoint => crew.stage 1) =
        some (.running .returned) := by decide
  obtain ⟨crew, final, returned⟩ := Option.map_eq_some_iff.mp ran
  have lawful : (program 3).machine.Lawful ((program 3).start (fun _ => 0) (new 3))
      syncAll := by decide
  obtain ⟨all, _⟩ := @barrier_opens Nat 3 _ _ (by decide) ⟨syncAll, lawful, final⟩
  exact ⟨crew, final, returned, all 1 returned⟩

end Barrier

end AC97Kernel.Sync
