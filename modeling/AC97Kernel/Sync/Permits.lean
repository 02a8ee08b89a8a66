/-
Threads and semaphores without the queues.

For what the semaphores let through, only their counts and the points of the
threads matter.  To take a thread from a queue is to raise the count and to have
that thread pass at once, so that every step is a few moves of counts and points.
-/

import AC97Kernel.Sync.Queues

set_option autoImplicit false

namespace AC97Kernel.Sync

open Function Census

structure View (Thread Sem Data Point : Type) where
  counts : Sem → Nat
  place : Thread → Point
  data : Data

variable {Thread Sem Data Point : Type}

def Crew.view (crew : Crew Thread Sem Data Point) : View Thread Sem Data Point where
  counts sem := (crew.sems sem).count
  place thread := (crew.stage thread).place
  data := crew.data

variable {program : Program Sem Data Point} {crew after : Crew Thread Sem Data Point}

theorem place_running {thread : Thread} {point : Point}
    (here : crew.stage thread = .running point) : crew.view.place thread = point :=
  congrArg Stage.place here

theorem start_census {weight : Point → Nat} (idle : weight program.idle = 0)
    (counts : Sem → Nat) (data : Data) :
    census weight (program.start counts data : Crew Thread Sem Data Point).view.place = 0 :=
  census_rest idle

section Places

variable [DecidableEq Thread]

def View.go (view : View Thread Sem Data Point) (thread : Thread) (point : Point) :
    View Thread Sem Data Point :=
  { view with place := update view.place thread point }

@[simp] theorem View.go_self (view : View Thread Sem Data Point) (thread : Thread)
    (point : Point) : (view.go thread point).place thread = point := by
  change update view.place thread point thread = point
  rw [update_self]

@[simp] theorem View.go_other (view : View Thread Sem Data Point) {thread other : Thread}
    (apart : other ≠ thread) (point : Point) :
    (view.go thread point).place other = view.place other := by
  change update view.place thread point other = view.place other
  rw [update_of_ne apart]

theorem view_setStage (crew : Crew Thread Sem Data Point) (thread : Thread)
    (stage : Stage Thread Sem Point) :
    (crew.setStage thread stage).view = crew.view.go thread stage.place := by
  have places : (fun other => (update crew.stage thread stage other).place) =
      update crew.view.place thread stage.place := comp_update Stage.place crew.stage thread stage
  exact congrArg (fun place => { crew.view with place := place }) places

theorem view_setData (thread : Thread) (stage : Stage Thread Sem Point) (data : Data) :
    Crew.view { crew.setStage thread stage with data := data } =
      { crew.view.go thread stage.place with data := data } :=
  congrArg (fun view : View Thread Sem Data Point => { view with data := data })
    (view_setStage crew thread stage)

/-- Two threads may go in either order. -/
theorem View.go_comm (view : View Thread Sem Data Point) {one other : Thread}
    (apart : one ≠ other) (first second : Point) :
    (view.go one first).go other second = (view.go other second).go one first :=
  congrArg (fun place => { view with place := place }) (update_comm apart first second view.place)

theorem View.go_stays (view : View Thread Sem Data Point) (thread : Thread) :
    view.go thread (view.place thread) = view :=
  congrArg (fun place => { view with place := place }) (update_eq_self thread view.place)

end Places

section Counts

variable [DecidableEq Sem]

def View.setCount (view : View Thread Sem Data Point) (sem : Sem) (count : Nat) :
    View Thread Sem Data Point :=
  { view with counts := update view.counts sem count }

theorem view_setSem (sem : Sem) (semaphore : Semaphore Thread) :
    (crew.setSem sem semaphore).view = crew.view.setCount sem semaphore.count := by
  have counts : (fun other => (update crew.sems sem semaphore other).count) =
      update crew.view.counts sem semaphore.count :=
    comp_update Semaphore.count crew.sems sem semaphore
  exact congrArg (fun counts => { crew.view with counts := counts }) counts

theorem View.setCount_stays (view : View Thread Sem Data Point) (sem : Sem) :
    view.setCount sem (view.counts sem) = view :=
  congrArg (fun counts => { view with counts := counts }) (update_eq_self sem view.counts)

theorem View.setCount_twice (view : View Thread Sem Data Point) (sem : Sem) (first second : Nat) :
    (view.setCount sem first).setCount sem second = view.setCount sem second :=
  congrArg (fun counts => { view with counts := counts }) (update_idem first second view.counts)

/-- What a `down` or an `up` of a semaphore changes of a count. -/
def concerns (sem name : Sem) : Nat := if name = sem then 1 else 0

theorem View.counts_pass (view : View Thread Sem Data Point) {sem : Sem}
    (positive : 0 < view.counts sem) (name : Sem) :
    (view.setCount sem (view.counts sem - 1)).counts name + concerns sem name =
      view.counts name := by
  unfold concerns
  by_cases same : name = sem
  · subst same
    rw [if_pos rfl]
    change update view.counts name _ name + 1 = _
    rw [update_self]
    omega
  · rw [if_neg same]
    exact update_of_ne same _ _

theorem View.counts_raise (view : View Thread Sem Data Point) {sem : Sem}
    (small : view.counts sem + 1 < 2 ^ 64) (name : Sem) :
    (view.setCount sem ((view.counts sem + 1) % 2 ^ 64)).counts name =
      view.counts name + concerns sem name := by
  unfold concerns
  by_cases same : name = sem
  · subst same
    rw [if_pos rfl]
    change update view.counts name _ name = _
    rw [update_self, Nat.mod_eq_of_lt small]
  · rw [if_neg same]
    exact update_of_ne same _ _

end Counts

variable [DecidableEq Thread] [DecidableEq Sem]

inductive Move (program : Program Sem Data Point) (view : View Thread Sem Data Point) :
    View Thread Sem Data Point → Prop where
  | enter {thread : Thread} {point : Point} (idle : view.place thread = program.idle)
      (permitted : program.permits view.data point) :
      Move program view { view.go thread point with data := program.enter view.data point }
  | access {thread : Thread} {next : Point} {run : Data → Option (Data × Point)} {data : Data}
      (code : program.code (view.place thread) = .access run)
      (ran : run view.data = some (data, next)) :
      Move program view { view.go thread next with data := data }
  | pass {thread : Thread} {sem : Sem} {next : Point}
      (code : program.code (view.place thread) = .down sem next)
      (positive : 0 < view.counts sem) :
      Move program view ((view.setCount sem (view.counts sem - 1)).go thread next)
  | raise {thread : Thread} {sem : Sem} {next : Point}
      (code : program.code (view.place thread) = .up sem next) :
      Move program view ((view.setCount sem ((view.counts sem + 1) % 2 ^ 64)).go thread next)

/-- To take a thread from the queue is to raise the count and to let the thread pass. -/
theorem wake_moves (orderly : crew.Orderly program) {thread other : Thread} {sem : Sem}
    {point next : Point} {rest : List Thread} (here : crew.stage thread = .running point)
    (code : program.code point = .up sem next)
    (first : (crew.sems sem).waiting = other :: rest) :
    Relation.ReflTransGen (Move program) crew.view
      (((crew.setSem sem { crew.sems sem with waiting := rest }).setStage other
        (crew.stage other).wake).setStage thread (.waking other next)).view := by
  obtain ⟨before, target, waits, downCode⟩ := orderly.lined.first_waits first
  have apart : other ≠ thread := by
    intro same
    rw [same, here] at waits
    cases waits
  have zero : crew.view.counts sem = 0 := by
    apply Nat.eq_zero_of_not_pos
    intro positive
    have nobody := orderly.lined.closed sem positive
    rw [first] at nobody
    cases nobody
  have otherPlace : crew.view.place other = before := congrArg Stage.place waits
  rw [view_setStage, view_setStage, view_setSem, waits]
  change Relation.ReflTransGen (Move program) crew.view
    (((crew.view.setCount sem (crew.view.counts sem)).go other target).go thread next)
  rw [View.go_comm _ apart]
  have raised : Move program crew.view ((crew.view.setCount sem 1).go thread next) := by
    have raises : Move program crew.view
        ((crew.view.setCount sem ((crew.view.counts sem + 1) % 2 ^ 64)).go thread next) :=
      .raise ((place_running here).symm ▸ code)
    rwa [zero] at raises
  have otherCode : program.code (((crew.view.setCount sem 1).go thread next).place other) =
      .down sem target := by
    change program.code (update crew.view.place thread next other) = _
    rw [update_of_ne apart, otherPlace]
    exact downCode
  have one : ((crew.view.setCount sem 1).go thread next).counts sem = 1 := update_self _ _ _
  have passed := Move.pass otherCode (by rw [one]; exact Nat.one_pos)
  have settled : (((crew.view.setCount sem 1).go thread next).setCount sem (1 - 1)) =
      (crew.view.setCount sem (crew.view.counts sem)).go thread next := by
    rw [zero]
    exact congrArg (fun view => View.go view thread next) (View.setCount_twice _ _ _ _)
  rw [one, settled] at passed
  exact .tail (.single raised) passed

/-- Every step is made of moves. -/
theorem effect_moves {action : Action Thread Point} (orderly : crew.Orderly program)
    (effect : Effect program crew action after) :
    Relation.ReflTransGen (Move program) crew.view after.view := by
  cases effect with
  | enter idle permitted =>
      rw [view_setData]
      exact .single (.enter (place_running idle) permitted)
  | access here code ran =>
      rw [view_setData]
      exact .single (.access ((place_running here).symm ▸ code) ran)
  | pass here code positive =>
      rw [view_setStage, view_setSem]
      exact .single (.pass ((place_running here).symm ▸ code) positive)
  | @block thread sem point next here code zero =>
      have stays : ((crew.view.setCount sem (crew.view.counts sem)).go thread
          (crew.view.place thread)) = crew.view := by
        rw [View.setCount_stays, View.go_stays]
      rw [place_running here] at stays
      rw [view_setStage, view_setSem]
      change Relation.ReflTransGen _ _
        ((crew.view.setCount sem (crew.view.counts sem)).go thread point)
      rw [stays]
  | raise here code nobody =>
      rw [view_setStage, view_setSem]
      exact .single (.raise ((place_running here).symm ▸ code))
  | wake here code first => exact wake_moves orderly here code first
  | @schedule thread other next point here woken =>
      have first : crew.view.go other point = crew.view := by
        have stays := crew.view.go_stays other
        rwa [show crew.view.place other = point from congrArg Stage.place woken] at stays
      have second : crew.view.go thread next = crew.view := by
        have stays := crew.view.go_stays thread
        rwa [show crew.view.place thread = next from congrArg Stage.place here] at stays
      rw [view_setStage, view_setStage]
      change Relation.ReflTransGen _ _ ((crew.view.go other point).go thread next)
      rw [first, second]

/-- A move takes one thread to another point. -/
theorem Move.sparse {view next : View Thread Sem Data Point} {rest : Point}
    (move : Move program view next) (sparse : Sparse rest view.place) :
    Sparse rest next.place := by
  cases move with
  | enter idle permitted => exact sparse.move _ _
  | access code ran => exact sparse.move _ _
  | pass code positive => exact sparse.move _ _
  | raise code => exact sparse.move _ _

/-- What every move keeps holds in every state that is reached, and the queues are in
order there. -/
theorem reached_view {counts : Sem → Nat} {data : Data}
    (holds : View Thread Sem Data Point → Prop)
    (initially : holds (program.start counts data : Crew Thread Sem Data Point).view)
    (moves : ∀ view next, Sparse program.idle view.place → holds view →
      Move program view next → holds next)
    (reached : program.machine.Reached (program.start counts data) crew) :
    crew.Orderly program ∧ Sparse program.idle crew.view.place ∧ holds crew.view := by
  have keeps (first last : View Thread Sem Data Point)
      (chain : Relation.ReflTransGen (Move program) first last)
      (both : Sparse program.idle first.place ∧ holds first) :
      Sparse program.idle last.place ∧ holds last := by
    induction chain with
    | refl => exact both
    | tail _ move ih => exact ⟨move.sparse ih.1, moves _ _ ih.1 ih.2 move⟩
  apply reached.preserves (fun crew => crew.Orderly program ∧
    Sparse program.idle crew.view.place ∧ holds crew.view)
  · intro before action after ⟨orderly, both⟩ permitted stepped
    have effect := step_effect permitted stepped
    exact ⟨effect_orderly orderly effect, keeps _ _ (effect_moves orderly effect) both⟩
  · exact ⟨start_orderly program counts data, sparse_rest program.idle, initially⟩

end AC97Kernel.Sync
