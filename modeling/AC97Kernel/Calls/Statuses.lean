/-
Who gets the status of a process, however processes fork, exit, wait and close.

What two processes have in common are the outputs and the semaphores of the users.  Every
output moves as the future of Sync/Future.lean does: a step of a process is a move of the
output that it is at, and the others do not see it.
-/

import AC97Kernel.Calls.Parents

set_option autoImplicit false

namespace AC97Kernel.Processes

open Function Sync Census

variable {File Thread : Type} {place : Thread → Point File} {processes after : Processes File}
  {thread : Thread} {pid child : Pid} {next : Point File}

/-! ### The outputs as futures -/

/-- The output that a thread is at, and the point of the future there. -/
def Point.inside : Point File → Option (Pid × FuturePoint (BitVec 32))
  | .getting _ _ child point => some (child, point)
  | .setting pid point => some (pid, point)
  | _ => none

/-- The same call, at another point of the future. -/
def Point.at : Point File → FuturePoint (BitVec 32) → Point File
  | .getting pid index child _, point => .getting pid index child point
  | .setting pid _, point => .setting pid point
  | here, _ => here

/-- The last point in the future. -/
def Point.Last : Point File → Prop
  | .getting _ _ _ .read => True
  | .setting _ .finish => True
  | _ => False

/-- What the output of `child` sees of a thread. -/
def Point.future (child : Pid) (here : Point File) : FuturePoint (BitVec 32) :=
  match here.inside with
  | some (other, point) => if other = child then point else .idle
  | none => .idle

theorem future_inside {here : Point File} {point : FuturePoint (BitVec 32)}
    (inside : here.inside = some (child, point)) : here.future child = point := by
  unfold Point.future
  rw [inside]
  exact if_pos rfl

theorem future_apart {here : Point File} {other : Pid} {point : FuturePoint (BitVec 32)}
    (inside : here.inside = some (other, point)) (apart : other ≠ child) :
    here.future child = .idle := by
  unfold Point.future
  rw [inside]
  exact if_neg apart

theorem future_outside {here : Point File} (outside : here.inside = none) :
    here.future child = .idle := by
  unfold Point.future
  rw [outside]

/-- Only who is in `get` is seen between its `down` and its `up`. -/
theorem future_gets {here : Point File} (tidy : here.Tidy) (up : here.future child = .up) :
    ∃ pid index, here = .getting pid index child .up := by
  cases here with
  | getting pid index other point =>
      by_cases same : other = child
      · subst same
        rw [future_inside rfl] at up
        rw [up]
        exact ⟨pid, index, rfl⟩
      · rw [future_apart rfl same] at up
        cases up
  | setting pid point =>
      by_cases same : pid = child
      · subst same
        rw [future_inside rfl] at up
        rw [up] at tidy
        cases tidy
      · rw [future_apart rfl same] at up
        cases up
  | _ => cases up

theorem at_inside {here : Point File} {point : FuturePoint (BitVec 32)}
    (inside : here.inside = some (child, point)) (target : FuturePoint (BitVec 32)) :
    (here.at target).inside = some (child, target) := by
  cases here <;> cases inside <;> rfl

theorem at_same (here : Point File) (target : FuturePoint (BitVec 32)) :
    (here.at target).pid = here.pid ∧ (here.at target).mode = here.mode ∧
      (here.at target).child = here.child := by
  cases here <;> exact ⟨rfl, rfl, rfl⟩

theorem code_future {here : Point File} {point : FuturePoint (BitVec 32)}
    (inside : here.inside = some (child, point)) (goesOn : ¬ here.Last) :
    code here = ofFuture child here.at (Future.code point) := by
  cases here with
  | getting pid index other point =>
      cases inside
      cases point <;> first | rfl | exact absurd trivial goesOn
  | setting pid point =>
      cases inside
      cases point <;> first | rfl | exact absurd trivial goesOn
  | _ => cases inside

/-- One instruction of a future: what it makes of the fields, and where it goes. -/
inductive Goes (future : Future (BitVec 32)) :
    FuturePoint (BitVec 32) → Future (BitVec 32) → FuturePoint (BitVec 32) → Prop where
  | access {point target : FuturePoint (BitVec 32)} {after : Future (BitVec 32)}
      {run : Future (BitVec 32) → Option (Future (BitVec 32) × FuturePoint (BitVec 32))}
      (code : Future.code point = .access run) (ran : run future = some (after, target)) :
      Goes future point after target
  | down {point target : FuturePoint (BitVec 32)} (code : Future.code point = .down .go target) :
      Goes future point future target
  | up {point target : FuturePoint (BitVec 32)} (code : Future.code point = .up .go target) :
      Goes future point future target

theorem Goes.called {future after : Future (BitVec 32)} {point target : FuturePoint (BitVec 32)}
    (goes : Goes future point after target) : after.called = future.called := by
  cases goes with
  | access code ran =>
      cases point with
      | assertNotReady v =>
          cases code
          dsimp only at ran
          split at ran <;> cases ran
          rfl
      | idle =>
          cases code
          cases ran
      | down => cases code
      | up => cases code
      | raise => cases code
      | _ =>
          cases code
          cases ran
          rfl
  | down code => rfl
  | up code => rfl

/-- `get` stays in `get`, and `set` in `set`. -/
theorem Goes.tidy {here : Point File} {future after : Future (BitVec 32)}
    {point target : FuturePoint (BitVec 32)} (goes : Goes future point after target)
    (inside : here.inside = some (child, point)) (goesOn : ¬ here.Last) (tidy : here.Tidy) :
    (here.at target).Tidy := by
  cases here with
  | getting pid index other point =>
      cases inside
      cases point with
      | check =>
          cases goes with
          | access code ran =>
              cases code
              obtain ⟨_, rfl⟩ := Prod.mk.inj (Option.some.inj ran)
              split <;> exact trivial
          | _ code => cases code
      | down =>
          cases goes with
          | down code =>
              cases code
              exact trivial
          | _ code => cases code
      | up =>
          cases goes with
          | up code =>
              cases code
              exact trivial
          | _ code => cases code
      | read => exact absurd trivial goesOn
      | _ => cases tidy
  | setting pid point =>
      cases inside
      cases point with
      | assertNotReady v =>
          cases goes with
          | access code ran =>
              cases code
              dsimp only at ran
              split at ran <;> cases ran
              exact trivial
          | _ code => cases code
      | ifReady v =>
          cases goes with
          | access code ran =>
              cases code
              obtain ⟨_, rfl⟩ := Prod.mk.inj (Option.some.inj ran)
              split <;> exact trivial
          | _ code => cases code
      | raise =>
          cases goes with
          | up code =>
              cases code
              exact trivial
          | _ code => cases code
      | finish => exact absurd trivial goesOn
      | store v =>
          cases goes with
          | access code ran =>
              cases code
              cases ran
              exact trivial
          | _ code => cases code
      | publish =>
          cases goes with
          | access code ran =>
              cases code
              cases ran
              exact trivial
          | _ code => cases code
      | _ => cases tidy
  | _ => cases inside

/-! ### Every move -/

variable {view later : View Thread ProcessSem (Processes File) (Point File)}

/-- What the output of `child` sees of everything. -/
def seen (child : Pid) (view : View Thread ProcessSem (Processes File) (Point File)) :
    View Thread FutureSem (Future (BitVec 32)) (FuturePoint (BitVec 32)) where
  counts _ := view.counts (.go child)
  place thread := (view.place thread).future child
  data := view.data.output child

theorem seen_sparse (sparse : Sparse .idle view.place) (child : Pid) :
    Sparse .idle (seen child view).place := by
  apply Set.Finite.subset sparse
  intro thread busy idle
  apply busy
  change (view.place thread).future child = .idle
  rw [idle]
  rfl

structure Kept (view : View Thread ProcessSem (Processes File) (Point File)) : Prop where
  accounted : Accounted view.place view.data
  delivering : ∀ child, Future.Delivering (seen child view)

/-- What `get` reads is what `set` was called with. -/
theorem Kept.reads (kept : Kept view) {thread : Thread} {index : Nat}
    (here : view.place thread = .getting pid index child .read) :
    (view.data.output child).called = some (view.data.output child).t := by
  have delivering := kept.delivering child
  have reads : (seen child view).place thread = .read := future_inside (by rw [here]; rfl)
  exact delivering.kept (delivering.reads thread reads)

theorem start_kept (files : Nat → Option File) (id : BitVec 32) :
    Kept ((program File).start ProcessSem.count (start files id) :
      Crew Thread ProcessSem (Processes File) (Point File)).view where
  accounted := by
    constructor
    case alone => exact nofun
    case mode => exact nofun
    case present =>
      intro pid kernel
      change (if pid = 0 then Mode.user else Mode.unmade) = .kernel at kernel
      split at kernel <;> cases kernel
    case unmade =>
      intro pid outside
      exact if_neg (Nat.ne_of_gt outside)
    case born =>
      intro pid inside
      change (if pid = 0 then Mode.user else Mode.unmade) ≠ .unmade
      rw [if_pos (Nat.lt_one_iff.mp inside)]
      exact nofun
    case uncalled => exact fun _ _ => rfl
    case stopping =>
      intro pid stops
      change (if pid = 0 then Mode.user else Mode.unmade) = .stopping at stops
      split at stops <;> cases stops
    case slots => exact nofun
    case older => exact nofun
    case waits => exact nofun
    case read => exact nofun
    case tidy => exact fun _ => trivial
    case delivered => exact nofun
    case once => exact List.nodup_nil
  delivering child := Future.start_delivering (fun _ => 0) rfl 0

variable {crew : Crew Thread ProcessSem (Processes File) (Point File)}

/-- Whoever waits for an output is in `get` of a child of its own. -/
theorem waits_for_child (orderly : crew.Orderly (program File)) (kept : Kept crew.view)
    (waits : (crew.stage thread).waitsFor = some (.go child)) :
    ∃ pid index, crew.view.place thread = .getting pid index child .down ∧
      crew.data.forked child = some (pid, index) := by
  have lawful := orderly.lined.lawful thread
  have tidy := kept.accounted.tidy thread
  cases stage : crew.stage thread with
  | waiting sem before after =>
      rw [stage] at waits lawful
      have place : crew.view.place thread = before := congrArg Stage.place stage
      rw [place] at tidy
      cases waits
      change Processes.code before = .down (.go child) after at lawful
      cases before with
      | getting pid index other point =>
          cases point <;> cases lawful
          have works : (crew.view.place thread).pid = some pid := congrArg Point.pid place
          exact ⟨pid, index, place, kept.accounted.slots pid index child
            (kept.accounted.waits thread pid index child works (congrArg Point.child place))⟩
      | setting pid point =>
          cases point <;> cases tidy <;> cases lawful
      | _ => cases lawful
  | running point =>
      rw [stage] at waits
      cases waits
  | woken after =>
      rw [stage] at waits
      cases waits
  | waking other after =>
      rw [stage] at waits
      cases waits

/-- Nobody waits for a child that is through with its `set`. -/
theorem waits_for_incomplete (orderly : crew.Orderly (program File))
    (kept : Kept crew.view) (waits : (crew.stage thread).waitsFor = some (.go child)) :
    (crew.data.output child).completed = false := by
  obtain ⟨pid, index, here, forked⟩ := waits_for_child orderly kept waits
  by_contra notFalse
  have completed : (seen child crew.view).data.completed = true := eq_true_of_ne_false notFalse
  have token := ((kept.delivering child).token_left completed).1
  have queued : thread ∈ (crew.sems (.go child)).waiting :=
    (orderly.lined.queued thread (.go child)).mpr waits
  have zero : (crew.sems (.go child)).count = 0 := by
    by_contra positive
    rw [orderly.lined.closed (.go child) (Nat.pos_of_ne_zero positive)] at queued
    cases queued
  have held : ∃ other, Future.holding ((seen child crew.view).place other) ≠ 0 := by
    by_contra nobody
    have nothing := census_zero fun other => not_not.mp (not_exists.mp nobody other)
    change (crew.sems (.go child)).count + _ = 1 at token
    omega
  obtain ⟨other, holds⟩ := held
  have up : (crew.view.place other).future child = .up := by
    change Future.holding ((crew.view.place other).future child) ≠ 0 at holds
    cases at_ : (crew.view.place other).future child <;> rw [at_] at holds <;>
      first | rfl | exact absurd rfl holds
  obtain ⟨parent, slot, there⟩ := future_gets (kept.accounted.tidy other) up
  have works : (crew.view.place other).pid = some parent := congrArg Point.pid there
  have isForked := kept.accounted.slots parent slot child
    (kept.accounted.waits other parent slot child works (congrArg Point.child there))
  cases forked.symm.trans isForked
  have one := kept.accounted.alone thread other pid (congrArg Point.pid here) works
  rw [one, there] at here
  cases here

/-- In `set`. -/
def inSet (point : FuturePoint (BitVec 32)) : Nat :=
  Future.finishing point + Future.early point + Future.publishing point + Future.raising point

theorem future_sets {here : Point File} (tidy : here.Tidy)
    (sets : inSet (here.future child) ≠ 0) : here.pid = some child := by
  cases here with
  | getting pid index other point =>
      by_cases same : other = child
      · subst same
        rw [future_inside rfl] at sets
        cases point <;> first | exact absurd rfl sets | cases tidy
      · rw [future_apart rfl same] at sets
        exact absurd rfl sets
  | setting pid point =>
      by_cases same : pid = child
      · rw [same]
        rfl
      · rw [future_apart rfl same] at sets
        exact absurd rfl sets
  | _ => exact absurd rfl sets

/-- A process that is made and neither in user mode nor through has a thread that works. -/
theorem busy_works (kept : Kept view) (made : pid < view.data.made)
    (called : view.data.mode pid ≠ .user)
    (incomplete : (view.data.output pid).completed = false) :
    ∃ thread, (view.place thread).pid = some pid := by
  cases mode : view.data.mode pid with
  | unmade => exact absurd mode (kept.accounted.born pid made)
  | user => exact absurd mode called
  | kernel => exact kept.accounted.present pid mode
  | stopping =>
      by_contra nobody
      have nothing (thread : Thread) : inSet ((view.place thread).future pid) = 0 := by
        by_contra sets
        exact nobody ⟨thread, future_sets (kept.accounted.tidy thread) sets⟩
      have none_ {weight : FuturePoint (BitVec 32) → Nat}
          (light : ∀ point, weight point ≤ inSet point) :
          census weight (seen pid view).place = 0 :=
        census_zero fun thread => Nat.le_zero.mp ((light _).trans (Nat.le_of_eq (nothing thread)))
      have noFinishing := @none_ Future.finishing fun point => by unfold inSet; omega
      have noEarly := @none_ Future.early fun point => by unfold inSet; omega
      have noPublishing := @none_ Future.publishing fun point => by unfold inSet; omega
      have noRaising := @none_ Future.raising fun point => by unfold inSet; omega
      have law := (kept.delivering pid).completed
      rw [noFinishing, noEarly, noPublishing, noRaising] at law
      have uncalled : Future.uncalled (view.data.output pid).called = 0 := by
        cases isCalled : (view.data.output pid).called with
        | none => exact absurd isCalled (kept.accounted.stopping pid mode)
        | some status => rfl
      change (view.data.output pid).completed.toNat + 0 + 0 + 0 + 0 +
        Future.uncalled (view.data.output pid).called = 1 at law
      rw [uncalled, incomplete] at law
      cases law

/-- A thread that waits for a semaphore of the users is in `down`. -/
theorem waits_for_user (orderly : crew.Orderly (program File))
    {sem : UserSemaphore} {before after : Point File}
    (stage : crew.stage thread = .waiting (.user sem) before after)
    (works : before.pid = some pid) :
    before = .lowering pid sem ∧ after = .returning pid 0 := by
  have lawful := orderly.lined.lawful thread
  rw [stage] at lawful
  change Processes.code before = .down (.user sem) after at lawful
  cases before with
  | lowering owner other =>
      cases works
      cases lawful
      exact ⟨rfl, rfl⟩
  | getting owner index other point => cases point <;> cases lawful
  | setting owner point => cases point <;> cases lawful
  | _ => cases lawful

/-- A future has one semaphore. -/
theorem setCount_go (view : View Thread FutureSem (Future (BitVec 32)) (FuturePoint (BitVec 32)))
    (count : Nat) : view.setCount .go count = { view with counts := fun _ => count } := by
  have counts : update view.counts .go count = fun _ => count := by
    funext sem
    cases sem
    exact update_self _ _ _
  exact congrArg (fun counts => { view with counts := counts }) counts

variable [DecidableEq Thread]

theorem seen_go (child : Pid) (view : View Thread ProcessSem (Processes File) (Point File))
    (thread : Thread) (target : Point File) (counts : ProcessSem → Nat) (data : Processes File) :
    seen child { view.go thread target with counts := counts, data := data } =
      { (seen child view).go thread (target.future child) with
        counts := fun _ => counts (.go child)
        data := data.output child } := by
  have places : (fun other => (update view.place thread target other).future child) =
      update (seen child view).place thread (target.future child) :=
    comp_update (Point.future child) view.place thread target
  exact congrArg (fun place : Thread → FuturePoint (BitVec 32) =>
    ({ counts := fun _ => counts (.go child), place := place, data := data.output child } :
      View Thread FutureSem (Future (BitVec 32)) (FuturePoint (BitVec 32)))) places

/-- A step that `child` does not see. -/
theorem seen_stays (child : Pid) {target : Point File} {counts : ProcessSem → Nat}
    {data : Processes File} (place : target.future child = (view.place thread).future child)
    (count : counts (.go child) = view.counts (.go child))
    (output : data.output child = view.data.output child) :
    seen child { view.go thread target with counts := counts, data := data } = seen child view := by
  rw [seen_go, place, output]
  have stays := (seen child view).go_stays thread
  rw [count]
  exact stays

theorem ofFuture_access {place : FuturePoint (BitVec 32) → Point File} {other : Pid}
    {instruction : Instruction FutureSem (Future (BitVec 32)) (FuturePoint (BitVec 32))}
    {run : Processes File → Option (Processes File × Point File)} {data : Processes File}
    {target : Point File} (code : ofFuture other place instruction = .access run)
    (ran : run processes = some (data, target)) :
    ∃ inner future point, instruction = .access inner ∧
      inner (processes.output other) = some (future, point) ∧
        data = processes.setOutput other future ∧ target = place point := by
  cases instruction with
  | down sem next => cases code
  | up sem next => cases code
  | access inner =>
      cases code
      obtain ⟨⟨future, point⟩, inside, same⟩ := Option.map_eq_some_iff.mp ran
      obtain ⟨rfl, rfl⟩ := Prod.mk.inj same
      exact ⟨inner, future, point, rfl, inside, rfl, rfl⟩

theorem ofFuture_down {place : FuturePoint (BitVec 32) → Point File} {other : Pid}
    {instruction : Instruction FutureSem (Future (BitVec 32)) (FuturePoint (BitVec 32))}
    {sem : ProcessSem} {target : Point File}
    (code : ofFuture other place instruction = .down sem target) :
    ∃ point, instruction = .down .go point ∧ sem = .go other ∧ target = place point := by
  cases instruction with
  | down name point =>
      cases code
      exact ⟨point, rfl, rfl, rfl⟩
  | up name point => cases code
  | access inner => cases code

theorem ofFuture_up {place : FuturePoint (BitVec 32) → Point File} {other : Pid}
    {instruction : Instruction FutureSem (Future (BitVec 32)) (FuturePoint (BitVec 32))}
    {sem : ProcessSem} {target : Point File}
    (code : ofFuture other place instruction = .up sem target) :
    ∃ point, instruction = .up .go point ∧ sem = .go other ∧ target = place point := by
  cases instruction with
  | up name point =>
      cases code
      exact ⟨point, rfl, rfl, rfl⟩
  | down name point => cases code
  | access inner => cases code

/-- What a thread does, by where it is. -/
inductive Turn (view : View Thread ProcessSem (Processes File) (Point File)) :
    View Thread ProcessSem (Processes File) (Point File) → Prop where
  | enter {thread : Thread} {pid : Pid} {call : Call File} (idle : view.place thread = .idle)
      (user : view.data.mode pid = .user) :
      Turn view { view.go thread (.call pid call) with data := view.data.setMode pid .kernel }
  | perform {thread : Thread} {pid : Pid} {call : Call File} {data : Processes File}
      {target : Point File} (here : view.place thread = .call pid call)
      (performed : Performed view.data pid data target) :
      Turn view { view.go thread target with data := data }
  | inside {thread : Thread} {child : Pid} {point target : FuturePoint (BitVec 32)}
      {future : Future (BitVec 32)} {counts : ProcessSem → Nat}
      (inside : (view.place thread).inside = some (child, point))
      (goesOn : ¬ (view.place thread).Last)
      (goes : Goes (view.data.output child) point future target)
      (others : ∀ other, other ≠ child → counts (.go other) = view.counts (.go other))
      (move : Move (Future.program (BitVec 32)) (seen child view)
        { (seen child view).go thread target with
          counts := fun _ => counts (.go child)
          data := future }) :
      Turn view
        { view.go thread ((view.place thread).at target) with
          counts := counts
          data := view.data.setOutput child future }
  | read {thread : Thread} {pid child : Pid} {index : Nat}
      (here : view.place thread = .getting pid index child .read) :
      Turn view
        { view.go thread (.delivering pid index child (view.data.output child).t) with
          data := view.data.setOutput child
            { view.data.output child with
              answers := (view.data.output child).answers ++ [(view.data.output child).t] } }
  | deliver {thread : Thread} {pid child : Pid} {index : Nat} {status : BitVec 32}
      (here : view.place thread = .delivering pid index child status) :
      Turn view
        { view.go thread (.returning pid 0) with
          data := view.data.deliver ⟨pid, index, child, status⟩ }
  | finish {thread : Thread} {pid : Pid} (here : view.place thread = .setting pid .finish) :
      Turn view
        { view.go thread .idle with
          data := view.data.setOutput pid { view.data.output pid with completed := true } }
  | semaphore {thread : Thread} {pid : Pid} {counts : ProcessSem → Nat}
      (here : (view.place thread).pid = some pid) (kernel : (view.place thread).mode = .kernel)
      (outside : (view.place thread).inside = none)
      (others : ∀ other, counts (.go other) = view.counts (.go other)) :
      Turn view { view.go thread (.returning pid 0) with counts := counts }
  | leave {thread : Thread} {pid : Pid} {result : Handles.Id}
      (here : view.place thread = .returning pid result) :
      Turn view
        { view.go thread .idle with
          data := { view.data.setMode pid .user with
            eax := update view.data.eax pid result } }

theorem setOutput_self (processes : Processes File) (child : Pid) :
    processes.setOutput child (processes.output child) = processes := by
  unfold setOutput
  rw [update_eq_self]

theorem inside_access {run : Processes File → Option (Processes File × Point File)}
    {data : Processes File} {target : Point File} {thread : Thread} {child : Pid}
    {point : FuturePoint (BitVec 32)}
    (inside : (view.place thread).inside = some (child, point))
    (goesOn : ¬ (view.place thread).Last)
    (code : Processes.code (view.place thread) = .access run)
    (ran : run view.data = some (data, target)) :
    Turn view { view.go thread target with data := data } := by
  rw [code_future inside goesOn] at code
  obtain ⟨inner, future, after, isAccess, isRan, rfl, rfl⟩ := ofFuture_access code ran
  have here : (seen child view).place thread = point := future_inside inside
  apply Turn.inside inside goesOn (.access isAccess isRan) (fun _ _ => rfl)
  exact .access (by rw [here]; exact isAccess) isRan

theorem inside_pass {sem : ProcessSem} {target : Point File} {thread : Thread} {child : Pid}
    {point : FuturePoint (BitVec 32)}
    (inside : (view.place thread).inside = some (child, point))
    (goesOn : ¬ (view.place thread).Last)
    (code : Processes.code (view.place thread) = .down sem target)
    (positive : 0 < view.counts sem) :
    Turn view ((view.setCount sem (view.counts sem - 1)).go thread target) := by
  rw [code_future inside goesOn] at code
  obtain ⟨after, isDown, rfl, rfl⟩ := ofFuture_down code
  have here : (seen child view).place thread = point := future_inside inside
  have move : Move (Future.program (BitVec 32)) (seen child view)
      (((seen child view).setCount .go (view.counts (.go child) - 1)).go thread after) :=
    .pass (by rw [here]; exact isDown) positive
  rw [setCount_go] at move
  have turn := @Turn.inside _ _ _ view thread child point after _
    (update view.counts (.go child) (view.counts (.go child) - 1)) inside goesOn (.down isDown)
    (by
      intro other apart
      exact update_of_ne (fun same => apart (ProcessSem.go.inj same)) _ _)
    (by rw [update_self]; exact move)
  rw [setOutput_self] at turn
  exact turn

theorem inside_raise {sem : ProcessSem} {target : Point File} {thread : Thread} {child : Pid}
    {point : FuturePoint (BitVec 32)}
    (inside : (view.place thread).inside = some (child, point))
    (goesOn : ¬ (view.place thread).Last)
    (code : Processes.code (view.place thread) = .up sem target) :
    Turn view ((view.setCount sem ((view.counts sem + 1) % 2 ^ 64)).go thread target) := by
  rw [code_future inside goesOn] at code
  obtain ⟨after, isUp, rfl, rfl⟩ := ofFuture_up code
  have here : (seen child view).place thread = point := future_inside inside
  have move : Move (Future.program (BitVec 32)) (seen child view)
      (((seen child view).setCount .go ((view.counts (.go child) + 1) % 2 ^ 64)).go thread after) :=
    .raise (by rw [here]; exact isUp)
  rw [setCount_go] at move
  have turn := @Turn.inside _ _ _ view thread child point after _
    (update view.counts (.go child) ((view.counts (.go child) + 1) % 2 ^ 64)) inside goesOn
    (.up isUp)
    (by
      intro other apart
      exact update_of_ne (fun same => apart (ProcessSem.go.inj same)) _ _)
    (by rw [update_self]; exact move)
  rw [setOutput_self] at turn
  exact turn

theorem user_counts (counts : ProcessSem → Nat) (sem : UserSemaphore) (count : Nat)
    (other : Pid) : update counts (.user sem) count (.go other) = counts (.go other) :=
  update_of_ne (fun same : ProcessSem.go other = .user sem => ProcessSem.noConfusion same) _ _

theorem access_turn {run : Processes File → Option (Processes File × Point File)}
    {data : Processes File} {target : Point File} {thread : Thread}
    (code : Processes.code (view.place thread) = .access run)
    (ran : run view.data = some (data, target)) :
    Turn view { view.go thread target with data := data } := by
  cases here : view.place thread with
  | idle =>
      rw [here] at code
      cases code
      cases ran
  | call pid call =>
      rw [here] at code
      cases code
      have performed := perform_performed view.data pid call
      rw [Option.some.inj ran] at performed
      exact .perform here performed
  | raising pid sem =>
      rw [here] at code
      cases code
  | lowering pid sem =>
      rw [here] at code
      cases code
  | getting pid index child point =>
      by_cases last : (view.place thread).Last
      · rw [here] at last code
        cases point <;> cases last
        cases code
        cases ran
        exact .read here
      · exact inside_access (by rw [here]; rfl) last code ran
  | delivering pid index child status =>
      rw [here] at code
      cases code
      cases ran
      exact .deliver here
  | setting pid point =>
      by_cases last : (view.place thread).Last
      · rw [here] at last code
        cases point <;> cases last
        cases code
        cases ran
        exact .finish here
      · exact inside_access (by rw [here]; rfl) last code ran
  | returning pid result =>
      rw [here] at code
      cases code
      cases ran
      exact .leave here

theorem not_last {here : Point File}
    {instruction : Instruction ProcessSem (Processes File) (Point File)}
    (code : Processes.code here = instruction)
    (isAccess : ∀ run, instruction ≠ .access run) : ¬ here.Last := by
  intro last
  cases here with
  | getting pid index child point =>
      cases point <;> cases last
      exact isAccess _ code.symm
  | setting pid point =>
      cases point <;> cases last
      exact isAccess _ code.symm
  | _ => cases last

theorem move_turn (move : Move (program File) view later) : Turn view later := by
  cases move with
  | @enter thread point idle permitted =>
      cases point with
      | call pid call => exact .enter idle (of_decide_eq_true permitted)
      | _ => cases permitted
  | access code ran => exact access_turn code ran
  | @pass thread sem next code positive =>
      have goesOn := not_last code nofun
      cases here : view.place thread with
      | lowering pid user =>
          change Processes.code _ = _ at code
          rw [here] at code
          cases code
          exact .semaphore (by rw [here]; rfl) (by rw [here]; rfl) (by rw [here]; rfl)
            (user_counts view.counts user (view.counts (.user user) - 1))
      | getting pid index child point =>
          exact inside_pass (by rw [here]; rfl) goesOn code positive
      | setting pid point => exact inside_pass (by rw [here]; rfl) goesOn code positive
      | _ =>
          change Processes.code _ = _ at code
          rw [here] at code
          cases code
  | @raise thread sem next code =>
      have goesOn := not_last code nofun
      cases here : view.place thread with
      | raising pid user =>
          change Processes.code _ = _ at code
          rw [here] at code
          cases code
          exact .semaphore (by rw [here]; rfl) (by rw [here]; rfl) (by rw [here]; rfl)
            (user_counts view.counts user ((view.counts (.user user) + 1) % 2 ^ 64))
      | getting pid index child point => exact inside_raise (by rw [here]; rfl) goesOn code
      | setting pid point => exact inside_raise (by rw [here]; rfl) goesOn code
      | _ =>
          change Processes.code _ = _ at code
          rw [here] at code
          cases code

theorem inside_works {here : Point File} {point : FuturePoint (BitVec 32)}
    (inside : here.inside = some (child, point)) :
    ∃ pid, here.pid = some pid ∧ ∀ owner index other status target,
      here.at target ≠ .delivering owner index other status := by
  cases here <;> cases inside <;> exact ⟨_, rfl, nofun⟩

theorem Accounted.deliver (accounted : Accounted place processes)
    {index : Nat} {status : BitVec 32}
    (here : place thread = .delivering pid index child status) :
    Accounted (update place thread (.returning pid 0))
      (processes.deliver ⟨pid, index, child, status⟩) := by
  have works : (place thread).pid = some pid := congrArg Point.pid here
  have slot : (processes.handles pid).children index = some child :=
    accounted.waits thread pid index child works (congrArg Point.child here)
  have cleared : Accounted (update place thread (.returning pid 0))
      (processes.setHandles pid
        { processes.handles pid with
          children := update (processes.handles pid).children index none }) := by
    apply accounted.go works (.inl rfl)
    case made => rfl
    case forked => rfl
    case delivered => rfl
    case others => exact fun _ _ => rfl
    case mode =>
      intro _
      refine (accounted.mode thread pid works).trans ?_
      rw [here]
      rfl
    case left => exact nofun
    case apart => exact fun _ theirs => update_of_ne theirs _ _
    case kept =>
      intro place_ other kept
      change (update processes.handles pid _ pid).children place_ = some other at kept
      rw [update_self] at kept
      exact cleared_children kept
    case called => exact fun _ _ called => called
    case uncalled => exact accounted.uncalled
    case stopping => exact accounted.stopping pid
    case waits => exact nofun
    case read => exact nofun
    case tidy => exact trivial
  apply cleared.record
  case forked => exact accounted.slots pid index child slot
  case called => exact accounted.read thread pid index child status here
  case gone =>
    change (update processes.handles pid _ pid).children index ≠ some child
    rw [update_self]
    change update (processes.handles pid).children index none index ≠ some child
    rw [update_self]
    exact nofun
  case new => exact accounted.not_delivered slot

theorem turn_accounted (kept : Kept view) (turn : Turn view later) :
    Accounted later.place later.data := by
  have accounted := kept.accounted
  cases turn with
  | enter idle user => exact accounted.enter idle user _
  | perform here performed => exact accounted.perform here performed
  | @inside thread child point target future counts inside goesOn goes others move =>
      obtain ⟨pid, works, notDelivering⟩ := inside_works inside
      have same := at_same (view.place thread) target
      apply accounted.touch works (update view.data.output child future)
      case same =>
        intro other
        by_cases this : other = child
        · rw [this, update_self]
          exact goes.called
        · rw [update_of_ne this]
      case stays => exact same.1.trans works
      case mode => exact same.2.1
      case waits => exact .inr same.2.2
      case read =>
        intro owner index other status at_
        exact absurd at_ (notDelivering owner index other status target)
      case tidy => exact goes.tidy inside goesOn (accounted.tidy thread)
  | @read thread pid child index here =>
      have works : (view.place thread).pid = some pid := congrArg Point.pid here
      apply accounted.touch works (update view.data.output child _)
      case same =>
        intro other
        by_cases this : other = child
        · rw [this, update_self]
        · rw [update_of_ne this]
      case stays => rfl
      case mode => exact (congrArg Point.mode here).symm
      case waits => exact .inr (congrArg Point.child here).symm
      case read =>
        intro owner place other status at_
        cases at_
        exact kept.reads here
      case tidy => exact trivial
  | deliver here => exact accounted.deliver here
  | @finish thread pid here =>
      have works : (view.place thread).pid = some pid := congrArg Point.pid here
      have stopping : view.data.mode pid = .stopping :=
        (accounted.mode thread pid works).trans (congrArg Point.mode here)
      have called (other : Pid) :
          ((view.data.setOutput pid { view.data.output pid with completed := true }).output
            other).called = (view.data.output other).called := by
        by_cases mine : other = pid
        · have completed : (view.data.setOutput pid
              { view.data.output pid with completed := true }).output pid =
                { view.data.output pid with completed := true } := update_self _ _ _
          rw [mine, completed]
        · exact congrArg Future.called (update_of_ne mine _ _)
      apply accounted.go works (.inr rfl)
      case made => rfl
      case forked => rfl
      case delivered => rfl
      case others => exact fun _ _ => rfl
      case mode => exact nofun
      case left => exact fun _ => .inr stopping
      case apart => exact fun _ _ => rfl
      case kept => exact fun _ _ slot => slot
      case called => exact fun other status before => (called other).trans before
      case uncalled =>
        exact fun other runs => (called other).trans (accounted.uncalled other runs)
      case stopping =>
        intro stops
        rw [called pid]
        exact accounted.stopping pid stops
      case waits => exact nofun
      case read => exact nofun
      case tidy => exact trivial
  | @semaphore thread pid counts here kernel outside others =>
      exact accounted.touch here view.data.output (fun _ => rfl) rfl kernel.symm (.inl rfl) nofun
        trivial
  | @leave thread pid result here =>
      have works : (view.place thread).pid = some pid := congrArg Point.pid here
      have kernel : view.data.mode pid = .kernel :=
        (accounted.mode thread pid works).trans (congrArg Point.mode here)
      apply accounted.go works (.inr rfl)
      case made => rfl
      case forked => rfl
      case delivered => rfl
      case others => exact fun _ theirs => update_of_ne theirs _ _
      case mode => exact nofun
      case left => exact fun _ => .inl (update_self _ _ _)
      case apart => exact fun _ _ => rfl
      case kept => exact fun _ _ slot => slot
      case called => exact fun _ _ called => called
      case uncalled =>
        intro other runs
        apply accounted.uncalled other
        by_cases mine : other = pid
        · rw [mine, kernel]
          exact nofun
        · exact fun stopping => runs ((update_of_ne mine _ _).trans stopping)
      case stopping =>
        intro stops
        have user : (view.data.setMode pid .user).mode pid = .user := update_self _ _ _
        exact absurd (user.symm.trans stops) nofun
      case waits => exact nofun
      case read => exact nofun
      case tidy => exact trivial

/-- A step in a future is seen by this future, as a move, and by no other. -/
theorem seen_setOutput {thread : Thread} {target : Point File} {other : Pid}
    {future : Future (BitVec 32)} {counts : ProcessSem → Nat}
    (apart : other ≠ child → target.future child = (view.place thread).future child)
    (others : other ≠ child → counts (.go child) = view.counts (.go child))
    (move : other = child → Move (Future.program (BitVec 32)) (seen child view)
      { (seen child view).go thread (target.future child) with
        counts := fun _ => counts (.go child)
        data := future }) :
    seen child
        { view.go thread target with
          counts := counts
          data := view.data.setOutput other future } = seen child view ∨
      Move (Future.program (BitVec 32)) (seen child view)
        (seen child
          { view.go thread target with
            counts := counts
            data := view.data.setOutput other future }) := by
  by_cases same : other = child
  · right
    rw [seen_go]
    have output : (view.data.setOutput other future).output child = future := by
      rw [same]
      exact update_self _ _ _
    rw [output]
    exact move same
  · left
    exact seen_stays child (apart same) (others same) (update_of_ne (Ne.symm same) _ _)

theorem turn_seen (kept : Kept view) (turn : Turn view later) (child : Pid) :
    seen child later = seen child view ∨
      Move (Future.program (BitVec 32)) (seen child view) (seen child later) := by
  cases turn with
  | @enter thread pid call idle user =>
      left
      exact seen_stays child (by rw [idle]; rfl) rfl rfl
  | @perform thread pid call data target here performed =>
      have resting : (view.place thread).future child = .idle := by
        rw [here]
        rfl
      cases performed with
      | @plain handles target semaphores keeps plain =>
          left
          have idle : target.future child = .idle := by
            cases target <;> cases plain <;> rfl
          exact seen_stays child (idle.trans resting.symm) rfl rfl
      | @waits index other slot =>
          have gets := @seen_setOutput File Thread child view _ thread
            (.getting pid index other .check) other (view.data.output other) view.counts
          rw [setOutput_self] at gets
          apply gets
          · intro apart
            rw [resting]
            exact future_apart rfl apart
          · exact fun _ => rfl
          · intro same
            subst same
            have permitted : (Future.program (BitVec 32)).permits (seen other view).data .check := rfl
            rw [future_inside rfl]
            exact .enter resting permitted
      | @forks index result free =>
          left
          exact seen_stays child resting.symm rfl rfl
      | @exits nextId status =>
          apply @seen_setOutput File Thread child view _ thread
            (.setting pid (.assertNotReady status)) pid
            ((view.data.output pid).enter (.assertNotReady status)) view.counts
          · intro apart
            rw [resting]
            exact future_apart rfl apart
          · exact fun _ => rfl
          · intro same
            subst same
            have uncalled : (view.data.output pid).called = none := by
              apply kept.accounted.uncalled pid
              rw [kept.accounted.mode thread pid (congrArg Point.pid here), here]
              exact nofun
            have permitted : (Future.program (BitVec 32)).permits (seen pid view).data
                (.assertNotReady status) := Option.isNone_iff_eq_none.mpr uncalled
            rw [future_inside rfl]
            exact .enter resting permitted
  | @inside thread other point target future counts inside goesOn goes others move =>
      apply seen_setOutput
      · intro apart
        rw [future_apart (at_inside inside target) apart, future_apart inside apart]
      · exact fun apart => others child (Ne.symm apart)
      · intro same
        subst same
        rw [future_inside (at_inside inside target)]
        exact move
  | @read thread pid other index here =>
      have point : (view.place thread).inside = some (other, .read) := by
        rw [here]
        rfl
      apply seen_setOutput
      · intro apart
        rw [future_apart point apart]
        rfl
      · exact fun _ => rfl
      · intro same
        subst same
        apply Move.access
        · change Future.code ((view.place thread).future other) = _
          rw [future_inside point]
          rfl
        · rfl
  | @deliver thread pid other index status here =>
      left
      exact seen_stays child (by rw [here]; rfl) rfl rfl
  | @finish thread pid here =>
      have point : (view.place thread).inside = some (pid, .finish) := by
        rw [here]
        rfl
      apply seen_setOutput
      · intro apart
        rw [future_apart point apart]
        rfl
      · exact fun _ => rfl
      · intro same
        subst same
        apply Move.access
        · change Future.code ((view.place thread).future pid) = _
          rw [future_inside point]
          rfl
        · rfl
  | @semaphore thread pid counts here kernel outside others =>
      left
      exact seen_stays child (future_outside outside).symm (others child) rfl
  | @leave thread pid result here =>
      left
      exact seen_stays child (by rw [here]; rfl) rfl rfl

theorem move_kept (sparse : Sparse .idle view.place) (kept : Kept view)
    (move : Move (program File) view later) : Kept later := by
  have turn := move_turn move
  refine ⟨turn_accounted kept turn, fun child => ?_⟩
  rcases turn_seen kept turn child with same | moved
  · rw [same]
    exact kept.delivering child
  · exact Future.move_delivering (seen_sparse sparse child) (kept.delivering child) moved

theorem reached_kept {files : Nat → Option File} {id : BitVec 32}
    (reached : (program File).machine.Reached
      ((program File).start ProcessSem.count (start files id)) crew) :
    crew.Orderly (program File) ∧ Sparse .idle crew.view.place ∧ Kept crew.view :=
  reached_view Kept (start_kept files id) (fun _ _ sparse kept move => move_kept sparse kept move)
    reached

/-- The assertion of `set` holds, and no other step of a thread fails. -/
theorem run_goes_on (sparse : Sparse .idle crew.view.place) (kept : Kept crew.view)
    {point : Point File} (runs : crew.stage thread = .running point) (busy : point ≠ .idle) :
    ((program File).run crew thread).isSome = true := by
  have tidy := kept.accounted.tidy thread
  have here : crew.view.place thread = point := congrArg Stage.place runs
  rw [here] at tidy
  unfold Program.run
  rw [runs]
  cases point with
  | idle => exact absurd rfl busy
  | getting pid index child point => cases point <;> first | rfl | cases tidy
  | setting pid point =>
      cases point with
      | assertNotReady status =>
          have point : (seen pid crew.view).place thread = .assertNotReady status :=
            future_inside (by rw [here]; rfl)
          have notReady : (crew.data.output pid).isReady = false := by
            rw [← Bool.not_eq_true]
            intro ready
            have zero :=
              ((kept.delivering pid).not_ready_of_early (seen_sparse sparse pid) point rfl).2
            change (crew.data.output pid).isReady.toNat = 0 at zero
            rw [ready] at zero
            cases zero
          change Option.isSome (Option.map _ (Option.map _
            (if (crew.data.output pid).isReady = true then none else some _))) = true
          rw [notReady]
          rfl
      | _ => first | rfl | cases tidy
  | _ => rfl

instance instDecidablePermits (processes : Processes File) (point : Point File) :
    Decidable ((program File).permits processes point) :=
  inferInstanceAs (Decidable (_ = true))

/-- The first process forks, and waits before its child exits. -/
def forkAndWait : List (Action (Fin 2) (Point Unit)) :=
  [.call 0 (.call 0 .fork), .run 0, .run 0, .call 0 (.call 0 (.wait 0x10000000)), .run 0, .run 0,
    .run 0, .call 1 (.call 1 (.exit 7)), .run 1, .run 1, .run 1, .run 1, .run 1, .run 1,
    .schedule 1, .run 1, .run 0, .run 0, .run 0, .run 0]

/-! ### Who holds up a wait -/

/-- Who is made by whom. -/
def Parent (processes : Processes File) (parent child : Pid) : Prop :=
  ∃ index, processes.forked child = some (parent, index)

/-- Where no thread has a step, a thread that works waits. -/
theorem stuck_waits (orderly : crew.Orderly (program File)) (sparse : Sparse .idle crew.view.place)
    (kept : Kept crew.view)
    (stuck : ∀ thread, (program File).run crew thread = none ∧ crew.schedule thread = none)
    (works : (crew.view.place thread).pid = some pid) :
    ∃ sem before after, crew.stage thread = .waiting sem before after ∧ before.pid = some pid := by
  have woken (other : Thread) : ¬ (crew.stage other).Woken := by
    intro isWoken
    obtain ⟨waker, wakes⟩ := (orderly.handed.woken other).mp isWoken
    cases takes : crew.stage waker with
    | waking taken next =>
        rw [takes] at wakes
        cases wakes
        cases target : crew.stage other with
        | woken point =>
            have schedules := (stuck waker).2
            unfold Crew.schedule at schedules
            rw [takes] at schedules
            dsimp only at schedules
            rw [target] at schedules
            cases schedules
        | _ =>
            rw [target] at isWoken
            cases isWoken
    | _ =>
        rw [takes] at wakes
        cases wakes
  cases stage : crew.stage thread with
  | running point =>
      have place : crew.view.place thread = point := congrArg Stage.place stage
      have busy : point ≠ .idle := by
        intro idle
        rw [place, idle] at works
        cases works
      have goesOn := run_goes_on sparse kept stage busy
      rw [(stuck thread).1] at goesOn
      cases goesOn
  | waiting sem before after =>
      have place : crew.view.place thread = before := congrArg Stage.place stage
      exact ⟨sem, before, after, rfl, place ▸ works⟩
  | woken after => exact absurd (stage ▸ trivial) (woken thread)
  | waking other after =>
      have taken := (orderly.handed.woken other).mpr ⟨thread, by rw [stage]; rfl⟩
      exact absurd taken (woken other)

/-- The first process waits for its child, which waits for a semaphore. -/
def forkAndHang : List (Action (Fin 2) (Point Unit)) :=
  [.call 0 (.call 0 (.sem 0)), .run 0, .run 0, .call 0 (.call 0 .fork), .run 0, .run 0,
    .call 0 (.call 0 (.wait 0x10000000)), .run 0, .run 0, .run 0,
    .call 1 (.call 1 (.down 0x20000000)), .run 1, .run 1]

end AC97Kernel.Processes
