/-
What holds while the cores start.

The place of core 0 in its loop says where every other core is: those that it is done
with have counted themselves, the one that it starts may be on its way, and the others
are off.  `running` and `howManyAreHere` count the cores behind two of the steps.
-/

import AC97Kernel.Boot.Model
import AC97Kernel.Library.Census

set_option autoImplicit false

namespace AC97Kernel.KernelInit

open Function Census

/-! ### What is counted -/

/-- Behind `running.fetch_add`. -/
def counted : Point → Nat
  | .off | .waiting | .picking | .kernelInit | .shared _ | .addRunning => 0
  | _ => 1

/-- Behind `howManyAreHere.add_fetch`. -/
def arrived : Point → Nat
  | .ordered _ | .stopped => 1
  | _ => 0

/-- About to make the first process. -/
def deciding (totalProcs : Nat) : Point → Nat
  | .ordered myOrder => if myOrder = totalProcs then 1 else 0
  | _ => 0

theorem counted_le (point : Point) : counted point ≤ 1 := by
  unfold counted
  split <;> omega

theorem arrived_le (point : Point) : arrived point ≤ 1 := by
  unfold arrived
  split <;> omega

structure Counts (totalProcs : Nat) (cores : Cores) : Prop where
  beyond : ∀ core, totalProcs ≤ core → cores.point core = .off
  running : cores.running = census counted cores.point
  here : cores.howManyAreHere = census arrived cores.point
  initProcs : cores.initProcs + census (deciding totalProcs) cores.point =
    if cores.howManyAreHere = totalProcs then 1 else 0

section Counts

variable {totalProcs core : Nat} {cores next : Cores} {point target : Point}

theorem Counts.sparse (counts : Counts totalProcs cores) : Sparse .off cores.point := by
  apply (Finset.range totalProcs).finite_toSet.subset
  intro core busy
  rw [Finset.mem_coe, Finset.mem_range]
  by_contra outside
  exact busy (counts.beyond core (not_lt.mp outside))

theorem Counts.inside (counts : Counts totalProcs cores) (busy : cores.point core ≠ .off) :
    core < totalProcs := by
  by_contra outside
  exact busy (counts.beyond core (not_lt.mp outside))

theorem Counts.running_le (counts : Counts totalProcs cores) {id : Nat}
    (others : ∀ core, id ≤ core → counted (cores.point core) = 0) : cores.running ≤ id := by
  rw [counts.running]
  have atMost := census_le_card (Finset.range id) (fun core => counted_le (cores.point core))
    (fun core outside => others core (by simpa using outside))
  rwa [Finset.card_range] at atMost

theorem Counts.le_running (counts : Counts totalProcs cores) {id : Nat}
    (all : ∀ core < id, counted (cores.point core) = 1) : id ≤ cores.running := by
  rw [counts.running]
  have atLeast := @card_le_census _ _ _ _ counted _ counts.sparse rfl (Finset.range id)
    (fun core inside => (all core (Finset.mem_range.mp inside)).ge)
  rwa [Finset.card_range] at atLeast

theorem Counts.here_le (counts : Counts totalProcs cores) :
    cores.howManyAreHere ≤ totalProcs := by
  rw [counts.here]
  have atMost := census_le_card (Finset.range totalProcs)
    (fun core => arrived_le (cores.point core))
    (fun core outside => by
      rw [counts.beyond core (by simpa using outside)]
      rfl)
  rwa [Finset.card_range] at atMost

/-- One core that does not count leaves the census below the number of cores. -/
theorem Counts.census_lt (counts : Counts totalProcs cores) {weight : Point → Nat}
    (light : ∀ point, weight point ≤ 1) (off : weight .off = 0) (inside : core < totalProcs)
    (nothing : weight (cores.point core) = 0) : census weight cores.point < totalProcs := by
  have fewer := census_le_card ((Finset.range totalProcs).erase core)
    (fun other => light (cores.point other))
    (fun other outside => by
      by_cases same : other = core
      · rw [same, nothing]
      · rw [counts.beyond other (by simpa [same] using outside), off])
  rw [Finset.card_erase_of_mem (Finset.mem_range.mpr inside), Finset.card_range] at fewer
  omega

/-- When as many have come as there are, everybody has. -/
theorem Counts.all_here (counts : Counts totalProcs cores)
    (all : cores.howManyAreHere = totalProcs) (inside : core < totalProcs) :
    arrived (cores.point core) = 1 := by
  by_contra away
  have atMost := arrived_le (cores.point core)
  have fewer := counts.census_lt arrived_le rfl inside (by omega)
  rw [← counts.here] at fewer
  omega

/-- A core moves, and each count changes by what the core counts for. -/
theorem Counts.move (counts : Counts totalProcs cores) (inside : core < totalProcs)
    (here : cores.point core = point) (moved : next.point = update cores.point core target)
    (running : next.running + counted point = cores.running + counted target)
    (hereNow : next.howManyAreHere + arrived point = cores.howManyAreHere + arrived target)
    (initProcs : next.initProcs + deciding totalProcs target +
        (if cores.howManyAreHere = totalProcs then 1 else 0) =
      cores.initProcs + deciding totalProcs point +
        (if next.howManyAreHere = totalProcs then 1 else 0)) : Counts totalProcs next := by
  have weigh (weight : Point → Nat) (idle : weight .off = 0) :=
    census_move counts.sparse idle core target
  rw [← moved, here] at weigh
  constructor
  · intro other outside
    rw [moved, update_of_ne (by omega)]
    exact counts.beyond other outside
  · have change := weigh counted rfl
    have before := counts.running
    omega
  · have change := weigh arrived rfl
    have before := counts.here
    omega
  · have change := weigh (deciding totalProcs) rfl
    have before := counts.initProcs
    omega

/-- A core moves and counts for the same as before. -/
theorem Counts.go (counts : Counts totalProcs cores) (inside : core < totalProcs)
    (here : cores.point core = point) (moved : next.point = update cores.point core target)
    (sameRunning : next.running = cores.running)
    (sameHere : next.howManyAreHere = cores.howManyAreHere)
    (sameProcs : next.initProcs = cores.initProcs) (running : counted point = counted target)
    (arrives : arrived point = arrived target)
    (decides : deciding totalProcs point = deciding totalProcs target) :
    Counts totalProcs next := by
  apply counts.move inside here moved
  · rw [sameRunning, running]
  · rw [sameHere, arrives]
  · rw [sameHere, sameProcs, decides]

end Counts

/-! ### Where the others are -/

/-- On the way to `running.fetch_add`. -/
inductive Coming : Point → Prop where
  | picking : Coming .picking
  | kernelInit : Coming .kernelInit
  | addRunning : Coming .addRunning

/-- Where all cores do the same. -/
inductive Tail : Point → Prop where
  | perCoreInit : Tail .perCoreInit
  | pitInit : Tail .pitInit
  | setTss : Tail .setTss
  | sti : Tail .sti
  | arrive : Tail .arrive
  | ordered (myOrder : Nat) : Tail (.ordered myOrder)
  | stopped : Tail .stopped

/-- Behind `running.fetch_add` and, for core 0, behind the loop. -/
inductive Up : Point → Prop where
  | smpInit : Up .smpInit
  | tail {point : Point} (tail : Tail point) : Up point

/-- Core 0 is done with another core. -/
def Behind (core : Nat) : Point → Prop
  | .off | .waiting | .picking | .kernelInit | .shared _ => False
  | .starting id | .ipiInit id | .ipiStartup id => core < id
  | .spin id => core ≤ id
  | _ => True

/-- Core 0 is not yet at another core. -/
def Ahead (core : Nat) : Point → Prop
  | .off | .waiting | .picking | .kernelInit | .shared _ => True
  | .starting id | .ipiInit id => id ≤ core
  | .ipiStartup id | .spin id => id < core
  | _ => False

/-- Where another core may be while core 0 is at its place. -/
inductive Follows (core : Nat) : (first point : Point) → Prop where
  | off {first : Point} (ahead : Ahead core first) : Follows core first .off
  | waiting : Follows core (.ipiStartup core) .waiting
  | coming {point : Point} (coming : Coming point) : Follows core (.spin core) point
  | up {first point : Point} (behind : Behind core first) (up : Up point) :
      Follows core first point

/-- What is set up when core 0 is at its place. -/
def Prepared (totalProcs : Nat) (done : List Stage) (smpInitDone : Bool) : Point → Prop
  | .picking | .kernelInit => done = [] ∧ smpInitDone = false
  | .shared left => done ++ left = Stage.all ∧ smpInitDone = done.contains .smpInitDone
  | .starting id => done = Stage.all ∧ smpInitDone = true ∧ 0 < id ∧ id ≤ totalProcs
  | .ipiInit id | .ipiStartup id | .spin id =>
      done = Stage.all ∧ smpInitDone = true ∧ 0 < id ∧ id < totalProcs
  | .perCoreInit | .pitInit | .setTss | .sti | .arrive | .ordered _ | .stopped =>
      done = Stage.all ∧ smpInitDone = true
  | _ => False

/-- The stack of a core that is at this point. -/
def Point.stack (core : Nat) : Point → Option Stack
  | .off | .waiting => none
  | .picking => some .temp
  | _ => some (.kernel core)

structure Inv (totalProcs : Nat) (cores : Cores) : Prop where
  counts : Counts totalProcs cores
  first : Prepared totalProcs cores.done cores.smpInitDone (cores.point 0)
  others : ∀ core, 0 < core → core < totalProcs → Follows core (cores.point 0) (cores.point core)
  stack : ∀ core, cores.stack core = (cores.point core).stack core

theorem start_point (core : Nat) :
    Cores.start.point core = if core = 0 then .picking else .off := rfl

theorem start_census {weight : Point → Nat} (off : weight .off = 0)
    (picking : weight .picking = 0) : census weight Cores.start.point = 0 := by
  apply census_zero
  intro core
  rw [start_point]
  split
  · exact picking
  · exact off

theorem start_inv {totalProcs : Nat} (some_ : 0 < totalProcs) : Inv totalProcs Cores.start where
  counts :=
    { beyond := fun core outside => if_neg (by omega)
      running := (start_census rfl rfl).symm
      here := (start_census rfl rfl).symm
      initProcs := by
        rw [start_census rfl rfl]
        exact (if_neg (Nat.ne_of_lt some_)).symm }
  first := ⟨rfl, rfl⟩
  others core notFirst inside := by
    rw [start_point core, if_neg (Nat.ne_of_gt notFirst)]
    exact .off trivial
  stack core := by
    rw [start_point]
    by_cases first : core = 0
    · subst first
      rfl
    · rw [if_neg first]
      exact if_neg first

/-! ### One step -/

section Steps

variable {totalProcs core id : Nat} {cores next : Cores} {first point target : Point}

theorem Coming.not_up (coming : Coming point) : ¬ Up point := by
  intro up
  cases up with
  | smpInit => cases coming
  | tail tail => cases coming <;> cases tail

theorem Coming.not_counted (coming : Coming point) : counted point = 0 := by
  cases coming <;> rfl

theorem Up.counted (up : Up point) : counted point = 1 := by
  cases up with
  | smpInit => rfl
  | tail tail => cases tail <;> rfl

theorem Follows.spins (follows : Follows core first point) (coming : Coming point) :
    first = .spin core := by
  cases follows with
  | off => cases coming
  | waiting => cases coming
  | coming => rfl
  | up _ up => exact absurd up coming.not_up

/-- Another core goes on behind `running.fetch_add`. -/
theorem Follows.go_up (follows : Follows core first point) (up : Up target)
    (started : Coming point ∨ Up point) : Follows core first target := by
  cases follows with
  | off =>
      rcases started with coming | up
      · cases coming
      · cases up with
        | tail tail => cases tail
  | waiting =>
      rcases started with coming | up
      · cases coming
      · cases up with
        | tail tail => cases tail
  | coming => exact .up (Nat.le_refl core) up
  | up behind => exact .up behind up

/-- Core 0 goes on, and does not wait for this core. -/
theorem Follows.advance (follows : Follows core first point)
    (behind : Behind core first → Behind core target) (ahead : Ahead core first → Ahead core target)
    (notStartup : first ≠ .ipiStartup core) (notSpin : first = .spin core → ¬ Coming point) :
    Follows core target point := by
  cases follows with
  | off before => exact .off (ahead before)
  | waiting => exact absurd rfl notStartup
  | coming coming => exact absurd coming (notSpin rfl)
  | up before up => exact .up (behind before) up

theorem Ahead.not_behind (ahead : Ahead core first) : ¬ Behind core first := by
  intro behind
  cases first with
  | starting id | ipiInit id => exact absurd behind (Nat.not_lt.mpr ahead)
  | ipiStartup id => exact absurd behind (Nat.lt_asymm ahead)
  | spin id => exact absurd behind (Nat.not_le.mpr ahead)
  | off | waiting | picking | kernelInit | shared => exact behind
  | _ => exact ahead

/-- A core that core 0 has not come to is off. -/
theorem Follows.ahead_off (follows : Follows core first point) (ahead : Ahead core first) :
    point = .off := by
  cases follows with
  | off => rfl
  | waiting => exact absurd ahead (Nat.lt_irrefl core)
  | coming => exact absurd ahead (Nat.lt_irrefl core)
  | up behind => exact absurd behind ahead.not_behind

theorem Follows.startup_waits (follows : Follows core (.ipiStartup core) point) :
    point = .waiting := by
  cases follows with
  | off ahead => exact absurd ahead (Nat.lt_irrefl core)
  | waiting => rfl
  | up behind => exact absurd behind (Nat.lt_irrefl core)

/-- What is left to prove when one core has moved. -/
theorem Inv.moved (inv : Inv totalProcs cores) (counts : Counts totalProcs next)
    (moved : next.point = update cores.point core target)
    (prepared : Prepared totalProcs next.done next.smpInitDone (next.point 0))
    (others : ∀ other, 0 < other → other < totalProcs →
      Follows other (next.point 0) (next.point other))
    (own : next.stack core = target.stack core)
    (kept : ∀ other, other ≠ core → next.stack other = cores.stack other) :
    Inv totalProcs next where
  counts := counts
  first := prepared
  others := others
  stack other := by
    by_cases same : other = core
    · rw [same, moved, update_self]
      exact own
    · rw [kept other same, moved, update_of_ne same]
      exact inv.stack other

/-- Another core than core 0 goes on. -/
theorem Inv.other_moved (inv : Inv totalProcs cores) (counts : Counts totalProcs next)
    (notFirst : core ≠ 0) (moved : next.point = update cores.point core target)
    (follows : Follows core (cores.point 0) target) (done : next.done = cores.done)
    (smpInitDone : next.smpInitDone = cores.smpInitDone)
    (own : next.stack core = target.stack core)
    (kept : ∀ other, other ≠ core → next.stack other = cores.stack other) :
    Inv totalProcs next := by
  have first : next.point 0 = cores.point 0 := by
    rw [moved, update_of_ne (Ne.symm notFirst)]
  apply inv.moved counts moved
  · rw [done, smpInitDone, first]
    exact inv.first
  · intro other later inside
    rw [first, moved]
    by_cases same : other = core
    · rw [same, update_self]
      exact follows
    · rw [update_of_ne same]
      exact inv.others other later inside
  · exact own
  · exact kept

/-- Core 0 goes on. -/
theorem Inv.first_moved (inv : Inv totalProcs cores) (counts : Counts totalProcs next)
    (moved : next.point = update cores.point 0 target)
    (prepared : Prepared totalProcs next.done next.smpInitDone target)
    (leads : ∀ other, 0 < other → other < totalProcs →
      Follows other (cores.point 0) (cores.point other) → Follows other target (cores.point other))
    (own : next.stack 0 = target.stack 0)
    (kept : ∀ other, other ≠ 0 → next.stack other = cores.stack other) :
    Inv totalProcs next := by
  have first : next.point 0 = target := by
    rw [moved, update_self]
  apply inv.moved counts moved
  · rw [first]
    exact prepared
  · intro other later inside
    rw [first, moved, update_of_ne (Nat.ne_of_gt later)]
    exact leads other later inside (inv.others other later inside)
  · exact own
  · exact kept

theorem Tail.behind (tail : Tail point) : Behind core point := by
  cases tail <;> trivial

theorem Tail.not_ahead (tail : Tail point) : ¬ Ahead core point := by
  cases tail <;> exact id

theorem Tail.prepared (tail : Tail point) {done : List Stage} {flag : Bool} :
    Prepared totalProcs done flag point ↔ done = Stage.all ∧ flag = true := by
  cases tail <;> exact Iff.rfl

theorem Tail.stack (tail : Tail point) : point.stack core = some (.kernel core) := by
  cases tail <;> rfl

theorem Up.stack (up : Up point) : point.stack core = some (.kernel core) := by
  cases up with
  | smpInit => rfl
  | tail tail => exact tail.stack

/-- A core goes on where all do the same. -/
theorem Inv.tail (inv : Inv totalProcs cores) (counts : Counts totalProcs next)
    (here : cores.point core = point) (up : Up point) (tail : Tail target)
    (moved : next.point = update cores.point core target) (done : next.done = cores.done)
    (smpInitDone : next.smpInitDone = cores.smpInitDone) (kept : next.stack = cores.stack) :
    Inv totalProcs next := by
  have own : next.stack core = target.stack core := by
    rw [kept, inv.stack, here, up.stack, tail.stack]
  have others (other : Nat) (_ : other ≠ core) : next.stack other = cores.stack other := by
    rw [kept]
  by_cases first : core = 0
  · subst first
    have prepared := inv.first
    rw [here] at prepared
    have before : Tail point := by
      cases up with
      | smpInit => exact prepared.elim
      | tail tail => exact tail
    apply inv.first_moved counts moved
    · rw [done, smpInitDone, tail.prepared]
      exact before.prepared.mp prepared
    · intro other later inside follows
      rw [here] at follows
      apply follows.advance
      · exact fun _ => tail.behind
      · exact fun ahead => absurd ahead before.not_ahead
      · rintro rfl
        cases before
      · rintro rfl
        cases before
    · exact own
    · exact others
  · have inside := @Counts.inside _ core _ counts (by
      rw [moved, update_self]
      rintro rfl
      cases tail)
    have follows := inv.others core (Nat.pos_of_ne_zero first) inside
    apply inv.other_moved counts first moved _ done smpInitDone own others
    rw [here] at follows
    exact follows.go_up (.tail tail) (.inr up)

theorem addFetch_eq {count : Nat} (fits : count < totalProcs) (few : totalProcs < 2 ^ 32) :
    Cores.addFetch count = count + 1 := Nat.mod_eq_of_lt (by omega)

/-- A core that is on its way has been started by core 0, which waits for it. -/
theorem Inv.spins (inv : Inv totalProcs cores) (notFirst : core ≠ 0) (inside : core < totalProcs)
    (coming : Coming (cores.point core)) :
    cores.point 0 = .spin core ∧ cores.done = Stage.all ∧ cores.smpInitDone = true := by
  have spins := (inv.others core (Nat.pos_of_ne_zero notFirst) inside).spins coming
  have prepared := inv.first
  rw [spins] at prepared
  exact ⟨spins, prepared.1, prepared.2.1⟩

/-- Where only core 0 comes. -/
inductive Own : Point → Prop where
  | shared (left : List Stage) : Own (.shared left)
  | starting (id : Nat) : Own (.starting id)
  | ipiInit (id : Nat) : Own (.ipiInit id)
  | ipiStartup (id : Nat) : Own (.ipiStartup id)
  | spin (id : Nat) : Own (.spin id)

theorem Inv.first_of_own (inv : Inv totalProcs cores) (inside : core < totalProcs)
    (here : cores.point core = point) (own : Own point) : core = 0 := by
  by_contra notFirst
  have follows := inv.others core (Nat.pos_of_ne_zero notFirst) inside
  rw [here] at follows
  generalize cores.point 0 = first at follows
  cases follows with
  | off => cases own
  | waiting => cases own
  | coming coming => cases coming <;> cases own
  | up _ up =>
      cases up with
      | smpInit => cases own
      | tail tail => cases tail <;> cases own

/-- The core that is to be started is off, and behind the INIT it waits. -/
theorem Inv.ipi_target (inv : Inv totalProcs cores) :
    (cores.point 0 = .ipiInit id → 0 < id ∧ id < totalProcs ∧ cores.point id = .off) ∧
    (cores.point 0 = .ipiStartup id → 0 < id ∧ id < totalProcs ∧ cores.point id = .waiting) := by
  have prepared := inv.first
  constructor
  · intro here
    rw [here] at prepared
    obtain ⟨_, _, positive, inside⟩ := prepared
    have follows := inv.others id positive inside
    rw [here] at follows
    exact ⟨positive, inside, follows.ahead_off (Nat.le_refl id)⟩
  · intro here
    rw [here] at prepared
    obtain ⟨_, _, positive, inside⟩ := prepared
    have follows := inv.others id positive inside
    rw [here] at follows
    exact ⟨positive, inside, follows.startup_waits⟩

/-- Core 0 sends an interrupt to a core, and goes on. -/
theorem Inv.ipi {first : Point} (inv : Inv totalProcs cores) (counts : Counts totalProcs next)
    (moved : next.point = update (update cores.point id target) 0 first)
    (prepared : Prepared totalProcs next.done next.smpInitDone first)
    (others : ∀ other, other ≠ id → Follows other (cores.point 0) (cores.point other) →
      Follows other first (cores.point other))
    (follows : Follows id first target) (own : next.stack id = target.stack id)
    (sender : next.stack 0 = first.stack 0)
    (kept : ∀ other, other ≠ id → next.stack other = cores.stack other) :
    Inv totalProcs next where
  counts := counts
  first := by
    rw [moved, update_self]
    exact prepared
  others other later inside := by
    rw [moved, update_self, update_of_ne (Nat.ne_of_gt later)]
    by_cases same : other = id
    · rw [same, update_self]
      exact follows
    · rw [update_of_ne same]
      exact others other same (inv.others other later inside)
  stack other := by
    rw [moved]
    by_cases sends : other = 0
    · rw [sends, update_self]
      exact sender
    · rw [update_of_ne sends]
      by_cases same : other = id
      · rw [same, update_self]
        exact own
      · rw [kept other same, update_of_ne same]
        exact inv.stack other

/-- Core 0 leaves its spin when the core that it has started has counted itself. -/
theorem Inv.came (inv : Inv totalProcs cores) (here : cores.point 0 = .spin id)
    (more : id < cores.running) : ¬ Coming (cores.point id) := by
  intro coming
  have few : cores.running ≤ id := by
    apply inv.counts.running_le
    intro core later
    by_cases outside : totalProcs ≤ core
    · rw [inv.counts.beyond core outside]
      rfl
    by_cases same : core = id
    · rw [same]
      exact coming.not_counted
    have follows := inv.others core (by omega) (by omega)
    rw [here] at follows
    rw [follows.ahead_off (Nat.lt_of_le_of_ne later (Ne.symm same))]
    rfl
  omega

theorem Inv.own_stack (inv : Inv totalProcs cores) (here : cores.point core = point)
    (kernel : point.stack core = some (.kernel core)) : cores.stack core = some (.kernel core) := by
  rw [inv.stack, here, kernel]

theorem Inv.step_picking (inv : Inv totalProcs cores) (inside : core < totalProcs)
    (here : cores.point core = .picking) :
    Inv totalProcs
      { cores.go core .kernelInit with
        stack := update cores.stack core (some (cores.pickKernelStack core)) } := by
  have counts := inv.counts
  by_cases first : core = 0
  · subst first
    have prepared := inv.first
    rw [here] at prepared
    apply inv.first_moved
    · exact counts.go inside here rfl rfl rfl rfl rfl rfl rfl
    · rfl
    · exact prepared
    · intro other _ _ follows
      rw [here] at follows
      exact follows.advance id id Point.noConfusion Point.noConfusion
    · change update cores.stack 0 (some (cores.pickKernelStack 0)) 0 = some (.kernel 0)
      rw [update_self, Cores.pickKernelStack, ite_self]
    · exact fun other different => update_of_ne different _ _
  · obtain ⟨spins, _, done⟩ := inv.spins first inside (here ▸ .picking)
    apply inv.other_moved
    · exact counts.go inside here rfl rfl rfl rfl rfl rfl rfl
    · exact first
    · rfl
    · rw [spins]
      exact .coming .kernelInit
    · rfl
    · rfl
    · change update cores.stack core (some (cores.pickKernelStack core)) core = some (.kernel core)
      rw [update_self, Cores.pickKernelStack, if_pos done]
    · exact fun other different => update_of_ne different _ _

theorem Inv.step_kernelInit (inv : Inv totalProcs cores) (inside : core < totalProcs)
    (here : cores.point core = .kernelInit) :
    Inv totalProcs
      (cores.go core (if cores.smpInitDone then .addRunning else .shared Stage.all)) := by
  have counts := inv.counts
  by_cases first : core = 0
  · subst first
    have prepared := inv.first
    rw [here] at prepared
    obtain ⟨nothing, notDone⟩ := prepared
    rw [if_neg (by rw [notDone]; exact Bool.noConfusion)]
    apply inv.first_moved
    · exact counts.go inside here rfl rfl rfl rfl rfl rfl rfl
    · rfl
    · change cores.done ++ Stage.all = Stage.all ∧
        cores.smpInitDone = cores.done.contains .smpInitDone
      rw [nothing, notDone]
      exact ⟨rfl, rfl⟩
    · intro other _ _ follows
      rw [here] at follows
      exact follows.advance id id Point.noConfusion Point.noConfusion
    · exact inv.own_stack here rfl
    · exact fun _ _ => rfl
  · obtain ⟨spins, _, done⟩ := inv.spins first inside (here ▸ .kernelInit)
    rw [if_pos done]
    apply inv.other_moved
    · exact counts.go inside here rfl rfl rfl rfl rfl rfl rfl
    · exact first
    · rfl
    · rw [spins]
      exact .coming .addRunning
    · rfl
    · rfl
    · exact inv.own_stack here rfl
    · exact fun _ _ => rfl

theorem Inv.step_shared (inv : Inv totalProcs cores) (inside : 0 < totalProcs) {stage : Stage}
    {left : List Stage} (here : cores.point 0 = .shared (stage :: left)) :
    Inv totalProcs
      { cores.go 0 (.shared left) with
        smpInitDone := cores.smpInitDone || stage == .smpInitDone
        done := cores.done ++ [stage] } := by
  have prepared := inv.first
  rw [here] at prepared
  obtain ⟨done, flag⟩ := prepared
  apply inv.first_moved
  · exact inv.counts.go inside here rfl rfl rfl rfl rfl rfl rfl
  · rfl
  · constructor
    · rw [List.append_assoc]
      exact done
    · rw [flag, List.contains_append, List.contains_cons, List.contains_nil, Bool.or_false,
        BEq.comm]
  · intro other _ _ follows
    rw [here] at follows
    exact follows.advance id id Point.noConfusion Point.noConfusion
  · exact inv.own_stack here rfl
  · exact fun _ _ => rfl

theorem Inv.step_ready (inv : Inv totalProcs cores) (inside : 0 < totalProcs)
    (few : totalProcs < 2 ^ 32) (here : cores.point 0 = .shared []) :
    Inv totalProcs
      { cores.go 0 (.starting 1) with running := Cores.addFetch cores.running } := by
  have counts := inv.counts
  have prepared := inv.first
  rw [here] at prepared
  have done : cores.done = Stage.all := (List.append_nil _).symm.trans prepared.1
  have fits : cores.running < totalProcs := by
    rw [counts.running]
    exact counts.census_lt counted_le rfl inside (by rw [here]; rfl)
  apply inv.first_moved
  · apply counts.move inside here
    · rfl
    · exact addFetch_eq fits few
    · rfl
    · rfl
  · rfl
  · refine ⟨done, ?_, Nat.one_pos, inside⟩
    change cores.smpInitDone = true
    rw [prepared.2, done]
    rfl
  · intro other later _ follows
    rw [here] at follows
    exact follows.advance False.elim (fun _ => later) Point.noConfusion Point.noConfusion
  · exact inv.own_stack here rfl
  · exact fun _ _ => rfl

theorem Inv.step_starting (inv : Inv totalProcs cores) (inside : 0 < totalProcs)
    (here : cores.point 0 = .starting id) :
    Inv totalProcs (cores.go 0 (if id < totalProcs then .ipiInit id else .perCoreInit)) := by
  have prepared := inv.first
  rw [here] at prepared
  obtain ⟨done, flag, positive, bound⟩ := prepared
  by_cases more : id < totalProcs
  · rw [if_pos more]
    apply inv.first_moved
    · exact inv.counts.go inside here rfl rfl rfl rfl rfl rfl rfl
    · rfl
    · exact ⟨done, flag, positive, more⟩
    · intro other _ _ follows
      rw [here] at follows
      exact follows.advance (fun behind => behind) (fun ahead => ahead) Point.noConfusion
        Point.noConfusion
    · exact inv.own_stack here rfl
    · exact fun _ _ => rfl
  · rw [if_neg more]
    apply inv.first_moved
    · exact inv.counts.go inside here rfl rfl rfl rfl rfl rfl rfl
    · rfl
    · exact ⟨done, flag⟩
    · intro other _ within follows
      rw [here] at follows
      have behind : ¬ Ahead other (.starting id) :=
        Nat.not_le.mpr (Nat.lt_of_lt_of_le within (Nat.not_lt.mp more))
      exact follows.advance (fun _ => trivial) (fun ahead => absurd ahead behind)
        Point.noConfusion Point.noConfusion
    · exact inv.own_stack here rfl
    · exact fun _ _ => rfl

theorem Inv.step_ipiInit (inv : Inv totalProcs cores) (inside : 0 < totalProcs)
    (here : cores.point 0 = .ipiInit id) :
    Inv totalProcs ((cores.receiveInit id).go 0 (.ipiStartup id)) := by
  obtain ⟨positive, within, off⟩ := inv.ipi_target.1 here
  have notFirst : (0 : Nat) ≠ id := Nat.ne_of_lt positive
  have prepared := inv.first
  rw [here] at prepared
  have received : Counts totalProcs (cores.receiveInit id) :=
    inv.counts.go within off rfl rfl rfl rfl rfl rfl rfl
  have sender : (cores.receiveInit id).point 0 = .ipiInit id := by
    rw [← here]
    exact update_of_ne notFirst _ _
  apply inv.ipi
  · exact received.go inside sender rfl rfl rfl rfl rfl rfl rfl
  · rfl
  · exact prepared
  · intro other different follows
    rw [here] at follows
    exact follows.advance (fun behind => behind)
      (fun ahead => Nat.lt_of_le_of_ne ahead (Ne.symm different)) Point.noConfusion
      Point.noConfusion
  · exact .waiting
  · exact update_self _ _ _
  · change update cores.stack id none 0 = _
    rw [update_of_ne notFirst]
    exact inv.own_stack here rfl
  · exact fun other different => update_of_ne different _ _

theorem Inv.step_ipiStartup (inv : Inv totalProcs cores) (inside : 0 < totalProcs)
    (here : cores.point 0 = .ipiStartup id) :
    Inv totalProcs ((cores.receiveStartup id).go 0 (.spin id)) := by
  obtain ⟨positive, within, waits⟩ := inv.ipi_target.2 here
  have notFirst : (0 : Nat) ≠ id := Nat.ne_of_lt positive
  have prepared := inv.first
  rw [here] at prepared
  rw [Cores.receiveStartup, if_pos waits]
  have received : Counts totalProcs
      { cores.go id .picking with stack := update cores.stack id (some .temp) } :=
    inv.counts.go within waits rfl rfl rfl rfl rfl rfl rfl
  have sender : (cores.go id .picking).point 0 = .ipiStartup id := by
    rw [← here]
    exact update_of_ne notFirst _ _
  apply inv.ipi
  · exact received.go inside sender rfl rfl rfl rfl rfl rfl rfl
  · rfl
  · exact prepared
  · intro other different follows
    rw [here] at follows
    apply follows.advance
    · exact fun behind => Nat.le_of_lt behind
    · exact fun ahead => ahead
    · intro same
      cases same
      exact different rfl
    · exact Point.noConfusion
  · exact .coming .picking
  · exact update_self _ _ _
  · change update cores.stack id (some .temp) 0 = _
    rw [update_of_ne notFirst]
    exact inv.own_stack here rfl
  · exact fun other different => update_of_ne different _ _

theorem Inv.step_spin (inv : Inv totalProcs cores) (inside : 0 < totalProcs)
    (here : cores.point 0 = .spin id) (more : id < cores.running) :
    Inv totalProcs (cores.go 0 (.starting (id + 1))) := by
  have prepared := inv.first
  rw [here] at prepared
  obtain ⟨done, flag, positive, within⟩ := prepared
  apply inv.first_moved
  · exact inv.counts.go inside here rfl rfl rfl rfl rfl rfl rfl
  · rfl
  · exact ⟨done, flag, Nat.succ_pos id, within⟩
  · intro other _ _ follows
    rw [here] at follows
    apply follows.advance
    · exact fun behind => Nat.lt_succ_of_le behind
    · exact fun ahead => ahead
    · exact Point.noConfusion
    · intro same
      cases same
      exact inv.came here more
  · exact inv.own_stack here rfl
  · exact fun _ _ => rfl

theorem Inv.step_addRunning (inv : Inv totalProcs cores) (inside : core < totalProcs)
    (few : totalProcs < 2 ^ 32) (here : cores.point core = .addRunning) :
    Inv totalProcs { cores.go core .smpInit with running := Cores.addFetch cores.running } := by
  have counts := inv.counts
  have notFirst : core ≠ 0 := by
    rintro rfl
    have prepared := inv.first
    rw [here] at prepared
    exact prepared
  have fits : cores.running < totalProcs := by
    rw [counts.running]
    exact counts.census_lt counted_le rfl inside (by rw [here]; rfl)
  apply inv.other_moved
  · apply counts.move inside here
    · rfl
    · exact addFetch_eq fits few
    · rfl
    · rfl
  · exact notFirst
  · rfl
  · have follows := inv.others core (Nat.pos_of_ne_zero notFirst) inside
    rw [here] at follows
    exact follows.go_up .smpInit (.inl .addRunning)
  · rfl
  · rfl
  · exact inv.own_stack here rfl
  · exact fun _ _ => rfl

theorem Inv.step_arrive (inv : Inv totalProcs cores) (inside : core < totalProcs)
    (few : totalProcs < 2 ^ 32) (here : cores.point core = .arrive) :
    Inv totalProcs
      { cores.go core (.ordered (Cores.addFetch cores.howManyAreHere)) with
        howManyAreHere := Cores.addFetch cores.howManyAreHere } := by
  have counts := inv.counts
  have fits : cores.howManyAreHere < totalProcs := by
    rw [counts.here]
    exact counts.census_lt arrived_le rfl inside (by rw [here]; rfl)
  apply inv.tail _ here (.tail .arrive) (.ordered _)
  · rfl
  · rfl
  · rfl
  · rfl
  · apply counts.move inside here
    · rfl
    · rfl
    · exact addFetch_eq fits few
    · rw [if_neg (Nat.ne_of_lt fits)]
      rfl

theorem Inv.step_ordered (inv : Inv totalProcs cores) (inside : core < totalProcs) {myOrder : Nat}
    (here : cores.point core = .ordered myOrder) :
    Inv totalProcs
      { cores.go core .stopped with
        initProcs := if myOrder = totalProcs then cores.initProcs + 1 else cores.initProcs } := by
  apply inv.tail _ here (.tail (.ordered myOrder)) .stopped
  · rfl
  · rfl
  · rfl
  · rfl
  · apply inv.counts.move inside here
    · rfl
    · rfl
    · rfl
    · change (if myOrder = totalProcs then cores.initProcs + 1 else cores.initProcs) + 0 + _ =
        cores.initProcs + (if myOrder = totalProcs then 1 else 0) +
          (if cores.howManyAreHere = totalProcs then 1 else 0)
      by_cases last : myOrder = totalProcs
      · rw [if_pos last, if_pos last, Nat.add_zero]
      · rw [if_neg last, if_neg last]

theorem Inv.step (inv : Inv totalProcs cores) (few : totalProcs < 2 ^ 32)
    (stepped : cores.step totalProcs core = some next) : Inv totalProcs next := by
  have counts := inv.counts
  have inside : core < totalProcs := counts.inside (by
    intro off
    simp only [Cores.step, off] at stepped
    cases stepped)
  cases here : cores.point core with
  | off | waiting | stopped =>
      simp only [Cores.step, here] at stepped
      cases stepped
  | picking =>
      simp only [Cores.step, here] at stepped
      cases stepped
      exact inv.step_picking inside here
  | kernelInit =>
      simp only [Cores.step, here] at stepped
      cases stepped
      exact inv.step_kernelInit inside here
  | shared left =>
      obtain rfl := inv.first_of_own inside here (.shared left)
      cases left with
      | nil =>
          simp only [Cores.step, here] at stepped
          cases stepped
          exact inv.step_ready inside few here
      | cons stage left =>
          simp only [Cores.step, here] at stepped
          cases stepped
          exact inv.step_shared inside here
  | starting id =>
      obtain rfl := inv.first_of_own inside here (.starting id)
      simp only [Cores.step, here] at stepped
      cases stepped
      exact inv.step_starting inside here
  | ipiInit id =>
      obtain rfl := inv.first_of_own inside here (.ipiInit id)
      simp only [Cores.step, here] at stepped
      cases stepped
      exact inv.step_ipiInit inside here
  | ipiStartup id =>
      obtain rfl := inv.first_of_own inside here (.ipiStartup id)
      simp only [Cores.step, here] at stepped
      cases stepped
      exact inv.step_ipiStartup inside here
  | spin id =>
      obtain rfl := inv.first_of_own inside here (.spin id)
      simp only [Cores.step, here] at stepped
      by_cases stays : cores.running ≤ id
      · rw [if_pos stays] at stepped
        cases stepped
      · rw [if_neg stays] at stepped
        cases stepped
        exact inv.step_spin inside here (Nat.not_le.mp stays)
  | addRunning =>
      simp only [Cores.step, here] at stepped
      cases stepped
      exact inv.step_addRunning inside few here
  | smpInit =>
      simp only [Cores.step, here] at stepped
      cases stepped
      exact inv.tail (counts.go inside here rfl rfl rfl rfl rfl rfl rfl) here .smpInit
        .perCoreInit rfl rfl rfl rfl
  | perCoreInit =>
      simp only [Cores.step, here] at stepped
      cases stepped
      exact inv.tail (counts.go inside here rfl rfl rfl rfl rfl rfl rfl) here
        (.tail .perCoreInit) .pitInit rfl rfl rfl rfl
  | pitInit =>
      simp only [Cores.step, here] at stepped
      cases stepped
      exact inv.tail (counts.go inside here rfl rfl rfl rfl rfl rfl rfl) here
        (.tail .pitInit) .setTss rfl rfl rfl rfl
  | setTss =>
      simp only [Cores.step, here] at stepped
      cases stepped
      exact inv.tail (counts.go inside here rfl rfl rfl rfl rfl rfl rfl) here
        (.tail .setTss) .sti rfl rfl rfl rfl
  | sti =>
      simp only [Cores.step, here] at stepped
      cases stepped
      exact inv.tail (counts.go inside here rfl rfl rfl rfl rfl rfl rfl) here
        (.tail .sti) .arrive rfl rfl rfl rfl
  | arrive =>
      simp only [Cores.step, here] at stepped
      cases stepped
      exact inv.step_arrive inside few here
  | ordered myOrder =>
      simp only [Cores.step, here] at stepped
      cases stepped
      exact inv.step_ordered inside here

end Steps

theorem reached_inv {totalProcs : Nat} {cores : Cores} (some_ : 0 < totalProcs)
    (few : totalProcs < 2 ^ 32) (reached : (machine totalProcs).Reached Cores.start cores) :
    Inv totalProcs cores :=
  reached.preserves (Inv totalProcs) (fun _ _ _ inv _ stepped => inv.step few stepped)
    (start_inv some_)

end AC97Kernel.KernelInit
