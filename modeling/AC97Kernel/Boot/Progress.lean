/-
The cores come up: what they never do, and that they all get to the end.

Every step takes its core one place on, and an INIT or a STARTUP takes another one on, so
that the places that are left become fewer.  The cores can not all be stuck: the core
that core 0 waits for can go on.
-/

import AC97Kernel.Boot.Starting

set_option autoImplicit false

namespace AC97Kernel.KernelInit

open Function

variable {totalProcs core id : Nat} {cores next : Cores} {point target : Point}

/-! ### Safety -/

theorem Point.stack_cases (core : Nat) (point : Point) :
    point.stack core = none ∨ point.stack core = some (.kernel core) ∨ point = .picking := by
  cases point with
  | off | waiting => exact .inl rfl
  | picking => exact .inr (.inr rfl)
  | _ => exact .inr (.inl rfl)

/-- A core with `tempStack` is alone with it. -/
theorem Inv.picking_alone (inv : Inv totalProcs cores) {one other : Nat}
    (first : cores.point one = .picking) (second : cores.point other = .picking) :
    one = other := by
  have insideOne := @Counts.inside _ one _ inv.counts (by rw [first]; exact Point.noConfusion)
  have insideOther := @Counts.inside _ other _ inv.counts (by rw [second]; exact Point.noConfusion)
  by_cases zero : one = 0
  · by_contra different
    obtain ⟨spins, _⟩ := inv.spins (fun same => different (zero.trans same.symm)) insideOther
      (second ▸ .picking)
    rw [zero, spins] at first
    cases first
  · obtain ⟨spins, _⟩ := inv.spins zero insideOne (first ▸ .picking)
    by_cases alsoZero : other = 0
    · rw [alsoZero, spins] at second
      cases second
    · obtain ⟨spinsToo, _⟩ := inv.spins alsoZero insideOther (second ▸ .picking)
      rw [spins] at spinsToo
      cases spinsToo
      rfl

theorem Inv.stack_alone (inv : Inv totalProcs cores) {one other : Nat} {stack : Stack}
    (first : cores.stack one = some stack) (second : cores.stack other = some stack) :
    one = other := by
  rw [inv.stack] at first second
  rcases Point.stack_cases one (cores.point one) with off | kernel | picking
  · rw [off] at first
    cases first
  · rcases Point.stack_cases other (cores.point other) with off | kernelToo | picking
    · rw [off] at second
      cases second
    · rw [kernel] at first
      rw [kernelToo] at second
      cases first
      cases second
      rfl
    · rw [kernel] at first
      rw [picking] at second
      cases first
      cases second
  · rcases Point.stack_cases other (cores.point other) with off | kernel | pickingToo
    · rw [off] at second
      cases second
    · rw [picking] at first
      rw [kernel] at second
      cases first
      cases second
    · exact inv.picking_alone picking pickingToo

/-- Another core that is on is either on its way or up, so that all is set up. -/
theorem Inv.set_up (inv : Inv totalProcs cores) (notFirst : core ≠ 0)
    (runs : (cores.stack core).isSome = true) : cores.done = Stage.all := by
  have busy : cores.point core ≠ .off := by
    intro off
    rw [inv.stack, off] at runs
    cases runs
  have follows := inv.others core (Nat.pos_of_ne_zero notFirst) (inv.counts.inside busy)
  have prepared := inv.first
  cases at_ : cores.point 0 with
  | off | waiting | addRunning | smpInit =>
      rw [at_] at prepared
      exact prepared.elim
  | picking | kernelInit | shared =>
      rw [at_] at follows
      exact absurd (follows.ahead_off trivial) busy
  | _ =>
      rw [at_] at prepared
      exact prepared.1

theorem lawful (totalProcs : Nat) (turns : List Nat) (first : Cores) :
    (machine totalProcs).Lawful first turns := by
  induction turns generalizing first with
  | nil => trivial
  | cons core turns ih => exact ⟨trivial, fun next _ => ih next⟩

/-- Core 0 sets all up and starts core 1, and both come to the end. -/
def twoCores : List Nat :=
  List.replicate 20 0 ++ List.replicate 3 1 ++ List.replicate 8 0 ++ List.replicate 7 1

/-! ### Progress -/

/-- How many steps a core has left at most. -/
def rank (totalProcs : Nat) : Point → Nat
  | .stopped => 0
  | .ordered _ => 1
  | .arrive => 2
  | .sti => 3
  | .setTss => 4
  | .pitInit => 5
  | .perCoreInit => 6
  | .smpInit => 7
  | .addRunning => 8
  | .spin id => 4 * (totalProcs - id) + 4
  | .ipiStartup id => 4 * (totalProcs - id) + 5
  | .ipiInit id => 4 * (totalProcs - id) + 6
  | .starting id => 4 * (totalProcs - id) + 7
  | .shared left => 4 * totalProcs + left.length + 8
  | .kernelInit => 4 * totalProcs + Stage.all.length + 9
  | .picking => 4 * totalProcs + Stage.all.length + 10
  | .waiting => 4 * totalProcs + Stage.all.length + 11
  | .off => 4 * totalProcs + Stage.all.length + 12

def remaining (totalProcs : Nat) (cores : Cores) : Nat :=
  ∑ core ∈ Finset.range totalProcs, rank totalProcs (cores.point core)

theorem remaining_lowered (inside : core < totalProcs) (here : cores.point core = point)
    (moved : next.point = update cores.point core target)
    (lower : rank totalProcs target < rank totalProcs point) :
    remaining totalProcs next < remaining totalProcs cores := by
  apply Finset.sum_lt_sum
  · intro other _
    rw [moved]
    by_cases same : other = core
    · rw [same, update_self, here]
      exact Nat.le_of_lt lower
    · rw [update_of_ne same]
  · refine ⟨core, Finset.mem_range.mpr inside, ?_⟩
    rwa [moved, update_self, here]

theorem Inv.step_lowers (inv : Inv totalProcs cores)
    (stepped : cores.step totalProcs core = some next) :
    remaining totalProcs next < remaining totalProcs cores := by
  have inside : core < totalProcs := inv.counts.inside (by
    intro off
    simp only [Cores.step, off] at stepped
    cases stepped)
  cases here : cores.point core with
  | off | waiting | stopped =>
      simp only [Cores.step, here] at stepped
      cases stepped
  | kernelInit =>
      simp only [Cores.step, here] at stepped
      cases stepped
      apply remaining_lowered inside here rfl
      split <;> simp only [rank] <;> omega
  | shared left =>
      cases left with
      | nil =>
          simp only [Cores.step, here] at stepped
          cases stepped
          apply remaining_lowered inside here rfl
          simp only [rank]
          omega
      | cons stage left =>
          simp only [Cores.step, here] at stepped
          cases stepped
          apply remaining_lowered inside here rfl
          simp only [rank, List.length_cons]
          omega
  | starting id =>
      simp only [Cores.step, here] at stepped
      cases stepped
      apply remaining_lowered inside here rfl
      split <;> simp only [rank] <;> omega
  | ipiInit id =>
      obtain rfl := inv.first_of_own inside here (.ipiInit id)
      obtain ⟨positive, within, off⟩ := inv.ipi_target.1 here
      simp only [Cores.step, here] at stepped
      cases stepped
      have sender : (cores.receiveInit id).point 0 = .ipiInit id := by
        rw [← here]
        exact update_of_ne (Nat.ne_of_lt positive) _ _
      have received : remaining totalProcs (cores.receiveInit id) < remaining totalProcs cores :=
        remaining_lowered within off rfl (by simp only [rank]; omega)
      exact (remaining_lowered inside sender rfl (by simp only [rank]; omega)).trans received
  | ipiStartup id =>
      obtain rfl := inv.first_of_own inside here (.ipiStartup id)
      obtain ⟨positive, within, waits⟩ := inv.ipi_target.2 here
      simp only [Cores.step, here] at stepped
      cases stepped
      rw [Cores.receiveStartup, if_pos waits]
      have sender : (cores.go id .picking).point 0 = .ipiStartup id := by
        rw [← here]
        exact update_of_ne (Nat.ne_of_lt positive) _ _
      have received : remaining totalProcs
          { cores.go id .picking with stack := update cores.stack id (some .temp) } <
            remaining totalProcs cores :=
        remaining_lowered within waits rfl (by simp only [rank]; omega)
      exact (remaining_lowered inside sender rfl (by simp only [rank]; omega)).trans received
  | spin id =>
      obtain rfl := inv.first_of_own inside here (.spin id)
      have prepared := inv.first
      rw [here] at prepared
      obtain ⟨_, _, _, within⟩ := prepared
      simp only [Cores.step, here] at stepped
      split at stepped
      · cases stepped
      · cases stepped
        apply remaining_lowered inside here rfl
        simp only [rank]
        omega
  | _ =>
      simp only [Cores.step, here] at stepped
      cases stepped
      apply remaining_lowered inside here rfl
      simp only [rank]
      omega

theorem run_remaining (few : totalProcs < 2 ^ 32) (turns : List Nat) {first last : Cores}
    (inv : Inv totalProcs first) (ran : (machine totalProcs).run first turns = some last) :
    turns.length + remaining totalProcs last ≤ remaining totalProcs first := by
  induction turns generalizing first with
  | nil =>
      cases ran
      exact Nat.le_of_eq (Nat.zero_add _)
  | cons core turns ih =>
      obtain ⟨middle, stepped, rest⟩ := StepMachine.run_cons_some ran
      have lower := inv.step_lowers stepped
      have later := ih (inv.step few stepped) rest
      rw [List.length_cons]
      omega

theorem Coming.goes (coming : Coming (cores.point core)) :
    cores.step totalProcs core ≠ none := by
  generalize here : cores.point core = point at coming
  cases coming
  all_goals
    simp only [Cores.step, here]
    exact Option.some_ne_none _

theorem Up.stuck (up : Up (cores.point core)) (stuck : cores.step totalProcs core = none) :
    cores.point core = .stopped := by
  generalize here : cores.point core = point at up
  simp only [Cores.step, here] at stuck
  cases up with
  | smpInit => cases stuck
  | tail tail =>
      cases tail with
      | stopped => rfl
      | _ => cases stuck

/-- Core 0 is not the last one to be stuck. -/
theorem Inv.first_stuck (inv : Inv totalProcs cores)
    (stuck : ∀ core, cores.step totalProcs core = none) : cores.point 0 = .stopped := by
  have prepared := inv.first
  have stuckFirst := stuck 0
  cases here : cores.point 0 with
  | stopped => rfl
  | off | waiting | addRunning | smpInit =>
      rw [here] at prepared
      exact prepared.elim
  | spin id =>
      rw [here] at prepared
      obtain ⟨_, _, positive, within⟩ := prepared
      have follows := inv.others id positive within
      have waits : cores.running ≤ id := by
        simp only [Cores.step, here] at stuckFirst
        by_contra more
        rw [if_neg more] at stuckFirst
        cases stuckFirst
      have notComing : ¬ Coming (cores.point id) := fun coming => coming.goes (stuck id)
      have all : id + 1 ≤ cores.running := by
        apply inv.counts.le_running
        intro core before
        by_cases first : core = 0
        · rw [first, here]
          rfl
        · have follows := inv.others core (Nat.pos_of_ne_zero first) (by omega)
          rw [here] at follows
          generalize at_ : cores.point core = point at follows
          cases follows with
          | off ahead => exact absurd ahead (by simp only [Ahead]; omega)
          | coming coming => exact absurd (at_ ▸ coming) notComing
          | up _ up => exact up.counted
      omega
  | shared left =>
      cases left <;>
        · simp only [Cores.step, here] at stuckFirst
          cases stuckFirst
  | _ =>
      simp only [Cores.step, here] at stuckFirst
      cases stuckFirst

/-- When no core can go on, all are at the end. -/
theorem Inv.all_stopped (inv : Inv totalProcs cores)
    (stuck : ∀ core, cores.step totalProcs core = none) :
    ∀ core < totalProcs, cores.point core = .stopped := by
  intro core inside
  have first := inv.first_stuck stuck
  by_cases zero : core = 0
  · rw [zero]
    exact first
  · have follows := inv.others core (Nat.pos_of_ne_zero zero) inside
    rw [first] at follows
    have up : Up (cores.point core) := by
      generalize cores.point core = point at follows
      cases follows with
      | off ahead => exact ahead.elim
      | up _ up => exact up
    exact up.stuck (stuck core)

/-- Where all have stopped, one of them has made the first process. -/
theorem Inv.one_process (inv : Inv totalProcs cores)
    (stopped : ∀ core < totalProcs, cores.point core = .stopped) : cores.initProcs = 1 := by
  have made := inv.counts.initProcs
  have nobody : Census.census (deciding totalProcs) cores.point = 0 := by
    apply Census.census_zero
    intro core
    by_cases inside : core < totalProcs
    · rw [stopped core inside]
      rfl
    · rw [inv.counts.beyond core (Nat.not_lt.mp inside)]
      rfl
  have all : totalProcs ≤ cores.howManyAreHere := by
    rw [inv.counts.here]
    have many := @Census.card_le_census _ _ _ _ arrived _ inv.counts.sparse rfl
      (Finset.range totalProcs) (fun core inside => by
        rw [stopped core (Finset.mem_range.mp inside)]
        exact Nat.le_refl 1)
    rwa [Finset.card_range] at many
  rw [nobody, if_pos (Nat.le_antisymm inv.counts.here_le all)] at made
  exact made

end AC97Kernel.KernelInit
