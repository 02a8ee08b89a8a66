/-
The wait of `AC97::play` for the timer.

`Pit::jiffies` is a 32-bit counter that the timer interrupt advances while the loop
looks at it again and again.  A run is given by the value of the counter when the
deadline is computed from it, and by the ticks that have passed since then at each
look; any number of them may pass between two looks.
-/

import Mathlib.Algebra.Group.Nat.Defs
import Mathlib.Order.Monotone.Basic
import Mathlib.Order.Nat

set_option autoImplicit false

namespace AC97Kernel

def Pit.secondsToJiffies (jiffiesPerSecond secs : Nat) : Nat := jiffiesPerSecond * secs % 2 ^ 32

namespace AC97

/-- `Pit::jiffies` at a look. -/
def counter (start : Nat) (ticks : Nat → Nat) (look : Nat) : Nat := (start + ticks look) % 2 ^ 32

/-- The loop, from a look on: at which one it ends. -/
def waitLoop (start : Nat) (ticks : Nat → Nat) (target : Nat) : Nat → Nat → Option Nat
  | 0, _ => none
  | turns + 1, look =>
      if counter start ticks look < target then waitLoop start ticks target turns (look + 1)
      else some look

/-- The look behind which `play` stops the controller. -/
def play (jiffiesPerSecond duration jiffies start : Nat) (ticks : Nat → Nat) (turns : Nat) :
    Option Nat :=
  let target := (start + Pit.secondsToJiffies jiffiesPerSecond duration + jiffies) % 2 ^ 32
  waitLoop start ticks target turns 0

/-- The first look at which as many ticks have passed. -/
def Due (wait : Nat) (ticks : Nat → Nat) (look : Nat) : Prop :=
  wait ≤ ticks look ∧ ∀ earlier < look, ticks earlier < wait

/-- `play` stops at that look, if it comes, and at no other. -/
def WaitsExactly (jiffiesPerSecond duration jiffies start : Nat) (ticks : Nat → Nat) : Prop :=
  ∀ look, (∃ turns, play jiffiesPerSecond duration jiffies start ticks turns = some look) ↔
    Due (jiffiesPerSecond * duration + jiffies) ticks look

variable {start target wait look : Nat} {ticks : Nat → Nat}

theorem waitLoop_some {turns first : Nat} :
    waitLoop start ticks target turns first = some look ↔
      first ≤ look ∧ look < first + turns ∧ target ≤ counter start ticks look ∧
        ∀ earlier, first ≤ earlier → earlier < look → counter start ticks earlier < target := by
  induction turns generalizing first with
  | zero =>
      constructor
      · intro impossible
        cases impossible
      · intro ends
        omega
  | succ turns ih =>
      rw [waitLoop]
      by_cases before : counter start ticks first < target
      · rw [if_pos before, ih]
        constructor
        · intro ends
          obtain ⟨from', below, late, early⟩ := ends
          refine ⟨by omega, by omega, late, fun earlier after until' => ?_⟩
          rcases Nat.eq_or_lt_of_le after with same | later
          · rw [← same]
            exact before
          · exact early earlier later until'
        · intro ends
          obtain ⟨from', below, late, early⟩ := ends
          have other : first ≠ look := by
            intro same
            rw [same] at before
            omega
          exact ⟨by omega, by omega, late, fun earlier after => early earlier (by omega)⟩
      · rw [if_neg before]
        constructor
        · intro ends
          cases ends
          exact ⟨Nat.le_refl _, by omega, by omega, fun earlier after until' => by omega⟩
        · intro ends
          obtain ⟨from', below, late, early⟩ := ends
          rcases Nat.eq_or_lt_of_le from' with same | later
          · rw [same]
          · exact absurd (early first (Nat.le_refl _) later) before

/-- With enough turns the loop ends at the first look that shows the deadline. -/
theorem waitLoop_ends :
    (∃ turns, waitLoop start ticks target turns 0 = some look) ↔
      target ≤ counter start ticks look ∧
        ∀ earlier < look, counter start ticks earlier < target := by
  constructor
  · intro ends
    obtain ⟨turns, ended⟩ := ends
    obtain ⟨_, _, late, early⟩ := waitLoop_some.1 ended
    exact ⟨late, fun earlier => early earlier (Nat.zero_le _)⟩
  · intro ends
    exact ⟨look + 1, waitLoop_some.2
      ⟨Nat.zero_le _, by omega, ends.1, fun earlier _ => ends.2 earlier⟩⟩

/-- The first look at which the counter shows the deadline. -/
def EndsAt (start wait : Nat) (ticks : Nat → Nat) (look : Nat) : Prop :=
  (start + wait) % 2 ^ 32 ≤ counter start ticks look ∧
    ∀ earlier < look, counter start ticks earlier < (start + wait) % 2 ^ 32

theorem play_ends {jiffiesPerSecond duration jiffies : Nat}
    (small : jiffiesPerSecond * duration + jiffies < 2 ^ 32) :
    (∃ turns, play jiffiesPerSecond duration jiffies start ticks turns = some look) ↔
      EndsAt start (jiffiesPerSecond * duration + jiffies) ticks look := by
  have product : jiffiesPerSecond * duration % 2 ^ 32 = jiffiesPerSecond * duration :=
    Nat.mod_eq_of_lt (by omega)
  unfold play Pit.secondsToJiffies
  rw [product, Nat.add_assoc]
  exact waitLoop_ends

/-- Where as many ticks have passed, there is a first look that finds it so. -/
theorem exists_due (passed : wait ≤ ticks look) : ∃ first ≤ look, Due wait ticks first := by
  induction look using Nat.strongRecOn with
  | ind look ih =>
      by_cases early : ∀ earlier < look, ticks earlier < wait
      · exact ⟨look, Nat.le_refl _, passed, early⟩
      · rw [not_forall] at early
        obtain ⟨earlier, here⟩ := early
        rw [Classical.not_imp, Nat.not_lt] at here
        obtain ⟨first, before, due⟩ := ih earlier here.1 here.2
        exact ⟨first, by omega, due⟩

/-- The deadline does not wrap, or the counter has wrapped before the loop first looks at it. -/
def OneSide (start wait : Nat) (ticks : Nat → Nat) : Prop :=
  start + wait < 2 ^ 32 ∨ 2 ^ 32 ≤ start + ticks 0

/-- On one side of the wrap the counter is below the deadline as long as it must be. -/
theorem counter_early (word : start < 2 ^ 32) (small : wait < 2 ^ 32) (passes : Monotone ticks)
    (side : OneSide start wait ticks) (early : ticks look < wait) :
    counter start ticks look < (start + wait) % 2 ^ 32 := by
  have begins : ticks 0 ≤ ticks look := passes (Nat.zero_le look)
  unfold counter
  rcases side with below | behind
  · rw [Nat.mod_eq_of_lt (by omega), Nat.mod_eq_of_lt below]
    omega
  · rw [Nat.mod_eq_sub_mod (by omega), Nat.mod_eq_of_lt (by omega),
      Nat.mod_eq_sub_mod (by omega), Nat.mod_eq_of_lt (by omega)]
    omega

/-- On two sides of it the loop ends at once. -/
theorem endsAt_once (word : start < 2 ^ 32) (small : wait < 2 ^ 32)
    (sides : ¬ OneSide start wait ticks) : EndsAt start wait ticks 0 ∧ ticks 0 < wait := by
  unfold OneSide at sides
  have wraps : (start + wait) % 2 ^ 32 = start + wait - 2 ^ 32 := by
    rw [Nat.mod_eq_sub_mod (by omega), Nat.mod_eq_of_lt (by omega)]
  have shown : start + wait - 2 ^ 32 ≤ counter start ticks 0 := by
    unfold counter
    rw [Nat.mod_eq_of_lt (by omega)]
    omega
  constructor
  · constructor
    · rw [wraps]
      exact shown
    · intro earlier before
      exact absurd before (Nat.not_lt_zero _)
  · omega

/-- A due look before the one that ends the loop would have ended it. -/
theorem EndsAt.due (ended : EndsAt start wait ticks look)
    (early : ∀ {look : Nat}, ticks look < wait →
      counter start ticks look < (start + wait) % 2 ^ 32)
    (shows : ∀ look, Due wait ticks look →
      (start + wait) % 2 ^ 32 ≤ counter start ticks look) : Due wait ticks look := by
  obtain ⟨late, before⟩ := ended
  have passed : wait ≤ ticks look := by
    by_contra less
    have seen := early (Nat.lt_of_not_le less)
    omega
  obtain ⟨first, upTo, due⟩ := exists_due passed
  rcases Nat.eq_or_lt_of_le upTo with same | earlier
  · rw [← same]
    exact due
  · have seen := before first earlier
    have shown := shows first due
    omega

/-- A loop that looks at every tick sees the counter at the deadline itself. -/
theorem Due.exact (due : Due wait ticks look) (first : ticks 0 = 0)
    (every : ∀ look, ticks (look + 1) ≤ ticks look + 1) : ticks look = wait := by
  have passed := due.1
  cases look with
  | zero => omega
  | succ look =>
      have before := due.2 look (Nat.lt_succ_self look)
      have next := every look
      omega

end AC97

open AC97

/-- `play` waits as long as it is asked to exactly when the deadline and all that the loop
sees up to it lie on one side of the wrap, and the first look behind the deadline does
not come so late that the counter is below it again.  Where the loop looks at every
tick, this is that the deadline does not wrap. -/
theorem play_waits {jiffiesPerSecond duration jiffies start : Nat} {ticks : Nat → Nat}
    (word : start < 2 ^ 32) (small : jiffiesPerSecond * duration + jiffies < 2 ^ 32)
    (passes : Monotone ticks) :
    (WaitsExactly jiffiesPerSecond duration jiffies start ticks ↔
      OneSide start (jiffiesPerSecond * duration + jiffies) ticks ∧
        ∀ look, Due (jiffiesPerSecond * duration + jiffies) ticks look →
          (start + (jiffiesPerSecond * duration + jiffies)) % 2 ^ 32 ≤ counter start ticks look) ∧
    (ticks 0 = 0 → (∀ look, ticks (look + 1) ≤ ticks look + 1) →
      (WaitsExactly jiffiesPerSecond duration jiffies start ticks ↔
        start + (jiffiesPerSecond * duration + jiffies) < 2 ^ 32)) := by
  have play_at (look : Nat) :
      (∃ turns, play jiffiesPerSecond duration jiffies start ticks turns = some look) ↔
        EndsAt start (jiffiesPerSecond * duration + jiffies) ticks look :=
    play_ends small
  unfold WaitsExactly
  simp only [play_at]
  generalize jiffiesPerSecond * duration + jiffies = wait at *
  have general : (∀ look, EndsAt start wait ticks look ↔ Due wait ticks look) ↔
      OneSide start wait ticks ∧ ∀ look, Due wait ticks look →
        (start + wait) % 2 ^ 32 ≤ counter start ticks look := by
    constructor
    · intro exact
      constructor
      · by_contra sides
        have atOnce := endsAt_once word small sides
        exact absurd ((exact 0).1 atOnce.1).1 (by omega)
      · intro look due
        exact ((exact look).2 due).1
    · intro holds look
      obtain ⟨side, shows⟩ := holds
      have early {look : Nat} (before : ticks look < wait) :=
        counter_early word small passes side before
      constructor
      · intro ended
        exact ended.due early shows
      · intro due
        exact ⟨shows look due, fun earlier before => early (due.2 earlier before)⟩
  refine ⟨general, fun first every => general.trans ?_⟩
  unfold OneSide
  constructor
  · intro holds
    rcases holds.1 with below | behind
    · exact below
    · omega
  · intro below
    refine ⟨.inl below, fun look due => ?_⟩
    unfold counter
    rw [due.exact first every]

theorem play_waits_sample : WaitsExactly 1000 2 5 7 id := by
  have exact := play_waits (by decide : 7 < 2 ^ 32) (by decide : 1000 * 2 + 5 < 2 ^ 32)
    (monotone_id : Monotone (id : Nat → Nat))
  exact (exact.2 rfl (fun look => Nat.le_refl _)).2 (by decide)

/-- Two ticks before the counter wraps, a wait of a second ends at once. -/
theorem play_before_wrap : ¬ WaitsExactly 1000 1 0 (2 ^ 32 - 2) id := by
  intro exact
  have ended : play 1000 1 0 (2 ^ 32 - 2) id 1 = some 0 := by decide
  have due := (exact 0).1 ⟨1, ended⟩
  exact absurd due.1 (by decide)

end AC97Kernel
