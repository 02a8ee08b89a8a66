/-
Which thread works for which process, who is in whose slots, and whose status is stored.

A process makes one call at a time, so that the calls of one process do not meet, and a
slot holds what `fork` has put there until `wait` or `close` clears it.
-/

import AC97Kernel.Calls.Processes

set_option autoImplicit false

namespace AC97Kernel.Processes

open Function Sync

variable {File Thread : Type}

/-- The process that a thread works for. -/
def Point.pid : Point File → Option Pid
  | .idle => none
  | .call pid _ => some pid
  | .raising pid _ => some pid
  | .lowering pid _ => some pid
  | .getting pid _ _ _ => some pid
  | .delivering pid _ _ _ => some pid
  | .setting pid _ => some pid
  | .returning pid _ => some pid

def Point.mode : Point File → Mode
  | .setting _ _ => .stopping
  | _ => .kernel

/-- The slot and the child that `wait` has found. -/
def Point.child : Point File → Option (Nat × Pid)
  | .getting _ index child _ => some (index, child)
  | .delivering _ index child _ => some (index, child)
  | _ => none

/-- In `get` at the points of `get`, and in `set` at those of `set`. -/
def Point.Tidy : Point File → Prop
  | .getting _ _ _ .check => True
  | .getting _ _ _ .down => True
  | .getting _ _ _ .up => True
  | .getting _ _ _ .read => True
  | .getting _ _ _ _ => False
  | .setting _ .idle => False
  | .setting _ .check => False
  | .setting _ .down => False
  | .setting _ .up => False
  | .setting _ .read => False
  | _ => True

/-- The invariant of the processes and of the points of their threads. -/
structure Accounted (place : Thread → Point File) (processes : Processes File) : Prop where
  alone : ∀ one other pid, (place one).pid = some pid → (place other).pid = some pid → one = other
  mode : ∀ thread pid, (place thread).pid = some pid → processes.mode pid = (place thread).mode
  present : ∀ pid, processes.mode pid = .kernel → ∃ thread, (place thread).pid = some pid
  unmade : ∀ pid, processes.made ≤ pid → processes.mode pid = .unmade
  born : ∀ pid, pid < processes.made → processes.mode pid ≠ .unmade
  uncalled : ∀ pid, processes.mode pid ≠ .stopping → (processes.output pid).called = none
  stopping : ∀ pid, processes.mode pid = .stopping → (processes.output pid).called ≠ none
  slots : ∀ pid index child, (processes.handles pid).children index = some child →
    processes.forked child = some (pid, index)
  older : ∀ child pid index, processes.forked child = some (pid, index) →
    pid < child ∧ child < processes.made
  waits : ∀ thread pid index child, (place thread).pid = some pid →
    (place thread).child = some (index, child) →
      (processes.handles pid).children index = some child
  read : ∀ thread pid index child status, place thread = .delivering pid index child status →
    (processes.output child).called = some status
  tidy : ∀ thread, (place thread).Tidy
  delivered : ∀ delivery ∈ processes.delivered,
    processes.forked delivery.child = some (delivery.parent, delivery.index) ∧
      (processes.output delivery.child).called = some delivery.status ∧
        (processes.handles delivery.parent).children delivery.index ≠ some delivery.child
  once : (processes.delivered.map Delivery.child).Nodup

variable {place : Thread → Point File} {processes after : Processes File} {thread : Thread}
  {pid child : Pid} {next : Point File}

/-- Only what is made has a thread. -/
theorem Accounted.isMade (accounted : Accounted place processes)
    (made : processes.mode pid ≠ .unmade) : pid < processes.made := by
  by_contra outside
  exact made (accounted.unmade pid (Nat.le_of_not_lt outside))

theorem Accounted.works (accounted : Accounted place processes)
    (here : (place thread).pid = some pid) :
    processes.mode pid ≠ .unmade ∧ processes.mode pid ≠ .user := by
  rw [accounted.mode thread pid here]
  cases place thread <;> exact ⟨nofun, nofun⟩

theorem addChild_new {index : Nat} :
    ((processes.addChild pid index).handles processes.made).children = fun _ => none := by
  have new : (processes.addChild pid index).handles processes.made =
      { processes.handles pid with children := fun _ => none } := update_self _ _ _
  exact congrArg Handles.children new

theorem addChild_parent {index : Nat} (old : pid ≠ processes.made) :
    ((processes.addChild pid index).handles pid).children =
      update (processes.handles pid).children index (some processes.made) := by
  have mine : (processes.addChild pid index).handles pid =
      { processes.handles pid with
        children := update (processes.handles pid).children index (some processes.made) } :=
    (update_of_ne old _ _).trans (update_self _ _ _)
  exact congrArg Handles.children mine

theorem addChild_other {index : Nat} {owner : Pid} (old : owner ≠ processes.made)
    (apart : owner ≠ pid) :
    (processes.addChild pid index).handles owner = processes.handles owner :=
  (update_of_ne old _ _).trans (update_of_ne apart _ _)

theorem addChild_mode_new {index : Nat} :
    (processes.addChild pid index).mode processes.made = .user :=
  update_self _ _ _

theorem addChild_mode {index : Nat} {owner : Pid} (old : owner ≠ processes.made) :
    (processes.addChild pid index).mode owner = processes.mode owner :=
  update_of_ne old _ _

theorem addChild_forked_new {index : Nat} :
    (processes.addChild pid index).forked processes.made = some (pid, index) :=
  update_self _ _ _

theorem addChild_forked {index : Nat} {owner : Pid} (old : owner ≠ processes.made) :
    (processes.addChild pid index).forked owner = processes.forked owner :=
  update_of_ne old _ _

/-- A process that does not wait makes another. -/
theorem Accounted.addChild (accounted : Accounted place processes) {index : Nat}
    (here : (place thread).pid = some pid) (waitsNot : (place thread).child = none) :
    Accounted place (processes.addChild pid index) := by
  have parent : pid < processes.made := accounted.isMade (accounted.works here).1
  have works {one : Thread} {owner : Pid} (works : (place one).pid = some owner) :
      owner ≠ processes.made :=
    Nat.ne_of_lt (accounted.isMade (accounted.works works).1)
  have oldChild {child : Pid} {slot : Pid × Nat} (forked : processes.forked child = some slot) :
      child ≠ processes.made := Nat.ne_of_lt (accounted.older child slot.1 slot.2 forked).2
  constructor
  case alone => exact accounted.alone
  case mode =>
    intro one owner at_
    rw [addChild_mode (works at_)]
    exact accounted.mode one owner at_
  case present =>
    intro owner kernel
    apply accounted.present owner
    rwa [addChild_mode] at kernel
    intro new
    rw [new, addChild_mode_new] at kernel
    cases kernel
  case unmade =>
    intro owner outside
    change processes.made + 1 ≤ owner at outside
    rw [addChild_mode (Nat.ne_of_gt outside)]
    exact accounted.unmade owner (Nat.le_of_succ_le outside)
  case uncalled =>
    intro owner notStopping
    apply accounted.uncalled owner
    by_cases new : owner = processes.made
    · rw [accounted.unmade owner (Nat.le_of_eq new.symm)]
      exact nofun
    · rwa [addChild_mode new] at notStopping
  case born =>
    intro owner inside
    by_cases new : owner = processes.made
    · rw [new, addChild_mode_new]
      exact nofun
    · rw [addChild_mode new]
      exact accounted.born owner (Nat.lt_of_le_of_ne (Nat.le_of_lt_succ inside) new)
  case stopping =>
    intro owner stopping
    apply accounted.stopping owner
    by_cases new : owner = processes.made
    · rw [new, addChild_mode_new] at stopping
      cases stopping
    · rwa [addChild_mode new] at stopping
  case slots =>
    intro owner place child slot
    by_cases new : owner = processes.made
    · rw [new] at slot
      rw [addChild_new] at slot
      cases slot
    · by_cases mine : owner = pid
      · rw [mine, addChild_parent (Nat.ne_of_lt parent)] at slot
        by_cases same : place = index
        · rw [same, update_self] at slot
          cases slot
          rw [mine, same]
          exact addChild_forked_new
        · rw [update_of_ne same, ← mine] at slot
          have forked := accounted.slots owner place child slot
          rwa [addChild_forked (oldChild forked)]
      · rw [addChild_other new mine] at slot
        have forked := accounted.slots owner place child slot
        rwa [addChild_forked (oldChild forked)]
  case older =>
    intro child owner place forked
    change owner < child ∧ child < processes.made + 1
    by_cases new : child = processes.made
    · rw [new, addChild_forked_new] at forked
      rw [new]
      cases forked
      exact ⟨parent, Nat.lt_succ_self _⟩
    · rw [addChild_forked new] at forked
      exact (accounted.older child owner place forked).imp_right Nat.lt_succ_of_lt
  case waits =>
    intro one owner place child at_ found
    by_cases mine : owner = pid
    · have same : one = thread := accounted.alone one thread pid (mine ▸ at_) here
      rw [same, waitsNot] at found
      cases found
    · rw [addChild_other (works at_) mine]
      exact accounted.waits one owner place child at_ found
  case read => exact accounted.read
  case tidy => exact accounted.tidy
  case delivered =>
    intro delivery member
    obtain ⟨forked, called, gone⟩ := accounted.delivered delivery member
    have old := oldChild forked
    have parentOld : delivery.parent ≠ processes.made := by
      have older := accounted.older _ _ _ forked
      exact Nat.ne_of_lt (Nat.lt_trans older.1 older.2)
    refine ⟨(addChild_forked old).trans forked, called, ?_⟩
    by_cases mine : delivery.parent = pid
    · rw [mine, addChild_parent (Nat.ne_of_lt parent)]
      by_cases same : delivery.index = index
      · rw [same, update_self]
        exact fun slot => old (Option.some.inj slot).symm
      · rw [update_of_ne same, ← mine]
        exact gone
    · rw [addChild_other parentOld mine]
      exact gone
  case once => exact accounted.once

/-- A status that was never stored is. -/
theorem Accounted.record (accounted : Accounted place processes) {delivery : Delivery}
    (forked : processes.forked delivery.child = some (delivery.parent, delivery.index))
    (called : (processes.output delivery.child).called = some delivery.status)
    (gone : (processes.handles delivery.parent).children delivery.index ≠ some delivery.child)
    (new : delivery.child ∉ processes.delivered.map Delivery.child) :
    Accounted place { processes with delivered := processes.delivered ++ [delivery] } where
  alone := accounted.alone
  mode := accounted.mode
  present := accounted.present
  unmade := accounted.unmade
  born := accounted.born
  uncalled := accounted.uncalled
  stopping := accounted.stopping
  slots := accounted.slots
  older := accounted.older
  waits := accounted.waits
  read := accounted.read
  tidy := accounted.tidy
  delivered other member := by
    rcases List.mem_append.mp member with before | last
    · exact accounted.delivered other before
    · rw [List.mem_singleton.mp last]
      exact ⟨forked, called, gone⟩
  once := by
    rw [List.map_append, List.nodup_append]
    refine ⟨accounted.once, List.nodup_singleton _, ?_⟩
    intro one before other last same
    rw [List.map_singleton, List.mem_singleton] at last
    rw [same, last] at before
    exact new before

/-- A child that is in a slot has not had its status stored. -/
theorem Accounted.not_delivered (accounted : Accounted place processes) {index : Nat}
    (slot : (processes.handles pid).children index = some child) :
    child ∉ processes.delivered.map Delivery.child := by
  intro member
  obtain ⟨delivery, member, same⟩ := List.mem_map.mp member
  obtain ⟨forked, _, gone⟩ := accounted.delivered delivery member
  have isForked := accounted.slots pid index child slot
  rw [same, isForked] at forked
  obtain ⟨parent, place_⟩ := Prod.mk.inj (Option.some.inj forked)
  rw [same, ← parent, ← place_] at gone
  exact gone slot

section Steps

variable [DecidableEq Thread]

/-- Who works for whom after a step. -/
theorem Accounted.who (accounted : Accounted place processes)
    (here : (place thread).pid = some pid) (stays : next.pid = some pid ∨ next.pid = none)
    {one : Thread} {owner : Pid} (works : (update place thread next one).pid = some owner) :
    (one = thread ∧ owner = pid ∧ next.pid = some pid) ∨
      (one ≠ thread ∧ owner ≠ pid ∧ (place one).pid = some owner) := by
  by_cases same : one = thread
  · subst same
    rw [update_self] at works
    rcases stays with stays | idle
    · rw [stays] at works
      exact .inl ⟨rfl, (Option.some.inj works).symm, stays⟩
    · rw [idle] at works
      cases works
  · rw [update_of_ne same] at works
    refine .inr ⟨same, ?_, works⟩
    intro mine
    exact same (accounted.alone one thread pid (mine ▸ works) here)

/-- A step of the thread of `pid` that makes no process and stores no status. -/
theorem Accounted.go (accounted : Accounted place processes)
    (here : (place thread).pid = some pid) (stays : next.pid = some pid ∨ next.pid = none)
    (made : after.made = processes.made) (forked : after.forked = processes.forked)
    (delivered : after.delivered = processes.delivered)
    (others : ∀ other, other ≠ pid → after.mode other = processes.mode other)
    (mode : next.pid = some pid → after.mode pid = next.mode)
    (left : next.pid = none → after.mode pid = .user ∨ after.mode pid = .stopping)
    (apart : ∀ other, other ≠ pid → after.handles other = processes.handles other)
    (kept : ∀ index child, (after.handles pid).children index = some child →
      (processes.handles pid).children index = some child)
    (called : ∀ other status, (processes.output other).called = some status →
      (after.output other).called = some status)
    (uncalled : ∀ other, after.mode other ≠ .stopping → (after.output other).called = none)
    (stopping : after.mode pid = .stopping → (after.output pid).called ≠ none)
    (waits : ∀ index child, next.child = some (index, child) →
      (after.handles pid).children index = some child)
    (read : ∀ owner index child status, next = .delivering owner index child status →
      (after.output child).called = some status)
    (tidy : next.Tidy) : Accounted (update place thread next) after := by
  have keeps (owner : Pid) (index : Nat) (child : Pid)
      (slot : (after.handles owner).children index = some child) :
      (processes.handles owner).children index = some child := by
    by_cases mine : owner = pid
    · subst mine
      exact kept index child slot
    · rwa [apart owner mine] at slot
  constructor
  case alone =>
    intro one other owner first second
    rcases accounted.who here stays first with ⟨isThread, mine, _⟩ | ⟨_, theirs, before⟩
    · rcases accounted.who here stays second with ⟨also, _, _⟩ | ⟨_, theirs, _⟩
      · rw [isThread, also]
      · exact absurd mine theirs
    · rcases accounted.who here stays second with ⟨_, mine, _⟩ | ⟨_, _, also⟩
      · exact absurd mine theirs
      · exact accounted.alone one other owner before also
  case mode =>
    intro one owner works
    rcases accounted.who here stays works with ⟨isThread, mine, stays⟩ | ⟨other, theirs, before⟩
    · rw [isThread, mine, update_self]
      exact mode stays
    · rw [update_of_ne other, others owner theirs]
      exact accounted.mode one owner before
  case present =>
    intro owner kernel
    by_cases mine : owner = pid
    · subst mine
      rcases stays with stays | idle
      · exact ⟨thread, by rw [update_self]; exact stays⟩
      · rcases left idle with user | stops
        · exact absurd (user.symm.trans kernel) nofun
        · exact absurd (stops.symm.trans kernel) nofun
    · rw [others owner mine] at kernel
      obtain ⟨one, works⟩ := accounted.present owner kernel
      have other : one ≠ thread := by
        intro same
        rw [same, here] at works
        exact mine (Option.some.inj works).symm
      exact ⟨one, by rw [update_of_ne other]; exact works⟩
  case unmade =>
    intro owner outside
    rw [made] at outside
    have theirs : owner ≠ pid := by
      intro mine
      have inside := accounted.isMade (accounted.works here).1
      rw [mine] at outside
      exact absurd inside (Nat.not_lt_of_le outside)
    rw [others owner theirs]
    exact accounted.unmade owner outside
  case born =>
    intro owner inside
    rw [made] at inside
    by_cases mine : owner = pid
    · rw [mine]
      rcases stays with stays | idle
      · rw [mode stays]
        cases next <;> exact nofun
      · rcases left idle with user | stops
        · rw [user]
          exact nofun
        · rw [stops]
          exact nofun
    · rw [others owner mine]
      exact accounted.born owner inside
  case uncalled => exact uncalled
  case stopping =>
    intro owner stops
    by_cases mine : owner = pid
    · subst mine
      exact stopping stops
    · rw [others owner mine] at stops
      obtain ⟨status, before⟩ := Option.ne_none_iff_exists'.mp (accounted.stopping owner stops)
      rw [called owner status before]
      exact nofun
  case slots =>
    intro owner index child slot
    rw [forked]
    exact accounted.slots owner index child (keeps owner index child slot)
  case older =>
    rw [forked, made]
    exact accounted.older
  case waits =>
    intro one owner index child works found
    rcases accounted.who here stays works with ⟨isThread, mine, _⟩ | ⟨other, theirs, before⟩
    · rw [isThread, update_self] at found
      rw [mine]
      exact waits index child found
    · rw [update_of_ne other] at found
      rw [apart owner theirs]
      exact accounted.waits one owner index child before found
  case read =>
    intro one owner index child status at_
    by_cases same : one = thread
    · rw [same, update_self] at at_
      exact read owner index child status at_
    · rw [update_of_ne same] at at_
      exact called child status (accounted.read one owner index child status at_)
  case tidy =>
    intro one
    by_cases same : one = thread
    · rw [same, update_self]
      exact tidy
    · rw [update_of_ne same]
      exact accounted.tidy one
  case delivered =>
    intro delivery member
    rw [delivered] at member
    obtain ⟨isForked, isCalled, gone⟩ := accounted.delivered delivery member
    rw [forked]
    exact ⟨isForked, called _ _ isCalled, fun slot => gone (keeps _ _ _ slot)⟩
  case once =>
    rw [delivered]
    exact accounted.once

/-- A process in user mode calls. -/
theorem Accounted.enter (accounted : Accounted place processes) (idle : place thread = .idle)
    (user : processes.mode pid = .user) (call : Call File) :
    Accounted (update place thread (.call pid call)) (processes.setMode pid .kernel) := by
  have nobody (one : Thread) : (place one).pid ≠ some pid := fun works =>
    (accounted.works works).2 user
  have who (one : Thread) (owner : Pid)
      (works : (update place thread (.call pid call) one).pid = some owner) :
      (one = thread ∧ owner = pid) ∨
        (one ≠ thread ∧ owner ≠ pid ∧ (place one).pid = some owner) := by
    by_cases same : one = thread
    · rw [same, update_self] at works
      exact .inl ⟨same, (Option.some.inj works).symm⟩
    · rw [update_of_ne same] at works
      exact .inr ⟨same, fun mine => nobody one (mine ▸ works), works⟩
  have theirs {owner : Pid} (apart : owner ≠ pid) :
      (processes.setMode pid .kernel).mode owner = processes.mode owner := update_of_ne apart _ _
  have mine : (processes.setMode pid .kernel).mode pid = .kernel := update_self _ _ _
  constructor
  case alone =>
    intro one other owner first second
    rcases who one owner first with ⟨isThread, same⟩ | ⟨_, apart, before⟩
    · rcases who other owner second with ⟨also, _⟩ | ⟨_, apart, _⟩
      · rw [isThread, also]
      · exact absurd same apart
    · rcases who other owner second with ⟨_, same⟩ | ⟨_, _, also⟩
      · exact absurd same apart
      · exact accounted.alone one other owner before also
  case mode =>
    intro one owner works
    rcases who one owner works with ⟨isThread, same⟩ | ⟨other, apart, before⟩
    · rw [isThread, same, update_self]
      exact mine
    · rw [update_of_ne other, theirs apart]
      exact accounted.mode one owner before
  case present =>
    intro owner kernel
    by_cases same : owner = pid
    · exact ⟨thread, by rw [update_self, same]; rfl⟩
    · rw [theirs same] at kernel
      obtain ⟨one, works⟩ := accounted.present owner kernel
      have other : one ≠ thread := by
        intro isThread
        rw [isThread, idle] at works
        cases works
      exact ⟨one, by rw [update_of_ne other]; exact works⟩
  case unmade =>
    intro owner outside
    have apart : owner ≠ pid := by
      intro same
      have unmade := accounted.unmade owner outside
      rw [same, user] at unmade
      cases unmade
    rw [theirs apart]
    exact accounted.unmade owner outside
  case uncalled =>
    intro owner notStopping
    by_cases same : owner = pid
    · apply accounted.uncalled
      rw [same, user]
      exact nofun
    · rw [theirs same] at notStopping
      exact accounted.uncalled owner notStopping
  case born =>
    intro owner inside
    by_cases same : owner = pid
    · rw [same, mine]
      exact nofun
    · rw [theirs same]
      exact accounted.born owner inside
  case stopping =>
    intro owner stops
    by_cases same : owner = pid
    · rw [same, mine] at stops
      cases stops
    · rw [theirs same] at stops
      exact accounted.stopping owner stops
  case slots => exact accounted.slots
  case older => exact accounted.older
  case waits =>
    intro one owner index child works found
    rcases who one owner works with ⟨isThread, _⟩ | ⟨other, _, before⟩
    · rw [isThread, update_self] at found
      cases found
    · rw [update_of_ne other] at found
      exact accounted.waits one owner index child before found
  case read =>
    intro one owner index child status at_
    by_cases same : one = thread
    · rw [same, update_self] at at_
      cases at_
    · rw [update_of_ne same] at at_
      exact accounted.read one owner index child status at_
  case tidy =>
    intro one
    by_cases same : one = thread
    · rw [same, update_self]
      exact trivial
    · rw [update_of_ne same]
      exact accounted.tidy one
  case delivered => exact accounted.delivered
  case once => exact accounted.once

/-- A step that touches no more than what the outputs hold beside `called`. -/
theorem Accounted.touch (accounted : Accounted place processes)
    (here : (place thread).pid = some pid) (output : Pid → Future (BitVec 32))
    (same : ∀ child, (output child).called = (processes.output child).called)
    (stays : next.pid = some pid) (mode : next.mode = (place thread).mode)
    (waits : next.child = none ∨ next.child = (place thread).child)
    (read : ∀ owner index child status, next = .delivering owner index child status →
      (processes.output child).called = some status)
    (tidy : next.Tidy) : Accounted (update place thread next) { processes with output := output } := by
  apply accounted.go here (.inl stays)
  case made => rfl
  case forked => rfl
  case delivered => rfl
  case others => exact fun _ _ => rfl
  case mode => exact fun _ => (accounted.mode thread pid here).trans mode.symm
  case left =>
    intro idle
    rw [stays] at idle
    cases idle
  case apart => exact fun _ _ => rfl
  case kept => exact fun _ _ slot => slot
  case called =>
    intro other status called
    exact (same other).trans called
  case uncalled =>
    intro other notStopping
    exact (same other).trans (accounted.uncalled other notStopping)
  case stopping =>
    intro stops
    change (output pid).called ≠ none
    rw [same pid]
    exact accounted.stopping pid stops
  case waits =>
    intro index child found
    rcases waits with nothing | before
    · rw [nothing] at found
      cases found
    · exact accounted.waits thread pid index child here (before.symm.trans found)
  case read =>
    intro owner index child status at_
    exact (same child).trans (read owner index child status at_)
  case tidy => exact tidy

/-- A call up to its first semaphore or future. -/
theorem Accounted.perform (accounted : Accounted place processes) {call : Call File}
    (here : place thread = .call pid call) (performed : Performed processes pid after next) :
    Accounted (update place thread next) after := by
  have works : (place thread).pid = some pid := congrArg Point.pid here
  have kernel : processes.mode pid = .kernel := by
    rw [accounted.mode thread pid works, here]
    rfl
  have notStopping : processes.mode pid ≠ .stopping := by
    rw [kernel]
    exact nofun
  cases performed with
  | @plain handles next semaphores kept plain =>
      have stays : next.pid = some pid ∧ next.mode = .kernel ∧ next.child = none ∧ next.Tidy ∧
          ∀ owner index child status, next ≠ .delivering owner index child status := by
        cases next <;> cases plain <;> exact ⟨rfl, rfl, rfl, trivial, nofun⟩
      apply accounted.go works (.inl stays.1)
      case made => rfl
      case forked => rfl
      case delivered => rfl
      case others => exact fun _ _ => rfl
      case mode => exact fun _ => kernel.trans stays.2.1.symm
      case left =>
        intro idle
        rw [stays.1] at idle
        cases idle
      case apart => exact fun other theirs => update_of_ne theirs _ _
      case kept =>
        intro index child slot
        apply kept
        change (update processes.handles pid handles pid).children index = some child at slot
        rwa [update_self] at slot
      case called => exact fun _ _ called => called
      case uncalled => exact accounted.uncalled
      case stopping => exact accounted.stopping pid
      case waits =>
        intro index child found
        rw [stays.2.2.1] at found
        cases found
      case read =>
        intro owner index child status at_
        exact absurd at_ (stays.2.2.2.2 owner index child status)
      case tidy => exact stays.2.2.2.1
  | @waits index child slot =>
      apply accounted.go works (.inl rfl)
      case made => rfl
      case forked => rfl
      case delivered => rfl
      case others => exact fun _ _ => rfl
      case mode => exact fun _ => kernel
      case left => exact nofun
      case apart => exact fun _ _ => rfl
      case kept => exact fun _ _ slot => slot
      case called => exact fun _ _ called => called
      case uncalled => exact accounted.uncalled
      case stopping => exact accounted.stopping pid
      case waits =>
        intro other grandchild found
        cases found
        exact slot
      case read => exact nofun
      case tidy => exact trivial
  | @forks index result free =>
      have waitsNot : (place thread).child = none := congrArg Point.child here
      have more : Accounted place (processes.addChild pid index) :=
        accounted.addChild works waitsNot
      apply more.touch works (processes.addChild pid index).output (fun _ => rfl) rfl
      case mode =>
        rw [here]
        rfl
      case waits => exact .inl rfl
      case read => exact nofun
      case tidy => exact trivial
  | @exits nextId status =>
      apply accounted.go works (.inl rfl)
      case made => rfl
      case forked => rfl
      case delivered => rfl
      case others => exact fun other theirs => update_of_ne theirs _ _
      case mode => exact fun _ => update_self _ _ _
      case left => exact nofun
      case apart => exact fun _ _ => rfl
      case kept => exact fun _ _ slot => slot
      case called =>
        intro other before called
        have theirs : other ≠ pid := by
          intro mine
          rw [mine, accounted.uncalled pid notStopping] at called
          cases called
        rw [← called]
        exact congrArg Future.called (update_of_ne theirs _ _)
      case uncalled =>
        intro other runs
        by_cases mine : other = pid
        · rw [mine] at runs
          exact absurd (update_self _ _ _) runs
        · have before : processes.mode other ≠ .stopping := by
            intro stopping
            exact runs ((update_of_ne mine _ _).trans stopping)
          rw [← accounted.uncalled other before]
          exact congrArg Future.called (update_of_ne mine _ _)
      case stopping =>
        intro _
        have called : (({ processes with nextId := nextId }.exit pid status).1.output pid) =
            (processes.output pid).enter (.assertNotReady status) := update_self _ _ _
        rw [called]
        exact nofun
      case waits => exact nofun
      case read => exact nofun
      case tidy => exact trivial

end Steps

end AC97Kernel.Processes
