/-
The queues of the semaphores, and who is taken from them.

A thread is in the queue of a semaphore exactly when it waits for it, and nobody
waits while the count is above 0.  Whoever is taken from a queue is made runnable
by the one thread that took it.
-/

import AC97Kernel.Sync.Semaphores

set_option autoImplicit false

namespace AC97Kernel.Sync

open Function

variable {Thread Sem Data Point : Type}

/-- A thread waits where its program has a `down`, and takes another where it has an `up`. -/
def Stage.Lawful (program : Program Sem Data Point) : Stage Thread Sem Point → Prop
  | .waiting sem before after => program.code before = .down sem after
  | .waking _ after => ∃ sem before, program.code before = .up sem after
  | _ => True

structure Crew.Lined (program : Program Sem Data Point) (crew : Crew Thread Sem Data Point) :
    Prop where
  queued : ∀ thread sem, thread ∈ (crew.sems sem).waiting ↔
    (crew.stage thread).waitsFor = some sem
  once : ∀ sem, (crew.sems sem).waiting.Nodup
  closed : ∀ sem, 0 < (crew.sems sem).count → (crew.sems sem).waiting = []
  lawful : ∀ thread, (crew.stage thread).Lawful program

structure Handed (stages : Thread → Stage Thread Sem Point) : Prop where
  woken : ∀ thread, (stages thread).Woken ↔ ∃ waker, (stages waker).wakes = some thread
  oneWaker : ∀ one other thread, (stages one).wakes = some thread →
    (stages other).wakes = some thread → one = other

variable {program : Program Sem Data Point} {crew after : Crew Thread Sem Data Point}
  {stages later : Thread → Stage Thread Sem Point} {thread : Thread} {sem : Sem}
  {point next : Point}

theorem Crew.Lined.congr (lined : crew.Lined program)
    (waiting : ∀ sem, (after.sems sem).waiting = (crew.sems sem).waiting)
    (waitsFor : ∀ thread, (after.stage thread).waitsFor = (crew.stage thread).waitsFor)
    (lawful : ∀ thread, (after.stage thread).Lawful program)
    (closed : ∀ sem, 0 < (after.sems sem).count → (crew.sems sem).waiting = []) :
    after.Lined program where
  queued thread sem := by
    rw [waiting, waitsFor]
    exact lined.queued thread sem
  once sem := by
    rw [waiting]
    exact lined.once sem
  closed sem positive := by
    rw [waiting]
    exact closed sem positive
  lawful := lawful

theorem Handed.congr (handed : Handed stages)
    (woken : ∀ thread, (later thread).Woken ↔ (stages thread).Woken)
    (wakes : ∀ thread, (later thread).wakes = (stages thread).wakes) : Handed later where
  woken thread := by
    simp only [woken, wakes]
    exact handed.woken thread
  oneWaker one other thread first second := by
    rw [wakes] at first second
    exact handed.oneWaker one other thread first second

theorem Crew.Lined.not_queued (lined : crew.Lined program)
    (here : (crew.stage thread).waitsFor = none) (sem : Sem) :
    thread ∉ (crew.sems sem).waiting := by
  intro member
  have waits := (lined.queued thread sem).mp member
  rw [here] at waits
  cases waits

/-- The first of a queue waits for the semaphore. -/
theorem Crew.Lined.first_waits (lined : crew.Lined program) {other : Thread} {rest : List Thread}
    (first : (crew.sems sem).waiting = other :: rest) :
    ∃ before target, crew.stage other = .waiting sem before target ∧
      program.code before = .down sem target := by
  have waits : (crew.stage other).waitsFor = some sem :=
    (lined.queued other sem).mp (first ▸ List.mem_cons_self)
  have lawful := lined.lawful other
  cases stage : crew.stage other with
  | waiting name before target =>
      rw [stage] at waits lawful
      cases waits
      exact ⟨before, target, rfl, lawful⟩
  | running point =>
      rw [stage] at waits
      cases waits
  | woken after =>
      rw [stage] at waits
      cases waits
  | waking other after =>
      rw [stage] at waits
      cases waits

/-- Nobody takes a thread that is not taken. -/
theorem Handed.nobody (handed : Handed stages) (here : ¬ (stages thread).Woken) (waker : Thread) :
    (stages waker).wakes ≠ some thread := fun wakes =>
  here ((handed.woken thread).mpr ⟨waker, wakes⟩)

/-- One more thread is taken. -/
theorem Handed.add (handed : Handed stages) (thread other : Thread) (new : ¬ (stages other).Woken)
    (woken : ∀ u, (later u).Woken ↔ u = other ∨ (stages u).Woken)
    (wakes : ∀ w u, (later w).wakes = some u ↔
      (w = thread ∧ u = other) ∨ (stages w).wakes = some u) : Handed later where
  woken u := by
    simp only [woken, wakes]
    constructor
    · intro either
      rcases either with same | before
      · exact ⟨thread, .inl ⟨rfl, same⟩⟩
      · obtain ⟨waker, takes⟩ := (handed.woken u).mp before
        exact ⟨waker, .inr takes⟩
    · intro ⟨waker, either⟩
      exact either.imp And.right fun takes => (handed.woken u).mpr ⟨waker, takes⟩
  oneWaker one two u first second := by
    rcases (wakes one u).mp first with ⟨isThread, same⟩ | before
    · subst isThread same
      rcases (wakes two u).mp second with ⟨also, _⟩ | before
      · exact also.symm
      · exact absurd before (handed.nobody new two)
    · rcases (wakes two u).mp second with ⟨_, same⟩ | also
      · exact absurd (same ▸ before) (handed.nobody new one)
      · exact handed.oneWaker one two u before also

/-- A thread that was taken is made runnable. -/
theorem Handed.drop (handed : Handed stages) (other : Thread)
    (woken : ∀ u, (later u).Woken ↔ u ≠ other ∧ (stages u).Woken)
    (wakes : ∀ w u, (later w).wakes = some u ↔ u ≠ other ∧ (stages w).wakes = some u) :
    Handed later where
  woken u := by
    simp only [woken, wakes]
    rw [handed.woken u, exists_and_left]
  oneWaker one two u first second :=
    handed.oneWaker one two u ((wakes one u).mp first).2 ((wakes two u).mp second).2

/-- What is the same of the old and the new value of a key is the same of all keys. -/
theorem observe_update {Key Value Seen : Type} [DecidableEq Key] (observe : Value → Seen)
    {values : Key → Value} {key : Key} {value : Value}
    (same : observe value = observe (values key)) (other : Key) :
    observe (update values key value other) = observe (values other) := by
  by_cases here : other = key
  · rw [here, update_self, same]
  · rw [update_of_ne here]

section Update

variable [DecidableEq Thread]

theorem woken_update {stage : Stage Thread Sem Point}
    (same : stage.Woken ↔ (stages thread).Woken) (other : Thread) :
    (update stages thread stage other).Woken ↔ (stages other).Woken :=
  iff_of_eq (observe_update Stage.Woken (propext same) other)

theorem lawful_update {stage : Stage Thread Sem Point} (new : stage.Lawful program)
    (old : ∀ thread, (stages thread).Lawful program) (other : Thread) :
    (update stages thread stage other).Lawful program :=
  (forall_update_iff stages fun _ stage => stage.Lawful program).mpr
    ⟨new, fun other _ => old other⟩ other

/-- A thread that was running neither takes another one nor is taken. -/
theorem Handed.keep (handed : Handed stages) (here : stages thread = .running point)
    {stage : Stage Thread Sem Point} (notWoken : ¬ stage.Woken) (wakes : stage.wakes = none) :
    Handed (update stages thread stage) := by
  apply handed.congr
  · apply woken_update
    rw [here]
    exact iff_of_false notWoken id
  · apply observe_update Stage.wakes
    rw [here]
    exact wakes

/-- A thread takes another one that waited. -/
theorem Handed.wake (handed : Handed stages) {other : Thread} {before target : Point}
    (here : stages thread = .running point)
    (waits : stages other = .waiting sem before target) :
    Handed (update (update stages other (.woken target)) thread (.waking other next)) := by
  have apart : other ≠ thread := by
    intro same
    rw [same, here] at waits
    cases waits
  refine handed.add thread other (by rw [waits]; exact id) ?_ ?_
  · intro u
    by_cases isThread : u = thread
    · subst isThread
      rw [update_self, here]
      simp [Stage.Woken, Ne.symm apart]
    · rw [update_of_ne isThread]
      by_cases isOther : u = other
      · subst isOther
        rw [update_self]
        simp [Stage.Woken]
      · rw [update_of_ne isOther]
        simp [isOther]
  · intro w u
    by_cases isThread : w = thread
    · subst isThread
      rw [update_self, here]
      simp [Stage.wakes, eq_comm]
    · rw [update_of_ne isThread]
      by_cases isOther : w = other
      · subst isOther
        rw [update_self, waits]
        simp [Stage.wakes, isThread]
      · rw [update_of_ne isOther]
        simp [isThread]

/-- The thread that was taken goes on, and so does the one that took it. -/
theorem Handed.schedule (handed : Handed stages) {other : Thread} {target : Point}
    (here : stages thread = .waking other next) (woken : stages other = .woken target) :
    Handed (update (update stages other (.running target)) thread (.running next)) := by
  have takes : (stages thread).wakes = some other := congrArg Stage.wakes here
  have apart : other ≠ thread := by
    intro same
    rw [same, here] at woken
    cases woken
  refine handed.drop other ?_ ?_
  · intro u
    by_cases isThread : u = thread
    · subst isThread
      rw [update_self, here]
      simp [Stage.Woken]
    · rw [update_of_ne isThread]
      by_cases isOther : u = other
      · subst isOther
        rw [update_self]
        simp [Stage.Woken]
      · rw [update_of_ne isOther]
        simp [isOther]
  · intro w u
    by_cases isThread : w = thread
    · subst isThread
      rw [update_self, here]
      simp [Stage.wakes, eq_comm]
    · have notOther : (stages w).wakes = some u → u ≠ other := by
        intro also same
        exact isThread (handed.oneWaker w thread other (same ▸ also) takes)
      rw [update_of_ne isThread]
      by_cases isOther : w = other
      · subst isOther
        rw [update_self, woken]
        simp [Stage.wakes]
      · rw [update_of_ne isOther]
        exact ⟨fun also => ⟨notOther also, also⟩, And.right⟩

end Update

structure Crew.Orderly (program : Program Sem Data Point) (crew : Crew Thread Sem Data Point) :
    Prop where
  lined : crew.Lined program
  handed : Handed crew.stage

theorem start_orderly (program : Program Sem Data Point) (counts : Sem → Nat) (data : Data) :
    Crew.Orderly program (program.start counts data : Crew Thread Sem Data Point) where
  lined :=
    { queued := by
        intro thread sem
        exact iff_of_false List.not_mem_nil fun waits => by cases waits
      once := fun _ => List.nodup_nil
      closed := fun _ _ => rfl
      lawful := fun _ => trivial }
  handed :=
    { woken := by
        intro thread
        exact iff_of_false id fun ⟨_, wakes⟩ => by cases wakes
      oneWaker := by
        intro one other thread wakes
        cases wakes }

variable [DecidableEq Thread]

/-- A thread goes from point to point, and no queue changes. -/
theorem Crew.Orderly.go (orderly : crew.Orderly program)
    (here : crew.stage thread = .running point)
    (moved : after.stage = update crew.stage thread (.running next))
    (waiting : ∀ sem, (after.sems sem).waiting = (crew.sems sem).waiting)
    (closed : ∀ sem, 0 < (after.sems sem).count → (crew.sems sem).waiting = []) :
    after.Orderly program where
  lined := by
    apply orderly.lined.congr waiting
    · intro other
      rw [moved]
      exact observe_update Stage.waitsFor (by rw [here]; rfl) other
    · intro other
      rw [moved]
      apply lawful_update
      · exact trivial
      · exact orderly.lined.lawful
    · exact closed
  handed := by
    rw [moved]
    exact orderly.handed.keep here id rfl

/-- Making a thread runnable changes no queue. -/
theorem Crew.Lined.schedule (lined : crew.Lined program) {other : Thread} {target : Point}
    (here : crew.stage thread = .waking other next) (woken : crew.stage other = .woken target) :
    ((crew.setStage other (.running target)).setStage thread (.running next)).Lined program := by
  have first (u : Thread) : (update crew.stage other (.running target) u).waitsFor =
      (crew.stage u).waitsFor := observe_update Stage.waitsFor (by rw [woken]; rfl) u
  refine lined.congr (fun _ => rfl) ?_ ?_ lined.closed
  · intro u
    refine Eq.trans (observe_update Stage.waitsFor ?_ u) (first u)
    exact (congrArg Stage.waitsFor here).symm.trans (first thread).symm
  · intro u
    apply lawful_update
    · exact trivial
    · intro u
      apply lawful_update
      · exact trivial
      · exact lined.lawful

variable [DecidableEq Sem]

theorem Crew.Lined.block (lined : crew.Lined program) (here : crew.stage thread = .running point)
    (code : program.code point = .down sem next) (zero : (crew.sems sem).count = 0) :
    ((crew.setSem sem
      { crew.sems sem with waiting := (crew.sems sem).waiting ++ [thread] }).setStage thread
        (.waiting sem point next)).Lined program where
  queued other name := by
    simp only [setSem, setStage]
    by_cases isThread : other = thread
    · subst isThread
      rw [update_self]
      by_cases same : name = sem
      · subst same
        simp [Stage.waitsFor]
      · rw [update_of_ne same]
        exact iff_of_false (lined.not_queued (congrArg Stage.waitsFor here) name)
          fun waits => same (Option.some.inj waits).symm
    · rw [update_of_ne isThread, ← lined.queued other name]
      by_cases same : name = sem
      · subst same
        simp [isThread]
      · rw [update_of_ne same]
  once name := by
    simp only [setSem, setStage]
    by_cases same : name = sem
    · subst same
      rw [update_self]
      exact List.Nodup.append (lined.once name) (List.nodup_singleton thread)
        (List.disjoint_singleton.mpr
          (lined.not_queued (congrArg Stage.waitsFor here) name))
    · rw [update_of_ne same]
      exact lined.once name
  closed name positive := by
    simp only [setSem, setStage] at positive ⊢
    by_cases same : name = sem
    · subst same
      rw [update_self, zero] at positive
      cases positive
    · rw [update_of_ne same] at positive ⊢
      exact lined.closed name positive
  lawful other := by
    apply lawful_update
    · exact code
    · exact lined.lawful

theorem Crew.Lined.wake (lined : crew.Lined program) {other : Thread} {rest : List Thread}
    {before target : Point} (here : crew.stage thread = .running point)
    (code : program.code point = .up sem next)
    (first : (crew.sems sem).waiting = other :: rest)
    (waits : crew.stage other = .waiting sem before target) :
    (((crew.setSem sem { crew.sems sem with waiting := rest }).setStage other
      (.woken target)).setStage thread (.waking other next)).Lined program := by
  have once := lined.once sem
  rw [first] at once
  obtain ⟨notAgain, onceRest⟩ := List.nodup_cons.mp once
  have fewer (u : Thread) (name : Sem) :
      u ∈ (update crew.sems sem { crew.sems sem with waiting := rest } name).waiting ↔
        u ≠ other ∧ u ∈ (crew.sems name).waiting := by
    by_cases same : name = sem
    · subst same
      rw [update_self, first, List.mem_cons]
      constructor
      · intro member
        exact ⟨fun isOther => notAgain (isOther ▸ member), .inr member⟩
      · intro ⟨notOther, either⟩
        exact either.resolve_left notOther
    · rw [update_of_ne same]
      refine ⟨fun member => ⟨?_, member⟩, And.right⟩
      intro isOther
      have also := (lined.queued u name).mp member
      rw [isOther, waits] at also
      exact same (Option.some.inj also).symm
  constructor
  · intro u name
    simp only [setSem, setStage]
    rw [fewer, lined.queued]
    by_cases isThread : u = thread
    · subst isThread
      rw [update_self, here]
      simp [Stage.waitsFor]
    · rw [update_of_ne isThread]
      by_cases isOther : u = other
      · subst isOther
        rw [update_self]
        simp [Stage.waitsFor]
      · rw [update_of_ne isOther]
        exact and_iff_right isOther
  · intro name
    simp only [setSem, setStage]
    by_cases same : name = sem
    · subst same
      rw [update_self]
      exact onceRest
    · rw [update_of_ne same]
      exact lined.once name
  · intro name positive
    simp only [setSem, setStage] at positive ⊢
    by_cases same : name = sem
    · subst same
      rw [update_self] at positive ⊢
      have nobody := lined.closed name positive
      rw [first] at nobody
      cases nobody
    · rw [update_of_ne same] at positive ⊢
      exact lined.closed name positive
  · intro u
    apply lawful_update
    · exact ⟨sem, point, code⟩
    · intro u
      apply lawful_update
      · exact trivial
      · exact lined.lawful

/-- Every step keeps the queues in order. -/
theorem effect_orderly {action : Action Thread Point} (orderly : crew.Orderly program)
    (effect : Effect program crew action after) : after.Orderly program := by
  cases effect with
  | enter idle permitted =>
      exact orderly.go idle rfl (fun _ => rfl) orderly.lined.closed
  | access here code ran => exact orderly.go here rfl (fun _ => rfl) orderly.lined.closed
  | @pass thread sem point next here code positive =>
      apply orderly.go here rfl
      · exact observe_update Semaphore.waiting rfl
      · intro name some_
        by_cases same : name = sem
        · exact same ▸ orderly.lined.closed sem positive
        · apply orderly.lined.closed name
          rwa [← @update_of_ne _ _ _ _ _ same _ crew.sems]
  | @raise thread sem point next here code nobody =>
      apply orderly.go here rfl
      · exact observe_update Semaphore.waiting rfl
      · intro name some_
        by_cases same : name = sem
        · exact same ▸ nobody
        · apply orderly.lined.closed name
          rwa [← @update_of_ne _ _ _ _ _ same _ crew.sems]
  | @block thread sem point next here code zero =>
      exact ⟨orderly.lined.block here code zero, orderly.handed.keep here id rfl⟩
  | @wake thread other sem point next rest here code first =>
      obtain ⟨before, target, waits, _⟩ := orderly.lined.first_waits first
      rw [waits]
      exact ⟨orderly.lined.wake here code first waits, orderly.handed.wake here waits⟩
  | @schedule thread other next point here woken =>
      exact ⟨orderly.lined.schedule here woken, orderly.handed.schedule here woken⟩

end AC97Kernel.Sync
