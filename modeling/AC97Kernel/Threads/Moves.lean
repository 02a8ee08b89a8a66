/-
Every effect of a step takes its threads from one place to another.
-/

import AC97Kernel.Threads.Places

set_option autoImplicit false

namespace AC97Kernel.Threads

open Function

variable {Core : Type} {threads after : Threads Core} {contents : QueueName → List Nat}
  {core other : Core} {t me : Nat} {handler : Handler} {option : BlockOption}

theorem located_congr (hands : after.hands = threads.hands)
    (active : after.activeThreads = threads.activeThreads) (isIdle : after.isIdle = threads.isIdle)
    (leaver : ∀ core, (after.phase core).leaver = (threads.phase core).leaver)
    (place : Place Core) (t : Nat) :
    after.Located contents place t ↔ threads.Located contents place t := by
  cases place with
  | held role holder => simp only [Located, hands]
  | active core => simp only [Located, active, isIdle]
  | leaving core => simp only [Located, leaver, isIdle]
  | queued name => rfl

theorem dead_rests {place : Place Core} (dead : place.Dead) : place.Rests := by
  cases place with
  | held role holder => trivial
  | active core => cases dead
  | leaving core => cases dead
  | queued name => trivial

/-- What a thread takes into its hands is nothing to those that do not run. -/
theorem Placed.dead_hands (placed : threads.Placed contents) (place : Place Core)
    (dead : place.Dead) (there : threads.Located contents place t) (core : Core)
    (hands : List Hold) : update threads.hands (threads.me core) hands t = [] := by
  have notMe : t ≠ threads.me core := placed.rests_not_active place (dead_rests dead) there core
  rw [update_of_ne notMe]
  exact placed.dead place t dead there

theorem Placed.caller_hands (placed : threads.Placed contents)
    (outside : threads.phase core = .outside) (hands : List Hold) (other : Core) (me : Nat)
    (caller : (threads.phase other).caller = some me) :
    update threads.hands (threads.me core) hands me = threads.hands me := by
  apply update_of_ne
  by_cases same : other = core
  · subst same
    rw [outside] at caller
    cases caller
  · exact placed.caller_apart same caller

theorem Placed.hands_once (placed : threads.Placed contents) (core : Core) {hands : List Hold}
    (once : hands.Nodup) (t : Nat) : (update threads.hands (threads.me core) hands t).Nodup := by
  by_cases same : t = threads.me core
  · rw [same, update_self]
    exact once
  · rw [update_of_ne same]
    exact placed.handsOnce t

theorem Placed.hands_live (placed : threads.Placed contents) (core : Core) {hands : List Hold}
    (t : Nat) (some_ : update threads.hands (threads.me core) hands t ≠ []) :
    threads.live t = true := by
  by_cases same : t = threads.me core
  · rw [same]
    exact placed.active_live core
  · rw [update_of_ne same] at some_
    exact placed.handsLive t some_

/-- The count and the lock of a semaphore are no place. -/
theorem setSem_placed (placed : threads.Placed contents) (sem : Nat) (semaphore : Semaphore) :
    (threads.setSem sem semaphore).Placed contents :=
  { placed with
    one := placed.one.congr (fun _ _ => Iff.rfl) fun _ => Iff.rfl
    consistent := fun core =>
      (placed.consistent core).congr rfl rfl (fun _ _ => rfl) (fun _ _ => rfl) fun _ _ => id }

theorem release_placed (placed : threads.Placed contents) (handler : Handler) :
    (threads.release handler).Placed contents := by
  cases handler with
  | down sem => exact setSem_placed placed sem _
  | yield => exact placed
  | stop => exact placed

/-- A thread takes the first of a queue into its hands. -/
theorem hold_first_placed (placed : threads.Placed contents)
    (outside : threads.phase core = .outside) {source : QueueName} {role : Role}
    (first : (threads.remove source).1 = some t) (reaps : role = .reaped → source = .zombies) :
    ((threads.remove source).2.hold core role t).Placed
      (update contents source (contents source).tail) := by
  have queued : t ∈ contents source := placed.first_mem first
  have before (place : Place Core) (item : Nat)
      (there : ((threads.remove source).2.hold core role t).Located
        (update contents source (contents source).tail) place item) :
      (place = .held role (threads.me core) ∧ item = t) ∨
        threads.Located contents place item := by
    cases place with
    | held kind holder =>
        rcases mem_push.1 there with ⟨sameRole, sameHolder, isFirst⟩ | member
        · exact .inl ⟨by rw [sameRole, sameHolder]; rfl, isFirst⟩
        · exact .inr member
    | queued name => exact .inr (mem_of_removed there)
    | _ => exact .inr there
  have fresh : ⟨role, t⟩ ∉ threads.hands (threads.me core) := by
    intro member
    cases placed.one.once t (.held role (threads.me core)) (.queued source) member queued
  exact
    { placed with
      holding := placed.remove_holding source
      one := by
        refine placed.one.move (.queued source) (.held role (threads.me core))
          queued (fun same => by cases same) (placed.mem_removed first) ?_ ?_ fun _ => Iff.rfl
        · intro item
          refine mem_push.trans (or_congr_left ?_)
          exact ⟨fun same => same.2.2, fun same => ⟨rfl, rfl, same⟩⟩
        · intro place item notQueued notHeld
          cases place with
          | held kind holder =>
              refine mem_push.trans (or_iff_right ?_)
              rintro ⟨sameRole, sameHolder, _⟩
              exact notHeld (by rw [sameRole, sameHolder]; rfl)
          | queued name =>
              have apart : name ≠ source := fun same => notQueued (same ▸ rfl)
              simp only [Located, update_of_ne apart]
          | _ => rfl
      handsOnce := placed.hands_once core (List.nodup_cons.2 ⟨fresh, placed.handsOnce _⟩)
      handsLive := placed.hands_live core
      consistent := fun other =>
        (placed.consistent other).congr rfl rfl (fun _ _ => rfl)
          (placed.caller_hands outside _ other) fun _ _ => id
      saved := fun place item rests there => by
        rcases before place item there with ⟨_, isFirst⟩ | there
        · rw [isFirst]
          exact placed.saved (.queued source) t trivial queued
        · exact placed.saved place item rests there
      dead := fun place item dead there => by
        rcases before place item there with ⟨held, isFirst⟩ | there
        · rw [isFirst]
          refine placed.dead_hands (.queued source) ?_ queued core _
          rw [held] at dead
          cases role with
          | reaped =>
              rw [reaps rfl]
              trivial
          | created => cases dead
          | woken => cases dead
        · exact placed.dead_hands place dead there core _ }

/-- What is in the hands of a thread is not idle. -/
theorem schedule_held (placed : threads.Placed contents) {role : Role} {rest : List Hold}
    (head : threads.hands (threads.me core) = ⟨role, t⟩ :: rest) :
    (threads.setHands (threads.me core) rest).schedule t =
      (threads.setHands (threads.me core) rest).add .ready t := by
  have here : threads.Located contents (.held role (threads.me core)) t := by
    simp only [Located, head, List.mem_cons_self]
  unfold schedule
  rw [if_neg]
  rw [Bool.not_eq_true]
  exact (placed.one.known _ t here).2

/-- A thread schedules what it has in its hands. -/
theorem scheduleHeld_placed (placed : threads.Placed contents)
    (outside : threads.phase core = .outside) {role : Role} {rest : List Hold}
    (head : threads.hands (threads.me core) = ⟨role, t⟩ :: rest) :
    ((threads.setHands (threads.me core) rest).schedule t).Placed
      (update contents .ready (contents .ready ++ [t])) := by
  have here : threads.Located contents (.held role (threads.me core)) t := by
    simp only [Located, head, List.mem_cons_self]
  have user := placed.one.known _ t here
  have fresh (name : QueueName) : t ∉ contents name := by
    intro member
    cases placed.one.once t (.queued name) (.held role (threads.me core)) member here
  have once := placed.handsOnce (threads.me core)
  rw [schedule_held placed head]
  have before (place : Place Core) (item : Nat)
      (there : ((threads.setHands (threads.me core) rest).add .ready t).Located
        (update contents .ready (contents .ready ++ [t])) place item) :
      (place = .queued .ready ∧ item = t) ∨ threads.Located contents place item := by
    cases place with
    | held kind holder => exact .inr ((mem_pop head once).1 there).1
    | queued name =>
        rcases mem_added.1 there with ⟨same, isT⟩ | member
        · exact .inl ⟨same ▸ rfl, isT⟩
        · exact .inr member
    | _ => exact .inr there
  exact
    { placed with
      holding := placed.add_holding (placed.real t user.1) fresh
      one := by
        refine placed.one.move _ (.queued .ready) here (fun same => by cases same) ?_ ?_ ?_
          fun _ => Iff.rfl
        · intro item
          refine (mem_pop head once).trans ?_
          rw [and_comm]
          refine and_congr_left fun _ => not_congr ?_
          exact ⟨fun same => same.2.2, fun same => ⟨rfl, rfl, same⟩⟩
        · intro item
          exact mem_added.trans (or_congr_left (and_iff_right rfl))
        · intro place item notHeld notQueued
          cases place with
          | held kind holder =>
              refine (mem_pop head once).trans (and_iff_left ?_)
              rintro ⟨sameRole, sameHolder, _⟩
              exact notHeld (by rw [sameRole, sameHolder])
          | queued name =>
              have apart : name ≠ .ready := fun same => notQueued (same ▸ rfl)
              simp only [Located, update_of_ne apart]
          | _ => rfl
      handsOnce := placed.hands_once core (List.nodup_cons.1 (head ▸ once)).2
      handsLive := placed.hands_live core
      consistent := fun other =>
        (placed.consistent other).congr rfl rfl (fun _ _ => rfl)
          (placed.caller_hands outside _ other) fun _ _ => id
      saved := fun place item rests there => by
        rcases before place item there with ⟨_, isT⟩ | there
        · rw [isT]
          exact placed.saved (.held role (threads.me core)) t trivial here
        · exact placed.saved place item rests there
      dead := fun place item dead there => by
        rcases before place item there with ⟨queue, _⟩ | there
        · rw [queue] at dead
          cases dead
        · exact placed.dead_hands place dead there core _ }

/-- A thread that is new is in the hands of its creator, and the others are where they were. -/
theorem create_located (placed : threads.Placed contents) (fresh : threads.live t = false)
    (place : Place Core) (item : Nat) :
    (threads.create core t).Located contents place item ↔
      (place = .held .created (threads.me core) ∧ item = t) ∨
        threads.Located contents place item := by
  have kept (isLive : threads.live item = true) :
      update threads.isIdle t false item = threads.isIdle item := by
    apply update_of_ne
    intro same
    cases fresh.symm.trans (same ▸ isLive)
  cases place with
  | held kind holder =>
      refine mem_push.trans (or_congr_left ?_)
      rw [Place.held.injEq]
      exact and_assoc.symm
  | active other =>
      rw [or_iff_right fun both => by cases both.1]
      refine and_congr_right fun same => ?_
      have isLive : threads.live item = true := same ▸ placed.active_live other
      exact (kept isLive).congr_left
  | leaving other =>
      rw [or_iff_right fun both => by cases both.1]
      refine and_congr_right fun leaver => ?_
      have caller := Phase.caller_of_leaver leaver
      exact (kept (placed.caller_live caller)).congr_left
  | queued name => exact (or_iff_right fun both => by cases both.1).symm

theorem create_placed (placed : threads.Placed contents) (outside : threads.phase core = .outside)
    (real : t ≠ 0) (fresh : threads.live t = false) : (threads.create core t).Placed contents := by
  have old {item : Nat} (isLive : threads.live item = true) : item ≠ t := by
    intro same
    cases fresh.symm.trans (same ▸ isLive)
  have kept {item : Nat} (isLive : threads.live item = true) :
      update threads.isIdle t false item = threads.isIdle item := update_of_ne (old isLive) _ _
  have located := @create_located Core threads contents core t placed fresh
  have unknown : ¬ threads.User t := fun user => old user.1 rfl
  exact
    { placed with
      one := by
        refine placed.one.arrive (.held .created (threads.me core)) unknown ?_ ?_ ?_
        · intro item
          rw [located, and_iff_right rfl]
        · intro place item apart
          rw [located, or_iff_right fun both => apart both.1]
        · intro item
          by_cases same : item = t
          · subst same
            simp [User, create, hold, setHands]
          · simp [User, create, hold, setHands, same]
      handsOnce := by
        refine placed.hands_once core (List.nodup_cons.2 ⟨?_, placed.handsOnce _⟩)
        intro member
        exact unknown (placed.one.known (.held .created (threads.me core)) t member)
      handsLive := by
        intro item some_
        have isLive := placed.hands_live core item some_
        exact (update_of_ne (old isLive) _ _).trans isLive
      real := by
        intro item isLive
        by_cases same : item = t
        · rw [same]
          exact real
        · exact placed.real item ((update_of_ne same _ _).symm.trans isLive)
      idleLive := fun other =>
        (update_of_ne (old (placed.idleLive other)) _ _).trans (placed.idleLive other)
      idleIs := fun other => (kept (placed.idleLive other)).trans (placed.idleIs other)
      activeIdle := fun other isIdle =>
        placed.activeIdle other ((kept (placed.active_live other)).symm.trans isIdle)
      consistent := fun other => by
        refine (placed.consistent other).congr rfl rfl ?_ (placed.caller_hands outside _ other) ?_
        · exact fun me caller => kept (placed.caller_live caller)
        · intro me caller before
          exact (update_of_ne (old (placed.caller_live caller)) _ _).trans before
      saved := fun place item rests there => by
        rcases (located place item).1 there with ⟨_, isNew⟩ | there
        · rw [isNew]
          exact update_self _ _ _
        · refine (update_of_ne ?_ _ _).trans (placed.saved place item rests there)
          exact old (placed.one.known place item there).1
      dead := fun place item dead there => by
        rcases (located place item).1 there with ⟨held, _⟩ | there
        · rw [held] at dead
          cases dead
        · exact placed.dead_hands place dead there core _ }

/-- What the reaper has in its hands ceases to be. -/
theorem delete_placed (placed : threads.Placed contents) (outside : threads.phase core = .outside)
    {rest : List Hold} (head : threads.hands (threads.me core) = ⟨.reaped, t⟩ :: rest) :
    Placed { threads.setHands (threads.me core) rest with live := update threads.live t false }
      contents := by
  have here : threads.Located contents (.held .reaped (threads.me core)) t := by
    simp only [Located, head, List.mem_cons_self]
  have user := placed.one.known _ t here
  have once := placed.handsOnce (threads.me core)
  have before (place : Place Core) (item : Nat)
      (there : Located
        { threads.setHands (threads.me core) rest with live := update threads.live t false }
        contents place item) : threads.Located contents place item := by
    cases place with
    | held kind holder => exact ((mem_pop head once).1 there).1
    | _ => exact there
  have gone : update threads.hands (threads.me core) rest t = [] :=
    placed.dead_hands (.held .reaped (threads.me core)) trivial here core rest
  exact
    { placed with
      one := by
        refine placed.one.retire here ?_ ?_ ?_
        · intro item
          refine (mem_pop head once).trans ?_
          rw [and_comm]
          refine and_congr_left fun _ => not_congr ?_
          exact ⟨fun same => same.2.2, fun same => ⟨rfl, rfl, same⟩⟩
        · intro place item notHeld
          cases place with
          | held kind holder =>
              refine (mem_pop head once).trans (and_iff_left ?_)
              rintro ⟨sameRole, sameHolder, _⟩
              exact notHeld (by rw [sameRole, sameHolder])
          | _ => rfl
        · intro item
          by_cases same : item = t
          · subst same
            simp [User]
          · simp [User, same, setHands]
      handsOnce := placed.hands_once core (List.nodup_cons.1 (head ▸ once)).2
      handsLive := by
        intro item some_
        have other : item ≠ t := fun same => some_ (same ▸ gone)
        exact (update_of_ne other _ _).trans (placed.hands_live core item some_)
      real := by
        intro item isLive
        by_cases same : item = t
        · rw [same]
          exact placed.real t user.1
        · exact placed.real item ((update_of_ne same _ _).symm.trans isLive)
      idleLive := by
        intro other
        refine (update_of_ne ?_ _ _).trans (placed.idleLive other)
        intro same
        cases user.2.symm.trans (same ▸ placed.idleIs other)
      consistent := fun other =>
        (placed.consistent other).congr rfl rfl (fun _ _ => rfl)
          (placed.caller_hands outside _ other) fun _ _ => id
      saved := fun place item rests there => placed.saved place item rests (before place item there)
      dead := fun place item dead there =>
        placed.dead_hands place dead (before place item there) core _ }

variable [DecidableEq Core]

theorem consistent_update {phase : Phase} (moved : after.phase = update threads.phase core phase)
    (here : after.Consistent core phase)
    (elsewhere : ∀ other, other ≠ core → after.Consistent other (threads.phase other))
    (other : Core) : after.Consistent other (after.phase other) := by
  rw [moved]
  by_cases same : other = core
  · subst same
    rw [update_self]
    exact here
  · rw [update_of_ne same]
    exact elsewhere other same

theorem leaver_update {phase : Phase} (same : phase.leaver = (threads.phase core).leaver)
    (other : Core) :
    (update threads.phase core phase other).leaver = (threads.phase other).leaver := by
  by_cases here : other = core
  · rw [here, update_self]
    exact same
  · rw [update_of_ne here]

/-- Entering `block` moves nobody. -/
theorem enter_placed (placed : threads.Placed contents) (outside : threads.phase core = .outside)
    (stops : handler = .stop → threads.hands (threads.me core) = []) :
    (threads.enter core option handler).Placed contents := by
  have located := @located_congr Core threads (threads.enter core option handler) contents
    rfl rfl rfl (leaver_update (by rw [outside]; rfl))
  exact
    { placed with
      one := placed.one.congr located fun _ => Iff.rfl
      consistent := consistent_update rfl ⟨rfl, stops⟩ fun other _ =>
        (placed.consistent other).congr rfl rfl (fun _ _ => rfl) (fun _ _ => rfl) fun _ _ => id
      saved := fun place t rests there => placed.saved place t rests ((located place t).1 there)
      dead := fun place t dead there => placed.dead place t dead ((located place t).1 there) }

/-- Coming out of `block` with no thread left behind. -/
theorem outside_placed (placed : threads.Placed contents)
    (noUser : ∀ me, (threads.phase core).leaver = some me → threads.isIdle me = true) :
    (threads.setPhase core .outside).Placed contents := by
  have located (place : Place Core) (t : Nat) :
      (threads.setPhase core .outside).Located contents place t ↔
        threads.Located contents place t := by
    cases place with
    | leaving other =>
        by_cases same : other = core
        · subst same
          simp only [Located, setPhase, update_self]
          constructor
          · rintro ⟨left, _⟩
            cases left
          · rintro ⟨left, user⟩
            rw [noUser t left] at user
            cases user
        · simp only [Located, setPhase, update_of_ne same]
    | _ => rfl
  exact
    { placed with
      one := placed.one.congr located fun _ => Iff.rfl
      consistent := consistent_update rfl trivial fun other _ =>
        (placed.consistent other).congr rfl rfl (fun _ _ => rfl) (fun _ _ => rfl) fun _ _ => id
      saved := fun place t rests there => placed.saved place t rests ((located place t).1 there)
      dead := fun place t dead there => placed.dead place t dead ((located place t).1 there) }

/-- The caller of `block` has left, and nobody has come yet. -/
theorem activate_idle_one (placed : threads.Placed contents)
    (phase : threads.phase core = .entered option handler me) :
    OnePlace
      ((threads.activate core handler me (threads.idleThreads core)).Located contents)
      threads.User := by
  have consistent := placed.consistent core
  rw [phase] at consistent
  have others (place : Place Core) (item : Nat) (notActive : place ≠ .active core)
      (notLeaving : place ≠ .leaving core) :
      (threads.activate core handler me (threads.idleThreads core)).Located contents place item ↔
        threads.Located contents place item := by
    cases place with
    | active other =>
        have apart : other ≠ core := fun same => notActive (same ▸ rfl)
        simp only [Located, activate, update_of_ne apart]
    | leaving other =>
        have apart : other ≠ core := fun same => notLeaving (same ▸ rfl)
        simp only [Located, activate, update_of_ne apart]
    | _ => rfl
  have nobody (item : Nat) :
      ¬ (threads.activate core handler me (threads.idleThreads core)).Located contents
        (.active core) item := by
    simp only [Located, activate, update_self]
    rintro ⟨same, user⟩
    rw [← same, placed.idleIs] at user
    cases user
  have left (item : Nat) :
      (threads.activate core handler me (threads.idleThreads core)).Located contents
        (.leaving core) item ↔ item = me ∧ threads.isIdle item = false := by
    simp only [Located, activate, update_self, Phase.leaver, Option.some.injEq, eq_comm]
  have unleft (item : Nat) : ¬ threads.Located contents (.leaving core) item := by
    simp only [Located, phase, Phase.leaver]
    rintro ⟨none_, _⟩
    cases none_
  cases isIdle : threads.isIdle me with
  | true =>
      refine placed.one.congr ?_ fun _ => Iff.rfl
      intro place item
      by_cases active : place = .active core
      · subst active
        refine ⟨fun here => absurd here (nobody item), ?_⟩
        rintro ⟨same, user⟩
        rw [← same, ← consistent.1, isIdle] at user
        cases user
      · by_cases leaving : place = .leaving core
        · subst leaving
          refine ⟨fun here => ?_, fun here => absurd here (unleft item)⟩
          obtain ⟨same, user⟩ := (left item).1 here
          rw [same, isIdle] at user
          cases user
        · exact others place item active leaving
  | false =>
      have here : threads.Located contents (.active core) me := ⟨consistent.1.symm, isIdle⟩
      refine placed.one.move _ (.leaving core) here (fun same => by cases same) ?_ ?_ others
        fun _ => Iff.rfl
      · intro item
        refine ⟨fun active => absurd active (nobody item), ?_⟩
        rintro ⟨notMe, same, _⟩
        exact absurd (consistent.1.trans same).symm notMe
      · intro item
        rw [left, or_iff_left (unleft item)]
        refine ⟨And.left, fun same => ⟨same, ?_⟩⟩
        rw [same]
        exact isIdle

theorem activate_idle_placed (placed : threads.Placed contents)
    (phase : threads.phase core = .entered option handler me)
    (user : threads.isIdle me = false) :
    (threads.activate core handler me (threads.idleThreads core)).Placed contents := by
  have consistent := placed.consistent core
  rw [phase] at consistent
  have before (place : Place Core) (item : Nat) (rests : place.Rests)
      (there : (threads.activate core handler me (threads.idleThreads core)).Located contents
        place item) : threads.Located contents place item := by
    cases place with
    | active other => cases rests
    | leaving other => cases rests
    | _ => exact there
  exact
    { placed with
      one := activate_idle_one placed phase
      activeIdle := fun other isIdle => by
        by_cases same : other = core
        · rw [same]
          exact update_self _ _ _
        · simp only [activate, update_of_ne same] at isIdle ⊢
          exact placed.activeIdle other isIdle
      consistent := by
        refine consistent_update rfl ?_ fun other apart => ?_
        · refine { other := ?_, idle := ?_, stops := consistent.2 }
          · simp only [activate, update_self]
            intro same
            rw [same, placed.idleIs] at user
            cases user
          · intro isIdle
            cases user.symm.trans isIdle
        · exact (placed.consistent other).congr (update_of_ne apart _ _) rfl (fun _ _ => rfl)
            (fun _ _ => rfl) fun _ _ => id
      saved := fun place t rests there => placed.saved place t rests (before place t rests there)
      dead := fun place t dead there =>
        placed.dead place t dead (before place t (dead_rests dead) there) }

/-- The first of `readyQ` becomes active. -/
theorem activate_ready_placed (placed : threads.Placed contents)
    (phase : threads.phase core = .entered option handler me)
    (first : (threads.remove .ready).1 = some t) :
    ((threads.remove .ready).2.activate core handler me t).Placed
      (update contents .ready (contents .ready).tail) := by
  have consistent := placed.consistent core
  rw [phase] at consistent
  have queued : t ∈ contents .ready := placed.first_mem first
  have user := placed.one.known (.queued .ready) t queued
  have before (place : Place Core) (item : Nat) (rests : place.Rests)
      (there : ((threads.remove .ready).2.activate core handler me t).Located
        (update contents .ready (contents .ready).tail) place item) :
      threads.Located contents place item := by
    cases place with
    | active other => cases rests
    | leaving other => cases rests
    | held role holder => exact there
    | queued name => exact mem_of_removed there
  exact
    { placed with
      holding := placed.remove_holding .ready
      one := by
        refine (activate_idle_one placed phase).move (.queued .ready) (.active core) queued
          (fun same => by cases same) (placed.mem_removed first) ?_ ?_
          fun _ => Iff.rfl
        · intro item
          simp only [Located, activate, remove, update_self]
          constructor
          · exact fun here => .inl here.1.symm
          · rintro (same | ⟨same, notIdle⟩)
            · exact ⟨same.symm, same ▸ user.2⟩
            · rw [← same, placed.idleIs] at notIdle
              cases notIdle
        · intro place item notReady notActive
          cases place with
          | active other =>
              have apart : other ≠ core := fun same => notActive (same ▸ rfl)
              simp only [Located, activate, remove, update_of_ne apart]
          | queued name =>
              have apart : name ≠ .ready := fun same => notReady (same ▸ rfl)
              simp only [Located, update_of_ne apart]
          | _ => rfl
      activeIdle := fun other isIdle => by
        by_cases same : other = core
        · subst same
          simp only [activate, update_self] at isIdle
          cases user.2.symm.trans isIdle
        · simp only [activate, update_of_ne same] at isIdle ⊢
          exact placed.activeIdle other isIdle
      consistent := by
        refine consistent_update rfl ?_ fun other apart => ?_
        · refine { other := ?_, idle := ?_, stops := consistent.2 }
          · simp only [activate, update_self]
            intro same
            exact placed.rests_not_active (.queued .ready) trivial queued core
              (same.symm.trans consistent.1)
          · intro isIdle
            exact consistent.1.trans (placed.activeIdle core (consistent.1 ▸ isIdle))
        · exact (placed.consistent other).congr (update_of_ne apart _ _) rfl (fun _ _ => rfl)
            (fun _ _ => rfl) fun _ _ => id
      saved := fun place t rests there => placed.saved place t rests (before place t rests there)
      dead := fun place t dead there =>
        placed.dead place t dead (before place t (dead_rests dead) there) }

/-- The registers of the old thread are saved, and those of the new one are in use. -/
theorem contextSwitch_placed (placed : threads.Placed contents)
    (phase : threads.phase core = .switching handler me) :
    (threads.contextSwitch core handler me).Placed contents := by
  have consistent := placed.consistent core
  rw [phase] at consistent
  have located := @located_congr Core threads (threads.contextSwitch core handler me) contents
    rfl rfl rfl (leaver_update (by rw [phase]; rfl))
  have saved {t : Nat} (before : threads.saved t = true)
      (notActive : t ≠ threads.activeThreads core) :
      (threads.contextSwitch core handler me).saved t = true := by
    simp only [contextSwitch]
    rw [update_of_ne notActive]
    by_cases same : t = me
    · rw [same, update_self]
    · rw [update_of_ne same]
      exact before
  exact
    { placed with
      one := placed.one.congr located fun _ => Iff.rfl
      consistent := by
        refine consistent_update rfl ⟨⟨consistent.other, consistent.idle, consistent.stops⟩, ?_⟩
          fun other apart => ?_
        · simp only [contextSwitch]
          rw [update_of_ne consistent.other, update_self]
        · refine (placed.consistent other).congr rfl rfl (fun _ _ => rfl) (fun _ _ => rfl) ?_
          intro who caller before
          exact saved before (placed.caller_apart apart caller)
      saved := fun place t rests there =>
        saved (placed.saved place t rests ((located place t).1 there))
          (placed.rests_not_active place rests ((located place t).1 there) core)
      dead := fun place t dead there => placed.dead place t dead ((located place t).1 there) }

/-- The handler puts the old thread into a queue. -/
theorem add_leaver_placed (placed : threads.Placed contents)
    (phase : threads.phase core = .handling handler me) (user : threads.isIdle me = false) :
    ((threads.add handler.target me).setPhase core .outside).Placed
      (update contents handler.target (contents handler.target ++ [me])) := by
  have consistent := placed.consistent core
  rw [phase] at consistent
  have here : threads.Located contents (.leaving core) me := by
    refine ⟨?_, user⟩
    rw [phase]
    rfl
  have fresh (name : QueueName) : me ∉ contents name := by
    intro member
    cases placed.one.once me (.queued name) (.leaving core) member here
  have before (place : Place Core) (item : Nat) (rests : place.Rests)
      (there : ((threads.add handler.target me).setPhase core .outside).Located
        (update contents handler.target (contents handler.target ++ [me])) place item) :
      (place = .queued handler.target ∧ item = me) ∨ threads.Located contents place item := by
    cases place with
    | active other => cases rests
    | leaving other => cases rests
    | held role holder => exact .inr there
    | queued name =>
        rcases mem_added.1 there with ⟨same, isMe⟩ | member
        · exact .inl ⟨same ▸ rfl, isMe⟩
        · exact .inr member
  exact
    { placed with
      holding := placed.add_holding (placed.real me (placed.one.known _ me here).1) fresh
      one := by
        refine placed.one.move _ (.queued handler.target) here
          (fun same => by cases same) ?_ ?_ ?_ fun _ => Iff.rfl
        · intro item
          simp only [Located, setPhase, update_self, phase, Phase.leaver, Option.some.injEq]
          constructor
          · rintro ⟨none_, _⟩
            cases none_
          · rintro ⟨notMe, same, _⟩
            exact absurd same.symm notMe
        · intro item
          exact mem_added.trans (or_congr_left (and_iff_right rfl))
        · intro place item notLeaving notQueued
          cases place with
          | leaving other =>
              have apart : other ≠ core := fun same => notLeaving (same ▸ rfl)
              simp only [Located, setPhase, add, update_of_ne apart]
          | queued name =>
              have apart : name ≠ handler.target := fun same => notQueued (same ▸ rfl)
              simp only [Located, update_of_ne apart]
          | _ => rfl
      consistent := consistent_update rfl trivial fun other _ =>
        (placed.consistent other).congr rfl rfl (fun _ _ => rfl) (fun _ _ => rfl) fun _ _ => id
      saved := fun place item rests there => by
        rcases before place item rests there with ⟨_, isMe⟩ | there
        · rw [isMe]
          exact consistent.2
        · exact placed.saved place item rests there
      dead := fun place item dead there => by
        rcases before place item (dead_rests dead) there with ⟨queue, isMe⟩ | there
        · rw [isMe]
          apply consistent.1.stops
          rw [queue] at dead
          cases handler with
          | stop => rfl
          | yield => cases dead
          | down sem => cases dead
        · exact placed.dead place item dead there }

end AC97Kernel.Threads
