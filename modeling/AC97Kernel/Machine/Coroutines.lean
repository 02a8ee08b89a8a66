/-
Threads as coroutines.

Any number of cores run threads and switch between them with the routine of context.s.
A thread and the handler of a switch may do anything to memory but to what the other
threads have left: their save areas and the part of their stacks that is in use.  Cores
act in any order, also while a handler runs on the stack of the thread that is resumed.
-/

import AC97Kernel.Machine.Homes

set_option autoImplicit false

namespace AC97Kernel.Routines

open I386 Machine Function

/-- A core runs a thread, or the handler of a switch to it. -/
inductive Doing (Thread : Type) where
  | running (thread : Thread)
  | switching (thread : Thread) (suspension : Suspension) (called : Machine)

def Doing.thread {Thread : Type} : Doing Thread → Thread
  | .running thread => thread
  | .switching thread _ _ => thread

/-- The memory of the machines of the cores is that of the system. -/
structure System (Thread Core : Type) where
  memory : Memory
  cpu : Core → Machine
  doing : Core → Doing Thread
  suspended : Thread → Option Suspension

namespace System

variable {Thread Core : Type}

def machine (system : System Thread Core) (core : Core) : Machine :=
  { system.cpu core with memory := system.memory }

def Live (system : System Thread Core) (thread : Thread) : Prop :=
  (∃ suspension, system.suspended thread = some suspension) ∨
    ∃ core, (system.doing core).thread = thread

/-- What nobody but its thread may write. -/
inductive Frozen (system : System Thread Core) (home : Thread → Home) (byte : Word) : Prop where
  | area {thread : Thread} {suspension : Suspension}
      (waits : system.suspended thread = some suspension) (kept : (home thread).Keeps byte)
  | stack {thread : Thread} {suspension : Suspension}
      (waits : system.suspended thread = some suspension)
      (above : (home thread).stack.From (suspension.context.esp - 8) byte)
  | resumed {core : Core} {thread : Thread} {suspension : Suspension} {called : Machine}
      (switches : system.doing core = .switching thread suspension called)
      (above : (home thread).stack.From (suspension.context.esp - 8) byte)

/-- Every core runs a thread of its own. -/
structure Initial (home : Thread → Home) (system : System Thread Core) : Prop where
  running : ∀ core, ∃ thread, system.doing core = .running thread
  alone : ∀ first second, (system.doing first).thread = (system.doing second).thread →
    first = second
  nobody : ∀ thread, system.suspended thread = none
  proper : ∀ core, (home (system.doing core).thread).Proper
  apart : ∀ first second, first ≠ second →
    (home (system.doing first).thread).Apart (home (system.doing second).thread)

variable [DecidableEq Thread] [DecidableEq Core]

/-- The thread of a core has called the switch, and the handler of the switch is called. -/
def leaving (system : System Thread Core) (home : Home) (core : Core) (thread next : Thread)
    (suspension : Suspension) (called : Machine) : System Thread Core where
  memory := called.memory
  cpu := update system.cpu core called
  doing := update system.doing core (.switching next suspension called)
  suspended := update (update system.suspended next none) thread
    (some (home.suspend (system.machine core)))

/-- The switch has come back to the thread. -/
def arriving (system : System Thread Core) (core : Core) (thread : Thread) (arrived : Machine) :
    System Thread Core :=
  { system with
    memory := arrived.memory
    cpu := update system.cpu core arrived
    doing := update system.doing core (.running thread) }

/-- One core does something; `place` has the addresses of the lines of the switch. -/
inductive Step (home : Thread → Home) (place : Nat → Word) (system : System Thread Core) :
    System Thread Core → Prop where
  | work (core : Core) (after : Machine)
      (respects : ∀ byte, system.Frozen home byte → after.memory byte = system.memory byte) :
      Step home place system
        { system with memory := after.memory, cpu := update system.cpu core after }
  | create (thread : Thread) (suspension : Suspension) (fresh : ¬ system.Live thread)
      (proper : (home thread).Proper)
      (apart : ∀ other, system.Live other → (home thread).Apart (home other))
      (waiting : Waiting (home thread) suspension system.memory) :
      Step home place system
        { system with suspended := update system.suspended thread (some suspension) }
  | retire (thread : Thread) :
      Step home place system { system with suspended := update system.suspended thread none }
  | leave (core : Core) (thread next : Thread) (suspension : Suspension) (called : Machine)
      (handler : Word) (runs : system.doing core = .running thread)
      (waits : system.suspended next = some suspension)
      (mine : source (system.machine core) = (home thread).area)
      (theirs : target (system.machine core) = (home next).area)
      (room : (home thread).stack.Fits ((system.machine core).general .esp - 16) 36)
      (reached : Reaches contextSwitch place ⟨system.machine core, .line 0⟩
        ⟨called, .away handler⟩) :
      Step home place system (system.leaving (home thread) core thread next suspension called)
  | arrive (core : Core) (thread : Thread) (suspension : Suspension)
      (called arrived : Machine) (address : Word)
      (switches : system.doing core = .switching thread suspension called)
      (kept : Machine.Keeps [.eax, .ecx, .edx, .esp] called (system.machine core))
      (returned : (system.machine core).general .esp = called.general .esp + 4)
      (reached : Reaches contextSwitch place ⟨system.machine core, .line 27⟩
        ⟨arrived, .away address⟩) :
      Step home place system (system.arriving core thread arrived)

/-- A thread is on one core, or it waits, and then it has lost nothing. -/
structure Inv (home : Thread → Home) (system : System Thread Core) : Prop where
  proper : ∀ thread, system.Live thread → (home thread).Proper
  apart : ∀ first second, system.Live first → system.Live second → first ≠ second →
    (home first).Apart (home second)
  alone : ∀ first second, (system.doing first).thread = (system.doing second).thread →
    first = second
  elsewhere : ∀ core, system.suspended (system.doing core).thread = none
  waiting : ∀ thread suspension, system.suspended thread = some suspension →
    Waiting (home thread) suspension system.memory
  switching : ∀ core thread suspension called,
    system.doing core = .switching thread suspension called →
    Stacked (home thread) suspension system.memory ∧ Resumes suspension called

variable {home : Thread → Home} {place : Nat → Word} {system after : System Thread Core}

omit [DecidableEq Thread] [DecidableEq Core] in
theorem Initial.inv (initially : Initial home system) : Inv home system where
  proper thread live := by
    rcases live with ⟨suspension, waits⟩ | ⟨core, rfl⟩
    · cases (initially.nobody thread).symm.trans waits
    · exact initially.proper core
  apart first second live other different := by
    rcases live with ⟨suspension, waits⟩ | ⟨core, rfl⟩
    · cases (initially.nobody first).symm.trans waits
    · rcases other with ⟨suspension, waits⟩ | ⟨another, rfl⟩
      · cases (initially.nobody second).symm.trans waits
      · exact initially.apart core another fun same => different (same ▸ rfl)
  alone := initially.alone
  elsewhere core := initially.nobody _
  waiting thread suspension waits := by cases (initially.nobody thread).symm.trans waits
  switching core thread suspension called switches := by
    obtain ⟨running, runs⟩ := initially.running core
    cases runs.symm.trans switches

section Steps

variable (inv : Inv home system)

include inv

omit [DecidableEq Thread] [DecidableEq Core] in
theorem Inv.work {machine : Machine} {cpu : Core → Machine}
    (respects : ∀ byte, system.Frozen home byte → machine.memory byte = system.memory byte) :
    Inv home { system with memory := machine.memory, cpu := cpu } where
  proper := inv.proper
  apart := inv.apart
  alone := inv.alone
  elsewhere := inv.elsewhere
  waiting thread suspension waits :=
    (inv.waiting thread suspension waits).frame (inv.proper thread (.inl ⟨suspension, waits⟩)).2
      (fun byte kept => respects byte (.area waits kept))
      (fun byte above => respects byte (.stack waits above))
  switching core thread suspension called switches := by
    obtain ⟨stacked, resumes⟩ := inv.switching core thread suspension called switches
    have live : system.Live thread := .inr ⟨core, by rw [switches]; rfl⟩
    exact ⟨stacked.frame (inv.proper thread live).2
      fun byte above => respects byte (.resumed switches above), resumes⟩

omit [DecidableEq Core] in
theorem Inv.create {thread : Thread} {suspension : Suspension} (fresh : ¬ system.Live thread)
    (proper : (home thread).Proper)
    (apart : ∀ other, system.Live other → (home thread).Apart (home other))
    (waiting : Waiting (home thread) suspension system.memory) :
    Inv home { system with suspended := update system.suspended thread (some suspension) } := by
  have before {other : Thread} (among : Live
      { system with suspended := update system.suspended thread (some suspension) } other)
      (different : other ≠ thread) : system.Live other := by
    rcases among with ⟨found, waits⟩ | running
    · simp only [update_of_ne different] at waits
      exact .inl ⟨found, waits⟩
    · exact .inr running
  constructor
  case proper =>
    intro other among
    by_cases same : other = thread
    · exact same ▸ proper
    · exact inv.proper other (before among same)
  case apart =>
    intro first second one two different
    by_cases this : first = thread
    · rw [this] at different ⊢
      exact apart second (before two different.symm)
    · by_cases that : second = thread
      · rw [that]
        exact (apart first (before one this)).symm
      · exact inv.apart first second (before one this) (before two that) different
  case alone => exact inv.alone
  case elsewhere =>
    intro core
    simp only
    rw [update_of_ne fun same => fresh (.inr ⟨core, same⟩)]
    exact inv.elsewhere core
  case waiting =>
    intro other found waits
    simp only at waits
    by_cases same : other = thread
    · rw [same, update_self] at waits
      cases waits
      exact same ▸ waiting
    · rw [update_of_ne same] at waits
      exact inv.waiting other found waits
  case switching => exact inv.switching

omit [DecidableEq Core] in
theorem Inv.retire (thread : Thread) :
    Inv home { system with suspended := update system.suspended thread none } := by
  have still {other : Thread} {suspension : Suspension}
      (waits : update system.suspended thread none other = some suspension) :
      system.suspended other = some suspension := by
    by_cases same : other = thread
    · rw [same, update_self] at waits
      cases waits
    · rwa [update_of_ne same] at waits
  have live {other : Thread}
      (live : Live { system with suspended := update system.suspended thread none } other) :
      system.Live other :=
    live.imp (fun ⟨suspension, waits⟩ => ⟨suspension, still waits⟩) id
  constructor
  case proper => exact fun other among => inv.proper other (live among)
  case apart => exact fun first second one two => inv.apart first second (live one) (live two)
  case alone => exact inv.alone
  case elsewhere =>
    intro core
    cases found : update system.suspended thread none (system.doing core).thread with
    | none => exact found
    | some suspension => cases (inv.elsewhere core).symm.trans (still found)
  case waiting => exact fun other suspension waits => inv.waiting other suspension (still waits)
  case switching => exact inv.switching

theorem Inv.leave {core : Core} {thread next : Thread} {suspension : Suspension}
    {called : Machine} {handler : Word} (runs : system.doing core = .running thread)
    (waits : system.suspended next = some suspension)
    (mine : source (system.machine core) = (home thread).area)
    (theirs : target (system.machine core) = (home next).area)
    (room : (home thread).stack.Fits ((system.machine core).general .esp - 16) 36)
    (reached : Reaches contextSwitch place ⟨system.machine core, .line 0⟩
      ⟨called, .away handler⟩) :
    Inv home (system.leaving (home thread) core thread next suspension called) := by
  obtain ⟨rfl, _⟩ := reached.unique (switch_calls (system.machine core) place)
  have here : (system.doing core).thread = thread := by
    rw [runs]
    rfl
  have live : system.Live thread := .inr ⟨core, here⟩
  have nextLive : system.Live next := .inl ⟨suspension, waits⟩
  have different : thread ≠ next := by
    rintro rfl
    have nowhere := inv.elsewhere core
    rw [here, waits] at nowhere
    cases nowhere
  have switches : Switches (home thread) (home next) suspension (system.machine core) :=
    ⟨mine, theirs, room, inv.waiting next suspension waits, inv.proper thread live,
      inv.proper next nextLive, inv.apart thread next live nextLive different⟩
  -- every other thread is apart from the two
  have kept {other : Thread} (among : system.Live other) (one : other ≠ thread)
      (two : other ≠ next) {byte : Word}
      (own : (home other).saveArea.Contains byte ∨ (home other).stack.Contains byte) :
      (Routines.called (system.machine core) place).memory byte = system.memory byte :=
    switches.bystander (inv.apart other thread among live one)
      (inv.apart other next among nextLive two) own
  have waited {other : Thread} {found : Suspension} (one : other ≠ thread)
      (still : update (update system.suspended next none) thread
        (some ((home thread).suspend (system.machine core))) other = some found) :
      other ≠ next ∧ system.suspended other = some found := by
    rw [update_of_ne one] at still
    by_cases two : other = next
    · rw [two, update_self] at still
      cases still
    · rw [update_of_ne two] at still
      exact ⟨two, still⟩
  have alive {other : Thread} (among : (system.leaving (home thread) core thread next suspension
      (Routines.called (system.machine core) place)).Live other) : system.Live other := by
    rcases among with ⟨found, still⟩ | ⟨another, does⟩
    · by_cases one : other = thread
      · exact one ▸ live
      · exact .inl ⟨found, (waited one still).2⟩
    · unfold leaving at does
      by_cases same : another = core
      · simp only [same, update_self] at does
        exact does ▸ nextLive
      · simp only [update_of_ne same] at does
        exact .inr ⟨another, does⟩
  have elsewhere (another : Core) : (system.doing another).thread ≠ next := by
    intro same
    have nowhere := inv.elsewhere another
    rw [same, waits] at nowhere
    cases nowhere
  constructor
  case proper => exact fun other among => inv.proper other (alive among)
  case apart => exact fun first second one two => inv.apart first second (alive one) (alive two)
  case alone =>
    intro first second same
    unfold leaving at same
    simp only at same
    by_cases one : first = core
    · by_cases two : second = core
      · rw [one, two]
      · rw [one, update_self, update_of_ne two] at same
        exact absurd same.symm (elsewhere second)
    · by_cases two : second = core
      · rw [two, update_self, update_of_ne one] at same
        exact absurd same (elsewhere first)
      · rw [update_of_ne one, update_of_ne two] at same
        exact inv.alone first second same
  case elsewhere =>
    intro another
    unfold leaving
    by_cases same : another = core
    · simp only [same, update_self]
      change update (update system.suspended next none) thread _ next = none
      rw [update_of_ne different.symm, update_self]
    · have apart : (system.doing another).thread ≠ thread :=
        fun this => same (inv.alone another core (this.trans here.symm))
      simp only [update_of_ne same, update_of_ne apart, update_of_ne (elsewhere another)]
      exact inv.elsewhere another
  case waiting =>
    intro other found still
    by_cases one : other = thread
    · unfold leaving at still
      simp only [one, update_self, Option.some.injEq] at still
      rw [one, ← still]
      exact switches.leaves
    · obtain ⟨two, before⟩ := waited one still
      have among : system.Live other := .inl ⟨found, before⟩
      exact (inv.waiting other found before).frame (inv.proper other among).2
        (fun byte own => kept among one two (.inl own.1))
        (fun byte above => kept among one two (.inr above.1))
  case switching =>
    intro another other found machine does
    unfold leaving at does
    simp only at does
    by_cases same : another = core
    · rw [same, update_self] at does
      cases does
      exact switches.resumes
    · rw [update_of_ne same] at does
      obtain ⟨stacked, resumes⟩ := inv.switching another other found machine does
      have there : (system.doing another).thread = other := by
        rw [does]
        rfl
      have among : system.Live other := .inr ⟨another, there⟩
      have one : other ≠ thread :=
        fun this => same (inv.alone another core (there.trans (this.trans here.symm)))
      have two : other ≠ next := fun this => elsewhere another (there.trans this)
      exact ⟨stacked.frame (inv.proper other among).2
        fun byte above => kept among one two (.inr above.1), resumes⟩

omit [DecidableEq Thread] [DecidableEq Core] in
/-- A handler that keeps the registers of its caller comes back to the thread. -/
theorem Inv.resuming {core : Core} {thread : Thread} {suspension : Suspension}
    {called : Machine} (switches : system.doing core = .switching thread suspension called)
    (kept : Machine.Keeps [.eax, .ecx, .edx, .esp] called (system.machine core))
    (returned : (system.machine core).general .esp = called.general .esp + 4) :
    Resuming suspension.context (system.machine core) := by
  obtain ⟨stacked, resumes⟩ := inv.switching core thread suspension called switches
  constructor
  case ebx => exact (kept.general .ebx (by decide)).trans resumes.ebx
  case ebp => exact (kept.general .ebp (by decide)).trans resumes.ebp
  case esi => exact (kept.general .esi (by decide)).trans resumes.esi
  case edi => exact (kept.general .edi (by decide)).trans resumes.edi
  case cr2 => exact (congrFun kept.control .cr2).trans resumes.cr2
  case stack =>
    rw [returned, resumes.esp]
    bv_omega
  case eflags => exact stacked.eflags
  case eip => exact stacked.eip

omit [DecidableEq Thread] in
theorem Inv.arrive {core : Core} {thread : Thread} {suspension : Suspension}
    {called arrived : Machine} {address : Word}
    (switches : system.doing core = .switching thread suspension called)
    (kept : Machine.Keeps [.eax, .ecx, .edx, .esp] called (system.machine core))
    (returned : (system.machine core).general .esp = called.general .esp + 4)
    (reached : Reaches contextSwitch place ⟨system.machine core, .line 27⟩
      ⟨arrived, .away address⟩) :
    Inv home (system.arriving core thread arrived) := by
  obtain ⟨_, goes, _, same, _⟩ :=
    @Resuming.arrives _ place _ (inv.resuming switches kept returned)
  obtain ⟨rfl, _⟩ := reached.unique goes
  have memory : (system.arriving core thread arrived).memory = system.memory := same
  have threads (another : Core) : ((system.arriving core thread arrived).doing another).thread =
      (system.doing another).thread := by
    change (update system.doing core (.running thread) another).thread = _
    by_cases this : another = core
    · rw [this, update_self, switches]
      rfl
    · rw [update_of_ne this]
  have alive {other : Thread} (among : (system.arriving core thread arrived).Live other) :
      system.Live other :=
    among.imp id fun ⟨another, does⟩ => ⟨another, (threads another).symm.trans does⟩
  constructor
  case proper => exact fun other among => inv.proper other (alive among)
  case apart => exact fun first second one two => inv.apart first second (alive one) (alive two)
  case alone =>
    intro first second together
    rw [threads, threads] at together
    exact inv.alone first second together
  case elsewhere =>
    intro another
    rw [threads]
    exact inv.elsewhere another
  case waiting => exact memory ▸ inv.waiting
  case switching =>
    intro another other found machine does
    unfold arriving at does
    simp only at does
    by_cases this : another = core
    · rw [this, update_self] at does
      cases does
    · rw [update_of_ne this] at does
      exact memory ▸ inv.switching another other found machine does

theorem Inv.step (stepped : Step home place system after) : Inv home after := by
  cases stepped with
  | work core machine respects => exact inv.work respects
  | create thread suspension fresh proper apart waiting =>
      exact inv.create fresh proper apart waiting
  | retire thread => exact inv.retire thread
  | leave core thread next suspension called handler runs waits mine theirs room reached =>
      exact inv.leave runs waits mine theirs room reached
  | arrive core thread suspension called arrived address switches kept returned reached =>
      exact inv.arrive switches kept returned reached

end Steps

theorem Initial.run {first : System Thread Core} (initially : Initial home first)
    (runs : Relation.ReflTransGen (Step home place) first system) : Inv home system := by
  induction runs with
  | refl => exact initially.inv
  | tail _ stepped ih => exact ih.step stepped

/-- However the cores take turns, a thread that waits has lost nothing, no two cores run one
thread, and a thread goes on behind its own call with its registers, flags, directory and
stack as it left them. -/
theorem threads_resume {first : System Thread Core} (initially : Initial home first)
    (runs : Relation.ReflTransGen (Step home place) first system) :
    (∀ thread suspension, system.suspended thread = some suspension →
      Waiting (home thread) suspension system.memory) ∧
    (∀ one other, (system.doing one).thread = (system.doing other).thread → one = other) ∧
    ∀ core thread suspension called, system.doing core = .switching thread suspension called →
      Machine.Keeps [.eax, .ecx, .edx, .esp] called (system.machine core) →
      (system.machine core).general .esp = called.general .esp + 4 →
      ∃ arrived,
        Reaches contextSwitch place ⟨system.machine core, .line 27⟩
          ⟨arrived, .away suspension.context.eip⟩ ∧
        Context.ofMachine arrived suspension.context.eip = suspension.context ∧
        arrived.control .cr3 = suspension.directory ∧
        arrived.memory = system.memory ∧
        ∀ byte, (home thread).stack.From suspension.context.esp byte →
          arrived.memory byte = suspension.memory byte := by
  have inv := initially.run runs
  refine ⟨inv.waiting, inv.alone, ?_⟩
  intro core thread suspension called switches kept returned
  obtain ⟨stacked, resumes⟩ := inv.switching core thread suspension called switches
  obtain ⟨arrived, reached, context, memory, directory⟩ :=
    @Resuming.arrives _ place _ (inv.resuming switches kept returned)
  have cr3 : arrived.control .cr3 = suspension.directory :=
    directory.trans ((congrFun kept.control .cr3).trans resumes.cr3)
  have same (byte : Word) (above : (home thread).stack.From suspension.context.esp byte) :
      arrived.memory byte = suspension.memory byte := by
    rw [memory]
    exact stacked.same byte above
  exact ⟨arrived, reached, context, cr3, memory, same⟩

/-! A thread gives the core to a new one. -/

section Example

def exampleHome : Bool → Home
  | false => ⟨0x1000, 0x2000, STACK_BYTES⟩
  | true => ⟨0x5000, 0x6000, STACK_BYTES⟩

/-- The arguments of the switch are on the stack. -/
def exampleMemory : Memory :=
  tcbWithStack ((((Memory.store (fun _ => 0) 0x3f04 0x1000).store 0x3f08 0x5000).store 0x3f0c
    0x9000).store 0x3f10 0x3f20) 0x5000 0x6000 0x5000 0xa000 0x9100

def exampleMachine : Machine where
  general register := if register = .esp then 0x3f00 else 0x77
  control _ := 0xb000
  eflags := 0x202
  cs := 8
  ss := 16
  memory := exampleMemory

def examplePlace (line : Nat) : Word := 0xc000 + BitVec.ofNat 32 line

def exampleSuspension : Suspension :=
  ⟨Context.ofMemory exampleMemory 0x5000, 0xa000, exampleMemory⟩

/-- The handler returns at once. -/
def exampleBack : Machine := (called exampleMachine examplePlace).discard 1

def exampleFirst : System Bool Unit :=
  ⟨exampleMemory, fun _ => exampleMachine, fun _ => .running false, fun _ => none⟩

def exampleCreated : System Bool Unit :=
  { exampleFirst with suspended := update exampleFirst.suspended true (some exampleSuspension) }

def exampleLeft : System Bool Unit :=
  exampleCreated.leaving (exampleHome false) () false true exampleSuspension
    (called exampleMachine examplePlace)

def exampleHandled : System Bool Unit :=
  { exampleLeft with
    memory := exampleBack.memory
    cpu := update exampleLeft.cpu () exampleBack }

theorem exampleHome_proper (thread : Bool) : (exampleHome thread).Proper := by
  cases thread
  all_goals
    refine ⟨fun place area stack => ?_, by decide⟩
    unfold exampleHome Home.saveArea Range.Contains Beyond STACK_BYTES at *
    simp only at area stack
    bv_omega

theorem exampleHome_apart : (exampleHome true).Apart (exampleHome false) := by
  constructor
  all_goals
    intro place one other
    unfold exampleHome Range.Contains Beyond STACK_BYTES at *
    simp only [Home.saveArea] at one other
    bv_omega

theorem exampleFirst_initial : Initial exampleHome exampleFirst where
  running _ := ⟨false, rfl⟩
  alone _ _ _ := rfl
  nobody _ := rfl
  proper _ := exampleHome_proper false
  apart _ _ different := absurd rfl different

theorem exampleFirst_runs :
    Relation.ReflTransGen (Step exampleHome examplePlace) exampleFirst exampleHandled := by
  have created : Step exampleHome examplePlace exampleFirst exampleCreated := by
    apply Step.create true exampleSuspension
    · rintro (⟨_, waits⟩ | ⟨_, runs⟩)
      · cases waits
      · cases runs
    · exact exampleHome_proper true
    · rintro _ (⟨_, waits⟩ | ⟨_, rfl⟩)
      · cases waits
      · exact exampleHome_apart
    · exact (tcbWithStack_waiting (exampleHome_proper true)).1
  have left : Step exampleHome examplePlace exampleCreated exampleLeft := by
    apply Step.leave () false true exampleSuspension _ 0x9000 rfl rfl
    · decide
    · decide
    · unfold Range.Fits
      decide
    · exact switch_calls exampleMachine examplePlace
  exact .tail (.tail (.single created) left) (.work () exampleBack fun _ _ => rfl)

theorem new_thread_begins : ∃ arrived,
    Reaches contextSwitch examplePlace ⟨exampleHandled.machine (), .line 27⟩
      ⟨arrived, .away 0x9100⟩ ∧
    arrived.general .esp = 0x8000 ∧ arrived.flag .interrupt = true ∧
    arrived.control .cr3 = 0xa000 := by
  obtain ⟨arrived, reached, context, directory, _⟩ :=
    (threads_resume exampleFirst_initial exampleFirst_runs).2.2 () true exampleSuspension
      (called exampleMachine examplePlace) rfl (.discard _ 1 (by decide)) rfl
  have eip : exampleSuspension.context.eip = 0x9100 := by decide
  have esp : exampleSuspension.context.esp = 0x8000 := by decide
  have eflags : exampleSuspension.context.eflags = 0x200 := by decide
  rw [eip] at reached context
  refine ⟨arrived, reached, (congrArg Context.esp context).trans esp, ?_, directory⟩
  rw [flag, show arrived.eflags = 0x200 from (congrArg Context.eflags context).trans eflags]
  decide

end Example

end System

end AC97Kernel.Routines
