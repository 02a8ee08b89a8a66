/-
A part of the instruction set of the i386.

A routine is a text for the assembler: instructions and numeric labels, of which a jump
names the next one ahead or the last one back.  Memory is flat, with a byte at each of
2^32 addresses, and the lowest byte of a word comes first.  Control leaves a routine by
`call`, `ret`, `iret` and `int`; whoever is called comes back to the line behind.
-/

import AC97Kernel.Library.I386Memory

set_option autoImplicit false

namespace I386

inductive Register where
  | eax | ebx | ecx | edx | esi | edi | ebp | esp
  deriving DecidableEq

inductive ControlRegister where
  | cr0 | cr2 | cr3
  deriving DecidableEq

inductive Address where
  | absolute (address : Word)
  | based (displacement : Word) (base : Register)
  | indexed (base index : Register)

/-- What an instruction on words stores to, and what it loads from. -/
inductive Place where
  | reg (register : Register)
  | mem (address : Address)

inductive Operand where
  | imm (value : Word)
  | of (place : Place)

/-- The same for bytes; a register stands for its lowest byte. -/
inductive ByteOperand where
  | imm (value : Byte)
  | of (place : Place)

inductive Target where
  | ahead (label : Nat)
  | back (label : Nat)

inductive Instr where
  | mov (source : Operand) (target : Place)
  | movb (source : ByteOperand) (target : Place)
  | movFrom (source : ControlRegister) (target : Register)
  | movTo (source : Register) (target : ControlRegister)
  | add (value : Word) (target : Register)
  | or (value : Word) (target : Place)
  | xor (source target : Register)
  | push (source : Operand)
  | pop (target : Register)
  | pushf
  | popf
  | pusha
  | popa
  | cli
  | sti
  | jl (target : Target)
  | jmp (target : Target)
  | call (target : Operand)
  | ret
  | iret
  | int (vector : Nat)

inductive Line where
  | label (number : Nat)
  | instr (instr : Instr)

abbrev Text := List Line

/-! ### The machine -/

structure Machine where
  general : Register → Word
  control : ControlRegister → Word
  eflags : Word
  cs : BitVec 16
  ss : BitVec 16
  memory : Memory

/-- The bits of the flags register. -/
inductive Flag where
  | carry | parity | adjust | zero | sign | interrupt | overflow
  deriving DecidableEq

def Flag.bit : Flag → Nat
  | .carry => 0
  | .parity => 2
  | .adjust => 4
  | .zero => 6
  | .sign => 7
  | .interrupt => 9
  | .overflow => 11

def setFlag (flags : Word) (flag : Flag) (value : Bool) : Word :=
  if value then flags ||| 1#32 <<< flag.bit else flags &&& ~~~(1#32 <<< flag.bit)

namespace Machine

def flag (machine : Machine) (flag : Flag) : Bool := machine.eflags.getLsbD flag.bit

def set (machine : Machine) (register : Register) (value : Word) : Machine :=
  { machine with
    general := fun other => if other = register then value else machine.general other }

def setControl (machine : Machine) (register : ControlRegister) (value : Word) : Machine :=
  { machine with
    control := fun other => if other = register then value else machine.control other }

def address (machine : Machine) : Address → Word
  | .absolute address => address
  | .based displacement base => machine.general base + displacement
  | .indexed base index => machine.general base + machine.general index

def read (machine : Machine) : Place → Word
  | .reg register => machine.general register
  | .mem address => machine.memory.load (machine.address address)

def write (machine : Machine) (value : Word) : Place → Machine
  | .reg register => machine.set register value
  | .mem address =>
      { machine with memory := machine.memory.store (machine.address address) value }

def value (machine : Machine) : Operand → Word
  | .imm value => value
  | .of place => machine.read place

def byte (machine : Machine) : ByteOperand → Byte
  | .imm value => value
  | .of (.reg register) => (machine.general register).extractLsb' 0 8
  | .of (.mem address) => machine.memory (machine.address address)

def writeByte (machine : Machine) (byte : Byte) : Place → Machine
  | .reg register =>
      machine.set register ((machine.general register).extractLsb' 8 24 ++ byte)
  | .mem address =>
      { machine with memory := machine.memory.put (machine.address address) byte }

/-- The flags that the result of an operation sets, with its carries. -/
def status (machine : Machine) (result : Word) (carry adjust overflow : Bool) : Machine :=
  let parity := (List.range 8).countP (fun bit => result.getLsbD bit) % 2 = 0
  { machine with
    eflags := setFlag (setFlag (setFlag (setFlag (setFlag (setFlag machine.eflags .carry carry)
      .parity parity) .adjust adjust) .zero (result = 0)) .sign result.msb) .overflow overflow }

def add (machine : Machine) (value : Word) (target : Register) : Machine :=
  let old := machine.general target
  let result := old + value
  (machine.set target result).status result (BitVec.carry 32 old value false)
    (BitVec.carry 4 old value false) (old.msb = value.msb ∧ result.msb ≠ old.msb)

def push (machine : Machine) (value : Word) : Machine :=
  let top := machine.general .esp - 4
  { machine.set .esp top with memory := machine.memory.store top value }

/-- The word on top of the stack. -/
def top (machine : Machine) : Word := machine.memory.load (machine.general .esp)

/-- The stack without its highest words. -/
def discard (machine : Machine) (words : Nat) : Machine :=
  machine.set .esp (machine.general .esp + BitVec.ofNat 32 (4 * words))

def pusha (machine : Machine) : Machine :=
  [Register.eax, .ecx, .edx, .ebx, .esp, .ebp, .esi, .edi].foldl
    (fun pushed register => pushed.push (machine.general register)) machine

def pop (machine : Machine) (register : Register) : Machine :=
  (machine.discard 1).set register machine.top

/-- The word of `esp` is skipped. -/
def popa (machine : Machine) : Machine :=
  let low := ((machine.pop .edi).pop .esi).pop .ebp
  ((((low.discard 1).pop .ebx).pop .edx).pop .ecx).pop .eax

/-- The instructions that go on with the next one. -/
def exec (machine : Machine) : Instr → Option Machine
  | .mov source target => some (machine.write (machine.value source) target)
  | .movb source target => some (machine.writeByte (machine.byte source) target)
  | .movFrom source target => some (machine.set target (machine.control source))
  | .movTo source target => some (machine.setControl target (machine.general source))
  | .add value target => some (machine.add value target)
  | .or value target =>
      let result := machine.read target ||| value
      some ((machine.write result target).status result false false false)
  | .xor source target =>
      let result := machine.general target ^^^ machine.general source
      some ((machine.set target result).status result false false false)
  | .push source => some (machine.push (machine.value source))
  | .pop target => some (machine.pop target)
  | .pushf => some (machine.push machine.eflags)
  | .popf => some { machine.discard 1 with eflags := machine.top }
  | .pusha => some machine.pusha
  | .popa => some machine.popa
  | .cli => some { machine with eflags := setFlag machine.eflags .interrupt false }
  | .sti => some { machine with eflags := setFlag machine.eflags .interrupt true }
  | _ => none

/-- A lower number has more rights. -/
def level (selector : BitVec 16) : Nat := selector.toNat % 4

/-- `iret` comes back to the stack of an outer level, if it goes there. -/
def iret (machine : Machine) : Machine :=
  let popped := machine.discard 3
  let cs := ((machine.discard 1).top).setWidth 16
  let back := { popped with cs := cs, eflags := (machine.discard 2).top }
  if level machine.cs < level cs then
    { back.set .esp popped.top with ss := ((popped.discard 1).top).setWidth 16 }
  else back

end Machine

/-! ### Routines -/

def Line.isLabel (number : Nat) : Line → Bool
  | .label other => other == number
  | .instr _ => false

/-- The line of a label, seen from another line. -/
def Target.line (text : Text) (here : Nat) : Target → Option Nat
  | .ahead number => ((text.drop here).findIdx? (Line.isLabel number)).map (here + ·)
  | .back number =>
      ((text.take here).reverse.findIdx? (Line.isLabel number)).map (here - 1 - ·)

/-- Where a machine is: at a line of the routine, at an address elsewhere, or on its way
into the handler of a vector. -/
inductive Where where
  | line (number : Nat)
  | away (address : Word)
  | trap (vector : Nat)
  deriving DecidableEq

structure State where
  machine : Machine
  at_ : Where

section Routines

variable (text : Text) (place : Nat → Word)

/-- One line; `place` has the addresses of the lines. -/
def step : State → Option State
  | ⟨machine, .line number⟩ =>
      let next := Where.line (number + 1)
      match text[number]? with
      | none => none
      | some (.label _) => some ⟨machine, next⟩
      | some (.instr (.jl target)) =>
          if machine.flag .sign != machine.flag .overflow then
            (target.line text number).map fun line => ⟨machine, .line line⟩
          else some ⟨machine, next⟩
      | some (.instr (.jmp target)) =>
          (target.line text number).map fun line => ⟨machine, .line line⟩
      | some (.instr (.call target)) =>
          some ⟨machine.push (place (number + 1)), .away (machine.value target)⟩
      | some (.instr .ret) => some ⟨machine.discard 1, .away machine.top⟩
      | some (.instr .iret) => some ⟨machine.iret, .away machine.top⟩
      | some (.instr (.int vector)) => some ⟨machine, .trap vector⟩
      | some (.instr instr) => (machine.exec instr).map fun after => ⟨after, next⟩
  | _ => none

def run : Nat → State → Option State
  | 0, state => some state
  | lines + 1, state => (step text place state).bind (run lines)

def Reaches : State → State → Prop :=
  Relation.ReflTransGen fun state next => step text place state = some next

end Routines

/-! ### Flags -/

section Flags

variable (machine : Machine) (value : Word) (target : Register)

theorem getLsbD_setFlag (flags : Word) (flag other : Flag) (value : Bool) :
    (setFlag flags flag value).getLsbD other.bit =
      if other = flag then value else flags.getLsbD other.bit := by
  unfold setFlag
  cases value <;> cases flag <;> cases other <;> simp [Flag.bit]

theorem flag_add_sign :
    (machine.add value target).flag .sign = (machine.general target + value).msb := by
  unfold Machine.flag Machine.add Machine.status
  simp only [getLsbD_setFlag]
  rfl

theorem flag_add_overflow :
    (machine.add value target).flag .overflow =
      decide ((machine.general target).msb = value.msb ∧
        (machine.general target + value).msb ≠ (machine.general target).msb) := by
  unfold Machine.flag Machine.add Machine.status
  simp only [getLsbD_setFlag]
  rfl

/-- `jl` behind `add` looks at the exact sum of the two signed numbers. -/
theorem less_add :
    ((machine.add value target).flag .sign != (machine.add value target).flag .overflow) =
      decide ((machine.general target).toInt + value.toInt < 0) := by
  rw [flag_add_sign, flag_add_overflow]
  generalize machine.general target = old
  have sum := BitVec.toInt_add old value
  have oldUpper := old.toInt_lt
  have oldLower := old.le_toInt
  have upper := value.toInt_lt
  have lower := value.le_toInt
  rw [Int.bmod_def] at sum
  simp only [BitVec.msb_eq_toInt]
  generalize (old + value).toInt = total at *
  rw [Bool.eq_iff_iff, bne_iff_ne, ne_eq, decide_eq_true_iff, decide_eq_decide]
  by_cases negative : old.toInt < 0 <;> by_cases less : value.toInt < 0
  all_goals
    simp only [negative, less, decide_true, decide_false, decide_eq_true_iff, ne_eq, reduceCtorEq,
      decide_eq_false_iff_not, true_and, false_and, iff_false, not_not, iff_self,
      not_true_eq_false, false_iff]
    split at sum <;> omega

end Flags

/-! ### What an operation leaves -/

namespace Machine

section Fields

variable (machine : Machine) (register target other : Register) (word result : Word)
  (carry adjust overflow : Bool) (words : Nat)

@[simp] theorem general_set : (machine.set register word).general other =
    if other = register then word else machine.general other := rfl

@[simp] theorem general_add : (machine.add word target).general other =
    if other = target then machine.general target + word else machine.general other := rfl

@[simp] theorem memory_add : (machine.add word target).memory = machine.memory := rfl

@[simp] theorem general_push : (machine.push word).general other =
    if other = .esp then machine.general .esp - 4 else machine.general other := rfl

@[simp] theorem memory_push :
    (machine.push word).memory = machine.memory.store (machine.general .esp - 4) word := rfl

@[simp] theorem general_discard : (machine.discard words).general other =
    if other = .esp then machine.general .esp + BitVec.ofNat 32 (4 * words)
    else machine.general other := rfl

@[simp] theorem memory_discard : (machine.discard words).memory = machine.memory := rfl

end Fields

/-- All registers but these are as before, and so is whether interrupts are on. -/
structure Keeps (changed : List Register) (before after : Machine) : Prop where
  general : ∀ register, register ∉ changed → after.general register = before.general register
  control : after.control = before.control
  interrupt : after.flag .interrupt = before.flag .interrupt
  cs : after.cs = before.cs
  ss : after.ss = before.ss

variable {changed : List Register} {first middle last : Machine}

theorem Keeps.refl (changed : List Register) (machine : Machine) : Keeps changed machine machine :=
  ⟨fun _ _ => rfl, rfl, rfl, rfl, rfl⟩

theorem Keeps.trans (before : Keeps changed first middle) (after : Keeps changed middle last) :
    Keeps changed first last where
  general register kept := (after.general register kept).trans (before.general register kept)
  control := after.control.trans before.control
  interrupt := after.interrupt.trans before.interrupt
  cs := after.cs.trans before.cs
  ss := after.ss.trans before.ss

theorem Keeps.mono {fewer : List Register} (keeps : Keeps fewer first last)
    (more : ∀ register ∈ fewer, register ∈ changed) : Keeps changed first last where
  general register kept := keeps.general register fun among => kept (more register among)
  control := keeps.control
  interrupt := keeps.interrupt
  cs := keeps.cs
  ss := keeps.ss

/-- A register that has its value again is kept. -/
theorem Keeps.restored {register : Register} (keeps : Keeps (register :: changed) first last)
    (same : last.general register = first.general register) : Keeps changed first last where
  general other kept := by
    by_cases this : other = register
    · rw [this, same]
    · exact keeps.general other fun among => (List.mem_cons.mp among).elim this kept
  control := keeps.control
  interrupt := keeps.interrupt
  cs := keeps.cs
  ss := keeps.ss

section Operations

variable (machine : Machine) (register : Register) (word : Word) (words : Nat) (stored : Memory)
  (byte : Byte)

theorem Keeps.set (among : register ∈ changed) :
    Keeps changed machine (machine.set register word) where
  general other kept := if_neg fun same : other = register => kept (same ▸ among)
  control := rfl
  interrupt := rfl
  cs := rfl
  ss := rfl

theorem Keeps.discard (among : .esp ∈ changed) : Keeps changed machine (machine.discard words) :=
  .set machine .esp _ among

theorem Keeps.pop (stack : .esp ∈ changed) (among : register ∈ changed) :
    Keeps changed machine (machine.pop register) :=
  (Keeps.discard machine 1 stack).trans (.set _ register _ among)

theorem Keeps.memory : Keeps changed machine { machine with memory := stored } :=
  ⟨fun _ _ => rfl, rfl, rfl, rfl, rfl⟩

theorem Keeps.push (among : .esp ∈ changed) : Keeps changed machine (machine.push word) :=
  (Keeps.set machine .esp _ among).trans (.memory _ _)

theorem Keeps.add (among : register ∈ changed) :
    Keeps changed machine (machine.add word register) where
  general other kept := if_neg fun same : other = register => kept (same ▸ among)
  control := rfl
  interrupt := by
    unfold flag Machine.add status
    simp only [getLsbD_setFlag]
    rfl
  cs := rfl
  ss := rfl

theorem low_byte (high : BitVec 24) (low : Byte) : (high ++ low).extractLsb' 0 8 = low := by
  apply BitVec.eq_of_getLsbD_eq
  intro bit small
  rw [BitVec.getLsbD_extractLsb', Nat.zero_add, BitVec.getLsbD_append, decide_eq_true small,
    Bool.true_and, if_pos small]

theorem byte_writeByte :
    (machine.writeByte byte (.reg register)).byte (.of (.reg register)) = byte := by
  change ((if register = register then _ else _ : Word)).extractLsb' 0 8 = byte
  rw [if_pos rfl]
  exact low_byte _ byte

end Operations

end Machine

/-! ### Routines in steps -/

section Steps

variable {text : Text} {place : Nat → Word} {state next : State} {machine : Machine}
  {number line : Nat} {target : Target}

theorem Reaches.of_run (lines : Nat) (ran : run text place lines state = some next) :
    Reaches text place state next := by
  induction lines generalizing state with
  | zero =>
      cases ran
      exact .refl
  | succ lines ih =>
      obtain ⟨middle, stepped, rest⟩ := Option.bind_eq_some_iff.mp ran
      exact .head stepped (ih rest)

theorem Reaches.trans {last : State} (first : Reaches text place state next)
    (second : Reaches text place next last) : Reaches text place state last :=
  Relation.ReflTransGen.trans first second

/-- What is reached outside of the routine is the only place where it ends. -/
theorem Reaches.unique {ended other : Machine} {address second : Word}
    (first : Reaches text place state ⟨ended, .away address⟩)
    (last : Reaches text place state ⟨other, .away second⟩) :
    ended = other ∧ address = second := by
  have stays {machine : Machine} {address : Word} {next : State}
      (reached : Reaches text place ⟨machine, .away address⟩ next) :
      next = ⟨machine, .away address⟩ := by
    rcases Relation.ReflTransGen.cases_head reached with same | ⟨middle, stepped, _⟩
    · exact same.symm
    · cases stepped
  have one : Relator.RightUnique fun state next => step text place state = some next := by
    intro state next third stepped also
    rw [stepped] at also
    exact Option.some.inj also
  rcases Relation.ReflTransGen.total_of_right_unique one first last with reached | reached
  · cases stays reached
    exact ⟨rfl, rfl⟩
  · cases stays reached
    exact ⟨rfl, rfl⟩

theorem Reaches.jl_taken (fetched : text[number]? = some (.instr (.jl target)))
    (found : target.line text number = some line)
    (less : (machine.flag .sign != machine.flag .overflow) = true) :
    Reaches text place ⟨machine, .line number⟩ ⟨machine, .line line⟩ := by
  apply Relation.ReflTransGen.single
  unfold step
  simp only [fetched, less, if_true, found, Option.map_some]

theorem Reaches.jl_passed (fetched : text[number]? = some (.instr (.jl target)))
    (notLess : (machine.flag .sign != machine.flag .overflow) = false) :
    Reaches text place ⟨machine, .line number⟩ ⟨machine, .line (number + 1)⟩ := by
  apply Relation.ReflTransGen.single
  unfold step
  simp only [fetched, notLess, Bool.false_eq_true, if_false]

/-- How often a loop turns that counts a signed number down in front of its body. -/
def turns (count : Word) : Nat := count.toInt.toNat

theorem minus_one : (-1 : Word).toInt = -1 := rfl

theorem toInt_pred {count : Word} (positive : 0 < count.toInt) :
    (count - 1).toInt = count.toInt - 1 := by
  have upper := count.toInt_lt
  have one : (1 : Word).toInt = 1 := rfl
  rw [BitVec.toInt_sub, one, Int.bmod_def]
  omega

theorem turns_lt (count : Word) : turns count < 2 ^ 31 := by
  have upper := count.toInt_lt
  unfold turns
  omega

/-- In the body the counter is what is left behind this turn. -/
theorem turns_succ {count : Word} {left : Nat} (remaining : turns count = left + 1) :
    count + -1 = BitVec.ofNat 32 left := by
  have value := BitVec.toInt_eq_toNat_cond count
  unfold turns at remaining
  have fewer : left < 2 ^ 31 := by
    have upper := count.toInt_lt
    omega
  have last : count = BitVec.ofNat 32 left + 1 := by
    split at value <;> bv_omega
  rw [last, BitVec.add_assoc]
  exact BitVec.add_zero _

section Counting

variable {head last name : Nat} {register : Register} (holds : Nat → Machine → Prop)

/-- A loop that begins with `add $-1` and `jl`. -/
theorem Reaches.counted (labelled : text[head]? = some (.label name))
    (counts : text[head + 1]? = some (.instr (.add (-1) register)))
    (tests : text[head + 2]? = some (.instr (.jl target)))
    (found : target.line text (head + 2) = some last)
    (turn : ∀ left machine, holds (left + 1) machine →
      turns (machine.general register) = left + 1 →
      ∃ after, Reaches text place ⟨machine.add (-1) register, .line (head + 3)⟩
          ⟨after, .line head⟩ ∧
        after.general register = machine.general register - 1 ∧ holds left after)
    (machine : Machine) (initially : holds (turns (machine.general register)) machine) :
    ∃ after, Reaches text place ⟨machine, .line head⟩ ⟨after.add (-1) register, .line last⟩ ∧
      holds 0 after := by
  have enters (machine : Machine) : Reaches text place ⟨machine, .line head⟩
      ⟨machine.add (-1) register, .line (head + 2)⟩ := by
    apply Relation.ReflTransGen.head (b := ⟨machine, .line (head + 1)⟩)
    · unfold step
      simp only [labelled]
    · apply Relation.ReflTransGen.single
      unfold step
      simp only [counts]
      rfl
  have tested (machine : Machine) := less_add machine (-1) register
  simp only [minus_one] at tested
  induction remaining : turns (machine.general register) generalizing machine with
  | zero =>
      have less : (machine.general register).toInt + -1 < 0 := by
        unfold turns at remaining
        omega
      have jumps := tested machine
      rw [decide_eq_true less] at jumps
      rw [remaining] at initially
      exact ⟨machine, (enters machine).trans (.jl_taken tests found jumps), initially⟩
  | succ left ih =>
      have more : 0 < (machine.general register).toInt := by
        unfold turns at remaining
        omega
      have stays := tested machine
      rw [decide_eq_false (by omega)] at stays
      rw [remaining] at initially
      obtain ⟨after, turned, counted, held⟩ := turn left machine initially remaining
      have rest : turns (after.general register) = left := by
        rw [counted]
        unfold turns at *
        rw [toInt_pred more]
        omega
      obtain ⟨final, reached, finally_⟩ := ih after (rest ▸ held) rest
      exact ⟨final, (enters machine).trans ((Reaches.jl_passed tests stays).trans
        (turned.trans reached)), finally_⟩

end Counting

/-- What a caller is promised: control comes back to it, with the registers that a callee
saves, and with the return address taken off the stack. -/
structure Returns (text : Text) (place : Nat → Word) (before after : Machine) : Prop where
  reached : Reaches text place ⟨before, .line 0⟩ ⟨after, .away before.top⟩
  keeps : Machine.Keeps [.eax, .ecx, .edx, .esp] before after
  stack : after.general .esp = before.general .esp + 4

/-- A routine that ends with `ret`. -/
theorem Returns.of_ret {first last : Machine}
    (reached : Reaches text place ⟨first, .line 0⟩ ⟨last, .line number⟩)
    (fetched : text[number]? = some (.instr .ret)) (top : last.top = first.top)
    (keeps : Machine.Keeps [.eax, .ecx, .edx] first last) :
    Returns text place first (last.discard 1) where
  reached := by
    apply reached.trans
    apply Relation.ReflTransGen.single
    unfold step
    simp only [fetched, top]
  keeps := (keeps.mono (by decide)).trans (.discard last 1 (by decide))
  stack := congrArg (· + 4) (keeps.general .esp (by decide))

end Steps

end I386
