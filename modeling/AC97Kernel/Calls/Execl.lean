/-
The execl system call, as kernel/sys.cc and kernel/elf.cc carry it out.

The address space of the caller is what its addresses hold; a private page that
is given up reads as zeros when it is touched again.  `new` panics when the heap
has no block, and touching a page panics when there is no frame for it: `Room`
says which requests and which stores the machine has room for.  A store outside
the user's memory hits a kernel or a device that is not the modelled one, so that
nothing is said about what comes after it.
-/

import AC97Kernel.Calls.Elf
import AC97Kernel.Calls.Open
import AC97Kernel.Library.ByteRuns

set_option autoImplicit false

namespace AC97Kernel

open Slices LittleEndian Turns ByteRuns

/-- `heap` is given the sizes of all requests of a call in their order, `frames` the
stores of a call. -/
structure Room where
  heap : List Nat → Bool
  frames : List Access → Bool

structure UserState (Semaphore Future : Type) where
  memory : Nat → UInt8
  handles : Handles File Semaphore Future

/-- How the call ends. -/
inductive Ended (Semaphore Future : Type) where
  | entered (entry sp : Nat) (memory : Nat → UInt8)
  | returned (value : Int) (caller : UserState Semaphore Future)
  | stopped (stop : Stop)
  | overran

namespace SYS

/-- `Process::clear_private`. -/
def clearPrivate (config : Config) (memory : Nat → UInt8) (address : Nat) : UInt8 :=
  if UserByte config address then 0 else memory address

/-- The user stack while it is built. -/
structure Stack where
  sp : Nat
  stores : List Access

namespace Stack

def push (stack : Stack) (bytes : List UInt8) : Stack :=
  let sp := (stack.sp + 2 ^ 32 - bytes.length % 2 ^ 32) % 2 ^ 32
  { sp := sp, stores := stack.stores ++ storesAt sp bytes }

def pushWord (stack : Stack) (word : Nat) : Stack := stack.push (encode 4 word)

/-- The strings, the last one first, and where each of them lies. -/
def pushStrings (stack : Stack) : List (List UInt8) → Stack × List Nat
  | [] => (stack, [])
  | string :: rest =>
      let (stack, addresses) := stack.pushStrings rest
      let stack := stack.push (string ++ [0])
      (stack, stack.sp :: addresses)

def pushWords (stack : Stack) : List Nat → Stack
  | [] => stack
  | word :: rest => (stack.pushWords rest).pushWord word

/-- What `exec` stores below 0xefffe000.  The heap is smaller than 2 GB, so that the
total length of strings that have been copied is an `int`. -/
def build (argv : List (List UInt8)) : Stack :=
  let totalLen := (argv.map fun string => string.length + 1).sum
  let alignedLen := (totalLen + 4) / 4 * 4
  let offset := alignedLen - totalLen
  let (stack, addresses) := pushStrings { sp := 0xefffe000 - offset, stores := [] } argv
  let stack := (stack.pushWord 0).pushWords addresses
  let stack := stack.pushWord stack.sp
  stack.pushWord argv.length

end Stack

/-- The sizes that `exec` asks the heap for before it loads. -/
def requests (path : Path) (argv : List (List UInt8)) : List Nat :=
  [path.length + 1, 4 * argv.length] ++ argv.map (fun string => string.length + 1) ++
    [4 * argv.length]

def apply (memory : Nat → UInt8) (stores : List Access) : Nat → UInt8 :=
  stores.foldl (fun memory access =>
    match access with
    | .load _ => memory
    | .store address byte => Function.update memory address byte) memory

theorem apply_append (memory : Nat → UInt8) (first second : List Access) :
    apply memory (first ++ second) = apply (apply memory first) second := List.foldl_append

/-- A run of stores that ends below 2^32 puts its bytes into memory. -/
theorem apply_storesAt (memory : Nat → UInt8) {pointer : Nat} {bytes : List UInt8}
    (below : pointer + bytes.length ≤ 2 ^ 32) :
    apply memory (storesAt pointer bytes) = put memory pointer bytes := by
  induction bytes generalizing memory pointer with
  | nil => rfl
  | cons byte bytes ih =>
      rw [List.length_cons] at below
      have first : (pointer + 0) % 2 ^ 32 = pointer := Nat.mod_eq_of_lt (by omega)
      have rest : storesAt pointer (byte :: bytes) =
          .store pointer byte :: storesAt (pointer + 1) bytes := by
        unfold storesAt
        rw [List.mapIdx_cons, first]
        simp only [Nat.add_assoc, Nat.add_comm 1]
      rw [rest, put]
      exact ih (Function.update memory pointer byte) (by omega)

/-- All that is stored in the new address space. -/
def storesOf (config : Config) (node : Node) (argv : List (List UInt8)) : List Access :=
  (Stack.build argv).stores ++
    (ELF.load config (some node.io)).loaded.flatMap fun segment => segment.stores

section Handler

variable {Semaphore Future : Type}

/-- `exec` from the check of the header on. -/
def run (config : Config) (room : Room) (caller : UserState Semaphore Future) (path : Path)
    (argv : List (List UInt8)) (node : Node) : Ended Semaphore Future :=
  if ¬ room.heap (requests path argv) then .stopped .panicked
  else
    let stores := storesOf config node argv
    if ¬ ∀ access ∈ stores, UserByte config access.address then .overran
    else if ¬ room.frames stores then .stopped .panicked
    else
      match (ELF.load config (some node.io)).outcome with
      | .returned entry =>
          .entered entry.toNat (Stack.build argv).sp
            (apply (clearPrivate config caller.memory) stores)
      | .panicked => .stopped .panicked
      | .unfinished => .stopped .unfinished

/-- `exec` with a node that has been found. -/
def execNode (config : Config) (room : Room) (caller : UserState Semaphore Future) (path : Path)
    (argv : List (List UInt8)) (node : Node) : Ended Semaphore Future :=
  if ¬ node.isFile then .returned (-1) caller
  else
    match node.read 0 ELF.ElfHeader.size with
    | .error stop => .stopped stop
    | .ok bytes =>
        if ¬ (ELF.ElfHeader.ofBytes bytes).valid then .returned (-1) caller
        else run config room caller path argv node

def execFound (config : Config) (room : Room) (caller : UserState Semaphore Future) (path : Path)
    (argv : List (List UInt8)) : Except Stop (Option Node) → Ended Semaphore Future
  | .error stop => .stopped stop
  | .ok none => .returned (-1) caller
  | .ok (some node) => execNode config room caller path argv node

def exec (config : Config) (fs : FileSystem) (turns : Nat) (room : Room)
    (caller : UserState Semaphore Future) (path : Path) (argv : List (List UInt8)) :
    Ended Semaphore Future :=
  execFound config room caller path argv (fs.find turns fs.root path)

end Handler

end SYS

/-- What the handler makes of the words behind the path. -/
inductive Arguments where
  | collected (pointers : List Nat)
  | refused
  | tooMany
  deriving DecidableEq

namespace Arguments

/-- The loop of the handler, with the number of arguments that it may still take. -/
def collect (config : Config) (userEsp : Nat → Nat) : Nat → Nat → Arguments
  | 0, _ => .tooMany
  | left + 1, argc =>
      if userEsp (argc + 2) = 0 then .collected []
      else if refuses config (userEsp (argc + 2)) then .refused
      else
        match collect config userEsp left (argc + 1) with
        | .collected pointers => .collected (userEsp (argc + 2) :: pointers)
        | failed => failed

end Arguments

section Handler

variable {Semaphore Future : Type}

/-- The strings are what `text` has at the addresses given, up to their NUL. -/
def sysExecl (config : Config) (fs : FileSystem) (turns : Nat) (room : Room)
    (caller : UserState Semaphore Future) (userEsp : Nat → Nat) (text : Nat → List UInt8) :
    Ended Semaphore Future :=
  if refuses config (userEsp 1) then .returned (-1) caller
  else
    match Arguments.collect config userEsp 99 0 with
    | .refused => .returned (-1) caller
    | .tooMany => .stopped .panicked
    | .collected pointers =>
        SYS.exec config fs turns room caller (cstring (text (userEsp 1)))
          (pointers.map fun pointer => cstring (text pointer))

end Handler

/-! ### What the caller gets -/

section Contract

variable {Semaphore Future : Type} {config : Config} {fs : FileSystem} {tree : Tree} {room : Room}
  {caller : UserState Semaphore Future} {path : Path} {argv : List (List UInt8)}
  {content : List UInt8} {node : Node}

/-- The program has been entered, or the caller has got an error and what it had. -/
def Clean (caller : UserState Semaphore Future) (ended : Ended Semaphore Future) : Prop :=
  (∃ entry sp memory, ended = .entered entry sp memory) ∨
    ∃ value < 0, ended = .returned value caller

def ExeclClean (config : Config) (fs : FileSystem) (room : Room)
    (caller : UserState Semaphore Future) (userEsp : Nat → Nat) (text : Nat → List UInt8) : Prop :=
  ∃ bound, ∀ turns ≥ bound, Clean caller (sysExecl config fs turns room caller userEsp text)

theorem clean_returned : Clean caller (.returned (-1) caller) := .inr ⟨-1, by decide, rfl⟩

theorem not_clean_stopped (stop : Stop) : ¬ Clean caller (.stopped stop) := by
  rintro (⟨_, _, _, same⟩ | ⟨_, _, same⟩) <;> cases same

theorem not_clean_overran : ¬ Clean caller .overran := by
  rintro (⟨_, _, _, same⟩ | ⟨_, _, same⟩) <;> cases same

/-- What is stored for the stack and for the segments of a file with fixed contents. -/
def storesFor (config : Config) (content : List UInt8) (argv : List (List UInt8)) : List Access :=
  (SYS.Stack.build argv).stores ++
    ((ELF.accepted config content).map (ELF.storedFor content)).flatMap fun segment => segment.stores

theorem storesOf_serves (serves : node.io.Serves content) :
    SYS.storesOf config node argv = storesFor config content argv := by
  unfold SYS.storesOf storesFor
  rw [ELF.load_loaded serves]

def headerOf (content : List UInt8) : ELF.ElfHeader := .ofBytes (slice content 0 ELF.ElfHeader.size)

/-- A program that can be loaded: there is room for the copies of the strings and for
the pages, its headers are taken, and all its stores are in the user's memory. -/
structure Runs (config : Config) (room : Room) (path : Path) (argv : List (List UInt8))
    (content : List UInt8) : Prop where
  copies : room.heap (SYS.requests path argv) = true
  headers : ELF.Loadable config content (headerOf content).phentsize (headerOf content).phnum
    (headerOf content).phoff
  user : ∀ access ∈ storesFor config content argv, UserByte config access.address
  frames : room.frames (storesFor config content argv) = true

theorem load_outcome {file : BlockIO} (serves : file.Serves content)
    (whole : ELF.ElfHeader.size ≤ content.length) (valid : (headerOf content).valid = true) :
    (ELF.load config (some file)).outcome =
      (ELF.loadHeaders config file (headerOf content).entry (headerOf content).phentsize
        (headerOf content).phnum (headerOf content).phoff).outcome := by
  have header : 0 < ELF.ElfHeader.size := by decide
  have reads := serves.readThing 0 header
  rw [Nat.zero_add, if_pos whole] at reads
  unfold ELF.load
  simp only [reads]
  exact congrArg ELF.Loading.outcome (if_pos valid)

theorem run_clean (serves : node.io.Serves content) (whole : ELF.ElfHeader.size ≤ content.length)
    (valid : (headerOf content).valid = true) :
    Clean caller (SYS.run config room caller path argv node) ↔ Runs config room path argv content := by
  unfold SYS.run
  simp only [storesOf_serves serves]
  by_cases copies : room.heap (SYS.requests path argv) = true
  swap
  · rw [if_pos copies]
    exact iff_of_false (not_clean_stopped _) fun runs => copies runs.copies
  rw [if_neg (not_not.2 copies)]
  by_cases user : ∀ access ∈ storesFor config content argv, UserByte config access.address
  swap
  · rw [if_pos user]
    exact iff_of_false not_clean_overran fun runs => user runs.user
  rw [if_neg (not_not.2 user)]
  by_cases frames : room.frames (storesFor config content argv) = true
  swap
  · rw [if_pos frames]
    exact iff_of_false (not_clean_stopped _) fun runs => frames runs.frames
  rw [if_neg (not_not.2 frames), load_outcome serves whole valid]
  rcases ELF.loadHeaders_outcome serves (headerOf content).entry (headerOf content).phentsize
    (headerOf content).phnum (headerOf content).phoff with ⟨returned, headers⟩ | ⟨panicked, stops⟩
  · rw [returned]
    exact iff_of_true (.inl ⟨_, _, _, rfl⟩) ⟨copies, headers, user, frames⟩
  · rw [panicked]
    exact iff_of_false (not_clean_stopped _) fun runs => stops runs.headers

/-- A file is a program that runs, or no program, but not shorter than a header. -/
def Handled (config : Config) (room : Room) (path : Path) (argv : List (List UInt8))
    (content : List UInt8) : Prop :=
  ELF.ElfHeader.size ≤ content.length ∧
    ((headerOf content).valid = true → Runs config room path argv content)

theorem isFile_stored {inode : Inode} (stores : node.Stores inode) :
    node.isFile = true ↔ ∃ content, inode = .file content := by
  have type : node.isFile = decide (node.data.getType = 8) := rfl
  cases inode with
  | file content => simp [type, stores.1]
  | directory records => simp [type, stores.1]
  | symlink target pointers => simp [type, stores.1]

theorem execNode_clean {inode : Inode} (stores : node.Stores inode) :
    Clean caller (SYS.execNode config room caller path argv node) ↔
      ∀ content, inode = .file content → Handled config room path argv content := by
  unfold SYS.execNode
  by_cases isFile : node.isFile = true
  swap
  · rw [if_pos isFile]
    refine iff_of_true clean_returned fun content same => ?_
    exact absurd ((isFile_stored stores).2 ⟨content, same⟩) isFile
  obtain ⟨content, rfl⟩ := (isFile_stored stores).1 isFile
  have serves : node.io.Serves content := stores.2
  have only : (∀ other, Inode.file content = .file other → Handled config room path argv other) ↔
      Handled config room path argv content := by
    constructor
    · intro all
      exact all content rfl
    · intro handled other same
      cases same
      exact handled
  have header : 0 < ELF.ElfHeader.size := by decide
  have reads := serves.readThing 0 header
  rw [Nat.zero_add] at reads
  rw [if_neg (not_not.2 isFile), only, Node.read, Nat.zero_mod, reads]
  by_cases whole : ELF.ElfHeader.size ≤ content.length
  swap
  · rw [if_neg whole]
    exact iff_of_false (not_clean_stopped _) fun handled => whole handled.1
  rw [if_pos whole]
  by_cases valid : (headerOf content).valid = true
  · have runs := @run_clean _ _ config room caller path argv content node serves whole valid
    simp only [headerOf] at valid runs
    simp only [valid, not_true_eq_false, if_false]
    rw [runs, Handled]
    simp only [whole, headerOf, valid, true_and, true_implies]
  · have refused : ¬ (ELF.ElfHeader.ofBytes (slice content 0 ELF.ElfHeader.size)).valid = true := valid
    simp only [if_pos refused]
    exact iff_of_true clean_returned ⟨whole, fun isValid => absurd isValid valid⟩

/-- What is looked up on the path is handled. -/
def Found (config : Config) (tree : Tree) (room : Room) (path : Path) (argv : List (List UInt8)) :
    Prop :=
  tree.locate .kernel path = .missing ∨
    ∃ number inode, tree.locate .kernel path = .arrived number ∧ tree.inodes number = some inode ∧
      ∀ content, inode = .file content → Handled config room path argv content

theorem exec_clean (holds : fs.Holds tree) :
    (∃ bound, ∀ turns ≥ bound, Clean caller (SYS.exec config fs turns room caller path argv)) ↔
      Found config tree room path argv := by
  obtain ⟨found, walked, settles⟩ := FileSystem.find_locate holds path
  obtain ⟨enough, ran⟩ := settles.soon
  have ends (turns : Nat) (late : turns ≥ enough) :
      SYS.exec config fs turns room caller path argv =
        SYS.execFound config room caller path argv found := by
    rw [SYS.exec, ran turns late]
  have once : (∃ bound, ∀ turns ≥ bound,
      Clean caller (SYS.exec config fs turns room caller path argv)) ↔
        Clean caller (SYS.execFound config room caller path argv found) := by
    constructor
    · rintro ⟨bound, clean⟩
      rw [← ends (max bound enough) (by omega)]
      exact clean _ (by omega)
    · intro clean
      refine ⟨enough, fun turns late => ?_⟩
      rw [ends turns late]
      exact clean
  rw [once, Found]
  cases arrives : tree.locate .kernel path with
  | missing =>
      rw [arrives] at walked
      cases walked
      exact iff_of_true clean_returned (.inl rfl)
  | refused =>
      rw [arrives] at walked
      cases walked
      refine iff_of_false (not_clean_stopped _) ?_
      rintro (missing | ⟨_, _, arrived, _⟩) <;> contradiction
  | arrived number =>
      rw [arrives] at walked
      obtain ⟨node, inode, rfl, stored, stores⟩ := walked
      rw [SYS.execFound, execNode_clean stores]
      constructor
      · intro handled
        exact .inr ⟨number, inode, rfl, stored, handled⟩
      · rintro (missing | ⟨other, same, arrived, present, handled⟩)
        · cases missing
        · cases arrived
          rw [stored] at present
          cases present
          exact handled

end Contract

/-! ### A file of one byte -/

def shortNode : Node where
  io := .ofBytes 512 [0] BlockIO.sector_positive BlockIO.sector_short BlockIO.one_small
  data := { mode := 0x8000, sizeLow := 1, nSectors := 2, pointers := [] }
  sized := by decide

theorem short_stores : shortNode.Stores (.file [0]) := ⟨by decide, BlockIO.ofBytes_serves _ _ _⟩

/-- The file is called `a`. -/
def shortTree : Tree :=
  OneName.tree (.file [0]) (by intro records same; cases same)
    (by intro target pointers same; cases same)

def shortVolume : FileSystem := OneName.volume shortNode

theorem shortVolume_holds : shortVolume.Holds shortTree := OneName.volume_holds _ _ short_stores

def plenty : Room := { heap := fun _ => true, frames := fun _ => true }

def idleCaller : UserState Unit Unit := { memory := fun _ => 0, handles := noHandles }

/-- The words behind the stack pointer: a path and no argument. -/
def pathOnly (index : Nat) : Nat := if index = 1 then 0x80000000 else 0

end AC97Kernel
