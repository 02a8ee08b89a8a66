/-
The output of programs, t0.dir/sbin/libc.c, down to the terminal.

`putchar` writes one byte by a system call, and a write to the terminal moves one byte
only, whatever its count; so `cp` needs its inner loop.  A program stops where a handler
panics, and a loop is given its turns.
-/

import AC97Kernel.Calls.ArgumentStack
import AC97Kernel.Printing.Written
import AC97Kernel.Storage.Offsets

set_option autoImplicit false

namespace AC97Kernel.Libc

open Slices ByteRuns SYS

variable {Semaphore Output : Type}

/-- What a program sees of the machine: its process with the files, its memory, and what
is on the terminal. -/
structure World (Semaphore Output : Type) where
  caller : Caller Semaphore Output
  memory : Nat → UInt8
  terminal : List UInt8

/-- `buf` of `cp` and `t` of `putchar` on the stack. -/
structure Frame where
  buf : Nat
  t : Nat

/-- The bytes that a call loads; `U8250File::write` puts each of them on the terminal. -/
def loads (memory : Nat → UInt8) (accesses : List Access) : List UInt8 :=
  accesses.filterMap fun access =>
    match access with
    | .load address => some (memory address)
    | .store _ _ => none

def bytesOf (text : List Char) : List UInt8 := text.map fun c => UInt8.ofNat c.toNat

/-- `OpenFileStruct::write` prints on the same terminal. -/
def refusal (caller : Caller Semaphore Output) (fd : Nat) : List UInt8 :=
  match caller.file fd with
  | some (_, .openFile _) => bytesOf "Can't write to files.\n".toList
  | _ => []

/-- What the kernel itself prints in a call. -/
def message (config : Config) (caller : Caller Semaphore Output) : BufferCall → List UInt8
  | .write fd buf _ => if refuses config buf then [] else refusal caller fd
  | _ => []

section Programs

variable (config : Config) (get : Output → Nat) (frame : Frame)

def call (world : World Semaphore Output) (call : BufferCall) :
    Option (Int × World Semaphore Output) :=
  let reply := sysHandler config get world.caller call
  match reply.outcome with
  | .returned result =>
      some (result,
        { caller := reply.caller
          memory := apply world.memory reply.accesses
          terminal :=
            world.terminal ++ message config world.caller call ++
              loads world.memory reply.accesses })
  | _ => none

def putchar (world : World Semaphore Output) (c : UInt8) :
    Option (Int × World Semaphore Output) :=
  call config get { world with memory := Function.update world.memory frame.t c }
    (.write 1 frame.t 1)

/-- The rest of `puts`, with its count. -/
def putsFrom : List UInt8 → Int → World Semaphore Output → Option (Int × World Semaphore Output)
  | [], count, world =>
      (putchar config get frame world 10).map fun (_, world) => (count + 1, world)
  | c :: text, count, world =>
      (putchar config get frame world c).bind fun (n, world) =>
        if n < 0 then some (n, world) else putsFrom text (count + 1) world

/-- `puts` of the string at `p`. -/
def puts (text : List UInt8) (world : World Semaphore Output) :
    Option (Int × World Semaphore Output) := putsFrom config get frame text 0 world

/-- Every character that `dopr` puts goes through `putchar`, whose result nobody looks at. -/
def putAll : List Char → World Semaphore Output → Option (World Semaphore Output)
  | [], world => some world
  | c :: text, world =>
      (putchar config get frame world (UInt8.ofNat c.toNat)).bind fun (_, world) =>
        putAll text world

def printf (turns : Nat) (environment : Printing.Environment) (format : List Char)
    (world : World Semaphore Output) : Option (World Semaphore Output) :=
  match Printing.vsnprintf environment 1000 turns format with
  | .printed text _ => putAll config get frame text world
  | _ => none

/-- The file name, the line and the handle. -/
def errorArguments (line fd : Nat) : Printing.Environment where
  args
    | 0 => 1
    | 1 => BitVec.ofNat 32 line
    | _ => BitVec.ofNat 32 fd
  string _ := "libc.c".toList
  fmtfp _ _ _ _ _ := []

def readError : List Char := "*** %s:%d read error, fd = %d\n".toList

def writeError : List Char := "*** %s:%d write error, fd = %d\n".toList

/-- The inner loop of `cp`. -/
def writeAll (target : Nat) : Nat → Nat → Int → World Semaphore Output →
    Option (World Semaphore Output)
  | 0, _, _, _ => none
  | turns + 1, ptr, n, world =>
      if n > 0 then
        (call config get world (.write target ptr n.toNat)).bind fun (m, world) =>
          if m < 0 then printf config get frame turns (errorArguments 34 target) writeError world
          else writeAll target turns ((ptr + m.toNat) % 2 ^ 32) (n - m) world
      else some world

def cp (source target : Nat) : Nat → World Semaphore Output → Option (World Semaphore Output)
  | 0, _ => none
  | turns + 1, world =>
      (call config get world (.read source frame.buf 100)).bind fun (n, world) =>
        if n = 0 then some world
        else if n < 0 then
          printf config get frame turns (errorArguments 27 source) readError world
        else
          (writeAll config get frame target turns frame.buf n world).bind fun world =>
            cp source target turns world

end Programs

variable {config : Config} {get : Output → Nat} {frame : Frame} {world : World Semaphore Output}
  {source target reference : Nat} {file : OpenFileStruct} {content bytes : List UInt8}
  {position ptr turns : Nat}

/-! ### The calls -/

theorem loads_storesAt (memory : Nat → UInt8) (pointer : Nat) (bytes : List UInt8) :
    loads memory (storesAt pointer bytes) = [] := by
  apply List.filterMap_eq_nil_iff.mpr
  intro access among
  obtain ⟨index, _, rfl⟩ := List.mem_mapIdx.mp among
  rfl

/-- What becomes of a call whose reply is known. -/
theorem call_replied {made : BufferCall} {accesses : List Access} {result : Int}
    {caller : Caller Semaphore Output}
    (replied : sysHandler config get world.caller made =
      { accesses := accesses, outcome := .returned result, caller := caller }) :
    call config get world made =
      some (result,
        { caller := caller
          memory := apply world.memory accesses
          terminal :=
            world.terminal ++ message config world.caller made ++
              loads world.memory accesses }) := by
  unfold call
  rw [replied]

theorem message_write {caller : Caller Semaphore Output} {n : Nat}
    (accepted : refuses config ptr = false) :
    message config caller (.write target ptr n) = refusal caller target := by
  change (if refuses config ptr = true then [] else _) = _
  rw [accepted]
  rfl

/-- A write to the terminal moves one byte. -/
theorem call_write {n : Nat} (terminal : world.caller.file target = some (reference, .u8250))
    (accepted : refuses config ptr = false) (some_ : n ≠ 0) :
    call config get world (.write target ptr n) =
      some (1, { world with terminal := world.terminal ++ [world.memory ptr] }) := by
  have replied : sysHandler config get world.caller (.write target ptr n) =
      { accesses := [.load ptr], outcome := .returned 1, caller := world.caller } := by
    change sysWrite config world.caller target ptr n = _
    unfold sysWrite
    rw [accepted, terminal]
    exact if_neg some_
  have silent : refusal world.caller target = [] := by
    unfold refusal
    rw [terminal]
  rw [call_replied replied, message_write accepted, silent, List.append_nil]
  rfl

/-- Whatever is no terminal can not be written to. -/
theorem call_write_fails {n : Nat} (accepted : refuses config ptr = false)
    (other : ∀ reference, world.caller.file target ≠ some (reference, .u8250)) :
    call config get world (.write target ptr n) =
      some (-1, { world with terminal := world.terminal ++ refusal world.caller target }) := by
  have replied : sysHandler config get world.caller (.write target ptr n) =
      { accesses := [], outcome := .returned (-1), caller := world.caller } := by
    change sysWrite config world.caller target ptr n = _
    unfold sysWrite
    rw [accepted]
    cases found : world.caller.file target with
    | none => rfl
    | some opened =>
        obtain ⟨reference, kind⟩ := opened
        cases kind with
        | u8250 => exact absurd found (other reference)
        | openFile file => rfl
  rw [call_replied replied, message_write accepted]
  change some (_, { world with terminal := _ ++ [] }) = _
  rw [List.append_nil]

/-- The file behind a read. -/
def advanced (file : OpenFileStruct) (content : List UInt8) (position : Nat) : OpenFileStruct :=
  { file with myOffset := position + min 100 (content.length - position) }

theorem call_read (opened : world.caller.file source = some (reference, .openFile file))
    (stands : file.Stands content position) (accepted : refuses config ptr = false)
    (room : ptr + 100 < 2 ^ 32) :
    call config get world (.read source ptr 100) =
      some (((min 100 (content.length - position) : Nat) : Int),
        { world with
          caller :=
            { world.caller with
              objects :=
                Function.update world.caller.objects reference
                  (.openFile (advanced file content position)) }
          memory := put world.memory ptr (slice content position 100) }) := by
  have reads := stands.read_eq (n := 100) (by decide)
  have replied : sysHandler config get world.caller (.read source ptr 100) =
      { accesses := storesAt ptr (slice content position 100)
        outcome := .returned ((min 100 (content.length - position) : Nat) : Int)
        caller :=
          { world.caller with
            objects :=
              Function.update world.caller.objects reference
                (.openFile (advanced file content position)) } } := by
    change sysRead config world.caller source ptr 100 = _
    unfold sysRead
    rw [accepted, opened]
    dsimp only
    rw [reads]
    rfl
  have inside : ptr + (slice content position 100).length ≤ 2 ^ 32 := by
    rw [length_slice]
    omega
  rw [call_replied replied, apply_storesAt world.memory inside, loads_storesAt]
  change some (_, { world with caller := _, memory := _, terminal := _ ++ [] ++ [] }) = _
  rw [List.append_nil, List.append_nil]

/-! ### The loops -/

/-- The inner loop brings all of a run to the terminal. -/
theorem writeAll_prints (terminal : world.caller.file target = some (reference, .u8250))
    (occupies : Occupies world.memory ptr bytes)
    (accepted : ∀ index < bytes.length, refuses config (ptr + index) = false)
    (room : ptr + bytes.length < 2 ^ 32) (enough : bytes.length < turns) :
    writeAll config get frame target turns ptr bytes.length world =
      some { world with terminal := world.terminal ++ bytes } := by
  induction bytes generalizing ptr turns world with
  | nil =>
      obtain ⟨turns, rfl⟩ : ∃ fewer, turns = fewer + 1 := ⟨turns - 1, by omega⟩
      rw [List.append_nil]
      rfl
  | cons byte rest ih =>
      obtain ⟨turns, rfl⟩ : ∃ fewer, turns = fewer + 1 := ⟨turns - 1, by omega⟩
      rw [List.length_cons] at room enough accepted
      have first : world.memory ptr = byte := by
        have at_ := occupies 0 (Nat.succ_pos _)
        rw [List.getElem?_cons_zero, Nat.add_zero] at at_
        exact (Option.some.inj at_).symm
      have next : (ptr + (1 : Int).toNat) % 2 ^ 32 = ptr + 1 := Nat.mod_eq_of_lt (by
        change ptr + 1 < 2 ^ 32
        omega)
      have here : refuses config ptr = false := accepted 0 (Nat.succ_pos _)
      have count : ((rest.length + 1 : Nat) : Int).toNat ≠ 0 := Nat.succ_ne_zero _
      have written := @call_write _ _ config get world target reference ptr _ terminal here count
      rw [first] at written
      have behind : writeAll config get frame target turns (ptr + 1) rest.length
          { world with terminal := world.terminal ++ [byte] } =
            some { world with terminal := world.terminal ++ [byte] ++ rest } := by
        apply @ih { world with terminal := world.terminal ++ [byte] } (ptr + 1) turns terminal
        · intro index inside
          have at_ := occupies (index + 1) (Nat.succ_lt_succ inside)
          rw [List.getElem?_cons_succ] at at_
          rw [at_, Nat.add_right_comm, Nat.add_assoc]
        · intro index inside
          have next := accepted (index + 1) (Nat.succ_lt_succ inside)
          rwa [Nat.add_comm index 1, ← Nat.add_assoc] at next
        · omega
        · omega
      have left : ((rest.length + 1 : Nat) : Int) - 1 = rest.length := by omega
      unfold writeAll
      rw [List.length_cons, if_pos (by omega), written, Option.bind_some]
      dsimp only
      rw [if_neg (by decide), next, left, behind, List.append_assoc]
      rfl

/-! ### `printf` and `puts` -/

/-- The text of the items, if they are printed. -/
def Prints (environment : Printing.Environment) (format text : List Char) : Prop :=
  ∃ stores, Printing.print environment 1000 (Printing.items format) 0 [] [] = .printed text stores

/-- Bytes have come to the terminal, and besides `t` nothing has changed. -/
structure Printed (frame : Frame) (world : World Semaphore Output) (bytes : List UInt8)
    (after : World Semaphore Output) : Prop where
  caller : after.caller = world.caller
  terminal : after.terminal = world.terminal ++ bytes
  memory : ∀ address, address ≠ frame.t → after.memory address = world.memory address

/-- Handle 1 is the terminal. -/
structure Talks (config : Config) (frame : Frame) (caller : Caller Semaphore Output) : Prop where
  terminal : ∃ reference, caller.file 1 = some (reference, .u8250)
  accepted : refuses config frame.t = false

/-- The world behind one `putchar`. -/
def World.typed (world : World Semaphore Output) (frame : Frame) (c : UInt8) :
    World Semaphore Output :=
  { world with
    memory := Function.update world.memory frame.t c
    terminal := world.terminal ++ [c] }

theorem putchar_prints (talks : Talks config frame world.caller) (c : UInt8) :
    putchar config get frame world c = some (1, world.typed frame c) := by
  obtain ⟨reference, terminal⟩ := talks.terminal
  unfold putchar
  rw [@call_write _ _ config get { world with memory := Function.update world.memory frame.t c } 1
    reference frame.t 1 terminal talks.accepted Nat.one_ne_zero]
  dsimp only
  rw [Function.update_self]
  rfl

theorem Printed.nil : Printed frame world [] world :=
  ⟨rfl, (List.append_nil _).symm, fun _ _ => rfl⟩

theorem Printed.cons {c : UInt8} {after : World Semaphore Output}
    (printed : Printed frame (world.typed frame c) bytes after) :
    Printed frame world (c :: bytes) after where
  caller := printed.caller
  terminal := by
    rw [printed.terminal, ← List.singleton_append, ← List.append_assoc]
    rfl
  memory address apart := (printed.memory address apart).trans (Function.update_of_ne apart _ _)

theorem putsFrom_prints (talks : Talks config frame world.caller) (text : List UInt8)
    (count : Int) : ∃ after,
      putsFrom config get frame text count world = some (count + text.length + 1, after) ∧
        Printed frame world (text ++ [10]) after := by
  induction text generalizing world count with
  | nil =>
      refine ⟨world.typed frame 10, ?_, .cons .nil⟩
      rw [putsFrom, putchar_prints talks, Option.map_some, List.length_nil, Int.natCast_zero,
        Int.add_zero]
  | cons c text ih =>
      obtain ⟨after, all, printed⟩ := @ih (world.typed frame c) talks (count + 1)
      refine ⟨after, ?_, printed.cons⟩
      have counted : count + (c :: text).length + 1 = count + 1 + text.length + 1 := by
        rw [List.length_cons]
        omega
      rw [putsFrom, putchar_prints talks, Option.bind_some, counted]
      dsimp only
      rw [if_neg (by decide)]
      exact all

/-- `puts` brings its string with a newline to the terminal, and counts both. -/
theorem puts_prints (talks : Talks config frame world.caller) (text : List UInt8) : ∃ after,
    puts config get frame text world = some ((text.length : Int) + 1, after) ∧
      Printed frame world (text ++ [10]) after := by
  obtain ⟨after, all, printed⟩ := @putsFrom_prints _ _ config get frame world talks text 0
  rw [Int.zero_add] at all
  exact ⟨after, all, printed⟩

theorem putAll_prints (talks : Talks config frame world.caller) (text : List Char) :
    ∃ after, putAll config get frame text world = some after ∧
      Printed frame world (bytesOf text) after := by
  induction text generalizing world with
  | nil => exact ⟨world, rfl, .nil⟩
  | cons c text ih =>
      obtain ⟨after, all, printed⟩ := @ih (world.typed frame (UInt8.ofNat c.toNat)) talks
      refine ⟨after, ?_, printed.cons⟩
      rw [putAll, putchar_prints talks]
      exact all

/-- `printf` brings the text of the items to the terminal, one system call after the other. -/
theorem printf_prints {environment : Printing.Environment} {format text : List Char}
    (letters : Printing.Letters format) (prints : Prints environment format text) :
    ∃ enough, ∀ world : World Semaphore Output, Talks config frame world.caller → ∃ after,
      Printed frame world (bytesOf text) after ∧
        ∀ turns ≥ enough, printf config get frame turns environment format world = some after := by
  obtain ⟨stores, same⟩ := prints
  obtain ⟨enough, runs⟩ := Printing.dopr_prints environment 1000 format letters
  refine ⟨enough, fun world talks => ?_⟩
  obtain ⟨after, put, all⟩ := @putAll_prints _ _ config get frame world talks text
  refine ⟨after, all, fun turns many => ?_⟩
  have printed := (runs turns many).trans same
  unfold printf
  rw [printed]
  exact put

/-- A directive without flags, width and precision. -/
def plain (conversion : Char) : Printing.Item :=
  .directive ⟨{}, .absent, .absent, .none, conversion⟩

def literals (text : List Char) : List Printing.Item := text.map .literal

def writeErrorItems : List Printing.Item :=
  literals "*** ".toList ++ [plain 's', .literal ':', plain 'd'] ++
    literals " write error, fd = ".toList ++ [plain 'd', .literal '\n']

theorem literals_writable {text : List Char}
    (all : text.all (fun c => c != '%' && c != '\x00') = true) :
    ∀ item ∈ literals text, item.Writable := by
  intro item among
  obtain ⟨c, inside, rfl⟩ := List.mem_map.mp among
  have both := Bool.and_eq_true_iff.mp (List.all_eq_true.mp all c inside)
  exact ⟨bne_iff_ne.mp both.1, bne_iff_ne.mp both.2⟩

theorem plain_writable {conversion : Char} (among : conversion ∈ Printing.conversions) :
    (plain conversion).Writable := ⟨among, rfl, rfl, nofun⟩

theorem writeError_items : Printing.items writeError = writeErrorItems := by
  have written : writeErrorItems.flatMap Printing.Item.write = writeError := rfl
  rw [← written]
  apply Printing.items_write
  intro item among
  rcases List.mem_append.mp among with before | last
  · rcases List.mem_append.mp before with first | text
    · rcases List.mem_append.mp first with stars | middle
      · exact literals_writable rfl item stars
      · simp only [List.mem_cons, List.not_mem_nil, or_false] at middle
        rcases middle with rfl | rfl | rfl
        · exact plain_writable (by decide)
        · exact ⟨by decide, by decide⟩
        · exact plain_writable (by decide)
    · exact literals_writable rfl item text
  · simp only [List.mem_cons, List.not_mem_nil, or_false] at last
    rcases last with rfl | rfl
    · exact plain_writable (by decide)
    · exact ⟨by decide, by decide⟩

/-- Only a `%w` at the end is not printed. -/
theorem print_printed (environment : Printing.Environment) {items : List Printing.Item}
    (ended : ∀ directive, .unended directive ∉ items) (arg : Nat) (buffer : List Char)
    (stores : List Printing.Stored) : ∃ text stored,
      Printing.print environment 1000 items arg buffer stores = .printed text stored := by
  induction items generalizing arg buffer stores with
  | nil => exact ⟨buffer, stores, rfl⟩
  | cons item items ih =>
      have rest := ih fun directive among => ended directive (List.mem_cons_of_mem item among)
      unfold Printing.print
      by_cases full : 1000 ≤ buffer.length
      · rw [if_pos full]
        exact ⟨buffer, stores, rfl⟩
      · rw [if_neg full]
        cases item with
        | literal c => exact rest _ _ _
        | directive directive => exact rest _ _ _
        | unended directive => exact absurd List.mem_cons_self (ended directive)

theorem writeError_prints (fd : Nat) :
    ∃ text, Prints (errorArguments 34 fd) writeError text := by
  have ended (directive : Printing.Directive) : .unended directive ∉ writeErrorItems := by
    intro among
    simp [writeErrorItems, literals, plain] at among
  obtain ⟨text, stores, printed⟩ := print_printed (errorArguments 34 fd) ended 0 [] []
  exact ⟨text, stores, by rw [writeError_items]; exact printed⟩

/-! ### `cp` -/

theorem slice_rest (content : List UInt8) (offset count : Nat) :
    slice content offset count ++ content.drop (offset + min count (content.length - offset)) =
      content.drop offset := by
  have same : content.drop (offset + min count (content.length - offset)) =
      (content.drop offset).drop count := by
    rw [List.drop_drop]
    by_cases inside : count ≤ content.length - offset
    · rw [Nat.min_eq_left inside]
    · rw [List.drop_eq_nil_of_le (by omega), List.drop_eq_nil_of_le (by omega)]
  rw [same]
  exact List.take_append_drop count (content.drop offset)

/-- A file at a position of its content is to be copied, and the handlers accept the
addresses of the buffer. -/
structure Source (config : Config) (frame : Frame) (world : World Semaphore Output)
    (source reference : Nat) (content : List UInt8) (position : Nat) (file : OpenFileStruct) :
    Prop where
  opened : world.caller.file source = some (reference, .openFile file)
  stands : file.Stands content position
  accepted : ∀ index < 100, refuses config (frame.buf + index) = false
  room : frame.buf + 100 < 2 ^ 32

/-- The file has been read to its end, and all that is not the terminal, the file, `buf`
or `t` is as before. -/
structure Finished (frame : Frame) (world : World Semaphore Output) (source reference : Nat)
    (content : List UInt8) (after : World Semaphore Output) : Prop where
  file : ∃ file, after.caller.file source = some (reference, .openFile file) ∧
    file.Stands content content.length
  process : after.caller.process = world.caller.process
  objects : ∀ other, other ≠ reference →
    after.caller.objects other = world.caller.objects other
  memory : ∀ address, address ≠ frame.t → address < frame.buf ∨ frame.buf + 100 ≤ address →
    after.memory address = world.memory address

/-- The file is not the terminal. -/
theorem Source.apart (ready : Source config frame world source reference content position file)
    {other : Nat} (terminal : world.caller.file target = some (other, .u8250)) :
    other ≠ reference := by
  rintro rfl
  obtain ⟨_, _, one⟩ := Option.map_eq_some_iff.mp ready.opened
  obtain ⟨_, _, two⟩ := Option.map_eq_some_iff.mp terminal
  obtain ⟨rfl, isFile⟩ := Prod.mk.inj one
  obtain ⟨rfl, isTerminal⟩ := Prod.mk.inj two
  rw [isTerminal] at isFile
  cases isFile

/-- The world behind one `read`. -/
def World.read (world : World Semaphore Output) (frame : Frame) (reference : Nat)
    (file : OpenFileStruct) (content : List UInt8) (position : Nat) : World Semaphore Output :=
  { world with
    caller :=
      { world.caller with
        objects :=
          Function.update world.caller.objects reference
            (.openFile (advanced file content position)) }
    memory := put world.memory frame.buf (slice content position 100) }

theorem Source.read_opened
    (ready : Source config frame world source reference content position file) :
    (world.read frame reference file content position).caller.file source =
      some (reference, .openFile (advanced file content position)) := by
  obtain ⟨held, same, pair⟩ := Option.map_eq_some_iff.mp ready.opened
  obtain ⟨rfl, _⟩ := Prod.mk.inj pair
  apply Option.map_eq_some_iff.mpr
  exact ⟨held, same, congrArg (Prod.mk held) (Function.update_self _ _ _)⟩

/-- Other handles have what they had, also after the read. -/
theorem read_other {other : Nat} {opened : File} (apart : other ≠ reference)
    (found : world.caller.file target = some (other, opened)) :
    (world.read frame reference file content position).caller.file target =
      some (other, opened) := by
  obtain ⟨held, same, pair⟩ := Option.map_eq_some_iff.mp found
  obtain ⟨rfl, isFile⟩ := Prod.mk.inj pair
  apply Option.map_eq_some_iff.mpr
  refine ⟨held, same, congrArg (Prod.mk held) ?_⟩
  rw [← isFile]
  exact Function.update_of_ne apart _ _

/-- The file stands behind its piece, whatever has been printed since. -/
theorem Source.again (ready : Source config frame world source reference content position file)
    {between : World Semaphore Output}
    (caller : between.caller = (world.read frame reference file content position).caller) :
    Source config frame between source reference content
      (position + min 100 (content.length - position)) (advanced file content position) where
  opened := by
    rw [caller]
    exact ready.read_opened
  stands := by
    have inside := ready.stands.inside
    exact ⟨ready.stands.serves, rfl, by omega⟩
  accepted := ready.accepted
  room := ready.room

/-- At the end of the file. -/
theorem Source.ended (ready : Source config frame world source reference content position file)
    (atEnd : content.length ≤ position) :
    Finished frame world source reference content
      (world.read frame reference file content position) where
  file := by
    refine ⟨_, ready.read_opened, ?_⟩
    have inside := ready.stands.inside
    have next := (ready.again rfl).stands
    have same : position + min 100 (content.length - position) = content.length := by omega
    rwa [same] at next
  process := rfl
  objects other apart := Function.update_of_ne apart _ _
  memory address _ outside := by
    apply put_outside
    rw [length_slice]
    omega

theorem Finished.after_read {between after : World Semaphore Output}
    (finished : Finished frame between source reference content after)
    (caller : between.caller = (world.read frame reference file content position).caller)
    (memory : ∀ address, address ≠ frame.t → between.memory address =
      (world.read frame reference file content position).memory address) :
    Finished frame world source reference content after where
  file := finished.file
  process := by
    rw [finished.process, caller]
    rfl
  objects other apart := by
    rw [finished.objects other apart, caller]
    exact Function.update_of_ne apart _ _
  memory address apart outside := by
    rw [finished.memory address apart outside, memory address apart]
    apply put_outside
    rw [length_slice]
    omega

theorem Source.reads (ready : Source config frame world source reference content position file) :
    call config get world (.read source frame.buf 100) =
      some (((min 100 (content.length - position) : Nat) : Int),
        world.read frame reference file content position) :=
  call_read ready.opened ready.stands (ready.accepted 0 (by decide)) ready.room

/-- The last turn of `cp`. -/
theorem Source.cp_ends (ready : Source config frame world source reference content position file)
    (atEnd : content.length ≤ position) (enough : 0 < turns) :
    cp config get frame source target turns world =
      some (world.read frame reference file content position) := by
  obtain ⟨turns, rfl⟩ : ∃ fewer, turns = fewer + 1 := ⟨turns - 1, by omega⟩
  unfold cp
  rw [ready.reads, Option.bind_some]
  dsimp only
  rw [if_pos (by omega)]

/-- A turn of `cp` in front of others; `writeAll` has the rest of the turns. -/
theorem Source.cp_goes_on (ready : Source config frame world source reference content position file)
    (inside : position < content.length) {between : World Semaphore Output}
    (writes : writeAll config get frame target turns frame.buf
      (min 100 (content.length - position) : Nat)
      (world.read frame reference file content position) = some between) :
    cp config get frame source target (turns + 1) world =
      cp config get frame source target turns between := by
  rw [cp, ready.reads, Option.bind_some]
  dsimp only
  rw [if_neg (by omega), if_neg (by omega), writes, Option.bind_some]

/-- `cp` brings to the terminal what is left of the file, and stops. -/
theorem cp_prints (ready : Source config frame world source reference content position file)
    {other : Nat} (terminal : world.caller.file target = some (other, .u8250)) :
    ∃ enough, ∀ turns ≥ enough, ∃ after,
      cp config get frame source target turns world = some after ∧
      after.terminal = world.terminal ++ content.drop position ∧
      Finished frame world source reference content after := by
  induction left : content.length - position using Nat.strong_induction_on
    generalizing world position file with
  | _ left ih =>
      have aimed : (world.read frame reference file content position).caller.file target =
          some (other, .u8250) := read_other (ready.apart terminal) terminal
      by_cases atEnd : content.length ≤ position
      · refine ⟨1, fun turns enough => ⟨_, ready.cp_ends atEnd enough, ?_, ready.ended atEnd⟩⟩
        rw [List.drop_eq_nil_of_le atEnd, List.append_nil]
        rfl
      · let bytes := slice content position 100
        have length : bytes.length = min 100 (content.length - position) := length_slice _ _ _
        let written : World Semaphore Output :=
          { world.read frame reference file content position with
            terminal := world.terminal ++ bytes }
        obtain ⟨enough, copies⟩ := ih (content.length -
          (position + min 100 (content.length - position))) (by omega)
            (@Source.again _ _ _ _ _ _ _ _ _ _ ready written rfl) aimed rfl
        refine ⟨enough + 102, fun turns many => ?_⟩
        obtain ⟨turns, rfl⟩ : ∃ fewer, turns = fewer + 1 := ⟨turns - 1, by omega⟩
        have writes : writeAll config get frame target turns frame.buf bytes.length
            (world.read frame reference file content position) = some written := by
          apply writeAll_prints aimed
          · exact put_occupies _ _ _
          · intro index small
            exact ready.accepted index (by omega)
          · have room := ready.room
            omega
          · omega
        rw [length] at writes
        obtain ⟨after, copied, output, finished⟩ := copies turns (by omega)
        refine ⟨after, ?_, ?_, finished.after_read rfl (fun _ _ => rfl)⟩
        · rw [ready.cp_goes_on (Nat.lt_of_not_le atEnd) writes]
          exact copied
        · rw [output, List.append_assoc]
          exact congrArg (world.terminal ++ ·) (slice_rest content position 100)

/-- How many pieces of a hundred bytes are left. -/
def pieces (content : List UInt8) (position : Nat) : Nat := (content.length - position + 99) / 100

theorem pieces_next {position : Nat} (inside : position < content.length) :
    pieces content position =
      pieces content (position + min 100 (content.length - position)) + 1 := by
  unfold pieces
  omega

/-- A handle that is no terminal is none behind a read. -/
theorem read_no_terminal (other : ∀ reference, world.caller.file target ≠ some (reference, .u8250))
    (held : Nat) :
    (world.read frame reference file content position).caller.file target ≠
      some (held, .u8250) := by
  intro found
  obtain ⟨number, same, pair⟩ := Option.map_eq_some_iff.mp found
  obtain ⟨rfl, isTerminal⟩ := Prod.mk.inj pair
  by_cases mine : number = reference
  · rw [mine] at isTerminal
    exact absurd ((Function.update_self _ _ _).symm.trans isTerminal) nofun
  · apply other number
    apply Option.map_eq_some_iff.mpr
    exact ⟨number, same, congrArg (Prod.mk number)
      ((Function.update_of_ne mine _ _).symm.trans isTerminal)⟩

/-- And the kernel refuses it as before. -/
theorem read_refusal (other : ∀ reference, world.caller.file target ≠ some (reference, .u8250)) :
    refusal (world.read frame reference file content position).caller target =
      refusal world.caller target := by
  have before : world.caller.file target = (world.caller.process.getFile target).map
      fun held => (held, world.caller.objects held) := rfl
  have behind : (world.read frame reference file content position).caller.file target =
      (world.caller.process.getFile target).map fun held =>
        (held, Function.update world.caller.objects reference
          (.openFile (advanced file content position)) held) := rfl
  unfold refusal
  rw [behind, before]
  cases held : world.caller.process.getFile target with
  | none => rfl
  | some number =>
      rw [held, Option.map_some] at before
      rw [Option.map_some, Option.map_some]
      by_cases mine : number = reference
      · subst mine
        rw [Function.update_self]
        cases kind : world.caller.objects number with
        | openFile held => rfl
        | u8250 =>
            rw [kind] at before
            exact absurd before (other number)
      · rw [Function.update_of_ne mine]

/-- Where the target is no terminal, the kernel and `cp` tell so for every piece, and `cp`
still reads the file to its end. -/
theorem cp_reports (ready : Source config frame world source reference content position file)
    (other : ∀ reference, world.caller.file target ≠ some (reference, .u8250))
    (talks : Talks config frame world.caller) :
    ∃ text, Prints (errorArguments 34 target) writeError text ∧
      ∃ enough, ∀ turns ≥ enough, ∃ after,
        cp config get frame source target turns world = some after ∧
        after.terminal = world.terminal ++
          (List.replicate (pieces content position)
            (refusal world.caller target ++ bytesOf text)).flatten ∧
        Finished frame world source reference content after := by
  have letters : Printing.Letters writeError := Printing.letters_of_all rfl
  obtain ⟨text, prints⟩ := writeError_prints target
  obtain ⟨start, reports⟩ :=
    @printf_prints Semaphore Output config get frame _ _ text letters prints
  refine ⟨text, prints, ?_⟩
  induction left : content.length - position using Nat.strong_induction_on
    generalizing world position file with
  | _ left ih =>
      by_cases atEnd : content.length ≤ position
      · refine ⟨1, fun turns enough => ⟨_, ready.cp_ends atEnd enough, ?_, ready.ended atEnd⟩⟩
        have none_ : pieces content position = 0 := by
          unfold pieces
          omega
        rw [none_]
        exact (List.append_nil _).symm
      · have inside := Nat.lt_of_not_le atEnd
        have stillTalks : Talks config frame
            (world.read frame reference file content position).caller := by
          obtain ⟨number, terminal⟩ := talks.terminal
          exact ⟨⟨number, read_other (ready.apart terminal) terminal⟩, talks.accepted⟩
        have shut : ∀ held, (world.read frame reference file content position).caller.file target ≠
            some (held, .u8250) := read_no_terminal other
        have same : refusal (world.read frame reference file content position).caller target =
            refusal world.caller target := read_refusal other
        let told : World Semaphore Output :=
          { world.read frame reference file content position with
            terminal := world.terminal ++ refusal world.caller target }
        obtain ⟨reported, printed, prints⟩ := reports told stillTalks
        have unchanged : reported.caller =
            (world.read frame reference file content position).caller := printed.caller
        obtain ⟨enough, copies⟩ := ih (content.length -
          (position + min 100 (content.length - position))) (by omega) (ready.again unchanged)
            (unchanged ▸ shut) (unchanged ▸ stillTalks) rfl
        refine ⟨start + enough + 2, fun turns many => ?_⟩
        obtain ⟨turns, rfl⟩ : ∃ fewer, turns = fewer + 2 := ⟨turns - 2, by omega⟩
        have stops : writeAll config get frame target (turns + 1) frame.buf
            (min 100 (content.length - position) : Nat)
            (world.read frame reference file content position) = some reported := by
          have some_ : ((min 100 (content.length - position) : Nat) : Int) > 0 := by omega
          have accepted : refuses config frame.buf = false := ready.accepted 0 (by decide)
          unfold writeAll
          rw [if_pos some_, call_write_fails accepted shut, Option.bind_some, same]
          dsimp only
          rw [if_pos (by decide)]
          exact prints turns (by omega)
        obtain ⟨after, copied, output, finished⟩ := copies (turns + 1) (by omega)
        refine ⟨after, ?_, ?_, finished.after_read unchanged printed.memory⟩
        · rw [ready.cp_goes_on inside stops]
          exact copied
        · rw [output, printed.terminal, unchanged, same, pieces_next inside, List.replicate_succ,
            List.flatten_cons, ← List.append_assoc, ← List.append_assoc]

/-! ### Five bytes -/

/-- Handle 0 is a file, and handle 1 the terminal. -/
def sampleWorld : World Unit Nat where
  caller := sampleCaller
  memory _ := 0
  terminal := []

def sampleFrame : Frame := ⟨0x80001000, 0x80002000⟩

theorem sample_source : Source usualControllers sampleFrame sampleWorld 0 0 [1, 2, 3, 4, 5] 0
    (.make fiveBytes) where
  opened := rfl
  stands := by
    have serves := @ BlockIO.ofBytes_serves 512 [1, 2, 3, 4, 5] (by decide) (by decide) (by decide)
    exact ⟨serves, rfl, Nat.zero_le _⟩
  accepted := by decide
  room := by decide

theorem cp_prints_sample : ∃ enough, ∀ turns ≥ enough, ∃ after,
    cp usualControllers id sampleFrame 0 1 turns sampleWorld = some after ∧
      after.terminal = [1, 2, 3, 4, 5] := by
  have terminal : sampleWorld.caller.file 1 = some (1, .u8250) := rfl
  obtain ⟨enough, copies⟩ := @cp_prints _ _ _ id _ _ _ _ _ _ _ _ sample_source _ terminal
  refine ⟨enough, fun turns many => ?_⟩
  obtain ⟨after, copied, output, _⟩ := copies turns many
  exact ⟨after, copied, output⟩

/-- Handle 5 is not open. -/
theorem cp_reports_sample : ∃ text enough, ∀ turns ≥ enough, ∃ after,
    cp usualControllers id sampleFrame 0 5 turns sampleWorld = some after ∧
      after.terminal = bytesOf text := by
  have closed (held : Nat) : sampleWorld.caller.file 5 ≠ some (held, .u8250) := nofun
  have talks : Talks usualControllers sampleFrame sampleWorld.caller := ⟨⟨1, rfl⟩, by decide⟩
  obtain ⟨text, _, enough, copies⟩ :=
    @cp_reports _ _ _ id _ _ _ _ _ _ _ _ sample_source closed talks
  refine ⟨text, enough, fun turns many => ?_⟩
  obtain ⟨after, copied, output, _⟩ := copies turns many
  exact ⟨after, copied, output.trans (List.append_nil _)⟩

end AC97Kernel.Libc
