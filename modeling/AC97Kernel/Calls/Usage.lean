/-
What exec does to the heap.

The copies of the path and of the arguments live until the stack is built, and the
handle on the file until the program is loaded.  `clear_private` and the stores to the
stack and to the segments give back and take frames, which are no blocks of the heap;
where one of them stops the call, here it goes on.
-/

import AC97Kernel.Storage.Usage
import AC97Kernel.Calls.Execl

set_option autoImplicit false

namespace AC97Kernel

open Run

/-- How exec leaves the kernel: it returns, or it switches to the user. -/
inductive Exit where
  | returned (value : Int)
  | switched (entry sp : Nat)
  deriving DecidableEq

namespace Usage

section Loading

variable (config : Config) (fs : Ext2) (node : Node)

/-- The segment of one program header. -/
def loadSegment (header : ELF.ProgramHeader) : Usage Unit :=
  if header.type ≠ 1 then pure ()
  else if ELF.invalidSegment config header then stop
  else readAll node.io (readBlock fs node.data) header.offset header.filesz

/-- The loop over the program headers, with the number of them that are left. -/
def loadHeaders (phentsize : Nat) : Nat → Nat → Usage Unit
  | 0, _ => pure ()
  | left + 1, hoff => do
      readAll node.io (readBlock fs node.data) hoff ELF.ProgramHeader.size
      let bytes ← ofOption (node.io.readThing hoff ELF.ProgramHeader.size)
      loadSegment config fs node (.ofBytes bytes)
      loadHeaders phentsize left ((hoff + phentsize) % 2 ^ 32)

/-- `ELF::load` behind the read of the header. -/
def loadProgram (header : ELF.ElfHeader) : Usage Unit :=
  if header.valid then loadHeaders config fs node header.phentsize header.phnum header.phoff
  else pure ()

/-- `ELF::load`, whose parameter is a copy of the handle. -/
def load (file : SharedNode) : Usage Int := do
  add file.ptr
  let bytes ← fetch fs file.node 0 ELF.ElfHeader.size
  loadProgram config fs file.node (.ofBytes bytes)
  drop file.ptr
  came (ELF.load config (some file.node.io)).outcome

end Loading

/-- The loop that copies the arguments. -/
def copyArguments : List (List UInt8) → Usage (List Int)
  | [] => return []
  | string :: rest => do
      let copy ← new (arrayBytes (string.length + 1) 1)
      let copies ← copyArguments rest
      return copy :: copies

section Exec

variable (config : Config) (volume : Volume) (turns : Nat) (path : Path)
  (argv : List (List UInt8))

/-- `exec` from the check of the header on. -/
def execValid (file : SharedNode) : Usage Exit := do
  let pathTemp ← new (arrayBytes (path.length + 1) 1)
  let buffer ← new (arrayBytes argv.length 4)
  let copies ← copyArguments argv
  -- the start addresses of the arguments on the stack, which nobody deletes
  let _addresses ← new (arrayBytes argv.length 4)
  copies.forM delete
  delete buffer
  delete pathTemp
  let entry ← load config volume.ext2 file
  -- `file = nullptr`
  drop file.ptr
  return .switched entry.toNat (SYS.Stack.build argv).sp

/-- A `return` behind the lookup, where the handle goes out of scope. -/
def leave (file : SharedNode) : Usage Exit := do
  drop file.ptr
  return .returned (-1)

/-- `exec` with a node that has been found. -/
def execNode (file : SharedNode) : Usage Exit :=
  if ¬ file.node.isFile then leave file
  else do
    let bytes ← fetch volume.ext2 file.node 0 ELF.ElfHeader.size
    if ¬ (ELF.ElfHeader.ofBytes bytes).valid then leave file
    else execValid config volume path argv file

def execFound : Option SharedNode → Usage Exit
  | none => return .returned (-1)
  | some file => execNode config volume path argv file

/-- `SYS::exec`. -/
def exec : Usage Exit := do
  let found ← find volume turns volume.root path
  execFound config volume path argv found

end Exec

end Usage

/-! ### What exec owes where it ends -/

namespace SYS

/-- A node that `exec` does not run: no file, or one without a header that is taken. -/
def RefusedNode (node : Node) : Prop :=
  node.isFile = false ∨
    match node.read 0 ELF.ElfHeader.size with
    | .ok bytes => (ELF.ElfHeader.ofBytes bytes).valid = false
    | .error _ => False

/-- `exec` finds nothing to run and returns. -/
def Refused (fs : FileSystem) (turns : Nat) (path : Path) : Prop :=
  match fs.find turns fs.root path with
  | .ok none => True
  | .ok (some node) => RefusedNode node
  | .error _ => False

end SYS

/-- The end of exec is the one that is computed without a heap. -/
def Exit.Agrees {Semaphore Future : Type} (exit : Exit) : Ended Semaphore Future → Prop
  | .entered entry sp _ => exit = .switched entry sp
  | .returned value _ => exit = .returned value
  | .stopped _ => True
  | .overran => True

section Balance

variable (config : Config) (fs : Ext2) (node : Node)

theorem loadSegment_balanced (header : ELF.ProgramHeader) :
    Balanced (Usage.loadSegment config fs node header) := by
  intro start blocks handles
  unfold Usage.loadSegment
  split
  · exact Keeps.pure ()
  · split
    · exact Keeps.stop
    · exact readAll_balanced (readBlock_balanced fs node.data) _ _ start blocks handles

theorem loadHeaders_balanced (phentsize left hoff : Nat) :
    Balanced (Usage.loadHeaders config fs node phentsize left hoff) := by
  intro start blocks handles
  induction left generalizing hoff with
  | zero => exact Keeps.pure ()
  | succ left ih =>
      refine Keeps.bind (readAll_balanced (readBlock_balanced fs node.data) _ _ start blocks handles)
        fun _ => ?_
      refine Keeps.bind (Keeps.ofOption _) fun bytes => ?_
      refine Keeps.bind (loadSegment_balanced config fs node _ start blocks handles) fun _ => ?_
      exact ih _

theorem loadProgram_balanced (header : ELF.ElfHeader) :
    Balanced (Usage.loadProgram config fs node header) := by
  intro start blocks handles
  unfold Usage.loadProgram
  split
  · exact loadHeaders_balanced config fs node _ _ _ start blocks handles
  · exact Keeps.pure ()

variable {start : KernelHeap} {blocks handles : List Int}

/-- Loading drops the handle that it was given, and the caller keeps its own. -/
theorem load_owing (file : SharedNode) :
    Triple (Owing start blocks (file.ptr :: handles)) (Usage.load config fs file)
      fun entry now => (ELF.load config (some file.node.io)).outcome = .returned entry ∧
        Owing start blocks (file.ptr :: handles) now := by
  refine Triple.bind (add_owing (.inl List.mem_cons_self)) fun _ => ?_
  refine Triple.bind (fetch_balanced fs file.node _ _ start blocks _) fun bytes => ?_
  refine Triple.bind (loadProgram_balanced config fs file.node _ start blocks _) fun _ => ?_
  refine Triple.bind drop_owing fun _ => ?_
  cases (ELF.load config (some file.node.io)).outcome with
  | returned entry => exact Triple.pure fun now owing => ⟨rfl, owing⟩
  | panicked => exact Triple.stop
  | unfinished => exact Triple.stop

end Balance

section Exec

variable {config : Config} {volume : Volume} {turns : Nat} {path : Path}
  {argv : List (List UInt8)} {start : KernelHeap} {blocks handles : List Int}

theorem copyArguments_owing (argv : List (List UInt8)) :
    Triple (Owing start blocks handles) (Usage.copyArguments argv)
      fun copies => Owing start (copies ++ blocks) handles := by
  induction argv generalizing blocks with
  | nil => exact Triple.pure fun now owing => owing
  | cons string rest ih =>
      have some_ : Usage.arrayBytes (string.length + 1) 1 ≠ 0 := by
        rw [Ne, arrayBytes_zero_iff Nat.one_pos]
        omega
      refine Triple.bind (new_block some_) fun copy => ?_
      refine Triple.bind ih fun copies => ?_
      exact Triple.pure fun now owing => owing.perm List.perm_middle

theorem deleteAll_owing (copies : List Int) :
    Triple (Owing start (copies ++ blocks) handles) (copies.forM Usage.delete)
      fun _ => Owing start blocks handles := by
  induction copies with
  | nil => exact Triple.pure fun now owing => owing
  | cons copy copies ih => exact Triple.bind delete_block fun _ => ih

/-- How `exec` ends with a node: it refuses it and leaves nothing, or it enters the program
and leaves the block of the start addresses. -/
inductive NodeEnds (config : Config) (argv : List (List UInt8)) (node : Node)
    (start now : KernelHeap) : Exit → Prop where
  | refused (refused : SYS.RefusedNode node) (owing : Owing start [] [] now) :
      NodeEnds config argv node start now (.returned (-1))
  | entered {entry : Int} {addresses : Int} (taken : ¬ SYS.RefusedNode node)
      (loaded : (ELF.load config (some node.io)).outcome = .returned entry)
      (owing : Owing start (payload (Usage.arrayBytes argv.length 4) addresses) [] now) :
      NodeEnds config argv node start now (.switched entry.toNat (SYS.Stack.build argv).sp)

/-- How `exec` ends with what it has found. -/
def Ends (config : Config) (argv : List (List UInt8)) (start now : KernelHeap) (exit : Exit) :
    Option Node → Prop
  | none => exit = .returned (-1) ∧ Owing start [] [] now
  | some node => NodeEnds config argv node start now exit

theorem leave_owing (file : SharedNode) (refused : SYS.RefusedNode file.node) :
    Triple (Owing start [] [file.ptr]) (Usage.leave file)
      fun exit now => NodeEnds config argv file.node start now exit := by
  refine Triple.bind drop_owing fun _ => ?_
  exact Triple.pure fun now owing => .refused refused owing

/-- Of what `exec` takes only the block of the start addresses is left. -/
theorem execValid_owing (file : SharedNode) (taken : ¬ SYS.RefusedNode file.node) :
    Triple (Owing start [] [file.ptr]) (Usage.execValid config volume path argv file)
      fun exit now => NodeEnds config argv file.node start now exit := by
  have some_ : Usage.arrayBytes (path.length + 1) 1 ≠ 0 := by
    rw [Ne, arrayBytes_zero_iff Nat.one_pos]
    omega
  refine Triple.bind (new_block some_) fun pathTemp => ?_
  refine Triple.bind (new_owing _) fun buffer => ?_
  refine Triple.known fun bufferBase => ?_
  refine Triple.bind (copyArguments_owing argv) fun copies => ?_
  refine Triple.bind (new_owing _) fun addresses => ?_
  refine Triple.known fun _ => ?_
  -- the start addresses were taken last, and are the last that is left
  have last : (payload (Usage.arrayBytes argv.length 4) addresses ++
      (copies ++ (payload (Usage.arrayBytes argv.length 4) buffer ++ [pathTemp]))).Perm
        (copies ++ (payload (Usage.arrayBytes argv.length 4) buffer ++
          (pathTemp :: payload (Usage.arrayBytes argv.length 4) addresses))) := by
    refine List.perm_append_comm.trans ?_
    rw [List.append_assoc, List.append_assoc]
    exact List.Perm.refl _
  refine Triple.bind ((deleteAll_owing copies).mono (fun now owing => owing.perm last)
    fun _ _ => id) fun _ => ?_
  refine Triple.bind (delete_owing bufferBase) fun _ => ?_
  refine Triple.bind delete_block fun _ => ?_
  refine Triple.bind (load_owing config volume.ext2 file) fun entry => ?_
  refine Triple.known fun loaded => ?_
  refine Triple.bind drop_owing fun _ => ?_
  exact Triple.pure fun now owing => .entered taken loaded owing

theorem execNode_owing (file : SharedNode) :
    Triple (Owing start [] [file.ptr]) (Usage.execNode config volume path argv file)
      fun exit now => NodeEnds config argv file.node start now exit := by
  unfold Usage.execNode
  by_cases isFile : file.node.isFile = true
  swap
  · rw [if_pos isFile]
    exact leave_owing file (.inl (eq_false_of_ne_true isFile))
  rw [if_neg (not_not.mpr isFile)]
  refine Triple.bind (fetch_owing volume.ext2 file.node 0 ELF.ElfHeader.size) fun bytes => ?_
  refine Triple.known fun read => ?_
  have refused : SYS.RefusedNode file.node ↔ (ELF.ElfHeader.ofBytes bytes).valid = false := by
    unfold SYS.RefusedNode
    rw [read]
    exact or_iff_right (ne_false_of_eq_true isFile)
  by_cases valid : (ELF.ElfHeader.ofBytes bytes).valid = true
  · rw [if_neg (not_not.mpr valid)]
    exact execValid_owing file fun isRefused => ne_false_of_eq_true valid (refused.mp isRefused)
  · rw [if_pos valid]
    exact leave_owing file (refused.mpr (eq_false_of_ne_true valid))

/-- Where `exec` is refused it leaves nothing on the heap, and else the start addresses of
its arguments. -/
theorem exec_owing
    (known : volume.root.ptr ∈ start.client.live ∧ 1 ≤ start.refCount volume.root.ptr) :
    Triple (Owing start [] []) (Usage.exec config volume turns path argv)
      fun exit now => ∃ found, volume.fs.find turns volume.fs.root path = .ok found ∧
        Ends config argv start now exit found := by
  refine Triple.bind (find_owing volume.root known path) fun found => ?_
  refine Triple.known fun walked => ?_
  cases found with
  | none => exact Triple.pure fun now owing => ⟨none, walked, rfl, owing⟩
  | some file =>
      exact (execNode_owing file).mono (fun _ => id) fun exit now ended =>
        ⟨some file.node, walked, ended⟩

end Exec

section Agreement

variable {Semaphore Future : Type} {config : Config} {volume : Volume} {turns : Nat} {path : Path}
  {argv : List (List UInt8)} {start now : KernelHeap} {room : Room}
  {caller : UserState Semaphore Future} {exit : Exit}

theorem NodeEnds.agrees {node : Node} (ended : NodeEnds config argv node start now exit) :
    exit.Agrees (SYS.execNode config room caller path argv node) := by
  unfold SYS.execNode
  by_cases isFile : node.isFile = true
  swap
  · rw [if_pos isFile]
    cases ended with
    | refused _ _ => rfl
    | entered taken _ _ => exact absurd (.inl (eq_false_of_ne_true isFile)) taken
  rw [if_neg (not_not.mpr isFile)]
  cases read : node.read 0 ELF.ElfHeader.size with
  | error _ => trivial
  | ok bytes =>
      have refused : SYS.RefusedNode node ↔ (ELF.ElfHeader.ofBytes bytes).valid = false := by
        unfold SYS.RefusedNode
        rw [read]
        exact or_iff_right (ne_false_of_eq_true isFile)
      simp only
      cases ended with
      | refused isRefused _ =>
          rw [if_pos (by rw [refused.mp isRefused]; decide)]
          rfl
      | entered taken loaded _ =>
          rw [if_neg (fun invalid => taken (refused.mpr (eq_false_of_ne_true invalid)))]
          unfold SYS.run
          simp only [loaded]
          split
          · trivial
          · split
            · trivial
            · split
              · trivial
              · rfl

/-- `exec` ends as it does without a heap, wherever that one is not stopped. -/
theorem exec_agrees
    (known : volume.root.ptr ∈ start.client.live ∧ 1 ≤ start.refCount volume.root.ptr) :
    Triple (Owing start [] []) (Usage.exec config volume turns path argv)
      fun exit _ => exit.Agrees (SYS.exec config volume.fs turns room caller path argv) := by
  refine (exec_owing known).mono (fun _ => id) fun exit now ended => ?_
  obtain ⟨found, walked, ends⟩ := ended
  unfold SYS.exec
  rw [walked]
  cases found with
  | none => exact ends.1
  | some node => exact ends.agrees

end Agreement

end AC97Kernel
