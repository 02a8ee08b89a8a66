/-
The open system call of kernel/sys.cc.

The loop over links looks at a node before it is known to be one, so that a link
to nothing is a null node.  The check behind the loop comes too late for it.
-/

import AC97Kernel.Calls.Handles
import AC97Kernel.Storage.Directories

set_option autoImplicit false

namespace AC97Kernel

open Turns

namespace FileSystem

/-- The loop of the handler, with the turns that it and `find` may take. -/
def followLinks (fs : FileSystem) : Nat → Option Node → Except Stop (Option Node)
  | 0, _ => .error .unfinished
  | _ + 1, none => .error .nullNode
  | turns + 1, some node =>
      if node.isSymlink then do
        let filename ← node.getSymbol
        let next ← fs.find turns fs.root (cstring filename)
        fs.followLinks turns next
      else return some node

def openNode (fs : FileSystem) (turns : Nat) (filename : Path) : Except Stop (Option Node) := do
  match ← fs.find turns fs.root filename with
  | none => return none
  | some node => fs.followLinks turns (some node)

end FileSystem

section Handler

variable {Semaphore Future : Type}

/-- `bytes` is what is in memory from the address `filename` on. -/
def sysOpen (config : Config) (fs : FileSystem) (turns : Nat)
    (handles : Handles File Semaphore Future) (filename : Nat) (bytes : List UInt8) :
    Except Stop (Handles.Result File Semaphore Future) :=
  let failed : Handles.Result File Semaphore Future :=
    { handles := handles, returned := Handles.error, delivered := none }
  if refuses config filename then .ok failed
  else do
    match ← fs.openNode turns (cstring bytes) with
    | none => return failed
    | some node => return handles.setFile (.openFile (.make node.io))

end Handler

namespace FileSystem

variable {fs : FileSystem} {tree : Tree}

/-- The walk to a path and the loop over the links at its end. -/
def chase (fs : FileSystem) (path : Path) (turns : Nat) : Except Stop (Option Node) := do
  let node ← fs.find turns fs.root path
  fs.followLinks turns node

theorem isSymlink_stored {node : Node} {inode : Inode} (stores : node.Stores inode) :
    node.isSymlink = true ↔ ∃ target pointers, inode = .symlink target pointers := by
  have type : node.isSymlink = decide (node.data.getType = 0xA) := rfl
  cases inode with
  | file content => simp [type, stores.1]
  | directory records => simp [type, stores.1]
  | symlink target pointers => simp [type, stores.1]

theorem followLinks_end {node : Node} (notLink : ¬ node.isSymlink = true) :
    Settles .unfinished (fun turns => fs.followLinks turns (some node)) (.ok (some node)) := by
  constructor
  · refine ⟨1, fun turns enough => ?_⟩
    obtain ⟨left, rfl⟩ : ∃ left, turns = left + 1 := ⟨turns - 1, by omega⟩
    rw [followLinks, if_neg notLink]
    rfl
  · intro turns
    cases turns with
    | zero => exact .inr rfl
    | succ left =>
        rw [followLinks, if_neg notLink]
        exact .inl rfl

/-- A link leads to the path that its target is to the kernel. -/
theorem followLinks_link {node : Node} {target pointers : List UInt8}
    (stores : node.Stores (.symlink target pointers)) (turns : Nat) :
    fs.followLinks (turns + 1) (some node) =
      fs.chase (Reader.kernel.target target pointers) turns := by
  have isLink := (isSymlink_stored stores).2 ⟨target, pointers, rfl⟩
  rw [followLinks, if_pos isLink, getSymbol_stored stores]
  rfl

theorem chase_leads (holds : fs.Holds tree) {path : Path} {number : Nat}
    (leads : tree.Leads .kernel path number) :
    ∃ node inode, tree.inodes number = some inode ∧ node.Stores inode ∧
      Settles .unfinished (fs.chase path) (.ok (some node)) := by
  induction leads with
  | @here path number arrived noLink =>
      obtain ⟨found, walked, settles⟩ := find_locate holds path
      rw [arrived] at walked
      obtain ⟨node, inode, rfl, stored, stores⟩ := walked
      refine ⟨node, inode, stored, stores, settles.bind (followLinks_end ?_)⟩
      intro isLink
      obtain ⟨target, pointers, rfl⟩ := (isSymlink_stored stores).1 isLink
      exact noLink target pointers stored
  | @through path number last target pointers arrived link rest ih =>
      obtain ⟨found, walked, settles⟩ := find_locate holds path
      rw [arrived] at walked
      obtain ⟨first, inode, rfl, stored, stores⟩ := walked
      rw [link] at stored
      injection stored with same
      subst same
      obtain ⟨node, inode, stored, nodeStores, later⟩ := ih
      exact ⟨node, inode, stored, nodeStores,
        settles.bind (later.later rfl (followLinks_link stores))⟩

/-- The loop comes back with a node that the path leads to, and in no other way. -/
theorem chase_ok (holds : fs.Holds tree) {turns : Nat} {path : Path} {found : Option Node}
    (ran : fs.chase path turns = .ok found) : ∃ number, tree.Leads .kernel path number := by
  induction turns generalizing path with
  | zero =>
      unfold chase at ran
      cases first : fs.find 0 fs.root path with
      | error stop => rw [first] at ran; cases ran
      | ok node => rw [first] at ran; cases ran
  | succ turns ih =>
      obtain ⟨walk, walked, settles⟩ := find_locate holds path
      unfold chase at ran
      cases first : fs.find (turns + 1) fs.root path with
      | error stop => rw [first] at ran; cases ran
      | ok node =>
          have same := settles.eq_of_ok first
          subst same
          rw [first] at ran
          change fs.followLinks (turns + 1) node = .ok found at ran
          cases arrives : tree.locate .kernel path with
          | missing =>
              rw [arrives] at walked
              cases walked
              cases ran
          | refused =>
              rw [arrives] at walked
              cases walked
          | arrived number =>
              rw [arrives] at walked
              obtain ⟨node, inode, same, stored, stores⟩ := walked
              cases same
              by_cases isLink : node.isSymlink = true
              · obtain ⟨target, pointers, rfl⟩ := (isSymlink_stored stores).1 isLink
                rw [followLinks_link stores] at ran
                obtain ⟨last, leads⟩ := ih ran
                exact ⟨last, .through arrives stored leads⟩
              · refine ⟨number, .here arrives ?_⟩
                intro target pointers link
                rw [link] at stored
                injection stored with same
                exact isLink ((isSymlink_stored stores).2 ⟨target, pointers, same.symm⟩)

/-- Past the first walk the handler is the loop. -/
theorem openNode_chase {turns : Nat} {path : Path} (some_ : fs.find turns fs.root path ≠ .ok none) :
    fs.openNode turns path = fs.chase path turns := by
  unfold openNode chase
  cases found : fs.find turns fs.root path with
  | error stop => rfl
  | ok node =>
      cases node with
      | none => exact absurd found some_
      | some node => rfl

theorem openNode_missing (holds : fs.Holds tree) {path : Path}
    (missing : tree.locate .kernel path = .missing) :
    Settles .unfinished (fun turns => fs.openNode turns path) (.ok none) := by
  obtain ⟨found, walked, settles⟩ := find_locate holds path
  rw [missing] at walked
  cases walked
  exact settles.bind (Settles.constant _)

theorem openNode_leads (holds : fs.Holds tree) {path : Path} {number : Nat}
    (leads : tree.Leads .kernel path number) :
    ∃ node inode, tree.inodes number = some inode ∧ node.Stores inode ∧
      Settles .unfinished (fun turns => fs.openNode turns path) (.ok (some node)) := by
  obtain ⟨node, inode, stored, stores, settles⟩ := chase_leads holds leads
  refine ⟨node, inode, stored, stores, settles.congr fun turns => ?_⟩
  obtain ⟨found, walked, finds⟩ := find_locate holds path
  have arrives : ∃ first, tree.locate .kernel path = .arrived first := by
    cases leads with
    | here arrived noLink => exact ⟨_, arrived⟩
    | through arrived link rest => exact ⟨_, arrived⟩
  obtain ⟨first, arrived⟩ := arrives
  rw [arrived] at walked
  obtain ⟨reached, _, rfl, _, _⟩ := walked
  apply openNode_chase
  intro none_
  cases finds.eq_of_ok none_

/-- The handler comes back in no other case. -/
theorem openNode_ok (holds : fs.Holds tree) {turns : Nat} {path : Path} {found : Option Node}
    (ran : fs.openNode turns path = .ok found) :
    tree.locate .kernel path = .missing ∨ ∃ number, tree.Leads .kernel path number := by
  obtain ⟨walk, walked, finds⟩ := find_locate holds path
  by_cases none_ : fs.find turns fs.root path = .ok none
  · have same := finds.eq_of_ok none_
    subst same
    cases arrives : tree.locate .kernel path with
    | missing => exact .inl rfl
    | refused =>
        rw [arrives] at walked
        cases walked
    | arrived number =>
        rw [arrives] at walked
        obtain ⟨node, _, same, _, _⟩ := walked
        cases same
  · rw [openNode_chase none_] at ran
    exact .inr (chase_ok holds ran)

end FileSystem

/-! ### What the caller gets -/

section Contract

variable {Semaphore Future : Type} {config : Config} {fs : FileSystem} {tree : Tree}
  {handles : Handles File Semaphore Future} {filename : Nat} {bytes : List UInt8}

/-- The handler returns; the value is a descriptor exactly when the path is one that
the handler takes and that resolves. -/
def OpenAnswers (config : Config) (fs : FileSystem) (tree : Tree)
    (handles : Handles File Semaphore Future) (filename : Nat) (bytes : List UInt8) : Prop :=
  ∃ bound, ∀ turns ≥ bound, ∃ result, sysOpen config fs turns handles filename bytes = .ok result ∧
    (0 ≤ result.returned.toInt ↔
      refuses config filename = false ∧ ∃ number, tree.Resolves (cstring bytes) number)

def FreeFile (handles : Handles File Semaphore Future) : Prop :=
  ∃ index < Handles.NFILE, handles.files index = none

theorem setFile_returned (handles : Handles File Semaphore Future) (file : File) :
    0 ≤ (handles.setFile file).returned.toInt ↔ FreeFile handles := by
  unfold Handles.setFile
  cases found : Handles.firstFree handles.files Handles.NFILE with
  | none =>
      have full := List.find?_eq_none.1 found
      constructor
      · intro positive
        change 0 ≤ Handles.error.toInt at positive
        exact absurd positive (by decide)
      · rintro ⟨index, inTable, free⟩
        exact absurd (by rw [free]; rfl) (full index (List.mem_range.2 inTable))
  | some index =>
      obtain ⟨inTable, free⟩ := Handles.firstFree_some found
      constructor
      · intro _
        exact ⟨index, inTable, free⟩
      · intro _
        have positive := @Handles.Kind.id_nonnegative .file index inTable
        rw [← Handles.file_id] at positive
        exact positive

theorem setFile_getFile {file : File} (free : FreeFile handles) :
    (handles.setFile file).handles.getFile (handles.setFile file).returned = some file := by
  have positive := (setFile_returned handles file).2 free
  have bound : (handles.setFile file).handles.resolve =
      Handles.rebind handles.resolve (.setFile file) (handles.setFile file).returned :=
    Handles.step_resolve handles (.setFile file)
  rw [Handles.getFile_eq, bound, Handles.rebind, if_neg (by omega)]
  simp only [Handles.Operation.change, Function.update_self]
  rfl

theorem sysOpen_refused (refused : refuses config filename = true) (turns : Nat) :
    sysOpen config fs turns handles filename bytes =
      .ok { handles := handles, returned := Handles.error, delivered := none } := by
  unfold sysOpen
  rw [if_pos refused]

theorem sysOpen_taken (taken : refuses config filename = false) (turns : Nat) :
    sysOpen config fs turns handles filename bytes =
      (do
        match ← fs.openNode turns (cstring bytes) with
        | none => return { handles := handles, returned := Handles.error, delivered := none }
        | some node => return handles.setFile (.openFile (.make node.io))) := by
  unfold sysOpen
  rw [if_neg (by rw [taken]; decide)]

theorem sysOpen_missing (taken : refuses config filename = false) {turns : Nat}
    (ran : fs.openNode turns (cstring bytes) = .ok none) :
    sysOpen config fs turns handles filename bytes =
      .ok { handles := handles, returned := Handles.error, delivered := none } := by
  rw [sysOpen_taken taken, ran]
  rfl

theorem sysOpen_found (taken : refuses config filename = false) {turns : Nat} {node : Node}
    (ran : fs.openNode turns (cstring bytes) = .ok (some node)) :
    sysOpen config fs turns handles filename bytes =
      .ok (handles.setFile (.openFile (.make node.io))) := by
  rw [sysOpen_taken taken, ran]
  rfl

private theorem failed_negative : ¬ 0 ≤ Handles.error.toInt := by decide

/-- The call answers as it should when its pointer is refused, when the first walk
finds nothing where there is nothing, and when the kernel is led to a node and has a
slot for it exactly if the path resolves. -/
theorem openAnswers_iff (holds : fs.Holds tree) :
    OpenAnswers config fs tree handles filename bytes ↔
      refuses config filename = true ∨
      (tree.locate .kernel (cstring bytes) = .missing ∧
        ¬ ∃ number, tree.Resolves (cstring bytes) number) ∨
      ((∃ number, tree.Leads .kernel (cstring bytes) number) ∧
        ((∃ number, tree.Resolves (cstring bytes) number) ↔ FreeFile handles)) := by
  by_cases refused : refuses config filename = true
  · constructor
    · intro _
      exact .inl refused
    · intro _
      refine ⟨0, fun turns _ => ⟨_, sysOpen_refused refused turns, ?_⟩⟩
      simp [refused, failed_negative]
  have taken : refuses config filename = false := Bool.eq_false_iff.2 refused
  constructor
  · rintro ⟨bound, answers⟩
    right
    obtain ⟨result, ran, answer⟩ := answers bound (Nat.le_refl bound)
    cases opened : fs.openNode bound (cstring bytes) with
    | error stop =>
        rw [sysOpen_taken taken, opened] at ran
        cases ran
    | ok found =>
        rcases FileSystem.openNode_ok holds opened with missing | ⟨number, leads⟩
        · have same := (FileSystem.openNode_missing holds missing).eq_of_ok opened
          cases same
          rw [sysOpen_missing taken opened] at ran
          cases ran
          refine .inl ⟨missing, fun resolves => ?_⟩
          exact failed_negative (answer.2 ⟨taken, resolves⟩)
        · obtain ⟨node, inode, _, _, settles⟩ := FileSystem.openNode_leads holds leads
          have same := settles.eq_of_ok opened
          cases same
          rw [sysOpen_found taken opened] at ran
          cases ran
          rw [setFile_returned] at answer
          refine .inr ⟨⟨number, leads⟩, ?_⟩
          simpa [taken] using answer.symm
  · rintro (isRefused | ⟨missing, unresolved⟩ | ⟨⟨number, leads⟩, slots⟩)
    · exact absurd isRefused refused
    · obtain ⟨bound, ran⟩ := (FileSystem.openNode_missing holds missing).soon
      refine ⟨bound, fun turns enough => ⟨_, sysOpen_missing taken (ran turns enough), ?_⟩⟩
      simp only [failed_negative, unresolved, and_false]
    · obtain ⟨node, inode, _, _, settles⟩ := FileSystem.openNode_leads holds leads
      obtain ⟨bound, ran⟩ := settles.soon
      refine ⟨bound, fun turns enough => ⟨_, sysOpen_found taken (ran turns enough), ?_⟩⟩
      rw [setFile_returned, ← slots]
      simp [taken]

/-- A path that names nothing on its first walk does not resolve. -/
theorem unresolved_of_missing {reader : Reader} {path : Path}
    (missing : tree.locate reader path = .missing) (number : Nat) :
    ¬ tree.Leads reader path number := by
  intro leads
  cases leads with
  | here arrived noLink =>
      rw [missing] at arrived
      cases arrived
  | through arrived link rest =>
      rw [missing] at arrived
      cases arrived

theorem cstring_noNul (bytes : List UInt8) : 0 ∉ cstring bytes := by
  intro member
  have kept := List.mem_takeWhile_imp member
  simp at kept

theorem openAnswers_plain (holds : fs.Holds tree) (plain : tree.Plain) :
    OpenAnswers config fs tree handles filename bytes ↔
      refuses config filename = true ∨
      tree.locate .format (cstring bytes) = .missing ∨
      ((∃ number, tree.Resolves (cstring bytes) number) ∧ FreeFile handles) := by
  have noNul := cstring_noNul bytes
  have led : (∃ number, tree.Leads .kernel (cstring bytes) number) ↔
      ∃ number, tree.Resolves (cstring bytes) number :=
    exists_congr fun number => tree.leads_plain plain noNul number
  rw [openAnswers_iff holds, tree.locate_plain plain noNul, led]
  have unresolved (missing : tree.locate .format (cstring bytes) = .missing) :
      ¬ ∃ number, tree.Resolves (cstring bytes) number := by
    rintro ⟨number, resolves⟩
    exact unresolved_of_missing missing number resolves
  constructor
  · rintro (refused | ⟨missing, _⟩ | ⟨resolves, slots⟩)
    · exact .inl refused
    · exact .inr (.inl missing)
    · exact .inr (.inr ⟨resolves, slots.1 resolves⟩)
  · rintro (refused | missing | ⟨resolves, free⟩)
    · exact .inl refused
    · exact .inr (.inl ⟨missing, unresolved missing⟩)
    · exact .inr (.inr ⟨resolves, ⟨fun _ => free, fun _ => resolves⟩⟩)

end Contract

/-! ### A link to nothing -/

def linkWords : List UInt8 := 0x78 :: List.replicate 59 0

/-- A link to `x`. -/
def linkNode : Node where
  io := .ofBytes 512 [0] BlockIO.sector_positive BlockIO.sector_short BlockIO.one_small
  data := { mode := 0xA000, sizeLow := 1, nSectors := 0, pointers := linkWords }
  sized := by decide

theorem link_stores : linkNode.Stores (.symlink [0x78] linkWords) :=
  ⟨by decide, rfl, rfl, fun long => absurd long (by decide)⟩

/-- The link is called `a`, and there is no `x`. -/
def danglingTree : Tree :=
  OneName.tree (.symlink [0x78] linkWords) (by intro records same; cases same)
    (by intro target pointers same; cases same; exact ⟨by decide, fun _ => by decide⟩)

def danglingVolume : FileSystem := OneName.volume linkNode

theorem danglingVolume_holds : danglingVolume.Holds danglingTree :=
  OneName.volume_holds _ _ link_stores

def noHandles : Handles File Unit Unit :=
  { files := fun _ => none, sems := fun _ => none, children := fun _ => none }

example : sysOpen usualControllers danglingVolume 4 noHandles 0x80000000 [0x61, 0] =
    .error .nullNode := by
  rfl

end AC97Kernel
