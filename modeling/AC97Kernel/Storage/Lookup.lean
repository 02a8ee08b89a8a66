/-
Paths, component by component.

`find` of kernel/ext2.h copies a component out of the path and looks it up before it
goes on.  That comes to a fold of `lookup` over the components, which do not depend
on how many slashes stand between them.
-/

import AC97Kernel.Storage.Traversal

set_option autoImplicit false

namespace AC97Kernel

open Turns

/-! ### Slashes -/

theorem componentsFrom_append (before after : Path) (part : List UInt8) :
    componentsFrom part (before ++ slash :: after) =
      componentsFrom part before ++ componentsFrom [] after := by
  induction before generalizing part with
  | nil =>
      rw [List.nil_append, componentsFrom, componentsFrom, if_pos rfl]
      by_cases nothing : part = []
      · rw [if_pos nothing, if_pos nothing, List.nil_append]
      · rw [if_neg nothing, if_neg nothing, List.singleton_append]
  | cons c before ih =>
      rw [List.cons_append, componentsFrom, componentsFrom]
      by_cases ends : c = slash
      · by_cases nothing : part = []
        · rw [if_pos ends, if_pos ends, if_pos nothing, if_pos nothing, ih]
        · rw [if_pos ends, if_pos ends, if_neg nothing, if_neg nothing, ih, List.cons_append]
      · rw [if_neg ends, if_neg ends, ih]

theorem components_append (before after : Path) :
    components (before ++ slash :: after) = components before ++ components after := by
  rw [← componentsFrom_nil, ← componentsFrom_nil, ← componentsFrom_nil, componentsFrom_append]

@[simp] theorem components_nil : components [] = [] := by
  rw [← componentsFrom_nil]
  rfl

theorem components_leading (path : Path) : components (slash :: path) = components path := by
  have joined := components_append [] path
  rwa [components_nil, List.nil_append, List.nil_append] at joined

theorem components_trailing (path : Path) : components (path ++ [slash]) = components path := by
  rw [components_append, components_nil, List.append_nil]

theorem components_repeated (before after : Path) :
    components (before ++ slash :: slash :: after) = components (before ++ slash :: after) := by
  rw [components_append, components_append, components_leading]

namespace FileSystem

variable {fs : FileSystem} {tree : Tree}

/-- One component on: the lookup in a directory, unless there is none to look in. -/
def lookup (fs : FileSystem) (turns : Nat) : Option Node → List UInt8 → Except Stop (Option Node)
  | none, _ => .ok none
  | some current, part => fs.findPart turns current part

theorem foldlM_none (turns : Nat) (parts : List (List UInt8)) :
    parts.foldlM (fs.lookup turns) none = .ok none := by
  induction parts with
  | nil => rfl
  | cons part parts ih =>
      rw [List.foldlM_cons]
      exact ih

/-- What has been read of a component belongs to the first that is looked up. -/
theorem findFrom_fold (turns : Nat) (current : Node) (part : List UInt8) (path : Path)
    (short : ∀ name ∈ componentsFrom part path, name.length ≤ 256) :
    fs.findFrom turns current part path =
      (componentsFrom part path).foldlM (fs.lookup turns) (some current) := by
  induction path generalizing current part with
  | nil =>
      rw [findFrom, componentsFrom]
      by_cases nothing : part = []
      · rw [if_pos nothing, if_pos nothing]
        rfl
      · rw [if_neg nothing, if_neg nothing, List.foldlM_cons]
        change fs.findPart turns current part = fs.findPart turns current part >>= pure
        rw [bind_pure]
  | cons c rest ih =>
      rw [findFrom]
      rw [componentsFrom] at short ⊢
      by_cases ends : c = slash
      · rw [if_pos ends] at short ⊢
        rw [if_pos ends]
        by_cases nothing : part = []
        · rw [if_pos nothing] at short ⊢
          rw [if_pos nothing]
          exact ih current [] short
        · rw [if_neg nothing] at short ⊢
          rw [if_neg nothing, List.foldlM_cons]
          change fs.findPart turns current part >>= _ = fs.findPart turns current part >>= _
          cases found : fs.findPart turns current part with
          | error stop => rfl
          | ok reached =>
              cases reached with
              | none => exact (foldlM_none turns _).symm
              | some next =>
                  exact ih next [] fun name member => short name (List.mem_cons_of_mem _ member)
      · rw [if_neg ends] at short ⊢
        obtain ⟨more, later, same⟩ := @componentsFrom_head rest (part ++ [c]) (by simp)
        have head := short (part ++ [c] ++ more) (by rw [same]; exact List.mem_cons_self)
        have room : part.length < 256 := by
          rw [List.length_append, List.length_append, List.length_singleton] at head
          omega
        rw [if_neg ends, ensure_true room]
        exact ih current (part ++ [c]) short

theorem find_fold (turns : Nat) (start : Node) {path : Path}
    (short : ∀ name ∈ components path, name.length ≤ 256) :
    fs.find turns start path = (components path).foldlM (fs.lookup turns) (some start) := by
  rw [← componentsFrom_nil] at short ⊢
  exact findFrom_fold turns start [] path short

/-- Each component is looked up in a directory, if in anything. -/
def Passes (tree : Tree) (number : Nat) (names : List (List UInt8)) : Prop :=
  ∀ before name after, names = before ++ name :: after →
    ∀ reached, tree.walk .kernel number before = .arrived reached →
      ∃ records, tree.inodes reached = some (.directory records)

theorem walk_passes {names : List (List UInt8)} {number : Nat}
    (short : ∀ name ∈ names, name.length ≤ 256) (passes : Passes tree number names) :
    tree.walk .kernel number names ≠ .refused := by
  induction names generalizing number with
  | nil => exact fun same => by cases same
  | cons name rest ih =>
      obtain ⟨records, stored⟩ := passes [] name rest rfl number rfl
      have fits : ¬ 256 < name.length := by
        have bound := short name List.mem_cons_self
        omega
      have first (next : Nat) (found : Reader.kernel.find records name = next) (some : next ≠ 0)
          (before : List (List UInt8)) :
          tree.walk .kernel number (name :: before) = tree.walk .kernel next before := by
        simp only [Tree.walk, if_neg fits, stored, found, if_neg some]
      by_cases missing : Reader.kernel.find records name = 0
      · simp only [Tree.walk, if_neg fits, stored, if_pos missing]
        exact fun same => by cases same
      · rw [first _ rfl missing]
        apply ih (fun other member => short other (List.mem_cons_of_mem _ member))
        intro before other after split reached arrives
        apply passes (name :: before) other after (by rw [split, List.cons_append])
        rw [first _ rfl missing]
        exact arrives

/-- The result of a lookup: the node that all components lead to, or none. -/
def Finds (tree : Tree) (found : Option Node) : Walk → Prop
  | .arrived number => ∃ node inode, found = some node ∧ tree.inodes number = some inode ∧
      node.Stores inode
  | .missing => found = none
  | .refused => False

theorem finds_of_walked {found : Except Stop (Option Node)} {walk : Walk}
    (walked : Walked tree found walk) (goes : walk ≠ .refused) :
    ∃ result, found = .ok result ∧ Finds tree result walk := by
  cases walk with
  | arrived number =>
      obtain ⟨node, inode, same, stored, stores⟩ := walked
      exact ⟨some node, same, node, inode, rfl, stored, stores⟩
  | missing => exact ⟨none, walked, rfl⟩
  | refused => exact absurd rfl goes

/-- Where a path leads from a node: `find` is the fold over its components, and ends with
the node that they lead to or with none.  Slashes at either end and repeated ones do not
matter. -/
theorem find_componentwise (holds : fs.Holds tree) {number : Nat} {start : Node} {inode : Inode}
    (stored : tree.inodes number = some inode) (stores : start.Stores inode) {path : Path}
    (short : ∀ name ∈ components path, name.length ≤ 256)
    (passes : Passes tree number (components path)) :
    (∀ turns, fs.find turns start path =
      (components path).foldlM (fs.lookup turns) (some start)) ∧
    (∃ found, Settles .unfinished (fun turns => fs.find turns start path) (.ok found) ∧
      Finds tree found (tree.walk .kernel number (components path))) ∧
    (components path = [] → ∀ turns, fs.find turns start path = .ok (some start)) ∧
    ∀ other, components other = components path ∨ other = slash :: path ∨ other = path ++ [slash] ∨
        (∃ before after, path = before ++ slash :: after ∧
          other = before ++ slash :: slash :: after) →
      ∀ turns, fs.find turns start other = fs.find turns start path := by
  refine ⟨fun turns => find_fold turns start short, ?_, ?_, ?_⟩
  · have nothingRead : ([] : List UInt8).length ≤ 256 := Nat.zero_le 256
    obtain ⟨found, walked, settles⟩ := findFrom_walk holds path stored stores nothingRead
    rw [componentsFrom_nil] at walked
    obtain ⟨result, rfl, finds⟩ := finds_of_walked walked (walk_passes short passes)
    exact ⟨result, settles, finds⟩
  · intro nothing turns
    rw [find_fold turns start short, nothing]
    rfl
  · intro other slashes turns
    have same : components other = components path := by
      rcases slashes with same | rfl | rfl | ⟨before, after, rfl, rfl⟩
      · exact same
      · exact components_leading path
      · exact components_trailing path
      · exact components_repeated before after
    rw [find_fold turns start short, find_fold turns start (same ▸ short), same]

end FileSystem

/-! ### A path through a file -/

theorem leaf_stores : (shelf 0x8000 [0] BlockIO.one_small).Stores (.file [0]) :=
  ⟨by decide, shelf_serves _ _ _⟩

theorem leaf_apart (records : List Record) : Inode.file [0] ≠ .directory records := by
  intro same
  cases same

theorem leaf_links (target pointers : List UInt8) (link : Inode.file [0] = .symlink target pointers) :
    LinkFits target pointers := by
  cases link

/-- The file is called `a`. -/
def leafTree : Tree := OneName.tree (.file [0]) leaf_apart leaf_links

def leafVolume : FileSystem := OneName.volume (shelf 0x8000 [0] BlockIO.one_small)

theorem leafVolume_holds : leafVolume.Holds leafTree := OneName.volume_holds _ _ leaf_stores

/-- The path `//a/`. -/
theorem find_componentwise_sample :
    ∃ found, Settles .unfinished
        (fun turns => leafVolume.find turns leafVolume.root [slash, slash, 0x61, slash])
        (.ok found) ∧
      FileSystem.Finds leafTree found
        (leafTree.walk .kernel 2 (components [slash, slash, 0x61, slash])) := by
  have one : components [slash, slash, 0x61, slash] = [[0x61]] := by decide
  have short : ∀ name ∈ components [slash, slash, 0x61, slash], name.length ≤ 256 := by decide
  have stored : leafTree.inodes 2 = some (.directory [OneName.record]) := rfl
  have passes : FileSystem.Passes leafTree 2 (components [slash, slash, 0x61, slash]) := by
    intro before name after split reached arrives
    rw [one] at split
    cases before with
    | nil =>
        cases arrives
        exact ⟨[OneName.record], rfl⟩
    | cons first rest =>
        have tooLong := congrArg List.length split
        simp at tooLong
  exact (FileSystem.find_componentwise leafVolume_holds stored OneName.root_stores short passes).2.1

/-- The components `a` and `x`.  Only the first exists, and nothing stands before it. -/
theorem find_below_file :
    leafVolume.Holds leafTree ∧
    (∀ name ∈ components [0x61, slash, 0x78], name.length ≤ 256) ∧
    (∀ before name after, components [0x61, slash, 0x78] = before ++ name :: after →
      (∃ last, leafTree.walk .kernel 2 (before ++ [name]) = .arrived last) → before = []) ∧
    ¬ ∃ found, Settles .unfinished
      (fun turns => leafVolume.find turns leafVolume.root [0x61, slash, 0x78]) (.ok found) := by
  have two : components [0x61, slash, 0x78] = [[0x61], [0x78]] := by decide
  refine ⟨leafVolume_holds, by decide, ?_, ?_⟩
  · intro before name after split exists_
    rw [two] at split
    cases before with
    | nil => rfl
    | cons first rest =>
        cases rest with
        | nil =>
            cases split
            obtain ⟨last, arrived⟩ := exists_
            have refused : leafTree.walk .kernel 2 [[0x61], [0x78]] = .refused := by decide
            rw [List.singleton_append, refused] at arrived
            cases arrived
        | cons second rest =>
            have tooLong := congrArg List.length split
            simp at tooLong
  · rintro ⟨found, settles⟩
    obtain ⟨walk, walked, finds⟩ := FileSystem.find_locate leafVolume_holds [0x61, slash, 0x78]
    have refused : leafTree.locate .kernel [0x61, slash, 0x78] = .refused := by decide
    rw [refused] at walked
    cases walked
    cases finds.unique settles

end AC97Kernel
