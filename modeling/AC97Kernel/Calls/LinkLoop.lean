/-
When the loop over links of the open system call ends.

Each turn walks from the root to what a link says and looks at what is there.  The
links that it meets depend on the first one only, and there are finitely many inode
numbers, so that the loop ends unless it meets a link again.
-/

import AC97Kernel.Calls.Open
import AC97Kernel.Library.Orbits

set_option autoImplicit false

namespace AC97Kernel

open Turns Orbits Relation

namespace Tree

/-- Where the link with a number leads. -/
def nextLink (tree : Tree) (number : Nat) : Option Nat :=
  match tree.inodes number with
  | some (.symlink target pointers) =>
      match tree.locate .kernel (Reader.kernel.target target pointers) with
      | .arrived next => some next
      | _ => none
  | _ => none

variable {tree : Tree} {number next : Nat} {target pointers : List UInt8}

theorem nextLink_link (link : tree.inodes number = some (.symlink target pointers))
    (arrived : tree.locate .kernel (Reader.kernel.target target pointers) = .arrived next) :
    tree.nextLink number = some next := by
  unfold nextLink
  simp only [link, arrived]

theorem nextLink_lost (link : tree.inodes number = some (.symlink target pointers))
    (lost : ∀ next, tree.locate .kernel (Reader.kernel.target target pointers) ≠ .arrived next) :
    tree.nextLink number = none := by
  unfold nextLink
  cases arrives : tree.locate .kernel (Reader.kernel.target target pointers) with
  | arrived next => exact absurd arrives (lost next)
  | missing => simp only [link, arrives]
  | refused => simp only [link, arrives]

theorem nextLink_end
    (noLink : ∀ target pointers, tree.inodes number ≠ some (.symlink target pointers)) :
    tree.nextLink number = none := by
  unfold nextLink
  split
  · rename_i target pointers link
    exact absurd link (noLink target pointers)
  · rfl

/-- A walk ends at a number that a record can hold. -/
theorem walk_word {names : List (List UInt8)} {last : Nat} (word : number < 2 ^ 32)
    (arrives : tree.walk .kernel number names = .arrived last) : last < 2 ^ 32 := by
  induction names generalizing number with
  | nil =>
      cases arrives
      exact word
  | cons name rest ih =>
      rw [walk] at arrives
      split at arrives
      · cases arrives
      · split at arrives
        · rename_i records stored
          split at arrives
          · cases arrives
          · rename_i found
            apply ih _ arrives
            rcases Reader.kernel_find_cases records name with
              ⟨missing, _⟩ | ⟨record, member, _, at_⟩
            · exact absurd missing found
            · rw [at_]
              exact ((tree.directories number records stored).fits record member).inode
        · cases arrives

theorem nextLink_word (steps : tree.nextLink number = some next) : next < 2 ^ 32 := by
  unfold nextLink at steps
  split at steps
  · rename_i target pointers link
    cases arrives : tree.locate .kernel (Reader.kernel.target target pointers) with
    | arrived last =>
        rw [arrives] at steps
        cases steps
        exact walk_word (by decide) arrives
    | missing =>
        rw [arrives] at steps
        cases steps
    | refused =>
        rw [arrives] at steps
        cases steps
  · cases steps

end Tree

namespace FileSystem

variable {fs : FileSystem} {tree : Tree} {path : Path}

theorem followLinks_null : Settles .unfinished (fun turns => fs.followLinks turns none)
    (.error .nullNode) := by
  constructor
  · refine ⟨1, fun turns enough => ?_⟩
    obtain ⟨left, rfl⟩ : ∃ left, turns = left + 1 := ⟨turns - 1, by omega⟩
    rfl
  · intro turns
    cases turns with
    | zero => exact .inr rfl
    | succ left => exact .inl rfl

/-- A path that leads to nothing stops the loop. -/
theorem chase_lost (holds : fs.Holds tree)
    (lost : ∀ number, tree.locate .kernel path ≠ .arrived number) :
    ∃ stop, stop ≠ .unfinished ∧ Settles .unfinished (fs.chase path) (.error stop) := by
  obtain ⟨found, walked, settles⟩ := find_locate holds path
  cases arrives : tree.locate .kernel path with
  | arrived number => exact absurd arrives (lost number)
  | missing =>
      rw [arrives] at walked
      cases walked
      exact ⟨.nullNode, by decide, settles.bind followLinks_null⟩
  | refused =>
      rw [arrives] at walked
      cases walked
      exact ⟨.panicked, by decide, settles.bind_error⟩

/-- From links that end the loop comes to an end. -/
theorem chase_of_ends (holds : fs.Holds tree) {number : Nat} (ends : Ends tree.nextLink number)
    (arrived : tree.locate .kernel path = .arrived number) :
    ∃ result, result ≠ .error .unfinished ∧ Settles .unfinished (fs.chase path) result := by
  induction ends generalizing path with
  | intro number _ ih =>
      obtain ⟨found, walked, settles⟩ := find_locate holds path
      rw [arrived] at walked
      obtain ⟨node, inode, rfl, stored, stores⟩ := walked
      by_cases isLink : node.isSymlink = true
      · obtain ⟨target, pointers, rfl⟩ := (isSymlink_stored stores).1 isLink
        by_cases goesOn : ∃ next,
            tree.locate .kernel (Reader.kernel.target target pointers) = .arrived next
        · obtain ⟨next, arrives⟩ := goesOn
          obtain ⟨result, finished, later⟩ := ih next (Tree.nextLink_link stored arrives) arrives
          exact ⟨result, finished, settles.bind (later.later rfl (followLinks_link stores))⟩
        · obtain ⟨stop, finished, later⟩ :=
            chase_lost holds fun next arrives => goesOn ⟨next, arrives⟩
          refine ⟨.error stop, fun same => finished (Except.error.inj same), ?_⟩
          exact settles.bind (later.later rfl (followLinks_link stores))
      · exact ⟨.ok (some node), fun same => (by cases same), settles.bind (followLinks_end isLink)⟩

/-- A loop that has come to an end has met links that end. -/
theorem ends_of_chase (holds : fs.Holds tree) {number turns : Nat}
    (arrived : tree.locate .kernel path = .arrived number)
    (finished : fs.chase path turns ≠ .error .unfinished) : Ends tree.nextLink number := by
  induction turns generalizing path number with
  | zero =>
      unfold chase at finished
      cases first : fs.find 0 fs.root path with
      | error stop =>
          obtain ⟨found, walked, settles⟩ := find_locate holds path
          rw [arrived] at walked
          obtain ⟨node, inode, rfl, stored, stores⟩ := walked
          rw [first] at finished
          rcases settles.only 0 with same | stopped
          · rw [first] at same
            cases same
          · rw [first] at stopped
            cases stopped
            exact absurd rfl finished
      | ok node =>
          rw [first] at finished
          exact absurd rfl finished
  | succ turns ih =>
      obtain ⟨found, walked, settles⟩ := find_locate holds path
      rw [arrived] at walked
      obtain ⟨node, inode, rfl, stored, stores⟩ := walked
      rcases settles.only (turns + 1) with same | stopped
      · have loop : fs.chase path (turns + 1) = fs.followLinks (turns + 1) (some node) := by
          unfold chase
          rw [same]
          rfl
        rw [loop] at finished
        by_cases isLink : node.isSymlink = true
        · obtain ⟨target, pointers, rfl⟩ := (isSymlink_stored stores).1 isLink
          rw [followLinks_link stores] at finished
          by_cases goesOn : ∃ next,
              tree.locate .kernel (Reader.kernel.target target pointers) = .arrived next
          · obtain ⟨next, arrives⟩ := goesOn
            exact .turn (Tree.nextLink_link stored arrives) (ih arrives finished)
          · exact .stop (Tree.nextLink_lost stored fun next arrives => goesOn ⟨next, arrives⟩)
        · apply Ends.stop
          apply Tree.nextLink_end
          intro target pointers link
          rw [link] at stored
          injection stored with same
          exact isLink ((isSymlink_stored stores).2 ⟨target, pointers, same.symm⟩)
      · unfold chase at finished
        rw [stopped] at finished
        exact absurd rfl finished

/-- The links that the path leads to do not come back to one of them. -/
def NoCycle (tree : Tree) (path : Path) : Prop :=
  ∀ first, tree.locate .kernel path = .arrived first → ¬ Circles tree.nextLink first

theorem openNode_ends (holds : fs.Holds tree) :
    (∃ turns, fs.openNode turns path ≠ .error .unfinished) ↔ NoCycle tree path := by
  by_cases goesOn : ∃ first, tree.locate .kernel path = .arrived first
  · obtain ⟨first, arrived⟩ := goesOn
    have only : NoCycle tree path ↔ ¬ Circles tree.nextLink first := by
      constructor
      · intro straight
        exact straight first arrived
      · intro straight other arrivedOther
        rw [arrived] at arrivedOther
        cases arrivedOther
        exact straight
    have finite : {other | ReflTransGen (Steps tree.nextLink) first other}.Finite :=
      reached_finite (Tree.walk_word (by decide) arrived) fun _ _ steps => Tree.nextLink_word steps
    have loop (turns : Nat) : fs.openNode turns path = fs.chase path turns := by
      apply openNode_chase
      intro none_
      obtain ⟨found, walked, settles⟩ := find_locate holds path
      rw [arrived] at walked
      obtain ⟨node, inode, rfl, _, _⟩ := walked
      cases settles.eq_of_ok none_
    rw [only, ← ends_iff_straight finite]
    simp only [loop]
    constructor
    · rintro ⟨turns, finished⟩
      exact ends_of_chase holds arrived finished
    · intro ends
      obtain ⟨result, finished, settles⟩ := chase_of_ends holds ends arrived
      obtain ⟨bound, ran⟩ := settles.soon
      exact ⟨bound, by rw [ran bound (Nat.le_refl bound)]; exact finished⟩
  · refine iff_of_true ?_ fun first arrived => absurd ⟨first, arrived⟩ goesOn
    obtain ⟨found, walked, settles⟩ := find_locate holds path
    obtain ⟨bound, ran⟩ := settles.soon
    refine ⟨bound, ?_⟩
    unfold openNode
    rw [ran bound (Nat.le_refl bound)]
    cases arrives : tree.locate .kernel path with
    | arrived first => exact absurd ⟨first, arrives⟩ goesOn
    | missing =>
        rw [arrives] at walked
        cases walked
        exact fun same => by cases same
    | refused =>
        rw [arrives] at walked
        cases walked
        exact fun same => by cases same

end FileSystem

section Handler

variable {Semaphore Future : Type} {config : Config} {fs : FileSystem} {tree : Tree}
  {handles : Handles File Semaphore Future} {filename : Nat} {bytes : List UInt8}

/-- The call ends, whatever the links of the tree, exactly when its pointer is refused or
no link that its path leads to is met again. -/
theorem open_ends (holds : fs.Holds tree) :
    (∃ turns, sysOpen config fs turns handles filename bytes ≠ .error .unfinished) ↔
      refuses config filename = true ∨ FileSystem.NoCycle tree (cstring bytes) := by
  by_cases refused : refuses config filename = true
  · refine iff_of_true ⟨0, ?_⟩ (.inl refused)
    rw [sysOpen_refused refused]
    exact fun same => by cases same
  · have taken : refuses config filename = false := Bool.eq_false_iff.2 refused
    have loop (turns : Nat) :
        sysOpen config fs turns handles filename bytes = .error .unfinished ↔
          fs.openNode turns (cstring bytes) = .error .unfinished := by
      rw [sysOpen_taken taken]
      apply bind_error_iff
      intro node impossible
      cases node with
      | none => cases impossible
      | some node => cases impossible
    simp only [ne_eq, loop, refused, Bool.false_eq_true, false_or]
    exact FileSystem.openNode_ends holds

/-- The link that leads to nothing. -/
theorem open_ends_sample :
    ∃ turns, sysOpen usualControllers danglingVolume turns noHandles 0x80000000 [0x61, 0] ≠
      .error .unfinished := by
  refine (open_ends danglingVolume_holds).2 (.inr ?_)
  intro first arrived
  have arrives : danglingTree.locate .kernel (cstring [0x61, 0]) = .arrived 11 := by decide
  rw [arrives] at arrived
  cases arrived
  have stops : danglingTree.nextLink 11 = none := by decide
  exact (Ends.stop stops).not_circles

end Handler

/-! ### A link to itself -/

def selfWords : List UInt8 := 0x61 :: List.replicate 59 0

/-- A link to `a`. -/
def selfNode : Node where
  io := .ofBytes 512 [0] BlockIO.sector_positive BlockIO.sector_short BlockIO.one_small
  data := { mode := 0xA000, sizeLow := 1, nSectors := 0, pointers := selfWords }
  sized := by decide

theorem self_stores : selfNode.Stores (.symlink [0x61] selfWords) :=
  ⟨by decide, rfl, rfl, fun long => absurd long (by decide)⟩

/-- The link is called `a`. -/
def selfTree : Tree :=
  OneName.tree (.symlink [0x61] selfWords) (by intro records same; cases same)
    (by intro target pointers same; cases same; exact ⟨by decide, fun _ => by decide⟩)

def selfVolume : FileSystem := OneName.volume selfNode

theorem selfVolume_holds : selfVolume.Holds selfTree := OneName.volume_holds _ _ self_stores

theorem open_of_link_to_itself :
    ¬ ∃ turns, sysOpen usualControllers selfVolume turns noHandles 0x80000000 [0x61, 0] ≠
      .error .unfinished := by
  have taken : refuses usualControllers 0x80000000 = false := by decide
  have path : cstring [0x61, 0] = [0x61] := by decide
  have arrives : selfTree.locate .kernel [0x61] = .arrived 11 := by decide
  have stays : selfTree.nextLink 11 = some 11 := by decide
  rintro ⟨turns, finished⟩
  apply finished
  rw [sysOpen_taken taken, path]
  have loops : selfVolume.openNode turns [0x61] = .error .unfinished := by
    by_contra ended
    have straight := (FileSystem.openNode_ends selfVolume_holds).1 ⟨turns, ended⟩
    exact straight 11 arrives ⟨11, .refl, .single stays⟩
  rw [loops]
  rfl

end AC97Kernel
