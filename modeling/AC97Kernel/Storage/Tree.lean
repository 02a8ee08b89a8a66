/-
The tree of an ext2 file system, without the disk that it is on.

A directory is the sequence of its records.  A record whose inode is 0 is unused
and may keep the name of what it was used for.  A link has its target and the 60
bytes of its block pointers, where a target of less than 60 bytes is stored.

A `Reader` says which record a name stands for and what a link leads to.
`format` is what the format means by them; `kernel` is what kernel/ext2.cc makes
of them.
-/

import Mathlib.Algebra.Group.Nat.Defs
import Mathlib.Data.List.Nodup
import Mathlib.Data.List.TakeWhile

set_option autoImplicit false

namespace AC97Kernel

abbrev Path := List UInt8

def slash : UInt8 := 0x2F

/-- The bytes up to the first NUL. -/
def cstring (bytes : List UInt8) : List UInt8 := bytes.takeWhile fun byte => decide (byte ≠ 0)

/-- One directory record.  `padding` is what its length has beyond the name. -/
structure Record where
  inode : Nat
  fileType : UInt8
  name : List UInt8
  padding : List UInt8
  deriving DecidableEq

namespace Record

def totalSize (record : Record) : Nat := 8 + record.name.length + record.padding.length

/-- The fields of the record hold what they are to hold. -/
structure Fits (record : Record) : Prop where
  inode : record.inode < 2 ^ 32
  name : record.name.length ≤ 255
  totalSize : record.totalSize < 2 ^ 16

/-- A name that a path can have as a component. -/
structure Named (record : Record) : Prop where
  some : record.name ≠ []
  noNul : 0 ∉ record.name
  noSlash : slash ∉ record.name

def Live (record : Record) : Prop := record.inode ≠ 0

instance (record : Record) : Decidable record.Live := inferInstanceAs (Decidable (_ ≠ _))

end Record

inductive Inode where
  | file (content : List UInt8)
  | directory (records : List Record)
  | symlink (target pointers : List UInt8)
  deriving DecidableEq

/-- A target that ext2 stores as it should. -/
structure LinkFits (target pointers : List UInt8) : Prop where
  noNul : 0 ∉ target
  inline : target.length < 60 → pointers.take target.length = target

structure DirectoryFits (inodes : Nat → Option Inode) (records : List Record) : Prop where
  fits : ∀ record ∈ records, record.Fits
  named : ∀ record ∈ records, record.Live → record.Named
  present : ∀ record ∈ records, record.Live → (inodes record.inode).isSome
  distinct : ((records.filter fun record => record.Live).map Record.name).Nodup

structure Tree where
  inodes : Nat → Option Inode
  rooted : ∃ records, inodes 2 = some (.directory records)
  directories : ∀ number records, inodes number = some (.directory records) →
    DirectoryFits inodes records
  links : ∀ number target pointers, inodes number = some (.symlink target pointers) →
    LinkFits target pointers

structure Reader where
  find : List Record → List UInt8 → Nat
  target : List UInt8 → List UInt8 → Path

namespace Reader

/-- The record in use that has the name. -/
def format : Reader where
  find records name :=
    match records.find? fun record => decide (record.Live ∧ record.name = name) with
    | some record => record.inode
    | none => 0
  target target _pointers := target

/-- The last record that has the name, in use or not; a target of up to 60 bytes is
taken from the block pointers. -/
def kernel : Reader where
  find records name :=
    records.foldl (fun out record => if cstring name = cstring record.name then record.inode else out) 0
  target target pointers :=
    cstring (if target.length ≤ 60 then pointers.take target.length else target)

end Reader

/-- Where a path ends that is walked name by name.  It is `refused` when a name is
longer than 256 bytes or is looked up in something that is not a directory. -/
inductive Walk where
  | arrived (number : Nat)
  | missing
  | refused
  deriving DecidableEq

def components (path : Path) : List (List UInt8) :=
  (path.splitOnP fun byte => decide (byte = slash)).filter fun part => decide (part ≠ [])

/-! ### Components as they are read, byte by byte -/

/-- The components that are left when `part` has been read of the first. -/
def componentsFrom : List UInt8 → Path → List (List UInt8)
  | part, [] => if part = [] then [] else [part]
  | part, c :: rest =>
      if c = slash then
        if part = [] then componentsFrom [] rest else part :: componentsFrom [] rest
      else componentsFrom (part ++ [c]) rest

theorem componentsFrom_split (path : Path) (part : List UInt8) :
    componentsFrom part path =
      (path.splitOnPPrepend (fun byte => decide (byte = slash)) part.reverse).filter
        fun part => decide (part ≠ []) := by
  induction path generalizing part with
  | nil =>
      rw [componentsFrom, List.splitOnPPrepend_nil, List.reverse_reverse]
      by_cases nothing : part = []
      · simp [nothing]
      · simp [nothing]
  | cons c rest ih =>
      rw [componentsFrom, List.splitOnPPrepend_cons_eq_if, List.reverse_reverse]
      by_cases ends : c = slash
      · have start := ih []
        rw [List.reverse_nil, List.splitOnPPrepend_nil_right] at start
        rw [if_pos ends, if_pos (decide_eq_true ends), List.filter_cons, start]
        by_cases nothing : part = []
        · simp [nothing]
        · simp [nothing]
      · rw [if_neg ends, if_neg (by simpa using ends), ih, List.reverse_append]
        rfl

theorem componentsFrom_nil (path : Path) : componentsFrom [] path = components path := by
  rw [componentsFrom_split, List.reverse_nil, List.splitOnPPrepend_nil_right, components]

theorem componentsFrom_head (path : Path) {part : List UInt8} (some : part ≠ []) :
    ∃ more rest, componentsFrom part path = (part ++ more) :: rest := by
  induction path generalizing part with
  | nil => exact ⟨[], [], by rw [componentsFrom, if_neg some, List.append_nil]⟩
  | cons c rest ih =>
      rw [componentsFrom, if_neg some]
      split
      · exact ⟨[], componentsFrom [] rest, by rw [List.append_nil]⟩
      · obtain ⟨more, later, same⟩ := @ih (part ++ [c]) (by simp)
        exact ⟨[c] ++ more, later, by rw [same, List.append_assoc]⟩

theorem mem_componentsFrom {path : Path} {part name : List UInt8}
    (member : name ∈ componentsFrom part path) : ∀ byte ∈ name, byte ∈ part ∨ byte ∈ path := by
  induction path generalizing part with
  | nil =>
      rw [componentsFrom] at member
      split at member
      · cases member
      · rw [List.mem_singleton.1 member]
        exact fun byte inPart => .inl inPart
  | cons c rest ih =>
      intro byte inName
      rw [componentsFrom] at member
      split at member
      · split at member
        · rcases ih member byte inName with inNothing | inRest
          · cases inNothing
          · exact .inr (List.mem_cons_of_mem _ inRest)
        · rcases List.mem_cons.1 member with same | later
          · rw [← same]
            exact .inl inName
          · rcases ih later byte inName with inNothing | inRest
            · cases inNothing
            · exact .inr (List.mem_cons_of_mem _ inRest)
      · rcases ih member byte inName with inPart | inRest
        · rcases List.mem_append.1 inPart with before | last
          · exact .inl before
          · exact .inr (List.mem_cons.2 (.inl (List.mem_singleton.1 last)))
        · exact .inr (List.mem_cons_of_mem _ inRest)

namespace Tree

def walk (tree : Tree) (reader : Reader) : Nat → List (List UInt8) → Walk
  | number, [] => .arrived number
  | number, name :: rest =>
      if 256 < name.length then .refused
      else
        match tree.inodes number with
        | some (.directory records) =>
            if reader.find records name = 0 then .missing
            else tree.walk reader (reader.find records name) rest
        | _ => .refused

/-- A walk goes on where its first component has led. -/
theorem walk_cons (tree : Tree) (reader : Reader) (number : Nat) (name : List UInt8)
    (rest : List (List UInt8)) :
    tree.walk reader number (name :: rest) =
      match tree.walk reader number [name] with
      | .arrived next => tree.walk reader next rest
      | .missing => .missing
      | .refused => .refused := by
  simp only [walk]
  split
  · rfl
  · split
    · split <;> rfl
    · rfl

/-- Where a path ends that is walked from the root. -/
def locate (tree : Tree) (reader : Reader) (path : Path) : Walk :=
  tree.walk reader 2 (components path)

/-- The inode at the end of a path whose last link has been followed, and so on. -/
inductive Leads (tree : Tree) (reader : Reader) : Path → Nat → Prop where
  | here {path : Path} {number : Nat} (arrived : tree.locate reader path = .arrived number)
      (noLink : ∀ target pointers, tree.inodes number ≠ some (.symlink target pointers)) :
      Leads tree reader path number
  | through {path : Path} {number last : Nat} {target pointers : List UInt8}
      (arrived : tree.locate reader path = .arrived number)
      (link : tree.inodes number = some (.symlink target pointers))
      (rest : Leads tree reader (reader.target target pointers) last) :
      Leads tree reader path last

/-- What a path stands for in the format. -/
def Resolves (tree : Tree) (path : Path) (number : Nat) : Prop := tree.Leads .format path number

theorem Leads.unique {tree : Tree} {reader : Reader} {path : Path} {first second : Nat}
    (one : tree.Leads reader path first) (other : tree.Leads reader path second) :
    first = second := by
  induction one with
  | here arrived noLink =>
      cases other with
      | here arrived' noLink' =>
          rw [arrived] at arrived'
          exact Walk.arrived.inj arrived'
      | through arrived' link' rest' =>
          rw [arrived] at arrived'
          rw [← Walk.arrived.inj arrived'] at link'
          exact absurd link' (noLink _ _)
  | through arrived link rest ih =>
      cases other with
      | here arrived' noLink' =>
          rw [arrived] at arrived'
          rw [Walk.arrived.inj arrived'] at link
          exact absurd link (noLink' _ _)
      | through arrived' link' rest' =>
          rw [arrived] at arrived'
          rw [← Walk.arrived.inj arrived', link] at link'
          injection link' with same
          injection same with sameTarget samePointers
          subst sameTarget samePointers
          exact ih rest'

end Tree

/-! ### Where the kernel reads a tree as the format does -/

theorem cstring_eq {bytes : List UInt8} (noNul : 0 ∉ bytes) : cstring bytes = bytes := by
  unfold cstring
  apply List.takeWhile_eq_self_iff.2
  intro byte member
  apply decide_eq_true
  intro isNul
  rw [isNul] at member
  exact noNul member

/-- The lookup of the kernel, from a record on with what it has found before. -/
theorem Reader.kernel_fold_cases (records : List Record) (name : List UInt8) (out : Nat) :
    (records.foldl (fun out record =>
        if cstring name = cstring record.name then record.inode else out) out = out ∧
      ∀ record ∈ records, cstring name ≠ cstring record.name) ∨
    ∃ record ∈ records, cstring name = cstring record.name ∧
      records.foldl (fun out record =>
        if cstring name = cstring record.name then record.inode else out) out = record.inode := by
  induction records generalizing out with
  | nil => exact .inl ⟨rfl, by simp⟩
  | cons record records ih =>
      rw [List.foldl_cons]
      rcases ih (if cstring name = cstring record.name then record.inode else out) with
        ⟨kept, others⟩ | ⟨later, member, same, at_⟩
      · rw [kept]
        by_cases here : cstring name = cstring record.name
        · rw [if_pos here]
          exact .inr ⟨record, List.mem_cons_self, here, rfl⟩
        · rw [if_neg here]
          exact .inl ⟨rfl, List.forall_mem_cons.2 ⟨here, others⟩⟩
      · exact .inr ⟨later, List.mem_cons_of_mem _ member, same, at_⟩

/-- The record that the lookup of the kernel ends with. -/
theorem Reader.kernel_find_cases (records : List Record) (name : List UInt8) :
    (Reader.kernel.find records name = 0 ∧
      ∀ record ∈ records, cstring name ≠ cstring record.name) ∨
    ∃ record ∈ records, cstring name = cstring record.name ∧
      Reader.kernel.find records name = record.inode :=
  kernel_fold_cases records name 0

/-- The first record in use that has the name. -/
theorem Reader.format_find (records : List Record) (name : List UInt8) :
    Reader.format.find records name =
      match records.find? fun record => decide (record.Live ∧ record.name = name) with
      | some record => record.inode
      | none => 0 := rfl

/-! ### Names that unused records keep -/

section Stale

variable {records before after : List Record} {record : Record} {name : List UInt8}

/-- No unused record behind the one in use has its name. -/
def Unshadowed (records : List Record) (name : List UInt8) : Prop :=
  ∀ before record after, records = before ++ record :: after → record.Live → record.name = name →
    ∀ unused ∈ after, ¬ unused.Live → cstring unused.name ≠ name

/-- The lookup that is meant finds the only record in use that has the name. -/
theorem format_find_live (live : record.Live) (named : record.name = name)
    (member : record ∈ records)
    (distinct : ((records.filter fun record => record.Live).map Record.name).Nodup) :
    Reader.format.find records name = record.inode := by
  rw [Reader.format_find]
  cases search : records.find? fun record => decide (record.Live ∧ record.name = name) with
  | none =>
      have nobody := List.find?_eq_none.1 search record member
      exact absurd (decide_eq_true ⟨live, named⟩) nobody
  | some found =>
      have matched := List.find?_some search
      obtain ⟨liveFound, namedFound⟩ := of_decide_eq_true matched
      have both := List.inj_on_of_nodup_map distinct
        (List.mem_filter.2 ⟨List.mem_of_find?_eq_some search, decide_eq_true liveFound⟩)
        (List.mem_filter.2 ⟨member, decide_eq_true live⟩) (namedFound.trans named.symm)
      exact congrArg Record.inode both

/-- Where no record in use has the name, the kernel finds nothing either. -/
theorem kernel_find_dead (liveNames : ∀ record ∈ records, record.Live → 0 ∉ record.name)
    (noNul : 0 ∉ name) (dead : ∀ record ∈ records, record.Live → record.name ≠ name) :
    Reader.kernel.find records name = 0 := by
  rcases Reader.kernel_find_cases records name with ⟨missing, _⟩ | ⟨record, member, same, at_⟩
  · exact missing
  · rw [at_]
    by_contra live
    rw [cstring_eq noNul, cstring_eq (liveNames record member live)] at same
    exact dead record member live same.symm

/-- From a record in use on, only the names behind it count. -/
theorem kernel_find_behind (liveNames : ∀ other ∈ after, other.Live → 0 ∉ other.name)
    (noNul : 0 ∉ name) (live : record.Live) (named : record.name = name)
    (alone : ∀ other ∈ after, other.Live → other.name ≠ name) :
    Reader.kernel.find (before ++ record :: after) name = record.inode ↔
      ∀ unused ∈ after, ¬ unused.Live → cstring unused.name ≠ name := by
  have here : cstring name = cstring record.name := by rw [named]
  have folded : Reader.kernel.find (before ++ record :: after) name =
      after.foldl (fun out record =>
        if cstring name = cstring record.name then record.inode else out) record.inode := by
    change (before ++ record :: after).foldl _ 0 = _
    rw [List.foldl_append, List.foldl_cons, if_pos here]
  rw [folded]
  rcases Reader.kernel_fold_cases after name record.inode with
    ⟨kept, others⟩ | ⟨other, member, same, at_⟩
  · refine iff_of_true kept fun unused member _ sameName => ?_
    rw [cstring_eq noNul] at others
    exact others unused member sameName.symm
  · rw [cstring_eq noNul] at same
    have dead : ¬ other.Live := by
      intro liveOther
      rw [cstring_eq (liveNames other member liveOther)] at same
      exact alone other member liveOther same.symm
    have zero : other.inode = 0 := not_not.1 dead
    rw [at_, zero]
    refine iff_of_false (fun same => live same.symm) ?_
    intro clear
    exact clear other member dead same.symm

/-- Behind the record in use no other one in use has its name. -/
theorem alone_behind
    (distinct : (((before ++ record :: after).filter fun record => record.Live).map
      Record.name).Nodup) (live : record.Live) :
    ∀ other ∈ after, other.Live → other.name ≠ record.name := by
  intro other member liveOther same
  rw [List.filter_append, List.filter_cons_of_pos (by simpa using live), List.map_append,
    List.map_cons] at distinct
  have notBehind := (List.nodup_cons.1 (List.nodup_append.1 distinct).2.1).1
  apply notBehind
  rw [← same]
  exact List.mem_map_of_mem (List.mem_filter.2 ⟨member, decide_eq_true liveOther⟩)

/-- The two lookups agree on a name exactly when it is not shadowed. -/
theorem find_agrees_iff (liveNames : ∀ record ∈ records, record.Live → 0 ∉ record.name)
    (distinct : ((records.filter fun record => record.Live).map Record.name).Nodup)
    (noNul : 0 ∉ name) :
    Reader.kernel.find records name = Reader.format.find records name ↔
      Unshadowed records name := by
  have behind {before after : List Record} {record : Record}
      (split : records = before ++ record :: after) (live : record.Live)
      (named : record.name = name) :
      Reader.kernel.find records name = Reader.format.find records name ↔
        ∀ unused ∈ after, ¬ unused.Live → cstring unused.name ≠ name := by
    have member : record ∈ records := by
      rw [split]
      exact List.mem_append_right _ List.mem_cons_self
    have alone := alone_behind (split ▸ distinct) live
    rw [named] at alone
    rw [format_find_live live named member distinct]
    subst split
    exact kernel_find_behind
      (fun other inAfter => liveNames other
        (List.mem_append_right _ (List.mem_cons_of_mem _ inAfter)))
      noNul live named alone
  constructor
  · intro agrees before record after split live named
    exact (behind split live named).1 agrees
  · intro clear
    by_cases used : ∃ record ∈ records, record.Live ∧ record.name = name
    · obtain ⟨record, member, live, named⟩ := used
      obtain ⟨before, after, split⟩ := List.append_of_mem member
      exact (behind split live named).2 (clear before record after split live named)
    · have dead : ∀ record ∈ records, record.Live → record.name ≠ name :=
        fun record member live named => used ⟨record, member, live, named⟩
      have nobody : records.find? (fun record => decide (record.Live ∧ record.name = name)) =
          none := by
        apply List.find?_eq_none.2
        intro record member matched
        have both := of_decide_eq_true matched
        exact dead record member both.1 both.2
      rw [kernel_find_dead liveNames noNul dead, Reader.format_find, nobody]

/-- No unused record keeps the name of one in use. -/
def NoStaleName (records : List Record) : Prop :=
  ∀ unused ∈ records, ¬ unused.Live → ∀ record ∈ records, record.Live →
    cstring unused.name ≠ record.name

theorem find_agrees {inodes : Nat → Option Inode} (directory : DirectoryFits inodes records)
    (noStale : NoStaleName records) (noNul : 0 ∉ name) :
    Reader.kernel.find records name = Reader.format.find records name := by
  apply (find_agrees_iff (fun record member live => (directory.named record member live).noNul)
    directory.distinct noNul).2
  intro before record after split live named unused member dead same
  have usedHere : record ∈ records := by
    rw [split]
    exact List.mem_append_right _ List.mem_cons_self
  have unusedHere : unused ∈ records := by
    rw [split]
    exact List.mem_append_right _ (List.mem_cons_of_mem _ member)
  exact noStale unused unusedHere dead record usedHere live (same.trans named.symm)

end Stale

namespace Tree

/-- The trees that the kernel reads as the format means them. -/
structure Plain (tree : Tree) : Prop where
  noStale : ∀ number records, tree.inodes number = some (.directory records) → NoStaleName records
  noSixty : ∀ number target pointers, tree.inodes number = some (.symlink target pointers) →
    target.length ≠ 60

variable {tree : Tree}

theorem walk_plain (plain : tree.Plain) {names : List (List UInt8)}
    (noNul : ∀ name ∈ names, 0 ∉ name) (number : Nat) :
    tree.walk .kernel number names = tree.walk .format number names := by
  induction names generalizing number with
  | nil => rfl
  | cons name rest ih =>
      have later (next : Nat) := ih (fun other member => noNul other (List.mem_cons_of_mem _ member)) next
      simp only [walk]
      split
      · rfl
      · split
        · rename_i records stored
          rw [find_agrees (tree.directories number records stored) (plain.noStale number records stored)
            (noNul name List.mem_cons_self), later]
        · rfl

theorem components_noNul {path : Path} (noNul : 0 ∉ path) : ∀ name ∈ components path, 0 ∉ name := by
  intro name member inName
  rw [← componentsFrom_nil] at member
  rcases mem_componentsFrom member 0 inName with inNothing | inPath
  · cases inNothing
  · exact noNul inPath

theorem locate_plain (plain : tree.Plain) {path : Path} (noNul : 0 ∉ path) :
    tree.locate .kernel path = tree.locate .format path :=
  walk_plain plain (components_noNul noNul) 2

theorem target_plain (plain : tree.Plain) {number : Nat} {target pointers : List UInt8}
    (link : tree.inodes number = some (.symlink target pointers)) :
    Reader.kernel.target target pointers = target := by
  have fits := tree.links number target pointers link
  have notSixty := plain.noSixty number target pointers link
  have read : (if target.length ≤ 60 then pointers.take target.length else target) = target := by
    split
    · exact fits.inline (by omega)
    · rfl
  change cstring (if target.length ≤ 60 then pointers.take target.length else target) = target
  rw [read, cstring_eq fits.noNul]

/-- In a plain tree the kernel is led where the path is to lead. -/
theorem leads_plain (plain : tree.Plain) {path : Path} (noNul : 0 ∉ path) (number : Nat) :
    tree.Leads .kernel path number ↔ tree.Resolves path number := by
  constructor
  · intro leads
    induction leads with
    | here arrived noLink =>
        rw [locate_plain plain noNul] at arrived
        exact .here arrived noLink
    | through arrived link rest ih =>
        rw [locate_plain plain noNul] at arrived
        rw [target_plain plain link] at ih
        exact .through arrived link (ih (tree.links _ _ _ link).noNul)
  · intro leads
    unfold Resolves at leads
    induction leads with
    | here arrived noLink =>
        rw [← locate_plain plain noNul] at arrived
        exact .here arrived noLink
    | through arrived link rest ih =>
        rw [← locate_plain plain noNul] at arrived
        have later := ih (tree.links _ _ _ link).noNul
        change tree.Leads .kernel _ _ at later
        refine .through arrived link ?_
        rw [target_plain plain link]
        exact later

end Tree

end AC97Kernel
