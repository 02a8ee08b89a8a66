/-
The offset of an open file over whole histories.

An open file may be shared, by a parent and the children it has forked for
example: then the calls of all of them move one offset.  `fileCalls` takes them
in the order in which they come.
-/

import AC97Kernel.Library.StepMachine
import AC97Kernel.Storage.OpenFile
import Mathlib.Algebra.GroupWithZero.Nat

set_option autoImplicit false

namespace AC97Kernel

open Slices

inductive FileCall where
  | seek (offset : Nat)
  | read (n : Nat)

/-- An open file under calls whose counts an `int` can hold. -/
def fileCalls : StepMachine OpenFileStruct FileCall where
  allowed _ call :=
    match call with
    | .seek offset => offset < 2 ^ 32
    | .read n => n < 2 ^ 31
  step file call :=
    match call with
    | .seek offset => some (file.seek offset).2
    | .read n => some (file.read n).2

namespace OpenFileStruct

variable {file next : OpenFileStruct} {content : List UInt8} {position n : Nat}

/-- One read after the other: all that they deliver, and the file behind them. -/
def readEach : OpenFileStruct → List Nat → List UInt8 × OpenFileStruct
  | file, [] => ([], file)
  | file, n :: counts =>
      let first := file.read n
      let rest := readEach first.2 counts
      (first.1.bytes ++ rest.1, rest.2)

private theorem toInt_small {count : Nat} (small : count < 2 ^ 31) : toInt count = count := by
  unfold toInt
  rw [Int.bmod_def]
  split <;> omega

theorem seek_eq (file : OpenFileStruct) (offset : Nat) :
    file.seek offset =
      if file.size < offset then (2 ^ 32 - 1, file)
      else (offset, { file with myOffset := offset }) := rfl

/-- A read whose count fits an `int` returns what it delivers. -/
theorem Stands.read_eq (stands : file.Stands content position) (small : n < 2 ^ 31) :
    file.read n =
      ({ bytes := slice content position n
         outcome := .returned (min n (content.length - position) : Nat) },
        { file with myOffset := position + min n (content.length - position) }) := by
  have inside := stands.inside
  have offset := stands.offset
  have reads := read_serves (n := n) stands.serves (by omega)
  rw [offset, toInt_small (by omega)] at reads
  exact reads

/-- After a seek that succeeds the file stands where it was sent. -/
theorem Stands.seek (stands : file.Stands content position) (offset : Nat) :
    ∃ reached, (file.seek offset).2.Stands content reached := by
  have size := stands.serves.size
  rw [seek_eq]
  by_cases past : file.size < offset
  · rw [if_pos past]
    exact ⟨position, stands⟩
  · rw [if_neg past]
    refine ⟨offset, stands.serves, rfl, ?_⟩
    rw [size]
    exact Nat.le_of_not_lt past

/-- What one call preserves. -/
theorem Stands.call {call : FileCall} (stands : ∃ position, file.Stands content position)
    (stepped : fileCalls.step file call = some next) :
    ∃ position, next.Stands content position := by
  obtain ⟨position, stands⟩ := stands
  cases call with
  | seek offset =>
      cases stepped
      exact stands.seek offset
  | read n =>
      cases stepped
      obtain ⟨_, next, reads, stands⟩ := stands.read n
      rw [reads]
      exact ⟨_, stands⟩

/-- Consecutive reads deliver one stretch of the file. -/
theorem Stands.readEach (stands : file.Stands content position) (counts : List Nat) :
    (file.readEach counts).1 = slice content position counts.sum ∧
      (file.readEach counts).2.Stands content
        (position + min counts.sum (content.length - position)) := by
  induction counts generalizing file position with
  | nil =>
      rw [List.sum_nil, Nat.zero_min, slice_none]
      exact ⟨rfl, stands⟩
  | cons n counts ih =>
      obtain ⟨_, next, reads, behind⟩ := stands.read n
      obtain ⟨bytes, last⟩ := ih behind
      have inside := stands.inside
      rw [OpenFileStruct.readEach, List.sum_cons]
      simp only [reads]
      rw [bytes, slice_add]
      constructor
      · by_cases whole : n ≤ content.length - position
        · rw [Nat.min_eq_left whole]
        · have cut : content.length ≤ position + min n (content.length - position) := by omega
          have past : content.length ≤ position + n := by omega
          rw [slice_beyond cut, slice_beyond past]
      · have joined : position + min n (content.length - position) +
            min counts.sum (content.length - (position + min n (content.length - position))) =
            position + min (n + counts.sum) (content.length - position) := by omega
        rw [← joined]
        exact last

end OpenFileStruct

/-- In every history of seeks and reads on an open file with fixed contents the
offset stays in the file.  A seek past the end answers -1 and changes nothing, any
other seek sets the offset; a read returns how much it delivers, which are the
bytes from the offset on, and advances by as much; consecutive reads deliver one
stretch of the file. -/
theorem offsets_are_exact {node : BlockIO} {content : List UInt8} (serves : node.Serves content)
    {file : OpenFileStruct} (reached : fileCalls.Reached (.make node) file) :
    file.getOffset ≤ file.size ∧ file.size = content.length ∧
      (∀ offset, file.seek offset =
        if file.size < offset then (2 ^ 32 - 1, file)
        else (offset, { file with myOffset := offset })) ∧
      (∀ n < 2 ^ 31, file.read n =
        ({ bytes := slice content file.getOffset n
           outcome := .returned (min n (file.size - file.getOffset) : Nat) },
          { file with myOffset := file.getOffset + min n (file.size - file.getOffset) })) ∧
      ∀ counts : List Nat,
        (file.readEach counts).1 = slice content file.getOffset counts.sum ∧
          (file.readEach counts).2.getOffset =
            file.getOffset + min counts.sum (file.size - file.getOffset) := by
  have fresh : (OpenFileStruct.make node).Stands content 0 := ⟨serves, rfl, Nat.zero_le _⟩
  have always := reached.preserves (fun file => ∃ position, file.Stands content position)
    (fun _ _ _ stands _ stepped => OpenFileStruct.Stands.call stands stepped) ⟨0, fresh⟩
  obtain ⟨position, stands⟩ := always
  have size : file.size = content.length := stands.serves.size.symm
  have offset : file.getOffset = position := stands.offset
  rw [size, offset]
  refine ⟨stands.inside, rfl, ?_, fun n small => stands.read_eq small, ?_⟩
  · intro target
    rw [file.seek_eq, size]
  · intro counts
    obtain ⟨bytes, last⟩ := stands.readEach counts
    exact ⟨bytes, last.offset⟩

/-- Five bytes in blocks of two, read by two and by nine after a seek to the second. -/
theorem offsets_are_exact_sample :
    ∃ file, fileCalls.run
        (.make ( BlockIO.ofBytes 2 [1, 2, 3, 4, 5] (by decide) (by decide) (by decide)))
        [.seek 1] = some file ∧
      (file.readEach [2, 9]).1 = [2, 3, 4, 5] := by
  have serves : ( BlockIO.ofBytes 2 [1, 2, 3, 4, 5] (by decide) (by decide) (by decide)).Serves
      [1, 2, 3, 4, 5] := BlockIO.ofBytes_serves (by decide) (by decide) (by decide)
  have word : 1 < 2 ^ 32 := by decide
  have facts := offsets_are_exact serves ⟨[.seek 1], ⟨word, fun _ _ => trivial⟩, rfl⟩
  exact ⟨_, rfl, (facts.2.2.2.2 [2, 9]).1⟩

end AC97Kernel
