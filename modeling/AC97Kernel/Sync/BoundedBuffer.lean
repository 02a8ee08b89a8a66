/-
The bounded buffer of kernel/bb.h, used by any number of threads.

Between two operations of semaphores a thread reads and writes one field after the
other.  `full`, `stored` and `got` are no fields: they record which slots have been
written and not read, and the values that `put` has stored and `get` has read.
-/

import AC97Kernel.Sync.Permits
import AC97Kernel.Library.Ring

set_option autoImplicit false

namespace AC97Kernel.Sync

open Function Census

inductive BufferSem where
  | nEmpty
  | nFull
  | lock
  deriving DecidableEq

structure BoundedBuffer (T : Type) where
  head : Nat
  n : Nat
  data : Nat → T
  full : Nat → Bool
  stored : List T
  got : List T

/-- The points of `put`, then those of `get`. -/
inductive BufferPoint (T : Type) where
  | idle
  | putReserve (t : T)
  | putLock (t : T)
  | store (t : T)
  | grow
  | putUnlock
  | announce
  | getReserve
  | getLock
  | load
  | advance (out : T)
  | shrink (out : T)
  | getUnlock (out : T)
  | release (out : T)
  | leave (out : T)
  deriving DecidableEq

namespace BoundedBuffer

variable {T : Type}

/-- Where `put` stores: an index in 32 bits. -/
def target (N : Nat) (buffer : BoundedBuffer T) : Nat :=
  (buffer.head + buffer.n) % 2 ^ 32 % N

def store (N : Nat) (t : T) (buffer : BoundedBuffer T) : BoundedBuffer T :=
  { buffer with
    data := update buffer.data (buffer.target N) t
    full := update buffer.full (buffer.target N) true
    stored := buffer.stored ++ [t] }

def grow (buffer : BoundedBuffer T) : BoundedBuffer T :=
  { buffer with n := (buffer.n + 1) % 2 ^ 32 }

def load (buffer : BoundedBuffer T) : BoundedBuffer T × T :=
  ({ buffer with
      full := update buffer.full buffer.head false
      got := buffer.got ++ [buffer.data buffer.head] },
    buffer.data buffer.head)

def advance (N : Nat) (buffer : BoundedBuffer T) : BoundedBuffer T :=
  { buffer with head := (buffer.head + 1) % 2 ^ 32 % N }

def shrink (buffer : BoundedBuffer T) : BoundedBuffer T :=
  { buffer with n := if buffer.n = 0 then 2 ^ 32 - 1 else buffer.n - 1 }

/-- The two functions, of which `get` returns `out` at its last point. -/
def code (N : Nat) : BufferPoint T → Instruction BufferSem (BoundedBuffer T) (BufferPoint T)
  | .idle => .access fun _ => none
  | .putReserve t => .down .nEmpty (.putLock t)
  | .putLock t => .down .lock (.store t)
  | .store t => .access fun buffer => some (buffer.store N t, .grow)
  | .grow => .access fun buffer => some (buffer.grow, .putUnlock)
  | .putUnlock => .up .lock .announce
  | .announce => .up .nFull .idle
  | .getReserve => .down .nFull .getLock
  | .getLock => .down .lock .load
  | .load => .access fun buffer => some (buffer.load.1, .advance buffer.load.2)
  | .advance out => .access fun buffer => some (buffer.advance N, .shrink out)
  | .shrink out => .access fun buffer => some (buffer.shrink, .getUnlock out)
  | .getUnlock out => .up .lock (.release out)
  | .release out => .up .nEmpty (.leave out)
  | .leave _ => .access fun buffer => some (buffer, .idle)

/-- `put` and `get` may be called by anybody at any time. -/
def isEntry : BufferPoint T → Bool
  | .putReserve _ => true
  | .getReserve => true
  | _ => false

def program (T : Type) (N : Nat) : Program BufferSem (BoundedBuffer T) (BufferPoint T) where
  idle := .idle
  permits _ point := isEntry point = true
  enter buffer _ := buffer
  code := code N

/-- The constructor of the semaphores. -/
def counts (N : Nat) : BufferSem → Nat
  | .nEmpty => N
  | .nFull => 0
  | .lock => 1

/-- The constructor, with whatever `new` finds in the slots. -/
def new (data : Nat → T) : BoundedBuffer T :=
  { head := 0, n := 0, data := data, full := fun _ => false, stored := [], got := [] }

section Weights

/-- In the critical section, and not between the accesses that belong together. -/
def plain : BufferPoint T → Nat
  | .store _ => 1
  | .putUnlock => 1
  | .load => 1
  | .getUnlock _ => 1
  | _ => 0

def growing : BufferPoint T → Nat
  | .grow => 1
  | _ => 0

def advancing : BufferPoint T → Nat
  | .advance _ => 1
  | _ => 0

def shrinking : BufferPoint T → Nat
  | .shrink _ => 1
  | _ => 0

/-- A thread that has one of the empty slots. -/
def empty : BufferPoint T → Nat
  | .putLock _ => 1
  | .store _ => 1
  | .grow => 1
  | .getUnlock _ => 1
  | .release _ => 1
  | _ => 0

/-- A thread that has one of the full slots. -/
def owed : BufferPoint T → Nat
  | .getLock => 1
  | .load => 1
  | .advance _ => 1
  | .shrink _ => 1
  | .putUnlock => 1
  | .announce => 1
  | _ => 0

end Weights

/-- The slots that have been written and not read hold what was stored and not got. -/
structure Contents (N : Nat) (buffer : BoundedBuffer T) (first length : Nat) : Prop where
  pending : ∃ items, buffer.stored = buffer.got ++ items ∧ items.length = length ∧
    Ring.Holds N buffer.data first items
  full : ∀ index, buffer.full index = true ↔ Ring.Among N first length index

/-- The sum does not leave 32 bits. -/
theorem target_eq {N : Nat} {buffer : BoundedBuffer T} (narrow : buffer.head + buffer.n < 2 ^ 32) :
    buffer.target N = Ring.slot N buffer.head buffer.n := by
  unfold target Ring.slot
  rw [Nat.mod_eq_of_lt narrow]

namespace Contents

variable {N first length : Nat} {buffer : BoundedBuffer T}

theorem store (contents : Contents N buffer first length) (room : length < N)
    (next : buffer.target N = Ring.slot N first length) (t : T) :
    Contents N (buffer.store N t) first (length + 1) where
  pending := by
    obtain ⟨items, all, many, holds⟩ := contents.pending
    refine ⟨items ++ [t], ?_, ?_, ?_⟩
    · change buffer.stored ++ [t] = _
      rw [all, List.append_assoc]
      rfl
    · rw [List.length_append, many]
      rfl
    · change Ring.Holds N (update buffer.data (buffer.target N) t) first (items ++ [t])
      rw [next, ← many]
      exact holds.push (many ▸ room) t
  full index := by
    change update buffer.full (buffer.target N) true index = true ↔ _
    rw [Ring.among_push, ← next]
    by_cases same : index = buffer.target N
    · subst same
      rw [update_self]
      exact iff_of_true rfl (.inl rfl)
    · rw [update_of_ne same, contents.full]
      exact (or_iff_right same).symm

theorem load (contents : Contents N buffer buffer.head (length + 1)) (fits : length + 1 ≤ N)
    (inside : buffer.head < N) : Contents N buffer.load.1 (buffer.head + 1) length where
  pending := by
    obtain ⟨items, all, many, holds⟩ := contents.pending
    cases items with
    | nil => cases many
    | cons item rest =>
        refine ⟨rest, ?_, Nat.succ.inj many, holds.pop⟩
        change buffer.stored = buffer.got ++ [buffer.data buffer.head] ++ rest
        rw [all, holds.head inside, List.append_assoc]
        rfl
  full index := by
    change update buffer.full buffer.head false index = true ↔ _
    rw [Ring.among_pop fits inside]
    by_cases same : index = buffer.head
    · subst same
      rw [update_self]
      exact iff_of_false Bool.false_ne_true fun both => both.1 rfl
    · rw [update_of_ne same, contents.full]
      exact (and_iff_right same).symm

theorem advance (contents : Contents N buffer (buffer.head + 1) length)
    (small : buffer.head + 1 < 2 ^ 32) :
    Contents N (buffer.advance N) (buffer.advance N).head length := by
  have start : (buffer.advance N).head = (buffer.head + 1) % N := by
    change (buffer.head + 1) % 2 ^ 32 % N = _
    rw [Nat.mod_eq_of_lt small]
  obtain ⟨items, all, many, holds⟩ := contents.pending
  rw [start]
  refine ⟨⟨items, all, many, holds.mod⟩, ?_⟩
  intro index
  rw [Ring.Among.mod]
  exact contents.full index

end Contents

variable {Thread : Type}

/-- The invariant of the moves. -/
structure Filled (N : Nat) (view : View Thread BufferSem (BoundedBuffer T) (BufferPoint T)) :
    Prop where
  lock : view.counts .lock + census plain view.place + census growing view.place +
    census advancing view.place + census shrinking view.place = 1
  nEmpty : view.counts .nEmpty + census empty view.place + view.data.n = N
  nFull : view.counts .nFull + census owed view.place = view.data.n
  head : view.data.head < N
  contents : ∃ length,
    length + census advancing view.place + census shrinking view.place =
      view.data.n + census growing view.place ∧
    Contents N view.data (view.data.head + census advancing view.place) length

variable {N : Nat} {view next : View Thread BufferSem (BoundedBuffer T) (BufferPoint T)}

theorem start_filled (some_ : 1 ≤ N) (data : Nat → T) :
    Filled N ((program T N).start (counts N) (new data) :
      Crew Thread BufferSem (BoundedBuffer T) (BufferPoint T)).view := by
  have nobody (weight : BufferPoint T → Nat) (idle : weight .idle = 0) :=
    @start_census Thread _ _ _ (program T N) weight idle (counts N) (new data)
  constructor
  · rw [nobody plain rfl, nobody growing rfl, nobody advancing rfl, nobody shrinking rfl]
    rfl
  · rw [nobody empty rfl]
    rfl
  · rw [nobody owed rfl]
    rfl
  · exact some_
  · refine ⟨0, ?_, ?_⟩
    · rw [nobody advancing rfl, nobody shrinking rfl, nobody growing rfl]
      rfl
    · constructor
      · refine ⟨[], rfl, rfl, ?_⟩
        intro i item impossible
        cases impossible
      · intro index
        refine iff_of_false Bool.false_ne_true ?_
        intro ⟨i, impossible, _⟩
        exact Nat.not_lt_zero i impossible

theorem down_weights {point target : BufferPoint T} {sem : BufferSem}
    (here : code N point = .down sem target) :
    (plain target = plain point + concerns sem .lock ∧
      empty target = empty point + concerns sem .nEmpty ∧
      owed target = owed point + concerns sem .nFull) ∧
    growing target = growing point ∧ advancing target = advancing point ∧
      shrinking target = shrinking point := by
  cases point <;> cases here <;> exact ⟨⟨rfl, rfl, rfl⟩, rfl, rfl, rfl⟩

theorem up_weights {point target : BufferPoint T} {sem : BufferSem}
    (here : code N point = .up sem target) :
    (plain point = plain target + concerns sem .lock ∧
      empty point = empty target + concerns sem .nEmpty ∧
      owed point = owed target + concerns sem .nFull) ∧
    growing target = growing point ∧ advancing target = advancing point ∧
      shrinking target = shrinking point := by
  cases point <;> cases here <;> exact ⟨⟨rfl, rfl, rfl⟩, rfl, rfl, rfl⟩

variable [DecidableEq Thread] {thread : Thread} {target : BufferPoint T}

/-- How the weights change when a thread moves. -/
theorem go_weights (sparse : Sparse .idle view.place) (thread : Thread)
    (target : BufferPoint T) :
    (census plain (view.go thread target).place + plain (view.place thread) =
      census plain view.place + plain target ∧
    census empty (view.go thread target).place + empty (view.place thread) =
      census empty view.place + empty target ∧
    census owed (view.go thread target).place + owed (view.place thread) =
      census owed view.place + owed target) ∧
    census growing (view.go thread target).place + growing (view.place thread) =
      census growing view.place + growing target ∧
    census advancing (view.go thread target).place + advancing (view.place thread) =
      census advancing view.place + advancing target ∧
    census shrinking (view.go thread target).place + shrinking (view.place thread) =
      census shrinking view.place + shrinking target :=
  ⟨⟨census_move sparse rfl thread target, census_move sparse rfl thread target,
      census_move sparse rfl thread target⟩, census_move sparse rfl thread target,
    census_move sparse rfl thread target, census_move sparse rfl thread target⟩

/-- A semaphore and a thread exchange what they have, and the buffer stays. -/
theorem Filled.exchange (sparse : Sparse .idle view.place) (filled : Filled N view)
    {changed : View Thread BufferSem (BoundedBuffer T) (BufferPoint T)}
    (place : changed.place = view.place) (data : changed.data = view.data)
    (lock : changed.counts .lock + plain target =
      view.counts .lock + plain (view.place thread))
    (nEmpty : changed.counts .nEmpty + empty target =
      view.counts .nEmpty + empty (view.place thread))
    (nFull : changed.counts .nFull + owed target =
      view.counts .nFull + owed (view.place thread))
    (grows : growing target = growing (view.place thread))
    (advances : advancing target = advancing (view.place thread))
    (shrinks : shrinking target = shrinking (view.place thread)) :
    Filled N (changed.go thread target) := by
  obtain ⟨⟨goPlain, goEmpty, goOwed⟩, goGrow, goAdvance, goShrink⟩ :=
    go_weights sparse thread target
  have samePlace : (changed.go thread target).place = (view.go thread target).place :=
    congrArg (fun places : Thread → BufferPoint T => update places thread target) place
  constructor
  · have law := filled.lock
    rw [samePlace]
    change changed.counts .lock + _ + _ + _ + _ = 1
    omega
  · have law := filled.nEmpty
    rw [samePlace]
    change changed.counts .nEmpty + _ + changed.data.n = N
    rw [data]
    omega
  · have law := filled.nFull
    rw [samePlace]
    change changed.counts .nFull + _ = changed.data.n
    rw [data]
    omega
  · exact data ▸ filled.head
  · obtain ⟨length, many, contents⟩ := filled.contents
    have advanced : census advancing (view.go thread target).place =
        census advancing view.place := by omega
    refine ⟨length, ?_, ?_⟩
    · rw [samePlace]
      change _ = changed.data.n + _
      rw [data]
      omega
    · rw [samePlace, advanced]
      change Contents N changed.data (changed.data.head + _) length
      rw [data]
      exact contents

theorem pass_filled (sparse : Sparse .idle view.place) (filled : Filled N view)
    {sem : BufferSem} (here : code N (view.place thread) = .down sem target)
    (positive : 0 < view.counts sem) :
    Filled N ((view.setCount sem (view.counts sem - 1)).go thread target) := by
  obtain ⟨⟨plains, empties, owes⟩, grows, advances, shrinks⟩ := down_weights here
  have passed := View.counts_pass view positive
  refine filled.exchange sparse rfl rfl ?_ ?_ ?_ grows advances shrinks
  · have lock := passed .lock
    omega
  · have nEmpty := passed .nEmpty
    omega
  · have nFull := passed .nFull
    omega

theorem raise_filled (small : N < 2 ^ 31) (sparse : Sparse .idle view.place)
    (filled : Filled N view) {sem : BufferSem}
    (here : code N (view.place thread) = .up sem target) :
    Filled N ((view.setCount sem ((view.counts sem + 1) % 2 ^ 64)).go thread target) := by
  obtain ⟨⟨plains, empties, owes⟩, grows, advances, shrinks⟩ := up_weights here
  have few : view.counts sem + 1 < 2 ^ 64 := by
    have lock := filled.lock
    have nEmpty := filled.nEmpty
    have nFull := filled.nFull
    cases sem <;> omega
  have raised := View.counts_raise view few
  refine filled.exchange sparse rfl rfl ?_ ?_ ?_ grows advances shrinks
  · have lock := raised .lock
    omega
  · have nEmpty := raised .nEmpty
    omega
  · have nFull := raised .nFull
    omega

theorem enter_filled (sparse : Sparse .idle view.place) (filled : Filled N view)
    (idle : view.place thread = .idle) (entry : isEntry target = true) :
    Filled N (view.go thread target) := by
  cases target with
  | putReserve t => apply filled.exchange sparse rfl rfl <;> rw [idle] <;> rfl
  | getReserve => apply filled.exchange sparse rfl rfl <;> rw [idle] <;> rfl
  | _ => cases entry

theorem leave_filled (sparse : Sparse .idle view.place) (filled : Filled N view) {out : T}
    (here : view.place thread = .leave out) : Filled N (view.go thread .idle) := by
  apply filled.exchange sparse rfl rfl <;> rw [here] <;> rfl

/-- An access in the critical section. -/
theorem Filled.access (sparse : Sparse .idle view.place) (filled : Filled N view)
    (data : BoundedBuffer T)
    (inside : plain target + growing target + advancing target + shrinking target =
      plain (view.place thread) + growing (view.place thread) + advancing (view.place thread) +
        shrinking (view.place thread))
    (nEmpty : empty target + data.n = empty (view.place thread) + view.data.n)
    (nFull : owed target + view.data.n = owed (view.place thread) + data.n)
    (head : data.head < N)
    (contents : ∃ length,
      length + census advancing (view.go thread target).place +
        census shrinking (view.go thread target).place =
          data.n + census growing (view.go thread target).place ∧
      Contents N data (data.head + census advancing (view.go thread target).place) length) :
    Filled N { view.go thread target with data := data } := by
  obtain ⟨⟨goPlain, goEmpty, goOwed⟩, goGrow, goAdvance, goShrink⟩ :=
    go_weights sparse thread target
  refine ⟨?_, ?_, ?_, head, contents⟩
  · have law := filled.lock
    change view.counts .lock + census plain (view.go thread target).place +
      census growing (view.go thread target).place +
      census advancing (view.go thread target).place +
      census shrinking (view.go thread target).place = 1
    omega
  · have law := filled.nEmpty
    change view.counts .nEmpty + census empty (view.go thread target).place + data.n = N
    omega
  · have law := filled.nFull
    change view.counts .nFull + census owed (view.go thread target).place = data.n
    omega

theorem store_filled (small : N < 2 ^ 31) (sparse : Sparse .idle view.place)
    (filled : Filled N view) {t : T} (here : view.place thread = .store t) :
    Filled N { view.go thread .grow with data := view.data.store N t } := by
  obtain ⟨⟨goPlain, _, _⟩, goGrow, goAdvance, goShrink⟩ := go_weights sparse thread .grow
  have mine : empty (view.place thread) ≤ census empty view.place := le_census sparse rfl thread
  rw [here] at goPlain mine goGrow goAdvance goShrink
  simp only [plain, empty] at goPlain mine
  simp only [growing, advancing, shrinking] at goGrow goAdvance goShrink
  have lock := filled.lock
  have nEmpty := filled.nEmpty
  have head := filled.head
  obtain ⟨length, many, contents⟩ := filled.contents
  have noAdvance : census advancing view.place = 0 := by omega
  have noAdvanceAfter : census advancing (view.go thread .grow).place = 0 := by omega
  refine filled.access sparse (view.data.store N t) (by rw [here]; rfl) (by rw [here]; rfl)
    (by rw [here]; rfl) head ⟨length + 1, ?_, ?_⟩
  · change _ = view.data.n + _
    omega
  · rw [noAdvanceAfter]
    rw [noAdvance] at contents
    have all : length = view.data.n := by omega
    subst all
    exact contents.store (by omega) (target_eq (by omega)) t

theorem grow_filled (small : N < 2 ^ 31) (sparse : Sparse .idle view.place)
    (filled : Filled N view) (here : view.place thread = .grow) :
    Filled N { view.go thread .putUnlock with data := view.data.grow } := by
  obtain ⟨_, goGrow, goAdvance, goShrink⟩ := go_weights sparse thread .putUnlock
  rw [here] at goGrow goAdvance goShrink
  simp only [growing, advancing, shrinking] at goGrow goAdvance goShrink
  have nEmpty := filled.nEmpty
  have grown : view.data.grow.n = view.data.n + 1 := Nat.mod_eq_of_lt (by omega)
  obtain ⟨length, many, contents⟩ := filled.contents
  have same : census advancing (view.go thread .putUnlock).place =
      census advancing view.place := by omega
  refine filled.access sparse view.data.grow (by rw [here]; rfl) ?_ ?_ filled.head
    ⟨length, ?_, ?_⟩
  · rw [here, grown]
    simp only [empty]
    omega
  · rw [here, grown]
    simp only [owed]
    omega
  · omega
  · rw [same]
    exact ⟨contents.pending, contents.full⟩

theorem load_filled (sparse : Sparse .idle view.place) (filled : Filled N view)
    (here : view.place thread = .load) :
    Filled N { view.go thread (.advance view.data.load.2) with data := view.data.load.1 } := by
  obtain ⟨⟨goPlain, _, _⟩, goGrow, goAdvance, goShrink⟩ :=
    go_weights sparse thread (.advance view.data.load.2)
  have mine : owed (view.place thread) ≤ census owed view.place := le_census sparse rfl thread
  rw [here] at goPlain mine goGrow goAdvance goShrink
  simp only [plain, owed] at goPlain mine
  simp only [growing, advancing, shrinking] at goGrow goAdvance goShrink
  have lock := filled.lock
  have nEmpty := filled.nEmpty
  have nFull := filled.nFull
  obtain ⟨length, many, contents⟩ := filled.contents
  have noAdvance : census advancing view.place = 0 := by omega
  have oneAfter : census advancing
      (view.go thread (.advance view.data.load.2)).place = 1 := by omega
  cases length with
  | zero => omega
  | succ length =>
      refine filled.access sparse view.data.load.1 (by rw [here]; rfl) (by rw [here]; rfl)
        (by rw [here]; rfl) filled.head ⟨length, ?_, ?_⟩
      · change _ = view.data.n + _
        omega
      · rw [oneAfter]
        rw [noAdvance] at contents
        exact contents.load (by omega) filled.head

theorem advance_filled (small : N < 2 ^ 31) (sparse : Sparse .idle view.place)
    (filled : Filled N view) {out : T} (here : view.place thread = .advance out) :
    Filled N { view.go thread (.shrink out) with data := view.data.advance N } := by
  obtain ⟨⟨goPlain, _, _⟩, goGrow, goAdvance, goShrink⟩ :=
    go_weights sparse thread (.shrink out)
  rw [here] at goPlain goGrow goAdvance goShrink
  simp only [plain] at goPlain
  simp only [growing, advancing, shrinking] at goGrow goAdvance goShrink
  have lock := filled.lock
  have head := filled.head
  obtain ⟨length, many, contents⟩ := filled.contents
  have one : census advancing view.place = 1 := by omega
  have noneAfter : census advancing (view.go thread (.shrink out)).place = 0 := by omega
  refine filled.access sparse (view.data.advance N) (by rw [here]; rfl) (by rw [here]; rfl)
    (by rw [here]; rfl) (Nat.mod_lt _ (Nat.zero_lt_of_lt head)) ⟨length, ?_, ?_⟩
  · change _ = view.data.n + _
    omega
  · rw [noneAfter]
    rw [one] at contents
    exact contents.advance (by omega)

theorem shrink_filled (sparse : Sparse .idle view.place)
    (filled : Filled N view) {out : T} (here : view.place thread = .shrink out) :
    Filled N { view.go thread (.getUnlock out) with data := view.data.shrink } := by
  obtain ⟨⟨_, _, goOwed⟩, goGrow, goAdvance, goShrink⟩ :=
    go_weights sparse thread (.getUnlock out)
  rw [here] at goOwed goGrow goAdvance goShrink
  simp only [owed] at goOwed
  simp only [growing, advancing, shrinking] at goGrow goAdvance goShrink
  have nEmpty := filled.nEmpty
  have nFull := filled.nFull
  have shrunk : view.data.shrink.n = view.data.n - 1 := if_neg (by omega)
  obtain ⟨length, many, contents⟩ := filled.contents
  have same : census advancing (view.go thread (.getUnlock out)).place =
      census advancing view.place := by omega
  refine filled.access sparse view.data.shrink (by rw [here]; rfl) ?_ ?_ ?_ ⟨length, ?_, ?_⟩
  · rw [here]
    simp only [empty]
    omega
  · rw [here]
    simp only [owed]
    omega
  · exact filled.head
  · omega
  · rw [same]
    exact ⟨contents.pending, contents.full⟩

/-- Every move keeps the buffer filled. -/
theorem move_filled (small : N < 2 ^ 31) (sparse : Sparse .idle view.place)
    (filled : Filled N view) (move : Move (program T N) view next) : Filled N next := by
  cases move with
  | enter idle entry => exact enter_filled sparse filled idle entry
  | pass here positive => exact pass_filled sparse filled here positive
  | raise here => exact raise_filled small sparse filled here
  | @access thread target run data here ran =>
      change code N (view.place thread) = .access run at here
      cases point : view.place thread with
      | store t =>
          rw [point] at here
          cases here
          cases ran
          exact store_filled small sparse filled point
      | grow =>
          rw [point] at here
          cases here
          cases ran
          exact grow_filled small sparse filled point
      | load =>
          rw [point] at here
          cases here
          cases ran
          exact load_filled sparse filled point
      | advance out =>
          rw [point] at here
          cases here
          cases ran
          exact advance_filled small sparse filled point
      | shrink out =>
          rw [point] at here
          cases here
          cases ran
          exact shrink_filled sparse filled point
      | leave out =>
          rw [point] at here
          cases here
          cases ran
          exact leave_filled sparse filled point
      | idle =>
          rw [point] at here
          cases here
          cases ran
      | _ =>
          rw [point] at here
          cases here

variable {crew : Crew Thread BufferSem (BoundedBuffer T) (BufferPoint T)}

theorem reached_filled (some_ : 1 ≤ N) (small : N < 2 ^ 31) {data : Nat → T}
    (reached : (program T N).machine.Reached ((program T N).start (counts N) (new data)) crew) :
    Sparse .idle crew.view.place ∧ Filled N crew.view :=
  (reached_view (Filled N) (start_filled some_ data)
    (fun _ _ sparse filled move => move_filled small sparse filled move) reached).2

/-- A thread about to store finds a free slot. -/
theorem Filled.store_free (some_ : 1 ≤ N) (small : N < 2 ^ 31) (sparse : Sparse .idle view.place)
    (filled : Filled N view) {t : T} (here : view.place thread = .store t) :
    view.data.target N < N ∧ view.data.full (view.data.target N) = false := by
  have mine : empty (view.place thread) ≤ census empty view.place := le_census sparse rfl thread
  have inside : plain (view.place thread) ≤ census plain view.place := le_census sparse rfl thread
  rw [here] at mine inside
  simp only [empty, plain] at mine inside
  have lock := filled.lock
  have nEmpty := filled.nEmpty
  have head := filled.head
  obtain ⟨length, many, contents⟩ := filled.contents
  have noAdvance : census advancing view.place = 0 := by omega
  have all : length = view.data.n := by omega
  subst all
  rw [noAdvance] at contents
  rw [target_eq (by omega)]
  refine ⟨Ring.slot_lt some_ _ _, ?_⟩
  rw [Bool.eq_false_iff, ne_eq, contents.full]
  exact Ring.not_among_next (by omega)

/-- A thread about to read finds the first of the full slots. -/
theorem Filled.load_full (sparse : Sparse .idle view.place) (filled : Filled N view)
    (here : view.place thread = .load) :
    view.data.head < N ∧ view.data.full view.data.head = true := by
  have mine : owed (view.place thread) ≤ census owed view.place := le_census sparse rfl thread
  have inside : plain (view.place thread) ≤ census plain view.place := le_census sparse rfl thread
  rw [here] at mine inside
  simp only [owed, plain] at mine inside
  have lock := filled.lock
  have nFull := filled.nFull
  obtain ⟨length, many, contents⟩ := filled.contents
  have noAdvance : census advancing view.place = 0 := by omega
  rw [noAdvance] at contents
  exact ⟨filled.head, (contents.full _).mpr (Ring.among_first (by omega) filled.head)⟩

instance instDecidablePermits (buffer : BoundedBuffer T) (point : BufferPoint T) :
    Decidable ((program T N).permits buffer point) :=
  inferInstanceAs (Decidable (_ = true))

/-- Thread 0 fills a buffer of one slot and waits for room; thread 1 takes the value out. -/
def putsAndGets : List (Action Nat (BufferPoint Nat)) :=
  [.call 0 (.putReserve 5), .run 0, .run 0, .run 0, .run 0, .run 0, .run 0,
    .call 0 (.putReserve 6), .run 0,
    .call 1 .getReserve, .run 1, .run 1, .run 1, .run 1, .run 1, .run 1, .run 1, .schedule 1]

end BoundedBuffer

end AC97Kernel.Sync
