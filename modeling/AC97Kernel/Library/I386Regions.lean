/-
Regions of memory that have no byte in common, word by word.
-/

import AC97Kernel.Library.I386Memory

set_option autoImplicit false

namespace I386

/-- What keeps off a range keeps off its words. -/
theorem Beyond.word {base place : Word} {words index : Nat}
    (beyond : Beyond base (4 * words) place) (inside : index < words)
    (short : 4 * words ≤ 2 ^ 32) : Beyond (base + BitVec.ofNat 32 (4 * index)) 4 place := by
  unfold Beyond at *
  bv_omega

/-- A range of words for each name; the ranges are apart. -/
structure Regions (Name : Type) where
  base : Name → Word
  words : Name → Nat
  short : ∀ name, 4 * words name ≤ 2 ^ 32
  separate : ∀ first second, first ≠ second → ∀ place,
    Beyond (base first) (4 * words first) place ∨ Beyond (base second) (4 * words second) place

namespace Regions

variable {Name : Type} (regions : Regions Name)

/-- The address of a word. -/
def spot (name : Name) (index : Nat) : Word := regions.base name + BitVec.ofNat 32 (4 * index)

variable {regions} {memory : Memory} {value : Word} {name other : Name} {index second : Nat}

theorem within_spot (inside : index < regions.words name) {place : Word}
    (near : ¬ Beyond (regions.spot name index) 4 place) :
    ¬ Beyond (regions.base name) (4 * regions.words name) place :=
  fun beyond => near (beyond.word inside (regions.short name))

theorem apart (inside : index < regions.words name) (insideOther : second < regions.words other)
    (different : name ≠ other ∨ index ≠ second) :
    Apart (regions.spot name index) (regions.spot other second) := by
  by_cases same : name = other
  · subst same
    have short := regions.short name
    have away := different.resolve_left (fun this => this rfl)
    constructor
    all_goals
      unfold Beyond spot
      bv_omega
  · have self (place : Word) : ¬ Beyond place 4 place := by
      unfold Beyond
      rw [BitVec.sub_self]
      decide
    constructor
    · by_contra near
      rcases regions.separate name other same (regions.spot other second) with beyond | beyond
      · exact within_spot inside near beyond
      · exact within_spot insideOther (self _) beyond
    · by_contra near
      rcases regions.separate name other same (regions.spot name index) with beyond | beyond
      · exact within_spot inside (self _) beyond
      · exact within_spot insideOther near beyond

/-- A store to one word of the regions leaves the others. -/
theorem load_store (inside : index < regions.words name)
    (insideOther : second < regions.words other) (different : name ≠ other ∨ index ≠ second) :
    (memory.store (regions.spot name index) value).load (regions.spot other second) =
      memory.load (regions.spot other second) :=
  Memory.load_store_apart (apart inside insideOther different)

end Regions

end I386
