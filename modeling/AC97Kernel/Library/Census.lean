/-
How many of any number of parties are at which places.

All but finitely many parties rest.  A place has a weight, and the census adds up
the weights of the places where the parties are; a weight that is 0 or 1 counts
parties.  When one party moves, the census changes by its two weights.
-/

import Mathlib.Algebra.BigOperators.Finprod

set_option autoImplicit false

open Function

namespace Census

variable {Party Place : Type} {rest : Place} {place : Party → Place} {weight : Place → Nat}

/-- All but finitely many parties are at rest. -/
def Sparse (rest : Place) (place : Party → Place) : Prop :=
  Set.Finite {party | place party ≠ rest}

noncomputable def census (weight : Place → Nat) (place : Party → Place) : Nat :=
  finsum fun party => weight (place party)

theorem sparse_rest (rest : Place) : Sparse rest (fun _ : Party => rest) := by
  apply Set.finite_empty.subset
  intro party busy
  exact absurd rfl busy

/-- Where nobody counts, the census is 0. -/
theorem census_zero (nobody : ∀ party, weight (place party) = 0) : census weight place = 0 := by
  unfold census
  simp only [nobody]
  exact finsum_zero

theorem census_rest (idle : weight rest = 0) : census weight (fun _ : Party => rest) = 0 :=
  census_zero fun _ => idle

/-- The census over any finite set that has all the busy parties. -/
theorem census_eq_sum (idle : weight rest = 0) (place : Party → Place) (busy : Finset Party)
    (all : ∀ party, place party ≠ rest → party ∈ busy) :
    census weight place = ∑ party ∈ busy, weight (place party) := by
  apply finsum_eq_sum_of_support_subset
  intro party heavy
  apply all
  intro resting
  rw [mem_support, resting] at heavy
  exact heavy idle

/-- Where only these parties count, each of them once at most, the census is not more than
they are. -/
theorem census_le_card (few : Finset Party) (light : ∀ party, weight (place party) ≤ 1)
    (others : ∀ party, party ∉ few → weight (place party) = 0) :
    census weight place ≤ few.card := by
  have all : census weight place = ∑ party ∈ few, weight (place party) := by
    apply finsum_eq_sum_of_support_subset
    intro party heavy
    by_contra outside
    exact heavy (others party outside)
  rw [all]
  calc ∑ party ∈ few, weight (place party) ≤ ∑ _party ∈ few, 1 :=
        Finset.sum_le_sum fun party _ => light party
    _ = few.card := (Finset.card_eq_sum_ones few).symm

variable [DecidableEq Party]

/-- Where these parties count, the census is not less than they are. -/
theorem card_le_census (sparse : Sparse rest place) (idle : weight rest = 0)
    (many : Finset Party) (heavy : ∀ party ∈ many, 1 ≤ weight (place party)) :
    many.card ≤ census weight place := by
  have all := census_eq_sum idle place (sparse.toFinset ∪ many) (by
    intro party busy
    exact Finset.mem_union_left _ (sparse.mem_toFinset.mpr busy))
  rw [all]
  calc many.card = ∑ _party ∈ many, 1 := Finset.card_eq_sum_ones many
    _ ≤ ∑ party ∈ many, weight (place party) := Finset.sum_le_sum heavy
    _ ≤ ∑ party ∈ sparse.toFinset ∪ many, weight (place party) :=
        Finset.sum_le_sum_of_subset Finset.subset_union_right

theorem Sparse.move (sparse : Sparse rest place) (party : Party) (target : Place) :
    Sparse rest (update place party target) := by
  apply Set.Finite.subset (Set.Finite.insert party sparse)
  intro other busy
  by_cases same : other = party
  · exact .inl same
  · change update place party target other ≠ rest at busy
    rw [update_of_ne same] at busy
    exact .inr busy

theorem census_move (sparse : Sparse rest place) (idle : weight rest = 0) (party : Party)
    (target : Place) :
    census weight (update place party target) + weight (place party) =
      census weight place + weight target := by
  have before := census_eq_sum idle place (insert party sparse.toFinset)
    (by
      intro other busy
      exact Finset.mem_insert_of_mem (sparse.mem_toFinset.mpr busy))
  have after := census_eq_sum idle (update place party target) (insert party sparse.toFinset)
    (by
      intro other busy
      by_cases same : other = party
      · exact Finset.mem_insert.mpr (.inl same)
      · rw [update_of_ne same] at busy
        exact Finset.mem_insert_of_mem (sparse.mem_toFinset.mpr busy))
  have member : party ∈ insert party sparse.toFinset := Finset.mem_insert_self _ _
  rw [before, after, ← Finset.add_sum_erase _ _ member, ← Finset.add_sum_erase _ _ member,
    update_self]
  have others : ∑ other ∈ (insert party sparse.toFinset).erase party,
      weight (update place party target other) =
      ∑ other ∈ (insert party sparse.toFinset).erase party, weight (place other) := by
    apply Finset.sum_congr rfl
    intro other member
    rw [update_of_ne (Finset.ne_of_mem_erase member)]
  rw [others]
  omega

/-- Nobody is heavier than all. -/
theorem le_census (sparse : Sparse rest place) (idle : weight rest = 0) (party : Party) :
    weight (place party) ≤ census weight place := by
  have moved := census_move sparse idle party rest
  omega

theorem add_le_census (sparse : Sparse rest place) (idle : weight rest = 0) {one other : Party}
    (apart : one ≠ other) :
    weight (place one) + weight (place other) ≤ census weight place := by
  have moved := census_move sparse idle one rest
  have rest_ := le_census (sparse.move one rest) idle other
  rw [update_of_ne (Ne.symm apart)] at rest_
  omega

/-- Where the census is at most one, two parties that count are one. -/
theorem alone (sparse : Sparse rest place) (idle : weight rest = 0) {one other : Party}
    (atMost : census weight place ≤ 1) (first : 0 < weight (place one))
    (second : 0 < weight (place other)) : one = other := by
  by_contra apart
  have both := add_le_census sparse idle apart
  omega

end Census
