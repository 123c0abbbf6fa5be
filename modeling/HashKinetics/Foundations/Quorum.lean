import Mathlib

/-!
# Weighted quorums

A family of voters with weights, and the sets of voters that hold more than two thirds of the whole
weight.  Two of them always meet, in voters that hold more than one third.
-/

namespace Foundations

variable {ι : Type*} [Fintype ι] [DecidableEq ι]

/-- The voters hold more than two thirds of the whole weight. -/
def IsQuorum (w : ι → ℕ) (A : Finset ι) : Prop := 2 * ∑ i, w i < 3 * ∑ i ∈ A, w i

omit [DecidableEq ι] in
/-- A set of voters with a quorum's weight or more is a quorum. -/
lemma IsQuorum.of_le {w : ι → ℕ} {p t : ℕ} {A : Finset ι} (ht : ∑ i, w i ≤ t)
    (hp : p ≤ ∑ i ∈ A, w i) (h : 2 * t < 3 * p) : IsQuorum w A := by
  unfold IsQuorum
  omega

/-- Two quorums share voters that hold more than one third of the whole weight. -/
lemma IsQuorum.inter {w : ι → ℕ} {A B : Finset ι} (hA : IsQuorum w A) (hB : IsQuorum w B) :
    ∑ i, w i < 3 * ∑ i ∈ A ∩ B, w i := by
  have hcount : ∑ i ∈ A ∪ B, w i + ∑ i ∈ A ∩ B, w i = ∑ i ∈ A, w i + ∑ i ∈ B, w i :=
    Finset.sum_union_inter
  have hunion : ∑ i ∈ A ∪ B, w i ≤ ∑ i, w i :=
    Finset.sum_le_sum_of_subset (Finset.subset_univ _)
  unfold IsQuorum at hA hB
  omega

end Foundations
