import Mathlib

/-!
# Digits with a checksum

A word of digits is completed by the digits of its checksum, the sum of what its digits lack to the
largest one.  Raising a digit of the word lowers the checksum, so of two different words each has a
position, among its digits or those of its checksum, where it is strictly smaller than the other.
-/

namespace Foundations

/-- What the first `n` digits lack to the largest digit `top`. -/
def deficit (top n : ℕ) (d : ℕ → ℕ) : ℕ := ((List.range n).map fun i => top - d i).sum

/-- The first `n` digits, and then the `k` digits in base `b` of their checksum, the highest one
first. -/
def withChecksum (top b n k : ℕ) (d : ℕ → ℕ) (i : ℕ) : ℕ :=
  if i < n then d i else deficit top n d / b ^ (n + k - 1 - i) % b

variable {top b n k : ℕ} {d d' : ℕ → ℕ}

/-- With every digit at least as large and one larger, less is lacking. -/
lemma deficit_lt (hle : ∀ i < n, d i ≤ d' i) (hlt : ∃ i < n, d i < d' i)
    (htop : ∀ i < n, d' i ≤ top) :
    deficit top n d' < deficit top n d := by
  refine List.sum_lt_sum _ _ (fun i hi => Nat.sub_le_sub_left (hle i (List.mem_range.mp hi)) top) ?_
  obtain ⟨i, hi, hlt⟩ := hlt
  have hbound := htop i hi
  exact ⟨i, List.mem_range.mpr hi, by omega⟩

lemma deficit_le (top n : ℕ) (d : ℕ → ℕ) : deficit top n d ≤ n * top := by
  have hsum := List.sum_le_card_nsmul ((List.range n).map fun i => top - d i) top (by simp)
  simpa [deficit] using hsum

/-- Numbers of `k` digits compare as their digits do. -/
lemma le_of_digits_le {c c' : ℕ} (hc : c < b ^ k) (h : ∀ j < k, c / b ^ j % b ≤ c' / b ^ j % b) :
    c ≤ c' := by
  induction k generalizing c c' with
  | zero =>
    rw [pow_zero] at hc
    omega
  | succ k ih =>
    have hlow : c % b ≤ c' % b := by simpa using h 0 (Nat.succ_pos k)
    have hhigh : c / b ≤ c' / b := by
      refine ih (Nat.div_lt_of_lt_mul (by rwa [← pow_succ'])) fun j hj => ?_
      have hstep := h (j + 1) (Nat.succ_lt_succ hj)
      rwa [pow_succ', ← Nat.div_div_eq_div_mul, ← Nat.div_div_eq_div_mul] at hstep
    calc c = b * (c / b) + c % b := (Nat.div_add_mod c b).symm
      _ ≤ b * (c' / b) + c' % b := Nat.add_le_add (Nat.mul_le_mul_left b hhigh) hlow
      _ = c' := Nat.div_add_mod c' b

/-- A word differs from another one: somewhere, in its digits or in its checksum, it is strictly
smaller. -/
lemma exists_withChecksum_lt (htop : ∀ i < n, d i ≤ top) (hfit : deficit top n d' < b ^ k)
    (hne : ∃ i < n, d i ≠ d' i) :
    ∃ i < n + k, withChecksum top b n k d i < withChecksum top b n k d' i := by
  by_contra hno
  have hge : ∀ i < n + k, withChecksum top b n k d' i ≤ withChecksum top b n k d i := by
    intro i hi
    exact not_lt.mp fun hlt => hno ⟨i, hi, hlt⟩
  have hdigits : ∀ i < n, d' i ≤ d i := by
    intro i hi
    simpa [withChecksum, hi] using hge i (by omega)
  have hless : deficit top n d < deficit top n d' := by
    obtain ⟨i, hi, hne⟩ := hne
    exact deficit_lt hdigits ⟨i, hi, lt_of_le_of_ne (hdigits i hi) (Ne.symm hne)⟩ htop
  refine absurd (le_of_digits_le hfit fun j hj => ?_) (not_le.mpr hless)
  have hpos := hge (n + k - 1 - j) (by omega)
  have hback : n + k - 1 - (n + k - 1 - j) = j := by omega
  have hout : ¬ n + k - 1 - j < n := by omega
  simpa only [withChecksum, if_neg hout, hback] using hpos

end Foundations
