import HashKinetics.Foundations.Framing

/-!
# Big-endian numbers

A number is written with its most significant byte first, in a fixed width or in as few bytes as it
needs.  The second form has no leading zero byte, is empty for zero, and is the only such form of
its number.
-/

namespace Foundations

/-- The last `w` big-endian bytes of a number. -/
def beOf (w n : ℕ) : List UInt8 := (leOf w n).reverse

/-- The number with the given big-endian bytes. -/
def beNat (bs : List UInt8) : ℕ := leNat bs.reverse

/-- The big-endian bytes of a number, without leading zeros. -/
def minimalBe (n : ℕ) : List UInt8 := ((Nat.digits 256 n).map UInt8.ofNat).reverse

/-- The width is the length. -/
@[simp] lemma length_beOf (w n : ℕ) : (beOf w n).length = w := by simp [beOf]

/-- A number that fits the width is read back. -/
lemma beNat_beOf {w n : ℕ} (h : n < 256 ^ w) : beNat (beOf w n) = n := by
  rw [beNat, beOf, List.reverse_reverse, leNat_leOf_of_lt h]

/-- The bytes are the digits in base 256. -/
lemma leNat_eq_ofDigits (bs : List UInt8) : leNat bs = Nat.ofDigits 256 (bs.map UInt8.toNat) := by
  induction bs with
  | nil => rfl
  | cons b bs ih => rw [leNat, List.map_cons, Nat.ofDigits_cons, ih]

/-- Leading zeros do not count. -/
@[simp] lemma beNat_zero_cons (bs : List UInt8) : beNat (0 :: bs) = beNat bs := by
  rw [beNat, beNat, List.reverse_cons, leNat_eq_ofDigits, leNat_eq_ofDigits, List.map_append,
    List.map_singleton]
  exact Nat.ofDigits_append_zero _

/-- Leading zeros do not count. -/
lemma beNat_dropWhile_zero (bs : List UInt8) : beNat (bs.dropWhile (· == 0)) = beNat bs := by
  induction bs with
  | nil => rfl
  | cons b bs ih =>
    rw [List.dropWhile_cons]
    split_ifs with hb
    · rw [beq_iff_eq.mp hb, beNat_zero_cons, ih]
    · rfl

/-- Leading zeros may be added. -/
lemma beNat_replicate_zero_append (n : ℕ) (bs : List UInt8) :
    beNat (List.replicate n 0 ++ bs) = beNat bs := by
  induction n with
  | zero => rfl
  | succ n ih => rw [List.replicate_succ, List.cons_append, beNat_zero_cons, ih]

/-- A number is read back from its shortest form. -/
lemma beNat_minimalBe (n : ℕ) : beNat (minimalBe n) = n := by
  have hmap : ((Nat.digits 256 n).map UInt8.ofNat).map UInt8.toNat = Nat.digits 256 n := by
    rw [List.map_map]
    refine (List.map_congr_left fun d hd => ?_).trans (List.map_id _)
    exact UInt8.toNat_ofNat_of_lt' (Nat.digits_lt_base (by norm_num) hd)
  rw [beNat, minimalBe, List.reverse_reverse, leNat_eq_ofDigits, hmap, Nat.ofDigits_digits]

/-- Different numbers have different shortest forms. -/
lemma minimalBe_injective : Function.Injective minimalBe := fun n m h => by
  rw [← beNat_minimalBe n, h, beNat_minimalBe]

/-- Bytes without a leading zero are the minimal form of their number. -/
lemma minimalBe_beNat {bs : List UInt8} (h : bs.head? ≠ some 0) : minimalBe (beNat bs) = bs := by
  have hdigits : Nat.digits 256 (Nat.ofDigits 256 (bs.reverse.map UInt8.toNat)) =
      bs.reverse.map UInt8.toNat := by
    refine Nat.digits_ofDigits 256 (by norm_num) _ (fun d hd => ?_) fun hne hlast => ?_
    · obtain ⟨b, -, rfl⟩ := List.mem_map.mp hd
      exact UInt8.toNat_lt b
    · rw [List.getLast_map, List.getLast_reverse] at hlast
      apply h
      rw [List.head?_eq_some_head (by simpa using hne)]
      exact congrArg some (UInt8.toNat_inj.mp hlast)
  rw [minimalBe, beNat, leNat_eq_ofDigits, hdigits, List.map_map, List.reverse_eq_iff]
  refine (List.map_congr_left fun b _ => ?_).trans (List.map_id _)
  exact UInt8.ofNat_toNat

/-- The shortest form has no leading zero. -/
lemma head_minimalBe (n : ℕ) : (minimalBe n).head? ≠ some 0 := by
  intro hzero
  rw [minimalBe, List.head?_reverse, List.getLast?_map] at hzero
  obtain ⟨d, hlast, hd⟩ := Option.map_eq_some_iff.mp hzero
  have hn : n ≠ 0 := by
    rintro rfl
    rw [Nat.digits_zero] at hlast
    cases hlast
  have hmem : d ∈ Nat.digits 256 n := List.mem_of_getLast? hlast
  have hlt := Nat.digits_lt_base (by norm_num) hmem
  have hne := Nat.getLast_digit_ne_zero 256 hn
  rw [List.getLast?_eq_some_getLast (Nat.digits_ne_nil_iff_ne_zero.mpr hn),
    Option.some.injEq] at hlast
  rw [hlast] at hne
  have hzero' := congrArg UInt8.toNat hd
  rw [UInt8.toNat_ofNat_of_lt' hlt] at hzero'
  exact hne hzero'

/-- A fixed width without its leading zeros is the minimal form. -/
lemma dropWhile_zero_eq_minimalBe (bs : List UInt8) :
    bs.dropWhile (· == 0) = minimalBe (beNat bs) := by
  rw [← beNat_dropWhile_zero, minimalBe_beNat]
  intro hzero
  have hnot := List.head?_dropWhile_not (· == (0 : UInt8)) bs
  rw [hzero] at hnot
  simp at hnot

/-- The shortest form is no longer than any width that fits. -/
lemma length_minimalBe_le {n w : ℕ} (h : n < 256 ^ w) : (minimalBe n).length ≤ w := by
  rw [minimalBe, List.length_reverse, List.length_map]
  exact (Nat.digits_length_le_iff (by norm_num) n).mpr h

/-- A byte string stays below its width. -/
lemma beNat_lt (bs : List UInt8) : beNat bs < 256 ^ bs.length := by
  rw [beNat, leNat_eq_ofDigits]
  have hlt := Nat.ofDigits_lt_base_pow_length (b := 256) (l := bs.reverse.map UInt8.toNat)
    (by norm_num)
    fun d hd => by
      obtain ⟨b, -, rfl⟩ := List.mem_map.mp hd
      exact UInt8.toNat_lt b
  simpa using hlt

/-- Only zero is written as nothing. -/
lemma minimalBe_ne_nil {n : ℕ} (h : n ≠ 0) : minimalBe n ≠ [] := by
  rw [minimalBe, Ne, List.reverse_eq_nil_iff, List.map_eq_nil_iff]
  exact Nat.digits_ne_nil_iff_ne_zero.mpr h

end Foundations
