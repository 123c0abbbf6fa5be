import Mathlib

/-!
# Fixed-width unsigned arithmetic

The saturating and checked operations of an unsigned machine integer, on natural numbers with the
largest value `m` of the width as a parameter.  Each operation comes with the one lemma its callers
need: the condition under which it agrees with the exact operation.
-/

namespace Foundations

/-! The words that programs compute with have a zero. -/

instance neZero_word128 : NeZero (2 ^ 128) := inferInstance

instance neZero_word160 : NeZero (2 ^ 160) := inferInstance

instance neZero_word256 : NeZero (2 ^ 256) := inferInstance

/-- Saturating addition at the bound `m`. -/
def satAdd (m a b : ℕ) : ℕ := min (a + b) m

/-- Saturating multiplication at the bound `m`. -/
def satMul (m a b : ℕ) : ℕ := min (a * b) m

/-- Checked addition at the bound `m`. -/
def checkedAdd (m a b : ℕ) : Option ℕ := if a + b ≤ m then some (a + b) else none

/-- Checked multiplication at the bound `m`. -/
def checkedMul (m a b : ℕ) : Option ℕ := if a * b ≤ m then some (a * b) else none

/-- Checked subtraction. -/
def checkedSub (a b : ℕ) : Option ℕ := if b ≤ a then some (a - b) else none

/-- Below the bound, saturating addition is addition. -/
lemma satAdd_of_le {m a b : ℕ} (h : a + b ≤ m) : satAdd m a b = a + b :=
  min_eq_left h

/-- Saturating addition never exceeds the exact sum. -/
lemma satAdd_le_add (m a b : ℕ) : satAdd m a b ≤ a + b :=
  min_le_left _ _

/-- A checked addition that succeeds returns the exact sum, within the bound. -/
@[simp] lemma checkedAdd_eq_some {m a b c : ℕ} :
    checkedAdd m a b = some c ↔ a + b ≤ m ∧ c = a + b := by
  unfold checkedAdd
  split_ifs with h <;> simp [h, eq_comm]

/-- A checked multiplication that succeeds returns the exact product, within the bound. -/
@[simp] lemma checkedMul_eq_some {m a b c : ℕ} :
    checkedMul m a b = some c ↔ a * b ≤ m ∧ c = a * b := by
  unfold checkedMul
  split_ifs with h <;> simp [h, eq_comm]

/-- A checked subtraction that succeeds did not underflow. -/
@[simp] lemma checkedSub_eq_some {a b c : ℕ} :
    checkedSub a b = some c ↔ b ≤ a ∧ c = a - b := by
  unfold checkedSub
  split_ifs with h <;> simp [h, eq_comm]

/-- A saturating sum over selected elements is exact when the exact sum is within the bound. -/
lemma foldl_satAdd_of_le {α : Type*} {m : ℕ} (p : α → Prop) [DecidablePred p] (w : α → ℕ)
    (l : List α) (acc : ℕ) (h : acc + (l.map fun e => if p e then w e else 0).sum ≤ m) :
    l.foldl (fun acc e => if p e then satAdd m acc (w e) else acc) acc =
      acc + (l.map fun e => if p e then w e else 0).sum := by
  induction l generalizing acc with
  | nil => rfl
  | cons e l ih =>
    simp only [List.foldl_cons, List.map_cons, List.sum_cons] at h ⊢
    split_ifs at h ⊢ with hp
    · rw [satAdd_of_le (by omega), ih _ (by omega), Nat.add_assoc]
    · rw [ih _ (by omega), Nat.zero_add]

/-- A saturating sum is the exact sum cut off at the bound. -/
lemma foldl_satAdd_eq_min {α : Type*} {m : ℕ} (w : α → ℕ) (l : List α) {acc : ℕ} (h : acc ≤ m) :
    l.foldl (fun acc e => satAdd m acc (w e)) acc = min (acc + (l.map w).sum) m := by
  induction l generalizing acc with
  | nil => simpa using h
  | cons e l ih =>
    have hstep : satAdd m acc (w e) ≤ m := min_le_right _ _
    rw [List.foldl_cons, ih hstep, List.map_cons, List.sum_cons]
    unfold satAdd
    omega

/-! ## Little-endian digits -/

/-- The little-endian bytes of a number, in a given width. -/
def leDigits (w n : ℕ) : List UInt8 := (List.range w).map fun i => UInt8.ofNat (n / 256 ^ i)

/-- The number that little-endian bytes spell. -/
def ofLeDigits (bs : List UInt8) : ℕ := Nat.ofDigits 256 (bs.map UInt8.toNat)

/-- The low digits of a number, as a number. -/
lemma ofDigits_low (w n : ℕ) :
    Nat.ofDigits 256 ((List.range w).map fun i => n / 256 ^ i % 256) = n % 256 ^ w := by
  induction w generalizing n with
  | zero => simp [Nat.mod_one]
  | succ w ih =>
    have htail : (List.range w).map (fun i => n / 256 ^ (i + 1) % 256) =
        (List.range w).map fun i => n / 256 / 256 ^ i % 256 := by
      refine List.map_congr_left fun i _ => ?_
      rw [Nat.div_div_eq_div_mul, pow_succ, mul_comm]
    rw [List.range_succ_eq_map, List.map_cons, List.map_map, Nat.ofDigits_cons]
    change n / 256 ^ 0 % 256 + 256 * Nat.ofDigits 256 ((List.range w).map fun i =>
      n / 256 ^ (i + 1) % 256) = _
    rw [htail, ih, pow_zero, Nat.div_one, pow_succ, mul_comm (256 ^ w), Nat.mod_mul]

@[simp] lemma length_leDigits (w n : ℕ) : (leDigits w n).length = w := by
  simp [leDigits]

/-- A number that fits the width is spelled by its bytes. -/
lemma ofLeDigits_leDigits {w n : ℕ} (h : n < 256 ^ w) : ofLeDigits (leDigits w n) = n := by
  have hbytes : (leDigits w n).map UInt8.toNat = (List.range w).map fun i => n / 256 ^ i % 256 := by
    simp [leDigits, Function.comp_def]
  rw [ofLeDigits, hbytes, ofDigits_low]
  exact Nat.mod_eq_of_lt h

lemma ofLeDigits_lt (bs : List UInt8) : ofLeDigits bs < 256 ^ bs.length := by
  have hlt := Nat.ofDigits_lt_base_pow_length (b := 256) (l := bs.map UInt8.toNat) (by decide)
    (by
      intro d hd
      obtain ⟨x, -, rfl⟩ := List.mem_map.mp hd
      exact x.toNat_lt)
  rwa [List.length_map] at hlt

/-- The digits of a number that was spelled by bytes are these bytes. -/
lemma leDigits_ofLeDigits (bs : List UInt8) : leDigits bs.length (ofLeDigits bs) = bs := by
  induction bs with
  | nil => rfl
  | cons x bs ih =>
    have hsplit : ofLeDigits (x :: bs) = x.toNat + 256 * ofLeDigits bs := by
      simp [ofLeDigits, Nat.ofDigits_cons]
    have hx : x.toNat < 256 := x.toNat_lt
    have htail : ∀ i, ofLeDigits (x :: bs) / 256 ^ (i + 1) = ofLeDigits bs / 256 ^ i := by
      intro i
      rw [pow_succ', ← Nat.div_div_eq_div_mul, hsplit]
      congr 1
      omega
    simp only [leDigits, List.length_cons, List.range_succ_eq_map, List.map_cons, List.map_map,
      Function.comp_def, Nat.succ_eq_add_one, htail, pow_zero, Nat.div_one]
    refine congrArg₂ List.cons ?_ ih
    apply UInt8.toNat_inj.mp
    rw [UInt8.toNat_ofNat', hsplit]
    omega

end Foundations
