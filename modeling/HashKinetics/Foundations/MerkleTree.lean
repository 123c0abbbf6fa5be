import Mathlib

/-!
# Append-only binary Merkle trees

A binary tree over an arbitrary node hash `node`, whose leaves are given by a function on indices.
`subRoot` is the tree itself, `foldPath` folds an authentication path, and `appendFrontier` and
`frontierRoot` are the incremental representation that keeps one pending left subtree per level.

The two results are position binding (`eq_subRoot_of_foldPath`: under an injective node hash a path
to a root opens the leaf at the index it names, and no other) and the correctness of the incremental
representation (`PendingAt.append`, `PendingAt.root`).
-/

namespace Foundations.Merkle

variable {H : Type*} (node : H → H → H)

/-! ## Trees and authentication paths -/

/-- The root of the `i`-th subtree of height `k` over the leaves `leaf`. -/
def subRoot (leaf : ℕ → H) : ℕ → ℕ → H
  | 0, i => leaf i
  | k + 1, i => node (subRoot leaf k (2 * i)) (subRoot leaf k (2 * i + 1))

/-- The root of an empty subtree of height `k`, with `e` in place of a missing leaf. -/
def emptyRoot (e : H) : ℕ → H
  | 0 => e
  | k + 1 => node (emptyRoot e k) (emptyRoot e k)

/-- Fold an authentication path from the bottom: bit `l` of the index tells on which side the
running node stands at level `l`. -/
def foldPath : List H → ℕ → H → H
  | [], _, cur => cur
  | sib :: sibs, idx, cur =>
    foldPath sibs (idx / 2) (if idx % 2 = 1 then node sib cur else node cur sib)

/-- A subtree only depends on the leaves below it. -/
lemma subRoot_congr {leaf leaf' : ℕ → H} (k i : ℕ)
    (h : ∀ j, i * 2 ^ k ≤ j → j < (i + 1) * 2 ^ k → leaf j = leaf' j) :
    subRoot node leaf k i = subRoot node leaf' k i := by
  induction k generalizing i with
  | zero => exact h i (by simp) (by simp)
  | succ k ih =>
    have hpow : 2 ^ (k + 1) = 2 * 2 ^ k := by ring
    have hleft : subRoot node leaf k (2 * i) = subRoot node leaf' k (2 * i) := by
      refine ih _ fun j h₁ h₂ => h j ?_ ?_
      · rw [hpow]; linarith
      · rw [hpow]; nlinarith [Nat.two_pow_pos k]
    have hright : subRoot node leaf k (2 * i + 1) = subRoot node leaf' k (2 * i + 1) := by
      refine ih _ fun j h₁ h₂ => h j ?_ ?_
      · rw [hpow]; nlinarith [Nat.two_pow_pos k]
      · rw [hpow]; linarith
    simp only [subRoot, hleft, hright]

/-- Under an injective node hash the root of a subtree determines the leaves below it. -/
lemma leaf_eq_of_subRoot_eq (hnode : Function.Injective2 node) {leaf leaf' : ℕ → H} (k i : ℕ)
    (h : subRoot node leaf k i = subRoot node leaf' k i) :
    ∀ j, i * 2 ^ k ≤ j → j < (i + 1) * 2 ^ k → leaf j = leaf' j := by
  induction k generalizing i with
  | zero =>
    intro j h₁ h₂
    obtain rfl : j = i := by omega
    exact h
  | succ k ih =>
    intro j h₁ h₂
    obtain ⟨hleft, hright⟩ := hnode h
    have hpow : 2 ^ (k + 1) = 2 * 2 ^ k := by ring
    rw [hpow] at h₁ h₂
    by_cases hj : j < (2 * i + 1) * 2 ^ k
    · exact ih (2 * i) hleft j (by linarith) hj
    · exact ih (2 * i + 1) hright j (by linarith) (by linarith)

/-- A subtree with no leaf below it is the empty subtree. -/
lemma subRoot_of_empty {leaf : ℕ → H} {e : H} (k i : ℕ)
    (h : ∀ j, i * 2 ^ k ≤ j → leaf j = e) : subRoot node leaf k i = emptyRoot node e k := by
  induction k generalizing i with
  | zero => exact h i (by simp)
  | succ k ih =>
    have hpow : 2 ^ (k + 1) = 2 * 2 ^ k := by ring
    have hleft : subRoot node leaf k (2 * i) = emptyRoot node e k :=
      ih _ fun j hj => h j (by rw [hpow]; linarith)
    have hright : subRoot node leaf k (2 * i + 1) = emptyRoot node e k :=
      ih _ fun j hj => h j (by rw [hpow]; nlinarith [Nat.two_pow_pos k])
    simp only [subRoot, emptyRoot, hleft, hright]

/-- Position binding: under an injective node hash, a path of length `n` that folds to the subtree
`r` started from the node at the index the path names. -/
theorem eq_subRoot_of_foldPath (hnode : Function.Injective2 node) {leaf : ℕ → H}
    (sibs : List H) (k r idx : ℕ) (cur : H)
    (h : foldPath node sibs idx cur = subRoot node leaf (k + sibs.length) r) :
    cur = subRoot node leaf k (r * 2 ^ sibs.length + idx % 2 ^ sibs.length) := by
  induction sibs generalizing k idx cur with
  | nil => simpa [foldPath, Nat.mod_one] using h
  | cons sib sibs ih =>
    have hlen : k + (sib :: sibs).length = (k + 1) + sibs.length := by
      simp only [List.length_cons]; omega
    rw [foldPath, hlen] at h
    have hup := ih (k + 1) (idx / 2) _ h
    set j := r * 2 ^ sibs.length + idx / 2 % 2 ^ sibs.length with hj
    -- the running node one level up splits into the two children of `j`
    have hidx : r * 2 ^ (sib :: sibs).length + idx % 2 ^ (sib :: sibs).length
        = 2 * j + idx % 2 := by
      rw [List.length_cons, pow_succ', Nat.mod_mul, hj]
      ring
    rw [hidx]
    split_ifs at hup with hbit
    · rw [hbit]
      exact (hnode hup).2
    · have hzero : idx % 2 = 0 := by omega
      rw [hzero, Nat.add_zero]
      exact (hnode hup).1

/-- A path reads as many bits of its index as it has siblings. -/
lemma foldPath_mod (sibs : List H) (idx : ℕ) (cur : H) :
    foldPath node sibs (idx % 2 ^ sibs.length) cur = foldPath node sibs idx cur := by
  induction sibs generalizing idx cur with
  | nil => rfl
  | cons sib sibs ih =>
    have hbit : idx % 2 ^ (sib :: sibs).length % 2 = idx % 2 := by
      rw [List.length_cons, pow_succ', Nat.mod_mul_right_mod]
    have hrest : idx % 2 ^ (sib :: sibs).length / 2 = idx / 2 % 2 ^ sibs.length := by
      rw [List.length_cons, pow_succ', Nat.mod_mul_right_div_self]
    rw [foldPath, foldPath, hbit, hrest, ih]

/-- The siblings of the path from subtree `idx` of height `k`, `n` levels up. -/
def siblings (leaf : ℕ → H) : ℕ → ℕ → ℕ → List H
  | 0, _, _ => []
  | n + 1, k, idx => subRoot node leaf k (idx ^^^ 1) :: siblings leaf n (k + 1) (idx / 2)

@[simp] lemma length_siblings (leaf : ℕ → H) (n k idx : ℕ) :
    (siblings node leaf n k idx).length = n := by
  induction n generalizing k idx with
  | zero => rfl
  | succ n ih => simp [siblings, ih]

/-- A path goes on where a shorter one ended. -/
lemma siblings_add (leaf : ℕ → H) (m n k idx : ℕ) :
    siblings node leaf (m + n) k idx =
      siblings node leaf m k idx ++ siblings node leaf n (k + m) (idx / 2 ^ m) := by
  induction m generalizing k idx with
  | zero => simp [siblings]
  | succ m ih =>
    have hadd : m + 1 + n = m + n + 1 := by omega
    have hlevel : k + (m + 1) = k + 1 + m := by omega
    rw [hadd, siblings, siblings, ih, List.cons_append, hlevel, pow_succ',
      Nat.div_div_eq_div_mul]

/-- The sibling of an index. -/
lemma xor_one (idx : ℕ) : idx ^^^ 1 = if idx % 2 = 1 then idx - 1 else idx + 1 := by
  split_ifs with hbit
  · exact Nat.xor_one_of_odd (Nat.odd_iff.mpr hbit)
  · exact Nat.xor_one_of_even (Nat.even_iff.mpr (by omega))

/-- The true siblings fold to the subtree above. -/
lemma foldPath_siblings (leaf : ℕ → H) (n k idx : ℕ) :
    foldPath node (siblings node leaf n k idx) idx (subRoot node leaf k idx) =
      subRoot node leaf (k + n) (idx / 2 ^ n) := by
  induction n generalizing k idx with
  | zero => simp [siblings, foldPath]
  | succ n ih =>
    have hparent :
      (if idx % 2 = 1 then node (subRoot node leaf k (idx ^^^ 1)) (subRoot node leaf k idx)
        else node (subRoot node leaf k idx) (subRoot node leaf k (idx ^^^ 1))) =
        subRoot node leaf (k + 1) (idx / 2) := by
      rw [xor_one, subRoot]
      split_ifs with hbit
      · have hl : idx - 1 = 2 * (idx / 2) := by omega
        have hr : idx = 2 * (idx / 2) + 1 := by omega
        rw [hl, ← hr]
      · have hl : idx = 2 * (idx / 2) := by omega
        rw [← hl]
    have hlevel : k + (n + 1) = k + 1 + n := by omega
    have hdiv : idx / 2 ^ (n + 1) = idx / 2 / 2 ^ n := by
      rw [pow_succ', Nat.div_div_eq_div_mul]
    rw [siblings, foldPath, hparent, ih, hlevel, hdiv]

/-! ## The incremental representation -/

/-- Append a subtree at the position `idx` of its level: a left child is parked and the walk stops,
a right child merges with the parked left sibling and carries upward. -/
def appendFrontier : List H → ℕ → H → List H
  | [], _, _ => []
  | f :: fs, idx, cur =>
    if idx % 2 = 0 then cur :: fs else f :: appendFrontier fs (idx / 2) (node f cur)

/-- The root of an incremental tree from level `k` upward: `cur` absorbs the parked left sibling
where the insertion path went right and an empty subtree where it went left. -/
def frontierRoot (e : H) : List H → ℕ → ℕ → H → H
  | [], _, _, cur => cur
  | f :: fs, k, idx, cur =>
    frontierRoot e fs (k + 1) (idx / 2)
      (if idx % 2 = 1 then node f cur else node cur (emptyRoot node e k))

@[simp] lemma length_appendFrontier (fs : List H) (idx : ℕ) (cur : H) :
    (appendFrontier node fs idx cur).length = fs.length := by
  induction fs generalizing idx cur with
  | nil => rfl
  | cons f fs ih =>
    rw [appendFrontier]
    split <;> simp [ih]

/-- From level `k` upward, the frontier parks the left siblings of the path to subtree `m`. -/
def PendingAt (leaf : ℕ → H) : ℕ → List H → ℕ → Prop
  | _, [], _ => True
  | k, f :: fs, m =>
    (m % 2 = 1 → f = subRoot node leaf k (m - 1)) ∧ PendingAt leaf (k + 1) fs (m / 2)

/-- The parked subtrees lie strictly below the insertion position. -/
lemma PendingAt.congr {leaf leaf' : ℕ → H} {k m : ℕ} {fs : List H}
    (h : ∀ j, j < m * 2 ^ k → leaf j = leaf' j) (hp : PendingAt node leaf k fs m) :
    PendingAt node leaf' k fs m := by
  induction fs generalizing k m with
  | nil => trivial
  | cons f fs ih =>
    obtain ⟨hf, hrest⟩ := hp
    refine ⟨fun hodd => ?_, ih (fun j hj => h j ?_) hrest⟩
    · rw [hf hodd]
      refine subRoot_congr node k _ fun j _ hj => h j ?_
      rwa [Nat.sub_add_cancel (by omega)] at hj
    · have hle : m / 2 * 2 ^ (k + 1) ≤ m * 2 ^ k := by
        rw [pow_succ', ← mul_assoc]
        exact Nat.mul_le_mul_right _ (Nat.div_mul_le_self m 2)
      exact lt_of_lt_of_le hj hle

/-- Appending the completed subtree `m` at level `k` keeps the frontier correct for position
`m + 1`. -/
lemma PendingAt.append {leaf : ℕ → H} {k m : ℕ} {fs : List H} {cur : H}
    (hp : PendingAt node leaf k fs m) (hcur : cur = subRoot node leaf k m) :
    PendingAt node leaf k (appendFrontier node fs m cur) (m + 1) := by
  induction fs generalizing k m cur with
  | nil => trivial
  | cons f fs ih =>
    obtain ⟨hf, hrest⟩ := hp
    rw [appendFrontier]
    split_ifs with heven
    · have hhalf : (m + 1) / 2 = m / 2 := by omega
      exact ⟨fun _ => by simpa using hcur, by rwa [hhalf]⟩
    · have hodd : m % 2 = 1 := by omega
      have hhalf : (m + 1) / 2 = m / 2 + 1 := by omega
      refine ⟨fun h => by omega, ?_⟩
      rw [hhalf]
      apply ih hrest
      have hl : m - 1 = 2 * (m / 2) := by omega
      have hr : m = 2 * (m / 2) + 1 := by omega
      rw [hf hodd, hcur, hl]
      conv_lhs => rw [hr]
      have hdiv : (2 * (m / 2) + 1) / 2 = m / 2 := by omega
      simp only [subRoot, hdiv]

/-- The incremental root is the root of the tree whose leaves from position `m` on are empty. -/
lemma PendingAt.root {leaf : ℕ → H} {e : H} {k m : ℕ} {fs : List H} {cur : H}
    (hp : PendingAt node leaf k fs m) (hcur : cur = subRoot node leaf k m)
    (hempty : ∀ j, (m + 1) * 2 ^ k ≤ j → leaf j = e) :
    frontierRoot node e fs k m cur = subRoot node leaf (k + fs.length) (m / 2 ^ fs.length) := by
  induction fs generalizing k m cur with
  | nil => simpa [frontierRoot] using hcur
  | cons f fs ih =>
    obtain ⟨hf, hrest⟩ := hp
    have hlen : k + (f :: fs).length = (k + 1) + fs.length := by
      simp only [List.length_cons]; omega
    have hdiv : m / 2 ^ (f :: fs).length = m / 2 / 2 ^ fs.length := by
      rw [List.length_cons, pow_succ', Nat.div_div_eq_div_mul]
    have hnext : (if m % 2 = 1 then node f cur else node cur (emptyRoot node e k))
        = subRoot node leaf (k + 1) (m / 2) := by
      split_ifs with hodd
      · have hl : m - 1 = 2 * (m / 2) := by omega
        have hr : m = 2 * (m / 2) + 1 := by omega
        rw [subRoot, ← hr, ← hl, hf hodd, hcur]
      · have hl : m = 2 * (m / 2) := by omega
        have hsib : subRoot node leaf k (m + 1) = emptyRoot node e k :=
          subRoot_of_empty node k (m + 1) hempty
        rw [subRoot, ← hl, ← hsib, hcur]
    rw [frontierRoot, hlen, hdiv]
    refine ih hrest hnext fun j hj => hempty j (le_trans ?_ hj)
    rw [pow_succ', ← mul_assoc]
    exact Nat.mul_le_mul_right _ (by omega)

end Foundations.Merkle
