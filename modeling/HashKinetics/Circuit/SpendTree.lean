import HashKinetics.Circuit.Spend

/-!
# One-time spend keys of an address

The wallet side of the spend authority: one-time signatures derived from a master seed, the tree of
their keys below an address, and the authentication path of one of them.  What a wallet signs, the
circuit recovers, for every message and every key of the address.
-/

namespace HashKinetics.Circuit

open Foundations

variable {H : Type} [HashSuite H]

def DOM_SK : UInt8 := 6
def DOM_NK_SEED : UInt8 := 11
def DOM_LEAF_SEED : UInt8 := 12

/-! ## One-time signatures -/

/-- The start of a chain of the key of a seed. -/
def wotsSecret (seed : Piece H) (i : ℕ) : H :=
  sha [.byte DOM_SK, seed, .byte (UInt8.ofNat i)]

/-- The digest of the public key of a seed: every chain at its end. -/
def wotsOwner (seed : Piece H) : H :=
  pkDigest ((List.range WOTS_CHAINS).map fun i => wotsChain i (wotsSecret seed i) (WOTS_W - 1))

/-- Sign a message: every chain at its digit. -/
def wotsSign (seed : Piece H) (msg : H) : List H :=
  (List.range WOTS_CHAINS).map fun i => wotsChain i (wotsSecret seed i) (wotsDigits msg i)

lemma messageDigit_lt (msg : H) (i : ℕ) : messageDigit msg i < WOTS_W := by
  have hbyte := (byteAt msg (i / 2)).toNat_lt
  simp only [messageDigit, WOTS_W]
  split_ifs <;> omega

/-- Every digit is a step count of a chain. -/
lemma wotsDigits_lt (msg : H) (i : ℕ) : wotsDigits msg i < WOTS_W := by
  have hdigit := messageDigit_lt msg i
  simp only [wotsDigits, WOTS_W] at hdigit ⊢
  split_ifs <;> omega

/-- Chain steps add up. -/
lemma wotsChain_add (chain : ℕ) (x : H) (m n : ℕ) :
    wotsChain chain (wotsChain chain x m) n = wotsChain chain x (m + n) := by
  simp only [wotsChain, ← Function.iterate_add_apply, Nat.add_comm n m]

/-- A signature completes to the key that made it. -/
lemma wotsRecoverOwner_wotsSign (seed : Piece H) (msg : H) :
    wotsRecoverOwner (wotsSign seed msg) msg = some (wotsOwner seed) := by
  have hlen : (wotsSign seed msg).length = WOTS_CHAINS := by
    simp [wotsSign]
  have hchains : (wotsSign seed msg).mapIdx
      (fun i x => wotsChain i x (WOTS_W - 1 - wotsDigits msg i)) =
      (List.range WOTS_CHAINS).map fun i => wotsChain i (wotsSecret seed i) (WOTS_W - 1) := by
    refine List.ext_getElem (by simp [wotsSign]) fun i hi hi' => ?_
    have hdigit := wotsDigits_lt msg i
    have hsteps : wotsDigits msg i + (WOTS_W - 1 - wotsDigits msg i) = WOTS_W - 1 := by omega
    simp [wotsSign, wotsChain_add, hsteps]
  rw [wotsRecoverOwner, if_pos hlen, hchains, wotsOwner]

/-! ## The tree of an address -/

/-- The seed of one key of a wallet. -/
def spendLeafSeed (master : List UInt8) (index : ℕ) : H :=
  sha [.byte DOM_LEAF_SEED, .bytes master, .u32 index]

/-- The empty-subtree ladder of a spend tree. -/
def otsEmptyRoots (l : ℕ) : H := Merkle.emptyRoot otsNode (fill 0) l

/-- The key digests of an address with `2 ^ h` keys. -/
def spendTreeLeaves (master : List UInt8) (h : ℕ) : List H :=
  (List.range (2 ^ h)).map fun i => wotsOwner (.digest (spendLeafSeed master i))

/-- One level up, in pairs.  The levels of an address have even length until one node is left. -/
def otsLevel : List H → List H
  | left :: right :: level => otsNode left right :: otsLevel level
  | _ => []

/-- The level `n` steps up. -/
def otsLevels : ℕ → List H → List H
  | 0, level => level
  | n + 1, level => otsLevels n (otsLevel level)

/-- Pad a subtree root with empty subtrees on the right, from level `l` on. -/
def otsPad : ℕ → ℕ → H → H
  | 0, _, root => root
  | n + 1, l, root => otsPad n (l + 1) (otsNode root (otsEmptyRoots l))

/-- The root of the spend tree of an address with `2 ^ h` keys. -/
def spendRoot (master : List UInt8) (h : ℕ) : H :=
  otsPad (SPEND_TREE_DEPTH - h) h ((otsLevels h (spendTreeLeaves master h)).headD (fill 0))

/-- The secret nullifier key of a wallet. -/
def deriveNk (master : List UInt8) : H := sha [.byte DOM_NK_SEED, .bytes master]

/-- The siblings of a key on the real levels; an index beyond the keys has none. -/
def otsSiblings : ℕ → List H → ℕ → Option (List H)
  | 0, _, _ => some []
  | n + 1, level, idx => do
    let sib ← level[idx ^^^ 1]?
    let rest ← otsSiblings n (otsLevel level) (idx / 2)
    return sib :: rest

/-- Sign a message with one key of an address and give the path of that key.  For an index beyond
the keys the source panics; the result is nothing there. -/
def spendAuth (master : List UInt8) (h index : ℕ) (msg : H) : Option (List H × MerklePath H) := do
  let sig := wotsSign (.digest (spendLeafSeed master index)) msg
  let siblings ← otsSiblings h (spendTreeLeaves master h) index
  return (sig,
    { siblings := siblings ++ (List.range' h (SPEND_TREE_DEPTH - h)).map otsEmptyRoots
      index := index })

/-! ## The padded tree -/

/-- The leaf at an index of the padded spend tree. -/
def spendLeaf (master : List UInt8) (h i : ℕ) : H := (spendTreeLeaves master h).getD i (fill 0)

/-- The level is the complete level `k` of the tree over the leaves, with `n` levels to go. -/
def CompleteLevel (leaf : ℕ → H) (k n : ℕ) (level : List H) : Prop :=
  level = (List.range (2 ^ n)).map (Merkle.subRoot otsNode leaf k)

/-- Hashing the nodes of a level in pairs, for nodes given by a function. -/
lemma otsLevel_map_range (f : ℕ → H) (m : ℕ) :
    otsLevel ((List.range (2 * m)).map f) =
      (List.range m).map fun i => otsNode (f (2 * i)) (f (2 * i + 1)) := by
  induction m generalizing f with
  | zero => rfl
  | succ m ih =>
    have hmul : 2 * (m + 1) = 2 * m + 1 + 1 := by ring
    rw [hmul, List.range_succ_eq_map, List.range_succ_eq_map, List.range_succ_eq_map]
    simp only [List.map_cons, List.map_map, otsLevel]
    apply congrArg₂ _ rfl
    exact ih (fun i => f (i + 1 + 1))

lemma CompleteLevel.up {leaf : ℕ → H} {k n : ℕ} {level : List H}
    (h : CompleteLevel leaf k (n + 1) level) : CompleteLevel leaf (k + 1) n (otsLevel level) := by
  unfold CompleteLevel at h ⊢
  rw [h, pow_succ', otsLevel_map_range]
  rfl

/-- The real levels of a tree end in its root. -/
lemma otsLevels_of_complete {leaf : ℕ → H} {k n : ℕ} {level : List H}
    (h : CompleteLevel leaf k n level) :
    otsLevels n level = [Merkle.subRoot otsNode leaf (k + n) 0] := by
  induction n generalizing k level with
  | zero => simpa [CompleteLevel, otsLevels] using h
  | succ n ih =>
    have hadd : k + (n + 1) = k + 1 + n := by omega
    rw [otsLevels, ih h.up, hadd]

/-- On the real levels the siblings are the true ones. -/
lemma otsSiblings_of_complete {leaf : ℕ → H} {k n idx : ℕ} {level : List H}
    (h : CompleteLevel leaf k n level) (hidx : idx < 2 ^ n) :
    otsSiblings n level idx = some (Merkle.siblings otsNode leaf n k idx) := by
  induction n generalizing k idx level with
  | zero => rfl
  | succ n ih =>
    have hpow : 2 ^ (n + 1) = 2 * 2 ^ n := by ring
    have hsib : idx ^^^ 1 < 2 ^ (n + 1) := by
      rw [Merkle.xor_one]
      split_ifs <;> omega
    have hget : level[idx ^^^ 1]? = some (Merkle.subRoot otsNode leaf k (idx ^^^ 1)) := by
      rw [h, List.getElem?_map, List.getElem?_range hsib, Option.map_some]
    have hrest : otsSiblings n (otsLevel level) (idx / 2) =
        some (Merkle.siblings otsNode leaf n (k + 1) (idx / 2)) := ih h.up (by omega)
    simp only [otsSiblings, hget, hrest, Option.bind_eq_bind, Option.bind_some]
    rfl

/-- Above the real levels the padding is the empty right half of the tree. -/
lemma otsPad_eq {leaf : ℕ → H} {n l : ℕ} (h : ∀ j, 2 ^ l ≤ j → leaf j = fill 0) :
    otsPad n l (Merkle.subRoot otsNode leaf l 0) = Merkle.subRoot otsNode leaf (l + n) 0 := by
  induction n generalizing l with
  | zero => rfl
  | succ n ih =>
    have hright : Merkle.subRoot otsNode leaf l 1 = otsEmptyRoots l :=
      Merkle.subRoot_of_empty otsNode l 1 fun j hj => h j (by simpa using hj)
    have hup : otsNode (Merkle.subRoot otsNode leaf l 0) (otsEmptyRoots l) =
        Merkle.subRoot otsNode leaf (l + 1) 0 := by
      rw [← hright]
      rfl
    have hadd : l + (n + 1) = l + 1 + n := by omega
    rw [otsPad, hup, ih fun j hj => h j (le_trans (Nat.pow_le_pow_right (by omega) (by omega)) hj),
      hadd]

/-- Above the real levels the siblings are the ladder. -/
lemma siblings_of_padding {leaf : ℕ → H} {n l : ℕ} (h : ∀ j, 2 ^ l ≤ j → leaf j = fill 0) :
    Merkle.siblings otsNode leaf n l 0 = (List.range' l n).map otsEmptyRoots := by
  induction n generalizing l with
  | zero => rfl
  | succ n ih =>
    have hright : Merkle.subRoot otsNode leaf l 1 = otsEmptyRoots l :=
      Merkle.subRoot_of_empty otsNode l 1 fun j hj => h j (by simpa using hj)
    have hrest := ih (l := l + 1) fun j hj =>
      h j (le_trans (Nat.pow_le_pow_right (by omega) (by omega)) hj)
    rw [Merkle.siblings, List.range'_succ, List.map_cons, ← hrest, ← hright]
    rfl

section

variable (master : List UInt8) {h : ℕ}

lemma completeLevel_spendTreeLeaves :
    CompleteLevel (spendLeaf (H := H) master h) 0 h (spendTreeLeaves master h) := by
  refine List.ext_getElem (by simp [spendTreeLeaves]) fun i hi hi' => ?_
  simp [Merkle.subRoot, spendLeaf, List.getElem?_eq_getElem hi]

lemma spendLeaf_of_le {j : ℕ} (hj : 2 ^ h ≤ j) : spendLeaf (H := H) master h j = fill 0 :=
  List.getD_eq_default _ _ (by simpa [spendTreeLeaves] using hj)

/-- The spend root is the root of the padded tree. -/
lemma spendRoot_eq (hcap : h ≤ SPEND_TREE_DEPTH) :
    spendRoot master h =
      Merkle.subRoot otsNode (spendLeaf (H := H) master h) SPEND_TREE_DEPTH 0 := by
  have hpad : otsPad (SPEND_TREE_DEPTH - h) h (Merkle.subRoot otsNode (spendLeaf master h) h 0) =
      Merkle.subRoot otsNode (spendLeaf (H := H) master h) (h + (SPEND_TREE_DEPTH - h)) 0 :=
    otsPad_eq fun j hj => spendLeaf_of_le master hj
  rw [Nat.add_sub_cancel' hcap] at hpad
  rw [spendRoot, otsLevels_of_complete (completeLevel_spendTreeLeaves master), Nat.zero_add,
    List.headD_cons, hpad]

/-- What a wallet signs with one of its keys: a signature that completes to the key, and a path from
it to the spend root. -/
lemma spendAuth_spec (hcap : h ≤ SPEND_TREE_DEPTH) {index : ℕ} (hidx : index < 2 ^ h) (msg : H) :
    ∃ sig path leaf, spendAuth master h index msg = some (sig, path) ∧
      path.siblings.length = SPEND_TREE_DEPTH ∧ wotsRecoverOwner sig msg = some leaf ∧
      Merkle.foldPath otsNode path.siblings path.index leaf = spendRoot master h := by
  have hreal := otsSiblings_of_complete (completeLevel_spendTreeLeaves (H := H) master) hidx
  have hsplit : Merkle.siblings otsNode (spendLeaf (H := H) master h) SPEND_TREE_DEPTH 0 index =
      Merkle.siblings otsNode (spendLeaf master h) h 0 index ++
        (List.range' h (SPEND_TREE_DEPTH - h)).map otsEmptyRoots := by
    have hadd := Merkle.siblings_add otsNode (spendLeaf (H := H) master h) h
      (SPEND_TREE_DEPTH - h) 0 index
    rw [Nat.add_sub_cancel' hcap, Nat.div_eq_of_lt hidx, Nat.zero_add,
      siblings_of_padding fun j hj => spendLeaf_of_le master hj] at hadd
    exact hadd
  refine ⟨_, _, wotsOwner (.digest (spendLeafSeed master index)), by
    simp only [spendAuth, hreal, Option.bind_eq_bind, Option.bind_some]; rfl, ?_,
    wotsRecoverOwner_wotsSign _ _, ?_⟩
  · simp [Nat.add_sub_cancel' hcap]
  · have hleaf : Merkle.subRoot otsNode (spendLeaf master h) 0 index =
        wotsOwner (.digest (spendLeafSeed (H := H) master index)) := by
      simp [Merkle.subRoot, spendLeaf, spendTreeLeaves, List.getD_eq_getElem?_getD,
        List.getElem?_range hidx]
    have hfold := Merkle.foldPath_siblings otsNode (spendLeaf (H := H) master h)
      SPEND_TREE_DEPTH 0 index
    have htop : index / 2 ^ SPEND_TREE_DEPTH = 0 :=
      Nat.div_eq_of_lt (hidx.trans_le (Nat.pow_le_pow_right (by omega) hcap))
    rw [hleaf, hsplit, Nat.zero_add, htop, ← spendRoot_eq master hcap] at hfold
    exact hfold

end

end HashKinetics.Circuit
