import HashKinetics.State.Anchors
import HashKinetics.Concrete

/-!
# Three views of a commitment tree

The chain keeps a frontier, a wallet rebuilds a path from every commitment it saw, and the circuit
folds that path.  All three are the plain binary tree over the commitments, padded with the empty
leaf.  Under an injective node hash the root and the size of a tree, which is what a commitment of
the state covers, determine the whole tree and so everything that is appended to it later.
-/

namespace HashKinetics

open Foundations Circuit

variable {H : Type} [HashSuite H]

/-! ## Paths from the leaves -/

/-- One level up: nodes are hashed in pairs, a last single node with the empty subtree. -/
def nextLevel (empty : H) : List H → List H
  | [] => []
  | [left] => [merkleNode left empty]
  | left :: right :: level => merkleNode left right :: nextLevel empty level

/-- The loop over `n` levels from level `l` on: the siblings passed and the level reached. -/
def treePathLoop : ℕ → ℕ → List H → ℕ → List H × List H
  | 0, _, level, _ => ([], level)
  | n + 1, l, level, idx =>
    let sib := if idx ^^^ 1 < level.length then level.getD (idx ^^^ 1) (emptyRoots l)
      else emptyRoots l
    let r := treePathLoop n (l + 1) (nextLevel (emptyRoots l) level) (idx / 2)
    (sib :: r.1, r.2)

/-- The path to a leaf and the root, from all leaves.  Without leaves or beyond the last one the
source panics; the result is nothing there. -/
def fullTreePath (leaves : List H) (index : ℕ) : Option (List H × H) :=
  if leaves.isEmpty then none
  else if ¬ index < leaves.length then none
  else
    let r := treePathLoop TREE_DEPTH 0 leaves index
    r.2.head?.map fun root => (r.1, root)

/-- A level, padded with the empty subtree, is hashed in pairs. -/
lemma getD_nextLevel (empty : H) (level : List H) (j : ℕ) :
    (nextLevel empty level).getD j (merkleNode empty empty) =
      merkleNode (level.getD (2 * j) empty) (level.getD (2 * j + 1) empty) := by
  fun_induction nextLevel empty level generalizing j with
  | case1 => simp
  | case2 left =>
    cases j with
    | zero => simp
    | succ j => simp [Nat.mul_add]
  | case3 left right level ih =>
    cases j with
    | zero => simp
    | succ j => simpa [Nat.mul_add] using ih j

lemma nextLevel_ne_nil {empty : H} {level : List H} (h : level ≠ []) :
    nextLevel empty level ≠ [] := by
  fun_cases nextLevel empty level with
  | case1 => exact absurd rfl h
  | case2 | case3 => simp

/-- The loop collects the siblings of the tree and ends in its root. -/
lemma treePathLoop_eq {leaf : ℕ → H} (n l : ℕ) (level : List H) (idx : ℕ) (hne : level ≠ [])
    (hlevel : ∀ j, level.getD j (emptyRoots l) = Merkle.subRoot merkleNode leaf l j) :
    (treePathLoop n l level idx).1 = Merkle.siblings merkleNode leaf n l idx ∧
      (treePathLoop n l level idx).2.head? = some (Merkle.subRoot merkleNode leaf (l + n) 0) := by
  induction n generalizing l level idx with
  | zero =>
    obtain ⟨x, rest, rfl⟩ := List.exists_cons_of_ne_nil hne
    exact ⟨rfl, congrArg some (hlevel 0)⟩
  | succ n ih =>
    have hup : ∀ j, (nextLevel (emptyRoots l) level).getD j (emptyRoots (l + 1)) =
        Merkle.subRoot merkleNode leaf (l + 1) j := by
      intro j
      rw [Merkle.subRoot, ← hlevel, ← hlevel]
      exact getD_nextLevel _ _ _
    have hsib : (if idx ^^^ 1 < level.length then level.getD (idx ^^^ 1) (emptyRoots l)
        else emptyRoots l) = Merkle.subRoot merkleNode leaf l (idx ^^^ 1) := by
      rw [← hlevel]
      split_ifs with hin
      · rfl
      · exact (List.getD_eq_default _ _ (not_lt.mp hin)).symm
    obtain ⟨hpath, hroot⟩ := ih (l + 1) _ (idx / 2) (nextLevel_ne_nil hne) hup
    have hadd : l + (n + 1) = l + 1 + n := by omega
    rw [hadd]
    refine ⟨?_, hroot⟩
    simp only [treePathLoop, Merkle.siblings, hsib, hpath]

/-- The path of a leaf is the true one, and the root with it is the root of the plain tree. -/
lemma fullTreePath_eq {leaves : List H} {index : ℕ} (h : index < leaves.length) :
    fullTreePath leaves index =
      some (Merkle.siblings merkleNode (leafAt leaves) TREE_DEPTH 0 index,
        Merkle.subRoot merkleNode (leafAt leaves) TREE_DEPTH 0) := by
  have hne : leaves ≠ [] := List.ne_nil_of_length_pos (Nat.zero_lt_of_lt h)
  have hlevel : ∀ j, leaves.getD j (emptyRoots 0) =
      Merkle.subRoot merkleNode (leafAt leaves) 0 j := by
    intro j
    rw [List.getD_eq_getElem?_getD]
    rfl
  obtain ⟨hpath, hroot⟩ := treePathLoop_eq TREE_DEPTH 0 leaves index hne hlevel
  rw [Nat.zero_add] at hroot
  simp only [fullTreePath, List.isEmpty_eq_false_iff.mpr hne, h, hpath, hroot, not_true_eq_false,
    Bool.false_eq_true, if_false, Option.map_some]

/-! ## Sequences of appends -/

namespace IncrementalTree

/-- Append commitments one after another: what every call answers, and the tree at the end. -/
def appendAll (t : IncrementalTree H) : List H → List (Option ℕ) × IncrementalTree H
  | [] => ([], t)
  | leaf :: leaves =>
    match t.append leaf with
    | none => (none :: (t.appendAll leaves).1, (t.appendAll leaves).2)
    | some (pos, t') => (some pos :: (t'.appendAll leaves).1, (t'.appendAll leaves).2)

/-- A tree reached from the empty one by calls of `append`. -/
def Reached (t : IncrementalTree H) : Prop := ∃ leaves, t = (new.appendAll leaves).2

variable [LinearOrder H]

omit [LinearOrder H] in
/-- A tree of known leaves has room exactly for fewer leaves than the last slot. -/
lemma isFull_ofLeaves {cms : List H} (h : cms.length < 2 ^ TREE_DEPTH) :
    (ofLeaves cms).isFull ↔ cms.length = 2 ^ TREE_DEPTH - 1 := by
  simp only [isFull, hasCapacity, satAdd, u64Max, nextIndex_ofLeaves]
  simp only [TREE_DEPTH] at h ⊢
  omega

omit [LinearOrder H] in
/-- While the last slot is not reached, appends hand out the indices in order. -/
lemma appendAll_ofLeaves (cms leaves : List H)
    (h : cms.length + leaves.length < 2 ^ TREE_DEPTH) :
    (ofLeaves cms).appendAll leaves =
      ((List.range' cms.length leaves.length).map some, ofLeaves (cms ++ leaves)) := by
  induction leaves generalizing cms with
  | nil => simp [appendAll]
  | cons leaf leaves ih =>
    rw [List.length_cons] at h
    have hroom : ¬ (ofLeaves cms).isFull := by
      rw [isFull_ofLeaves (by omega)]
      omega
    have happend : (ofLeaves cms).append leaf = some (cms.length, ofLeaves (cms ++ [leaf])) := by
      rw [append, if_neg hroom, nextIndex_ofLeaves, ofLeaves_append]
    have hnext := ih (cms ++ [leaf]) (by rw [List.length_append, List.length_singleton]; omega)
    rw [List.length_append, List.length_singleton, List.append_assoc, List.singleton_append]
      at hnext
    simp only [appendAll, happend, hnext, List.length_cons, List.range'_succ, List.map_cons]

omit [LinearOrder H] in
/-- A reached tree is a tree of known leaves. -/
lemma exists_leaves_of_reached {t : IncrementalTree H} (h : t.Reached) :
    ∃ cms, cms.length < 2 ^ TREE_DEPTH ∧ t = ofLeaves cms := by
  obtain ⟨leaves, rfl⟩ := h
  -- along the appends the tree stays one of known leaves; a full tree is left as it is
  have hkeep : ∀ (leaves cms : List H), cms.length < 2 ^ TREE_DEPTH →
      ∃ cms', cms'.length < 2 ^ TREE_DEPTH ∧ ((ofLeaves cms).appendAll leaves).2 =
        ofLeaves cms' := by
    intro leaves
    induction leaves with
    | nil => exact fun cms hlt => ⟨cms, hlt, rfl⟩
    | cons leaf leaves ih =>
      intro cms hlt
      by_cases hfull : (ofLeaves cms).isFull
      · rw [appendAll, append, if_pos hfull]
        exact ih cms hlt
      · rw [appendAll, append, if_neg hfull, ← ofLeaves_append]
        rw [isFull_ofLeaves hlt] at hfull
        apply ih _
        rw [List.length_append, List.length_singleton]
        omega
  exact hkeep leaves [] (Nat.two_pow_pos _)

omit [LinearOrder H] in
/-- Fewer commitments than slots enter the empty tree under the indices from zero on, the root is
the root of the plain tree over them, and the path rebuilt for any of them folds to that root. -/
theorem appendAll_new (leaves : List H) (hlen : leaves.length < 2 ^ TREE_DEPTH) :
    (new.appendAll leaves).1 = (List.range leaves.length).map some ∧
      (new.appendAll leaves).2.root =
        Merkle.subRoot merkleNode (leafAt leaves) TREE_DEPTH 0 ∧
      ∀ i (hi : i < leaves.length), ∃ siblings,
        fullTreePath leaves i = some (siblings, (new.appendAll leaves).2.root) ∧
        siblings.length = TREE_DEPTH ∧
        Merkle.foldPath merkleNode siblings i leaves[i] = (new.appendAll leaves).2.root := by
  have hall := appendAll_ofLeaves [] leaves (by simpa using hlen)
  have hnew : (new : IncrementalTree H) = ofLeaves [] := rfl
  have hroot := root_ofLeaves hlen
  rw [hnew, hall, List.nil_append, List.range_eq_range', hroot]
  refine ⟨rfl, rfl, ?_⟩
  intro i hi
  have hleaf : Merkle.subRoot merkleNode (leafAt leaves) 0 i = leaves[i] := by
    simp [Merkle.subRoot, leafAt, hi]
  have hfold := Merkle.foldPath_siblings merkleNode (leafAt leaves) TREE_DEPTH 0 i
  rw [hleaf, Nat.zero_add, Nat.div_eq_of_lt (hi.trans hlen)] at hfold
  exact ⟨_, fullTreePath_eq hi, Merkle.length_siblings _ _ _ _ _, hfold⟩

/-- Two commitments enter the empty tree under the first two indices. -/
theorem appendAll_new_pair :
    ((new : IncrementalTree ℕ).appendAll [7, 8]).1 = [some 0, some 1] :=
  (appendAll_new [7, 8] (by decide)).1

omit [LinearOrder H] in
/-- Reached trees of one size and one root answer every further sequence of appends alike, and have
equal roots after it. -/
theorem appendAll_eq_of_root_eq (hnode : Function.Injective2 (merkleNode (H := H)))
    (t t' : IncrementalTree H) (ht : t.Reached) (ht' : t'.Reached)
    (hsize : t.nextIndex = t'.nextIndex) (hroot : t.root = t'.root) (leaves : List H) :
    (t.appendAll leaves).1 = (t'.appendAll leaves).1 ∧
      (t.appendAll leaves).2.nextIndex = (t'.appendAll leaves).2.nextIndex ∧
      (t.appendAll leaves).2.root = (t'.appendAll leaves).2.root := by
  obtain ⟨cms, hlt, rfl⟩ := exists_leaves_of_reached ht
  obtain ⟨cms', -, rfl⟩ := exists_leaves_of_reached ht'
  rw [nextIndex_ofLeaves, nextIndex_ofLeaves] at hsize
  obtain rfl := leaves_eq_of_root_eq hnode hlt hsize hroot
  exact ⟨rfl, rfl, rfl⟩

/-- A tree of two commitments and its rebuilt copy go on alike. -/
theorem appendAll_eq_of_root_eq_copy :
    ((ofLeaves [7, 8] : IncrementalTree ℕ).appendAll [9]).2.root =
      (((new : IncrementalTree ℕ).appendAll [7, 8]).2.appendAll [9]).2.root := by
  have hcopy : (ofLeaves [7, 8] : IncrementalTree ℕ) = (new.appendAll [7, 8]).2 := rfl
  exact (appendAll_eq_of_root_eq Concrete.domainSeparated.node _ _ ⟨_, hcopy⟩ ⟨_, rfl⟩
    (congrArg nextIndex hcopy) (congrArg root hcopy) [9]).2.2

end IncrementalTree

end HashKinetics
