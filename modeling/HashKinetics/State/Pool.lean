import HashKinetics.Circuit.Spend
import HashKinetics.Foundations.OrderedMap

/-!
# Shielded-pool state

What consensus keeps for one pool: the append-only commitment tree in frontier form, the window of
recent anchors, the nullifiers of spent notes, and the total the pool holds.
-/

namespace HashKinetics

open Foundations Circuit

/-- How many recent block-end roots remain valid spend anchors. -/
def ANCHOR_WINDOW : ℕ := 128

/-- An append-only Merkle tree: one pending left subtree per level along the insertion path. -/
structure IncrementalTree (H : Type) where
  frontier : List H
  nextIndex : ℕ
  frontier_length : frontier.length = TREE_DEPTH

namespace IncrementalTree

variable {H : Type} [HashSuite H]

/-- The empty tree. -/
def new : IncrementalTree H where
  frontier := List.replicate TREE_DEPTH (fill 0)
  nextIndex := 0
  frontier_length := List.length_replicate

/-- Room for `n` more commitments; one slot of the full tree is never used. -/
def hasCapacity (t : IncrementalTree H) (n : ℕ) : Prop :=
  satAdd u64Max t.nextIndex n ≤ 2 ^ TREE_DEPTH - 1

instance (t : IncrementalTree H) (n : ℕ) : Decidable (t.hasCapacity n) :=
  inferInstanceAs (Decidable (_ ≤ _))

def isFull (t : IncrementalTree H) : Prop := ¬ t.hasCapacity 1

instance (t : IncrementalTree H) : Decidable t.isFull :=
  inferInstanceAs (Decidable (¬ _))

/-- The tree with one more leaf. -/
def appended (t : IncrementalTree H) (leaf : H) : IncrementalTree H where
  frontier := Merkle.appendFrontier merkleNode t.frontier t.nextIndex leaf
  nextIndex := t.nextIndex + 1
  frontier_length := by
    rw [Merkle.length_appendFrontier]
    exact t.frontier_length

/-- Append a commitment; the leaf index and the new tree, or nothing when full. -/
def append (t : IncrementalTree H) (leaf : H) : Option (ℕ × IncrementalTree H) :=
  if t.isFull then none else some (t.nextIndex, t.appended leaf)

/-- Appending succeeds exactly when there is room. -/
lemma append_eq_some {t : IncrementalTree H} {leaf : H} {r : ℕ × IncrementalTree H} :
    t.append leaf = some r ↔ t.hasCapacity 1 ∧ (t.nextIndex, t.appended leaf) = r := by
  by_cases h : t.hasCapacity 1 <;> simp [append, isFull, h]

/-- The current root: the frontier folded against the empty ladder. -/
def root (t : IncrementalTree H) : H :=
  Merkle.frontierRoot merkleNode emptyLeaf t.frontier 0 t.nextIndex emptyLeaf

end IncrementalTree

/-- One shielded pool. -/
structure PoolState (H : Type) [LinearOrder H] where
  version : ℕ
  /-- The asset of the pool; nothing until the first shield pins it. -/
  asset : Option H
  tree : IncrementalTree H
  /-- The nullifiers of spent notes, kept forever. -/
  nullifiers : OrderedSet H
  /-- Everything shielded less everything unshielded. -/
  totalShielded : ℕ
  /-- Recent block-end roots, oldest first. -/
  anchors : List H

namespace PoolState

variable {H : Type} [LinearOrder H] [HashSuite H]

/-- The pool of an asset that was never shielded. -/
def default : PoolState H where
  version := 1
  asset := none
  tree := .new
  nullifiers := ∅
  totalShielded := 0
  anchors := []

/-- The block-end root becomes a valid anchor; an unchanged root is not repeated. -/
def sealAnchor (p : PoolState H) : PoolState H :=
  let r := p.tree.root
  if p.anchors.getLast? = some r then p
  else
    let anchors := p.anchors ++ [r]
    { p with anchors := if ANCHOR_WINDOW < anchors.length then anchors.tail else anchors }

@[simp] lemma sealAnchor_asset (p : PoolState H) : p.sealAnchor.asset = p.asset := by
  unfold sealAnchor
  dsimp only
  split_ifs <;> rfl

@[simp] lemma sealAnchor_tree (p : PoolState H) : p.sealAnchor.tree = p.tree := by
  unfold sealAnchor
  dsimp only
  split_ifs <;> rfl

@[simp] lemma sealAnchor_nullifiers (p : PoolState H) :
    p.sealAnchor.nullifiers = p.nullifiers := by
  unfold sealAnchor
  dsimp only
  split_ifs <;> rfl

@[simp] lemma sealAnchor_totalShielded (p : PoolState H) :
    p.sealAnchor.totalShielded = p.totalShielded := by
  unfold sealAnchor
  dsimp only
  split_ifs <;> rfl

/-- The root that a pool seals is one of its anchors. -/
lemma root_mem_sealAnchor (p : PoolState H) : p.tree.root ∈ p.sealAnchor.anchors := by
  unfold sealAnchor
  dsimp only
  split_ifs with hlast hfull
  · exact List.mem_of_getLast? hlast
  · rw [ANCHOR_WINDOW, List.length_append, List.length_singleton] at hfull
    cases h : p.anchors with
    | nil =>
      rw [h] at hfull
      simp at hfull
    | cons r rs => simp
  · simp

/-- The pool after `value` was shielded under `commitment`. -/
def minted (p : PoolState H) (asset commitment : H) (value : ℕ) : PoolState H :=
  { p with
    asset := some (p.asset.getD asset)
    tree := p.tree.appended commitment
    totalShielded := satAdd u128Max p.totalShielded value }

/-- Shield `value` under `commitment`; the first shield pins the asset of the pool. -/
def mint (p : PoolState H) (asset commitment : H) (value : ℕ) : Option (PoolState H) := do
  let r ← p.tree.append commitment
  return { p with
    asset := some (p.asset.getD asset)
    tree := r.2
    totalShielded := satAdd u128Max p.totalShielded value }

/-- The pool after a spend paid out `fee`. -/
def spent (p : PoolState H) (nf out out2 : H) (fee : ℕ) : PoolState H :=
  { p with
    nullifiers := p.nullifiers.insert nf
    tree := (p.tree.appended out).appended out2
    totalShielded := p.totalShielded - fee }

/-- Spend: the nullifier is recorded, both outputs enter the tree and the fee leaves the total. -/
def spend (p : PoolState H) (nf out out2 : H) (fee : ℕ) : Option (PoolState H) := do
  let r₁ ← p.tree.append out
  let r₂ ← r₁.2.append out2
  return { p with
    nullifiers := p.nullifiers.insert nf
    tree := r₂.2
    totalShielded := if 0 < fee then p.totalShielded - fee else p.totalShielded }

/-- A shield goes through exactly when the tree has room. -/
lemma mint_eq_some {p p' : PoolState H} {asset commitment : H} {value : ℕ} :
    p.mint asset commitment value = some p' ↔
      p.tree.hasCapacity 1 ∧ p.minted asset commitment value = p' := by
  simp [mint, minted, IncrementalTree.append_eq_some, Option.bind_eq_some_iff]

/-- A spend that went through is the pure update. -/
lemma spent_of_spend {p p' : PoolState H} {nf out out2 : H} {fee : ℕ}
    (h : p.spend nf out out2 fee = some p') : p' = p.spent nf out out2 fee := by
  have hfee : (if 0 < fee then p.totalShielded - fee else p.totalShielded)
      = p.totalShielded - fee := by
    split_ifs <;> omega
  simp only [spend, IncrementalTree.append_eq_some, Option.bind_eq_bind, Option.bind_eq_some_iff,
    hfee] at h
  obtain ⟨_, ⟨-, rfl⟩, _, ⟨-, rfl⟩, h⟩ := h
  cases h
  rfl

/-- A spend goes through when there is room for both outputs. -/
lemma spend_of_hasCapacity {p : PoolState H} (h : p.tree.hasCapacity 2) (nf out out2 : H)
    (fee : ℕ) :
    p.spend nf out out2 fee = some (p.spent nf out out2 fee) := by
  have hfirst : p.tree.hasCapacity 1 := by
    simp only [IncrementalTree.hasCapacity, satAdd] at h ⊢
    omega
  have hsecond : (p.tree.appended out).hasCapacity 1 := by
    simp only [IncrementalTree.hasCapacity, IncrementalTree.appended, satAdd, u64Max, TREE_DEPTH]
      at h ⊢
    omega
  have hfee : (if 0 < fee then p.totalShielded - fee else p.totalShielded) =
      p.totalShielded - fee := by
    split_ifs <;> omega
  simp [spend, spent, IncrementalTree.append, IncrementalTree.isFull, hfirst, hsecond, hfee]

def isRecentAnchor (p : PoolState H) (root : H) : Prop := root ∈ p.anchors

instance (p : PoolState H) (root : H) : Decidable (p.isRecentAnchor root) :=
  inferInstanceAs (Decidable (_ ∈ _))

end PoolState

/-- Proof verification, injected by the node. -/
structure ProofVerifier (H : Type) where
  verifySpend : List UInt8 → SpendPublic H → Bool
  verifyMint : List UInt8 → MintPublic H → Bool

/-- The default verifier refuses every proof. -/
def RejectAllVerifier (H : Type) : ProofVerifier H where
  verifySpend _ _ := false
  verifyMint _ _ := false

/-- Statement kinds of the aggregation tier. -/
def KIND_SPEND : UInt8 := 1
def KIND_MINT : UInt8 := 2

section Cover

variable {H : Type} [HashSuite H]

/-- The serialized public values of a spend. -/
def Circuit.SpendPublic.encode (p : SpendPublic H) : List (Piece H) :=
  [.digest p.merkleRoot, .digest p.nullifier, .digest p.outCommitment, .digest p.out2Commitment,
    .u64 p.fee, .digest p.txBinding]

/-- The serialized public values of a mint. -/
def Circuit.MintPublic.encode (p : MintPublic H) : List (Piece H) :=
  [.digest p.commitment, .u64 p.value]

/-- The key under which an aggregate covers a statement. -/
def coverKey (kind : UInt8) (publics : List (Piece H)) : H :=
  shake256_32 DOM_AGG_COVER [[.byte kind], publics]

end Cover

end HashKinetics
