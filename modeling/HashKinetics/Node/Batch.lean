import HashKinetics.State.Commitment
import HashKinetics.Consensus.Updates

/-!
# Block values and batches

The payload of a block: opaque bytes under their digest for consensus, a batch of transactions and
certificates for the node.  A batch may carry one aggregate proof in place of the proofs of its pool
transactions; the digest that the aggregate commits to is rebuilt here from the transactions.
-/

namespace HashKinetics

open Foundations Circuit

def DOM_BLOCK_VALUE : String := "hk/v1/block-value"
def DOM_TXID : String := "hk/v1/txid"

/-- The proposed block payload and its digest.  The digest is a field, so a value that was decoded
from the wire carries whatever its sender wrote. -/
structure HkValue (H : Type) where
  id : H
  txs : List UInt8
  deriving DecidableEq

/-- A value made from its content. -/
def HkValue.new {H : Type} [HashSuite H] (txs : List UInt8) : HkValue H where
  id := shake256_32 DOM_BLOCK_VALUE [[.bytes txs]]
  txs := txs

/-- The id of the value is the digest of its content. -/
def HkValue.Bound {H : Type} [HashSuite H] (v : HkValue H) : Prop :=
  (HkValue.new v.txs : HkValue H).id = v.id

lemma HkValue.bound_new {H : Type} [HashSuite H] (txs : List UInt8) :
    (HkValue.new txs : HkValue H).Bound := rfl

/-- The bytes of a block for the application. -/
structure Batch (H : Type) extends CertBatch where
  /-- The commitment of the state the proposer built on. -/
  parentAppHash : H
  txs : List (SignedTx H)
  /-- One proof for every pool transaction of the batch without a proof, or nothing. -/
  aggProof : List UInt8

/-- A round of consensus; before the first one there is none. -/
abbrev Round := Option ℕ

/-- The number of a round, with minus one for none. -/
def Round.asI64 : Round → ℤ
  | some r => r
  | none => -1

/-- A certificate that a value was decided. -/
structure CommitCertificate (H : Type) where
  height : ℕ
  round : Round
  valueId : H
  deriving DecidableEq

/-- A height of the block log. -/
structure StoredBlock (H : Type) where
  height : ℕ
  valueBytes : List UInt8
  certificate : CommitCertificate H
  /-- The verdict of the live commit about the block's aggregate. -/
  aggValid : Bool
  deriving DecidableEq

/-- The serialisation of the values that cross the wire and of the transactions that are hashed. -/
class NodeCodec (H : Type) where
  decodeBatch : List UInt8 → Option (Batch H)
  decodeValue : List UInt8 → Option (HkValue H)
  txJson : SignedTx H → List UInt8

/-- The stable id of a transaction. -/
def txid {H : Type} [HashSuite H] [NodeCodec H] (tx : SignedTx H) : H :=
  shake256_32 DOM_TXID [[.bytes (NodeCodec.txJson tx)]]

/-- The four big-endian bytes of a count. -/
def beBytes32 (n : ℕ) : List UInt8 :=
  [UInt8.ofNat (n / 2 ^ 24), UInt8.ofNat (n / 2 ^ 16), UInt8.ofNat (n / 2 ^ 8), UInt8.ofNat n]

/-- How many bytes a piece stands for. -/
def Piece.size {H : Type} : Piece H → ℕ
  | .digest _ => 32
  | .byte _ => 1
  | .u32 _ => 4
  | .u64 _ => 8
  | .bytes bs => bs.length

section Aggregate

variable {H : Type} [HashSuite H]

/-- One aggregated item. -/
def aggLeaf (kind : UInt8) (vkey : List ℕ) (publics : List (Piece H)) : H :=
  sha ([.byte kind] ++ vkey.map .u32 ++ [.bytes (beBytes32 (publics.map Piece.size).sum)] ++
    publics)

/-- What an aggregate over the given leaves commits to. -/
def aggDigest (leaves : List H) : H := sha (.bytes (beBytes32 leaves.length) :: leaves.map .digest)

end Aggregate

/-- The statement of a shielded proof. -/
inductive Statement (H : Type) where
  | spend (publics : SpendPublic H)
  | mint (publics : MintPublic H)

namespace Statement

variable {H : Type}

def kind : Statement H → UInt8
  | spend _ => KIND_SPEND
  | mint _ => KIND_MINT

/-- The serialized public values. -/
def publics : Statement H → List (Piece H)
  | spend p => p.encode
  | mint p => p.encode

/-- The verifier accepts the proof for the statement. -/
def provedBy (v : ProofVerifier H) (proof : List UInt8) : Statement H → Bool
  | spend p => v.verifySpend proof p
  | mint p => v.verifyMint proof p

/-- The key under which an aggregate covers the statement. -/
def coverKey [HashSuite H] (st : Statement H) : H := HashKinetics.coverKey st.kind st.publics

end Statement

/-- The verifier of aggregates and the verifying keys of the two kinds of statements. -/
structure AggVerifier (H : Type) where
  verify : List UInt8 → H → Bool
  spendVk : List ℕ
  mintVk : List ℕ

section Aggregate

variable {H : Type} [HashSuite H]

/-- The leaf of a statement. -/
def AggVerifier.leaf (v : AggVerifier H) (st : Statement H) : H :=
  aggLeaf st.kind (if st.kind = KIND_MINT then v.mintVk else v.spendVk) st.publics

/-- The aggregate is accepted for the statements, in their order. -/
def AggVerifier.accepts (v : AggVerifier H) (proof : List UInt8) (sts : List (Statement H)) :
    Bool :=
  v.verify proof (aggDigest (sts.map v.leaf))

/-- The statement of a pool transaction that carries no proof.  The public values are `u64`, so
larger amounts are cut to that width; the state machine refuses those before it looks at a proof. -/
def SignedTx.uncovered (tx : SignedTx H) : Option (Statement H) :=
  match tx.payload with
  | .mintToPool _ value commitment proof _ =>
    if proof.isEmpty then
      some (.mint (State.expectedMintPublic commitment (value % 2 ^ 64)))
    else none
  | .shieldedSpend anchor nullifier out out2 fee credit _ proof _ _ =>
    if proof.isEmpty then
      some (.spend (State.expectedSpendPublic anchor nullifier out out2 (fee % 2 ^ 64) credit))
    else none
  | _ => none

/-- The statements a batch leaves to its aggregate, in transaction order. -/
def Batch.uncovered (b : Batch H) : List (Statement H) := b.txs.filterMap SignedTx.uncovered

variable [LinearOrder H]

/-- What an accepted aggregate over the statements covers. -/
def coversOf (sts : List (Statement H)) : OrderedSet H :=
  sts.foldl (fun covers st => covers.insert st.coverKey) ∅

@[simp] lemma contains_coversOf (sts : List (Statement H)) (k : H) :
    (coversOf sts).contains k = true ↔ ∃ st ∈ sts, st.coverKey = k := by
  have hfold : ∀ (acc : OrderedSet H),
      (sts.foldl (fun covers st => covers.insert st.coverKey) acc).contains k = true ↔
        acc.contains k = true ∨ ∃ st ∈ sts, st.coverKey = k := by
    induction sts with
    | nil => simp
    | cons st sts ih =>
      intro acc
      rw [List.foldl_cons, ih]
      simp only [Std.ExtTreeSet.contains_insert, Bool.or_eq_true, beq_iff_eq, List.mem_cons,
        exists_eq_or_imp, Std.compare_eq_iff_eq]
      tauto
  rw [coversOf, hfold]
  simp

end Aggregate

end HashKinetics
