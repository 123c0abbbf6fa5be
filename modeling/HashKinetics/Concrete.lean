import HashKinetics.State.Genesis
import HashKinetics.Consensus.Updates

/-!
# A concrete instance

Digests as natural numbers, so that runs of the state machine can be evaluated.  The hash of
accounts and keys is a small mixing hash; the hash of the spend circuit is an injective code, as the
solvency of the pools needs it.  Transactions are signed with honestly derived Lamport keys,
certificates with a checksum in place of the root signature.
-/

namespace HashKinetics.Concrete

open Foundations

/-- One round of the mixing hash. -/
def mixRound (acc x : ℕ) : ℕ := (acc * 1103515245 + x + 12345) % 2 ^ 61

def pieceCode : Piece ℕ → List ℕ
  | .digest h => [h]
  | .byte b => [b.toNat]
  | .u32 n => [n]
  | .u64 n => [n]
  | .bytes bs => bs.map UInt8.toNat

/-- An injective code of lists of numbers. -/
def listCode : List ℕ → ℕ
  | [] => 0
  | x :: xs => Nat.pair x (listCode xs) + 1

/-- A code of the pieces of the spend circuit, injective on its fixed-width pieces. -/
def pieceTag : Piece ℕ → ℕ
  | .digest h => 5 * h
  | .byte b => 5 * b.toNat + 1
  | .u32 n => 5 * n + 2
  | .u64 n => 5 * n + 3
  | .bytes _ => 4

instance : HashSuite ℕ where
  shake256_32 dom parts :=
    parts.foldl (fun acc p => (p.flatMap pieceCode).foldl mixRound (mixRound acc p.length))
      dom.length
  sha parts := listCode (parts.map pieceTag) + 256
  fill b := b.toNat
  byteAt h i := UInt8.ofNat (h / 256 ^ i)

/-- A short code of a payload: its kind and its main fields. -/
def txCode : Tx ℕ → List ℕ
  | .transfer dst asset amount => [0, dst, asset, amount]
  | .mandateCreate id parent holder asset rate bufferMax perTxMax initial expiry tier =>
    [1, id, parent.getD 0, holder, asset, rate, bufferMax.val, perTxMax, initial, expiry, tier]
  | .mandateSpend leaf dst amount => [2, leaf, dst, amount]
  | .mandateRevoke target => [3, target]
  | .channelOpen id mandate payee asset tip unitPrice maxSteps expiry =>
    [4, id, mandate, payee, asset, tip, unitPrice, maxSteps, expiry]
  | .channelSettle id word step => [5, id, word, step]
  | .channelRefund id => [6, id]
  | .mintToPool asset value commitment _ _ => [7, asset, value, commitment]
  | .shieldedSpend anchor nf out out2 fee credit mandate _ _ _ =>
    [8, anchor, nf, out, out2, fee, credit.getD 0, mandate.getD 0]
  | .accountCreate id authCommit asset amount => [9, id, authCommit, asset, amount]
  | .assetRegister asset _ decimals _ => [10, asset, decimals]
  | .assetMint asset dst amount => [11, asset, dst, amount]
  | .assetBurn asset amount _ => [12, asset, amount]
  | .assetFreeze asset account frozen => [13, asset, account, frozen.toNat]
  | .assetPause asset paused => [14, asset, paused.toNat]

instance : TxCodec ℕ where
  jsonBytes tx := some ((txCode tx).map UInt8.ofNat)

/-! ## Digests of a fixed width

The code above grows with the depth of a commitment tree.  Where a run needs the roots of the pools,
digests are the values of the mixing hash. -/

abbrev Digest := Fin 2305843009213693952

instance neZero_digest : NeZero 2305843009213693952 := inferInstance

def digestCode : Piece Digest → List ℕ
  | .digest h => [h.val]
  | .byte b => [b.toNat]
  | .u32 n => [n]
  | .u64 n => [n]
  | .bytes bs => bs.map UInt8.toNat

/-- The mixing hash of some pieces. -/
def mixPieces (acc : ℕ) (ps : List (Piece Digest)) : ℕ :=
  (ps.flatMap digestCode).foldl mixRound (mixRound acc ps.length)

instance : HashSuite Digest where
  shake256_32 dom parts := Fin.ofNat _ (parts.foldl mixPieces dom.length)
  sha parts := Fin.ofNat _ (mixPieces 7 parts)
  fill b := Fin.ofNat _ b.toNat
  byteAt h i := UInt8.ofNat (h.val / 256 ^ i)

/-- A short code of a payload over these digests, with the length of its proof. -/
def digestTxCode : Tx Digest → List ℕ
  | .transfer dst asset amount => [0, dst, asset, amount]
  | .mandateCreate id parent holder asset rate bufferMax perTxMax initial expiry tier =>
    [1, id, (parent.getD 0).val, holder, asset, rate, bufferMax.val, perTxMax, initial, expiry,
      tier]
  | .mandateSpend leaf dst amount => [2, leaf, dst, amount]
  | .mandateRevoke target => [3, target]
  | .channelOpen id mandate payee asset tip unitPrice maxSteps expiry =>
    [4, id, mandate, payee, asset, tip, unitPrice, maxSteps, expiry]
  | .channelSettle id word step => [5, id, word, step]
  | .channelRefund id => [6, id]
  | .mintToPool asset value commitment proof _ => [7, asset, value, commitment, proof.length]
  | .shieldedSpend anchor nf out out2 fee credit mandate proof _ _ =>
    [8, anchor, nf, out, out2, fee, (credit.getD 0).val, (mandate.getD 0).val, proof.length]
  | .accountCreate id authCommit asset amount => [9, id, authCommit, asset, amount]
  | .assetRegister asset _ decimals _ => [10, asset, decimals]
  | .assetMint asset dst amount => [11, asset, dst, amount]
  | .assetBurn asset amount _ => [12, asset, amount]
  | .assetFreeze asset account frozen => [13, asset, account, frozen.toNat]
  | .assetPause asset paused => [14, asset, paused.toNat]

instance : TxCodec Digest where
  jsonBytes tx := some ((digestTxCode tx).flatMap leBytes)

/-- An honestly signed transaction over these digests. -/
def signedDigest (seed : List UInt8) (sender : Digest) (nonce : ℕ) (payload : Tx Digest) :
    SignedTx Digest :=
  (signAt seed sender nonce payload).get rfl

lemma verifyEnvelope_signedDigest (seed : List UInt8) (sender : Digest) (nonce : ℕ)
    (payload : Tx Digest) :
    State.verifyEnvelope (signedDigest seed sender nonce payload) = true :=
  State.verifyEnvelope_signAt (Option.some_get _).symm

/-- An honestly signed transaction. -/
def signed (seed : List UInt8) (sender nonce : ℕ) (payload : Tx ℕ) : SignedTx ℕ :=
  (signAt seed sender nonce payload).get rfl

@[simp] lemma payload_signed (seed : List UInt8) (sender nonce : ℕ) (payload : Tx ℕ) :
    (signed seed sender nonce payload).payload = payload := rfl

lemma signAt_eq_signed (seed : List UInt8) (sender nonce : ℕ) (payload : Tx ℕ) :
    signAt seed sender nonce payload = some (signed seed sender nonce payload) :=
  (Option.some_get _).symm

/-- The key of an honest transaction is the one of its nonce. -/
lemma pkCommit_signed (seed : List UInt8) (sender nonce : ℕ) (payload : Tx ℕ) :
    Lamport.pkCommit (signed seed sender nonce payload).lamportPk = commitAt seed nonce :=
  pkCommit_of_signAt (signAt_eq_signed _ _ _ _)

lemma verifyEnvelope_signed (seed : List UInt8) (sender nonce : ℕ) (payload : Tx ℕ) :
    State.verifyEnvelope (signed seed sender nonce payload) = true :=
  State.verifyEnvelope_signAt (signAt_eq_signed _ _ _ _)

/-- The state a node with configuration `c` starts from. -/
def start {H : Type} [LinearOrder H] [HashSuite H] (g : Genesis H) (c : State.NodeConfig H) :
    State H :=
  match State.fromGenesis g with
  | .ok s => s.configured c
  | .error _ => .default

lemma initial_start {H : Type} [LinearOrder H] [HashSuite H] {g : Genesis H}
    (c : State.NodeConfig H) (h : (State.fromGenesis g).isOk = true) :
    State.Initial g (start g c) := by
  unfold start
  cases hg : State.fromGenesis g with
  | ok s => exact ⟨s, c, hg, rfl⟩
  | error e =>
    rw [hg] at h
    cases h

/-- An account of the concrete chain: its id is its seed. -/
def account (id : UInt8) : GenesisAccount ℕ := ⟨id.toNat, commitAt [id] 0⟩

/-- A configuration without fees, with every activation height at zero. -/
def config {H : Type} : State.NodeConfig H where
  verifier := RejectAllVerifier H
  fee := none
  multiPoolFrom := 0
  mandateAssetFrom := 0
  paywordCapFrom := 0

/-! ## Validators -/

/-- The checksum that stands for a root signature. -/
def checksum (pk msg : List UInt8) : UInt8 :=
  UInt8.ofNat (((pk ++ msg).map UInt8.toNat).foldl mixRound 0)

instance : RootScheme where
  Secret := UInt8
  publicBytes k := List.replicate ROOT_PK_LEN k
  sign k msg := List.replicate ROOT_SIG_LEN (checksum (List.replicate ROOT_PK_LEN k) msg)
  rootVerify pk msg sig := sig.head? = some (checksum pk msg)

/-- The root identity of a secret. -/
def rootOf (k : UInt8) : List UInt8 := RootScheme.publicBytes k

/-- The validator rules of the concrete chain. -/
def setRules : SetRules where
  chainId := "hashkinetics-devnet-1"
  rotationV2From := 0
  genesisRoots := [rootOf 1]
  bootstrap := none

/-- One founder that holds more than two thirds of the power next to a newcomer. -/
def founders : List GenesisValidator := [⟨rootOf 1, [1, 1], 10⟩]

/-- The set of the founders. -/
def foundingSet : HkValidatorSet ℕ :=
  .new (founders.map fun v => .new v.rootPk v.publicKey v.votingPower) (by simp [founders])

lemma genesis_founders : genesisValidatorSet founders = .ok foundingSet := by
  decide +kernel

/-- A set change that the founder approves. -/
def approved (change : SetChange) : SetChangeCert :=
  let body : SetChangeBody := ⟨setRules.chainId, change, 1, 100⟩
  ⟨body, [Approval.sign (1 : UInt8) body]⟩

/-- Seat the newcomer. -/
def admission : SetChangeCert := approved (.admitSeat (rootOf 2) [2, 2] 1)

/-- Unseat it. -/
def removal : SetChangeCert := approved (.remove (rootOf 2))

/-- The newcomer's first rotation. -/
def firstRotation : RotationCert :=
  .issue (2 : UInt8) .v2 setRules.chainId [2, 3] 1 2

/-- Blocks that seat the newcomer, rotate its key, unseat it, and then carry the same admission and
the same rotation once more. -/
def reseating : List (ℕ × CertBatch) :=
  [(1, ⟨[], [admission]⟩), (2, ⟨[firstRotation], []⟩), (3, ⟨[], [removal]⟩), (4, ⟨[], [admission]⟩),
    (5, ⟨[firstRotation], []⟩)]

end HashKinetics.Concrete
