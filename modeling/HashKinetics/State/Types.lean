import HashKinetics.Crypto.OneTimeKeys
import HashKinetics.Mandate.Tree
import HashKinetics.State.Pool

/-!
# Chain state and transactions

The data of the state machine: accounts, balances, mandates, channels, issued assets and shielded
pools, the fifteen kinds of transactions that act on them, and the typed refusals.
-/

namespace HashKinetics

open Foundations Circuit

/-! ## Issued assets -/

def MAX_SYMBOL_LEN : ℕ := 16
def MAX_DECIMALS : ℕ := 18
def MAX_BURN_DESTINATION : ℕ := 64

/-- The issuer's powers over an asset, fixed at registration. -/
structure AssetPolicy where
  mintable : Bool
  freezable : Bool
  pausable : Bool
  poolEligible : Bool
  deriving DecidableEq

/-- One entry of the asset registry. -/
structure AssetInfo (H : Type) [LinearOrder H] where
  symbol : String
  decimals : ℕ
  issuer : H
  policy : AssetPolicy
  /-- Everything ever minted, genesis allocations included. -/
  supply : ℕ
  burned : ℕ
  paused : Bool
  frozen : OrderedSet H
  registeredAt : ℕ

/-- The only id a runtime registration may claim. -/
def deriveAssetId {H : Type} [HashSuite H] (issuer : H) (symbol : String) : H :=
  shake256_32 DOM_ASSET_ID [[.digest issuer], [.bytes symbol.toUTF8.toList]]

/-- One to sixteen bytes of letters, digits, dots, underscores and dashes, a letter first. -/
def validSymbol (symbol : String) : Bool :=
  let b := symbol.toUTF8.toList
  let alphabetic (c : UInt8) : Bool := (65 ≤ c && c ≤ 90) || (97 ≤ c && c ≤ 122)
  let numeric (c : UInt8) : Bool := 48 ≤ c && c ≤ 57
  !b.isEmpty && b.length ≤ MAX_SYMBOL_LEN && b.head?.any alphabetic &&
    b.all fun c => alphabetic c || numeric c || c == 46 || c == 95 || c == 45

/-! ## Transactions -/

/-- The transactions of the chain. -/
inductive Tx (H : Type) where
  | transfer (dst asset : H) (amount : ℕ)
  | mandateCreate (id : H) (parent : Option H) (holder asset : H) (ratePerSec : ℕ)
      (bufferMax : U128) (perTxMax initialBuffer expiry tier : ℕ)
  | mandateSpend (leaf dst : H) (amount : ℕ)
  | mandateRevoke (target : H)
  | channelOpen (id mandate payee asset tip : H) (unitPrice maxSteps expiry : ℕ)
  | channelSettle (id word : H) (step : ℕ)
  | channelRefund (id : H)
  | mintToPool (asset : H) (value : ℕ) (commitment : H) (proof stealthCt : List UInt8)
  | shieldedSpend (anchor nullifier outCommitment out2Commitment : H) (fee : ℕ)
      (credit mandate : Option H) (proof stealthCt stealthCt2 : List UInt8)
  | accountCreate (id authCommit asset : H) (amount : ℕ)
  | assetRegister (asset : H) (symbol : String) (decimals : ℕ) (policy : AssetPolicy)
  | assetMint (asset dst : H) (amount : ℕ)
  | assetBurn (asset : H) (amount : ℕ) (destination : List UInt8)
  | assetFreeze (asset account : H) (frozen : Bool)
  | assetPause (asset : H) (paused : Bool)
  deriving DecidableEq

/-- An account-signed transaction envelope. -/
structure SignedTx (H : Type) where
  sender : H
  nonce : ℕ
  payload : Tx H
  /-- The commitment to the key that will authorise the next transaction. -/
  nextAuth : H
  lamportPk : List H
  sig : List H
  deriving DecidableEq

instance SignedTx.lawfulBEq {H : Type} [LinearOrder H] : LawfulBEq (SignedTx H) := inferInstance

/-- The canonical JSON form of a payload, over which the signing digest is computed. -/
class TxCodec (H : Type) where
  jsonBytes : Tx H → Option (List UInt8)

/-- The digest an account key signs. -/
def signingDigest {H : Type} [HashSuite H] [TxCodec H] (payload : Tx H) (sender : H) (nonce : ℕ)
    (nextAuth : H) : Option H :=
  (TxCodec.jsonBytes payload).map fun bytes =>
    shake256_32 DOM_TX_MSG [[.bytes bytes], [.digest sender], [.u64 nonce], [.digest nextAuth]]

/-- The commitment of the key that a seed derives for a nonce. -/
def commitAt {H : Type} [HashSuite H] (seed : List UInt8) (nonce : ℕ) : H :=
  Lamport.pkCommit (Lamport.keygen seed nonce).2

/-- A payload signed with the key of its nonce, committing to the key of the next one. -/
def signAt {H : Type} [HashSuite H] [TxCodec H] [Inhabited H] (seed : List UInt8) (id : H)
    (nonce : ℕ) (payload : Tx H) : Option (SignedTx H) :=
  let keys := Lamport.keygen seed nonce
  let nextAuth := commitAt seed (nonce + 1)
  (signingDigest payload id nonce nextAuth).map fun digest =>
    { sender := id
      nonce := nonce
      payload := payload
      nextAuth := nextAuth
      lamportPk := keys.2
      sig := Lamport.sign keys.1 digest }

/-- The key of an honestly signed transaction is the one of its nonce. -/
lemma pkCommit_of_signAt {H : Type} [HashSuite H] [TxCodec H] [Inhabited H] {seed : List UInt8}
    {id : H} {nonce : ℕ} {payload : Tx H} {stx : SignedTx H}
    (h : signAt seed id nonce payload = some stx) :
    Lamport.pkCommit stx.lamportPk = commitAt seed nonce := by
  obtain ⟨digest, -, rfl⟩ := Option.map_eq_some_iff.mp h
  simp only [commitAt]

/-- What a successful transaction reports. -/
inductive Event (H : Type) where
  | transferred (src dst asset : H) (amount : ℕ)
  | mandateCreated (id : H)
  | mandateRevoked (id : H)
  | mandateSpent (leaf dst : H) (amount : ℕ)
  | channelOpened (id : H) (escrow : ℕ)
  | channelSettled (id : H) (uptoStep paid : ℕ)
  | channelRefunded (id : H) (amount : ℕ)
  | poolMinted (commitment : H) (value : ℕ)
  | poolSpent (nullifier outCommitment out2Commitment : H) (fee : ℕ) (credit : Option H)
  | accountCreated (id creator asset : H) (funded : ℕ)
  | assetRegistered (asset issuer : H) (symbol : String)
  | assetMinted (asset dst : H) (amount : ℕ)
  | assetBurned (asset src : H) (amount : ℕ) (destination : List UInt8)
  | assetFrozen (asset account : H) (frozen : Bool)
  | assetPaused (asset : H) (paused : Bool)
  deriving DecidableEq

/-! ## Refusals -/

/-- The typed refusals of the state machine. -/
inductive StateError where
  | unknownAccount
  | duplicateAccount
  | badNonce (expected got : ℕ)
  | authMismatch
  | badSignature
  | encode
  | insufficientBalance (have_ need : ℕ)
  | mandate (e : SpendError)
  | unknownMandate
  | duplicateMandate
  | notHolder
  | mandateAssetMismatch
  | unknownChannel
  | duplicateChannel
  | channelIdMismatch
  | channelRefunded
  | notExpired
  | badSettlement
  | badStep
  | overflow
  | zeroAmount
  | badHeight
  | timeBackwards
  | poolProofInvalid
  | poolUnknownAnchor
  | poolDoubleSpend
  | poolAssetMismatch
  | poolValueRange
  | poolFeeNeedsCredit
  | poolFull
  | accountExists
  | accountIdMismatch
  | insufficientFee (have_ need : ℕ)
  | unknownAsset
  | assetExists
  | assetIdMismatch
  | badSymbol
  | badDecimals
  | notIssuer
  | policyForbids
  | assetPaused
  | accountFrozen
  | notPoolEligible
  | burnDestinationTooLong
  | badFeeAssetPolicy
  | duplicateAsset
  | settleDeltaTooLarge (delta max : ℕ)
  | channelTooLong (maxSteps max : ℕ)
  deriving DecidableEq

/-- The text of a mandate refusal. -/
def SpendError.message : SpendError → String
  | .notFound => "mandate not found"
  | .revoked d => s!"mandate revoked at depth {d} from leaf"
  | .expired d => s!"mandate expired at depth {d} from leaf"
  | .perTxCap d => s!"amount exceeds per_tx_max at depth {d} from leaf"
  | .insufficient d h n =>
    s!"insufficient buffer at depth {d} from leaf (have {h}, need {n})"
  | .badChain => "mandate chain exceeds MAX_DEPTH or contains a cycle"
  | .attenuation r => s!"child policy exceeds parent (attenuation violated): {r}"

/-- The text of a refusal, as receipts carry it. -/
def StateError.message : StateError → String
  | .unknownAccount => "unknown account"
  | .duplicateAccount => "duplicate genesis account"
  | .badNonce expected got => s!"bad nonce: expected {expected}, got {got}"
  | .authMismatch => "lamport pk does not open the account auth commitment"
  | .badSignature => "bad signature"
  | .encode => "tx encoding failed"
  | .insufficientBalance h n => s!"insufficient balance: have {h}, need {n}"
  | .mandate e => "mandate: " ++ e.message
  | .unknownMandate => "unknown mandate"
  | .duplicateMandate => "duplicate mandate id"
  | .notHolder => "sender is not the required mandate holder"
  | .mandateAssetMismatch =>
    "mandate asset mismatch: a mandate authorizes only its own asset (the tree is single-asset)"
  | .unknownChannel => "unknown channel"
  | .duplicateChannel => "duplicate channel id"
  | .channelIdMismatch => "channel id does not match derived id"
  | .channelRefunded => "channel already refunded"
  | .notExpired => "channel not yet expired"
  | .badSettlement => "invalid payword settlement proof"
  | .badStep => "settle step invalid (stale, zero, or beyond max)"
  | .overflow => "amount overflow"
  | .zeroAmount => "zero amount"
  | .badHeight => "block height must be parent+1"
  | .timeBackwards => "block time must not go backwards"
  | .poolProofInvalid => "pool proof rejected (invalid, or no verifier wired)"
  | .poolUnknownAnchor => "unknown pool anchor"
  | .poolDoubleSpend => "nullifier already spent (double spend)"
  | .poolAssetMismatch => "pool asset mismatch"
  | .poolValueRange => "pool value exceeds u64 range"
  | .poolFeeNeedsCredit => "shielded fee requires a credit account"
  | .poolFull => "commitment tree full"
  | .accountExists => "account already exists"
  | .accountIdMismatch => "account id does not match H(auth_commit)"
  | .insufficientFee h n =>
    s!"insufficient balance for the protocol fee (have {h}, need {n})"
  | .unknownAsset => "unknown asset (not registered)"
  | .assetExists => "asset already registered"
  | .assetIdMismatch => "asset id does not match H(issuer, symbol)"
  | .badSymbol => "bad asset symbol (1-16 of [A-Za-z0-9._-], letter first)"
  | .badDecimals => "bad decimals (max 18)"
  | .notIssuer => "sender is not the asset's issuer"
  | .policyForbids => "asset policy forbids this (not mintable / freezable / pausable)"
  | .assetPaused => "asset paused"
  | .accountFrozen => "frozen by issuer"
  | .notPoolEligible => "asset is not pool-eligible"
  | .burnDestinationTooLong => "burn destination too long (max 64 bytes)"
  | .badFeeAssetPolicy => "fee asset policy: the fee asset must not be pausable or freezable"
  | .duplicateAsset => "duplicate genesis asset"
  | .settleDeltaTooLarge delta max =>
    s!"settle delta too large ({delta} links past the highest settled step, " ++
      s!"max {max} per settlement)"
  | .channelTooLong maxSteps max => s!"channel too long ({maxSteps} steps, max {max})"

/-- The outcome of one transaction of a block. -/
structure Receipt (H : Type) where
  index : ℕ
  result : Except String (List (Event H))
  deriving DecidableEq

/-- The receipt of an accepted transaction. -/
def Receipt.accepted {H : Type} (r : Receipt H) : Bool := r.result.isOk

/-! ## The state -/

structure Account (H : Type) where
  /-- The commitment to the key that authorises the next transaction. -/
  authCommit : H
  nonce : ℕ

/-- A PayWord channel. -/
structure ChannelState (H : Type) where
  id : H
  payer : H
  payee : H
  asset : H
  mandate : H
  tip : H
  unitPrice : ℕ
  maxSteps : ℕ
  highestStepSettled : ℕ
  expiry : ℕ

structure Channel (H : Type) where
  state : ChannelState H
  escrowRemaining : ℕ
  refunded : Bool

/-- Which pool a shielded operation acts on. -/
inductive PoolKey (H : Type) where
  | legacy
  | asset (a : H)
  deriving DecidableEq

/-- The chain state, with the configuration the node injects. -/
structure State (H : Type) [LinearOrder H] where
  height : ℕ
  time : ℕ
  accounts : OrderedMap H (Account H)
  balances : OrderedMap (H ×ₗ H) ℕ
  mandates : MandateTree H
  /-- The account that funds every spend under a root mandate. -/
  rootFunding : OrderedMap H H
  channels : OrderedMap H (Channel H)
  /-- The pool of the first asset ever shielded. -/
  pool : PoolState H
  verifier : ProofVerifier H
  /-- What the block's verified aggregate covers. -/
  aggCover : OrderedSet H
  feeMicro : ℕ
  feeFrom : ℕ
  feesBurned : ℕ
  feeAsset : H
  assets : OrderedMap H (AssetInfo H)
  /-- One further pool per additional asset. -/
  pools : OrderedMap H (PoolState H)
  multiPoolFrom : ℕ
  mandateAssetFrom : ℕ
  paywordCapFrom : ℕ

/-- The default fee asset. -/
def FEE_ASSET {H : Type} [HashSuite H] : H := fill 9

/-- The most links one settlement may advance a channel by. -/
def MAX_SETTLE_DELTA : ℕ := 2 ^ 16

/-- The most steps a channel may be opened with. -/
def MAX_CHANNEL_STEPS : ℕ := 2 ^ 17

namespace State

variable {H : Type} [LinearOrder H] [HashSuite H]

/-- The state before genesis is loaded. -/
def default : State H where
  height := 0
  time := 0
  accounts := ∅
  balances := ∅
  mandates := ∅
  rootFunding := ∅
  channels := ∅
  pool := .default
  verifier := RejectAllVerifier H
  aggCover := ∅
  feeMicro := 0
  feeFrom := u64Max
  feesBurned := 0
  feeAsset := FEE_ASSET
  assets := ∅
  pools := ∅
  multiPoolFrom := u64Max
  mandateAssetFrom := u64Max
  paywordCapFrom := u64Max

/-- The balance of an account in an asset. -/
def balance (s : State H) (id asset : H) : ℕ := s.balances[toLex (id, asset)]?.getD 0

/-- The state at the start of a block. -/
@[simps]
def openedAt (s : State H) (height time : ℕ) : State H := { s with height := height, time := time }

/-- The state with one balance written. -/
@[simps]
def setBalance (s : State H) (id asset : H) (amount : ℕ) : State H :=
  { s with balances := s.balances.insert (toLex (id, asset)) amount }

/-- The state after an amount left a balance. -/
def debited (s : State H) (id asset : H) (amount : ℕ) : State H :=
  s.setBalance id asset (s.balance id asset - amount)

/-- The state after an amount reached a balance. -/
def credited (s : State H) (id asset : H) (amount : ℕ) : State H :=
  s.setBalance id asset (satAdd u128Max (s.balance id asset) amount)

/-- The state with one account written. -/
@[simps]
def setAccount (s : State H) (id : H) (acc : Account H) : State H :=
  { s with accounts := s.accounts.insert id acc }

/-- The state with another mandate tree. -/
@[simps]
def setMandates (s : State H) (t : MandateTree H) : State H := { s with mandates := t }

/-- The state with the funding account of one root mandate written. -/
@[simps]
def setRootFunding (s : State H) (root funder : H) : State H :=
  { s with rootFunding := s.rootFunding.insert root funder }

/-- The state with one registry entry written. -/
@[simps]
def setAsset (s : State H) (asset : H) (info : AssetInfo H) : State H :=
  { s with assets := s.assets.insert asset info }

/-- The state with one channel written. -/
@[simps]
def setChannel (s : State H) (id : H) (ch : Channel H) : State H :=
  { s with channels := s.channels.insert id ch }

/-- The state with one pool written. -/
@[simps]
def setPool (s : State H) (key : PoolKey H) (p : PoolState H) : State H :=
  { s with
    pool := match key with
      | .legacy => p
      | .asset _ => s.pool
    pools := match key with
      | .legacy => s.pools
      | .asset a => s.pools.insert a p }

/-- The pool behind a key. -/
def poolRef (s : State H) : PoolKey H → Option (PoolState H)
  | .legacy => some s.pool
  | .asset a => s.pools[a]?

/-- The asset a pool's notes denominate. -/
def poolAsset (s : State H) : PoolKey H → Option H
  | .legacy => s.pool.asset
  | .asset a => some a

/-- The pool a shield of `asset` goes to. -/
def poolKeyOfAsset (s : State H) (asset : H) : Except StateError (PoolKey H) :=
  match s.pool.asset with
  | none => .ok .legacy
  | some a =>
    if a = asset then .ok .legacy
    else if s.multiPoolFrom ≤ s.height ∨ s.pools.contains asset then .ok (.asset asset)
    else .error .poolAssetMismatch

/-- The pool a spend under `anchor` acts on: the legacy pool first, then by asset order. -/
def poolKeyOfAnchor (s : State H) (anchor : H) : Option (PoolKey H) :=
  if s.pool.isRecentAnchor anchor then some .legacy
  else (s.pools.toList.find? fun e => e.2.isRecentAnchor anchor).map fun e => .asset e.1

/-- The public values of a spend that the chain expects. -/
def expectedSpendPublic (anchor nullifier out out2 : H) (fee : ℕ) (credit : Option H) :
    SpendPublic H where
  merkleRoot := anchor
  nullifier := nullifier
  outCommitment := out
  out2Commitment := out2
  fee := fee
  txBinding := txBindingFor (credit.getD (fill 0)) fee

/-- The public values of a mint that the chain expects. -/
def expectedMintPublic (commitment : H) (value : ℕ) : MintPublic H where
  commitment := commitment
  value := value

end State

end HashKinetics
