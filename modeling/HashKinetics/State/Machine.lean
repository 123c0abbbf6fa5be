import HashKinetics.State.Types

/-!
# The state machine

One definition per transaction kind, under the name the chain gives it, and the envelope and block
loops around them.  Every definition keeps the order of the checks and writes it models: a refusal
that came after a write would be visible here.
-/

namespace HashKinetics.State

open Foundations Circuit

variable {H : Type} [LinearOrder H] [HashSuite H]

/-! ## Balances -/

/-- Take an amount from a balance. -/
def debit (id asset : H) (amount : ℕ) : Exec (State H) StateError Unit := do
  let s ← Exec.get
  Exec.rejectIf (s.balance id asset < amount) (.insufficientBalance (s.balance id asset) amount)
  Exec.modify fun s => s.debited id asset amount

/-- Add an amount to a balance. -/
def credit (id asset : H) (amount : ℕ) : Exec (State H) StateError Unit :=
  Exec.modify fun s => s.credited id asset amount

/-! ## The asset gate -/

/-- Every movement of a registered asset is refused while the asset is paused or an account it
leaves or reaches is frozen. -/
def assetGate (s : State H) (asset : H) (src dst : Option H) : Except StateError Unit :=
  match s.assets[asset]? with
  | some info =>
    if info.paused then .error .assetPaused
    else if src.any info.frozen.contains || dst.any info.frozen.contains then
      .error .accountFrozen
    else .ok ()
  | none => .ok ()

/-- The registered entry an issuer-only verb acts on. -/
def issuerEntry (s : State H) (sender asset : H) (allowed : AssetPolicy → Bool) :
    Except StateError (AssetInfo H) :=
  match s.assets[asset]? with
  | none => .error .unknownAsset
  | some info =>
    if info.issuer ≠ sender then .error .notIssuer
    else if allowed info.policy = false then .error .policyForbids
    else .ok info

/-! ## Issued assets -/

def doAssetRegister (sender asset : H) (symbol : String) (decimals : ℕ) (policy : AssetPolicy) :
    Exec (State H) StateError (List (Event H)) := do
  Exec.rejectIf (validSymbol symbol = false) .badSymbol
  Exec.rejectIf (MAX_DECIMALS < decimals) .badDecimals
  Exec.rejectIf (asset ≠ deriveAssetId sender symbol) .assetIdMismatch
  let s ← Exec.get
  Exec.rejectIf (s.assets.contains asset = true) .assetExists
  Exec.modify fun s => s.setAsset asset {
    symbol := symbol
    decimals := decimals
    issuer := sender
    policy := policy
    supply := 0
    burned := 0
    paused := false
    frozen := ∅
    registeredAt := s.height }
  pure [.assetRegistered asset sender symbol]

def doAssetMint (sender asset dst : H) (amount : ℕ) :
    Exec (State H) StateError (List (Event H)) := do
  Exec.rejectIf (amount = 0) .zeroAmount
  let s ← Exec.get
  let info ← Exec.ofExcept id (s.issuerEntry sender asset (·.mintable))
  let _ ← Exec.okOr (checkedAdd u128Max info.supply amount) .overflow
  Exec.ofExcept id (s.assetGate asset none (some dst))
  let info ← Exec.unwrap s.assets[asset]?
  let supply ← Exec.unwrap (checkedAdd u128Max info.supply amount)
  Exec.modify fun s => s.setAsset asset { info with supply := supply }
  credit dst asset amount
  pure [.assetMinted asset dst amount]

def doAssetBurn (sender asset : H) (amount : ℕ) (destination : List UInt8) :
    Exec (State H) StateError (List (Event H)) := do
  Exec.rejectIf (amount = 0) .zeroAmount
  Exec.rejectIf (MAX_BURN_DESTINATION < destination.length) .burnDestinationTooLong
  let s ← Exec.get
  Exec.rejectIf (s.assets.contains asset = false) .unknownAsset
  Exec.ofExcept id (s.assetGate asset (some sender) none)
  debit sender asset amount
  let info ← Exec.unwrap s.assets[asset]?
  Exec.modify fun s => s.setAsset asset { info with burned := satAdd u128Max info.burned amount }
  pure [.assetBurned asset sender amount destination]

def doAssetFreeze (sender asset account : H) (frozen : Bool) :
    Exec (State H) StateError (List (Event H)) := do
  let s ← Exec.get
  let info ← Exec.ofExcept id (s.issuerEntry sender asset (·.freezable))
  Exec.modify fun s => s.setAsset asset
    { info with frozen := if frozen then info.frozen.insert account else info.frozen.erase account }
  pure [.assetFrozen asset account frozen]

def doAssetPause (sender asset : H) (paused : Bool) :
    Exec (State H) StateError (List (Event H)) := do
  let s ← Exec.get
  let info ← Exec.ofExcept id (s.issuerEntry sender asset (·.pausable))
  Exec.modify fun s => s.setAsset asset { info with paused := paused }
  pure [.assetPaused asset paused]

/-! ## Transfers and accounts -/

def doTransfer (src dst asset : H) (amount : ℕ) : Exec (State H) StateError (List (Event H)) := do
  Exec.rejectIf (amount = 0) .zeroAmount
  let s ← Exec.get
  Exec.ofExcept id (s.assetGate asset (some src) (some dst))
  debit src asset amount
  credit dst asset amount
  pure [.transferred src dst asset amount]

/-- Runtime account creation: the id is derived from the auth commitment and the sender pays the
opening balance. -/
def doAccountCreate (sender id authCommit asset : H) (amount : ℕ) :
    Exec (State H) StateError (List (Event H)) := do
  Exec.rejectIf (id ≠ shake256_32 DOM_ACCOUNT_ID [[.digest authCommit]]) .accountIdMismatch
  let s ← Exec.get
  Exec.rejectIf (s.accounts.contains id = true) .accountExists
  Exec.when (0 < amount) do
    Exec.ofExcept (fun e => e) (s.assetGate asset (some sender) (some id))
    debit sender asset amount
  Exec.modify fun s => s.setAccount id ⟨authCommit, 0⟩
  Exec.when (0 < amount) (credit id asset amount)
  pure [.accountCreated id sender asset amount]

/-! ## Mandates -/

/-- Run a mandate-tree operation on the state. -/
def onMandates {α : Type} (x : Exec (MandateTree H) SpendError α) : Exec (State H) StateError α :=
  Exec.zoom State.mandates State.setMandates StateError.mandate x

/-- The account that holds a mandate. -/
def holderOf (s : State H) (id : H) : Except StateError H :=
  match s.mandates.get id with
  | some node => .ok node.holderKey
  | none => .error .unknownMandate

/-- The sink-side half of the asset rule: the leaf must denominate the root's asset. -/
def checkMandateAssetBound (s : State H) (leaf root : H) : Except StateError Unit :=
  match s.mandates.get leaf with
  | none => .error .unknownMandate
  | some leafNode =>
    match s.mandates.get root with
    | none => .error .unknownMandate
    | some rootNode =>
      if leafNode.asset ≠ rootNode.asset then .error .mandateAssetMismatch else .ok ()

/-- Child creation is a parent-holder act; from the activation height on, the child must carry the
parent's asset. -/
def checkMandateParent (s : State H) (sender asset : H) : Option H → Except StateError Unit
  | some p => do
    let h ← s.holderOf p
    if h ≠ sender then .error .notHolder
    else if s.mandateAssetFrom ≤ s.height then
      match s.mandates.get p with
      | none => .error .unknownMandate
      | some parentNode =>
        if parentNode.asset ≠ asset then .error .mandateAssetMismatch else .ok ()
    else .ok ()
  | none => .ok ()

/-- The entry point of the tree that the height selects. -/
def insertMandate (s : State H) (node : MandateNode H) : Exec (MandateTree H) SpendError Unit :=
  if s.mandateAssetFrom ≤ s.height then MandateTree.insertAssetBound node
  else MandateTree.insert node

def doMandateCreate (sender id : H) (parent : Option H) (holder asset : H)
    (ratePerSec bufferMax perTxMax initialBuffer expiry tier : ℕ) :
    Exec (State H) StateError (List (Event H)) := do
  let s ← Exec.get
  Exec.rejectIf ((s.mandates.get id).isSome = true) .duplicateMandate
  Exec.ofExcept (fun e => e) (s.checkMandateParent sender asset parent)
  let node : MandateNode H := {
    id := id
    parent := parent
    holderKey := holder
    scheme := .lamportRatchetV0
    asset := asset
    ratePerSec := ratePerSec
    bufferMax := bufferMax
    perTxMax := perTxMax
    expiry := expiry
    revoked := false
    buffer := min initialBuffer bufferMax
    lastAccrual := s.time
    tier := tier }
  onMandates (s.insertMandate node)
  Exec.when (parent = none) (Exec.modify fun s => s.setRootFunding id sender)
  pure [.mandateCreated id]

def doMandateSpend (sender leaf dst : H) (amount : ℕ) :
    Exec (State H) StateError (List (Event H)) := do
  Exec.rejectIf (amount = 0) .zeroAmount
  let s ← Exec.get
  let holder ← Exec.ofExcept id (s.holderOf leaf)
  Exec.rejectIf (holder ≠ sender) .notHolder
  let leafNode ← Exec.okOr (s.mandates.get leaf) .unknownMandate
  let root ← Exec.ofOutcome .mandate (s.mandates.rootOf leaf)
  let funder ← Exec.okOr s.rootFunding[root]? .unknownMandate
  Exec.ofExcept id
    (if s.mandateAssetFrom ≤ s.height then s.checkMandateAssetBound leaf root else .ok ())
  onMandates (MandateTree.check leaf amount s.time)
  Exec.ofExcept id (s.assetGate leafNode.asset (some funder) (some dst))
  Exec.rejectIf (s.balance funder leafNode.asset < amount)
    (.insufficientBalance (s.balance funder leafNode.asset) amount)
  onMandates (MandateTree.spend leaf amount s.time)
  Exec.expect (debit funder leafNode.asset amount)
  credit dst leafNode.asset amount
  pure [.mandateSpent leaf dst amount]

def doMandateRevoke (sender target : H) : Exec (State H) StateError (List (Event H)) := do
  let s ← Exec.get
  let node ← Exec.okOr (s.mandates.get target) .unknownMandate
  let authorizer ← Exec.ofExcept id
    (match node.parent with
    | some p => s.holderOf p
    | none => s.holderOf target)
  Exec.rejectIf (authorizer ≠ sender) .notHolder
  onMandates (MandateTree.revoke target)
  pure [.mandateRevoked target]

/-! ## Channels -/

def deriveChannelId (payer payee tip : H) (nonce : ℕ) : H :=
  shake256_32 DOM_CHANNEL_ID [[.digest payer], [.digest payee], [.digest tip], [.u64 nonce]]

def doChannelOpen (sender chId mandate payee asset tip : H) (unitPrice maxSteps expiry : ℕ) :
    Exec (State H) StateError (List (Event H)) := do
  let s ← Exec.get
  Exec.rejectIf (s.channels.contains chId = true) .duplicateChannel
  Exec.rejectIf (unitPrice = 0 ∨ maxSteps = 0) .zeroAmount
  Exec.rejectIf (s.paywordCapFrom ≤ s.height ∧ MAX_CHANNEL_STEPS < maxSteps)
    (.channelTooLong maxSteps MAX_CHANNEL_STEPS)
  let holder ← Exec.ofExcept id (s.holderOf mandate)
  Exec.rejectIf (holder ≠ sender) .notHolder
  let acc ← Exec.okOr s.accounts[sender]? .unknownAccount
  Exec.rejectIf (deriveChannelId sender payee tip acc.nonce ≠ chId) .channelIdMismatch
  let deposit ← Exec.okOr (checkedMul u128Max unitPrice maxSteps) .overflow
  let node ← Exec.okOr (s.mandates.get mandate) .unknownMandate
  Exec.rejectIf (node.asset ≠ asset) .unknownMandate
  let root ← Exec.ofOutcome .mandate (s.mandates.rootOf mandate)
  let funder ← Exec.okOr s.rootFunding[root]? .unknownMandate
  Exec.ofExcept id
    (if s.mandateAssetFrom ≤ s.height then s.checkMandateAssetBound mandate root else .ok ())
  onMandates (MandateTree.check mandate deposit s.time)
  Exec.ofExcept id (s.assetGate asset (some funder) none)
  Exec.rejectIf (s.balance funder asset < deposit)
    (.insufficientBalance (s.balance funder asset) deposit)
  onMandates (MandateTree.spend mandate deposit s.time)
  Exec.expect (debit funder asset deposit)
  Exec.modify fun s => s.setChannel chId {
    state := {
      id := chId
      payer := sender
      payee := payee
      asset := asset
      mandate := mandate
      tip := tip
      unitPrice := unitPrice
      maxSteps := maxSteps
      highestStepSettled := 0
      expiry := expiry }
    escrowRemaining := deposit
    refunded := false }
  pure [.channelOpened chId deposit]

def doChannelSettle (chId word : H) (step : ℕ) : Exec (State H) StateError (List (Event H)) := do
  let s ← Exec.get
  let ch ← Exec.okOr s.channels[chId]? .unknownChannel
  Exec.rejectIf (ch.refunded = true) .channelRefunded
  let prev := ch.state.highestStepSettled
  Exec.rejectIf (step ≤ prev ∨ ch.state.maxSteps < step) .badStep
  let newly := step - prev
  Exec.rejectIf (s.paywordCapFrom ≤ s.height ∧ MAX_SETTLE_DELTA < newly)
    (.settleDeltaTooLarge newly MAX_SETTLE_DELTA)
  Exec.rejectIf (Payword.verifySettlement ch.state.tip word step = false) .badSettlement
  let paid ← Exec.okOr (checkedMul u128Max ch.state.unitPrice newly) .overflow
  Exec.ofExcept id (s.assetGate ch.state.asset none (some ch.state.payee))
  let escrow ← Exec.unwrap (checkedSub ch.escrowRemaining paid)
  Exec.modify fun s => s.setChannel chId { ch with
    state := { ch.state with highestStepSettled := step }
    escrowRemaining := escrow }
  credit ch.state.payee ch.state.asset paid
  pure [.channelSettled chId step paid]

def doChannelRefund (sender chId : H) : Exec (State H) StateError (List (Event H)) := do
  let s ← Exec.get
  let ch ← Exec.okOr s.channels[chId]? .unknownChannel
  Exec.rejectIf (ch.refunded = true) .channelRefunded
  Exec.rejectIf (ch.state.payer ≠ sender) .notHolder
  Exec.rejectIf (s.time < ch.state.expiry) .notExpired
  Exec.ofExcept id (s.assetGate ch.state.asset none (some ch.state.payer))
  Exec.modify fun s => s.setChannel chId { ch with escrowRemaining := 0, refunded := true }
  credit ch.state.payer ch.state.asset ch.escrowRemaining
  pure [.channelRefunded chId ch.escrowRemaining]

/-! ## The shielded pools -/

/-- A mint statement is proved: by the block's aggregate when the transaction carries no proof of
its own, by the verifier otherwise. -/
def mintProved (s : State H) (proof : List UInt8) (expected : MintPublic H) : Bool :=
  if proof.isEmpty then s.aggCover.contains (coverKey KIND_MINT expected.encode)
  else s.verifier.verifyMint proof expected

/-- A spend statement is proved. -/
def spendProved (s : State H) (proof : List UInt8) (expected : SpendPublic H) : Bool :=
  if proof.isEmpty then s.aggCover.contains (coverKey KIND_SPEND expected.encode)
  else s.verifier.verifySpend proof expected

/-- The pool a shield acts on, created on the first shield of an additional asset. -/
def poolForMint (s : State H) : PoolKey H → PoolState H
  | .legacy => s.pool
  | .asset a =>
    s.pools[a]?.getD
      (PoolState.sealAnchor { PoolState.default with version := s.pool.version, asset := some a })

/-- A per-asset pool exists only for a registered, pool-eligible asset. -/
def poolEligible (s : State H) (asset : H) : Bool :=
  match s.assets[asset]? with
  | some info => info.policy.poolEligible
  | none => false

def doMintToPool (sender asset : H) (value : ℕ) (commitment : H) (proof : List UInt8) :
    Exec (State H) StateError (List (Event H)) := do
  Exec.rejectIf (value = 0) .zeroAmount
  Exec.rejectIf (u64Max < value) .poolValueRange
  let s ← Exec.get
  Exec.rejectIf (s.assets.contains asset = true ∧ s.poolEligible asset = false) .notPoolEligible
  Exec.ofExcept id (s.assetGate asset (some sender) none)
  let key ← Exec.ofExcept id (s.poolKeyOfAsset asset)
  Exec.rejectIf (key ≠ .legacy ∧ s.poolEligible asset = false) .notPoolEligible
  Exec.rejectIf ((s.poolRef key).any (fun p => p.tree.isFull) = true) .poolFull
  Exec.rejectIf (s.mintProved proof (expectedMintPublic commitment value) = false)
    .poolProofInvalid
  debit sender asset value
  let s ← Exec.get
  let pool ← Exec.unwrap ((s.poolForMint key).mint asset commitment value)
  Exec.modify fun s => s.setPool key pool
  pure [.poolMinted commitment value]

/-- A mandate-bound unshield must govern something, be relayed by the leaf's holder and clear the
ancestor chain. -/
def checkSpendMandate (s : State H) (sender : H) (fee : ℕ) : Option H →
    Exec (State H) StateError Unit
  | some m => do
    Exec.rejectIf (fee = 0) .zeroAmount
    let holder ← Exec.ofExcept id (s.holderOf m)
    Exec.rejectIf (holder ≠ sender) .notHolder
    onMandates (MandateTree.check m fee s.time)
  | none => pure ()

/-- From the activation height on, the leaf, its root and the pool must denominate one asset. -/
def checkSpendMandateAsset (s : State H) (asset : Option H) : Option H →
    Exec (State H) StateError Unit
  | some m =>
    Exec.when (s.mandateAssetFrom ≤ s.height) do
      let root ← Exec.ofOutcome .mandate (s.mandates.rootOf m)
      Exec.ofExcept id (s.checkMandateAssetBound m root)
      let node ← Exec.okOr (s.mandates.get m) .unknownMandate
      Exec.rejectIf (asset ≠ some node.asset) .mandateAssetMismatch
  | none => pure ()

/-- The mandate's budget is spent first. -/
def spendMandate (s : State H) (fee : ℕ) : Option H → Exec (State H) StateError Unit
  | some m => onMandates (MandateTree.spend m fee s.time)
  | none => pure ()

def doShieldedSpend (sender anchor nf out out2 : H) (fee : ℕ) (creditTo mandate : Option H)
    (proof : List UInt8) : Exec (State H) StateError (List (Event H)) := do
  Exec.rejectIf (u64Max < fee) .poolValueRange
  Exec.rejectIf (0 < fee ∧ creditTo = none) .poolFeeNeedsCredit
  let s ← Exec.get
  checkSpendMandate s sender fee mandate
  let key ← Exec.okOr (s.poolKeyOfAnchor anchor) .poolUnknownAnchor
  let asset := s.poolAsset key
  Exec.rejectIf (0 < fee ∧ asset = none) .poolAssetMismatch
  checkSpendMandateAsset s asset mandate
  Exec.when (0 < fee) do
    let a ← Exec.unwrap asset
    Exec.ofExcept id (s.assetGate a none creditTo)
  let pool ← Exec.unwrap (s.poolRef key)
  Exec.rejectIf (pool.nullifiers.contains nf = true) .poolDoubleSpend
  Exec.rejectIf (¬ pool.tree.hasCapacity 2) .poolFull
  Exec.rejectIf (s.spendProved proof (expectedSpendPublic anchor nf out out2 fee creditTo) = false)
    .poolProofInvalid
  spendMandate s fee mandate
  let pool' ← Exec.unwrap (pool.spend nf out out2 fee)
  Exec.modify fun s => s.setPool key pool'
  Exec.when (0 < fee) do
    let dst ← Exec.unwrap creditTo
    let a ← Exec.unwrap asset
    credit dst a fee
  pure [.poolSpent nf out out2 fee creditTo]

/-! ## Envelope and blocks -/

def dispatch (sender : H) : Tx H → Exec (State H) StateError (List (Event H))
  | .transfer dst asset amount => doTransfer sender dst asset amount
  | .accountCreate id authCommit asset amount => doAccountCreate sender id authCommit asset amount
  | .mandateCreate id parent holder asset rate bufferMax perTxMax initial expiry tier =>
    doMandateCreate sender id parent holder asset rate bufferMax.val perTxMax initial expiry tier
  | .mandateSpend leaf dst amount => doMandateSpend sender leaf dst amount
  | .mandateRevoke target => doMandateRevoke sender target
  | .channelOpen id mandate payee asset tip unitPrice maxSteps expiry =>
    doChannelOpen sender id mandate payee asset tip unitPrice maxSteps expiry
  | .channelSettle id word step => doChannelSettle id word step
  | .channelRefund id => doChannelRefund sender id
  | .mintToPool asset value commitment proof _ => doMintToPool sender asset value commitment proof
  | .shieldedSpend anchor nf out out2 fee creditTo mandate proof _ _ =>
    doShieldedSpend sender anchor nf out out2 fee creditTo mandate proof
  | .assetRegister asset symbol decimals policy =>
    doAssetRegister sender asset symbol decimals policy
  | .assetMint asset dst amount => doAssetMint sender asset dst amount
  | .assetBurn asset amount destination => doAssetBurn sender asset amount destination
  | .assetFreeze asset account frozen => doAssetFreeze sender asset account frozen
  | .assetPause asset paused => doAssetPause sender asset paused

section Envelope

variable [TxCodec H]

/-- The state-free part of envelope verification. -/
def verifyEnvelope (stx : SignedTx H) : Bool :=
  match signingDigest stx.payload stx.sender stx.nonce stx.nextAuth with
  | some digest => Lamport.verify stx.lamportPk digest stx.sig
  | none => false

/-- An honestly signed envelope verifies. -/
lemma verifyEnvelope_signAt [Inhabited H] {seed : List UInt8} {id : H} {nonce : ℕ} {payload : Tx H}
    {stx : SignedTx H} (h : signAt seed id nonce payload = some stx) :
    verifyEnvelope stx = true := by
  obtain ⟨digest, hdigest, rfl⟩ := Option.map_eq_some_iff.mp h
  simp only [verifyEnvelope, hdigest]
  exact Lamport.verify_sign seed nonce digest

/-- The flat envelope fee in force. -/
def envelopeFee (s : State H) : ℕ := if s.feeFrom ≤ s.height then s.feeMicro else 0

/-- Charge the envelope fee. -/
def chargeFee (sender feeAsset : H) (fee : ℕ) : Exec (State H) StateError Unit :=
  Exec.when (0 < fee) do
    let s ← Exec.get
    Exec.rejectIf (s.balance sender feeAsset < fee)
      (.insufficientFee (s.balance sender feeAsset) fee)
    Exec.expect (debit sender feeAsset fee)

/-- The key is consumed and the next one committed. -/
def ratchet (stx : SignedTx H) : Exec (State H) StateError Unit := do
  let s ← Exec.get
  let acc ← Exec.unwrap s.accounts[stx.sender]?
  let nonce ← Exec.unwrap (checkedAdd u64Max acc.nonce 1)
  Exec.modify fun s => s.setAccount stx.sender ⟨stx.nextAuth, nonce⟩

/-- Verify the envelope, charge the fee, dispatch, and ratchet the account on success; a refused
body gets its fee back. -/
def applyTxAt (stx : SignedTx H) (preSig : Option Bool) :
    Exec (State H) StateError (List (Event H)) := do
  let s ← Exec.get
  let acc ← Exec.okOr s.accounts[stx.sender]? .unknownAccount
  Exec.rejectIf (stx.nonce ≠ acc.nonce) (.badNonce acc.nonce stx.nonce)
  Exec.rejectIf (Lamport.pkCommit stx.lamportPk ≠ acc.authCommit) .authMismatch
  let sigOk := preSig.getD (verifyEnvelope stx)
  Exec.rejectIf (sigOk = false ∧
    (signingDigest stx.payload stx.sender stx.nonce stx.nextAuth).isNone = true) .encode
  Exec.rejectIf (sigOk = false) .badSignature
  chargeFee stx.sender s.feeAsset s.envelopeFee
  let events ← Exec.onErr (dispatch stx.sender stx.payload)
    (Exec.when (0 < s.envelopeFee) (credit stx.sender s.feeAsset s.envelopeFee))
  Exec.when (0 < s.envelopeFee) (Exec.modify fun t =>
    { t with feesBurned := satAdd u128Max t.feesBurned s.envelopeFee })
  ratchet stx
  pure events

def applyTx (stx : SignedTx H) : Exec (State H) StateError (List (Event H)) :=
  applyTxAt stx none

/-- Apply the transactions of a block in order; a refusal becomes a receipt. -/
def applyTxs : ℕ → List (SignedTx H × Option Bool) → Exec (State H) StateError (List (Receipt H))
  | _, [] => pure []
  | i, (stx, preSig) :: rest => do
    let r ← Exec.attempt (applyTxAt stx preSig)
    let receipts ← applyTxs (i + 1) rest
    pure (⟨i, r.mapError StateError.message⟩ :: receipts)

/-- Block end: every pool seals its root as an anchor and the aggregate's coverage expires. -/
def sealBlock (s : State H) : State H :=
  { s with
    pool := s.pool.sealAnchor
    pools := s.pools.map fun _ p => p.sealAnchor
    aggCover := ∅ }

/-- Pair every transaction with its precomputed signature verdict, if there is one. -/
def withVerdicts (txs : List (SignedTx H)) : Option (List Bool) → List (SignedTx H × Option Bool)
  | some v => txs.zip (v.map some)
  | none => txs.map fun stx => (stx, none)

def applyBlockVerified (height time : ℕ) (txs : List (SignedTx H))
    (sigVerdicts : Option (List Bool)) : Exec (State H) StateError (List (Receipt H)) := do
  let s ← Exec.get
  let next ← Exec.unwrap (checkedAdd u64Max s.height 1)
  Exec.rejectIf (height ≠ next) .badHeight
  Exec.rejectIf (time < s.time) .timeBackwards
  Exec.rejectIf (sigVerdicts.any (fun v => v.length ≠ txs.length) = true) .badHeight
  Exec.modify fun s => s.openedAt height time
  let receipts ← applyTxs 0 (withVerdicts txs sigVerdicts)
  Exec.modify sealBlock
  pure receipts

def applyBlock (height time : ℕ) (txs : List (SignedTx H)) :
    Exec (State H) StateError (List (Receipt H)) :=
  applyBlockVerified height time txs none

/-- Install the coverage of the block about to be applied. -/
def setBlockCoverage (s : State H) (cover : OrderedSet H) : State H := { s with aggCover := cover }

end Envelope

end HashKinetics.State
