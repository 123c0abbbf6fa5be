import HashKinetics.Node.Batch
import HashKinetics.State.Channels

/-!
# The mempool

The queue of pending transactions with its three indexes, the door in front of it, and the
proposer's choice from it.  The door repeats the envelope checks of the chain against the chain and
what is already pending; a refusal at the door changes nothing.
-/

namespace HashKinetics

open Foundations

/-- The most links the settlements of one proposed block may make the chain hash. -/
def MAX_SETTLE_LINKS_PER_BLOCK : ℕ := 2 ^ 17

/-! ## The price of a settlement -/

namespace State

variable {H : Type} [LinearOrder H] [HashSuite H]

/-- The links a settlement would advance its channel by, if the channel takes it. -/
def settleDelta (s : State H) (id : H) (step : ℕ) : Option ℕ :=
  match s.channels[id]? with
  | none => none
  | some ch =>
    if ch.refunded then none
    else if step ≤ ch.state.highestStepSettled ∨ ch.state.maxSteps < step then none
    else some (step - ch.state.highestStepSettled)

/-- The links the chain would hash for a settlement. -/
def settleLinks (s : State H) (id : H) (step : ℕ) : Option ℕ :=
  (s.settleDelta id step).map fun _ => step

/-- What a settlement costs the next block. -/
def settleCost (s : State H) (id : H) (step : ℕ) : ℕ :=
  match s.settleLinks id step with
  | some links => links
  | none =>
    if s.channels.contains id then 0
    else if s.paywordCapFrom ≤ satAdd u64Max s.height 1 then min step MAX_SETTLE_DELTA
    else step

end State

/-! ## Refusals at the door -/

/-- Why a transaction was refused at the door. -/
inductive AdmitError where
  | full
  | duplicateTx
  | duplicateSlot (pendingNonce : ℕ)
  | unknownSender
  | staleNonce (expected got : ℕ)
  | futureNonce (current got : ℕ)
  | nonceGap (got missing : ℕ)
  | nullifierSpent
  | nullifierPending
  | unknownAnchor
  | badEnvelope
  | authMismatch
  | badSignature
  | channelTooLong (maxSteps : ℕ)
  | settleDeltaTooLarge (delta : ℕ)
  | settleTooCostly (links : ℕ)
  deriving DecidableEq

/-- The default distance a nonce may be ahead of its account. -/
def NONCE_WINDOW : ℕ := 64

/-- The reason on the wire; the envelope refusals carry the wording of the receipts. -/
def AdmitError.asStr : AdmitError → String
  | .full => "mempool full"
  | .duplicateTx => "duplicate: tx already in mempool"
  | .duplicateSlot n =>
    s!"duplicate: a tx for this sender at nonce {n} is already pending (replacement not supported)"
  | .unknownSender => "unknown sender account"
  | .staleNonce expected got => s!"stale nonce: account is at {expected}, tx has {got}"
  | .futureNonce current got =>
    s!"nonce too far ahead: account is at {current}, tx has {got} (window {NONCE_WINDOW})"
  | .nonceGap got missing =>
    s!"nonce gap: tx has {got} but no tx at nonce {missing} is pending for this sender " ++
      "(submit in nonce order)"
  | .nullifierSpent => "nullifier already spent on-chain"
  | .nullifierPending => "nullifier already pending in the mempool"
  | .unknownAnchor => "unknown or expired pool anchor"
  | .badEnvelope => "malformed envelope: lamport_pk must be 16384 bytes and sig 8192 bytes"
  | .authMismatch => StateError.authMismatch.message
  | .badSignature => StateError.badSignature.message
  | .channelTooLong maxSteps => (StateError.channelTooLong maxSteps MAX_CHANNEL_STEPS).message
  | .settleDeltaTooLarge delta => (StateError.settleDeltaTooLarge delta MAX_SETTLE_DELTA).message
  | .settleTooCostly links =>
    s!"settle too costly to propose ({links} links from the tip, " ++
      s!"max {MAX_SETTLE_LINKS_PER_BLOCK} per block until verification is incremental — settle in pieces)"

/-- What the state-free half of admission said about one envelope. -/
structure EnvelopeVerdict (H : Type) where
  /-- The commitment to the key, unless the envelope was refused before any hash. -/
  pkCommit : Option H
  signature : Except AdmitError Unit

/-- The refusal of an envelope whose key was never hashed. -/
def EnvelopeVerdict.refusal {H : Type} (v : EnvelopeVerdict H) : AdmitError :=
  match v.signature with
  | .error e => e
  | .ok _ => .badEnvelope

/-! ## The pool -/

/-- The nullifier a payload spends, if it is a shielded spend. -/
def Tx.nullifier {H : Type} : Tx H → Option H
  | .shieldedSpend _ nf _ _ _ _ _ _ _ _ => some nf
  | _ => none

/-- The slot of a transaction: its sender and its nonce. -/
def SignedTx.slot {H : Type} (tx : SignedTx H) : H ×ₗ ℕ := toLex (tx.sender, tx.nonce)

/-- The pending transactions in the order of their admission, and what the door looks up. -/
structure Mempool (H : Type) [LinearOrder H] where
  q : List (SignedTx H)
  ids : OrderedSet H
  /-- The slots in use, each with the commitment the next nonce must open. -/
  keys : OrderedMap (H ×ₗ ℕ) H
  nullifiers : OrderedSet H
  cap : ℕ

namespace Mempool

variable {H : Type} [LinearOrder H]

def new (cap : ℕ) : Mempool H where
  q := []
  ids := ∅
  keys := ∅
  nullifiers := ∅
  cap := cap

def index (p : Mempool H) (tx : SignedTx H) (id : H) : Mempool H :=
  { p with
    ids := p.ids.insert id
    keys := p.keys.insert tx.slot tx.nextAuth
    nullifiers := match tx.payload.nullifier with
      | some nf => p.nullifiers.insert nf
      | none => p.nullifiers }

/-- The transaction at the end of the queue. -/
def pushBack (p : Mempool H) (tx : SignedTx H) : Mempool H := { p with q := p.q ++ [tx] }

variable [HashSuite H]

section Ids

variable [NodeCodec H]

def unindex (p : Mempool H) (tx : SignedTx H) : Mempool H :=
  { p with
    ids := p.ids.erase (txid tx)
    keys := p.keys.erase tx.slot
    nullifiers := match tx.payload.nullifier with
      | some nf => p.nullifiers.erase nf
      | none => p.nullifiers }

instance lawfulBEq_slot {H : Type} [LinearOrder H] : LawfulBEq (H × ℕ) := inferInstance

/-- The commit-time prune: everything at an included slot leaves.  Returns how many left. -/
def removeIncluded (p : Mempool H) (included : List (H × ℕ)) : ℕ × Mempool H :=
  if included.isEmpty then (0, p)
  else
    let p' := p.q.foldl
      (fun m tx => if (tx.sender, tx.nonce) ∈ included then m.unindex tx else m.pushBack tx)
      { p with q := [] }
    (p.q.length - p'.q.length, p')

/-- The restore path: no checks against the chain, but duplicate ids are suppressed. -/
def insertUnchecked (p : Mempool H) (tx : SignedTx H) : Bool × Mempool H :=
  if p.ids.contains (txid tx) ∨ p.cap ≤ p.q.length then (false, p)
  else (true, (p.index tx (txid tx)).pushBack tx)

/-! ## The door -/

/-- The three lookups every admission starts with. -/
def gate (tx : SignedTx H) : Exec (Mempool H) AdmitError H := do
  let p ← Exec.get
  Exec.rejectIf (p.cap ≤ p.q.length) .full
  Exec.rejectIf (p.ids.contains (txid tx) = true) .duplicateTx
  Exec.rejectIf (p.keys.contains tx.slot = true) (.duplicateSlot tx.nonce)
  pure (txid tx)

end Ids

/-- A channel may not be opened with more steps than the cap. -/
def channelOpenCap (tx : SignedTx H) : Except AdmitError Unit :=
  match tx.payload with
  | .channelOpen _ _ _ _ _ _ maxSteps _ =>
    if MAX_CHANNEL_STEPS < maxSteps then .error (.channelTooLong maxSteps) else .ok ()
  | _ => .ok ()

/-- The state-free half of admission. -/
def envelopeVerdict [TxCodec H] (tx : SignedTx H) : EnvelopeVerdict H :=
  if tx.lamportPk.length ≠ Lamport.N_CHUNKS_SK ∨ tx.sig.length ≠ Lamport.SIG_CHUNKS then
    ⟨none, .error .badEnvelope⟩
  else
    match channelOpenCap tx with
    | .error e => ⟨none, .error e⟩
    | .ok _ =>
      ⟨some (Lamport.pkCommit tx.lamportPk),
        if State.verifyEnvelope tx then .ok ()
        else if (signingDigest tx.payload tx.sender tx.nonce tx.nextAuth).isNone then
          .error .badEnvelope
        else .error .badSignature⟩

/-- An envelope that verifies has the lengths of a key and a signature. -/
lemma lengths_of_verifyEnvelope [TxCodec H] {tx : SignedTx H} (h : State.verifyEnvelope tx = true) :
    tx.lamportPk.length = Lamport.N_CHUNKS_SK ∧ tx.sig.length = Lamport.SIG_CHUNKS := by
  unfold State.verifyEnvelope at h
  split at h
  · obtain ⟨hpk, hsig, -⟩ := of_decide_eq_true h
    exact ⟨hpk, hsig⟩
  · cases h

/-- The verdict about an envelope that verifies. -/
lemma envelopeVerdict_of_verified [TxCodec H] {tx : SignedTx H}
    (h : State.verifyEnvelope tx = true) (hcap : channelOpenCap tx = .ok ()) :
    envelopeVerdict tx = ⟨some (Lamport.pkCommit tx.lamportPk), .ok ()⟩ := by
  obtain ⟨hpk, hsig⟩ := lengths_of_verifyEnvelope h
  simp [envelopeVerdict, hpk, hsig, hcap, h]

/-- How far a settlement may climb, on a channel the chain knows or does not know. -/
def settleDeltaCap (chain : State H) (id : H) (step : ℕ) : Except AdmitError Unit :=
  match chain.settleDelta id step with
  | some delta => if MAX_SETTLE_DELTA < delta then .error (.settleDeltaTooLarge delta) else .ok ()
  | none =>
    if chain.channels.contains id = false ∧ MAX_SETTLE_DELTA < step then
      .error (.settleDeltaTooLarge step)
    else .ok ()

/-- A settlement may neither climb too far nor cost more than a whole block may. -/
def channelSettleCap (tx : SignedTx H) (chain : State H) : Except AdmitError Unit :=
  match tx.payload with
  | .channelSettle id _ step => do
    settleDeltaCap chain id step
    if MAX_SETTLE_LINKS_PER_BLOCK < chain.settleCost id step then
      .error (.settleTooCostly (chain.settleCost id step))
    else .ok ()
  | _ => .ok ()

/-- The pool lookups of a shielded spend. -/
def spendDoor (p : Mempool H) (chain : State H) : Tx H → Except AdmitError Unit
  | .shieldedSpend anchor nf _ _ _ _ _ _ _ _ =>
    match (chain.poolKeyOfAnchor anchor).bind chain.poolRef with
    | none => .error .unknownAnchor
    | some pool =>
      if pool.nullifiers.contains nf then .error .nullifierSpent
      else if p.nullifiers.contains nf then .error .nullifierPending
      else .ok ()
  | _ => .ok ()

/-- The commitment the key of a transaction must open: the account's at the account's nonce, the one
of the pending predecessor beyond it. -/
def expectedAuth (p : Mempool H) (acc : Account H) (tx : SignedTx H) : Except AdmitError H :=
  if tx.nonce = acc.nonce then .ok acc.authCommit
  else
    match p.keys[toLex (tx.sender, tx.nonce - 1)]? with
    | some nextAuth => .ok nextAuth
    | none => .error (.nonceGap tx.nonce (tx.nonce - 1))

/-- Everything after the gate and the settlement cap.  The sum of nonce and window wraps. -/
def admitGated (window : ℕ) (tx : SignedTx H) (id : H) (chain : State H)
    (verdict : EnvelopeVerdict H) : Exec (Mempool H) AdmitError H := do
  let pkCommit ← Exec.okOr verdict.pkCommit verdict.refusal
  let acc ← Exec.okOr chain.accounts[tx.sender]? .unknownSender
  Exec.rejectIf (tx.nonce < acc.nonce) (.staleNonce acc.nonce tx.nonce)
  Exec.rejectIf ((acc.nonce + window) % 2 ^ 64 ≤ tx.nonce) (.futureNonce acc.nonce tx.nonce)
  let p ← Exec.get
  Exec.ofExcept (fun e => e) (p.spendDoor chain tx.payload)
  let expected ← Exec.ofExcept (fun e => e) (p.expectedAuth acc tx)
  Exec.rejectIf (pkCommit ≠ expected) .authMismatch
  Exec.ofExcept (fun e => e) verdict.signature
  Exec.modify fun p => (p.index tx id).pushBack tx
  pure id

variable [NodeCodec H]

/-- The door for a verdict that was computed ahead of the locks. -/
def tryAdmitVerified (window : ℕ) (tx : SignedTx H) (chain : State H)
    (verdict : EnvelopeVerdict H) : Exec (Mempool H) AdmitError H := do
  let id ← gate tx
  Exec.ofExcept (fun e => e) (channelSettleCap tx chain)
  admitGated window tx id chain verdict

/-- The door. -/
def tryAdmit [TxCodec H] (window : ℕ) (tx : SignedTx H) (chain : State H) :
    Exec (Mempool H) AdmitError H := do
  let id ← gate tx
  Exec.ofExcept (fun e => e) (channelSettleCap tx chain)
  let verdict := envelopeVerdict tx
  admitGated window tx id chain verdict

/-! ## What an admission checked -/

variable {window : ℕ} {tx : SignedTx H} {chain : State H} {verdict : EnvelopeVerdict H}
  {p p' : Mempool H} {id : H}

/-- The door computes the verdict it is not given. -/
lemma tryAdmit_eq [TxCodec H] (window : ℕ) (tx : SignedTx H) (chain : State H) :
    tryAdmit window tx chain = tryAdmitVerified window tx chain (envelopeVerdict tx) := rfl

/-- What the door checked before it let a transaction in, and the pool it left. -/
structure Admitted (tx : SignedTx H) (chain : State H) (verdict : EnvelopeVerdict H)
    (p p' : Mempool H) : Prop where
  room : p.q.length < p.cap
  fresh : ¬ p.ids.contains (txid tx) = true
  slot : ¬ p.keys.contains tx.slot = true
  settle : channelSettleCap tx chain = .ok ()
  spend : p.spendDoor chain tx.payload = .ok ()
  account : ∃ acc, chain.accounts[tx.sender]? = some acc ∧ acc.nonce ≤ tx.nonce ∧
    ∃ auth, p.expectedAuth acc tx = .ok auth ∧ verdict.pkCommit = some auth
  signature : verdict.signature = .ok ()
  result : p' = (p.index tx (txid tx)).pushBack tx

lemma gate_eq_ok : gate tx p = (.ok id, p') ↔
    p.q.length < p.cap ∧ ¬ p.ids.contains (txid tx) = true ∧ ¬ p.keys.contains tx.slot = true ∧
      txid tx = id ∧ p = p' := by
  simp only [gate, Exec.get_bind_eq_ok, Exec.rejectIf_bind_eq_ok, Exec.pure_eq_ok, not_le]

lemma admitted_of_tryAdmitVerified
    (h : tryAdmitVerified window tx chain verdict p = (.ok id, p')) :
    Admitted tx chain verdict p p' := by
  obtain ⟨id', p₁, hgate, h⟩ := Exec.bind_eq_ok.mp h
  obtain ⟨hroom, hfresh, hslot, rfl, rfl⟩ := gate_eq_ok.mp hgate
  simp only [admitGated, Exec.ofExcept_bind_eq_ok, Exec.okOr_bind_eq_ok, Exec.rejectIf_bind_eq_ok,
    Exec.get_bind_eq_ok, Exec.modify_bind_eq_ok, Exec.pure_eq_ok, not_lt, not_not] at h
  obtain ⟨_, hsettle, pk, hpk, acc, hacc, hle, -, _, hspend, auth, hauth, rfl, _, hsig, -, rfl⟩ := h
  exact ⟨hroom, hfresh, hslot, hsettle, hspend, ⟨acc, hacc, hle, pk, hauth, hpk⟩, hsig, rfl⟩

lemma reads_gate (tx : SignedTx H) : (gate tx).Reads :=
  Exec.reads_get.bind fun _ => (Exec.reads_rejectIf _ _).bind fun _ =>
    (Exec.reads_rejectIf _ _).bind fun _ => (Exec.reads_rejectIf _ _).bind fun _ =>
      Exec.reads_pure _

/-- Nothing is indexed before every check has passed. -/
lemma atomic_tryAdmitVerified (window : ℕ) (tx : SignedTx H) (chain : State H)
    (verdict : EnvelopeVerdict H) : (tryAdmitVerified window tx chain verdict).Atomic := by
  refine Exec.Atomic.bind_reads (reads_gate tx) fun _ => .ofExcept fun _ => .okOr fun _ => ?_
  refine Exec.Atomic.okOr fun _ => .rejectIf fun _ => .rejectIf fun _ => .get fun _ => ?_
  refine Exec.Atomic.ofExcept fun _ => .ofExcept fun _ => .rejectIf fun _ => .ofExcept fun _ => ?_
  exact ((Exec.infallible_modify _).bind fun _ => Exec.infallible_pure _).atomic

/-- Why the door refused. -/
inductive Refused (tx : SignedTx H) (chain : State H) (verdict : EnvelopeVerdict H)
    (p : Mempool H) :
    AdmitError → Prop
  | full (h : p.cap ≤ p.q.length) : Refused tx chain verdict p .full
  | duplicateTx (h : p.ids.contains (txid tx) = true) : Refused tx chain verdict p .duplicateTx
  | duplicateSlot (h : p.keys.contains tx.slot = true) :
      Refused tx chain verdict p (.duplicateSlot tx.nonce)
  | settle {e : AdmitError} (h : channelSettleCap tx chain = .error e) :
      Refused tx chain verdict p e
  | envelope (h : verdict.pkCommit = none ∨ ∃ e, verdict.signature = .error e) :
      Refused tx chain verdict p verdict.refusal
  | unknownSender (h : chain.accounts[tx.sender]? = none) :
    Refused tx chain verdict p .unknownSender
  | staleNonce {acc : Account H} (hacc : chain.accounts[tx.sender]? = some acc)
      (h : tx.nonce < acc.nonce) : Refused tx chain verdict p (.staleNonce acc.nonce tx.nonce)
  | futureNonce (current : ℕ) : Refused tx chain verdict p (.futureNonce current tx.nonce)
  | spend {e : AdmitError} (h : p.spendDoor chain tx.payload = .error e) :
      Refused tx chain verdict p e
  | nonceGap : Refused tx chain verdict p (.nonceGap tx.nonce (tx.nonce - 1))
  | authMismatch {acc : Account H} {pk auth : H} (hslot : ¬ p.keys.contains tx.slot = true)
      (hacc : chain.accounts[tx.sender]? = some acc) (hle : acc.nonce ≤ tx.nonce)
      (hauth : p.expectedAuth acc tx = .ok auth) (hpk : verdict.pkCommit = some pk)
      (hne : pk ≠ auth) : Refused tx chain verdict p .authMismatch

/-- The door never stops on a failed assertion, and a refusal names what it found. -/
lemma safe_tryAdmitVerified (window : ℕ) (tx : SignedTx H) (chain : State H)
    (verdict : EnvelopeVerdict H) (p : Mempool H) :
    (tryAdmitVerified window tx chain verdict).Safe p (Refused tx chain verdict p) := by
  have hgate : (gate tx).Safe p (Refused tx chain verdict p) := by
    refine (Exec.safe_get p _).bind fun _ _ hget => ?_
    obtain ⟨rfl, rfl⟩ := Exec.get_eq_ok.mp hget
    refine (Exec.safe_rejectIf p .full).bind fun _ _ h => ?_
    obtain ⟨-, rfl⟩ := Exec.rejectIf_eq_ok.mp h
    refine (Exec.safe_rejectIf p .duplicateTx).bind fun _ _ h => ?_
    obtain ⟨-, rfl⟩ := Exec.rejectIf_eq_ok.mp h
    refine (Exec.safe_rejectIf p .duplicateSlot).bind fun _ _ h => ?_
    exact Exec.safe_pure _ _ _
  refine hgate.bind fun id p₁ h => ?_
  obtain ⟨-, -, hslot, -, rfl⟩ := gate_eq_ok.mp h
  refine (Exec.safe_ofExcept p fun e he => .settle he).bind fun _ _ h => ?_
  obtain ⟨-, rfl⟩ := Exec.ofExcept_eq_ok.mp h
  refine (Exec.safe_okOr p fun hnone => .envelope (.inl hnone)).bind fun pk _ h => ?_
  obtain ⟨hpk, rfl⟩ := Exec.okOr_eq_ok.mp h
  refine (Exec.safe_okOr p .unknownSender).bind fun acc _ h => ?_
  obtain ⟨hacc, rfl⟩ := Exec.okOr_eq_ok.mp h
  refine (Exec.safe_rejectIf p (.staleNonce hacc)).bind fun _ _ h => ?_
  obtain ⟨hle, rfl⟩ := Exec.rejectIf_eq_ok.mp h
  refine (Exec.safe_rejectIf p fun _ => .futureNonce _).bind fun _ _ h => ?_
  obtain ⟨-, rfl⟩ := Exec.rejectIf_eq_ok.mp h
  refine (Exec.safe_get p _).bind fun _ _ h => ?_
  obtain ⟨rfl, rfl⟩ := Exec.get_eq_ok.mp h
  refine (Exec.safe_ofExcept p fun e he => .spend he).bind fun _ _ h => ?_
  obtain ⟨-, rfl⟩ := Exec.ofExcept_eq_ok.mp h
  refine (Exec.safe_ofExcept p fun e he => ?_).bind fun auth _ h => ?_
  · unfold expectedAuth at he
    split at he
    · cases he
    · split at he
      · cases he
      · cases he
        exact .nonceGap
  obtain ⟨hauth, rfl⟩ := Exec.ofExcept_eq_ok.mp h
  refine (Exec.safe_rejectIf p fun hne =>
    .authMismatch hslot hacc (not_lt.mp hle) hauth hpk hne).bind fun _ _ h => ?_
  obtain ⟨-, rfl⟩ := Exec.rejectIf_eq_ok.mp h
  refine (Exec.safe_ofExcept p fun e he => ?_).bind fun _ _ h => ?_
  · have href : verdict.refusal = e := by rw [EnvelopeVerdict.refusal, he]
    rw [← href]
    exact .envelope (.inr ⟨e, he⟩)
  obtain ⟨-, rfl⟩ := Exec.ofExcept_eq_ok.mp h
  exact (Exec.safe_modify _ _ _).bind fun _ _ _ => Exec.safe_pure _ _ _

/-- At the door a transaction is admitted, or nothing happens. -/
lemma tryAdmitVerified_cases (window : ℕ) (tx : SignedTx H) (chain : State H)
    (verdict : EnvelopeVerdict H) (p : Mempool H) :
    Admitted tx chain verdict p (tryAdmitVerified window tx chain verdict p).2 ∨
      (tryAdmitVerified window tx chain verdict p).2 = p := by
  rcases h : tryAdmitVerified window tx chain verdict p with ⟨id | e | _, p'⟩
  · exact .inl (admitted_of_tryAdmitVerified h)
  · have hatomic := atomic_tryAdmitVerified window tx chain verdict p e
    rw [h] at hatomic
    exact .inr (hatomic rfl)
  · exact absurd (congrArg Prod.fst h) (safe_tryAdmitVerified window tx chain verdict p).1

end Mempool

/-! ## The proposer -/

section Proposer

variable {H : Type} [LinearOrder H] [HashSuite H]

/-- The proposer's loop over the queue. -/
def selectLoop (chain : State H) (room : ℕ) : List (SignedTx H) → List (SignedTx H) → ℕ → ℕ →
    OrderedSet H → List (SignedTx H) × ℕ
  | [], picked, held, _, _ => (picked, held)
  | tx :: pending, picked, held, links, heldSenders =>
    if room ≤ picked.length then (picked, held)
    else if heldSenders.contains tx.sender then
      selectLoop chain room pending picked (held + 1) links heldSenders
    else
      match tx.payload with
      | .channelSettle id _ step =>
        let cost := chain.settleCost id step
        if MAX_SETTLE_LINKS_PER_BLOCK < satAdd u64Max links cost then
          selectLoop chain room pending picked (held + 1) links (heldSenders.insert tx.sender)
        else
          selectLoop chain room pending (picked ++ [tx]) held (satAdd u64Max links cost) heldSenders
      | _ => selectLoop chain room pending (picked ++ [tx]) held links heldSenders

/-- Pick up to `room` transactions, in order, holding back the settlements that would overrun the
budget of links and everything their senders queued behind them. -/
def selectBatchTxs (chain : State H) (pending : List (SignedTx H)) (room linksSoFar : ℕ) :
    List (SignedTx H) × ℕ :=
  selectLoop chain room pending [] 0 linksSoFar ∅

omit [HashSuite H] in
/-- The proposer picks from the queue in its order. -/
lemma selectLoop_sublist (chain : State H) (room : ℕ) (pending picked : List (SignedTx H))
    (held links : ℕ) (heldSenders : OrderedSet H) :
    (selectLoop chain room pending picked held links heldSenders).1.Sublist (picked ++
      pending) := by
  induction pending generalizing picked held links heldSenders with
  | nil => simp [selectLoop]
  | cons tx pending ih =>
    have hskip : (picked ++ pending).Sublist (picked ++ tx :: pending) :=
      (List.Sublist.refl picked).append (List.sublist_cons_self tx pending)
    have htake : picked ++ [tx] ++ pending = picked ++ tx :: pending := by simp
    unfold selectLoop
    split
    · exact List.sublist_append_left picked _
    split
    · exact (ih _ _ _ _).trans hskip
    split
    · dsimp only
      split
      · exact (ih _ _ _ _).trans hskip
      · exact htake ▸ ih (picked ++ [tx]) _ _ _
    · exact htake ▸ ih (picked ++ [tx]) _ _ _

end Proposer

namespace Concrete

/-- No value decodes; a transaction is hashed by its payload, its sender and its nonce. -/
instance : NodeCodec ℕ where
  decodeBatch _ := none
  decodeValue _ := none
  txJson tx := (txCode tx.payload ++ [tx.sender, tx.nonce]).flatMap leBytes

/-- The verdict about an honestly signed transaction that opens no overlong channel. -/
lemma envelopeVerdict_signed (seed : List UInt8) (sender nonce : ℕ) {payload : Tx ℕ}
    (hcap : Mempool.channelOpenCap (signed seed sender nonce payload) = .ok ()) :
    Mempool.envelopeVerdict (signed seed sender nonce payload) =
      ⟨some (commitAt seed nonce), .ok ()⟩ := by
  rw [Mempool.envelopeVerdict_of_verified (verifyEnvelope_signed _ _ _ _) hcap, pkCommit_signed]

end Concrete

end HashKinetics
