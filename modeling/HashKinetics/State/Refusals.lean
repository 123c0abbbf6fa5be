import HashKinetics.State.Run

/-!
# Whose refusal it is

The envelope of a transaction refuses an unknown sender, a nonce that is not the account's, a key
the account has not committed to, and a signature that does not verify.  No body refuses with one of
these errors, so a receipt tells whether the envelope or what it carries was refused.
-/

namespace HashKinetics

open Foundations

/-- The errors of the envelope. -/
def StateError.isEnvelope : StateError → Bool
  | .unknownAccount => true
  | .badNonce _ _ => true
  | .authMismatch => true
  | .badSignature => true
  | .encode => true
  | _ => false

namespace State

variable {H : Type} [LinearOrder H] [HashSuite H] {s : State H} {e : StateError}

/-- The error is not one of the envelope. -/
def OfBody (e : StateError) : Prop := e.isEnvelope = false

/-! ## The checks of the bodies -/

omit [HashSuite H] in
/-- The pause and freeze gate refuses with an error of the body. -/
lemma ofBody_assetGate {asset : H} {src dst : Option H}
    (h : s.assetGate asset src dst = .error e) : OfBody e := by
  unfold assetGate at h
  split at h
  · split at h
    · cases h
      rfl
    · split at h
      · cases h
        rfl
      · cases h
  · cases h

omit [HashSuite H] in
/-- The check of the issuer and the policy refuses with an error of the body. -/
lemma ofBody_issuerEntry {sender asset : H} {allowed : AssetPolicy → Bool}
    (h : s.issuerEntry sender asset allowed = .error e) : OfBody e := by
  unfold issuerEntry at h
  split at h
  · cases h
    rfl
  · split at h
    · cases h
      rfl
    · split at h
      · cases h
        rfl
      · cases h

omit [HashSuite H] in
/-- The look-up of a holder refuses with an error of the body. -/
lemma ofBody_holderOf {id : H} (h : s.holderOf id = .error e) : OfBody e := by
  unfold holderOf at h
  split at h
  · cases h
  · cases h
    rfl

omit [HashSuite H] in
/-- The asset rule of a chain refuses with an error of the body. -/
lemma ofBody_checkMandateAssetBound {leaf root : H}
    (h : s.checkMandateAssetBound leaf root = .error e) : OfBody e := by
  unfold checkMandateAssetBound at h
  split at h
  · cases h
    rfl
  · split at h
    · cases h
      rfl
    · split at h
      · cases h
        rfl
      · cases h

omit [HashSuite H] in
/-- The height gate of the asset rule. -/
lemma ofBody_boundIf {leaf root : H} {c : Prop} [Decidable c]
    (h : (if c then s.checkMandateAssetBound leaf root else .ok ()) = .error e) : OfBody e := by
  split at h
  · exact ofBody_checkMandateAssetBound h
  · cases h

omit [HashSuite H] in
/-- The checks of a parent refuse with an error of the body. -/
lemma ofBody_checkMandateParent {sender asset : H} {parent : Option H}
    (h : s.checkMandateParent sender asset parent = .error e) : OfBody e := by
  cases parent with
  | none => cases h
  | some p =>
    simp only [checkMandateParent, bind, Except.bind] at h
    split at h
    next hholder =>
      cases h
      exact ofBody_holderOf hholder
    · split at h
      · cases h
        rfl
      · split at h
        · split at h
          · cases h
            rfl
          · split at h
            · cases h
              rfl
            · cases h
        · cases h

omit [HashSuite H] in
/-- The choice of a pool refuses with an error of the body. -/
lemma ofBody_poolKeyOfAsset {asset : H} (h : s.poolKeyOfAsset asset = .error e) : OfBody e := by
  unfold poolKeyOfAsset at h
  split at h
  · cases h
  · split_ifs at h
    cases h
    rfl

omit [HashSuite H] in
/-- The asset rule of an unshield refuses as a body does. -/
lemma refusesOnly_checkSpendMandateAsset (s : State H) (asset mandate : Option H) :
    (checkSpendMandateAsset s asset mandate).RefusesOnly OfBody := by
  cases mandate with
  | none => exact (Exec.infallible_pure _).refusesOnly
  | some m =>
    refine .when (.ofOutcome (fun _ _ => rfl) fun _ => ?_)
    refine .ofExcept (fun _ h => ofBody_checkMandateAssetBound h) fun _ => .okOr rfl fun _ => ?_
    exact fun t =>
      (Exec.safe_rejectIf (e := StateError.mandateAssetMismatch) (P := OfBody) t fun _ => rfl).2

omit [HashSuite H] in
/-- What the tree refuses is passed on as a refusal of the body. -/
lemma refusesOnly_onMandates {α : Type} (x : Exec (MandateTree H) SpendError α) :
    (onMandates x).RefusesOnly OfBody :=
  Exec.RefusesOnly.zoom fun _ => rfl

omit [HashSuite H] in
/-- A debit refuses for want of balance. -/
lemma refusesOnly_debit (id asset : H) (amount : ℕ) : (debit id asset amount).RefusesOnly OfBody :=
  .get fun _ => .rejectIf rfl (Exec.infallible_modify _).refusesOnly

/-! ## The bodies -/

omit [HashSuite H] in
/-- A transfer refuses as a body does. -/
lemma refusesOnly_doTransfer (src dst asset : H) (amount : ℕ) :
    (doTransfer src dst asset amount).RefusesOnly OfBody := by
  refine .rejectIf rfl (.get fun _ => .ofExcept (fun _ h => ofBody_assetGate h) fun _ => ?_)
  refine (refusesOnly_debit _ _ _).bind fun _ => ?_
  exact ((infallible_credit _ _ _).bind fun _ => Exec.infallible_pure _).refusesOnly

/-- An account creation refuses as a body does. -/
lemma refusesOnly_doAccountCreate (sender id authCommit asset : H) (amount : ℕ) :
    (doAccountCreate sender id authCommit asset amount).RefusesOnly OfBody := by
  refine .rejectIf rfl (.get fun _ => .rejectIf rfl ?_)
  refine (Exec.RefusesOnly.when (.ofExcept (fun _ h => ofBody_assetGate h) fun _ =>
    refusesOnly_debit _ _ _)).bind fun _ => ?_
  exact ((Exec.infallible_modify _).bind fun _ => (infallible_credit _ _ _).when.bind fun _ =>
    Exec.infallible_pure _).refusesOnly

omit [HashSuite H] in
/-- A mandate creation refuses as a body does. -/
lemma refusesOnly_doMandateCreate (sender id : H) (parent : Option H) (holder asset : H)
    (ratePerSec bufferMax perTxMax initialBuffer expiry tier : ℕ) :
    (doMandateCreate sender id parent holder asset ratePerSec bufferMax perTxMax initialBuffer
      expiry
      tier).RefusesOnly OfBody := by
  refine .get fun _ => .rejectIf rfl (.ofExcept (fun _ h => ofBody_checkMandateParent h) fun _ =>
    ?_)
  refine (refusesOnly_onMandates _).bind fun _ => ?_
  exact ((Exec.infallible_modify _).when.bind fun _ => Exec.infallible_pure _).refusesOnly

omit [HashSuite H] in
/-- A mandate spend refuses as a body does; the balance it compares is not that of the fee. -/
lemma refusesOnly_doMandateSpend (sender leaf dst : H) (amount : ℕ) :
    (doMandateSpend sender leaf dst amount).RefusesOnly OfBody := by
  refine .rejectIf rfl (.get fun _ => .ofExcept (fun _ h => ofBody_holderOf h) fun _ => ?_)
  refine .rejectIf rfl (.okOr rfl fun _ => .ofOutcome (fun _ _ => rfl) fun _ => .okOr rfl fun _ =>
    ?_)
  refine .ofExcept (fun _ h => ofBody_boundIf h) fun _ => (refusesOnly_onMandates _).bind fun _ =>
    ?_
  refine .ofExcept (fun _ h => ofBody_assetGate h) fun _ => .rejectIf rfl ?_
  refine (refusesOnly_onMandates _).bind fun _ => ?_
  exact ((Exec.infallible_expect _).bind fun _ => (infallible_credit _ _ _).bind fun _ =>
    Exec.infallible_pure _).refusesOnly

omit [HashSuite H] in
/-- A revocation refuses as a body does. -/
lemma refusesOnly_doMandateRevoke (sender target : H) :
    (doMandateRevoke sender target).RefusesOnly OfBody := by
  refine .get fun _ => .okOr rfl fun _ => .ofExcept (fun _ h => ?_) fun _ => .rejectIf rfl ?_
  · split at h
    · exact ofBody_holderOf h
    · exact ofBody_holderOf h
  · exact (refusesOnly_onMandates _).bind fun _ => (Exec.infallible_pure _).refusesOnly

/-- Opening a channel looks the sender's account up once more. -/
lemma refuses_doChannelOpen {sender : H} (hacc : s.accounts[sender]? ≠ none)
    (chId mandate payee asset tip : H) (unitPrice maxSteps expiry : ℕ) :
    (doChannelOpen sender chId mandate payee asset tip unitPrice maxSteps expiry).Refuses s
      OfBody := by
  refine .get (.rejectIf (fun _ => rfl) fun _ => .rejectIf (fun _ => rfl) fun _ => ?_)
  refine .rejectIf (fun _ => rfl) fun _ => .ofExcept (fun _ h => ofBody_holderOf h) fun _ _ => ?_
  refine .rejectIf (fun _ => rfl) fun _ => .okOr (fun hnone => absurd hnone hacc) fun _ _ => ?_
  refine Exec.RefusesOnly.rejectIf (P := OfBody) (e := .channelIdMismatch) rfl ?_ s
  refine .okOr rfl fun _ => .okOr rfl fun _ => .rejectIf rfl ?_
  refine .ofOutcome (fun _ _ => rfl) fun _ => .okOr rfl fun _ => ?_
  refine .ofExcept (fun _ h => ofBody_boundIf h) fun _ => (refusesOnly_onMandates _).bind fun _ =>
    ?_
  refine .ofExcept (fun _ h => ofBody_assetGate h) fun _ => .rejectIf rfl ?_
  refine (refusesOnly_onMandates _).bind fun _ => ?_
  exact ((Exec.infallible_expect _).bind fun _ => (Exec.infallible_modify _).bind fun _ =>
    Exec.infallible_pure _).refusesOnly

/-- A settlement refuses as a body does. -/
lemma refusesOnly_doChannelSettle (chId word : H) (step : ℕ) :
    (doChannelSettle chId word step).RefusesOnly OfBody := by
  refine .get fun _ => .okOr rfl fun _ => .rejectIf rfl (.rejectIf rfl (.rejectIf rfl ?_))
  refine .rejectIf rfl (.okOr rfl fun _ => .ofExcept (fun _ h => ofBody_assetGate h) fun _ => ?_)
  exact ((Exec.infallible_unwrap _).bind fun _ => (Exec.infallible_modify _).bind fun _ =>
    (infallible_credit _ _ _).bind fun _ => Exec.infallible_pure _).refusesOnly

omit [HashSuite H] in
/-- A refund refuses as a body does. -/
lemma refusesOnly_doChannelRefund (sender chId : H) :
    (doChannelRefund sender chId).RefusesOnly OfBody := by
  refine .get fun _ => .okOr rfl fun _ => .rejectIf rfl (.rejectIf rfl (.rejectIf rfl ?_))
  refine .ofExcept (fun _ h => ofBody_assetGate h) fun _ => ?_
  exact ((Exec.infallible_modify _).bind fun _ => (infallible_credit _ _ _).bind fun _ =>
    Exec.infallible_pure _).refusesOnly

/-- A shield refuses as a body does. -/
lemma refusesOnly_doMintToPool (sender asset : H) (value : ℕ) (commitment : H)
    (proof : List UInt8) :
    (doMintToPool sender asset value commitment proof).RefusesOnly OfBody := by
  refine .rejectIf rfl (.rejectIf rfl (.get fun _ => .rejectIf rfl ?_))
  refine .ofExcept (fun _ h => ofBody_assetGate h) fun _ => ?_
  refine .ofExcept (fun _ h => ofBody_poolKeyOfAsset h) fun _ => ?_
  refine .rejectIf rfl (.rejectIf rfl (.rejectIf rfl ((refusesOnly_debit _ _ _).bind fun _ => ?_)))
  exact (Exec.infallible_get.bind fun _ => (Exec.infallible_unwrap _).bind fun _ =>
    (Exec.infallible_modify _).bind fun _ => Exec.infallible_pure _).refusesOnly

omit [HashSuite H] in
/-- The mandate of an unshield is refused as that of a spend is. -/
lemma refusesOnly_checkSpendMandate (s : State H) (sender : H) (fee : ℕ) (mandate : Option H) :
    (checkSpendMandate s sender fee mandate).RefusesOnly OfBody := by
  cases mandate with
  | none => exact (Exec.infallible_pure _).refusesOnly
  | some m =>
    refine .rejectIf rfl (.ofExcept (fun _ h => ofBody_holderOf h) fun _ => .rejectIf rfl ?_)
    exact refusesOnly_onMandates _

/-- A shielded spend refuses as a body does. -/
lemma refusesOnly_doShieldedSpend (sender anchor nf out out2 : H) (fee : ℕ)
    (creditTo mandate : Option H) (proof : List UInt8) :
    (doShieldedSpend sender anchor nf out out2 fee creditTo mandate proof).RefusesOnly OfBody := by
  refine .rejectIf rfl (.rejectIf rfl (.get fun s => ?_))
  refine (refusesOnly_checkSpendMandate s _ _ _).bind fun _ => .okOr rfl fun _ => .rejectIf rfl ?_
  refine (refusesOnly_checkSpendMandateAsset s _ _).bind fun _ => ?_
  refine (Exec.RefusesOnly.when ((Exec.infallible_unwrap _).refusesOnly.bind fun _ => ?_)).bind
    fun _ => ?_
  · exact fun t => (Exec.safe_ofExcept t fun _ h => ofBody_assetGate h).2
  refine (Exec.infallible_unwrap _).refusesOnly.bind fun _ => .rejectIf rfl (.rejectIf rfl ?_)
  refine .rejectIf rfl (Exec.RefusesOnly.bind ?_ fun _ => ?_)
  · cases mandate with
    | none => exact (Exec.infallible_pure _).refusesOnly
    | some m => exact refusesOnly_onMandates _
  · refine ((Exec.infallible_unwrap _).bind fun _ => (Exec.infallible_modify _).bind fun _ =>
      Exec.Infallible.bind (Exec.Infallible.when ?_) fun _ => Exec.infallible_pure _).refusesOnly
    exact (Exec.infallible_unwrap _).bind fun _ => (Exec.infallible_unwrap _).bind fun _ =>
      infallible_credit _ _ _

/-- A registration refuses as a body does. -/
lemma refusesOnly_doAssetRegister (sender asset : H) (symbol : String) (decimals : ℕ)
    (policy : AssetPolicy) :
    (doAssetRegister sender asset symbol decimals policy).RefusesOnly OfBody := by
  refine .rejectIf rfl (.rejectIf rfl (.rejectIf rfl (.get fun _ => .rejectIf rfl ?_)))
  exact ((Exec.infallible_modify _).bind fun _ => Exec.infallible_pure _).refusesOnly

omit [HashSuite H] in
/-- A mint refuses as a body does. -/
lemma refusesOnly_doAssetMint (sender asset dst : H) (amount : ℕ) :
    (doAssetMint sender asset dst amount).RefusesOnly OfBody := by
  refine .rejectIf rfl (.get fun _ => .ofExcept (fun _ h => ofBody_issuerEntry h) fun _ => ?_)
  refine .okOr rfl fun _ => .ofExcept (fun _ h => ofBody_assetGate h) fun _ => ?_
  exact ((Exec.infallible_unwrap _).bind fun _ => (Exec.infallible_unwrap _).bind fun _ =>
    (Exec.infallible_modify _).bind fun _ => (infallible_credit _ _ _).bind fun _ =>
      Exec.infallible_pure _).refusesOnly

omit [HashSuite H] in
/-- A burn refuses as a body does. -/
lemma refusesOnly_doAssetBurn (sender asset : H) (amount : ℕ) (destination : List UInt8) :
    (doAssetBurn sender asset amount destination).RefusesOnly OfBody := by
  refine .rejectIf rfl (.rejectIf rfl (.get fun _ => .rejectIf rfl ?_))
  refine .ofExcept (fun _ h => ofBody_assetGate h) fun _ => (refusesOnly_debit _ _ _).bind fun _ =>
    ?_
  exact ((Exec.infallible_unwrap _).bind fun _ => (Exec.infallible_modify _).bind fun _ =>
    Exec.infallible_pure _).refusesOnly

omit [HashSuite H] in
/-- A verb of the issuer: one entry is looked up and written. -/
lemma refusesOnly_issuerVerb {sender asset : H} {allowed : AssetPolicy → Bool}
    {f : AssetInfo H → State H → State H} {evs : List (Event H)} :
    (do
      let s ← Exec.get
      let info ← Exec.ofExcept id (s.issuerEntry sender asset allowed)
      Exec.modify (f info)
      pure evs : Exec (State H) StateError (List (Event H))).RefusesOnly OfBody := by
  refine .get fun _ => .ofExcept (fun _ h => ofBody_issuerEntry h) fun _ => ?_
  exact ((Exec.infallible_modify _).bind fun _ => Exec.infallible_pure _).refusesOnly

/-- No body refuses with an error of the envelope, once the sender has an account. -/
lemma refuses_dispatch {sender : H} (hacc : s.accounts[sender]? ≠ none) (tx : Tx H) :
    (dispatch sender tx).Refuses s OfBody := by
  cases tx with
  | transfer => exact refusesOnly_doTransfer _ _ _ _ s
  | mandateCreate => exact refusesOnly_doMandateCreate _ _ _ _ _ _ _ _ _ _ _ s
  | mandateSpend => exact refusesOnly_doMandateSpend _ _ _ _ s
  | mandateRevoke => exact refusesOnly_doMandateRevoke _ _ s
  | channelOpen => exact refuses_doChannelOpen hacc _ _ _ _ _ _ _ _
  | channelSettle => exact refusesOnly_doChannelSettle _ _ _ s
  | channelRefund => exact refusesOnly_doChannelRefund _ _ s
  | mintToPool => exact refusesOnly_doMintToPool _ _ _ _ _ s
  | shieldedSpend => exact refusesOnly_doShieldedSpend _ _ _ _ _ _ _ _ _ s
  | accountCreate => exact refusesOnly_doAccountCreate _ _ _ _ _ s
  | assetRegister => exact refusesOnly_doAssetRegister _ _ _ _ _ s
  | assetMint => exact refusesOnly_doAssetMint _ _ _ _ s
  | assetBurn => exact refusesOnly_doAssetBurn _ _ _ _ s
  | assetFreeze => exact refusesOnly_issuerVerb s
  | assetPause => exact refusesOnly_issuerVerb s

/-! ## The whole transaction -/

section Envelope

variable [TxCodec H]

omit [HashSuite H] [TxCodec H] in
/-- The fee refuses for want of balance and for nothing else. -/
lemma refusesOnly_chargeFee (sender feeAsset : H) (fee : ℕ) :
    (chargeFee sender feeAsset fee).RefusesOnly OfBody :=
  .when (.get fun _ => .rejectIf rfl (Exec.infallible_expect _).refusesOnly)

/-- A transaction whose account, nonce, key and signature are in order is not refused by its
envelope. -/
lemma refuses_applyTx {stx : SignedTx H} {acc : Account H}
    (hacc : s.accounts[stx.sender]? = some acc) (hnonce : stx.nonce = acc.nonce)
    (hauth : Lamport.pkCommit stx.lamportPk = acc.authCommit) (hsig : verifyEnvelope stx = true) :
    (applyTx stx).Refuses s OfBody := by
  have hok : ¬ (none : Option Bool).getD (verifyEnvelope stx) = false := by simp [hsig]
  refine .get (.okOr (fun hnone => ?_) fun acc' hacc' => ?_)
  · rw [hacc] at hnone
    cases hnone
  obtain rfl : acc = acc' := Option.some.inj (hacc.symm.trans hacc')
  refine .rejectIf (fun hne => absurd hnonce hne) fun _ => ?_
  refine .rejectIf (fun hne => absurd hauth hne) fun _ => ?_
  refine .rejectIf (fun hbad => absurd hbad.1 hok) fun _ => ?_
  refine .rejectIf (fun hbad => absurd hbad hok) fun _ => ?_
  refine Exec.Refuses.bind (refusesOnly_chargeFee _ _ _ s) fun _ s₁ hfee => ?_
  obtain ⟨rfl, -⟩ := chargeFee_eq_ok hfee
  -- the fee leaves the account table alone
  have hcharged : (s.feeCharged stx.sender).accounts[stx.sender]? ≠ none := by
    rw [feeCharged_eq]
    simp [hacc]
  refine Exec.Refuses.bind (.onErr (refuses_dispatch hcharged _)) fun _ s₂ _ => ?_
  refine Exec.Infallible.refuses ?_ s₂ OfBody
  refine (Exec.infallible_modify _).when.bind fun _ => Exec.Infallible.bind ?_ fun _ =>
    Exec.infallible_pure _
  exact Exec.infallible_get.bind fun _ => (Exec.infallible_unwrap _).bind fun _ =>
    (Exec.infallible_unwrap _).bind fun _ => Exec.infallible_modify _

end Envelope

end State

end HashKinetics
