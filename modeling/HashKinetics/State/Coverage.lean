import HashKinetics.State.Run

/-!
# Coverage and proofs

A pool transaction is proved by the verifier or, when it carries no proof, by the coverage of its
block.  Nothing else of the state machine reads the coverage: a block runs alike under any coverage
as long as its proof-less transactions are covered, and it runs as it would with proofs in their
place.
-/

namespace HashKinetics

open Foundations Circuit

variable {H : Type} [LinearOrder H] [HashSuite H]

namespace State

/-! ## What does not read the coverage -/

section Blind

variable {cover : OrderedSet H} {s : State H}

/-- The computation does not see which coverage is installed. -/
abbrev Blind {α : Type} (cover : OrderedSet H) (x : Exec (State H) StateError α) (s : State H) :
    Prop :=
  Exec.Follows (fun s => s.setBlockCoverage cover) x x s

omit [HashSuite H] in
/-- A debit looks at one balance. -/
lemma blind_debit (id asset : H) (amount : ℕ) : Blind cover (debit id asset amount) s :=
  .get ((Exec.follows_rejectIf _ _).bind fun _ _ _ => Exec.follows_modify rfl)

omit [HashSuite H] in
/-- A credit looks at one balance. -/
lemma blind_credit (id asset : H) (amount : ℕ) : Blind cover (credit id asset amount) s :=
  Exec.follows_modify rfl

omit [HashSuite H] in
/-- The tree knows nothing of the coverage. -/
lemma blind_onMandates {α : Type} (x : Exec (MandateTree H) SpendError α) :
    Blind cover (onMandates x) s :=
  Exec.follows_zoom _ _ rfl fun _ => rfl

/-- A registration proves nothing, so it never looks at the coverage. -/
lemma blind_doAssetRegister (sender asset : H) (symbol : String) (decimals : ℕ)
    (policy : AssetPolicy) :
    Blind cover (doAssetRegister sender asset symbol decimals policy) s := by
  refine (Exec.follows_rejectIf _ _).bind fun _ s _ => (Exec.follows_rejectIf _ _).bind fun _ s _ =>
    ?_
  refine (Exec.follows_rejectIf _ _).bind fun _ s _ => .get ?_
  refine (Exec.follows_rejectIf _ _).bind fun _ s _ => ?_
  exact (Exec.follows_modify (by rfl)).bind fun _ s _ => Exec.follows_pure _

omit [HashSuite H] in
/-- Nor does a mint of a public asset. -/
lemma blind_doAssetMint (sender asset dst : H) (amount : ℕ) :
    Blind cover (doAssetMint sender asset dst amount) s := by
  refine (Exec.follows_rejectIf _ _).bind fun _ s _ => .get ?_
  refine (Exec.follows_ofExcept _ _).bind fun _ s _ => (Exec.follows_okOr _ _).bind fun _ s _ => ?_
  refine (Exec.follows_ofExcept _ _).bind fun _ s _ => (Exec.follows_unwrap _).bind fun _ s _ => ?_
  refine (Exec.follows_unwrap _).bind fun _ s _ => (Exec.follows_modify (by rfl)).bind fun _ s _ =>
    ?_
  exact (blind_credit _ _ _).bind fun _ s _ => Exec.follows_pure _

omit [HashSuite H] in
/-- Nor does a burn. -/
lemma blind_doAssetBurn (sender asset : H) (amount : ℕ) (destination : List UInt8) :
    Blind cover (doAssetBurn sender asset amount destination) s := by
  refine (Exec.follows_rejectIf _ _).bind fun _ s _ => (Exec.follows_rejectIf _ _).bind fun _ s _ =>
    ?_
  refine .get ((Exec.follows_rejectIf _ _).bind fun _ s _ => ?_)
  refine (Exec.follows_ofExcept _ _).bind fun _ s _ => (blind_debit _ _ _).bind fun _ s _ => ?_
  refine (Exec.follows_unwrap _).bind fun _ s _ => (Exec.follows_modify (by rfl)).bind fun _ s _ =>
    ?_
  exact Exec.follows_pure _

omit [HashSuite H] in
/-- Nor does a freeze. -/
lemma blind_doAssetFreeze (sender asset account : H) (frozen : Bool) :
    Blind cover (doAssetFreeze sender asset account frozen) s := by
  refine .get ((Exec.follows_ofExcept _ _).bind fun _ s _ => ?_)
  exact (Exec.follows_modify (by rfl)).bind fun _ s _ => Exec.follows_pure _

omit [HashSuite H] in
/-- Nor does a pause. -/
lemma blind_doAssetPause (sender asset : H) (paused : Bool) :
    Blind cover (doAssetPause sender asset paused) s := by
  refine .get ((Exec.follows_ofExcept _ _).bind fun _ s _ => ?_)
  exact (Exec.follows_modify (by rfl)).bind fun _ s _ => Exec.follows_pure _

omit [HashSuite H] in
/-- Nor does a transfer. -/
lemma blind_doTransfer (src dst asset : H) (amount : ℕ) :
    Blind cover (doTransfer src dst asset amount) s := by
  refine (Exec.follows_rejectIf _ _).bind fun _ s _ => .get ?_
  refine (Exec.follows_ofExcept _ _).bind fun _ s _ => (blind_debit _ _ _).bind fun _ s _ => ?_
  exact (blind_credit _ _ _).bind fun _ s _ => Exec.follows_pure _

/-- Nor does an account creation. -/
lemma blind_doAccountCreate (sender id authCommit asset : H) (amount : ℕ) :
    Blind cover (doAccountCreate sender id authCommit asset amount) s := by
  refine (Exec.follows_rejectIf _ _).bind fun _ s _ => .get ?_
  refine (Exec.follows_rejectIf _ _).bind fun _ s _ =>
    (Exec.Follows.when fun _ => ?_).bind fun _ s _ => ?_
  · exact (Exec.follows_ofExcept _ _).bind fun _ s _ => blind_debit _ _ _
  · refine (Exec.follows_modify (by rfl)).bind fun _ s _ => ?_
    exact (Exec.Follows.when fun _ => blind_credit _ _ _).bind fun _ s _ => Exec.follows_pure _

omit [HashSuite H] in
/-- Nor does a mandate creation. -/
lemma blind_doMandateCreate (sender id : H) (parent : Option H) (holder asset : H)
    (ratePerSec bufferMax perTxMax initialBuffer expiry tier : ℕ) :
    Blind cover (doMandateCreate sender id parent holder asset ratePerSec bufferMax perTxMax
      initialBuffer expiry tier) s := by
  have hfund : ∀ s, Blind cover
      (Exec.when (parent = none) (Exec.modify fun s => s.setRootFunding id sender)) s :=
    fun s => .when fun _ => Exec.follows_modify rfl
  refine .get ((Exec.follows_rejectIf _ _).bind fun _ s _ => ?_)
  refine (Exec.follows_ofExcept _ _).bind fun _ s _ => (blind_onMandates _).bind fun _ s _ => ?_
  exact (hfund s).bind fun _ s _ => Exec.follows_pure _

omit [HashSuite H] in
/-- Nor does a mandate spend. -/
lemma blind_doMandateSpend (sender leaf dst : H) (amount : ℕ) :
    Blind cover (doMandateSpend sender leaf dst amount) s := by
  refine (Exec.follows_rejectIf _ _).bind fun _ s _ => .get ?_
  refine (Exec.follows_ofExcept _ _).bind fun _ s _ => (Exec.follows_rejectIf _ _).bind fun _ s _ =>
    ?_
  refine (Exec.follows_okOr _ _).bind fun _ s _ => (Exec.follows_ofOutcome _ _).bind fun _ s _ => ?_
  refine (Exec.follows_okOr _ _).bind fun _ s _ => (Exec.follows_ofExcept _ _).bind fun _ s _ => ?_
  refine (blind_onMandates _).bind fun _ s _ => (Exec.follows_ofExcept _ _).bind fun _ s _ => ?_
  refine (Exec.follows_rejectIf _ _).bind fun _ s _ => (blind_onMandates _).bind fun _ s _ => ?_
  refine (blind_debit _ _ _).expect.bind fun _ s _ => (blind_credit _ _ _).bind fun _ s _ => ?_
  exact Exec.follows_pure _

omit [HashSuite H] in
/-- Nor does a revocation. -/
lemma blind_doMandateRevoke (sender target : H) :
    Blind cover (doMandateRevoke sender target) s := by
  refine .get ((Exec.follows_okOr _ _).bind fun _ s _ => ?_)
  refine (Exec.follows_ofExcept _ _).bind fun _ s _ => (Exec.follows_rejectIf _ _).bind fun _ s _ =>
    ?_
  exact (blind_onMandates _).bind fun _ s _ => Exec.follows_pure _

/-- Nor does the opening of a channel. -/
lemma blind_doChannelOpen (sender chId mandate payee asset tip : H)
    (unitPrice maxSteps expiry : ℕ) :
    Blind cover (doChannelOpen sender chId mandate payee asset tip unitPrice maxSteps expiry)
      s := by
  refine .get ((Exec.follows_rejectIf _ _).bind fun _ s _ => ?_)
  refine (Exec.follows_rejectIf _ _).bind fun _ s _ => (Exec.follows_rejectIf _ _).bind fun _ s _ =>
    ?_
  refine (Exec.follows_ofExcept _ _).bind fun _ s _ => (Exec.follows_rejectIf _ _).bind fun _ s _ =>
    ?_
  refine (Exec.follows_okOr _ _).bind fun _ s _ => (Exec.follows_rejectIf _ _).bind fun _ s _ => ?_
  refine (Exec.follows_okOr _ _).bind fun _ s _ => (Exec.follows_okOr _ _).bind fun _ s _ => ?_
  refine (Exec.follows_rejectIf _ _).bind fun _ s _ =>
    (Exec.follows_ofOutcome _ _).bind fun _ s _ => ?_
  refine (Exec.follows_okOr _ _).bind fun _ s _ => (Exec.follows_ofExcept _ _).bind fun _ s _ => ?_
  refine (blind_onMandates _).bind fun _ s _ => (Exec.follows_ofExcept _ _).bind fun _ s _ => ?_
  refine (Exec.follows_rejectIf _ _).bind fun _ s _ => (blind_onMandates _).bind fun _ s _ => ?_
  refine (blind_debit _ _ _).expect.bind fun _ s _ =>
    (Exec.follows_modify (by rfl)).bind fun _ s _ => ?_
  exact Exec.follows_pure _

/-- Nor does a settlement. -/
lemma blind_doChannelSettle (chId word : H) (step : ℕ) :
    Blind cover (doChannelSettle chId word step) s := by
  refine .get ((Exec.follows_okOr _ _).bind fun _ s _ => ?_)
  refine (Exec.follows_rejectIf _ _).bind fun _ s _ => (Exec.follows_rejectIf _ _).bind fun _ s _ =>
    ?_
  refine (Exec.follows_rejectIf _ _).bind fun _ s _ => (Exec.follows_rejectIf _ _).bind fun _ s _ =>
    ?_
  refine (Exec.follows_okOr _ _).bind fun _ s _ => (Exec.follows_ofExcept _ _).bind fun _ s _ => ?_
  refine (Exec.follows_unwrap _).bind fun _ s _ => (Exec.follows_modify (by rfl)).bind fun _ s _ =>
    ?_
  exact (blind_credit _ _ _).bind fun _ s _ => Exec.follows_pure _

omit [HashSuite H] in
/-- Nor does a refund. -/
lemma blind_doChannelRefund (sender chId : H) : Blind cover (doChannelRefund sender chId) s := by
  refine .get ((Exec.follows_okOr _ _).bind fun _ s _ => ?_)
  refine (Exec.follows_rejectIf _ _).bind fun _ s _ => (Exec.follows_rejectIf _ _).bind fun _ s _ =>
    ?_
  refine (Exec.follows_rejectIf _ _).bind fun _ s _ => (Exec.follows_ofExcept _ _).bind fun _ s _ =>
    ?_
  refine (Exec.follows_modify (by rfl)).bind fun _ s _ => ?_
  exact (blind_credit _ _ _).bind fun _ s _ => Exec.follows_pure _

end Blind

/-! ## Proofs in place of coverage -/

section Proved

variable {cover : OrderedSet H} {s : State H}

/-- A shield depends on its proof only through the verdict about it. -/
lemma follows_doMintToPool {sender asset commitment : H} {value : ℕ} {proof proof' : List UInt8}
    (hproved : value ≤ u64Max → (s.setBlockCoverage cover).mintProved proof'
      (expectedMintPublic commitment value) =
        s.mintProved proof (expectedMintPublic commitment value)) :
    Exec.Follows (fun s => s.setBlockCoverage cover)
      (doMintToPool sender asset value commitment proof)
      (doMintToPool sender asset value commitment proof') s := by
  refine (Exec.follows_rejectIf _ _).bind fun _ s₁ h₁ => ?_
  refine (Exec.follows_rejectIf _ _).bind fun _ s₂ h₂ => ?_
  obtain ⟨-, rfl⟩ := Exec.rejectIf_eq_ok.mp h₁
  obtain ⟨hvalue, rfl⟩ := Exec.rejectIf_eq_ok.mp h₂
  refine .get ((Exec.follows_rejectIf _ _).bind fun _ s _ => ?_)
  refine (Exec.follows_ofExcept _ _).bind fun _ s _ =>
    (Exec.follows_ofExcept _ _).bind fun key s _ => ?_
  refine (Exec.follows_rejectIf _ _).bind fun _ s _ => (Exec.follows_rejectIf _ _).bind fun _ s _ =>
    ?_
  rw [hproved (not_lt.mp hvalue)]
  refine (Exec.follows_rejectIf _ _).bind fun _ s _ => (blind_debit _ _ _).bind fun _ s _ => .get ?_
  refine (Exec.follows_unwrap _).bind fun _ s _ => Exec.Follows.bind ?_ fun _ s _ =>
    Exec.follows_pure _
  cases key <;> exact Exec.follows_modify rfl

/-- A spend depends on its proof only through the verdict about it. -/
lemma follows_doShieldedSpend {sender anchor nf out out2 : H} {fee : ℕ}
    {creditTo mandate : Option H}
    {proof proof' : List UInt8}
    (hproved : fee ≤ u64Max → (s.setBlockCoverage cover).spendProved proof'
      (expectedSpendPublic anchor nf out out2 fee creditTo) =
        s.spendProved proof (expectedSpendPublic anchor nf out out2 fee creditTo)) :
    Exec.Follows (fun s => s.setBlockCoverage cover)
      (doShieldedSpend sender anchor nf out out2 fee creditTo mandate proof)
      (doShieldedSpend sender anchor nf out out2 fee creditTo mandate proof') s := by
  have hcheck : ∀ t s₁, Exec.Follows (fun s => s.setBlockCoverage cover)
      (checkSpendMandate t sender fee mandate)
      (checkSpendMandate (t.setBlockCoverage cover) sender fee mandate) s₁ := by
    intro t s₁
    cases mandate with
    | none => exact Exec.follows_pure _
    | some m =>
      refine (Exec.follows_rejectIf _ _).bind fun _ s _ =>
        (Exec.follows_ofExcept _ _).bind fun _ s _ => ?_
      exact (Exec.follows_rejectIf _ _).bind fun _ s _ => blind_onMandates _
  have hmandate : ∀ t s₁, Exec.Follows (fun s => s.setBlockCoverage cover)
      (spendMandate t fee mandate) (spendMandate (t.setBlockCoverage cover) fee mandate) s₁ := by
    intro t s₁
    cases mandate with
    | none => exact Exec.follows_pure _
    | some m => exact blind_onMandates _
  have hasset : ∀ t asset s₁, Exec.Follows (fun s => s.setBlockCoverage cover)
      (checkSpendMandateAsset t asset mandate)
      (checkSpendMandateAsset (t.setBlockCoverage cover) asset mandate) s₁ := by
    intro t asset s₁
    cases mandate with
    | none => exact Exec.follows_pure _
    | some m =>
      refine .when fun _ => (Exec.follows_ofOutcome _ _).bind fun _ s _ => ?_
      refine (Exec.follows_ofExcept _ _).bind fun _ s _ => (Exec.follows_okOr _ _).bind fun _ s _ =>
        ?_
      exact Exec.follows_rejectIf _ _
  refine (Exec.follows_rejectIf _ _).bind fun _ s₁ h₁ => ?_
  refine (Exec.follows_rejectIf _ _).bind fun _ s₂ h₂ => ?_
  obtain ⟨hfee, rfl⟩ := Exec.rejectIf_eq_ok.mp h₁
  obtain ⟨-, rfl⟩ := Exec.rejectIf_eq_ok.mp h₂
  refine .get ((hcheck _ _).bind fun _ s _ => (Exec.follows_okOr _ _).bind fun key s _ => ?_)
  refine (Exec.follows_rejectIf _ _).bind fun _ s _ => (hasset _ _ _).bind fun _ s _ => ?_
  refine Exec.Follows.bind (.when fun _ => ?_) fun _ s _ => ?_
  · exact (Exec.follows_unwrap _).bind fun _ s _ => Exec.follows_ofExcept _ _
  refine (Exec.follows_unwrap _).bind fun _ s _ => (Exec.follows_rejectIf _ _).bind fun _ s _ => ?_
  refine (Exec.follows_rejectIf _ _).bind fun _ s _ => ?_
  rw [hproved (not_lt.mp hfee)]
  refine (Exec.follows_rejectIf _ _).bind fun _ s _ => (hmandate _ _).bind fun _ s _ => ?_
  refine (Exec.follows_unwrap _).bind fun _ s _ => Exec.Follows.bind ?_ fun _ s _ => ?_
  · cases key <;> exact Exec.follows_modify rfl
  refine Exec.Follows.bind (.when fun _ => ?_) fun _ s _ => Exec.follows_pure _
  refine (Exec.follows_unwrap _).bind fun _ s _ => (Exec.follows_unwrap _).bind fun _ s _ => ?_
  exact blind_credit _ _ _

end Proved

end State

/-! ## Blocks with proofs in place of coverage -/

/-- A pool transaction without a proof of its own. -/
def Tx.proofless : Tx H → Bool
  | .mintToPool _ _ _ proof _ => proof.isEmpty
  | .shieldedSpend _ _ _ _ _ _ _ proof _ _ => proof.isEmpty
  | _ => false

/-- The coverage has the statement of a pool transaction without a proof.  Amounts beyond the width
of a public value are refused before the proof is looked at. -/
def Tx.CoveredBy (cover : OrderedSet H) : Tx H → Prop
  | .mintToPool _ value commitment proof _ => proof.isEmpty = true → value ≤ u64Max →
    cover.contains (coverKey KIND_MINT (State.expectedMintPublic commitment value).encode) = true
  | .shieldedSpend anchor nf out out2 fee credit _ proof _ _ => proof.isEmpty = true →
    fee ≤ u64Max →
    cover.contains (coverKey KIND_SPEND
      (State.expectedSpendPublic anchor nf out out2 fee credit).encode) = true
  | _ => True

/-- The second payload is the first with a valid proof in the place of a missing one. -/
inductive Tx.ProvedAs (v : ProofVerifier H) : Tx H → Tx H → Prop
  | same {tx : Tx H} (h : tx.proofless = false) : ProvedAs v tx tx
  | mint {asset commitment : H} {value : ℕ} {proof ct : List UInt8} (hne : proof.isEmpty = false)
      (hproof : v.verifyMint proof (State.expectedMintPublic commitment (value % 2 ^ 64)) = true) :
      ProvedAs v (.mintToPool asset value commitment [] ct)
        (.mintToPool asset value commitment proof ct)
  | spend {anchor nf out out2 : H} {fee : ℕ} {credit mandate : Option H} {proof ct ct2 : List UInt8}
      (hne : proof.isEmpty = false)
      (hproof : v.verifySpend proof
        (State.expectedSpendPublic anchor nf out out2 (fee % 2 ^ 64) credit) = true) :
      ProvedAs v (.shieldedSpend anchor nf out out2 fee credit mandate [] ct ct2)
        (.shieldedSpend anchor nf out out2 fee credit mandate proof ct ct2)

/-- The same transaction with a valid proof in the place of a missing one, signed by the same key
with the same verdict: the signature covers the proof. -/
structure SignedTx.ProvedAs [TxCodec H] (v : ProofVerifier H) (stx stx' : SignedTx H) : Prop where
  sender : stx'.sender = stx.sender
  nonce : stx'.nonce = stx.nonce
  nextAuth : stx'.nextAuth = stx.nextAuth
  key : (Lamport.pkCommit stx'.lamportPk : H) = Lamport.pkCommit stx.lamportPk
  encodes : (signingDigest stx'.payload stx'.sender stx'.nonce stx'.nextAuth).isNone =
    (signingDigest stx.payload stx.sender stx.nonce stx.nextAuth).isNone
  signature : State.verifyEnvelope stx' = State.verifyEnvelope stx
  payload : stx.payload.ProvedAs v stx'.payload

namespace State

variable {cover : OrderedSet H} {s : State H}

/-- A covered body goes the way of the proved one, step by step. -/
lemma follows_dispatch (sender : H) {tx tx' : Tx H} (htx : tx.ProvedAs s.verifier tx')
    (hcover : tx.CoveredBy cover) :
    Exec.Follows (fun s => s.setBlockCoverage cover) (dispatch sender tx')
      (dispatch sender tx) s := by
  have hwidth : ∀ {n : ℕ}, n ≤ u64Max → n % 2 ^ 64 = n := fun h =>
    Nat.mod_eq_of_lt (Nat.lt_of_le_of_lt h (by decide))
  cases htx with
  | @mint asset commitment value proof ct hne hproof =>
    refine follows_doMintToPool fun hvalue => ?_
    rw [hwidth hvalue] at hproof
    have hcovered := hcover rfl hvalue
    simp only [mintProved, List.isEmpty_nil, if_true, hne, Bool.false_eq_true, if_false, hproof]
    exact hcovered
  | @spend anchor nf out out2 fee credit mandate proof ct ct2 hne hproof =>
    refine follows_doShieldedSpend fun hfee => ?_
    rw [hwidth hfee] at hproof
    have hcovered := hcover rfl hfee
    simp only [spendProved, List.isEmpty_nil, if_true, hne, Bool.false_eq_true, if_false, hproof]
    exact hcovered
  | same hproved =>
    cases tx with
    | transfer dst asset amount => exact blind_doTransfer ..
    | accountCreate id authCommit asset amount => exact blind_doAccountCreate ..
    | mandateCreate id parent holder asset rate bufferMax perTxMax initial expiry tier =>
      exact blind_doMandateCreate ..
    | mandateSpend leaf dst amount => exact blind_doMandateSpend ..
    | mandateRevoke target => exact blind_doMandateRevoke ..
    | channelOpen id mandate payee asset tip unitPrice maxSteps expiry =>
      exact blind_doChannelOpen ..
    | channelSettle id word step => exact blind_doChannelSettle ..
    | channelRefund id => exact blind_doChannelRefund ..
    | mintToPool asset value commitment proof ct =>
      refine follows_doMintToPool fun _ => ?_
      have hne : proof.isEmpty = false := hproved
      simp only [mintProved, hne, Bool.false_eq_true, if_false]
      rfl
    | shieldedSpend anchor nf out out2 fee creditTo mandate proof ct ct2 =>
      refine follows_doShieldedSpend fun _ => ?_
      have hne : proof.isEmpty = false := hproved
      simp only [spendProved, hne, Bool.false_eq_true, if_false]
      rfl
    | assetRegister asset symbol decimals policy => exact blind_doAssetRegister ..
    | assetMint asset dst amount => exact blind_doAssetMint ..
    | assetBurn asset amount destination => exact blind_doAssetBurn ..
    | assetFreeze asset account frozen => exact blind_doAssetFreeze ..
    | assetPause asset paused => exact blind_doAssetPause ..

variable [TxCodec H]

/-- So does the whole transaction: the envelope and the fee never look at a proof. -/
lemma follows_applyTxAt {stx stx' : SignedTx H} (htx : stx.ProvedAs s.verifier stx')
    (hcover : stx.payload.CoveredBy cover) :
    Exec.Follows (fun s => s.setBlockCoverage cover) (applyTxAt stx' none)
      (applyTxAt stx none) s := by
  have hcharge : ∀ sender asset fee (s : State H), Blind cover (chargeFee sender asset fee) s :=
    fun sender asset fee s => .when fun _ =>
      .get ((Exec.follows_rejectIf _ _).bind fun _ s _ => (blind_debit _ _ _).expect)
  have hratchet : ∀ s : State H, Exec.Follows (fun s => s.setBlockCoverage cover) (ratchet stx')
      (ratchet stx) s := by
    intro s
    unfold ratchet
    rw [htx.sender, htx.nextAuth]
    refine .get ((Exec.follows_unwrap _).bind fun acc s _ =>
      (Exec.follows_unwrap _).bind fun _ s _ => ?_)
    exact Exec.follows_modify rfl
  have hburn : ∀ (fee : ℕ) (s : State H), Blind cover (Exec.when (0 < fee)
      (Exec.modify fun t => { t with feesBurned := satAdd u128Max t.feesBurned fee })) s :=
    fun fee s => .when fun _ => Exec.follows_modify rfl
  unfold applyTxAt
  simp only [htx.sender, htx.nonce, Option.getD_none]
  refine .get ((Exec.follows_okOr _ _).bind fun acc s₁ h₁ => ?_)
  refine (Exec.follows_rejectIf_of_iff (by rw [htx.nonce]) _).bind fun _ s₂ h₂ => ?_
  refine (Exec.follows_rejectIf_of_iff (by rw [htx.key]) _).bind fun _ s₃ h₃ => ?_
  refine (Exec.follows_rejectIf_of_iff (by rw [htx.signature, htx.encodes]) _).bind fun _ s₄ h₄ =>
    ?_
  refine (Exec.follows_rejectIf_of_iff (by rw [htx.signature]) _).bind fun _ s₅ h₅ => ?_
  obtain rfl : s = s₁ := (Exec.okOr_eq_ok.mp h₁).2
  obtain ⟨-, rfl⟩ := Exec.rejectIf_eq_ok.mp h₂
  obtain ⟨-, rfl⟩ := Exec.rejectIf_eq_ok.mp h₃
  obtain ⟨-, rfl⟩ := Exec.rejectIf_eq_ok.mp h₄
  obtain ⟨-, rfl⟩ := Exec.rejectIf_eq_ok.mp h₅
  refine (hcharge _ _ _ _).bind fun _ s₆ h₆ => ?_
  have hverifier : s₆.verifier = s.verifier :=
    congrArg Frame.verifier ((keeps_chargeFee _ _ _).eq_of_ok h₆)
  refine Exec.Follows.bind (.onErr (follows_dispatch _ ?_ hcover) fun _ => .when fun _ =>
    blind_credit _ _ _) fun _ s _ => ?_
  · rw [hverifier]
    exact htx.payload
  · exact (hburn _ _).bind fun _ s _ => (hratchet _).bind fun _ s _ => Exec.follows_pure _

/-- So does a list of transactions, receipt by receipt. -/
lemma follows_applyTxs {txs txs' : List (SignedTx H)} (i : ℕ)
    (htxs : List.Forall₂ (SignedTx.ProvedAs s.verifier) txs txs')
    (hcover : ∀ stx ∈ txs, stx.payload.CoveredBy cover) :
    Exec.Follows (fun s => s.setBlockCoverage cover) (applyTxs i (withVerdicts txs' none))
      (applyTxs i (withVerdicts txs none)) s := by
  induction txs generalizing txs' i s with
  | nil =>
    cases htxs
    exact Exec.follows_pure _
  | cons stx txs ih =>
    obtain ⟨stx', txs', htx, hrest, rfl⟩ := List.forall₂_cons_left_iff.mp htxs
    refine (follows_applyTxAt htx (hcover stx List.mem_cons_self)).attempt.bind fun r s₁ h₁ => ?_
    have hverifier : s₁.verifier = s.verifier :=
      congrArg Frame.verifier ((keeps_applyTxAt _ _).attempt.eq_of_ok h₁)
    rw [← hverifier] at hrest
    refine (ih (i + 1) hrest fun t ht => hcover t (List.mem_cons_of_mem _ ht)).bind fun _ s _ => ?_
    exact Exec.follows_pure _

/-- The guards of a block read the height and the time. -/
lemma applyBlock_guards (height time : ℕ) (txs : List (SignedTx H)) (s : State H) :
    applyBlock height time txs s =
      match checkedAdd u64Max s.height 1 with
      | none => (.fault, s)
      | some next =>
        if height ≠ next then (.err .badHeight, s)
        else if time < s.time then (.err .timeBackwards, s)
        else match applyTxs 0 (withVerdicts txs none) (s.openedAt height time) with
          | (.ok receipts, t) => (.ok receipts, t.sealBlock)
          | (.err e, t) => (.err e, t)
          | (.fault, t) => (.fault, t) := by
  simp only [applyBlock, applyBlockVerified, bind, Exec.bind, Exec.get, Exec.unwrap, Exec.rejectIf,
    Exec.modify, pure, Option.any_none, Bool.false_eq_true, if_false]
  cases checkedAdd u64Max s.height 1 with
  | none => rfl
  | some next =>
    simp only
    by_cases hh : height ≠ next
    · simp only [hh, if_true, ne_eq, not_false_eq_true]
    · simp only [hh, if_false]
      by_cases ht : time < s.time
      · simp only [ht, if_true]
      · simp only [ht, if_false]
        rcases applyTxs 0 (withVerdicts txs none) (s.openedAt height time) with ⟨_ | _ | _,
          _⟩ <;> rfl

/-- A block whose proof-less transactions are covered has the outcome that it has with proofs in
their place, and leads to the same state. -/
lemma applyBlock_proved {height time : ℕ} {txs txs' : List (SignedTx H)}
    (htxs : List.Forall₂ (SignedTx.ProvedAs s.verifier) txs txs')
    (hcover : ∀ stx ∈ txs, stx.payload.CoveredBy cover) :
    (applyBlock height time txs (s.setBlockCoverage cover)).1 = (applyBlock height time txs' s).1 ∧
      ∀ receipts t, applyBlock height time txs (s.setBlockCoverage cover) = (.ok receipts, t) ↔
        applyBlock height time txs' s = (.ok receipts, t) := by
  have hloop := follows_applyTxs (s := s.openedAt height time) 0 htxs hcover
  unfold Exec.Follows at hloop
  rw [applyBlock_guards height time txs, applyBlock_guards height time txs']
  have hopened : (s.setBlockCoverage cover).openedAt height time =
      (s.openedAt height time).setBlockCoverage cover := rfl
  have hheight : (s.setBlockCoverage cover).height = s.height := rfl
  have htime : (s.setBlockCoverage cover).time = s.time := rfl
  rw [hopened, hloop, hheight, htime]
  cases checkedAdd u64Max s.height 1 with
  | none => simp
  | some next =>
    simp only
    split_ifs
    · simp
    · simp
    · rcases applyTxs 0 (withVerdicts txs' none) (s.openedAt height time) with ⟨r | e | _, t⟩
      · exact ⟨rfl, fun _ _ => Iff.rfl⟩
      · simp
      · simp

/-! ## What an accepted transaction without a proof rests on -/

/-- Every accepted transaction of a block was dispatched under the coverage of the block. -/
lemma exists_dispatch_of_accepted {i : ℕ} {txs : List (SignedTx H × Option Bool)}
    {receipts : List (Receipt H)} {s' : State H} (h : applyTxs i txs s = (.ok receipts, s'))
    {stx : SignedTx H} {r : Receipt H} (hmem : (stx, r) ∈ (txs.map Prod.fst).zip receipts)
    (haccepted : r.accepted = true) :
    ∃ t evs t', t.aggCover = s.aggCover ∧ dispatch stx.sender stx.payload t = (.ok evs, t') := by
  induction txs generalizing s i receipts with
  | nil => simp at hmem
  | cons p rest ih =>
    obtain ⟨stx', preSig⟩ := p
    simp only [applyTxs, Exec.bind_eq_ok, Exec.pure_eq_ok] at h
    obtain ⟨res, s₁, htry, rs, _, hrest, rfl, rfl⟩ := h
    rw [List.map_cons, List.zip_cons_cons, List.mem_cons] at hmem
    rcases hmem with heq | hmem
    · obtain ⟨rfl, rfl⟩ := Prod.mk.inj heq
      rcases Exec.attempt_eq_ok.mp htry with ⟨evs, rfl, htx⟩ | ⟨e, rfl, htx⟩
      · obtain ⟨s₂, henv⟩ := applyTxAt_eq_ok htx
        refine ⟨_, evs, s₂, ?_, henv.body⟩
        unfold feeCharged
        split <;> rfl
      · cases haccepted
    · obtain ⟨t, evs, t', hcover, hdispatch⟩ := ih hrest hmem
      refine ⟨t, evs, t', hcover.trans ?_, hdispatch⟩
      exact congrArg Frame.aggCover ((keeps_applyTxAt _ _).attempt.eq_of_ok htry)

end State

end HashKinetics
