import HashKinetics.State.Effects

/-!
# A refused transaction changes nothing

Every transaction kind checks before it writes: its computation is a read-only prefix, then one
atomic write, then writes that cannot refuse.  The envelope charges the fee first and gives it back
when the body refuses, and the refund restores the balances exactly.
-/

namespace HashKinetics

open Foundations Circuit

variable {H : Type} [LinearOrder H]

/-! ## The mandate tree -/

namespace MandateTree

/-- The walk over the budgets of a chain only compares. -/
lemma reads_checkChain (amount now depth : ℕ) (chain : List H) :
    (checkChain amount now depth chain).Reads := by
  induction chain generalizing depth with
  | nil => exact Exec.reads_pure _
  | cons id ids ih =>
    refine Exec.reads_get.bind fun t => (Exec.reads_unwrap _).bind fun n => ?_
    refine (Exec.reads_rejectIf _ _).bind fun _ => (Exec.reads_rejectIf _ _).bind fun _ => ?_
    exact (Exec.reads_rejectIf _ _).bind fun _ => (Exec.reads_rejectIf _ _).bind fun _ => ih _

/-- The dry run of a spend leaves the tree alone. -/
lemma reads_check (leaf : H) (amount now : ℕ) : (check leaf amount now).Reads :=
  Exec.reads_get.bind fun _ => (Exec.reads_ofExcept _ _).bind fun _ => reads_checkChain _ _ _ _

/-- A spend validates the whole chain before it debits any of it. -/
lemma atomic_spend (leaf : H) (amount now : ℕ) : (spend leaf amount now).Atomic :=
  Exec.Atomic.bind_reads (reads_check _ _ _) fun _ => Exec.Atomic.get fun _ =>
    Exec.Atomic.ofExcept fun _ => (infallible_debitChain _ _ _).atomic

/-- A mandate is written after its last check. -/
lemma atomic_insert (node : MandateNode H) : (insert node).Atomic := by
  unfold insert
  cases node.parent with
  | none => exact (Exec.infallible_modify _).atomic
  | some p =>
    refine Exec.Atomic.get fun _ => ?_
    refine Exec.Atomic.okOr fun _ => ?_
    refine Exec.Atomic.rejectIf fun _ => ?_
    refine Exec.Atomic.rejectIf fun _ => ?_
    exact (Exec.infallible_modify _).atomic

/-- The asset rule of a new mandate only compares. -/
lemma reads_checkAssetBound (node : MandateNode H) : (checkAssetBound node).Reads := by
  unfold checkAssetBound
  cases node.parent with
  | none => exact Exec.reads_pure _
  | some p =>
    exact Exec.reads_get.bind fun _ => (Exec.reads_okOr _ _).bind fun _ => Exec.reads_rejectIf _ _

/-- The asset rule comes before the insertion, which is atomic by itself. -/
lemma atomic_insertAssetBound (node : MandateNode H) : (insertAssetBound node).Atomic :=
  Exec.Atomic.bind_reads (reads_checkAssetBound _) fun _ => atomic_insert _

/-- The flag is set after the mandate was found. -/
lemma atomic_revoke (id : H) : (revoke id).Atomic :=
  Exec.Atomic.get fun _ => Exec.Atomic.bind_reads (Exec.reads_okOr _ _)
    fun _ => (Exec.infallible_modify _).atomic

end MandateTree

namespace State

/-- A check of the tree is a check of the state. -/
lemma reads_onMandates {α : Type} {x : Exec (MandateTree H) SpendError α} (h : x.Reads) :
    (onMandates x).Reads :=
  h.zoom _ fun _ => rfl

/-- An update of the tree that may be refused leaves the state alone when it is. -/
lemma atomic_onMandates {α : Type} {x : Exec (MandateTree H) SpendError α} (h : x.Atomic) :
    (onMandates x).Atomic :=
  h.zoom _ fun _ => rfl

/-- A debit checks the balance before it writes. -/
lemma atomic_debit (id asset : H) (amount : ℕ) : (debit id asset amount).Atomic :=
  Exec.Atomic.get fun _ => Exec.Atomic.bind_reads (Exec.reads_rejectIf _ _)
    fun _ => (Exec.infallible_modify _).atomic

/-- A credit cannot be refused. -/
lemma infallible_credit (id asset : H) (amount : ℕ) : (credit id asset amount).Infallible :=
  Exec.infallible_modify _

/-! ## The transaction kinds -/

section Kinds

variable [HashSuite H]

/-- The registry entry is the only write, and the last step. -/
lemma atomic_doAssetRegister (sender asset : H) (symbol : String) (decimals : ℕ)
    (policy : AssetPolicy) : (doAssetRegister sender asset symbol decimals policy).Atomic := by
  refine Exec.Atomic.rejectIf fun _ => .rejectIf fun _ => .rejectIf fun _ => .get fun _ => ?_
  refine Exec.Atomic.rejectIf fun _ => ?_
  exact ((Exec.infallible_modify _).bind fun _ => Exec.infallible_pure _).atomic

omit [HashSuite H] in
/-- Supply and balance are written after the last check. -/
lemma atomic_doAssetMint (sender asset dst : H) (amount : ℕ) :
    (doAssetMint sender asset dst amount).Atomic := by
  refine Exec.Atomic.rejectIf fun _ => .get fun _ => .ofExcept fun _ => .okOr fun _ => ?_
  refine Exec.Atomic.ofExcept fun _ => ?_
  refine Exec.Infallible.atomic ((Exec.infallible_unwrap _).bind fun _ => ?_)
  refine (Exec.infallible_unwrap _).bind fun _ => (Exec.infallible_modify _).bind fun _ => ?_
  exact (infallible_credit _ _ _).bind fun _ => Exec.infallible_pure _

omit [HashSuite H] in
/-- The debit is the last step that may refuse; the registry follows it. -/
lemma atomic_doAssetBurn (sender asset : H) (amount : ℕ) (destination : List UInt8) :
    (doAssetBurn sender asset amount destination).Atomic := by
  refine Exec.Atomic.rejectIf fun _ => .rejectIf fun _ => .get fun _ => .rejectIf fun _ => ?_
  refine Exec.Atomic.ofExcept fun _ => ?_
  refine (atomic_debit _ _ _).bind_infallible fun _ => (Exec.infallible_unwrap _).bind fun _ => ?_
  exact (Exec.infallible_modify _).bind fun _ => Exec.infallible_pure _

omit [HashSuite H] in
/-- The issuer's verbs read one entry and rewrite it. -/
lemma atomic_doAssetFreeze (sender asset account : H) (frozen : Bool) :
    (doAssetFreeze sender asset account frozen).Atomic := by
  refine Exec.Atomic.get fun _ => .ofExcept fun _ => ?_
  exact ((Exec.infallible_modify _).bind fun _ => Exec.infallible_pure _).atomic

omit [HashSuite H] in
/-- The flag is set after the issuer was checked. -/
lemma atomic_doAssetPause (sender asset : H) (paused : Bool) :
    (doAssetPause sender asset paused).Atomic := by
  refine Exec.Atomic.get fun _ => .ofExcept fun _ => ?_
  exact ((Exec.infallible_modify _).bind fun _ => Exec.infallible_pure _).atomic

omit [HashSuite H] in
/-- The debit is the last step that may refuse; the credit follows it. -/
lemma atomic_doTransfer (src dst asset : H) (amount : ℕ) :
    (doTransfer src dst asset amount).Atomic := by
  refine Exec.Atomic.rejectIf fun _ => .get fun _ => .ofExcept fun _ => ?_
  refine (atomic_debit _ _ _).bind_infallible fun _ => ?_
  exact (infallible_credit _ _ _).bind fun _ => Exec.infallible_pure _

/-- The sponsor is charged after the checks of the new account. -/
lemma atomic_doAccountCreate (sender id authCommit asset : H) (amount : ℕ) :
    (doAccountCreate sender id authCommit asset amount).Atomic := by
  refine Exec.Atomic.rejectIf fun _ => .get fun _ => .rejectIf fun _ => ?_
  refine Exec.Atomic.bind_infallible ?_ fun _ => (Exec.infallible_modify _).bind fun _ => ?_
  · refine Exec.Atomic.when (Exec.Atomic.ofExcept fun _ => ?_)
    exact atomic_debit _ _ _
  · exact (infallible_credit _ _ _).when.bind fun _ => Exec.infallible_pure _

omit [HashSuite H] in
/-- The funder of a root is written only when the tree has taken the mandate. -/
lemma atomic_doMandateCreate (sender id : H) (parent : Option H) (holder asset : H)
    (rate bufferMax perTxMax initial expiry tier : ℕ) :
    (doMandateCreate sender id parent holder asset rate bufferMax perTxMax initial expiry
      tier).Atomic := by
  refine Exec.Atomic.get fun s => .rejectIf fun _ => .ofExcept fun _ => ?_
  refine Exec.Atomic.bind_infallible (atomic_onMandates ?_) fun _ => ?_
  · unfold insertMandate
    split
    · exact MandateTree.atomic_insertAssetBound _
    · exact MandateTree.atomic_insert _
  · exact (Exec.infallible_modify _).when.bind fun _ => Exec.infallible_pure _

omit [HashSuite H] in
/-- The balance is compared before the budgets of the chain are charged, so that the debit behind
them cannot refuse. -/
lemma atomic_doMandateSpend (sender leaf dst : H) (amount : ℕ) :
    (doMandateSpend sender leaf dst amount).Atomic := by
  refine Exec.Atomic.rejectIf fun _ => .get fun _ => .ofExcept fun _ => .rejectIf fun _ => ?_
  refine Exec.Atomic.okOr fun _ => .ofOutcome fun _ => .okOr fun _ => .ofExcept fun _ => ?_
  refine Exec.Atomic.bind_reads (reads_onMandates (MandateTree.reads_check _ _ _)) fun _ => ?_
  refine Exec.Atomic.ofExcept fun _ => .rejectIf fun _ => ?_
  -- the spend is the last step that can refuse
  refine (atomic_onMandates (MandateTree.atomic_spend _ _ _)).bind_infallible fun _ => ?_
  refine (Exec.infallible_expect _).bind fun _ => ?_
  exact (infallible_credit _ _ _).bind fun _ => Exec.infallible_pure _

omit [HashSuite H] in
/-- The revocation of the tree is the only write. -/
lemma atomic_doMandateRevoke (sender target : H) : (doMandateRevoke sender target).Atomic := by
  refine Exec.Atomic.get fun _ => .okOr fun _ => .ofExcept fun _ => .rejectIf fun _ => ?_
  exact (atomic_onMandates (MandateTree.atomic_revoke _)).bind_infallible fun _ =>
    Exec.infallible_pure _

/-- The deposit is compared before the budgets are charged; debit and channel follow. -/
lemma atomic_doChannelOpen (sender chId mandate payee asset tip : H)
    (unitPrice maxSteps expiry : ℕ) :
    (doChannelOpen sender chId mandate payee asset tip unitPrice maxSteps expiry).Atomic := by
  refine Exec.Atomic.get fun _ => .rejectIf fun _ => .rejectIf fun _ => .rejectIf fun _ => ?_
  refine Exec.Atomic.ofExcept fun _ => .rejectIf fun _ => .okOr fun _ => .rejectIf fun _ => ?_
  refine Exec.Atomic.okOr fun _ => .okOr fun _ => .rejectIf fun _ => .ofOutcome fun _ => ?_
  refine Exec.Atomic.okOr fun _ => .ofExcept fun _ => ?_
  refine Exec.Atomic.bind_reads (reads_onMandates (MandateTree.reads_check _ _ _)) fun _ => ?_
  refine Exec.Atomic.ofExcept fun _ => .rejectIf fun _ => ?_
  refine (atomic_onMandates (MandateTree.atomic_spend _ _ _)).bind_infallible fun _ => ?_
  refine (Exec.infallible_expect _).bind fun _ => ?_
  exact (Exec.infallible_modify _).bind fun _ => Exec.infallible_pure _

/-- The word is verified before the escrow is touched. -/
lemma atomic_doChannelSettle (chId word : H) (step : ℕ) :
    (doChannelSettle chId word step).Atomic := by
  refine Exec.Atomic.get fun _ => .okOr fun _ => .rejectIf fun _ => .rejectIf fun _ => ?_
  refine Exec.Atomic.rejectIf fun _ => .rejectIf fun _ => .okOr fun _ => .ofExcept fun _ => ?_
  refine Exec.Infallible.atomic ((Exec.infallible_unwrap _).bind fun _ => ?_)
  refine (Exec.infallible_modify _).bind fun _ => ?_
  exact (infallible_credit _ _ _).bind fun _ => Exec.infallible_pure _

omit [HashSuite H] in
/-- Expiry and payer are checked before the escrow is given back. -/
lemma atomic_doChannelRefund (sender chId : H) : (doChannelRefund sender chId).Atomic := by
  refine Exec.Atomic.get fun _ => .okOr fun _ => .rejectIf fun _ => .rejectIf fun _ => ?_
  refine Exec.Atomic.rejectIf fun _ => .ofExcept fun _ => ?_
  refine Exec.Infallible.atomic ((Exec.infallible_modify _).bind fun _ => ?_)
  exact (infallible_credit _ _ _).bind fun _ => Exec.infallible_pure _

/-- The debit is the last step that may refuse; the pool is written behind it. -/
lemma atomic_doMintToPool (sender asset : H) (value : ℕ) (commitment : H) (proof : List UInt8) :
    (doMintToPool sender asset value commitment proof).Atomic := by
  refine Exec.Atomic.rejectIf fun _ => .rejectIf fun _ => .get fun _ => .rejectIf fun _ => ?_
  refine Exec.Atomic.ofExcept fun _ => .ofExcept fun _ => .rejectIf fun _ => .rejectIf fun _ => ?_
  refine Exec.Atomic.rejectIf fun _ => ?_
  refine (atomic_debit _ _ _).bind_infallible fun _ => Exec.infallible_get.bind fun _ => ?_
  refine (Exec.infallible_unwrap _).bind fun _ => ?_
  exact (Exec.infallible_modify _).bind fun _ => Exec.infallible_pure _

omit [HashSuite H] in
/-- The mandate of an unshield is looked at, not charged. -/
lemma reads_checkSpendMandate (s : State H) (sender : H) (fee : ℕ) (mandate : Option H) :
    (checkSpendMandate s sender fee mandate).Reads := by
  cases mandate with
  | none => exact Exec.reads_pure _
  | some m =>
    refine (Exec.reads_rejectIf _ _).bind fun _ => (Exec.reads_ofExcept _ _).bind fun _ => ?_
    exact (Exec.reads_rejectIf _ _).bind fun _ => reads_onMandates (MandateTree.reads_check _ _ _)

omit [HashSuite H] in
/-- The charge of that mandate is the charge of its chain, or nothing. -/
lemma atomic_spendMandate (s : State H) (fee : ℕ) (mandate : Option H) :
    (spendMandate s fee mandate).Atomic := by
  cases mandate with
  | none => exact (Exec.reads_pure _).atomic
  | some m => exact atomic_onMandates (MandateTree.atomic_spend _ _ _)

/-- The charge of the mandate is the last step that may refuse; pool and credit follow it. -/
lemma atomic_doShieldedSpend (sender anchor nf out out2 : H) (fee : ℕ)
    (creditTo mandate : Option H) (proof : List UInt8) :
    (doShieldedSpend sender anchor nf out out2 fee creditTo mandate proof).Atomic := by
  refine Exec.Atomic.rejectIf fun _ => .rejectIf fun _ => .get fun _ => ?_
  refine Exec.Atomic.bind_reads (reads_checkSpendMandate _ _ _ _) fun _ => ?_
  refine Exec.Atomic.okOr fun _ => .rejectIf fun _ => ?_
  refine Exec.Atomic.bind_reads (reads_checkSpendMandateAsset _ _ _) fun _ => ?_
  refine Exec.Atomic.bind_reads
    ((Exec.reads_unwrap _).bind fun _ => Exec.reads_ofExcept _ _).when fun _ => ?_
  refine Exec.Atomic.bind_reads (Exec.reads_unwrap _) fun _ => ?_
  refine Exec.Atomic.rejectIf fun _ => .rejectIf fun _ => .rejectIf fun _ => ?_
  -- the mandate's budget is the last step that can refuse
  refine (atomic_spendMandate _ _ _).bind_infallible fun _ => ?_
  refine (Exec.infallible_unwrap _).bind fun _ => (Exec.infallible_modify _).bind fun _ => ?_
  refine Exec.Infallible.bind (Exec.Infallible.when ?_) fun _ => Exec.infallible_pure _
  exact (Exec.infallible_unwrap _).bind fun _ => (Exec.infallible_unwrap _).bind fun _ =>
    infallible_credit _ _ _

/-- A body that refuses leaves the state alone. -/
lemma atomic_dispatch (sender : H) (tx : Tx H) : (dispatch sender tx).Atomic := by
  cases tx with
  | transfer => exact atomic_doTransfer _ _ _ _
  | mandateCreate => exact atomic_doMandateCreate _ _ _ _ _ _ _ _ _ _ _
  | mandateSpend => exact atomic_doMandateSpend _ _ _ _
  | mandateRevoke => exact atomic_doMandateRevoke _ _
  | channelOpen => exact atomic_doChannelOpen _ _ _ _ _ _ _ _ _
  | channelSettle => exact atomic_doChannelSettle _ _ _
  | channelRefund => exact atomic_doChannelRefund _ _
  | mintToPool => exact atomic_doMintToPool _ _ _ _ _
  | shieldedSpend => exact atomic_doShieldedSpend _ _ _ _ _ _ _ _ _
  | accountCreate => exact atomic_doAccountCreate _ _ _ _ _
  | assetRegister => exact atomic_doAssetRegister _ _ _ _ _
  | assetMint => exact atomic_doAssetMint _ _ _ _
  | assetBurn => exact atomic_doAssetBurn _ _ _ _
  | assetFreeze => exact atomic_doAssetFreeze _ _ _ _
  | assetPause => exact atomic_doAssetPause _ _ _

end Kinds

end State

end HashKinetics
