import HashKinetics.Mandate.Available
import HashKinetics.State.MandateBudget

/-!
# Who may lower a balance

A transaction lowers its sender's balances, and, through a mandate, those of the account that funds
the root of the mandate's chain.  Every arm of the state machine is covered: whatever lowers the
balance of a third party carries the credential of a mandate spend or of a channel opening.
-/

namespace HashKinetics

open Foundations

/-- The mandate a transaction draws an account balance through, and the amount it draws. -/
def Tx.draw {H : Type} : Tx H → Option (H × ℕ)
  | .mandateSpend leaf _ amount => some (leaf, amount)
  | .channelOpen _ mandate _ _ _ unitPrice maxSteps _ => some (mandate, unitPrice * maxSteps)
  | _ => none

namespace MandateTree

variable {H : Type} [LinearOrder H]

/-- A spend that went through passed the check. -/
lemma Spent.check {t t' : MandateTree H} {leaf : H} {amount now : ℕ} {chain : List H}
    (h : Spent t leaf amount now chain t') :
    MandateTree.check leaf amount now t = (.ok (), t) := by
  simp only [MandateTree.check, Exec.get_bind_eq_ok, Exec.ofExcept_bind_eq_ok]
  exact ⟨chain, h.walk, checkChain_of_clears 0 h.clears⟩

end MandateTree

namespace State

variable {H : Type} [LinearOrder H] {s s' : State H}

/-! ## Balances after one write -/

lemma balance_setBalance (id asset id' asset' : H) (amount : ℕ) :
    (s.setBalance id asset amount).balance id' asset' =
      if id = id' ∧ asset = asset' then amount else s.balance id' asset' := by
  unfold balance
  rw [setBalance_balances, OrderedMap.get_insert]
  have hkey : toLex (id, asset) = toLex (id', asset') ↔ id = id' ∧ asset = asset' := by simp
  split_ifs with h₁ h₂ h₂
  · rfl
  · exact absurd (hkey.mp h₁) h₂
  · exact absurd (hkey.mpr h₂) h₁
  · rfl

/-- A credit lowers no balance. -/
lemma balance_le_credited (hf : s.Fits) (id asset A a : H) (amount : ℕ) :
    s.balance A a ≤ (s.credited id asset amount).balance A a := by
  rw [credited, balance_setBalance]
  split_ifs with h
  · obtain ⟨rfl, rfl⟩ := h
    exact le_min (Nat.le_add_right _ _) (hf id asset)
  · exact le_rfl

/-- A debit lowers no balance of another account. -/
lemma balance_debited_of_ne {id A : H} (hne : id ≠ A) (asset a : H) (amount : ℕ) :
    (s.debited id asset amount).balance A a = s.balance A a := by
  rw [debited, balance_setBalance, if_neg]
  exact fun h => hne h.1

/-- A debit lowers a balance by its amount at most. -/
lemma balance_le_debited_add (id asset A a : H) (amount : ℕ) :
    s.balance A a ≤ (s.debited id asset amount).balance A a + amount := by
  rw [debited, balance_setBalance]
  split_ifs with h
  · obtain ⟨rfl, rfl⟩ := h
    omega
  · omega

lemma balance_debited_of_asset_ne {asset a : H} (hne : asset ≠ a) (id A : H) (amount : ℕ) :
    (s.debited id asset amount).balance A a = s.balance A a := by
  rw [debited, balance_setBalance, if_neg]
  exact fun h => hne h.2

variable [HashSuite H]

/-! ## One transaction -/

/-- The credential of a draw on an account: the transaction names a leaf that its sender holds and
that denominates the asset, the chain of that leaf ends in a root that the account funds, and the
check of the chain passed for the amount. -/
def DrawnBy (s : State H) (sender : H) (tx : Tx H) (funder asset : H) (amount : ℕ) : Prop :=
  ∃ leaf node root, tx.draw = some (leaf, amount) ∧ s.mandates.nodes[leaf]? = some node ∧
    node.holderKey = sender ∧ node.asset = asset ∧ s.mandates.rootOf leaf = .ok root ∧
    s.rootFunding[root]? = some funder ∧
    MandateTree.check leaf amount s.time s.mandates = (.ok (), s.mandates)

omit [HashSuite H] in
lemma MandateDraw.drawnBy {sender leaf : H} {amount : ℕ} {asset funder : H} {chain : List H}
    {t : MandateTree H} (h : MandateDraw s sender leaf amount asset funder chain t) {tx : Tx H}
    (htx : tx.draw = some (leaf, amount)) : DrawnBy s sender tx funder asset amount := by
  obtain ⟨node, hnode, hholder, hasset⟩ := h.leafNode
  obtain ⟨root, hroot, hfunder, -⟩ := h.funded
  exact ⟨leaf, node, root, htx, hnode, hholder, hasset, hroot, hfunder, h.spent.check⟩

/-- The balance of an account that is not the sender does not fall, or falls by a drawn amount. -/
def DebitedBy (s : State H) (sender : H) (tx : Tx H) (A a : H) (s' : State H) : Prop :=
  s.balance A a ≤ s'.balance A a ∨
    ∃ amount, s.balance A a ≤ s'.balance A a + amount ∧ DrawnBy s sender tx A a amount

omit [HashSuite H] in
/-- The funder of a mandate draw is debited in the leaf's asset and nobody else is. -/
lemma debitedBy_of_draw {sender leaf : H} {amount : ℕ} {asset funder : H} {chain : List H}
    {t : MandateTree H} (h : MandateDraw s sender leaf amount asset funder chain t) {tx : Tx H}
    (htx : tx.draw = some (leaf, amount)) (A a : H)
    (hle : ((s.setMandates t).debited funder asset amount).balance A a ≤ s'.balance A a) :
    DebitedBy s sender tx A a s' := by
  by_cases hA : funder = A
  · by_cases ha : asset = a
    · subst hA ha
      refine .inr ⟨amount, ?_, h.drawnBy htx⟩
      have hfall := balance_le_debited_add (s := s.setMandates t) funder asset funder asset amount
      rw [balance_setMandates] at hfall
      omega
    · rw [balance_debited_of_asset_ne ha, balance_setMandates] at hle
      exact .inl hle
  · rw [balance_debited_of_ne hA, balance_setMandates] at hle
    exact .inl hle

omit [HashSuite H] in
lemma balance_of_balances (h : s'.balances = s.balances) (A a : H) :
    s'.balance A a = s.balance A a := by
  unfold balance
  rw [h]

/-- No transaction body debits a third party without a mandate. -/
lemma debitedBy_dispatch (hf : s.Fits) {sender : H} {tx : Tx H} {evs : List (Event H)}
    (h : dispatch sender tx s = (.ok evs, s')) {A : H} (hA : sender ≠ A) (a : H) :
    DebitedBy s sender tx A a s' := by
  cases tx with
  | transfer dst asset amount =>
    obtain ⟨-, -, -, -, rfl⟩ := doTransfer_eq_ok h
    refine .inl ?_
    rw [← balance_debited_of_ne hA asset a amount]
    exact balance_le_credited (hf.debited _ _ _) _ _ _ _ _
  | mandateCreate id parent holder asset rate bufferMax perTxMax initial expiry tier =>
    obtain ⟨-, hc⟩ := doMandateCreate_eq_ok h
    rw [hc.result]
    cases parent <;> exact .inl (balance_of_balances rfl A a).ge
  | mandateSpend leaf dst amount =>
    obtain ⟨asset, funder, chain, t, hdraw, -, -, -, rfl⟩ := doMandateSpend_eq_ok h
    apply debitedBy_of_draw hdraw rfl A a
    exact balance_le_credited ((hf.of_balances (s.setMandates t) rfl).debited _ _ _) _ _ _ _ _
  | mandateRevoke target =>
    obtain ⟨node, -, -, -, rfl⟩ := doMandateRevoke_eq_ok h
    exact .inl (balance_of_balances rfl A a).ge
  | channelOpen id mandate payee asset tip unitPrice maxSteps expiry =>
    obtain ⟨funder, chain, t, hdraw, -, -, -, -, -, -, rfl⟩ := doChannelOpen_eq_ok h
    exact debitedBy_of_draw hdraw rfl A a (balance_of_balances rfl A a).ge
  | channelSettle id word step =>
    obtain ⟨ch, -, -, -, -, -, -, -, rfl⟩ := doChannelSettle_eq_ok h
    exact .inl (balance_le_credited (hf.of_balances (s.setChannel _ _) rfl) _ _ _ _ _)
  | channelRefund id =>
    obtain ⟨ch, -, -, -, -, -, -, rfl⟩ := doChannelRefund_eq_ok h
    exact .inl (balance_le_credited (hf.of_balances (s.setChannel _ _) rfl) _ _ _ _ _)
  | mintToPool asset value commitment proof ct =>
    obtain ⟨key, -, -, -, -, -, -, -, -, -, rfl⟩ := doMintToPool_eq_ok h
    refine .inl ?_
    rw [← balance_debited_of_ne hA asset a value]
    exact (balance_of_balances rfl A a).ge
  | shieldedSpend anchor nf out out2 fee creditTo mandate proof ct ct2 =>
    obtain ⟨key, pool, t, -, -, ⟨-, rfl⟩ | ⟨-, dst, asset, -, -, -, rfl⟩⟩ := doShieldedSpend_eq_ok h
    · exact .inl (balance_of_balances rfl A a).ge
    · exact .inl (balance_le_credited
        (hf.of_balances ((s.setMandates t).setPool key _) rfl) _ _ _ _ _)
  | accountCreate id authCommit asset amount =>
    obtain ⟨-, -, -, ⟨-, rfl⟩ | ⟨-, -, -, rfl⟩⟩ := doAccountCreate_eq_ok h
    · exact .inl (balance_of_balances rfl A a).ge
    · refine .inl ?_
      rw [← balance_debited_of_ne hA asset a amount]
      exact balance_le_credited
        ((hf.debited _ _ _).of_balances ((s.debited _ _ _).setAccount _ _) rfl) _ _ _ _ _
  | assetRegister asset symbol decimals policy =>
    obtain ⟨-, -, -, rfl⟩ := doAssetRegister_eq_ok h
    exact .inl (balance_of_balances rfl A a).ge
  | assetMint asset dst amount =>
    obtain ⟨info, -, -, -, -, -, -, -, rfl⟩ := doAssetMint_eq_ok h
    exact .inl (balance_le_credited (hf.of_balances (s.setAsset _ _) rfl) _ _ _ _ _)
  | assetBurn asset amount destination =>
    obtain ⟨info, -, -, -, -, -, rfl⟩ := doAssetBurn_eq_ok h
    refine .inl ?_
    rw [← balance_debited_of_ne hA asset a amount]
    exact (balance_of_balances rfl A a).ge
  | assetFreeze asset account frozen =>
    obtain ⟨info, -, -, -, -, rfl⟩ := doAssetFreeze_eq_ok h
    exact .inl (balance_of_balances rfl A a).ge
  | assetPause asset paused =>
    obtain ⟨info, -, -, -, -, rfl⟩ := doAssetPause_eq_ok h
    exact .inl (balance_of_balances rfl A a).ge

omit [HashSuite H] in
/-- Charging the fee takes nothing from a third party. -/
lemma balance_feeCharged {sender A : H} (hA : sender ≠ A) (a : H) :
    (s.feeCharged sender).balance A a = s.balance A a := by
  unfold feeCharged
  split_ifs
  · exact balance_debited_of_ne hA _ _ _
  · rfl

variable [TxCodec H]

/-- **No unauthorised debit.**  In every state of a run, between blocks and within one, a
transaction that lowers the balance of an account is sent by that account, or carries a mandate draw
on it: the sender holds the leaf it names, the account funds the root of that leaf's chain, and the
check of the chain passed for at least the amount by which the balance fell. -/
theorem debit_authorised {g : Genesis H} {stx : SignedTx H} {preSig : Option Bool}
    {o : Outcome StateError (List (Event H))} (hvisited : Visited g s)
    (h : applyTxAt stx preSig s = (o, s')) (hreturns : o ≠ .fault) {A a : H}
    (hfall : s'.balance A a < s.balance A a) :
    A = stx.sender ∨ ∃ amount, s.balance A a - s'.balance A a ≤ amount ∧
      DrawnBy s stx.sender stx.payload A a amount := by
  by_cases hA : stx.sender = A
  · exact .inl hA.symm
  refine .inr ?_
  cases o with
  | fault => exact absurd rfl hreturns
  | err e =>
    -- a refused transaction changes nothing
    have hrest := applyTxAt_restores hvisited.fits stx preSig e
    rw [h] at hrest
    rw [show s' = s from hrest rfl] at hfall
    exact absurd hfall (lt_irrefl _)
  | ok evs =>
    obtain ⟨s₁, henv⟩ := applyTxAt_eq_ok h
    obtain ⟨acc, -, -, rfl⟩ := henv.ratchet
    have hbal : ((s₁.feeBurned s.envelopeFee).setAccount stx.sender
        ⟨stx.nextAuth, acc.nonce + 1⟩).balance A a = s₁.balance A a := rfl
    rw [hbal] at hfall ⊢
    have hbody := debitedBy_dispatch (hvisited.fits.feeCharged stx.sender) henv.body hA a
    rw [DebitedBy, balance_feeCharged hA] at hbody
    obtain hkeep | ⟨amount, hle, hdraw⟩ := hbody
    · omega
    · refine ⟨amount, by omega, ?_⟩
      rw [feeCharged_eq] at hdraw
      exact hdraw

end State

namespace Concrete

open State

/-- The agent spends four units of the organisation's asset. -/
def agentSpend : SignedTx ℕ := signed [2] 2 0 (.mandateSpend 100 2 4)

lemma agentSpend_verified : applyTxAt agentSpend none = applyTxAt agentSpend (some true) := by
  rw [← applyTxAt_verdict, agentSpend, verifyEnvelope_signed]

theorem agentSpend_authorised : ∃ s', applyTx agentSpend granted =
      (.ok [.mandateSpent 100 2 4], s') ∧ s'.balance 1 7 < granted.balance 1 7 ∧
      (1 = agentSpend.sender ∨ ∃ amount, granted.balance 1 7 - s'.balance 1 7 ≤ amount ∧
        DrawnBy granted agentSpend.sender agentSpend.payload 1 7 amount) := by
  have hreach : Reachable mandateGenesis granted :=
    ⟨_, _, initial_mandateGenesis, .single granted_step⟩
  have hok : (applyTx agentSpend granted).1 = .ok [.mandateSpent 100 2 4] := by
    rw [applyTx, agentSpend_verified]
    decide +kernel
  have hfall : (applyTx agentSpend granted).2.balance 1 7 < granted.balance 1 7 := by
    rw [applyTx, agentSpend_verified]
    decide +kernel
  have happly := Exec.eq_of_outcome hok
  exact ⟨_, happly, hfall, debit_authorised hreach.visited happly (by simp) hfall⟩

end Concrete

end HashKinetics
