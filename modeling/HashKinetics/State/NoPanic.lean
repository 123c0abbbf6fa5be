import HashKinetics.Foundations.Faults
import HashKinetics.Mandate.Available
import HashKinetics.State.Accounts
import HashKinetics.State.Channels
import HashKinetics.State.PoolMoves

/-!
# No transaction stops a node

The bodies assert what the checks before them established: a balance that was compared, a node of a
chain that was walked, a pool that an anchor resolved to, a slot of a tree that had room.  Two
assertions rest on more than the body itself: the escrow of a channel covers what is settled, and
the nonce of an account counts its transactions.  Each is proved where it stands, and the rest
follows along the sequence.

The differences that the comparison before them covers (a debit, the links of a settlement, the time
since the last accrual) are exact: `debit_eq_checked`, `Channel.links_checked` and
`MandateNode.accrue_eq_checked`.  Where a body looks an entry up twice with no write to its table in
between, the second lookup is the first one.
-/

namespace HashKinetics

open Foundations Circuit

/-! ## The mandate tree -/

namespace MandateNode

variable {H : Type}

/-- Accrual as the chain computes it, with the elapsed time as a checked difference. -/
def accrueChecked (n : MandateNode H) (now : ℕ) : Option (MandateNode H) :=
  if n.lastAccrual < now then
    (checkedSub now n.lastAccrual).map fun dt =>
      { n with
        buffer := min (satAdd u128Max n.buffer (satMul u128Max n.ratePerSec dt)) n.bufferMax
        lastAccrual := now }
  else some n

/-- The elapsed time never underflows. -/
lemma accrue_eq_checked (n : MandateNode H) (now : ℕ) :
    n.accrueChecked now = some (n.accrue now) := by
  unfold accrueChecked accrue
  split_ifs with hlater
  · have hdt : checkedSub now n.lastAccrual = some (now - n.lastAccrual) :=
      checkedSub_eq_some.mpr ⟨hlater.le, rfl⟩
    rw [hdt]
    rfl
  · rfl

end MandateNode

namespace MandateTree

variable {H : Type} [LinearOrder H] {t : MandateTree H}

/-- Every id of a chain has a node, so checking it reads only nodes that are there. -/
lemma noFault_checkChain {amount now : ℕ} {chain : List H} (depth : ℕ)
    (h : ∀ id ∈ chain, ∃ n, t.nodes[id]? = some n) :
    (checkChain amount now depth chain).NoFault t := by
  induction chain generalizing depth with
  | nil => exact .pure ()
  | cons id ids ih =>
    obtain ⟨⟨n, hn⟩, hrest⟩ := List.forall_mem_cons.mp h
    refine .get (.unwrap hn (.rejectIf fun _ => .rejectIf fun _ => .rejectIf fun _ => ?_))
    exact .rejectIf fun _ => ih (depth + 1) hrest

/-- The dry run of a spend faults nowhere. -/
lemma noFault_check (leaf : H) (amount now : ℕ) (t : MandateTree H) :
    (check leaf amount now).NoFault t := by
  refine .get (.ofExcept fun chain hchain => ?_)
  exact noFault_checkChain 0 fun id hid => (isChain_of_chainOf hchain).exists_node hid

/-- A chain that passed the check is debited: its nodes are there, none twice, and each buffer holds
the amount once it has accrued. -/
lemma noFault_spend (leaf : H) (amount now : ℕ) (t : MandateTree H) :
    (spend leaf amount now).NoFault t := by
  refine (noFault_check leaf amount now t).bind fun _ t₁ hcheck => ?_
  obtain ⟨rfl, chain, hchain, hclears⟩ := check_eq_ok hcheck
  refine .get (.ofExcept fun chain' hchain' => ?_)
  obtain rfl : chain = chain' := Except.ok.inj (hchain.symm.trans hchain')
  obtain ⟨t', ht'⟩ := debitChain_of_clears (isChain_of_chainOf hchain).nodup hclears
  exact .of_ok ht'

/-- An insertion has nothing to fail on. -/
lemma faultless_insert (node : MandateNode H) : (insert node).Faultless := by
  unfold insert
  split
  · exact .get fun _ => .okOr fun _ => .rejectIf (.rejectIf (.modify _))
  · exact .modify _

/-- Nor has one under the asset rule. -/
lemma faultless_insertAssetBound (node : MandateNode H) : (insertAssetBound node).Faultless := by
  refine Exec.Faultless.bind ?_ fun _ => faultless_insert node
  unfold checkAssetBound
  split
  · refine .get fun _ => .okOr fun _ s => ?_
    unfold Exec.NoFault Exec.rejectIf
    split_ifs <;> simp
  · exact .pure ()

/-- Nor has a revocation. -/
lemma faultless_revoke (id : H) : (revoke id).Faultless :=
  .get fun _ => .okOr fun _ => .modify _

end MandateTree

/-- The links of a settlement never underflow: a step that is not past the settled one is
refused. -/
lemma Channel.links_checked {H : Type} {ch : Channel H} {step : ℕ}
    (h : ¬ (step ≤ ch.state.highestStepSettled ∨ ch.state.maxSteps < step)) :
    checkedSub step ch.state.highestStepSettled = some (step - ch.state.highestStepSettled) := by
  refine checkedSub_eq_some.mpr ⟨?_, rfl⟩
  omega

namespace State

variable {H : Type} [LinearOrder H] [HashSuite H] {s : State H}

/-! ## Balances -/

/-- A debit as the chain computes it, with the balance left as a checked difference. -/
def debitChecked (id asset : H) (amount : ℕ) : Exec (State H) StateError Unit := do
  let s ← Exec.get
  Exec.rejectIf (s.balance id asset < amount) (.insufficientBalance (s.balance id asset) amount)
  let left ← Exec.unwrap (checkedSub (s.balance id asset) amount)
  Exec.modify fun s => s.setBalance id asset left

omit [HashSuite H] in
/-- A debit never underflows: the comparison before it covers the difference. -/
lemma debit_eq_checked (id asset : H) (amount : ℕ) :
    (debit id asset amount : Exec (State H) StateError Unit) = debitChecked id asset amount := by
  funext s
  by_cases h : s.balance id asset < amount
  · simp only [debit, debitChecked, bind, Exec.bind, Exec.get, Exec.rejectIf, if_pos h]
  · have hleft : checkedSub (s.balance id asset) amount = some (s.balance id asset - amount) :=
      checkedSub_eq_some.mpr ⟨not_lt.mp h, rfl⟩
    simp only [debit, debitChecked, bind, Exec.bind, Exec.get, Exec.rejectIf, if_neg h, hleft,
      Exec.unwrap]
    rfl

omit [HashSuite H] in
/-- A debit is checked before it subtracts. -/
lemma faultless_debit (id asset : H) (amount : ℕ) : (debit id asset amount).Faultless :=
  .get fun _ => .rejectIf (.modify _)

omit [HashSuite H] in
/-- A credit saturates. -/
lemma faultless_credit (id asset : H) (amount : ℕ) : (credit id asset amount).Faultless := .modify _

omit [HashSuite H] in
/-- A debit that a comparison covers succeeds. -/
lemma noFault_expect_debit {β : Type} {id asset : H} {amount : ℕ}
    {f : Unit → Exec (State H) StateError β} (hbal : amount ≤ s.balance id asset)
    (hf : (f ()).NoFault (s.debited id asset amount)) :
    (Exec.expect (debit id asset amount) >>= f).NoFault s :=
  .expect (debit_eq_ok.mpr ⟨hbal, rfl⟩) hf

/-! ## The bodies -/

omit [HashSuite H] in
/-- The sum that a mint unwraps was checked before. -/
lemma noFault_doAssetMint (sender asset dst : H) (amount : ℕ) :
    (doAssetMint sender asset dst amount).NoFault s := by
  refine .rejectIf fun _ => .get (.ofExcept fun info hinfo => .okOr fun supply hsupply => ?_)
  refine .ofExcept fun _ _ => ?_
  -- the entry that the issuer check found
  have hget : s.assets[asset]? = some info := (get_of_issuerEntry hinfo).1
  refine .unwrap hget (.unwrap hsupply (.modify_bind ?_))
  exact (faultless_credit _ _ _ _).bind fun _ _ _ => .pure _

omit [HashSuite H] in
/-- The registry entry that a burn unwraps was found before. -/
lemma noFault_doAssetBurn (sender asset : H) (amount : ℕ) (destination : List UInt8) :
    (doAssetBurn sender asset amount destination).NoFault s := by
  refine .rejectIf fun _ => .rejectIf fun _ => .get (.rejectIf fun hknown => .ofExcept fun _ _ =>
    ?_)
  obtain ⟨info, hget⟩ : ∃ info, s.assets[asset]? = some info := by
    rw [← Option.isSome_iff_exists]
    simpa using hknown
  exact (faultless_debit _ _ _ s).bind fun _ _ _ => .unwrap hget (.modify_bind (.pure _))

omit [HashSuite H] in
/-- A transfer asserts nothing. -/
lemma faultless_doTransfer (src dst asset : H) (amount : ℕ) :
    (doTransfer src dst asset amount).Faultless := by
  refine .rejectIf (.get fun _ => .ofExcept fun _ => (faultless_debit _ _ _).bind fun _ => ?_)
  exact (faultless_credit _ _ _).bind fun _ => .pure _

/-- An account creation asserts nothing. -/
lemma faultless_doAccountCreate (sender id authCommit asset : H) (amount : ℕ) :
    (doAccountCreate sender id authCommit asset amount).Faultless := by
  refine .rejectIf (.get fun _ => .rejectIf ?_)
  refine Exec.Faultless.bind (.when (.ofExcept fun _ => faultless_debit _ _ _)) fun _ => ?_
  refine (Exec.Faultless.modify _).bind fun _ => ?_
  exact Exec.Faultless.bind (.when (faultless_credit _ _ _)) fun _ => .pure _

omit [HashSuite H] in
/-- A mandate creation asserts nothing. -/
lemma faultless_doMandateCreate (sender id : H) (parent : Option H) (holder asset : H)
    (ratePerSec bufferMax perTxMax initialBuffer expiry tier : ℕ) :
    (doMandateCreate sender id parent holder asset ratePerSec bufferMax perTxMax initialBuffer
      expiry
      tier).Faultless := by
  refine .get fun s => .rejectIf (.ofExcept fun _ => ?_)
  refine Exec.Faultless.bind (.zoom ?_) fun _ => ?_
  · unfold insertMandate
    split_ifs
    · exact MandateTree.faultless_insertAssetBound _
    · exact MandateTree.faultless_insert _
  · exact Exec.Faultless.bind (.when (.modify _)) fun _ => .pure _

omit [HashSuite H] in
/-- A revocation asserts nothing. -/
lemma faultless_doMandateRevoke (sender target : H) :
    (doMandateRevoke sender target).Faultless := by
  refine .get fun _ => .okOr fun _ => .ofExcept fun _ => .rejectIf ?_
  exact Exec.Faultless.bind (.zoom (MandateTree.faultless_revoke _)) fun _ => .pure _

omit [HashSuite H] in
/-- The dry run of a spend faults nowhere, on the chain either. -/
lemma noFault_onMandates_check (leaf : H) (amount now : ℕ) :
    (onMandates (MandateTree.check leaf amount now)).NoFault s :=
  .zoom (MandateTree.noFault_check leaf amount now _)

omit [HashSuite H] in
/-- A charge of the tree faults nowhere. -/
lemma noFault_onMandates_spend (leaf : H) (amount now : ℕ) :
    (onMandates (MandateTree.spend leaf amount now)).NoFault s :=
  .zoom (MandateTree.noFault_spend leaf amount now _)

omit [HashSuite H] in
/-- Checking a budget leaves the state alone. -/
lemma eq_of_onMandates_check {s' : State H} {leaf : H} {amount now : ℕ} {u : Unit}
    (h : onMandates (MandateTree.check leaf amount now) s = (.ok u, s')) : s' = s := by
  obtain ⟨t, ht, rfl⟩ := onMandates_eq_ok.mp h
  obtain ⟨rfl, -⟩ := MandateTree.check_eq_ok ht
  rfl

omit [HashSuite H] in
/-- The funder's balance is compared before the budget is spent, and spending the budget does not
touch it. -/
lemma noFault_doMandateSpend (sender leaf dst : H) (amount : ℕ) :
    (doMandateSpend sender leaf dst amount).NoFault s := by
  refine .rejectIf fun _ => .get (.ofExcept fun holder _ => .rejectIf fun _ => .okOr fun node _ =>
    ?_)
  refine .ofOutcome (s.mandates.rootOf_ne_fault leaf) fun root _ => ?_
  refine .okOr fun funder _ => .ofExcept fun _ _ => ?_
  refine (noFault_onMandates_check _ _ _).bind fun _ s₁ hcheck => ?_
  obtain rfl := eq_of_onMandates_check hcheck
  refine .ofExcept fun _ _ => .rejectIf fun hbal => ?_
  refine (noFault_onMandates_spend _ _ _).bind fun _ s₂ hspend => ?_
  obtain ⟨t, -, rfl⟩ := onMandates_eq_ok.mp hspend
  refine noFault_expect_debit (not_lt.mp hbal) ?_
  exact (faultless_credit _ _ _ _).bind fun _ _ _ => .pure _

/-- The debit that an opening expects was compared before. -/
lemma noFault_doChannelOpen (sender chId mandate payee asset tip : H)
    (unitPrice maxSteps expiry : ℕ) :
    (doChannelOpen sender chId mandate payee asset tip unitPrice maxSteps expiry).NoFault s := by
  refine .get (.rejectIf fun _ => .rejectIf fun _ => .rejectIf fun _ => .ofExcept fun holder _ =>
    ?_)
  refine .rejectIf fun _ => .okOr fun acc _ => .rejectIf fun _ => .okOr fun deposit _ => ?_
  refine .okOr fun node _ => .rejectIf fun _ => ?_
  refine .ofOutcome (s.mandates.rootOf_ne_fault mandate) fun root _ => .okOr fun funder _ => ?_
  refine .ofExcept fun _ _ => (noFault_onMandates_check _ _ _).bind fun _ s₁ hcheck => ?_
  obtain rfl := eq_of_onMandates_check hcheck
  refine .ofExcept fun _ _ => .rejectIf fun hbal => ?_
  refine (noFault_onMandates_spend _ _ _).bind fun _ s₂ hspend => ?_
  obtain ⟨t, -, rfl⟩ := onMandates_eq_ok.mp hspend
  exact noFault_expect_debit (not_lt.mp hbal) (.modify_bind (.pure _))

omit [HashSuite H] in
/-- A refund asserts nothing. -/
lemma faultless_doChannelRefund (sender chId : H) : (doChannelRefund sender chId).Faultless := by
  refine .get fun _ => .okOr fun _ => .rejectIf (.rejectIf (.rejectIf (.ofExcept fun _ => ?_)))
  exact (Exec.Faultless.modify _).bind fun _ => (faultless_credit _ _ _).bind fun _ => .pure _

/-- The pool a shield acts on is compared before the shield, and a pool it creates is empty. -/
lemma noFault_doMintToPool (sender asset : H) (value : ℕ) (commitment : H) (proof : List UInt8) :
    (doMintToPool sender asset value commitment proof).NoFault s := by
  refine .rejectIf fun _ => .rejectIf fun _ => .get (.rejectIf fun _ => .ofExcept fun _ _ => ?_)
  refine .ofExcept fun key _ => .rejectIf fun _ => .rejectIf fun hfull => .rejectIf fun _ => ?_
  refine (faultless_debit _ _ _ s).bind fun _ s₁ hdebit => .get ?_
  obtain ⟨-, rfl⟩ := debit_eq_ok.mp hdebit
  have hroom : (s.poolForMint key).tree.hasCapacity 1 := by
    rcases poolForMint_eq s key with href | ⟨-, htree⟩
    · rw [href] at hfull
      by_contra hnone
      exact hfull (decide_eq_true hnone)
    · rw [htree]
      change satAdd u64Max 0 1 ≤ 2 ^ TREE_DEPTH - 1
      decide
  exact .unwrap (PoolState.mint_eq_some.mpr ⟨hroom, rfl⟩) (.modify_bind (.pure _))

omit [HashSuite H] in
/-- A key that an anchor resolved to has a pool. -/
lemma exists_pool_of_poolKeyOfAnchor {anchor : H} {key : PoolKey H}
    (h : s.poolKeyOfAnchor anchor = some key) : ∃ pool, s.poolRef key = some pool := by
  unfold poolKeyOfAnchor at h
  split_ifs at h with hrecent
  · cases h
    exact ⟨s.pool, rfl⟩
  · obtain ⟨⟨a, p⟩, hfind, rfl⟩ := Option.map_eq_some_iff.mp h
    exact ⟨p, Std.ExtTreeMap.mem_toList_iff_getElem?_eq_some.mp (List.mem_of_find?_eq_some hfind)⟩

/-- Room for two commitments: both outputs of a spend enter the tree. -/
lemma exists_spend_of_hasCapacity {pool : PoolState H} (hroom : pool.tree.hasCapacity 2)
    (nf out out2 : H) (fee : ℕ) : ∃ pool', pool.spend nf out out2 fee = some pool' := by
  have hfirst : pool.tree.hasCapacity 1 := by
    unfold IncrementalTree.hasCapacity satAdd at hroom ⊢
    omega
  have hsecond : (pool.tree.appended out).hasCapacity 1 := by
    unfold IncrementalTree.hasCapacity satAdd at hroom ⊢
    simp only [IncrementalTree.appended]
    omega
  have h₁ : pool.tree.append out = some _ := IncrementalTree.append_eq_some.mpr ⟨hfirst, rfl⟩
  have h₂ : (pool.tree.appended out).append out2 = some _ :=
    IncrementalTree.append_eq_some.mpr ⟨hsecond, rfl⟩
  simp [PoolState.spend, h₁, h₂]

omit [HashSuite H] in
/-- The look at the mandate of an unshield faults nowhere. -/
lemma noFault_checkSpendMandate (s : State H) (sender : H) (fee : ℕ) (mandate : Option H) :
    (checkSpendMandate s sender fee mandate).NoFault s := by
  cases mandate with
  | none => exact .pure ()
  | some m =>
    exact .rejectIf fun _ => .ofExcept fun _ _ => .rejectIf fun _ => noFault_onMandates_check _ _ _

omit [HashSuite H] in
/-- It leaves the state alone. -/
lemma eq_of_checkSpendMandate {s' : State H} {sender : H} {fee : ℕ} {mandate : Option H} {u : Unit}
    (h : checkSpendMandate s sender fee mandate s = (.ok u, s')) : s' = s := by
  cases mandate with
  | none => exact (Exec.pure_eq_ok.mp h).2.symm
  | some m =>
    simp only [checkSpendMandate, Exec.rejectIf_bind_eq_ok, Exec.ofExcept_bind_eq_ok] at h
    obtain ⟨-, holder, -, -, hcheck⟩ := h
    exact eq_of_onMandates_check hcheck

omit [HashSuite H] in
/-- The asset rule of an unshield faults nowhere. -/
lemma noFault_checkSpendMandateAsset (s₁ : State H) (asset mandate : Option H) :
    (checkSpendMandateAsset s₁ asset mandate).NoFault s := by
  cases mandate with
  | none => exact .pure ()
  | some m =>
    refine .when fun _ => .ofOutcome (s₁.mandates.rootOf_ne_fault m) fun root _ => ?_
    refine .ofExcept fun _ _ => .okOr fun node _ => ?_
    exact (Exec.safe_rejectIf s fun _ => trivial : Exec.Safe _ s fun _ => True).1

/-- The anchor resolved to a pool, that pool has room for both outputs, and a fee has an account and
an asset to go to. -/
lemma noFault_doShieldedSpend (sender anchor nf out out2 : H) (fee : ℕ)
    (creditTo mandate : Option H) (proof : List UInt8) :
    (doShieldedSpend sender anchor nf out out2 fee creditTo mandate proof).NoFault s := by
  refine .rejectIf fun _ => .rejectIf fun hcredit => .get ?_
  refine (noFault_checkSpendMandate s sender fee mandate).bind fun _ s₁ hcheck => ?_
  obtain rfl := eq_of_checkSpendMandate hcheck
  refine .okOr fun key hkey => .rejectIf fun hasset => ?_
  refine (noFault_checkSpendMandateAsset s₁ _ mandate).bind fun _ s' hbound => ?_
  have hsame := reads_checkSpendMandateAsset s₁ (s₁.poolAsset key) mandate s₁
  rw [hbound] at hsame
  obtain rfl : s₁ = s' := hsame.symm
  have hpaid : 0 < fee → ∃ dst a, creditTo = some dst ∧ s₁.poolAsset key = some a := by
    intro hpos
    obtain ⟨dst, hdst⟩ := Option.ne_none_iff_exists'.mp fun hnone => hcredit ⟨hpos, hnone⟩
    obtain ⟨a, ha⟩ := Option.ne_none_iff_exists'.mp fun hnone => hasset ⟨hpos, hnone⟩
    exact ⟨dst, a, hdst, ha⟩
  obtain ⟨pool, hpool⟩ := exists_pool_of_poolKeyOfAnchor hkey
  refine Exec.NoFault.bind (.when fun hpos => ?_) fun _ s₂ hgate => ?_
  · obtain ⟨dst, a, -, ha⟩ := hpaid hpos
    refine .unwrap ha ?_
    exact (Exec.safe_ofExcept s₁ fun _ _ => trivial : Exec.Safe _ s₁ fun _ => True).1
  have hread := Exec.Reads.when (c := 0 < fee) (x := (do
      let a ← Exec.unwrap (s₁.poolAsset key)
      Exec.ofExcept id (s₁.assetGate a none creditTo) : Exec (State H) StateError Unit))
    (.bind (Exec.reads_unwrap _) fun _ => Exec.reads_ofExcept _ _) s₁
  obtain rfl : s₂ = s₁ := by
    rw [hgate] at hread
    exact hread
  refine .unwrap hpool (.rejectIf fun _ => .rejectIf fun hroom => .rejectIf fun _ => ?_)
  obtain ⟨pool', hpool'⟩ := exists_spend_of_hasCapacity (not_not.mp hroom) nf out out2 fee
  refine Exec.NoFault.bind ?_ fun _ s₃ _ => ?_
  · cases mandate with
    | none => exact .pure ()
    | some m => exact noFault_onMandates_spend _ _ _
  refine .unwrap hpool' (.modify_bind (Exec.NoFault.bind (.when fun hpos => ?_) fun _ _ _ =>
    .pure _))
  obtain ⟨dst, a, hdst, ha⟩ := hpaid hpos
  exact .unwrap hdst (.unwrap ha (faultless_credit _ _ _ _))

/-- No assertion of a body fails where every channel is sound. -/
lemma noFault_dispatch (hs : ∀ (id : H) ch, s.channels[id]? = some ch → ch.Sound) (sender : H)
    (tx : Tx H) : (dispatch sender tx).NoFault s := by
  cases tx with
  | transfer dst asset amount => exact faultless_doTransfer _ _ _ _ s
  | accountCreate => exact faultless_doAccountCreate _ _ _ _ _ s
  | mandateCreate => exact faultless_doMandateCreate _ _ _ _ _ _ _ _ _ _ _ s
  | mandateSpend => exact noFault_doMandateSpend _ _ _ _
  | mandateRevoke => exact faultless_doMandateRevoke _ _ s
  | channelOpen => exact noFault_doChannelOpen _ _ _ _ _ _ _ _ _
  | channelSettle id word step => exact (safe_doChannelSettle (hs id) word step).1
  | channelRefund => exact faultless_doChannelRefund _ _ s
  | mintToPool => exact noFault_doMintToPool _ _ _ _ _
  | shieldedSpend => exact noFault_doShieldedSpend _ _ _ _ _ _ _ _ _
  | assetRegister =>
    exact .rejectIf fun _ => .rejectIf fun _ => .rejectIf fun _ => .get (.rejectIf fun _ =>
      .modify_bind (.pure _))
  | assetMint => exact noFault_doAssetMint _ _ _ _
  | assetBurn => exact noFault_doAssetBurn _ _ _ _
  | assetFreeze => exact .get (.ofExcept fun _ _ => .modify_bind (.pure _))
  | assetPause => exact .get (.ofExcept fun _ _ => .modify_bind (.pure _))

/-! ## The envelope -/

section Envelope

variable [TxCodec H]

omit [HashSuite H] [TxCodec H] in
/-- The balance is compared before the fee is charged. -/
lemma noFault_chargeFee (sender feeAsset : H) (fee : ℕ) :
    (chargeFee sender feeAsset fee).NoFault s := by
  refine .when fun _ => .get (.rejectIf fun hbal => ?_)
  have hpaid : ((debit sender feeAsset fee).expect : Exec (State H) StateError Unit) s =
      (.ok (), s.debited sender feeAsset fee) :=
    Exec.expect_eq_ok.mpr (debit_eq_ok.mpr ⟨not_lt.mp hbal, rfl⟩)
  exact .of_ok hpaid

/-- What a state has to meet for no transaction of an account to fail an assertion: its channels are
sound, and the nonce of the account has room. -/
structure Steady (s : State H) (sender : H) : Prop where
  channels : ∀ (id : H) ch, s.channels[id]? = some ch → ch.Sound
  nonce : ∀ acc : Account H, s.accounts[sender]? = some acc → acc.nonce + 1 ≤ u64Max

/-- The sender keeps its account through the body, so the ratchet finds it. -/
lemma Steady.noFault_applyTxAt {stx : SignedTx H} (hs : s.Steady stx.sender)
    (preSig : Option Bool) :
    (applyTxAt stx preSig).NoFault s := by
  refine .get (.okOr fun acc hacc => .rejectIf fun _ => .rejectIf fun _ => .rejectIf fun _ => ?_)
  refine .rejectIf fun _ => (noFault_chargeFee _ _ _).bind fun _ s₁ hfee => ?_
  obtain ⟨rfl, -⟩ := chargeFee_eq_ok hfee
  have hbody : (dispatch stx.sender stx.payload).NoFault (s.feeCharged stx.sender) := by
    refine noFault_dispatch (fun id ch hch => hs.channels id ch ?_) _ _
    rwa [channels_feeCharged] at hch
  refine (hbody.onErr (.when (faultless_credit _ _ _))).bind fun evs s₂ hdone => ?_
  have haccounts := accounts_dispatch (Exec.onErr_eq_ok.mp hdone)
  have hacc₂ : s₂.accounts[stx.sender]? = some acc := by
    have hfee : (s.feeCharged stx.sender).accounts = s.accounts := by rw [feeCharged_eq]
    rw [hfee] at haccounts
    rcases haccounts with hsame | ⟨id, auth, -, -, -, hnew, hins⟩
    · rwa [hsame]
    · rw [hins, OrderedMap.get_insert, if_neg, hacc]
      rintro rfl
      simp [hacc] at hnew
  refine Exec.NoFault.bind (.when fun _ => .modify _) fun _ s₃ hburn => ?_
  have hacc₃ : s₃.accounts[stx.sender]? = some acc := by
    rcases Exec.when_eq_ok.mp hburn with ⟨-, hmod⟩ | ⟨-, rfl⟩
    · obtain rfl := Exec.modify_eq_ok.mp hmod
      exact hacc₂
    · exact hacc₂
  have hnonce : checkedAdd u64Max acc.nonce 1 = some (acc.nonce + 1) :=
    checkedAdd_eq_some.mpr ⟨hs.nonce acc hacc, rfl⟩
  refine Exec.NoFault.bind ?_ fun _ _ _ => .pure _
  exact .get (.unwrap hacc₃ (.unwrap hnonce (.modify _)))

/-! ## Every reachable state -/

/-- Every state of a run is steady for an account that has room left in its nonce. -/
lemma steady_of_path {g : Genesis H} {s₀ s : State H} {ls : List (Elementary H)}
    (hinit : Initial g s₀) (hpath : Path ElemStep s₀ ls s) {sender : H}
    (hroom : successesOf sender ls + 1 ≤ u64Max) : s.Steady sender := by
  have halong : Path.Along ElemStep s₀ ls fun _ _ => True := fun _ _ _ _ _ => trivial
  have hbooks : ∀ id, ChannelBooks ls s id := by
    refine hpath.invariant_along (I := fun ls s => ∀ id, ChannelBooks ls s id) halong ?_
      fun _ _ _ _ h _ hstep => ChannelBooks.elemStep h hstep
    intro id
    simp [ChannelBooks, hinit.fresh.channels, eventSum]
  have hcounted : Counted ls s := by
    refine hpath.invariant_along (I := Counted) Path.along_mem ?_ fun _ _ _ _ h _ hs =>
      h.elemStep hs
    refine ⟨List.nodup_nil, by simp [succeeded], ?_, fun _ _ => rfl⟩
    intro id acc hacc
    rw [hinit.nonce_eq_zero hacc]
    rfl
  refine ⟨fun id ch hch => ?_, fun acc hacc => ?_⟩
  · have hbook := hbooks id
    unfold ChannelBooks at hbook
    rw [hch] at hbook
    exact hbook.1
  · rw [hcounted.nonce sender acc hacc]
    exact hroom

/-- **No transaction stops a node.**  In every state of every run from a genesis that the loader
accepts, between blocks and within one, a transaction is accepted or refused, whatever it carries
and whether its signature was checked before: no assertion of the state machine fails and no sum or
difference leaves its width, as long as the run has fewer than `2 ^ 64` transactions with this
one. -/
theorem applyTxAt_ne_fault {g : Genesis H} {s₀ s : State H} {ls : List (Elementary H)}
    (hinit : Initial g s₀) (hpath : Path ElemStep s₀ ls s)
    (hcount : (succeeded ls).length + 1 < 2 ^ 64) (stx : SignedTx H) (preSig : Option Bool) :
    (applyTxAt stx preSig s).1 ≠ .fault := by
  have hsuccesses : successesOf stx.sender ls ≤ (succeeded ls).length := List.countP_le_length
  have hroom : successesOf stx.sender ls + 1 ≤ u64Max := by
    unfold u64Max
    omega
  exact (steady_of_path hinit hpath hroom).noFault_applyTxAt preSig

end Envelope

end State

namespace Concrete

open State

/-- A transfer of more than is left after the fee, in the first block. -/
theorem overdraft_ne_fault :
    (applyTxAt overdraft none ((start feeGenesis config).openedAt 1 5)).1 ≠ .fault := by
  have hinit : Initial feeGenesis (start feeGenesis config) :=
    initial_start config (by decide +kernel)
  have hopen : ElemStep (start feeGenesis config) (.openBlock 1 5)
      ((start feeGenesis config).openedAt 1 5) := .openBlock (by decide +kernel) (by decide +kernel)
  exact applyTxAt_ne_fault hinit (.single hopen) (by change 0 + 1 < 2 ^ 64; norm_num) overdraft none

end Concrete

end HashKinetics
