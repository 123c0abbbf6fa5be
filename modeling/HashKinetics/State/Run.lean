import HashKinetics.State.Atomicity
import HashKinetics.Concrete
import HashKinetics.Foundations.Transition

/-!
# Runs of the chain

A node drives the state machine with blocks, each possibly preceded by the coverage of an aggregate
proof.  `BlockStep` is one such call.  It decomposes into elementary steps (`Elementary`): opening a
block, one successful transaction, sealing the block; a refused transaction is no step at all,
because it changes nothing.  Invariants are proved for elementary steps and hold in every state a
run of blocks reaches.
-/

namespace HashKinetics

open Foundations

/-- The elementary steps of a run. -/
inductive Elementary (H : Type) [LinearOrder H] where
  | openBlock (height time : ℕ)
  | tx (stx : SignedTx H) (events : List (Event H))
  | closeBlock
  | cover (keys : OrderedSet H)

/-- The transaction an elementary step applies, if it is one. -/
def Elementary.payload {H : Type} [LinearOrder H] : Elementary H → Option (Tx H)
  | .tx stx _ => some stx.payload
  | _ => none

/-- A block as a node applies it, with precomputed signature verdicts if there are any. -/
structure Block (H : Type) where
  height : ℕ
  time : ℕ
  txs : List (SignedTx H)
  verdicts : Option (List Bool)

namespace State

variable {H : Type} [LinearOrder H]

/-! ## The envelope of a successful transaction -/

section Envelope

variable [HashSuite H]

/-- The state after the envelope fee was charged. -/
def feeCharged (s : State H) (sender : H) : State H :=
  if 0 < s.envelopeFee then s.debited sender s.feeAsset s.envelopeFee else s

omit [HashSuite H] in
/-- Charging the fee touches nothing but one balance. -/
lemma feeCharged_eq (s : State H) (sender : H) :
    s.feeCharged sender = { s with balances := (s.feeCharged sender).balances } := by
  unfold feeCharged
  split_ifs <;> rfl

/-- The state after a fee was burned. -/
@[simps]
def feeBurned (s : State H) (fee : ℕ) : State H :=
  { s with feesBurned := if 0 < fee then satAdd u128Max s.feesBurned fee else s.feesBurned }

/-- What a successful envelope checked and did around the body of the transaction. -/
structure Enveloped [TxCodec H] (s : State H) (stx : SignedTx H) (preSig : Option Bool)
    (evs : List (Event H)) (s₁ s' : State H) : Prop where
  account : ∃ acc, s.accounts[stx.sender]? = some acc ∧ stx.nonce = acc.nonce ∧
    Lamport.pkCommit stx.lamportPk = acc.authCommit
  signature : preSig.getD (verifyEnvelope stx) = true
  fee : 0 < s.envelopeFee → s.envelopeFee ≤ s.balance stx.sender s.feeAsset
  body : dispatch stx.sender stx.payload (s.feeCharged stx.sender) = (.ok evs, s₁)
  ratchet : ∃ acc, s₁.accounts[stx.sender]? = some acc ∧ acc.nonce + 1 ≤ u64Max ∧
    s' = (s₁.feeBurned s.envelopeFee).setAccount stx.sender ⟨stx.nextAuth, acc.nonce + 1⟩

omit [HashSuite H] in
lemma chargeFee_eq_ok {s s' : State H} {sender : H} {u : Unit}
    (h : chargeFee sender s.feeAsset s.envelopeFee s = (.ok u, s')) :
    s' = s.feeCharged sender ∧
      (0 < s.envelopeFee → s.envelopeFee ≤ s.balance sender s.feeAsset) := by
  simp only [chargeFee, Exec.when_eq_ok, Exec.bind_eq_ok, Exec.get_eq_ok, Exec.rejectIf_eq_ok,
    Exec.expect_eq_ok, debit_eq_ok] at h
  unfold feeCharged
  rcases h with ⟨hpos, _, _, ⟨rfl, rfl⟩, _, _, ⟨-, rfl⟩, hbal, rfl⟩ | ⟨hzero, rfl⟩
  · exact ⟨(if_pos hpos).symm, fun _ => hbal⟩
  · exact ⟨(if_neg hzero).symm, fun hpos => absurd hpos hzero⟩

lemma applyTxAt_eq_ok [TxCodec H] {s s' : State H} {stx : SignedTx H} {preSig : Option Bool}
    {evs : List (Event H)} (h : applyTxAt stx preSig s = (.ok evs, s')) :
    ∃ s₁, Enveloped s stx preSig evs s₁ s' := by
  simp only [applyTxAt, Exec.get_bind_eq_ok, Exec.okOr_bind_eq_ok, Exec.rejectIf_bind_eq_ok,
    Exec.bind_eq_ok (x := chargeFee _ _ _), Exec.onErr_bind_eq_ok, Exec.when_bind_eq_ok,
    Exec.bind_eq_ok (x := ratchet _), Exec.modify_eq_ok, Exec.pure_eq_ok, not_not] at h
  obtain ⟨acc, hacc, hnonce, hauth, -, hsig, _, _, hfee, _, s₁, hbody, hburn⟩ := h
  obtain ⟨s₂, hs₂, _, _, hratchet, rfl, rfl⟩ : ∃ s₂, s₂ = s₁.feeBurned s.envelopeFee ∧
      ∃ a s₃, ratchet stx s₂ = (.ok a, s₃) ∧ _ = evs ∧ s₃ = s' := by
    rcases hburn with ⟨hpos, _, rfl, hrest⟩ | ⟨hzero, hrest⟩
    · exact ⟨_, by simp only [feeBurned, if_pos hpos], hrest⟩
    · exact ⟨_, by simp only [feeBurned, if_neg hzero], hrest⟩
  subst hs₂
  simp only [ratchet, Exec.get_bind_eq_ok, Exec.unwrap_bind_eq_ok, Exec.modify_eq_ok,
    checkedAdd_eq_some] at hratchet
  obtain ⟨acc', hacc', _, ⟨hmax, rfl⟩, rfl⟩ := hratchet
  obtain ⟨rfl, hcovers⟩ := chargeFee_eq_ok hfee
  exact ⟨s₁, ⟨⟨acc, hacc, hnonce, hauth⟩, by simpa using hsig, hcovers, hbody,
    ⟨acc', hacc', hmax, rfl⟩⟩⟩

/-- Without a fee, an honestly signed transaction does what its body does, and the sender's key is
ratcheted. -/
lemma applyTxAt_of_signAt [TxCodec H] [Inhabited H] {s s₁ : State H} {seed : List UInt8} {id : H} {nonce : ℕ}
    {payload : Tx H} {stx : SignedTx H} {evs : List (Event H)}
    (hsigned : signAt seed id nonce payload = some stx)
    (hacc : s.accounts[id]? = some ⟨commitAt seed nonce, nonce⟩) (hmax : nonce < u64Max)
    (hfree : s.feeMicro = 0) (hbody : dispatch id payload s = (.ok evs, s₁))
    (hkeep : s₁.accounts = s.accounts) :
    applyTxAt stx none s = (.ok evs, s₁.setAccount id ⟨commitAt seed (nonce + 1), nonce + 1⟩) := by
  have hverified := verifyEnvelope_signAt hsigned
  have hkey := pkCommit_of_signAt hsigned
  obtain ⟨digest, -, rfl⟩ := Option.map_eq_some_iff.mp hsigned
  have hfee : s.envelopeFee = 0 := by
    simp [envelopeFee, hfree]
  simp only [applyTxAt]
  simp [hacc, hkey, hverified, hfee, chargeFee, hbody, ratchet, hkeep, hmax]

end Envelope

/-! ## Amounts fit their width -/

/-- Every balance is a `u128`. -/
def Fits (s : State H) : Prop := ∀ id asset, s.balance id asset ≤ u128Max

lemma Fits.of_balances {s : State H} (h : s.Fits) (s' : State H)
    (hb : s'.balances = s.balances) : s'.Fits := by
  intro id asset
  unfold balance
  rw [hb]
  exact h id asset

/-- Writing a value that fits keeps every balance within its width. -/
lemma Fits.setBalance {s : State H} (h : s.Fits) {amount : ℕ} (hle : amount ≤ u128Max)
    (id asset : H) : (s.setBalance id asset amount).Fits := by
  intro id' asset'
  unfold balance
  rw [setBalance_balances, OrderedMap.get_insert]
  split_ifs
  · exact hle
  · exact h id' asset'

lemma Fits.debited {s : State H} (h : s.Fits) (id asset : H) (amount : ℕ) :
    (s.debited id asset amount).Fits :=
  h.setBalance ((Nat.sub_le _ _).trans (h id asset)) id asset

lemma Fits.credited {s : State H} (h : s.Fits) (id asset : H) (amount : ℕ) :
    (s.credited id asset amount).Fits :=
  h.setBalance (min_le_right _ _) id asset

section Genesis

variable [HashSuite H]

/-! ## Genesis -/

/-- A successful genesis load, phase by phase. -/
lemma fromGenesis_eq_ok {g : Genesis H} {s : State H} (h : fromGenesis g = .ok s) :
    ∃ s₁ s₂, g.accounts.foldlM addGenesisAccount { State.default with time := g.time } = .ok s₁ ∧
      g.assets.foldlM addGenesisAsset s₁ = .ok s₂ ∧
      (withGenesisFee (g.alloc.foldl allocate s₂) g.fee).badFeeAssetPolicy = false ∧
      s = { withGenesisFee (g.alloc.foldl allocate s₂) g.fee with
        pool := (withGenesisFee (g.alloc.foldl allocate s₂) g.fee).pool.sealAnchor } := by
  simp only [fromGenesis, bind, Except.bind] at h
  split at h
  · cases h
  next s₁ h₁ =>
  split at h
  · cases h
  next s₂ h₂ =>
  split at h
  · cases h
  next hpolicy =>
  cases h
  exact ⟨s₁, s₂, h₁, h₂, by simpa using hpolicy, rfl⟩

/-- Nothing but accounts, balances and the asset registry has been written. -/
structure Blank (s : State H) : Prop where
  height : s.height = 0
  mandates : s.mandates = ∅
  rootFunding : s.rootFunding = ∅
  channels : s.channels = ∅
  pool : s.pool = PoolState.default
  pools : s.pools = ∅
  aggCover : s.aggCover = ∅
  feesBurned : s.feesBurned = 0
  fits : s.Fits

lemma blank_default (time : ℕ) : Blank ({ State.default with time := time } : State H) := by
  refine ⟨rfl, rfl, rfl, rfl, rfl, rfl, rfl, rfl, fun id asset => ?_⟩
  have hnone : (∅ : OrderedMap (H ×ₗ H) ℕ)[toLex (id, asset)]? = none := by simp
  change (∅ : OrderedMap (H ×ₗ H) ℕ)[toLex (id, asset)]?.getD 0 ≤ _
  rw [hnone]
  exact Nat.zero_le _

lemma Blank.addGenesisAccount {s s' : State H} {ga : GenesisAccount H} (hb : Blank s)
    (h : s.addGenesisAccount ga = .ok s') : Blank s' := by
  unfold State.addGenesisAccount at h
  split at h
  · cases h
  cases h
  exact ⟨hb.height, hb.mandates, hb.rootFunding, hb.channels, hb.pool, hb.pools, hb.aggCover,
    hb.feesBurned, hb.fits.of_balances _ rfl⟩

lemma Blank.addGenesisAsset {s s' : State H} {ga : GenesisAsset H} (hb : Blank s)
    (h : s.addGenesisAsset ga = .ok s') : Blank s' := by
  unfold State.addGenesisAsset at h
  split at h
  · cases h
  split at h
  · cases h
  split at h
  · cases h
  cases h
  exact ⟨hb.height, hb.mandates, hb.rootFunding, hb.channels, hb.pool, hb.pools, hb.aggCover,
    hb.feesBurned, hb.fits.of_balances _ rfl⟩

lemma Blank.allocate {s : State H} (al : Allocation H) (hb : Blank s) : Blank (s.allocate al) := by
  have hc : Blank (s.credited al.account al.asset al.amount) :=
    ⟨hb.height, hb.mandates, hb.rootFunding, hb.channels, hb.pool, hb.pools, hb.aggCover,
      hb.feesBurned, hb.fits.credited _ _ _⟩
  unfold State.allocate
  split
  · exact ⟨hc.height, hc.mandates, hc.rootFunding, hc.channels, hc.pool, hc.pools, hc.aggCover,
      hc.feesBurned, hc.fits.of_balances _ rfl⟩
  · exact hc

lemma Blank.withGenesisFee {s : State H} (fee : Option (GenesisFee H)) (hb : Blank s) :
    Blank (s.withGenesisFee fee) := by
  cases fee with
  | none => exact hb
  | some f =>
    exact ⟨hb.height, hb.mandates, hb.rootFunding, hb.channels, hb.pool, hb.pools, hb.aggCover,
      hb.feesBurned, hb.fits.of_balances _ rfl⟩

/-- What a node starts from: a blank state with the empty root sealed as the first anchor. -/
structure Fresh (s : State H) : Prop where
  height : s.height = 0
  mandates : s.mandates = ∅
  rootFunding : s.rootFunding = ∅
  channels : s.channels = ∅
  pool : s.pool = PoolState.default.sealAnchor
  pools : s.pools = ∅
  aggCover : s.aggCover = ∅
  feesBurned : s.feesBurned = 0
  fits : s.Fits

lemma Initial.fresh {g : Genesis H} {s : State H} (h : Initial g s) : Fresh s := by
  obtain ⟨s₀, c, hg, rfl⟩ := h
  obtain ⟨s₁, s₂, h₁, h₂, -, rfl⟩ := fromGenesis_eq_ok hg
  have hb₁ : Blank s₁ := invariant_of_foldlM (fun _ _ _ hb h => hb.addGenesisAccount h)
    (blank_default g.time) h₁
  have hb₂ : Blank s₂ := invariant_of_foldlM (fun _ _ _ hb h => hb.addGenesisAsset h) hb₁ h₂
  have hb : Blank (State.withGenesisFee (g.alloc.foldl State.allocate s₂) g.fee) :=
    (invariant_of_foldl (fun _ al hb => Blank.allocate al hb) g.alloc hb₂).withGenesisFee g.fee
  refine ⟨hb.height, hb.mandates, hb.rootFunding, hb.channels, ?_, hb.pools, hb.aggCover,
    hb.feesBurned, hb.fits.of_balances _ rfl⟩
  change (State.withGenesisFee (g.alloc.foldl State.allocate s₂) g.fee).pool.sealAnchor = _
  rw [hb.pool]

end Genesis

section Steps

variable [HashSuite H]

/-- A transaction body only writes balances through debits and credits. -/
lemma Fits.dispatch {s s' : State H} {sender : H} {tx : Tx H} {evs : List (Event H)} (hf : s.Fits)
    (h : dispatch sender tx s = (.ok evs, s')) : s'.Fits := by
  cases tx with
  | transfer dst asset amount =>
    obtain ⟨-, -, -, -, rfl⟩ := doTransfer_eq_ok h
    exact (hf.debited _ _ _).credited _ _ _
  | mandateCreate id parent holder asset rate bufferMax perTxMax initial expiry tier =>
    obtain ⟨-, hc⟩ := doMandateCreate_eq_ok h
    rw [hc.result]
    cases parent <;> exact hf.of_balances _ rfl
  | mandateSpend leaf dst amount =>
    obtain ⟨asset, funder, chain, t, -, -, -, -, rfl⟩ := doMandateSpend_eq_ok h
    exact ((hf.of_balances (s.setMandates t) rfl).debited _ _ _).credited _ _ _
  | mandateRevoke target =>
    obtain ⟨node, -, -, -, rfl⟩ := doMandateRevoke_eq_ok h
    exact hf.of_balances _ rfl
  | channelOpen id mandate payee asset tip unitPrice maxSteps expiry =>
    obtain ⟨funder, chain, t, -, -, -, -, -, -, -, rfl⟩ := doChannelOpen_eq_ok h
    exact ((hf.of_balances (s.setMandates t) rfl).debited _ _ _).of_balances _ rfl
  | channelSettle id word step =>
    obtain ⟨ch, -, -, -, -, -, -, -, rfl⟩ := doChannelSettle_eq_ok h
    exact (hf.of_balances (s.setChannel _ _) rfl).credited _ _ _
  | channelRefund id =>
    obtain ⟨ch, -, -, -, -, -, -, rfl⟩ := doChannelRefund_eq_ok h
    exact (hf.of_balances (s.setChannel _ _) rfl).credited _ _ _
  | mintToPool asset value commitment proof ct =>
    obtain ⟨key, -, -, -, -, -, -, -, -, -, rfl⟩ := doMintToPool_eq_ok h
    exact (hf.debited _ _ _).of_balances _ rfl
  | shieldedSpend anchor nf out out2 fee creditTo mandate proof ct ct2 =>
    obtain ⟨key, pool, t, -, -, ⟨-, rfl⟩ | ⟨-, dst, asset, -, -, -, rfl⟩⟩ := doShieldedSpend_eq_ok h
    · exact hf.of_balances _ rfl
    · exact (hf.of_balances ((s.setMandates t).setPool key _) rfl).credited _ _ _
  | accountCreate id authCommit asset amount =>
    obtain ⟨-, -, -, ⟨-, rfl⟩ | ⟨-, -, -, rfl⟩⟩ := doAccountCreate_eq_ok h
    · exact hf.of_balances _ rfl
    · exact ((hf.debited _ _ _).of_balances ((s.debited _ _ _).setAccount _ _) rfl).credited
        _ _ _
  | assetRegister asset symbol decimals policy =>
    obtain ⟨-, -, -, rfl⟩ := doAssetRegister_eq_ok h
    exact hf.of_balances _ rfl
  | assetMint asset dst amount =>
    obtain ⟨info, -, -, -, -, -, -, -, rfl⟩ := doAssetMint_eq_ok h
    exact (hf.of_balances (s.setAsset _ _) rfl).credited _ _ _
  | assetBurn asset amount destination =>
    obtain ⟨info, -, -, -, -, -, rfl⟩ := doAssetBurn_eq_ok h
    exact (hf.debited _ _ _).of_balances _ rfl
  | assetFreeze asset account frozen =>
    obtain ⟨info, -, -, -, -, rfl⟩ := doAssetFreeze_eq_ok h
    exact hf.of_balances _ rfl
  | assetPause asset paused =>
    obtain ⟨info, -, -, -, -, rfl⟩ := doAssetPause_eq_ok h
    exact hf.of_balances _ rfl

omit [HashSuite H] in
lemma Fits.feeCharged {s : State H} (hf : s.Fits) (sender : H) : (s.feeCharged sender).Fits := by
  unfold State.feeCharged
  split_ifs
  · exact hf.debited _ _ _
  · exact hf

variable [TxCodec H]

lemma Fits.applyTxAt {s s' : State H} {stx : SignedTx H} {preSig : Option Bool}
    {evs : List (Event H)} (hf : s.Fits) (h : applyTxAt stx preSig s = (.ok evs, s')) :
    s'.Fits := by
  obtain ⟨s₁, henv⟩ := applyTxAt_eq_ok h
  obtain ⟨acc, -, -, rfl⟩ := henv.ratchet
  exact ((hf.feeCharged _).dispatch henv.body).of_balances _ rfl

/-! ## Refusals -/

omit [HashSuite H] [TxCodec H] in
/-- Giving the fee back restores the balances exactly: the entry existed, and its value fits. -/
lemma credited_debited {s : State H} (hf : s.Fits) {id asset : H} {fee : ℕ} (hpos : 0 < fee)
    (hbal : fee ≤ s.balance id asset) :
    (s.debited id asset fee).credited id asset fee = s := by
  have hget : s.balances[toLex (id, asset)]? = some (s.balance id asset) := by
    unfold balance at hbal ⊢
    cases h : s.balances[toLex (id, asset)]? with
    | none =>
      rw [h] at hbal
      exact absurd hbal (by simp only [Option.getD_none]; omega)
    | some v => rfl
  have hafter : (s.debited id asset fee).balance id asset = s.balance id asset - fee := by
    simp [debited, balance]
  have hsum : satAdd u128Max (s.balance id asset - fee) fee = s.balance id asset := by
    rw [satAdd_of_le] <;> have := hf id asset <;> omega
  unfold credited
  rw [hafter, hsum]
  simp only [debited, setBalance, OrderedMap.insert_insert_self, OrderedMap.insert_of_get _ hget]

/-- A refused transaction leaves the whole state as it was, the fee leg included. -/
lemma applyTxAt_restores {s : State H} (hf : s.Fits) (stx : SignedTx H) (preSig : Option Bool) :
    (applyTxAt stx preSig).Restores s s := by
  refine Exec.reads_get.atomic.restores s |>.bind fun _ _ h₁ => ?_
  obtain ⟨rfl, rfl⟩ := Exec.get_eq_ok.mp h₁
  refine (Exec.reads_okOr _ _).atomic.restores s |>.bind fun acc _ h₂ => ?_
  obtain ⟨-, rfl⟩ := Exec.okOr_eq_ok.mp h₂
  refine (Exec.reads_rejectIf _ _).atomic.restores s |>.bind fun _ _ h₃ => ?_
  obtain ⟨-, rfl⟩ := Exec.rejectIf_eq_ok.mp h₃
  refine (Exec.reads_rejectIf _ _).atomic.restores s |>.bind fun _ _ h₄ => ?_
  obtain ⟨-, rfl⟩ := Exec.rejectIf_eq_ok.mp h₄
  refine (Exec.reads_rejectIf _ _).atomic.restores s |>.bind fun _ _ h₅ => ?_
  obtain ⟨-, rfl⟩ := Exec.rejectIf_eq_ok.mp h₅
  refine (Exec.reads_rejectIf _ _).atomic.restores s |>.bind fun _ _ h₆ => ?_
  obtain ⟨-, rfl⟩ := Exec.rejectIf_eq_ok.mp h₆
  have hcharge : (chargeFee stx.sender s.feeAsset s.envelopeFee).Atomic :=
    Exec.Atomic.when (.get fun _ => .rejectIf fun _ => (Exec.infallible_expect _).atomic)
  refine (hcharge.restores s).bind fun _ _ h₇ => ?_
  obtain ⟨rfl, hbal⟩ := chargeFee_eq_ok h₇
  -- the body is atomic from the charged state, and the refund undoes the charge
  refine ((atomic_dispatch _ _).onErr ?_).bind fun _ _ _ => ?_
  · unfold feeCharged
    by_cases hpos : 0 < s.envelopeFee
    · simp only [Exec.when_eq_ok, hpos, if_true, credit_eq_ok, true_and]
      exact .inl (credited_debited hf hpos (hbal hpos))
    · simp [hpos]
  · refine Exec.Infallible.restores ?_ _ _
    refine (Exec.infallible_modify _).when.bind fun _ => Exec.Infallible.bind ?_ fun _ =>
      Exec.infallible_pure _
    exact Exec.infallible_get.bind fun _ => (Exec.infallible_unwrap _).bind fun _ =>
      (Exec.infallible_unwrap _).bind fun _ => Exec.infallible_modify _

/-! ## Precomputed signature verdicts -/

/-- A verdict that was computed ahead of time changes nothing. -/
lemma applyTxAt_verdict (stx : SignedTx H) :
    applyTxAt stx (some (verifyEnvelope stx)) = applyTxAt stx none := rfl

lemma applyTxs_verdicts (i : ℕ) (txs : List (SignedTx H)) :
    applyTxs i (withVerdicts txs (some (txs.map verifyEnvelope))) =
      applyTxs i (withVerdicts txs none) := by
  induction txs generalizing i with
  | nil => rfl
  | cons stx txs ih =>
    have hrest := ih (i + 1)
    simp only [withVerdicts, List.map_cons, List.zip_cons_cons, applyTxs] at hrest ⊢
    rw [applyTxAt_verdict, hrest]

/-- Verifying the signatures of a block ahead of time gives the receipts and the state of
`applyBlock`. -/
lemma applyBlockVerified_verdicts (height time : ℕ) (txs : List (SignedTx H)) :
    applyBlockVerified height time txs (some (txs.map verifyEnvelope)) =
      applyBlock height time txs := by
  have hlen : ((some (txs.map (verifyEnvelope (H := H)))).any fun v => v.length ≠ txs.length) =
    true ↔
      (none : Option (List Bool)).any (fun v => v.length ≠ txs.length) = true := by
    simp
  unfold applyBlock applyBlockVerified
  simp only [applyTxs_verdicts, Exec.rejectIf_congr hlen]

/-! ## Elementary steps and blocks -/

/-- One elementary step of the chain. -/
inductive ElemStep : State H → Elementary H → State H → Prop
  | openBlock {s : State H} {height time : ℕ} (hh : height = s.height + 1) (ht : s.time ≤ time) :
      ElemStep s (.openBlock height time) (s.openedAt height time)
  | tx {s s' : State H} {stx : SignedTx H} {preSig : Option Bool} {evs : List (Event H)}
      (h : applyTxAt stx preSig s = (.ok evs, s')) : ElemStep s (.tx stx evs) s'
  | closeBlock {s : State H} : ElemStep s .closeBlock s.sealBlock
  | cover {s : State H} (keys : OrderedSet H) : ElemStep s (.cover keys) (s.setBlockCoverage keys)

/-- The successful transactions of a block, with their events. -/
def successes (txs : List (SignedTx H)) (receipts : List (Receipt H)) : List (Elementary H) :=
  (txs.zip receipts).filterMap fun e =>
    match e.2.result with
    | .ok evs => some (.tx e.1 evs)
    | .error _ => none

/-- The elementary steps of an applied block. -/
def blockSteps (b : Block H) (receipts : List (Receipt H)) : List (Elementary H) :=
  .openBlock b.height b.time :: (successes b.txs receipts ++ [.closeBlock])

/-- One call of the node: install an aggregate's coverage, or hand in a block, which is applied or
refused as a whole. -/
inductive BlockStep : State H → List (Elementary H) → State H → Prop
  | cover {s : State H} (keys : OrderedSet H) : BlockStep s [.cover keys] (s.setBlockCoverage keys)
  | applied {s s' : State H} {b : Block H} {receipts : List (Receipt H)}
      (h : applyBlockVerified b.height b.time b.txs b.verdicts s = (.ok receipts, s')) :
      BlockStep s (blockSteps b receipts) s'
  | refused {s s' : State H} {b : Block H} {e : StateError}
      (h : applyBlockVerified b.height b.time b.txs b.verdicts s = (.err e, s')) :
      BlockStep s [] s'

omit [HashSuite H] [TxCodec H] in
/-- The transactions of a block's steps are transactions of the block. -/
lemma mem_txs_of_mem_blockSteps {b : Block H} {receipts : List (Receipt H)} {stx : SignedTx H}
    {evs : List (Event H)} (h : .tx stx evs ∈ blockSteps b receipts) : stx ∈ b.txs := by
  simp only [blockSteps, successes, List.mem_cons, reduceCtorEq, List.mem_append, List.not_mem_nil,
    or_false, false_or, List.mem_filterMap] at h
  obtain ⟨⟨stx', r⟩, hmem, hr⟩ := h
  cases hres : r.result with
  | error e => simp [hres] at hr
  | ok evs' =>
    simp only [hres, Option.some.injEq, Elementary.tx.injEq] at hr
    rw [← hr.1]
    exact (List.of_mem_zip hmem).1

omit [HashSuite H] [TxCodec H] in
/-- Coverage is installed between blocks. -/
lemma cover_notMem_blockSteps (b : Block H) (receipts : List (Receipt H)) (keys : OrderedSet H) :
    .cover keys ∉ blockSteps b receipts := by
  intro h
  simp only [blockSteps, successes, List.mem_cons, reduceCtorEq, List.mem_append, List.not_mem_nil,
    or_false, false_or, List.mem_filterMap] at h
  obtain ⟨⟨stx, r⟩, -, hr⟩ := h
  cases hres : r.result <;> simp [hres] at hr

/-- A block of honestly signed transactions, applied with the outcome that evaluation shows. -/
lemma blockStep_of_outcome {s : State H} {height time : ℕ} {txs : List (SignedTx H)}
    {receipts : List (Receipt H)} (hverified : txs.map verifyEnvelope = txs.map fun _ => true)
    (h : (applyBlockVerified height time txs (some (txs.map fun _ => true)) s).1 = .ok receipts) :
    BlockStep s (blockSteps ⟨height, time, txs, none⟩ receipts)
      (applyBlockVerified height time txs (some (txs.map fun _ => true)) s).2 := by
  refine .applied (b := ⟨height, time, txs, none⟩) ?_
  change applyBlock height time txs s = _
  rw [← applyBlockVerified_verdicts, hverified]
  exact Exec.eq_of_outcome h

/-- A block of verified transactions, all accepted, may be applied with its verdicts at hand. -/
lemma blockStep_of_verified (s : State H) (height time : ℕ) {txs : List (SignedTx H)}
    (hverified : txs.map verifyEnvelope = txs.map fun _ => true)
    (hok : (applyBlockVerified height time txs (some (txs.map fun _ => true)) s).1.okAnd
      (·.all Receipt.accepted) = true) :
    ∃ receipts, receipts.all Receipt.accepted = true ∧
      BlockStep s (blockSteps ⟨height, time, txs, none⟩ receipts)
        (applyBlockVerified height time txs (some (txs.map fun _ => true)) s).2 := by
  obtain ⟨receipts, haccepted, h⟩ := Exec.exists_of_okAnd hok
  exact ⟨receipts, haccepted, blockStep_of_outcome hverified (congrArg Prod.fst h)⟩

/-- A block of one accepted transaction. -/
lemma blockStep_singleton {s s₁ : State H} {stx : SignedTx H} {evs : List (Event H)}
    {height time : ℕ} (hheight : height = s.height + 1) (hmax : height ≤ u64Max)
    (htime : s.time ≤ time) (h : applyTxAt stx none (s.openedAt height time) = (.ok evs, s₁)) :
    BlockStep s (blockSteps ⟨height, time, [stx], none⟩ [⟨0, .ok evs⟩]) s₁.sealBlock := by
  subst hheight
  have hbelow : s.height < u64Max := hmax
  refine .applied (b := ⟨s.height + 1, time, [stx], none⟩) ?_
  simp [applyBlockVerified, hbelow, htime, withVerdicts, applyTxs, Exec.attempt_eq_ok, h,
    Except.mapError]

/-- The states that runs of a genesis reach. -/
def Reachable (g : Genesis H) (s : State H) : Prop :=
  ∃ s₀ steps, Initial g s₀ ∧ Path BlockStep s₀ steps s

/-- The states that a run passes through, between blocks and within one. -/
def Visited (g : Genesis H) (s : State H) : Prop :=
  ∃ s₀ ls, Initial g s₀ ∧ Path ElemStep s₀ ls s

/-- The label of a step determines where it leads: a precomputed verdict only gates a
transaction. -/
lemma elemStep_deterministic (s : State H) (l : Elementary H) (s₁ s₂ : State H)
    (h₁ : ElemStep s l s₁) (h₂ : ElemStep s l s₂) : s₁ = s₂ := by
  cases h₁ with
  | openBlock =>
    cases h₂
    rfl
  | tx h₁ =>
    cases h₂ with
    | tx h₂ =>
      obtain ⟨t₁, henv₁⟩ := applyTxAt_eq_ok h₁
      obtain ⟨t₂, henv₂⟩ := applyTxAt_eq_ok h₂
      obtain rfl : t₁ = t₂ := congrArg Prod.snd (henv₁.body.symm.trans henv₂.body)
      obtain ⟨acc₁, hacc₁, -, rfl⟩ := henv₁.ratchet
      obtain ⟨acc₂, hacc₂, -, rfl⟩ := henv₂.ratchet
      obtain rfl : acc₁ = acc₂ := Option.some.inj (hacc₁.symm.trans hacc₂)
      rfl
  | closeBlock =>
    cases h₂
    rfl
  | cover =>
    cases h₂
    rfl

lemma Fits.elemStep {s s' : State H} {l : Elementary H} (hf : s.Fits) (h : ElemStep s l s') :
    s'.Fits := by
  cases h with
  | openBlock => exact hf.of_balances _ rfl
  | tx h => exact hf.applyTxAt h
  | closeBlock => exact hf.of_balances _ rfl
  | cover => exact hf.of_balances _ rfl

/-- The transaction loop of a block runs through its successful transactions. -/
lemma path_of_applyTxs {s s' : State H} {i : ℕ} {txs : List (SignedTx H × Option Bool)}
    {receipts : List (Receipt H)} (hf : s.Fits) (h : applyTxs i txs s = (.ok receipts, s')) :
    Path ElemStep s (successes (txs.map Prod.fst) receipts) s' := by
  induction txs generalizing s i receipts with
  | nil =>
    simp only [applyTxs, Exec.pure_eq_ok] at h
    obtain ⟨-, rfl⟩ := h
    exact .nil
  | cons p rest ih =>
    obtain ⟨stx, preSig⟩ := p
    simp only [applyTxs, Exec.bind_eq_ok, Exec.pure_eq_ok] at h
    obtain ⟨r, s₁, htry, rs, _, hrest, rfl, rfl⟩ := h
    rcases Exec.attempt_eq_ok.mp htry with ⟨evs, rfl, htx⟩ | ⟨e, rfl, htx⟩
    · exact Path.cons (.tx htx) (ih (hf.applyTxAt htx) hrest)
    · -- a refusal is no step
      have hsame : s₁ = s := by
        have hr := applyTxAt_restores hf stx preSig e
        rw [htx] at hr
        exact hr rfl
      subst hsame
      exact ih hf hrest

lemma infallible_applyTxs (i : ℕ) (txs : List (SignedTx H × Option Bool)) :
    (applyTxs i txs).Infallible := by
  induction txs generalizing i with
  | nil => exact Exec.infallible_pure _
  | cons p rest ih =>
    exact (Exec.infallible_attempt _).bind fun _ => (ih _).bind fun _ => Exec.infallible_pure _

/-- A block that is refused as a whole changes nothing. -/
lemma atomic_applyBlockVerified (height time : ℕ) (txs : List (SignedTx H))
    (verdicts : Option (List Bool)) : (applyBlockVerified height time txs verdicts).Atomic := by
  refine Exec.Atomic.get fun _ => Exec.Atomic.bind_reads (Exec.reads_unwrap _) fun _ => ?_
  refine Exec.Atomic.rejectIf fun _ => .rejectIf fun _ => .rejectIf fun _ => ?_
  refine Exec.Infallible.atomic ((Exec.infallible_modify _).bind fun _ => ?_)
  exact (infallible_applyTxs _ _).bind fun _ => (Exec.infallible_modify _).bind fun _ =>
    Exec.infallible_pure _

omit [LinearOrder H] [HashSuite H] [TxCodec H] in
lemma map_fst_withVerdicts {txs : List (SignedTx H)} {verdicts : Option (List Bool)}
    (h : verdicts.any (fun v => v.length ≠ txs.length) ≠ true) :
    (withVerdicts txs verdicts).map Prod.fst = txs := by
  cases verdicts with
  | none => simp [withVerdicts, Function.comp_def]
  | some v =>
    have hlen : v.length = txs.length := by simpa using h
    exact List.map_fst_zip (by simp [hlen])

/-- What an applied block checked, and where its transactions and the sealing lead. -/
lemma applyBlockVerified_eq_ok {s s' : State H} {height time : ℕ} {txs : List (SignedTx H)}
    {verdicts : Option (List Bool)} {receipts : List (Receipt H)}
    (h : applyBlockVerified height time txs verdicts s = (.ok receipts, s')) :
    height = s.height + 1 ∧ s.time ≤ time ∧ (withVerdicts txs verdicts).map Prod.fst = txs ∧
      ∃ s₁, applyTxs 0 (withVerdicts txs verdicts) (s.openedAt height time) = (.ok receipts, s₁) ∧
        s' = s₁.sealBlock := by
  simp only [applyBlockVerified, Exec.get_bind_eq_ok, Exec.unwrap_bind_eq_ok,
    Exec.rejectIf_bind_eq_ok, Exec.modify_bind_eq_ok, Exec.bind_eq_ok (x := applyTxs _ _),
    Exec.pure_eq_ok, checkedAdd_eq_some, not_not] at h
  obtain ⟨_, ⟨-, rfl⟩, hheight, htime, hlen, rs, s₁, htxs, rfl, rfl⟩ := h
  exact ⟨hheight, not_lt.mp htime, map_fst_withVerdicts hlen, s₁, htxs, rfl⟩

/-- The only errors of a block are those of its height and its time. -/
lemma applyBlock_ne_err {s : State H} {height time : ℕ} (hheight : height = s.height + 1)
    (htime : s.time ≤ time) (txs : List (SignedTx H)) (e : StateError) :
    (applyBlock height time txs s).1 ≠ .err e := by
  have hrest : (Exec.modify (fun s : State H => s.openedAt height time) >>= fun _ =>
      applyTxs 0 (withVerdicts txs none) >>= fun receipts =>
        Exec.modify sealBlock >>= fun _ => pure receipts).Infallible := by
    refine (Exec.infallible_modify _).bind fun _ => (infallible_applyTxs _ _).bind fun _ => ?_
    exact (Exec.infallible_modify _).bind fun _ => Exec.infallible_pure _
  have hlen : ¬ (none : Option (List Bool)).any (fun v => v.length ≠ txs.length) = true := by simp
  intro herr
  simp only [applyBlock, applyBlockVerified, bind, Exec.bind, Exec.get, Exec.unwrap] at herr
  cases hnext : checkedAdd u64Max s.height 1 with
  | none =>
    rw [hnext] at herr
    cases herr
  | some next =>
    obtain ⟨-, rfl⟩ := checkedAdd_eq_some.mp hnext
    have hh : ¬ height ≠ s.height + 1 := not_not.mpr hheight
    simp only [hnext, Exec.rejectIf, hh, if_false, Nat.not_lt.mpr htime, hlen] at herr
    exact hrest s e herr

/-! ### What transactions leave alone -/

/-- The clock and the configuration. -/
def settings (s : State H) : Frame H := { s.frame with feesBurned := 0 }

omit [HashSuite H] [TxCodec H] in
lemma keeps_chargeFee (sender feeAsset : H) (fee : ℕ) :
    (chargeFee sender feeAsset fee).Keeps settings := by
  refine (Exec.Atomic.get fun _ => .rejectIf fun _ => (Exec.infallible_expect _).atomic).keeps ?_
    |>.when
  intro s u s' h
  simp only [Exec.get_bind_eq_ok, Exec.rejectIf_bind_eq_ok, Exec.expect_eq_ok, debit_eq_ok] at h
  obtain ⟨-, -, rfl⟩ := h
  rfl

omit [HashSuite H] [TxCodec H] in
lemma keeps_credit (id asset : H) (amount : ℕ) : (credit id asset amount).Keeps settings := by
  refine (infallible_credit id asset amount).atomic.keeps fun s u s' h => ?_
  obtain rfl := credit_eq_ok.mp h
  rfl

omit [TxCodec H] in
lemma keeps_dispatch (sender : H) (tx : Tx H) : (dispatch sender tx).Keeps settings := by
  refine (atomic_dispatch sender tx).keeps fun s evs s' h => ?_
  rw [settings, frame_dispatch h, settings]

omit [HashSuite H] [TxCodec H] in
lemma keeps_ratchet (stx : SignedTx H) : (ratchet stx).Keeps settings := by
  refine Exec.reads_get.keeps.bind fun _ => (Exec.reads_unwrap _).keeps.bind fun _ => ?_
  exact (Exec.reads_unwrap _).keeps.bind fun _ => Exec.keeps_modify fun _ => rfl

/-- No transaction, accepted or refused, touches the clock or the configuration. -/
lemma keeps_applyTxAt (stx : SignedTx H) (preSig : Option Bool) :
    (applyTxAt stx preSig).Keeps settings := by
  refine Exec.reads_get.keeps.bind fun s => (Exec.reads_okOr _ _).keeps.bind fun acc => ?_
  refine (Exec.reads_rejectIf _ _).keeps.bind fun _ => (Exec.reads_rejectIf _ _).keeps.bind fun _ =>
    ?_
  refine (Exec.reads_rejectIf _ _).keeps.bind fun _ => (Exec.reads_rejectIf _ _).keeps.bind fun _ =>
    ?_
  refine (keeps_chargeFee _ _ _).bind fun _ => ?_
  refine ((keeps_dispatch _ _).onErr (keeps_credit _ _ _).when).bind fun evs => ?_
  refine Exec.Keeps.bind (Exec.Keeps.when (Exec.keeps_modify fun _ => rfl)) fun _ => ?_
  exact (keeps_ratchet stx).bind fun _ => (Exec.reads_pure _).keeps

lemma keeps_applyTxs (i : ℕ) (txs : List (SignedTx H × Option Bool)) :
    (applyTxs i txs).Keeps settings := by
  induction txs generalizing i with
  | nil => exact (Exec.reads_pure _).keeps
  | cons p rest ih =>
    exact (keeps_applyTxAt _ _).attempt.bind fun _ => (ih _).bind fun _ => (Exec.reads_pure _).keeps

/-- A block sets the clock, ends the coverage and leaves the configuration alone. -/
lemma settings_applyBlockVerified {s s' : State H} {height time : ℕ} {txs : List (SignedTx H)}
    {verdicts : Option (List Bool)} {receipts : List (Receipt H)}
    (h : applyBlockVerified height time txs verdicts s = (.ok receipts, s')) :
    s'.settings = { s.settings with height := height, time := time, aggCover := ∅ } := by
  obtain ⟨-, -, -, s₁, htxs, rfl⟩ := applyBlockVerified_eq_ok h
  have hkept := (keeps_applyTxs _ _).eq_of_ok htxs
  calc s₁.sealBlock.settings = { s₁.settings with aggCover := ∅ } := rfl
    _ = { (s.openedAt height time).settings with aggCover := ∅ } := by rw [hkept]
    _ = { s.settings with height := height, time := time, aggCover := ∅ } := rfl

/-- A call of the node runs through elementary steps. -/
lemma path_of_blockStep {s s' : State H} {steps : List (Elementary H)} (hf : s.Fits)
    (h : BlockStep s steps s') : Path ElemStep s steps s' := by
  cases h with
  | cover keys => exact .single (.cover keys)
  | refused h =>
    have hr := atomic_applyBlockVerified _ _ _ _ s _ (congrArg Prod.fst h)
    rw [h] at hr
    subst hr
    exact .nil
  | @applied _ b receipts h =>
    obtain ⟨hheight, htime, hfst, s₁, htxs, rfl⟩ := applyBlockVerified_eq_ok h
    have hpath := path_of_applyTxs (hf.of_balances (s.openedAt b.height b.time) rfl) htxs
    rw [hfst] at hpath
    exact Path.cons (.openBlock hheight htime) (.snoc hpath .closeBlock)

/-- A run of blocks is a run of elementary steps. -/
lemma elemPath {s₀ s : State H} {steps : List (List (Elementary H))} (hf : s₀.Fits)
    (h : Path BlockStep s₀ steps s) : Path ElemStep s₀ steps.flatten s :=
  h.flatten (I := Fits) (fun _ _ _ hf h => path_of_blockStep hf h)
    (fun _ _ _ hf h => hf.elemStep h) hf

/-! ## Reachable states -/

/-- A state between two blocks is one the run passes through. -/
lemma Reachable.visited {g : Genesis H} {s : State H} (h : Reachable g s) : Visited g s := by
  obtain ⟨s₀, steps, hinit, hpath⟩ := h
  exact ⟨s₀, _, hinit, elemPath hinit.fresh.fits hpath⟩

/-- Every balance of every state of a run is a `u128`. -/
lemma Visited.fits {g : Genesis H} {s : State H} (h : Visited g s) : s.Fits := by
  obtain ⟨s₀, ls, hinit, hpath⟩ := h
  exact hpath.invariant hinit.fresh.fits fun _ _ _ _ hf hs => hf.elemStep hs

lemma Reachable.fits {g : Genesis H} {s : State H} (h : Reachable g s) : s.Fits :=
  h.visited.fits

/-- **A refused transaction changes nothing.**  In every state of a run, between blocks and within
one, a transaction that is refused leaves the whole state as it was, whether its signature was
checked before or not: balances with the fee leg, accounts with their nonces and commitments,
mandates, channels, assets and pools. -/
theorem state_eq_of_applyTx_err {g : Genesis H} {s s' : State H} {stx : SignedTx H}
    {preSig : Option Bool} {e : StateError} (hvisited : Visited g s)
    (h : applyTxAt stx preSig s = (.err e, s')) : s' = s := by
  have hrest := applyTxAt_restores hvisited.fits stx preSig e
  rw [h] at hrest
  exact hrest rfl

end Steps

end State

namespace Concrete

open State

/-- Two accounts, one with ten units of the fee asset, on a chain that charges a fee of one. -/
def feeGenesis : Genesis ℕ where
  time := 0
  accounts := [account 1, account 2]
  alloc := [⟨1, 9, 10⟩]
  fee := some ⟨1, 0, none⟩
  assets := []

/-- A transfer of more than is left after the fee. -/
def overdraft : SignedTx ℕ := signed [1] 1 0 (.transfer 2 9 10)

/-- In an open block the fee is charged, the transfer is refused, and the state is the one
before. -/
theorem overdraft_state_eq : ∃ s', applyTx overdraft ((start feeGenesis config).openedAt 1 5) =
    (.err (.insufficientBalance 9 10), s') ∧ s' = (start feeGenesis config).openedAt 1 5 := by
  have hinit : Initial feeGenesis (start feeGenesis config) :=
    initial_start config (by decide +kernel)
  have hopen : ElemStep (start feeGenesis config) (.openBlock 1 5)
      ((start feeGenesis config).openedAt 1 5) := .openBlock (by decide +kernel) (by decide +kernel)
  have herr : (applyTx overdraft ((start feeGenesis config).openedAt 1 5)).1 =
      .err (.insufficientBalance 9 10) := by
    rw [applyTx, ← applyTxAt_verdict, overdraft, verifyEnvelope_signed]
    decide +kernel
  have happly := Exec.eq_of_outcome herr
  exact ⟨_, happly, state_eq_of_applyTx_err ⟨_, _, hinit, .single hopen⟩ happly⟩

end Concrete

end HashKinetics
