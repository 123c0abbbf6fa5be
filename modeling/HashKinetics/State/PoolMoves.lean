import HashKinetics.State.Run

/-!
# How the shielded pools move

A transaction body leaves every pool alone, appends one commitment to the pool of the asset it
shields, or spends from the pool that its anchor names (`PoolMove`).  What is said about the pools
in the modules that follow starts from these three cases.
-/

namespace HashKinetics

open Foundations Circuit

/-- The commitments a transaction adds to the tree of its pool, in order. -/
def Tx.outputs {H : Type} : Tx H → List H
  | .mintToPool _ _ commitment _ _ => [commitment]
  | .shieldedSpend _ _ out out2 _ _ _ _ _ _ => [out, out2]
  | _ => []

namespace State

variable {H : Type} [LinearOrder H] [HashSuite H]

/-! ## Pools by key -/

omit [HashSuite H] in
lemma poolRef_setPool (s : State H) (key key' : PoolKey H) (p : PoolState H) :
    (s.setPool key p).poolRef key' = if key = key' then some p else s.poolRef key' := by
  cases key with
  | legacy => cases key' <;> simp [poolRef]
  | asset a =>
    cases key' with
    | legacy => simp [poolRef]
    | asset b => simp [poolRef, OrderedMap.get_insert]

omit [HashSuite H] in
/-- Only the pools count. -/
lemma poolRef_congr {s s' : State H} (hpool : s'.pool = s.pool) (hpools : s'.pools = s.pools)
    (key : PoolKey H) : s'.poolRef key = s.poolRef key := by
  cases key with
  | legacy => exact congrArg some hpool
  | asset a => exact congrArg (fun m : OrderedMap H (PoolState H) => m[a]?) hpools

lemma poolRef_sealBlock (s : State H) (key : PoolKey H) :
    s.sealBlock.poolRef key = (s.poolRef key).map PoolState.sealAnchor := by
  cases key with
  | legacy => rfl
  | asset a => simp [poolRef, sealBlock, Std.ExtTreeMap.getElem?_map]

/-- The pool a shield acts on is the one behind its key, or a new one. -/
lemma poolForMint_eq (s : State H) (key : PoolKey H) :
    s.poolRef key = some (s.poolForMint key) ∨
      s.poolRef key = none ∧ (s.poolForMint key).tree = .new := by
  cases key with
  | legacy => exact .inl rfl
  | asset a =>
    simp only [poolRef, poolForMint]
    cases h : s.pools[a]? with
    | some p => exact .inl rfl
    | none => exact .inr ⟨rfl, by rw [Option.getD_none, PoolState.sealAnchor_tree]; rfl⟩

omit [HashSuite H] in
/-- The anchor a spend names is an anchor of the pool it acts on. -/
lemma mem_anchors_of_poolKeyOfAnchor {s : State H} {anchor : H} {key : PoolKey H}
    {pool : PoolState H} (hkey : s.poolKeyOfAnchor anchor = some key)
    (hpool : s.poolRef key = some pool) : anchor ∈ pool.anchors := by
  unfold poolKeyOfAnchor at hkey
  split_ifs at hkey with hrecent
  · cases hkey
    cases hpool
    exact hrecent
  · obtain ⟨⟨a, p⟩, hfind, rfl⟩ := Option.map_eq_some_iff.mp hkey
    have hmem := List.mem_of_find?_eq_some hfind
    have hget : s.pools[a]? = some p := Std.ExtTreeMap.mem_toList_iff_getElem?_eq_some.mp hmem
    have hpool' : s.pools[a]? = some pool := hpool
    rw [hget] at hpool'
    cases hpool'
    have hdec := List.find?_some hfind
    exact of_decide_eq_true hdec

/-! ## One transaction -/

/-- What a transaction body does to the pools. -/
inductive PoolMove (s : State H) (sender : H) : Tx H → State H → Prop
  | idle {tx : Tx H} {s' : State H} (htx : tx.outputs = []) (hpool : s'.pool = s.pool)
      (hpools : s'.pools = s.pools) : PoolMove s sender tx s'
  | minted {asset commitment : H} {value : ℕ} {proof ct : List UInt8} {key : PoolKey H}
      {s' : State H} (hkey : s.poolKeyOfAsset asset = .ok key) (hrange : value ≤ u64Max)
      (hproved : s.mintProved proof (expectedMintPublic commitment value) = true)
      (hroom : (s.poolForMint key).tree.hasCapacity 1)
      (hset : ∀ key', s'.poolRef key' = (s.setPool key
        ((s.poolForMint key).minted asset commitment value)).poolRef key') :
      PoolMove s sender (.mintToPool asset value commitment proof ct) s'
  | spent {anchor nf out out2 : H} {fee : ℕ} {creditTo mandate : Option H}
      {proof ct ct2 : List UInt8} {key : PoolKey H} {pool : PoolState H} {t : MandateTree H}
      {s' : State H}
      (hun : Unshields s sender anchor nf out out2 fee creditTo mandate proof key pool t)
      (hset : ∀ key', s'.poolRef key' = (s.setPool key (pool.spent nf out out2 fee)).poolRef key') :
      PoolMove s sender (.shieldedSpend anchor nf out out2 fee creditTo mandate proof ct ct2) s'

lemma poolMove_dispatch {s s' : State H} {sender : H} {tx : Tx H} {evs : List (Event H)}
    (h : dispatch sender tx s = (.ok evs, s')) : PoolMove s sender tx s' := by
  cases tx with
  | transfer dst asset amount =>
    obtain ⟨-, -, -, -, rfl⟩ := doTransfer_eq_ok h
    exact .idle rfl rfl rfl
  | mandateCreate id parent holder asset rate bufferMax perTxMax initial expiry tier =>
    obtain ⟨-, hc⟩ := doMandateCreate_eq_ok h
    rw [hc.result]
    cases parent <;> exact .idle rfl rfl rfl
  | mandateSpend leaf dst amount =>
    obtain ⟨asset, funder, chain, t, -, -, -, -, rfl⟩ := doMandateSpend_eq_ok h
    exact .idle rfl rfl rfl
  | mandateRevoke target =>
    obtain ⟨node, -, -, -, rfl⟩ := doMandateRevoke_eq_ok h
    exact .idle rfl rfl rfl
  | channelOpen id mandate payee asset tip unitPrice maxSteps expiry =>
    obtain ⟨funder, chain, t, -, -, -, -, -, -, -, rfl⟩ := doChannelOpen_eq_ok h
    exact .idle rfl rfl rfl
  | channelSettle id word step =>
    obtain ⟨ch, -, -, -, -, -, -, -, rfl⟩ := doChannelSettle_eq_ok h
    exact .idle rfl rfl rfl
  | channelRefund id =>
    obtain ⟨ch, -, -, -, -, -, -, rfl⟩ := doChannelRefund_eq_ok h
    exact .idle rfl rfl rfl
  | mintToPool asset value commitment proof ct =>
    obtain ⟨key, hkey, -, hrange, -, -, hproved, -, hroom, -, rfl⟩ := doMintToPool_eq_ok h
    refine .minted hkey hrange hproved hroom fun key' => ?_
    simp only [poolRef_setPool]
    rfl
  | shieldedSpend anchor nf out out2 fee creditTo mandate proof ct ct2 =>
    obtain ⟨key, pool, t, hun, -, ⟨rfl, rfl⟩ | ⟨-, dst, asset, -, -, -, rfl⟩⟩ :=
      doShieldedSpend_eq_ok h
    · refine .spent hun fun key' => ?_
      simp only [poolRef_setPool]
      rfl
    · refine .spent hun fun key' => ?_
      rw [poolRef_setPool]
      exact poolRef_setPool (s.setMandates t) key key' _
  | accountCreate id authCommit asset amount =>
    obtain ⟨-, -, -, ⟨-, rfl⟩ | ⟨-, -, -, rfl⟩⟩ := doAccountCreate_eq_ok h
    · exact .idle rfl rfl rfl
    · exact .idle rfl rfl rfl
  | assetRegister asset symbol decimals policy =>
    obtain ⟨-, -, -, rfl⟩ := doAssetRegister_eq_ok h
    exact .idle rfl rfl rfl
  | assetMint asset dst amount =>
    obtain ⟨info, -, -, -, -, -, -, -, rfl⟩ := doAssetMint_eq_ok h
    exact .idle rfl rfl rfl
  | assetBurn asset amount destination =>
    obtain ⟨info, -, -, -, -, -, rfl⟩ := doAssetBurn_eq_ok h
    exact .idle rfl rfl rfl
  | assetFreeze asset account frozen =>
    obtain ⟨info, -, -, -, -, rfl⟩ := doAssetFreeze_eq_ok h
    exact .idle rfl rfl rfl
  | assetPause asset paused =>
    obtain ⟨info, -, -, -, -, rfl⟩ := doAssetPause_eq_ok h
    exact .idle rfl rfl rfl

/-- A proved shield of an unregistered asset into the legacy pool. -/
lemma doMintToPool_of_mintProved {s : State H} {sender asset commitment : H} {value : ℕ}
    {proof : List UInt8} (hpos : 0 < value) (hrange : value ≤ u64Max)
    (hasset : s.assets[asset]? = none) (hkey : s.poolKeyOfAsset asset = .ok .legacy)
    (hroom : s.pool.tree.hasCapacity 1)
    (hproved : s.mintProved proof (expectedMintPublic commitment value) = true)
    (hbalance : value ≤ s.balance sender asset) :
    doMintToPool sender asset value commitment proof s =
      (.ok [.poolMinted commitment value],
        (s.debited sender asset value).setPool .legacy (s.pool.minted asset commitment value)) := by
  have hmint : (s.debited sender asset value).pool.mint asset commitment value =
      some (s.pool.minted asset commitment value) := PoolState.mint_eq_some.mpr ⟨hroom, rfl⟩
  have hregistered : asset ∉ s.assets := by
    simpa using hasset
  simp [doMintToPool, hpos.ne', not_lt.mpr hrange, hregistered, hkey, hproved, hbalance,
    poolForMint, assetGate, poolRef, IncrementalTree.isFull, hroom, hmint]

/-- A proved withdrawal without a mandate. -/
lemma doShieldedSpend_withdraw {s : State H} {sender anchor nf out out2 dst a : H} {fee : ℕ}
    {proof : List UInt8} {key : PoolKey H} {pool : PoolState H} (hpos : 0 < fee)
    (hrange : fee ≤ u64Max) (hkey : s.poolKeyOfAnchor anchor = some key)
    (hpool : s.poolRef key = some pool) (hfresh : nf ∉ pool.nullifiers)
    (hroom : pool.tree.hasCapacity 2) (hasset : s.poolAsset key = some a)
    (hopen : s.assetGate a none (some dst) = .ok ())
    (hproved : s.spendProved proof (expectedSpendPublic anchor nf out out2 fee (some dst)) = true) :
    doShieldedSpend sender anchor nf out out2 fee (some dst) none proof s =
      (.ok [.poolSpent nf out out2 fee (some dst)],
        (s.setPool key (pool.spent nf out out2 fee)).credited dst a fee) := by
  have hspend := PoolState.spend_of_hasCapacity hroom nf out out2 fee
  simp [doShieldedSpend, checkSpendMandate, checkSpendMandateAsset, spendMandate, hkey, hpool,
    hfresh, hroom, hproved, hspend, hasset, hopen, hpos, not_lt.mpr hrange]

/-- What an accepted unshield checked does not depend on the balances. -/
lemma Unshields.of_balances {s s₀ : State H} {b : OrderedMap (H ×ₗ H) ℕ}
    {sender anchor nf out out2 : H} {fee : ℕ} {creditTo mandate : Option H} {proof : List UInt8}
    {key : PoolKey H} {pool : PoolState H} {t : MandateTree H}
    (h : Unshields s₀ sender anchor nf out out2 fee creditTo mandate proof key pool t)
    (hs : s₀ = { s with balances := b }) :
    Unshields s sender anchor nf out out2 fee creditTo mandate proof key pool t := by
  subst hs
  refine ⟨h.range, h.anchorKey, h.poolAt, h.fresh, h.room, h.proved, ?_⟩
  cases h.leg with
  | none => exact .none
  | some hnode hholder hfee hspent hasset => exact .some hnode hholder hfee hspent hasset

variable [TxCodec H]

/-- An accepted transaction moves the pools as its body does: the envelope writes one balance before
it and one account after it. -/
lemma poolMove_applyTxAt {s s' : State H} {stx : SignedTx H} {preSig : Option Bool}
    {evs : List (Event H)} (h : applyTxAt stx preSig s = (.ok evs, s')) :
    PoolMove s stx.sender stx.payload s' := by
  obtain ⟨s₁, henv⟩ := applyTxAt_eq_ok h
  obtain ⟨acc, -, -, rfl⟩ := henv.ratchet
  have hmove := poolMove_dispatch henv.body
  rw [feeCharged_eq] at hmove
  generalize stx.payload = tx at hmove ⊢
  cases hmove with
  | idle htx hpool hpools => exact .idle htx hpool hpools
  | minted hkey hrange hproved hroom hset =>
    refine .minted hkey hrange hproved hroom fun key' => (hset key').trans ?_
    simp only [poolRef_setPool]
    rfl
  | spent hun hset =>
    refine .spent (hun.of_balances rfl) fun key' => (hset key').trans ?_
    simp only [poolRef_setPool]
    rfl

/-- Opening and sealing a block and installing coverage keep the trees and the assets. -/
lemma poolRef_of_quiet {s s' : State H} {l : Elementary H} (h : ElemStep s l s')
    (hl : l.payload = none) {key : PoolKey H} {p' : PoolState H} (hp' : s'.poolRef key = some p') :
    ∃ p, s.poolRef key = some p ∧ p'.tree = p.tree ∧ p'.asset = p.asset := by
  cases h with
  | openBlock => exact ⟨p', by rwa [poolRef_congr rfl rfl] at hp', rfl, rfl⟩
  | tx h => cases hl
  | closeBlock =>
    rw [poolRef_sealBlock] at hp'
    obtain ⟨p, hp, rfl⟩ := Option.map_eq_some_iff.mp hp'
    exact ⟨p, hp, p.sealAnchor_tree, p.sealAnchor_asset⟩
  | cover keys => exact ⟨p', by rwa [poolRef_congr rfl rfl] at hp', rfl, rfl⟩

end State

end HashKinetics
