import HashKinetics.State.Run

/-!
# Conservation of value

For every asset, what the ledger accounts for — balances, channel escrow, shielded totals, burned
supply and burned fees — is what genesis allocated plus what was minted since.  The saturating
operations of the state machine never clamp on the way: everything accounted for stays below the
recorded supply, and the supply below `2^128`.
-/

namespace HashKinetics

open Foundations

variable {H : Type} [LinearOrder H]

/-- The part of `n` units of `asset` that counts toward asset `a`. -/
def amountIn (asset a : H) (n : ℕ) : ℕ := if asset = a then n else 0

@[simp] lemma amountIn_self (a : H) (n : ℕ) : amountIn a a n = n := if_pos rfl

@[simp] lemma amountIn_zero (asset a : H) : amountIn asset a 0 = 0 := ite_self 0

lemma amountIn_of_ne {asset a : H} (h : asset ≠ a) (n : ℕ) : amountIn asset a n = 0 := if_neg h

lemma amountIn_add (asset a : H) (n m : ℕ) :
    amountIn asset a (n + m) = amountIn asset a n + amountIn asset a m := by
  unfold amountIn
  split_ifs <;> rfl

/-- What genesis allocates of an asset. -/
def Genesis.allocated (g : Genesis H) (a : H) : ℕ :=
  (g.alloc.map fun al => amountIn al.asset a al.amount).sum

/-- What an event reports as newly minted of an asset. -/
def Event.minted (a : H) : Event H → ℕ
  | .assetMinted asset _ amount => amountIn asset a amount
  | _ => 0

/-- What a list of events reports as newly minted of an asset. -/
def mintedBy (evs : List (Event H)) (a : H) : ℕ := (evs.map (Event.minted a)).sum

/-- What an elementary step mints of an asset. -/
def Elementary.minted (a : H) : Elementary H → ℕ
  | .tx _ evs => mintedBy evs a
  | _ => 0

/-- What a run mints of an asset. -/
def mintedIn (steps : List (Elementary H)) (a : H) : ℕ := (steps.map (Elementary.minted a)).sum

/-- The anchor and the public fee of a shielded spend. -/
def Tx.unshield : Tx H → Option (H × ℕ)
  | .shieldedSpend anchor _ _ _ fee _ _ _ _ _ => some (anchor, fee)
  | _ => none

/-- The asset a transaction registers. -/
def Tx.registers : Tx H → Option H
  | .assetRegister asset _ _ _ => some asset
  | _ => none

namespace State

/-! ## What the ledger accounts for -/

/-- The sum of all account balances in an asset. -/
def heldIn (balances : OrderedMap (H ×ₗ H) ℕ) (a : H) : ℕ :=
  balances.total fun k v => amountIn (ofLex k).2 a v

/-- The escrow of all channels denominated in an asset. -/
def escrowIn (channels : OrderedMap H (Channel H)) (a : H) : ℕ :=
  channels.total fun _ ch => amountIn ch.state.asset a ch.escrowRemaining

/-- The share of an asset in the legacy pool. -/
def legacyIn (p : PoolState H) (a : H) : ℕ := if p.asset = some a then p.totalShielded else 0

/-- The total shielded in the further pool of an asset. -/
def poolIn (pools : OrderedMap H (PoolState H)) (a : H) : ℕ :=
  match pools[a]? with
  | some p => p.totalShielded
  | none => 0

/-- The burned supply of an asset. -/
def burnedIn (assets : OrderedMap H (AssetInfo H)) (a : H) : ℕ :=
  match assets[a]? with
  | some info => info.burned
  | none => 0

/-- Everything the ledger accounts for in an asset. -/
def accounted (s : State H) (a : H) : ℕ :=
  heldIn s.balances a + escrowIn s.channels a + (legacyIn s.pool a + poolIn s.pools a) +
    burnedIn s.assets a + amountIn s.feeAsset a s.feesBurned

/-- The recorded supply of a registered asset. -/
def supplyOf (s : State H) (a : H) : Option ℕ := s.assets[a]?.map AssetInfo.supply

/-! ## One write at a time -/

lemma heldIn_insert (m : OrderedMap (H ×ₗ H) ℕ) (id asset a : H) (v : ℕ) :
    heldIn (m.insert (toLex (id, asset)) v) a + amountIn asset a (m[toLex (id, asset)]?.getD 0) =
      heldIn m a + amountIn asset a v := by
  have htotal := OrderedMap.total_insert m (fun k v => amountIn (ofLex k).2 a v)
    (toLex (id, asset)) v
  have hweight : OrderedMap.weightAt m (fun k v => amountIn (ofLex k).2 a v) (toLex (id, asset)) =
      amountIn asset a (m[toLex (id, asset)]?.getD 0) := by
    cases h : m[toLex (id, asset)]? with
    | none => simp [OrderedMap.weightAt_of_get_none h]
    | some w => simp [OrderedMap.weightAt_of_get h]
  rw [hweight] at htotal
  exact htotal

/-- A balance is part of what the ledger accounts for. -/
lemma balance_le_accounted (s : State H) (id asset : H) :
    s.balance id asset ≤ s.accounted asset := by
  have hle := OrderedMap.weightAt_le_total s.balances (fun k v => amountIn (ofLex k).2 asset v)
    (toLex (id, asset))
  have hheld : s.balance id asset ≤ heldIn s.balances asset := by
    refine le_trans (le_of_eq ?_) hle
    unfold balance
    cases h : s.balances[toLex (id, asset)]? with
    | none => simp [OrderedMap.weightAt_of_get_none h]
    | some w => simp [OrderedMap.weightAt_of_get h]
  unfold accounted
  omega

lemma accounted_setBalance (s : State H) (id asset a : H) (v : ℕ) :
    (s.setBalance id asset v).accounted a + amountIn asset a (s.balance id asset) =
      s.accounted a + amountIn asset a v := by
  have h := heldIn_insert s.balances id asset a v
  simp only [accounted, setBalance, balance] at h ⊢
  omega

lemma accounted_debited {s : State H} {id asset : H} {amount : ℕ}
    (hle : amount ≤ s.balance id asset) (a : H) :
    (s.debited id asset amount).accounted a + amountIn asset a amount = s.accounted a := by
  have h := accounted_setBalance s id asset a (s.balance id asset - amount)
  have hsplit := amountIn_add asset a (s.balance id asset - amount) amount
  rw [Nat.sub_add_cancel hle] at hsplit
  unfold debited
  omega

lemma accounted_credited {s : State H} {asset : H} {amount : ℕ}
    (hle : s.accounted asset + amount ≤ u128Max) (id a : H) :
    (s.credited id asset amount).accounted a = s.accounted a + amountIn asset a amount := by
  have hbal := s.balance_le_accounted id asset
  have h := accounted_setBalance s id asset a (s.balance id asset + amount)
  have hsplit := amountIn_add asset a (s.balance id asset) amount
  rw [credited, satAdd_of_le (by omega)]
  omega

/-- A debit followed by a credit of the same amount moves value and keeps the account. -/
lemma accounted_moved {s : State H} {src dst asset : H} {amount : ℕ}
    (hfits : s.accounted asset ≤ u128Max) (hle : amount ≤ s.balance src asset) (a : H) :
    ((s.debited src asset amount).credited dst asset amount).accounted a = s.accounted a := by
  have hdebit := accounted_debited hle
  have hself := hdebit asset
  rw [amountIn_self] at hself
  rw [accounted_credited (by omega), hdebit]

lemma accounted_setChannel (s : State H) (chId : H) (ch : Channel H) (a : H) :
    (s.setChannel chId ch).accounted a +
        OrderedMap.weightAt s.channels (fun _ c =>
          amountIn c.state.asset a c.escrowRemaining) chId =
      s.accounted a + amountIn ch.state.asset a ch.escrowRemaining := by
  have h := OrderedMap.total_insert s.channels
    (fun _ c => amountIn c.state.asset a c.escrowRemaining) chId ch
  simp only [accounted, escrowIn, setChannel]
  omega

/-- The escrow of a new channel. -/
lemma accounted_setChannel_new {s : State H} {chId : H} (hnew : s.channels[chId]? = none)
    (ch : Channel H) (a : H) :
    (s.setChannel chId ch).accounted a =
      s.accounted a + amountIn ch.state.asset a ch.escrowRemaining := by
  have h := accounted_setChannel s chId ch a
  rwa [OrderedMap.weightAt_of_get_none hnew, Nat.add_zero] at h

/-- A payment out of the escrow of a channel. -/
lemma accounted_setChannel_paid {s : State H} {chId : H} {ch : Channel H} {paid : ℕ}
    (hch : s.channels[chId]? = some ch) (ch' : Channel H)
    (hasset : ch'.state.asset = ch.state.asset)
    (hpaid : ch'.escrowRemaining + paid = ch.escrowRemaining) (a : H) :
    (s.setChannel chId ch').accounted a + amountIn ch.state.asset a paid = s.accounted a := by
  have h := accounted_setChannel s chId ch' a
  rw [OrderedMap.weightAt_of_get hch, hasset, ← hpaid, amountIn_add] at h
  omega

lemma accounted_setAsset (s : State H) (asset : H) (info : AssetInfo H) (a : H) :
    (s.setAsset asset info).accounted a + amountIn asset a (burnedIn s.assets asset) =
      s.accounted a + amountIn asset a info.burned := by
  have h : burnedIn (s.assets.insert asset info) a + amountIn asset a (burnedIn s.assets asset) =
      burnedIn s.assets a + amountIn asset a info.burned := by
    unfold burnedIn amountIn
    rw [OrderedMap.get_insert]
    split_ifs with heq
    · subst heq
      exact Nat.add_comm _ _
    · rfl
  simp only [accounted, setAsset]
  omega

/-- Rewriting a registry entry without touching what was burned. -/
lemma accounted_setAsset_same {s : State H} {asset : H} {info : AssetInfo H}
    (h : info.burned = burnedIn s.assets asset) (a : H) :
    (s.setAsset asset info).accounted a = s.accounted a := by
  have hset := accounted_setAsset s asset info a
  rw [h] at hset
  omega

lemma burnedIn_of_get {assets : OrderedMap H (AssetInfo H)} {a : H} {info : AssetInfo H}
    (h : assets[a]? = some info) : burnedIn assets a = info.burned := by
  simp [burnedIn, h]

section Pools

variable [HashSuite H]

/-- A shield adds its value to the account of its asset. -/
lemma accounted_minted {s : State H} {asset : H} {value : ℕ} {key : PoolKey H}
    (hkey : s.poolKeyOfAsset asset = .ok key)
    (hvacant : s.pool.asset = none → s.pool.totalShielded = 0)
    (hfits : s.accounted asset + value ≤ u128Max) (commitment a : H) :
    (s.setPool key ((s.poolForMint key).minted asset commitment value)).accounted a =
      s.accounted a + amountIn asset a value := by
  rcases pinned_of_poolKeyOfAsset hkey with ⟨rfl, hnone⟩ | ⟨rfl, hsome⟩ | rfl
  · have hzero := hvacant hnone
    have hsat : satAdd u128Max s.pool.totalShielded value = value := by
      rw [hzero, satAdd_of_le (by omega), Nat.zero_add]
    simp only [accounted, setPool, poolForMint, PoolState.minted, legacyIn, hnone, Option.getD_none,
      hsat, amountIn, Option.some.injEq, reduceCtorEq, if_false]
    omega
  · have hle : s.pool.totalShielded ≤ s.accounted asset := by
      simp only [accounted, legacyIn, hsome, if_true]
      omega
    have hsat : satAdd u128Max s.pool.totalShielded value = s.pool.totalShielded + value :=
      satAdd_of_le (by omega)
    simp only [accounted, setPool, poolForMint, PoolState.minted, legacyIn, hsome, Option.getD_some,
      hsat, amountIn, Option.some.injEq]
    split_ifs <;> omega
  · have htotal : (s.poolForMint (.asset asset)).totalShielded = poolIn s.pools asset := by
      simp only [poolForMint, poolIn]
      cases s.pools[asset]? with
      | none => simp [PoolState.default]
      | some p => rfl
    have hle : poolIn s.pools asset ≤ s.accounted asset := by
      unfold accounted
      omega
    have hsat : satAdd u128Max (s.poolForMint (.asset asset)).totalShielded value =
        poolIn s.pools asset + value := by
      rw [htotal, satAdd_of_le (by omega)]
    have hpool : poolIn (s.pools.insert asset
        ((s.poolForMint (.asset asset)).minted asset commitment value)) a =
        poolIn s.pools a + amountIn asset a value := by
      unfold amountIn
      nth_rewrite 1 [poolIn]
      rw [OrderedMap.get_insert]
      split_ifs with heq
      · subst heq
        exact hsat
      · rfl
    simp only [accounted, setPool, hpool]
    omega

/-- A spend that its pool covers takes the fee from the account of the pool's asset. -/
lemma accounted_spent {s : State H} {key : PoolKey H} {pool : PoolState H} {fee : ℕ}
    (hpool : s.poolRef key = some pool) (hle : fee ≤ pool.totalShielded) {asset : H}
    (hasset : s.poolAsset key = some asset) (nf out out2 a : H) :
    (s.setPool key (pool.spent nf out out2 fee)).accounted a + amountIn asset a fee =
      s.accounted a := by
  cases key with
  | legacy =>
    cases hpool
    have hpinned : s.pool.asset = some asset := hasset
    simp only [accounted, setPool, PoolState.spent, legacyIn, hpinned, Option.some.injEq, amountIn]
    split_ifs <;> omega
  | asset b =>
    cases hasset
    have hget : s.pools[asset]? = some pool := hpool
    have hmove : poolIn (s.pools.insert asset (pool.spent nf out out2 fee)) a +
        amountIn asset a fee = poolIn s.pools a := by
      unfold poolIn amountIn
      rw [OrderedMap.get_insert]
      split_ifs with heq
      · subst heq
        simp only [hget, PoolState.spent]
        omega
      · rfl
    simp only [accounted, setPool]
    omega

/-- A shielded transfer moves nothing in or out of its pool. -/
lemma accounted_spent_zero {s : State H} {key : PoolKey H} {pool : PoolState H} {nf out out2 : H}
    (hpool : s.poolRef key = some pool) (a : H) :
    (s.setPool key (pool.spent nf out out2 0)).accounted a = s.accounted a := by
  cases key with
  | legacy =>
    cases hpool
    rfl
  | asset b =>
    have hget : s.pools[b]? = some pool := hpool
    have hmove : poolIn (s.pools.insert b (pool.spent nf out out2 0)) a = poolIn s.pools a := by
      unfold poolIn
      rw [OrderedMap.get_insert]
      split_ifs with heq
      · subst heq
        simp [hget, PoolState.spent]
      · rfl
    simp only [accounted, setPool, hmove]

/-! ## One transaction -/

/-- The spend of a pool is covered by what the pool holds. -/
def UnshieldCovered (s : State H) (tx : Tx H) : Prop :=
  ∀ anchor fee key pool, tx.unshield = some (anchor, fee) → s.poolKeyOfAnchor anchor = some key →
    s.poolRef key = some pool → fee ≤ pool.totalShielded

/-- What keeps the saturating operations exact: the account of an asset fits its width and stays
within the recorded supply, and a pool that was never pinned is empty. -/
structure Backed (s : State H) : Prop where
  fits : ∀ a, s.accounted a ≤ u128Max
  supply : ∀ a n, s.supplyOf a = some n → s.accounted a ≤ n
  vacant : s.pool.asset = none → s.pool.totalShielded = 0

/-- How a transaction may move the recorded supply of an asset: not at all, by minting within the
width, or by registering the asset. -/
inductive SupplyMove (registers : Prop) : Option ℕ → ℕ → Option ℕ → Prop
  | same (n : Option ℕ) : SupplyMove registers n 0 n
  | minted {n m : ℕ} (h : n + m ≤ u128Max) : SupplyMove registers (some n) m (some (n + m))
  | registered (h : registers) : SupplyMove registers none 0 (some 0)

/-- A transaction mints what its events say and otherwise only moves value. -/
structure Balanced (s : State H) (tx : Tx H) (evs : List (Event H)) (s' : State H) : Prop where
  accounted : ∀ a, s'.accounted a = s.accounted a + mintedBy evs a
  supply : ∀ a, SupplyMove (tx.registers = some a) (s.supplyOf a) (mintedBy evs a) (s'.supplyOf a)
  vacant : s'.pool.asset = none → s'.pool.totalShielded = 0

omit [HashSuite H] in
/-- A transaction that leaves the registry alone, mints nothing and keeps the account. -/
lemma Balanced.of_moves {s s' : State H} {tx : Tx H} {evs : List (Event H)}
    (hacc : ∀ a, s'.accounted a = s.accounted a) (hevs : ∀ a, mintedBy evs a = 0)
    (hassets : s'.assets = s.assets)
    (hvacant : s'.pool.asset = none → s'.pool.totalShielded = 0) : Balanced s tx evs s' where
  accounted a := by rw [hacc, hevs, Nat.add_zero]
  supply a := by
    have hsame : s'.supplyOf a = s.supplyOf a := by rw [supplyOf, supplyOf, hassets]
    rw [hsame, hevs]
    exact .same _
  vacant := hvacant

omit [HashSuite H] in
/-- Rewriting one registry entry moves the supply of that asset only. -/
lemma supplyOf_setAsset (s : State H) (asset : H) (info : AssetInfo H) (a : H) :
    (s.setAsset asset info).supplyOf a = if asset = a then some info.supply else s.supplyOf a := by
  unfold supplyOf
  rw [setAsset_assets, OrderedMap.get_insert]
  split_ifs <;> rfl

omit [HashSuite H] in
/-- A transaction that rewrites a registry entry, keeping its supply and mints nothing. -/
lemma SupplyMove.of_same {s : State H} {asset : H} {info info' : AssetInfo H} {p : Prop}
    (hinfo : s.assets[asset]? = some info) (hsupply : info'.supply = info.supply) (a : H) :
    SupplyMove p (s.supplyOf a) 0 ((s.setAsset asset info').supplyOf a) := by
  have hsame : (s.setAsset asset info').supplyOf a = s.supplyOf a := by
    rw [supplyOf_setAsset]
    split_ifs with h
    · subst h
      simp [supplyOf, hinfo, hsupply]
    · rfl
  rw [hsame]
  exact .same _

/-- **Every transaction balances.** -/
lemma balanced_dispatch {s s' : State H} {sender : H} {tx : Tx H} {evs : List (Event H)}
    (hb : Backed s) (hcov : UnshieldCovered s tx) (h : dispatch sender tx s = (.ok evs, s')) :
    Balanced s tx evs s' := by
  cases tx with
  | transfer dst asset amount =>
    obtain ⟨-, -, hbal, rfl, rfl⟩ := doTransfer_eq_ok h
    exact .of_moves (accounted_moved (hb.fits asset) hbal) (fun _ => rfl) rfl hb.vacant
  | mandateCreate id parent holder asset rate bufferMax perTxMax initial expiry tier =>
    obtain ⟨rfl, hc⟩ := doMandateCreate_eq_ok h
    rw [hc.result]
    cases parent <;> exact .of_moves (fun _ => rfl) (fun _ => rfl) rfl hb.vacant
  | mandateSpend leaf dst amount =>
    obtain ⟨asset, funder, chain, t, hdraw, -, -, rfl, rfl⟩ := doMandateSpend_eq_ok h
    exact .of_moves (accounted_moved (s := s.setMandates t) (hb.fits asset) hdraw.balance)
      (fun _ => rfl) rfl hb.vacant
  | mandateRevoke target =>
    obtain ⟨node, -, -, rfl, rfl⟩ := doMandateRevoke_eq_ok h
    exact .of_moves (fun _ => rfl) (fun _ => rfl) rfl hb.vacant
  | channelOpen id mandate payee asset tip unitPrice maxSteps expiry =>
    obtain ⟨funder, chain, t, hdraw, hnew, -, -, -, -, rfl, rfl⟩ := doChannelOpen_eq_ok h
    refine .of_moves (fun a => ?_) (fun _ => rfl) rfl hb.vacant
    rw [accounted_setChannel_new (s := (s.setMandates t).debited funder asset _) hnew]
    exact accounted_debited (s := s.setMandates t) hdraw.balance a
  | channelSettle id word step =>
    obtain ⟨ch, hch, -, -, -, hle, -, rfl, rfl⟩ := doChannelSettle_eq_ok h
    refine .of_moves (fun a => ?_) (fun _ => rfl) rfl hb.vacant
    have hpaid := accounted_setChannel_paid (s := s) hch
      ⟨{ ch.state with highestStepSettled := step }, _, ch.refunded⟩ rfl
      (Nat.sub_add_cancel hle)
    rw [accounted_credited, hpaid]
    have hself := hpaid ch.state.asset
    rw [amountIn_self] at hself
    exact hself.trans_le (hb.fits _)
  | channelRefund id =>
    obtain ⟨ch, hch, -, -, -, -, rfl, rfl⟩ := doChannelRefund_eq_ok h
    refine .of_moves (fun a => ?_) (fun _ => rfl) rfl hb.vacant
    have hpaid := accounted_setChannel_paid (s := s) hch ⟨ch.state, 0, true⟩ rfl
      (Nat.zero_add _)
    rw [accounted_credited, hpaid]
    have hself := hpaid ch.state.asset
    rw [amountIn_self] at hself
    exact hself.trans_le (hb.fits _)
  | mintToPool asset value commitment proof ct =>
    obtain ⟨key, hkey, -, -, -, -, -, hbal, -, rfl, rfl⟩ := doMintToPool_eq_ok h
    have hdebit := accounted_debited hbal
    have hself := hdebit asset
    rw [amountIn_self] at hself
    refine .of_moves (fun a => ?_) (fun _ => rfl) rfl fun hnone => ?_
    · have hmint := accounted_minted (s := s.debited sender asset value) hkey hb.vacant
        (hself.trans_le (hb.fits asset)) commitment a
      exact hmint.trans (hdebit a)
    · cases key with
      | legacy => cases hnone
      | asset b => exact hb.vacant hnone
  | shieldedSpend anchor nf out out2 fee creditTo mandate proof ct ct2 =>
    obtain ⟨key, pool, t, hun, rfl, hpaid⟩ := doShieldedSpend_eq_ok h
    have hle := hcov anchor fee key pool rfl hun.anchorKey hun.poolAt
    -- an unpinned legacy pool holds nothing, so nothing can leave it
    have hvacant : ((s.setMandates t).setPool key (pool.spent nf out out2 fee)).pool.asset = none →
        ((s.setMandates t).setPool key (pool.spent nf out out2 fee)).pool.totalShielded = 0 := by
      intro hnone
      cases key with
      | legacy =>
        obtain rfl : s.pool = pool := by simpa [poolRef] using hun.poolAt
        have hzero := hb.vacant hnone
        change s.pool.totalShielded - fee = 0
        omega
      | asset b => exact hb.vacant hnone
    rcases hpaid with ⟨rfl, rfl⟩ | ⟨-, dst, asset, -, hasset, -, rfl⟩
    · exact .of_moves (accounted_spent_zero (s := s.setMandates t) hun.poolAt) (fun _ => rfl) rfl
        hvacant
    · have hspent := accounted_spent (s := s.setMandates t) hun.poolAt hle hasset nf out out2
      have hself := hspent asset
      rw [amountIn_self] at hself
      refine .of_moves (fun a => ?_) (fun _ => rfl) rfl hvacant
      rw [accounted_credited (hself.trans_le (hb.fits asset))]
      exact hspent a
  | accountCreate id authCommit asset amount =>
    obtain ⟨-, -, rfl, ⟨-, rfl⟩ | ⟨-, -, hbal, rfl⟩⟩ := doAccountCreate_eq_ok h
    · exact .of_moves (fun _ => rfl) (fun _ => rfl) rfl hb.vacant
    · exact .of_moves (accounted_moved (hb.fits asset) hbal) (fun _ => rfl) rfl hb.vacant
  | assetRegister asset symbol decimals policy =>
    obtain ⟨-, hnew, rfl, rfl⟩ := doAssetRegister_eq_ok h
    refine ⟨fun a => ?_, fun a => ?_, hb.vacant⟩
    · exact accounted_setAsset_same (by simp [burnedIn, hnew]) a
    · rw [supplyOf_setAsset]
      split_ifs with heq
      · subst heq
        have hnone : s.supplyOf asset = none := by simp [supplyOf, hnew]
        rw [hnone]
        exact .registered rfl
      · exact .same _
  | assetMint asset dst amount =>
    obtain ⟨info, hinfo, -, -, -, -, hsum, rfl, rfl⟩ := doAssetMint_eq_ok h
    have hsupply : s.supplyOf asset = some info.supply := by simp [supplyOf, hinfo]
    have hset : ∀ a, (s.setAsset asset { info with supply := info.supply + amount }).accounted a =
        s.accounted a := accounted_setAsset_same (burnedIn_of_get hinfo).symm
    have hwithin := hb.supply asset _ hsupply
    refine ⟨fun a => ?_, fun a => ?_, hb.vacant⟩
    · rw [accounted_credited (by rw [hset]; omega), hset]
      simp [mintedBy, Event.minted]
    · change SupplyMove _ _ _ ((s.setAsset _ _).supplyOf a)
      rw [supplyOf_setAsset]
      split_ifs with heq
      · subst heq
        rw [hsupply]
        simpa [mintedBy, Event.minted] using SupplyMove.minted hsum
      · simpa [mintedBy, Event.minted, amountIn_of_ne heq] using SupplyMove.same _
  | assetBurn asset amount destination =>
    obtain ⟨info, hinfo, -, -, hbal, rfl, rfl⟩ := doAssetBurn_eq_ok h
    have hdebit := accounted_debited hbal
    have hself := hdebit asset
    rw [amountIn_self] at hself
    have hburned : burnedIn (s.debited sender asset amount).assets asset = info.burned :=
      burnedIn_of_get hinfo
    have hle : info.burned ≤ (s.debited sender asset amount).accounted asset := by
      rw [← hburned]
      unfold accounted
      omega
    have hsat : satAdd u128Max info.burned amount = info.burned + amount := by
      have hfits := hb.fits asset
      exact satAdd_of_le (by omega)
    rw [hsat]
    refine ⟨fun a => ?_, fun a => ?_, hb.vacant⟩
    · have hset := accounted_setAsset (s.debited sender asset amount) asset
        { info with burned := info.burned + amount } a
      have hmove := hdebit a
      rw [hburned, amountIn_add] at hset
      change _ = s.accounted a + 0
      omega
    · exact SupplyMove.of_same (s := s.debited sender asset amount) hinfo (by rfl) a
  | assetFreeze asset account frozen =>
    obtain ⟨info, hinfo, -, -, rfl, rfl⟩ := doAssetFreeze_eq_ok h
    exact ⟨accounted_setAsset_same (burnedIn_of_get hinfo).symm,
      fun a => .of_same hinfo (by rfl) a, hb.vacant⟩
  | assetPause asset paused =>
    obtain ⟨info, hinfo, -, -, rfl, rfl⟩ := doAssetPause_eq_ok h
    exact ⟨accounted_setAsset_same (burnedIn_of_get hinfo).symm,
      fun a => .of_same hinfo (by rfl) a, hb.vacant⟩

/-! ## The envelope -/

omit [HashSuite H] in
lemma accounted_feeCharged {s : State H} {sender : H}
    (hle : 0 < s.envelopeFee → s.envelopeFee ≤ s.balance sender s.feeAsset) (a : H) :
    (s.feeCharged sender).accounted a + amountIn s.feeAsset a s.envelopeFee = s.accounted a := by
  unfold feeCharged
  split_ifs with hpos
  · exact accounted_debited (hle hpos) a
  · rw [Nat.eq_zero_of_not_pos hpos, amountIn_zero, Nat.add_zero]

omit [HashSuite H] in
lemma accounted_feeBurned {s : State H} {fee : ℕ} (hle : s.feesBurned + fee ≤ u128Max) (a : H) :
    (s.feeBurned fee).accounted a = s.accounted a + amountIn s.feeAsset a fee := by
  have hburn : (if 0 < fee then satAdd u128Max s.feesBurned fee else s.feesBurned) =
      s.feesBurned + fee := by
    rw [satAdd_of_le hle]
    split_ifs <;> omega
  simp only [accounted, feeBurned, hburn, amountIn_add]
  omega

omit [HashSuite H] in
/-- The burned fees are part of what the ledger accounts for. -/
lemma feesBurned_le_accounted (s : State H) : s.feesBurned ≤ s.accounted s.feeAsset := by
  simp only [accounted, amountIn_self]
  omega

omit [HashSuite H] in
lemma Backed.feeCharged {s : State H} (hb : Backed s) {sender : H}
    (hle : 0 < s.envelopeFee → s.envelopeFee ≤ s.balance sender s.feeAsset) :
    Backed (s.feeCharged sender) := by
  have hacc := accounted_feeCharged hle
  refine ⟨fun a => ?_, fun a n hn => ?_, ?_⟩
  · exact (Nat.le.intro (hacc a)).trans (hb.fits a)
  · rw [feeCharged_eq] at hn
    exact (Nat.le.intro (hacc a)).trans (hb.supply a n hn)
  · rw [feeCharged_eq]
    exact hb.vacant

lemma balanced_applyTxAt [TxCodec H] {s s' : State H} {stx : SignedTx H} {preSig : Option Bool}
    {evs : List (Event H)} (hb : Backed s) (hcov : UnshieldCovered s stx.payload)
    (h : applyTxAt stx preSig s = (.ok evs, s')) : Balanced s stx.payload evs s' := by
  obtain ⟨s₁, henv⟩ := applyTxAt_eq_ok h
  obtain ⟨acc, -, -, rfl⟩ := henv.ratchet
  have hcharged := accounted_feeCharged henv.fee
  have hcov' : UnshieldCovered (s.feeCharged stx.sender) stx.payload := by
    rw [feeCharged_eq]
    exact hcov
  have hbody := balanced_dispatch (hb.feeCharged henv.fee) hcov' henv.body
  have hframe := frame_dispatch henv.body
  rw [feeCharged_eq] at hframe
  have hasset : s₁.feeAsset = s.feeAsset := congrArg Frame.feeAsset hframe
  have hburned : s₁.feesBurned = s.feesBurned := congrArg Frame.feesBurned hframe
  -- the fee left a balance, so it fits on top of the fees burned before
  have hroom : s₁.feesBurned + s.envelopeFee ≤ u128Max := by
    have hpart := feesBurned_le_accounted (s.feeCharged stx.sender)
    have htotal := hcharged s.feeAsset
    have hfits := hb.fits s.feeAsset
    rw [feeCharged_eq] at hpart
    rw [feeCharged_eq, amountIn_self] at htotal
    dsimp only at hpart
    omega
  refine ⟨fun a => ?_, fun a => ?_, hbody.vacant⟩
  · have hmove := hbody.accounted a
    have htotal := hcharged a
    change (s₁.feeBurned s.envelopeFee).accounted a = _
    rw [accounted_feeBurned hroom, hasset]
    omega
  · have hmove := hbody.supply a
    rw [feeCharged_eq] at hmove
    exact hmove

/-! ## Runs -/

/-- The ledger accounts for what genesis allocated and for what was minted since; the registry
records the same supply. -/
structure Conserved (g : Genesis H) (minted : H → ℕ) (s : State H) : Prop where
  accounted : ∀ a, s.accounted a = g.allocated a + minted a
  supply : ∀ a n, s.supplyOf a = some n → n = g.allocated a + minted a
  unregistered : ∀ a, s.supplyOf a = none → minted a = 0
  fits : ∀ a, g.allocated a + minted a ≤ u128Max
  vacant : s.pool.asset = none → s.pool.totalShielded = 0

omit [HashSuite H] in
lemma Conserved.backed {g : Genesis H} {minted : H → ℕ} {s : State H} (h : Conserved g minted s) :
    Backed s where
  fits a := (h.accounted a).trans_le (h.fits a)
  supply a n hn := by rw [h.accounted, h.supply a n hn]
  vacant := h.vacant

omit [HashSuite H] in
/-- A balanced transaction keeps the law, if it registers no asset that genesis allocated. -/
lemma Conserved.of_balanced {g : Genesis H} {minted : H → ℕ} {s s' : State H} {tx : Tx H}
    {evs : List (Event H)} (hc : Conserved g minted s) (hb : Balanced s tx evs s')
    (hreg : ∀ a, tx.registers = some a → g.allocated a = 0) :
    Conserved g (fun a => minted a + mintedBy evs a) s' := by
  have hcase : ∀ a, (s'.supplyOf a = s.supplyOf a ∧ mintedBy evs a = 0) ∨
      (∃ n, s.supplyOf a = some n ∧ n + mintedBy evs a ≤ u128Max ∧
        s'.supplyOf a = some (n + mintedBy evs a)) ∨
      (tx.registers = some a ∧ s.supplyOf a = none ∧ mintedBy evs a = 0 ∧
        s'.supplyOf a = some 0) := by
    intro a
    have hmove := hb.supply a
    revert hmove
    generalize s.supplyOf a = before, mintedBy evs a = m, s'.supplyOf a = after
    rintro (_ | hle | hr)
    · exact .inl ⟨rfl, rfl⟩
    · exact .inr (.inl ⟨_, rfl, hle, rfl⟩)
    · exact .inr (.inr ⟨hr, rfl, rfl, rfl⟩)
  refine ⟨fun a => ?_, fun a n hn => ?_, fun a hn => ?_, fun a => ?_, hb.vacant⟩
  · rw [hb.accounted, hc.accounted, Nat.add_assoc]
  · rcases hcase a with ⟨hsame, hm⟩ | ⟨n₀, hbefore, -, hafter⟩ | ⟨hr, hbefore, hm, hafter⟩
    · rw [hm, Nat.add_zero]
      exact hc.supply a n (hsame ▸ hn)
    · have hold := hc.supply a n₀ hbefore
      have hnew : n₀ + mintedBy evs a = n := by simpa [hafter] using hn
      omega
    · have hzero : 0 = n := by simpa [hafter] using hn
      rw [hreg a hr, hc.unregistered a hbefore, hm, ← hzero]
  · rcases hcase a with ⟨hsame, hm⟩ | ⟨n₀, -, -, hafter⟩ | ⟨-, -, -, hafter⟩
    · rw [hm, Nat.add_zero]
      exact hc.unregistered a (hsame ▸ hn)
    · rw [hafter] at hn
      cases hn
    · rw [hafter] at hn
      cases hn
  · rcases hcase a with ⟨-, hm⟩ | ⟨n₀, hbefore, hle, -⟩ | ⟨-, -, hm, -⟩
    · rw [hm]
      exact hc.fits a
    · have hold := hc.supply a n₀ hbefore
      omega
    · rw [hm]
      exact hc.fits a

omit [HashSuite H] in
/-- A step that touches neither balances, channels, registry nor shielded totals keeps the law. -/
lemma Conserved.of_same {g : Genesis H} {minted : H → ℕ} {s s' : State H}
    (hc : Conserved g minted s) (hacc : ∀ a, s'.accounted a = s.accounted a)
    (hassets : s'.assets = s.assets)
    (hvacant : s'.pool.asset = none → s'.pool.totalShielded = 0) : Conserved g minted s' where
  accounted a := (hacc a).trans (hc.accounted a)
  supply a n hn := hc.supply a n (by rwa [supplyOf, hassets] at hn)
  unregistered a hn := hc.unregistered a (by rwa [supplyOf, hassets] at hn)
  fits := hc.fits
  vacant := hvacant

/-- Sealing anchors moves no value. -/
lemma accounted_sealBlock (s : State H) (a : H) : s.sealBlock.accounted a = s.accounted a := by
  have hpools : poolIn (s.pools.map fun _ p => p.sealAnchor) a = poolIn s.pools a := by
    unfold poolIn
    rw [Std.ExtTreeMap.getElem?_map]
    cases s.pools[a]? <;> simp
  simp only [accounted, sealBlock, hpools, legacyIn, PoolState.sealAnchor_asset,
    PoolState.sealAnchor_totalShielded]

/-! ## Genesis -/

/-- What a list of allocations adds up to in an asset. -/
def allocSum (allocs : List (Allocation H)) (a : H) : ℕ :=
  (allocs.map fun al => amountIn al.asset a al.amount).sum

omit [HashSuite H] in
/-- An allocation counts toward the account of its asset and, if registered, toward its supply. -/
lemma allocate_spec {s : State H} {al : Allocation H}
    (hle : s.accounted al.asset + al.amount ≤ u128Max)
    (hsupply : ∀ a n, s.supplyOf a = some n → n = s.accounted a) :
    (∀ a, (s.allocate al).accounted a = s.accounted a + amountIn al.asset a al.amount) ∧
      ∀ a n, (s.allocate al).supplyOf a = some n → n = (s.allocate al).accounted a := by
  have hcredit := accounted_credited hle al.account
  unfold allocate
  cases hinfo : s.assets[al.asset]? with
  | none =>
    refine ⟨hcredit, fun a n hn => ?_⟩
    have hn' : s.supplyOf a = some n := hn
    have hne : al.asset ≠ a := by
      rintro rfl
      simp [supplyOf, hinfo] at hn'
    change n = (s.credited _ _ _).accounted a
    rw [hcredit, amountIn_of_ne hne, Nat.add_zero]
    exact hsupply a n hn'
  | some info =>
    have hold : info.supply = s.accounted al.asset := hsupply _ _ (by simp [supplyOf, hinfo])
    have hacc : ∀ a, ((s.credited al.account al.asset al.amount).setAsset al.asset
        { info with supply := satAdd u128Max info.supply al.amount }).accounted a =
        s.accounted a + amountIn al.asset a al.amount := fun a => by
      rw [accounted_setAsset_same, hcredit]
      exact (burnedIn_of_get hinfo).symm
    refine ⟨hacc, fun a n hn => ?_⟩
    dsimp only at hn ⊢
    rw [hacc]
    rw [supplyOf_setAsset] at hn
    split_ifs at hn with heq
    · subst heq
      rw [amountIn_self, ← hold, ← Option.some.inj hn, satAdd_of_le (by omega)]
    · rw [amountIn_of_ne heq, Nat.add_zero]
      exact hsupply a n hn

omit [HashSuite H] in
/-- The allocation loop. -/
lemma foldl_allocate_spec {allocs : List (Allocation H)} {s : State H}
    (hle : ∀ a, s.accounted a + allocSum allocs a ≤ u128Max)
    (hsupply : ∀ a n, s.supplyOf a = some n → n = s.accounted a) :
    (∀ a, (allocs.foldl allocate s).accounted a = s.accounted a + allocSum allocs a) ∧
      ∀ a n, (allocs.foldl allocate s).supplyOf a = some n →
        n = (allocs.foldl allocate s).accounted a := by
  induction allocs generalizing s with
  | nil => exact ⟨fun _ => rfl, hsupply⟩
  | cons al allocs ih =>
    have hcons : ∀ a, allocSum (al :: allocs) a = amountIn al.asset a al.amount +
      allocSum allocs a :=
      fun a => by simp [allocSum]
    have hfirst : s.accounted al.asset + al.amount ≤ u128Max := by
      have hall := hle al.asset
      rw [hcons, amountIn_self] at hall
      omega
    obtain ⟨hacc, hsup⟩ := allocate_spec hfirst hsupply
    obtain ⟨hacc', hsup'⟩ := ih (s := s.allocate al) (fun a => by
      have hall := hle a
      rw [hcons] at hall
      rw [hacc]
      omega) hsup
    refine ⟨fun a => ?_, hsup'⟩
    rw [List.foldl_cons, hacc', hacc, hcons, Nat.add_assoc]

/-- Before the allocations, no value exists. -/
structure Unfunded (s : State H) : Prop where
  balances : s.balances = ∅
  assets : ∀ (a : H) (info : AssetInfo H), s.assets[a]? = some info →
    info.supply = 0 ∧ info.burned = 0

omit [HashSuite H] in
lemma Unfunded.addGenesisAccount {s s' : State H} {ga : GenesisAccount H} (hu : Unfunded s)
    (h : s.addGenesisAccount ga = .ok s') : Unfunded s' := by
  unfold State.addGenesisAccount at h
  split at h
  · cases h
  cases h
  exact ⟨hu.balances, hu.assets⟩

omit [HashSuite H] in
lemma Unfunded.addGenesisAsset {s s' : State H} {ga : GenesisAsset H} (hu : Unfunded s)
    (h : s.addGenesisAsset ga = .ok s') : Unfunded s' := by
  unfold State.addGenesisAsset at h
  split at h
  · cases h
  split at h
  · cases h
  split at h
  · cases h
  cases h
  refine ⟨hu.balances, fun a info hinfo => ?_⟩
  rw [setAsset_assets, OrderedMap.get_insert] at hinfo
  split_ifs at hinfo
  · cases hinfo
    exact ⟨rfl, rfl⟩
  · exact hu.assets a info hinfo

lemma Unfunded.accounted {s : State H} (hu : Unfunded s) (hb : Blank s) (a : H) :
    s.accounted a = 0 := by
  have hburned : burnedIn s.assets a = 0 := by
    unfold burnedIn
    cases hinfo : s.assets[a]? with
    | none => rfl
    | some info => exact (hu.assets a info hinfo).2
  have hpools : poolIn s.pools a = 0 := by
    simp [poolIn, hb.pools]
  simp [State.accounted, heldIn, escrowIn, legacyIn, hburned, hpools, hu.balances, hb.channels,
    hb.pool, hb.feesBurned, PoolState.default]

/-- A node starts with what genesis allocates. -/
lemma Initial.conserved {g : Genesis H} {s : State H} (hfits : ∀ a, g.allocated a ≤ u128Max)
    (h : Initial g s) : Conserved g (fun _ => 0) s := by
  have hpool := h.fresh.pool
  obtain ⟨s₀, c, hg, rfl⟩ := h
  obtain ⟨s₁, s₂, h₁, h₂, -, rfl⟩ := fromGenesis_eq_ok hg
  have hb₁ : Blank s₁ := invariant_of_foldlM (fun _ _ _ hb h => hb.addGenesisAccount h)
    (blank_default g.time) h₁
  have hb₂ : Blank s₂ := invariant_of_foldlM (fun _ _ _ hb h => hb.addGenesisAsset h) hb₁ h₂
  have hu₀ : Unfunded ({ State.default with time := g.time } : State H) :=
    ⟨rfl, fun a info hinfo => by simp [State.default] at hinfo⟩
  have hu₁ : Unfunded s₁ := invariant_of_foldlM (fun _ _ _ hu h => hu.addGenesisAccount h) hu₀ h₁
  have hu₂ : Unfunded s₂ := invariant_of_foldlM (fun _ _ _ hu h => hu.addGenesisAsset h) hu₁ h₂
  have hzero := hu₂.accounted hb₂
  have hroom : ∀ a, s₂.accounted a + allocSum g.alloc a ≤ u128Max := by
    intro a
    rw [hzero, Nat.zero_add]
    exact hfits a
  have hempty : ∀ a n, s₂.supplyOf a = some n → n = s₂.accounted a := by
    intro a n hn
    obtain ⟨info, hinfo, rfl⟩ := Option.map_eq_some_iff.mp hn
    rw [hzero, (hu₂.assets a info hinfo).1]
  obtain ⟨hacc, hsup⟩ := foldl_allocate_spec hroom hempty
  have hb : Blank (g.alloc.foldl allocate s₂) :=
    invariant_of_foldl (fun _ al hb => Blank.allocate al hb) g.alloc hb₂
  set s := g.alloc.foldl allocate s₂
  -- the fee policy and the configuration hold no value, and no fee has been burned yet
  have hacc' : ∀ a, (State.configured { s.withGenesisFee g.fee with
      pool := (s.withGenesisFee g.fee).pool.sealAnchor } c).accounted a = g.allocated a := by
    intro a
    have hs : s.accounted a = g.allocated a := by rw [hacc, hzero, Nat.zero_add]; rfl
    rw [← hs]
    cases g.fee <;>
      simp [State.accounted, configured, withGenesisFee, legacyIn, hb.feesBurned]
  have hsup' : ∀ a, (State.configured { s.withGenesisFee g.fee with
      pool := (s.withGenesisFee g.fee).pool.sealAnchor } c).supplyOf a = s.supplyOf a := by
    intro a
    cases g.fee <;> rfl
  refine ⟨hacc', fun a n hn => ?_, fun _ _ => rfl, hfits, fun _ => ?_⟩
  · rw [hsup'] at hn
    rw [hsup a n hn, hacc, hzero]
    exact Nat.zero_add _
  · rw [hpool]
    exact PoolState.sealAnchor_totalShielded _

/-! ## The conservation view -/

omit [HashSuite H] in
/-- The conservation view of a registered asset agrees with its supply: what is held, escrowed and
shielded is what was issued less what was burned. -/
lemma Conserved.assetConservation {g : Genesis H} {minted : H → ℕ} {s : State H}
    (hc : Conserved g minted s) {a : H} {info : AssetInfo H} (hinfo : s.assets[a]? = some info) :
    ∃ n, s.assetConservation a = some (n, n) := by
  have hacc := hc.accounted a
  have hfits := hc.fits a
  have hsupply : info.supply = g.allocated a + minted a :=
    hc.supply a _ (by simp [supplyOf, hinfo])
  rw [← hsupply] at hacc hfits
  simp only [State.accounted, burnedIn_of_get hinfo] at hacc
  have hheld := foldl_satAdd_of_le (m := u128Max) (fun e : (H ×ₗ H) × ℕ => (ofLex e.1).2 = a)
    Prod.snd s.balances.toList 0
  have hescrow := foldl_satAdd_of_le (m := u128Max) (fun e : H × Channel H => e.2.state.asset = a)
    (fun e => e.2.escrowRemaining) s.channels.toList (heldIn s.balances a)
  change 0 + heldIn s.balances a ≤ _ → _ = 0 + heldIn s.balances a at hheld
  change heldIn s.balances a + escrowIn s.channels a ≤ _ →
    _ = heldIn s.balances a + escrowIn s.channels a at hescrow
  refine ⟨heldIn s.balances a + escrowIn s.channels a + (legacyIn s.pool a + poolIn s.pools a), ?_⟩
  simp only [State.assetConservation, hinfo]
  rw [hheld (by omega), Nat.zero_add, hescrow (by omega)]
  congr 2
  · have hlegacy : (if s.pool.asset = some a then
        satAdd u128Max (heldIn s.balances a + escrowIn s.channels a) s.pool.totalShielded
        else heldIn s.balances a + escrowIn s.channels a) =
        heldIn s.balances a + escrowIn s.channels a + legacyIn s.pool a := by
      unfold legacyIn at hacc ⊢
      split_ifs at hacc ⊢
      · exact satAdd_of_le (by omega)
      · rfl
    rw [hlegacy, ← Nat.add_assoc]
    unfold poolIn at hacc ⊢
    cases hp : s.pools[a]? with
    | none => rfl
    | some p =>
      simp only [hp] at hacc
      exact satAdd_of_le (by omega)
  · unfold amountIn at hacc
    by_cases hfee : a = s.feeAsset
    · rw [if_pos hfee.symm] at hacc
      rw [if_pos hfee]
      omega
    · rw [if_neg (Ne.symm hfee)] at hacc
      rw [if_neg hfee]
      omega

variable [TxCodec H]

/-- Every elementary step keeps the law. -/
lemma Conserved.elemStep {g : Genesis H} {minted : H → ℕ} {s s' : State H} {l : Elementary H}
    (hc : Conserved g minted s) (hcov : ∀ tx, l.payload = some tx → UnshieldCovered s tx)
    (hreg : ∀ tx a, l.payload = some tx → tx.registers = some a → g.allocated a = 0)
    (h : ElemStep s l s') : Conserved g (fun a => minted a + l.minted a) s' := by
  cases h with
  | openBlock => exact hc.of_same (fun _ => rfl) rfl hc.vacant
  | tx h => exact hc.of_balanced (balanced_applyTxAt hc.backed (hcov _ rfl) h) (hreg _ · rfl)
  | closeBlock =>
    refine hc.of_same s.accounted_sealBlock rfl fun hnone => ?_
    simp only [sealBlock, PoolState.sealAnchor_asset, PoolState.sealAnchor_totalShielded] at hnone ⊢
    exact hc.vacant hnone
  | cover => exact hc.of_same (fun _ => rfl) rfl hc.vacant

/-- **Value is conserved.**  From any genesis whose allocations fit, along any run of blocks that
registers no asset genesis allocated and whose unshields their pools cover, the ledger accounts for
exactly what genesis allocated and what was minted; the conservation view of every registered asset
shows an equal pair. -/
theorem accounted_eq_allocated_add_minted {g : Genesis H} {s₀ s : State H}
    {steps : List (List (Elementary H))} (hfits : ∀ a, g.allocated a < 2 ^ 128)
    (hinit : Initial g s₀) (hpath : Path BlockStep s₀ steps s)
    (hreg : ∀ l ∈ steps.flatten, ∀ tx a, l.payload = some tx → tx.registers = some a →
      g.allocated a = 0)
    (hcov : Path.Along ElemStep s₀ steps.flatten fun s l =>
      ∀ tx, l.payload = some tx → UnshieldCovered s tx) :
    (∀ a, s.accounted a = g.allocated a + mintedIn steps.flatten a) ∧
      ∀ a, s.assets.contains a = true → ∃ n, s.assetConservation a = some (n, n) := by
  have hstart := hinit.conserved fun a => Nat.le_of_lt_succ (hfits a)
  have halong : Path.Along ElemStep s₀ steps.flatten fun s l =>
      (∀ tx, l.payload = some tx → UnshieldCovered s tx) ∧
        ∀ tx a, l.payload = some tx → tx.registers = some a → g.allocated a = 0 :=
    fun pre l s hpre hp => ⟨hcov pre l s hpre hp, hreg l (hpre.subset (by simp))⟩
  have hc : Conserved g (mintedIn steps.flatten) s := by
    refine (elemPath hinit.fresh.fits hpath).invariant_along
      (I := fun ls s => Conserved g (mintedIn ls) s) halong hstart ?_
    rintro pre l s s' hc ⟨hcov, hreg⟩ hstep
    have hsum : mintedIn (pre ++ [l]) = fun a => mintedIn pre a + l.minted a := by
      funext a
      simp [mintedIn]
    rw [hsum]
    exact hc.elemStep hcov hreg hstep
  refine ⟨hc.accounted, fun a ha => ?_⟩
  obtain ⟨info, hinfo⟩ := Option.isSome_iff_exists.mp
    ((Std.ExtTreeMap.contains_eq_isSome_getElem? (t := s.assets)).symm.trans ha)
  exact hc.assetConservation hinfo

end Pools

end State

namespace Concrete

open State

/-- Ten units of the fee asset, and a mintable asset issued by account one. -/
def mintGenesis : Genesis ℕ where
  time := 0
  accounts := [account 1, account 2]
  alloc := [⟨1, 9, 10⟩]
  fee := some ⟨1, 0, none⟩
  assets := [⟨5, "USD", 2, 1, ⟨true, false, false, false⟩⟩]

/-- Account one mints seven units of its asset to account two. -/
def mintBlock : List (SignedTx ℕ) := [signed [1] 1 0 (.assetMint 5 2 7)]

theorem mintBlock_conserves : ∃ steps s, Path BlockStep (start mintGenesis config) steps s ∧
    (∀ a, s.accounted a = mintGenesis.allocated a + mintedIn steps.flatten a) ∧
      ∀ a, s.assets.contains a = true → ∃ n, s.assetConservation a = some (n, n) := by
  have hinit : Initial mintGenesis (start mintGenesis config) :=
    initial_start config (by decide +kernel)
  have hverified : mintBlock.map verifyEnvelope = mintBlock.map fun _ => true := by
    simp [mintBlock, verifyEnvelope_signed]
  obtain ⟨receipts, -, hstep⟩ := blockStep_of_verified (start mintGenesis config) 1 0 hverified
    (by decide +kernel)
  have hpayload : ∀ l ∈ blockSteps ⟨1, 0, mintBlock, none⟩ receipts, ∀ tx, l.payload = some tx →
      tx = .assetMint 5 2 7 := by
    rintro (_ | ⟨stx, evs⟩ | _ | _) hl tx htx
    case tx =>
      have hmem := mem_txs_of_mem_blockSteps hl
      rw [List.mem_singleton.mp hmem] at htx
      cases htx
      rfl
    all_goals cases htx
  refine ⟨_, _, .single hstep, accounted_eq_allocated_add_minted (fun a => ?_) hinit (.single hstep)
    ?_ (.of_forall_mem ?_)⟩
  · have hle : mintGenesis.allocated a ≤ 10 := by
      simp only [Genesis.allocated, mintGenesis, amountIn, List.map_cons, List.map_nil,
        List.sum_cons, List.sum_nil]
      split_ifs <;> omega
    omega
  · intro l hl tx a htx hr
    rw [List.flatten_singleton] at hl
    rw [hpayload l hl tx htx] at hr
    cases hr
  · intro l hl s tx htx anchor fee key pool hu
    rw [List.flatten_singleton] at hl
    rw [hpayload l hl tx htx] at hu
    cases hu

end Concrete

end HashKinetics
