import HashKinetics.State.Conservation
import HashKinetics.State.Debits

/-!
# Pausing and freezing

Every movement of value passes the asset gate with every party it reaches.  A transaction body is
therefore either idle or moves one asset that the gate let through (`ValueMove`), and a paused asset
or a frozen account stays as it is.  The envelope fee does not pass the gate: genesis refuses a fee
asset that an issuer could stop, but a registration at run time can still claim its id.
-/

namespace HashKinetics

open Foundations

/-- The transaction registers an asset under a policy that lets its issuer pause or freeze it. -/
def Tx.ClaimsStoppable {H : Type} (a : H) : Tx H → Prop
  | .assetRegister asset _ _ policy =>
    asset = a ∧ (policy.pausable = true ∨ policy.freezable = true)
  | _ => False

namespace State

variable {H : Type} [LinearOrder H]

/-- What a channel holds of an asset in escrow. -/
def escrowOf (s : State H) (a c : H) : ℕ :=
  match s.channels[c]? with
  | some ch => amountIn ch.state.asset a ch.escrowRemaining
  | none => 0

/-- No channel, no registry total and no pool holds more or less of an asset. -/
structure Untouched (s s' : State H) (a : H) : Prop where
  escrow : ∀ c, s'.escrowOf a c = s.escrowOf a c
  registry : ∀ info, s.assets[a]? = some info → ∃ info', s'.assets[a]? = some info' ∧
    info'.supply = info.supply ∧ info'.burned = info.burned
  legacy : legacyIn s'.pool a = legacyIn s.pool a
  pools : poolIn s'.pools a = poolIn s.pools a

lemma Untouched.refl (s : State H) (a : H) : Untouched s s a :=
  ⟨fun _ => rfl, fun info h => ⟨info, h, rfl, rfl⟩, rfl, rfl⟩

/-- Only channels, assets and pools count. -/
lemma Untouched.of_eq {s s' : State H} {a : H} (hch : s'.channels = s.channels)
    (hassets : s'.assets = s.assets) (hpool : s'.pool = s.pool) (hpools : s'.pools = s.pools) :
    Untouched s s' a := by
  refine ⟨fun c => ?_, fun info h => ?_, by rw [hpool], by rw [hpools]⟩
  · unfold escrowOf
    rw [hch]
  · exact ⟨info, by rw [hassets, h], rfl, rfl⟩

/-- A channel in another asset is written. -/
lemma Untouched.of_channel {s s' : State H} {a c : H} {ch : Channel H}
    (hch : s'.channels = s.channels.insert c ch) (hasset : ch.state.asset ≠ a)
    (hold : ∀ ch₀, s.channels[c]? = some ch₀ → ch₀.state.asset = ch.state.asset)
    (hassets : s'.assets = s.assets)
    (hpool : s'.pool = s.pool) (hpools : s'.pools = s.pools) : Untouched s s' a := by
  refine ⟨fun c' => ?_, fun info h => ⟨info, by rw [hassets, h], rfl, rfl⟩, by rw [hpool],
    by rw [hpools]⟩
  unfold escrowOf
  rw [hch, OrderedMap.get_insert]
  by_cases hc : c = c'
  · subst hc
    simp only [if_pos, amountIn_of_ne hasset]
    split
    · next ch₀ hget => rw [hold ch₀ hget, amountIn_of_ne hasset]
    · rfl
  · rw [if_neg hc]

/-- The registry entry of another asset is written. -/
lemma Untouched.of_asset {s s' : State H} {a b : H} {info : AssetInfo H} (hne : b ≠ a)
    (hassets : s'.assets = s.assets.insert b info) (hch : s'.channels = s.channels)
    (hpool : s'.pool = s.pool) (hpools : s'.pools = s.pools) : Untouched s s' a := by
  refine ⟨fun c => ?_, fun info h => ⟨info, ?_, rfl, rfl⟩, by rw [hpool], by rw [hpools]⟩
  · unfold escrowOf
    rw [hch]
  · rw [hassets, OrderedMap.get_insert, if_neg hne, h]

/-- A registry entry is written with the totals it had. -/
lemma Untouched.of_totals {s s' : State H} {a b : H} {info info' : AssetInfo H}
    (hassets : s'.assets = s.assets.insert b info') (hget : s.assets[b]? = some info)
    (htotals : info'.supply = info.supply ∧ info'.burned = info.burned)
    (hch : s'.channels = s.channels)
    (hpool : s'.pool = s.pool) (hpools : s'.pools = s.pools) : Untouched s s' a := by
  by_cases hb : b = a
  · subst hb
    refine ⟨fun c => ?_, fun info₀ h => ⟨info', ?_, ?_⟩, by rw [hpool], by rw [hpools]⟩
    · unfold escrowOf
      rw [hch]
    · rw [hassets, OrderedMap.get_insert, if_pos rfl]
    · rw [hget] at h
      cases h
      exact htotals
  · exact .of_asset hb hassets hch hpool hpools

/-! ## The gate -/

lemma of_assetGate {s : State H} {a : H} {src dst : Option H} {info : AssetInfo H}
    (hgate : s.assetGate a src dst = .ok ()) (hinfo : s.assets[a]? = some info) :
    info.paused = false ∧ ∀ A, src = some A ∨ dst = some A → A ∉ info.frozen := by
  unfold assetGate at hgate
  rw [hinfo] at hgate
  simp only at hgate
  split_ifs at hgate with hpaused hfrozen
  refine ⟨by simpa using hpaused, fun A hA => ?_⟩
  rw [Bool.or_eq_true, not_or] at hfrozen
  rcases hA with rfl | rfl
  · simpa using hfrozen.1
  · simpa using hfrozen.2

/-- The value a transaction body moves: none, or one asset between parties that the gate let
through. -/
inductive ValueMove (s s' : State H) : Prop
  | idle (hbal : ∀ A a, s'.balance A a = s.balance A a) (hrest : ∀ a, Untouched s s' a)
  | gated {asset : H} {src dst : Option H} (hgate : s.assetGate asset src dst = .ok ())
      (hbal : ∀ A a, (asset = a → src ≠ some A ∧ dst ≠ some A) → s'.balance A a = s.balance A a)
      (hrest : ∀ a, asset ≠ a → Untouched s s' a)

/-- A debit and a credit of the gated parties leave every other balance alone. -/
lemma balance_moved {s : State H} {asset src dst A a : H} {amount : ℕ}
    (h : asset = a → some src ≠ some A ∧ some dst ≠ some A) :
    ((s.debited src asset amount).credited dst asset amount).balance A a = s.balance A a := by
  rw [credited, balance_setBalance, if_neg, debited, balance_setBalance, if_neg]
  · rintro ⟨rfl, rfl⟩
    exact (h rfl).1 rfl
  · rintro ⟨rfl, rfl⟩
    exact (h rfl).2 rfl

lemma balance_debited_party {s : State H} {asset src A a : H} {amount : ℕ}
    (h : asset = a → some src ≠ some A) : (s.debited src asset amount).balance A a =
      s.balance A a := by
  rw [debited, balance_setBalance, if_neg]
  rintro ⟨rfl, rfl⟩
  exact h rfl rfl

lemma balance_credited_party {s : State H} {asset dst A a : H} {amount : ℕ}
    (h : asset = a → some dst ≠ some A) :
    (s.credited dst asset amount).balance A a = s.balance A a := by
  rw [credited, balance_setBalance, if_neg]
  rintro ⟨rfl, rfl⟩
  exact h rfl rfl

variable [HashSuite H]

omit [HashSuite H] in
lemma legacyIn_of_asset_ne {p : PoolState H} {a : H} (h : p.asset ≠ some a) : legacyIn p a = 0 :=
  if_neg h

/-- A shield changes the pool of its own asset only. -/
lemma Untouched.minted {s s' : State H} {asset a : H} (value : ℕ) {key : PoolKey H}
    (commitment : H) (hkey : s.poolKeyOfAsset asset = .ok key) (hne : asset ≠ a)
    (hch : s'.channels = s.channels) (hassets : s'.assets = s.assets)
    (hpool : s'.pool = (s.setPool key ((s.poolForMint key).minted asset commitment value)).pool)
    (hpools : s'.pools =
      (s.setPool key ((s.poolForMint key).minted asset commitment value)).pools) :
    Untouched s s' a := by
  refine ⟨fun c => ?_, fun info h => ⟨info, by rw [hassets, h], rfl, rfl⟩, ?_, ?_⟩
  · unfold escrowOf
    rw [hch]
  · rw [hpool]
    rcases pinned_of_poolKeyOfAsset hkey with ⟨rfl, hnone⟩ | ⟨rfl, hsome⟩ | rfl
    · rw [legacyIn_of_asset_ne (p := s.pool) (by rw [hnone]; simp), legacyIn_of_asset_ne]
      simp [poolForMint, PoolState.minted, hnone, hne]
    · rw [legacyIn_of_asset_ne (p := s.pool) (by rw [hsome]; simpa using hne), legacyIn_of_asset_ne]
      simp [poolForMint, PoolState.minted, hsome, hne]
    · rfl
  · rw [hpools]
    rcases pinned_of_poolKeyOfAsset hkey with ⟨rfl, -⟩ | ⟨rfl, -⟩ | rfl
    · rfl
    · rfl
    · simp only [setPool_pools, poolIn, OrderedMap.get_insert, if_neg hne]

/-- A spend changes the total of its pool by its fee, in the asset of the pool only. -/
lemma Untouched.spent {s s' : State H} {a : H} {fee : ℕ} {key : PoolKey H} {pool : PoolState H}
    {nf out out2 : H} (hpool : s.poolRef key = some pool)
    (hne : fee = 0 ∨ s.poolAsset key ≠ some a)
    (hch : s'.channels = s.channels) (hassets : s'.assets = s.assets)
    (hlegacy : s'.pool = (s.setPool key (pool.spent nf out out2 fee)).pool)
    (hpools : s'.pools = (s.setPool key (pool.spent nf out out2 fee)).pools) :
    Untouched s s' a := by
  refine ⟨fun c => ?_, fun info h => ⟨info, by rw [hassets, h], rfl, rfl⟩, ?_, ?_⟩
  · unfold escrowOf
    rw [hch]
  · rw [hlegacy]
    cases key with
    | asset b => rfl
    | legacy =>
      obtain rfl : s.pool = pool := by simpa [poolRef] using hpool
      rcases hne with rfl | hne
      · rfl
      · rw [legacyIn_of_asset_ne (p := s.pool) hne]
        exact legacyIn_of_asset_ne hne
  · rw [hpools]
    cases key with
    | legacy => rfl
    | asset b =>
      have hget : s.pools[b]? = some pool := hpool
      simp only [setPool_pools, poolIn, OrderedMap.get_insert]
      by_cases hb : b = a
      · subst hb
        rcases hne with rfl | hne
        · simp [hget, PoolState.spent]
        · exact absurd rfl hne
      · rw [if_neg hb]

/-- A transaction body moves value through the gate or not at all. -/
lemma valueMove_dispatch {s s' : State H} {sender : H} {tx : Tx H} {evs : List (Event H)}
    (h : dispatch sender tx s = (.ok evs, s')) : ValueMove s s' := by
  cases tx with
  | transfer dst asset amount =>
    obtain ⟨-, hgate, -, -, rfl⟩ := doTransfer_eq_ok h
    exact .gated hgate (fun A a hA => balance_moved hA) fun a _ => .of_eq rfl rfl rfl rfl
  | mandateCreate id parent holder asset rate bufferMax perTxMax initial expiry tier =>
    obtain ⟨-, hc⟩ := doMandateCreate_eq_ok h
    rw [hc.result]
    cases parent with
    | none => exact .idle (fun _ _ => rfl) fun _ => .of_eq rfl rfl rfl rfl
    | some p => exact .idle (fun _ _ => rfl) fun _ => .of_eq rfl rfl rfl rfl
  | mandateSpend leaf dst amount =>
    obtain ⟨asset, funder, chain, t, -, -, hgate, -, rfl⟩ := doMandateSpend_eq_ok h
    exact .gated hgate (fun A a hA => balance_moved (s := s.setMandates t) hA)
      fun a _ => .of_eq rfl rfl rfl rfl
  | mandateRevoke target =>
    obtain ⟨node, -, -, -, rfl⟩ := doMandateRevoke_eq_ok h
    exact .idle (fun _ _ => rfl) fun _ => .of_eq rfl rfl rfl rfl
  | channelOpen id mandate payee asset tip unitPrice maxSteps expiry =>
    obtain ⟨funder, chain, t, -, hnew, -, -, -, hgate, -, rfl⟩ := doChannelOpen_eq_ok h
    refine .gated hgate (fun A a hA => ?_) fun a hne => ?_
    · exact balance_debited_party (s := s.setMandates t) fun ha => (hA ha).1
    · refine .of_channel (c := id) rfl hne (fun ch₀ hget => ?_) rfl rfl rfl
      rw [hnew] at hget
      cases hget
  | channelSettle id word step =>
    obtain ⟨ch, hget, -, -, -, -, hgate, -, rfl⟩ := doChannelSettle_eq_ok h
    refine .gated hgate (fun A a hA => ?_) fun a hne => ?_
    · exact balance_credited_party (s := s.setChannel id _) fun ha => (hA ha).2
    · refine .of_channel (c := id) rfl hne (fun ch₀ hget₀ => ?_) rfl rfl rfl
      rw [hget] at hget₀
      cases hget₀
      rfl
  | channelRefund id =>
    obtain ⟨ch, hget, -, -, -, hgate, -, rfl⟩ := doChannelRefund_eq_ok h
    refine .gated hgate (fun A a hA => ?_) fun a hne => ?_
    · exact balance_credited_party (s := s.setChannel id _) fun ha => (hA ha).2
    · refine .of_channel (c := id) rfl hne (fun ch₀ hget₀ => ?_) rfl rfl rfl
      rw [hget] at hget₀
      cases hget₀
      rfl
  | mintToPool asset value commitment proof ct =>
    obtain ⟨key, hkey, -, -, hgate, -, -, -, -, -, rfl⟩ := doMintToPool_eq_ok h
    refine .gated hgate (fun A a hA => ?_) fun a hne =>
      .minted value commitment hkey hne rfl rfl rfl rfl
    exact balance_debited_party fun ha => (hA ha).1
  | shieldedSpend anchor nf out out2 fee creditTo mandate proof ct ct2 =>
    obtain ⟨key, pool, t, hun, -, hpaid⟩ := doShieldedSpend_eq_ok h
    rcases hpaid with ⟨rfl, rfl⟩ | ⟨-, dst, asset, -, hasset, hgate, rfl⟩
    · exact .idle (fun _ _ => rfl) fun a => .spent hun.poolAt (.inl rfl) rfl rfl rfl rfl
    · refine .gated hgate (fun A a hA => ?_) fun a hne => ?_
      · exact balance_credited_party (s := (s.setMandates t).setPool key _) fun ha => (hA ha).2
      · exact .spent hun.poolAt (.inr (by rw [hasset]; simpa using hne)) rfl rfl rfl rfl
  | accountCreate id authCommit asset amount =>
    obtain ⟨-, -, -, ⟨-, rfl⟩ | ⟨-, hgate, -, rfl⟩⟩ := doAccountCreate_eq_ok h
    · exact .idle (fun _ _ => rfl) fun _ => .of_eq rfl rfl rfl rfl
    · exact .gated hgate (fun A a hA => balance_moved hA) fun a _ => .of_eq rfl rfl rfl rfl
  | assetRegister asset symbol decimals policy =>
    obtain ⟨-, hnew, -, rfl⟩ := doAssetRegister_eq_ok h
    refine .idle (fun _ _ => rfl) fun a => ⟨fun _ => rfl, fun info hinfo => ⟨info, ?_, rfl, rfl⟩,
      rfl, rfl⟩
    rw [setAsset_assets, OrderedMap.get_insert, if_neg, hinfo]
    rintro rfl
    rw [hnew] at hinfo
    cases hinfo
  | assetMint asset dst amount =>
    obtain ⟨info, -, -, -, hgate, -, -, -, rfl⟩ := doAssetMint_eq_ok h
    refine .gated hgate (fun A a hA => ?_) fun a hne => .of_asset hne rfl rfl rfl rfl
    exact balance_credited_party (s := s.setAsset asset _) fun ha => (hA ha).2
  | assetBurn asset amount destination =>
    obtain ⟨info, -, hgate, -, -, -, rfl⟩ := doAssetBurn_eq_ok h
    refine .gated hgate (fun A a hA => ?_) fun a hne => .of_asset hne rfl rfl rfl rfl
    exact balance_debited_party fun ha => (hA ha).1
  | assetFreeze asset account frozen =>
    obtain ⟨info, hinfo, -, -, -, rfl⟩ := doAssetFreeze_eq_ok h
    exact .idle (fun _ _ => rfl) fun a => .of_totals rfl hinfo ⟨rfl, rfl⟩ rfl rfl rfl
  | assetPause asset paused =>
    obtain ⟨info, hinfo, -, -, -, rfl⟩ := doAssetPause_eq_ok h
    exact .idle (fun _ _ => rfl) fun a => .of_totals rfl hinfo ⟨rfl, rfl⟩ rfl rfl rfl

/-! ## The fee asset -/

/-- No issuer can stop the fee path: the fee asset is not registered, or its policy lets nobody
pause or freeze it and nobody has. -/
def FeeOpen (s : State H) : Prop :=
  ∀ info, s.assets[s.feeAsset]? = some info →
    info.policy.pausable = false ∧ info.policy.freezable = false ∧ info.paused = false ∧
      ∀ A, A ∉ info.frozen

/-- The registry entries a transaction body writes. -/
lemma FeeOpen.dispatch {s s' : State H} {sender : H} {tx : Tx H} {evs : List (Event H)}
    (hfee : s.FeeOpen) (hno : ¬ tx.ClaimsStoppable s.feeAsset)
    (h : dispatch sender tx s = (.ok evs, s')) : s'.FeeOpen := by
  have hframe : s'.feeAsset = s.feeAsset := congrArg Frame.feeAsset (frame_dispatch h)
  -- the entry of another asset, or the same entry up to its totals
  have hkeep : (∀ info', s'.assets[s.feeAsset]? = some info' →
      ∃ info, s.assets[s.feeAsset]? = some info ∧ info'.policy = info.policy ∧
        info'.paused = info.paused ∧ info'.frozen = info.frozen) → s'.FeeOpen := by
    intro hsame info' hinfo'
    rw [hframe] at hinfo'
    obtain ⟨info, hinfo, hpolicy, hpaused, hfrozen⟩ := hsame info' hinfo'
    rw [hpolicy, hpaused, hfrozen]
    exact hfee info hinfo
  have hassets : s'.assets = s.assets → s'.FeeOpen := fun heq =>
    hkeep fun info' hinfo' => ⟨info', by rwa [heq] at hinfo', rfl, rfl, rfl⟩
  cases tx with
  | assetRegister asset symbol decimals policy =>
    obtain ⟨-, -, -, rfl⟩ := doAssetRegister_eq_ok h
    intro info hinfo
    rw [setAsset_feeAsset, setAsset_assets, OrderedMap.get_insert] at hinfo
    split_ifs at hinfo with heq
    · cases hinfo
      have hpolicy := not_or.mp fun hor => hno ⟨heq, hor⟩
      exact ⟨by simpa using hpolicy.1, by simpa using hpolicy.2, rfl, by simp⟩
    · exact hfee info hinfo
  | assetMint asset dst amount =>
    obtain ⟨info, hinfo, -, -, -, -, -, -, rfl⟩ := doAssetMint_eq_ok h
    refine hkeep fun info' hinfo' => ?_
    simp only [credited, setBalance_assets, setAsset_assets, OrderedMap.get_insert] at hinfo'
    split_ifs at hinfo' with heq
    · subst heq
      cases hinfo'
      exact ⟨info, hinfo, rfl, rfl, rfl⟩
    · exact ⟨info', hinfo', rfl, rfl, rfl⟩
  | assetBurn asset amount destination =>
    obtain ⟨info, hinfo, -, -, -, -, rfl⟩ := doAssetBurn_eq_ok h
    refine hkeep fun info' hinfo' => ?_
    simp only [debited, setBalance_assets, setAsset_assets, OrderedMap.get_insert] at hinfo'
    split_ifs at hinfo' with heq
    · subst heq
      cases hinfo'
      exact ⟨info, hinfo, rfl, rfl, rfl⟩
    · exact ⟨info', hinfo', rfl, rfl, rfl⟩
  | assetFreeze asset account frozen =>
    obtain ⟨info, hinfo, -, hfreeze, -, rfl⟩ := doAssetFreeze_eq_ok h
    refine hkeep fun info' hinfo' => ?_
    have hne : asset ≠ s.feeAsset := by
      rintro rfl
      rw [(hfee info hinfo).2.1] at hfreeze
      cases hfreeze
    rw [setAsset_assets, OrderedMap.get_insert, if_neg hne] at hinfo'
    exact ⟨info', hinfo', rfl, rfl, rfl⟩
  | assetPause asset paused =>
    obtain ⟨info, hinfo, -, hpause, -, rfl⟩ := doAssetPause_eq_ok h
    refine hkeep fun info' hinfo' => ?_
    have hne : asset ≠ s.feeAsset := by
      rintro rfl
      rw [(hfee info hinfo).1] at hpause
      cases hpause
    rw [setAsset_assets, OrderedMap.get_insert, if_neg hne] at hinfo'
    exact ⟨info', hinfo', rfl, rfl, rfl⟩
  | transfer dst asset amount =>
    obtain ⟨-, -, -, -, rfl⟩ := doTransfer_eq_ok h
    exact hassets rfl
  | mandateCreate id parent holder asset rate bufferMax perTxMax initial expiry tier =>
    obtain ⟨-, hc⟩ := doMandateCreate_eq_ok h
    apply hassets
    rw [hc.result]
    cases parent <;> rfl
  | mandateSpend leaf dst amount =>
    obtain ⟨asset, funder, chain, t, -, -, -, -, rfl⟩ := doMandateSpend_eq_ok h
    exact hassets rfl
  | mandateRevoke target =>
    obtain ⟨node, -, -, -, rfl⟩ := doMandateRevoke_eq_ok h
    exact hassets rfl
  | channelOpen id mandate payee asset tip unitPrice maxSteps expiry =>
    obtain ⟨funder, chain, t, -, -, -, -, -, -, -, rfl⟩ := doChannelOpen_eq_ok h
    exact hassets rfl
  | channelSettle id word step =>
    obtain ⟨ch, -, -, -, -, -, -, -, rfl⟩ := doChannelSettle_eq_ok h
    exact hassets rfl
  | channelRefund id =>
    obtain ⟨ch, -, -, -, -, -, -, rfl⟩ := doChannelRefund_eq_ok h
    exact hassets rfl
  | mintToPool asset value commitment proof ct =>
    obtain ⟨key, -, -, -, -, -, -, -, -, -, rfl⟩ := doMintToPool_eq_ok h
    exact hassets rfl
  | shieldedSpend anchor nf out out2 fee creditTo mandate proof ct ct2 =>
    obtain ⟨key, pool, t, -, -, ⟨-, rfl⟩ | ⟨-, dst, asset, -, -, -, rfl⟩⟩ := doShieldedSpend_eq_ok h
      <;> exact hassets rfl
  | accountCreate id authCommit asset amount =>
    obtain ⟨-, -, -, ⟨-, rfl⟩ | ⟨-, -, -, rfl⟩⟩ := doAccountCreate_eq_ok h <;> exact hassets rfl

lemma feeOpen_of_genesis {g : Genesis H} {s : State H} (h : Initial g s) : s.FeeOpen := by
  obtain ⟨s₀, c, hg, rfl⟩ := h
  obtain ⟨s₁, s₂, h₁, h₂, hpolicy, rfl⟩ := fromGenesis_eq_ok hg
  -- no genesis asset starts paused or with a frozen account
  have hclean : ∀ (a : H) info, s₂.assets[a]? = some info →
      info.paused = false ∧ ∀ A, A ∉ info.frozen := by
    have hstart : ∀ (a : H) info, s₁.assets[a]? = some info →
        info.paused = false ∧ ∀ A, A ∉ info.frozen := by
      refine invariant_of_foldlM (I := fun s : State H => ∀ (a : H) info,
        s.assets[a]? = some info → info.paused = false ∧ ∀ A, A ∉ info.frozen)
        (fun s ga s' hI hadd => ?_) (fun a info hinfo => ?_) h₁
      · unfold addGenesisAccount at hadd
        split_ifs at hadd
        cases hadd
        exact hI
      · simp [State.default] at hinfo
    refine invariant_of_foldlM (I := fun s : State H => ∀ (a : H) info,
      s.assets[a]? = some info → info.paused = false ∧ ∀ A, A ∉ info.frozen)
      (fun s ga s' hI hadd => ?_) hstart h₂
    unfold addGenesisAsset at hadd
    split_ifs at hadd
    cases hadd
    intro a info hinfo
    rw [setAsset_assets, OrderedMap.get_insert] at hinfo
    split_ifs at hinfo
    · cases hinfo
      exact ⟨rfl, by simp⟩
    · exact hI a info hinfo
  have halloc : ∀ (a : H) info, (g.alloc.foldl State.allocate s₂).assets[a]? = some info →
      info.paused = false ∧ ∀ A, A ∉ info.frozen := by
    refine invariant_of_foldl (I := fun s : State H => ∀ (a : H) info,
      s.assets[a]? = some info → info.paused = false ∧ ∀ A, A ∉ info.frozen)
      (fun s al hI => ?_) g.alloc hclean
    intro a info hinfo
    unfold State.allocate at hinfo
    split at hinfo
    next info₀ hinfo₀ =>
      rw [setAsset_assets, OrderedMap.get_insert] at hinfo
      split_ifs at hinfo
      · cases hinfo
        have hold := hI _ _ hinfo₀
        exact hold
      · exact hI a info hinfo
    next => exact hI a info hinfo
  have hassets : (State.withGenesisFee (g.alloc.foldl State.allocate s₂) g.fee).assets =
      (g.alloc.foldl State.allocate s₂).assets := by
    cases g.fee <;> rfl
  intro info hinfo
  have hinfo' : (State.withGenesisFee (g.alloc.foldl State.allocate s₂) g.fee).assets[
      (State.withGenesisFee (g.alloc.foldl State.allocate s₂) g.fee).feeAsset]? = some info := hinfo
  simp only [badFeeAssetPolicy, hinfo', Bool.or_eq_false_iff] at hpolicy
  rw [hassets] at hinfo'
  exact ⟨hpolicy.1, hpolicy.2, halloc _ info hinfo'⟩

/-! ## Every reachable state -/

/-- A paused asset does not move at all, and a frozen account does not move in its asset. -/
structure Stopped (s s' : State H) : Prop where
  paused : ∀ (a : H) info, s.assets[a]? = some info → info.paused = true →
    (∀ A, s'.balance A a = s.balance A a) ∧ Untouched s s' a
  frozen : ∀ (a : H) info, s.assets[a]? = some info → ∀ A ∈ info.frozen,
    s'.balance A a = s.balance A a

omit [HashSuite H] in
lemma Stopped.refl (s : State H) : Stopped s s :=
  ⟨fun a _ _ _ => ⟨fun _ => rfl, .refl s a⟩, fun _ _ _ _ _ => rfl⟩

omit [HashSuite H] in
lemma ValueMove.stopped {s s' : State H} (h : ValueMove s s') : Stopped s s' := by
  cases h with
  | idle hbal hrest => exact ⟨fun a _ _ _ => ⟨fun A => hbal A a, hrest a⟩,
    fun a _ _ A _ => hbal A a⟩
  | @gated asset src dst hgate hbal hrest =>
    refine ⟨fun a info hinfo hpaused => ?_, fun a info hinfo A hA => hbal A a ?_⟩
    · have hne : asset ≠ a := by
        rintro rfl
        rw [(of_assetGate hgate hinfo).1] at hpaused
        cases hpaused
      exact ⟨fun A => hbal A a fun heq => absurd heq hne, hrest a hne⟩
    · rintro rfl
      have hopen := (of_assetGate hgate hinfo).2 A
      exact ⟨fun hsrc => hopen (.inl hsrc) hA, fun hdst => hopen (.inr hdst) hA⟩

variable [TxCodec H]

/-- The envelope around a body: the fee is paid in an asset that nobody stopped. -/
lemma FeeOpen.stopped_applyTxAt {s s' : State H} (hfee : s.FeeOpen) {stx : SignedTx H}
    {preSig : Option Bool} {evs : List (Event H)} (h : applyTxAt stx preSig s = (.ok evs, s')) :
    Stopped s s' := by
  obtain ⟨s₁, henv⟩ := applyTxAt_eq_ok h
  obtain ⟨acc, -, -, rfl⟩ := henv.ratchet
  have hbody := (valueMove_dispatch henv.body).stopped
  rw [feeCharged_eq] at hbody
  have hcharged : ∀ a : H, a ≠ s.feeAsset → ∀ A,
      (s.feeCharged stx.sender).balance A a = s.balance A a := by
    intro a hne A
    unfold feeCharged
    split_ifs
    · exact balance_debited_of_asset_ne hne.symm _ _ _
    · rfl
  refine ⟨fun a info hinfo hpaused => ?_, fun a info hinfo A hA => ?_⟩
  · have hne : a ≠ s.feeAsset := by
      rintro rfl
      rw [(hfee info hinfo).2.2.1] at hpaused
      cases hpaused
    obtain ⟨hbal, hrest⟩ := hbody.paused a info hinfo hpaused
    exact ⟨fun A => (hbal A).trans (hcharged a hne A),
      ⟨hrest.escrow, hrest.registry, hrest.legacy, hrest.pools⟩⟩
  · have hne : a ≠ s.feeAsset := by
      rintro rfl
      exact (hfee info hinfo).2.2.2 A hA
    exact (hbody.frozen a info hinfo A hA).trans (hcharged a hne A)

lemma FeeOpen.elemStep {s s' : State H} {l : Elementary H} (hfee : s.FeeOpen)
    (hno : ∀ tx, l.payload = some tx → ¬ tx.ClaimsStoppable s.feeAsset) (h : ElemStep s l s') :
    s'.FeeOpen ∧ s'.feeAsset = s.feeAsset := by
  cases h with
  | openBlock => exact ⟨hfee, rfl⟩
  | closeBlock => exact ⟨hfee, rfl⟩
  | cover => exact ⟨hfee, rfl⟩
  | @tx _ stx _ _ h =>
    obtain ⟨s₁, henv⟩ := applyTxAt_eq_ok h
    obtain ⟨acc, -, -, rfl⟩ := henv.ratchet
    have hbody := henv.body
    rw [feeCharged_eq] at hbody
    set charged : State H := { s with balances := (s.feeCharged stx.sender).balances } with hcharged
    have hopen : charged.FeeOpen := hfee
    have hopen₁ : s₁.FeeOpen := hopen.dispatch (hno stx.payload rfl) hbody
    exact ⟨hopen₁, congrArg Frame.feeAsset (frame_dispatch hbody)⟩

/-- **Pausing and freezing stop value.**  Along every run in which no transaction registers the fee
asset under a policy that lets its issuer pause or freeze it, in every state, between blocks and
within one, and for every transaction, accepted or refused, whether its signature was checked before
or not: a paused asset moves in no balance, channel, registry total or pool, and a frozen account
does not move in its asset, the fee leg included. -/
theorem stopped_of_run {g : Genesis H} {s₀ s : State H} {ls : List (Elementary H)}
    (hinit : Initial g s₀) (hrun : Path ElemStep s₀ ls s)
    (hno : ∀ l ∈ ls, ∀ tx, l.payload = some tx → ¬ tx.ClaimsStoppable s₀.feeAsset)
    (stx : SignedTx H) (preSig : Option Bool) :
    (∀ evs s', applyTxAt stx preSig s = (.ok evs, s') → Stopped s s') ∧
      ∀ e s', applyTxAt stx preSig s = (.err e, s') → Stopped s s' := by
  have hfits : s.Fits := hrun.invariant hinit.fresh.fits fun _ _ _ _ hf hstep => hf.elemStep hstep
  have hfee : s.FeeOpen ∧ s.feeAsset = s₀.feeAsset := by
    refine hrun.invariant_along (I := fun _ s => s.FeeOpen ∧ s.feeAsset = s₀.feeAsset)
      Path.along_mem ⟨feeOpen_of_genesis hinit, rfl⟩ ?_
    rintro pre l s₁ s₂ ⟨hopen, hasset⟩ hl hstep
    obtain ⟨hopen', hasset'⟩ := hopen.elemStep (by rw [hasset]; exact hno l hl) hstep
    exact ⟨hopen', hasset'.trans hasset⟩
  refine ⟨fun evs s' h => hfee.1.stopped_applyTxAt h, fun e s' h => ?_⟩
  have hrestores := applyTxAt_restores hfits stx preSig e
  rw [h] at hrestores
  obtain rfl : s' = s := hrestores rfl
  exact .refl s'

end State

namespace Concrete

open State

/-- The fee asset of the chain below: the id that account 1 derives for a symbol. -/
def gasAsset : ℕ := deriveAssetId 1 "GAS"

/-- A chain that charges its fee in an asset that no genesis entry registers. -/
def gasGenesis : Genesis ℕ where
  time := 0
  accounts := [account 1, account 2]
  alloc := [⟨1, gasAsset, 10⟩, ⟨2, gasAsset, 10⟩]
  fee := some ⟨1, 0, some gasAsset⟩
  assets := []

/-- Account 1 registers the fee asset at run time and pauses it. -/
def claimBlock : List (SignedTx ℕ) :=
  [signed [1] 1 0 (.assetRegister gasAsset "GAS" 6 ⟨false, false, true, false⟩),
    signed [1] 1 1 (.assetPause gasAsset true)]

/-- The state in which the fee asset is paused. -/
def gasPaused : State ℕ :=
  (applyBlockVerified 1 10 claimBlock (some (claimBlock.map fun _ => true))
    (start gasGenesis config)).2

/-- A transaction of account 2 that moves nothing but its fee. -/
def feeOnly : SignedTx ℕ := signed [2] 2 0 (.mandateCreate 100 none 2 7 1 6 4 5 1000 0)

/-- The fee asset is paused, and the fee still leaves the balance of account 2 in it. -/
theorem gasPaused_moves : Reachable gasGenesis gasPaused ∧
    (∃ info, gasPaused.assets[gasAsset]? = some info ∧ info.paused = true) ∧
    ∃ evs s', applyTx feeOnly gasPaused = (.ok evs, s') ∧ ¬ Stopped gasPaused s' := by
  have hinit : Initial gasGenesis (start gasGenesis config) :=
    initial_start config (by decide +kernel)
  obtain ⟨receipts, -, hclaim⟩ := blockStep_of_verified (start gasGenesis config) 1 10
    (show claimBlock.map verifyEnvelope = claimBlock.map (fun _ => true) by
      simp [claimBlock, verifyEnvelope_signed]) (by decide +kernel)
  rw [← gasPaused] at hclaim
  have hpaused : (gasPaused.assets[gasAsset]?).any (fun info => info.paused) = true := by
    decide +kernel
  obtain ⟨info, hinfo, hp⟩ := (Option.any_eq_true _ _).mp hpaused
  have hok : (applyTx feeOnly gasPaused).1.okAnd (fun _ => true) = true := by
    rw [applyTx, ← applyTxAt_verdict, feeOnly, verifyEnvelope_signed]
    decide +kernel
  obtain ⟨evs, -, happly⟩ := Exec.exists_of_okAnd hok
  refine ⟨⟨_, _, hinit, .single hclaim⟩, ⟨info, hinfo, hp⟩, evs, _, happly, fun hstopped => ?_⟩
  have hbalance := (hstopped.paused gasAsset info hinfo hp).1 2
  have hmoved : (applyTx feeOnly gasPaused).2.balance 2 gasAsset ≠
      gasPaused.balance 2 gasAsset := by
    rw [applyTx, ← applyTxAt_verdict, feeOnly, verifyEnvelope_signed]
    decide +kernel
  exact hmoved hbalance

/-- An asset that its issuer may pause. -/
def pausableGenesis : Genesis ℕ where
  time := 0
  accounts := [account 1, account 2]
  alloc := [⟨2, 5, 10⟩]
  fee := none
  assets := [⟨5, "TOK", 6, 1, ⟨false, false, true, false⟩⟩]

/-- The issuer pauses it. -/
def pauseBlock : List (SignedTx ℕ) := [signed [1] 1 0 (.assetPause 5 true)]

/-- The state in which it is paused. -/
def tokenPaused : State ℕ :=
  (applyBlockVerified 1 10 pauseBlock (some (pauseBlock.map fun _ => true))
    (start pausableGenesis config)).2

/-- A transfer of the paused asset is refused and moves nothing. -/
theorem tokenPaused_stopped : ∃ s',
    applyTx (signed [2] 2 0 (.transfer 1 5 4)) tokenPaused = (.err .assetPaused, s') ∧
      Stopped tokenPaused s' := by
  have hinit : Initial pausableGenesis (start pausableGenesis config) :=
    initial_start config (by decide +kernel)
  have hverified : pauseBlock.map verifyEnvelope = pauseBlock.map fun _ => true := by
    simp [pauseBlock, verifyEnvelope_signed]
  obtain ⟨receipts, -, hpause⟩ := blockStep_of_verified (start pausableGenesis config) 1 10
    hverified (by decide +kernel)
  rw [← tokenPaused] at hpause
  have hno : ∀ l ∈ [blockSteps ⟨1, 10, pauseBlock, none⟩ receipts].flatten, ∀ tx,
      l.payload = some tx → ¬ tx.ClaimsStoppable (start pausableGenesis config).feeAsset := by
    intro l hl tx htx
    cases l with
    | tx stx evs =>
      cases htx
      rw [List.flatten_singleton] at hl
      have hmem := mem_txs_of_mem_blockSteps hl
      rw [pauseBlock, List.mem_singleton] at hmem
      rw [hmem]
      exact fun h => h
    | openBlock => cases htx
    | closeBlock => cases htx
    | cover => cases htx
  have herr : (applyTx (signed [2] 2 0 (.transfer 1 5 4)) tokenPaused).1 = .err .assetPaused := by
    rw [applyTx, ← applyTxAt_verdict, verifyEnvelope_signed]
    decide +kernel
  have happly := Exec.eq_of_outcome herr
  exact ⟨_, happly, (stopped_of_run hinit (elemPath hinit.fresh.fits (.single hpause)) hno _ none).2
    _ _ happly⟩

end Concrete

end HashKinetics
