import HashKinetics.Mandate.Asset
import HashKinetics.State.MandateBudget

/-!
# Mandates and their assets

From the activation height on, the spending sinks compare the asset of a leaf with the asset of its
root, and the asset they move with the leaf's.  Every node between leaf and root is charged too; it
is charged in its own asset as long as no creation before the activation returned to the root's
asset below a node in another one.  A tree of three nodes built before the activation shows that the
condition is needed.
-/

namespace HashKinetics

open Foundations

namespace State

variable {H : Type} [LinearOrder H] [HashSuite H]

/-- The asset in which a transaction that draws on a mandate moves value. -/
def chargedAsset (s : State H) : Tx H → Option H
  | .mandateSpend leaf _ _ => s.mandates.assetOf leaf
  | .channelOpen _ _ _ asset _ _ _ _ => some asset
  | .shieldedSpend anchor _ _ _ _ _ _ _ _ _ => (s.poolKeyOfAnchor anchor).bind s.poolAsset
  | _ => none

/-- A transaction charges every mandate it draws on, and the funding account, in that mandate's own
asset: no balance moves in another asset, and every node of the chain denominates the asset
moved. -/
structure ChargedInOwnAsset (s : State H) (tx : Tx H) (s' : State H) : Prop where
  moves : ∀ leaf amount, tx.act = .draw leaf amount → ∀ id a, s.chargedAsset tx ≠ some a →
    s'.balance id a = s.balance id a
  nodes : ∀ leaf amount, tx.act = .draw leaf amount → ∀ m, s.mandates.isUnder m leaf = true →
    s.mandates.assetOf m = s.chargedAsset tx

/-- A creation returns to the asset of its root below a mandate in another asset. -/
def Returns (s : State H) (tx : Tx H) : Prop :=
  ∃ id parent asset, tx.act = .create id parent asset ∧ s.mandates.ReturnsToRoot parent asset

/-! ## Balances in other assets -/

omit [HashSuite H] in
lemma balance_setBalance_of_ne (s : State H) {id asset id' a : H} (h : asset ≠ a) (amount : ℕ) :
    (s.setBalance id asset amount).balance id' a = s.balance id' a := by
  unfold balance
  rw [setBalance_balances, OrderedMap.get_insert, if_neg]
  intro heq
  exact h (congrArg (fun k => (ofLex k).2) heq)

omit [HashSuite H] in
lemma balance_debited_other (s : State H) {id asset id' a : H} (h : asset ≠ a) (amount : ℕ) :
    (s.debited id asset amount).balance id' a = s.balance id' a :=
  s.balance_setBalance_of_ne h _

omit [HashSuite H] in
lemma balance_credited_other (s : State H) {id asset id' a : H} (h : asset ≠ a) (amount : ℕ) :
    (s.credited id asset amount).balance id' a = s.balance id' a :=
  s.balance_setBalance_of_ne h _

/-! ## One transaction -/

omit [HashSuite H] in
/-- The sink rule with a root-bound tree: a leaf that passes it has its whole chain in its asset. -/
lemma assetOf_of_checkMandateAssetBound {s : State H} (hr : s.mandates.RootBound)
    {leaf root m : H} (hroot : s.mandates.rootOf leaf = .ok root)
    (hbound : s.checkMandateAssetBound leaf root = .ok ())
    (hunder : s.mandates.isUnder m leaf = true) : s.mandates.assetOf m =
      s.mandates.assetOf leaf := by
  obtain ⟨leafNode, rootNode, hleaf, hrootNode, hasset⟩ := asset_of_checkMandateAssetBound hbound
  obtain ⟨chain, hchain, rfl⟩ := MandateTree.exists_chain_of_rootOf hroot
  unfold MandateTree.isUnder at hunder
  rw [hchain] at hunder
  refine hr.uniform leaf chain hchain ?_ m (of_decide_eq_true hunder)
  have hleaf' : s.mandates.nodes[leaf]? = some leafNode := hleaf
  have hroot' : s.mandates.nodes[chain.getLastD leaf]? = some rootNode := hrootNode
  rw [MandateTree.assetOf, MandateTree.assetOf, hleaf', hroot', Option.map_some, Option.map_some,
    hasset]

/-- Above the activation height, a transaction on a root-bound tree charges in own assets. -/
lemma chargedInOwnAsset_dispatch {s s' : State H} {sender : H} {tx : Tx H} {evs : List (Event H)}
    (hr : s.mandates.RootBound) (hactive : s.mandateAssetFrom ≤ s.height)
    (h : dispatch sender tx s = (.ok evs, s')) : ChargedInOwnAsset s tx s' := by
  cases tx with
  | mandateSpend leaf dst amount =>
    obtain ⟨asset, funder, chain, t, hdraw, -, -, -, rfl⟩ := doMandateSpend_eq_ok h
    obtain ⟨node, hnode, -, rfl⟩ := hdraw.leafNode
    obtain ⟨root, hroot, -, hbound⟩ := hdraw.funded
    have hcharged : s.chargedAsset (.mandateSpend leaf dst amount) = some node.asset := by
      simp [chargedAsset, MandateTree.assetOf, hnode]
    refine ⟨fun _ _ _ id a hne => ?_, fun _ _ hact m hunder => ?_⟩
    · have hne' : node.asset ≠ a := fun heq => hne (hcharged.trans (congrArg some heq))
      rw [balance_credited_other _ hne', balance_debited_other _ hne', balance_setMandates]
    · cases hact
      exact assetOf_of_checkMandateAssetBound hr hroot (hbound hactive) hunder
  | channelOpen id mandate payee asset tip unitPrice maxSteps expiry =>
    obtain ⟨funder, chain, t, hdraw, -, -, -, -, -, -, rfl⟩ := doChannelOpen_eq_ok h
    obtain ⟨node, hnode, -, rfl⟩ := hdraw.leafNode
    obtain ⟨root, hroot, -, hbound⟩ := hdraw.funded
    refine ⟨fun _ _ _ id a hne => ?_, fun _ _ hact m hunder => ?_⟩
    · have hne' : node.asset ≠ a := fun heq => hne (congrArg some heq)
      exact balance_debited_other _ hne' _
    · cases hact
      rw [assetOf_of_checkMandateAssetBound hr hroot (hbound hactive) hunder]
      simp [chargedAsset, MandateTree.assetOf, hnode]
  | shieldedSpend anchor nf out out2 fee creditTo mandate proof ct ct2 =>
    obtain ⟨key, pool, t, hun, -, hpaid⟩ := doShieldedSpend_eq_ok h
    have hcharged : s.chargedAsset (.shieldedSpend anchor nf out out2 fee creditTo mandate proof ct
        ct2) = s.poolAsset key := by
      simp [chargedAsset, hun.anchorKey]
    refine ⟨fun _ _ _ id a hne => ?_, fun leaf _ hact m hunder => ?_⟩
    · rcases hpaid with ⟨-, rfl⟩ | ⟨-, dst, asset, -, hasset, -, rfl⟩
      · rfl
      · have hne' : asset ≠ a := fun heq => hne (by rw [hcharged, hasset, heq])
        exact balance_credited_other _ hne' _
    · cases hun.leg with
      | none => cases hact
      | some hnode _ _ _ hbound =>
        cases hact
        obtain ⟨hasset, root, hroot, hcheck⟩ := hbound hactive
        rw [assetOf_of_checkMandateAssetBound hr hroot hcheck hunder, hcharged, hasset]
        simp [MandateTree.assetOf, hnode]
  | _ => exact ⟨fun _ _ hact => (by cases hact), fun _ _ hact => (by cases hact)⟩

variable [TxCodec H]

/-! ## Runs -/

omit [TxCodec H] in
/-- Above the activation height no accepted creation returns to the root's asset. -/
lemma not_returns_of_active {s s' : State H} {sender : H} {tx : Tx H} {evs : List (Event H)}
    (hactive : s.mandateAssetFrom ≤ s.height) (h : dispatch sender tx s = (.ok evs, s')) :
    ¬ Returns s tx := by
  rintro ⟨id, parent, asset, hact, p, root, rfl, -, -, hne⟩
  cases tx with
  | mandateCreate id' parent' holder asset' rate bufferMax perTxMax initial expiry tier =>
    cases hact
    obtain ⟨-, hc⟩ := doMandateCreate_eq_ok h
    obtain ⟨parent, hparent, -, -, -, hasset⟩ := hc.parent p rfl
    apply hne
    rw [MandateTree.assetOf, hparent, Option.map_some, hasset hactive]
    rfl
  | shieldedSpend anchor nf out out2 fee creditTo mandate proof ct ct2 =>
    cases mandate <;> cases hact
  | _ => cases hact

/-- A step keeps the tree root-bound, if it does not return to the root's asset before the
activation. -/
lemma rootBound_elemStep {s s' : State H} {l : Elementary H} (hr : s.mandates.RootBound)
    (hno : ∀ tx, l.payload = some tx → s.height < s.mandateAssetFrom → ¬ Returns s tx)
    (h : ElemStep s l s') : s'.mandates.RootBound := by
  refine hr.treeStep ?_ (treeStep_elemStep h)
  intro id parent asset hact hret
  cases h with
  | @tx _ stx _ _ h =>
    obtain ⟨s₁, henv⟩ := applyTxAt_eq_ok h
    have hbody := henv.body
    rw [feeCharged_eq] at hbody
    have hreturns : Returns s stx.payload := ⟨id, parent, asset, hact, hret⟩
    rcases lt_or_ge s.height s.mandateAssetFrom with hbefore | hactive
    · exact hno stx.payload rfl hbefore hreturns
    · exact not_returns_of_active (s := { s with balances := (s.feeCharged stx.sender).balances })
        hactive hbody hreturns
  | openBlock => cases hact
  | closeBlock => cases hact
  | cover => cases hact

/-- The activation height of the rule is configuration. -/
lemma mandateAssetFrom_elemStep {s s' : State H} {l : Elementary H} (h : ElemStep s l s') :
    s'.mandateAssetFrom = s.mandateAssetFrom := by
  cases h with
  | tx h =>
    obtain ⟨s₁, henv⟩ := applyTxAt_eq_ok h
    obtain ⟨acc, -, -, rfl⟩ := henv.ratchet
    have hframe := congrArg Frame.mandateAssetFrom (frame_dispatch henv.body)
    rw [feeCharged_eq] at hframe
    exact hframe
  | openBlock => rfl
  | closeBlock => rfl
  | cover => rfl

/-- A step charges mandates in their own asset: the asset rule, at and above the activation
height. -/
def OwnAssetAt (s : State H) (l : Elementary H) : Prop :=
  s.mandateAssetFrom ≤ s.height → ∀ stx evs s', l = .tx stx evs → ElemStep s l s' →
    ChargedInOwnAsset (s.feeCharged stx.sender) stx.payload s'

lemma ownAssetAt_of_rootBound {s : State H} (hr : s.mandates.RootBound) (l : Elementary H) :
    OwnAssetAt s l := by
  rintro hactive stx evs s' rfl h
  cases h with
  | tx h =>
    obtain ⟨s₁, henv⟩ := applyTxAt_eq_ok h
    obtain ⟨acc, -, -, rfl⟩ := henv.ratchet
    have hbody := henv.body
    rw [feeCharged_eq] at hbody ⊢
    have hcharged := chargedInOwnAsset_dispatch
      (s := { s with balances := (s.feeCharged stx.sender).balances }) hr hactive hbody
    exact ⟨hcharged.moves, hcharged.nodes⟩

/-- **Mandates are charged in their own asset** along every run in which no creation before the
activation height returns to the asset of its tree's root below a mandate in another asset. -/
theorem ownAsset_of_run {g : Genesis H} {s₀ s : State H} {steps : List (List (Elementary H))}
    (hinit : Initial g s₀) (hpath : Path BlockStep s₀ steps s)
    (hno : Path.Along ElemStep s₀ steps.flatten fun s l =>
      ∀ tx, l.payload = some tx → s.height < s.mandateAssetFrom → ¬ Returns s tx) :
    Path.Along ElemStep s₀ steps.flatten OwnAssetAt := by
  have hstart : s₀.mandates.RootBound := by
    rw [hinit.fresh.mandates]
    exact MandateTree.rootBound_empty
  refine (elemPath hinit.fresh.fits hpath).along_of_invariant elemStep_deterministic hno
    (I := fun s => s.mandates.RootBound) hstart fun s l s' hr hno h => ?_
  exact ⟨ownAssetAt_of_rootBound hr l, rootBound_elemStep hr hno h⟩

/-- A run that spends through a mandate in another asset than the leaf's, above the activation
height. -/
lemma not_along_of_mixed {s₀ s₁ s₂ : State H} {steps : List (Elementary H)} {stx : SignedTx H}
    {leaf dst m : H} {amount height time : ℕ} {evs : List (Event H)} (hf : s₀.Fits)
    (hfirst : BlockStep s₀ steps s₁) (hheight : s₁.height + 1 = height) (htime : s₁.time = time)
    (hfrom : s₁.mandateAssetFrom ≤ height)
    (hspend : ElemStep (s₁.openedAt height time) (.tx stx evs) s₂)
    (hpayload : stx.payload = .mandateSpend leaf dst amount)
    (hunder : s₁.mandates.isUnder m leaf = true)
    (hasset : s₁.mandates.assetOf m ≠ s₁.mandates.assetOf leaf) :
    ¬ Path.Along ElemStep s₀
      [steps, blockSteps ⟨height, time, [stx], none⟩ [⟨0, .ok evs⟩]].flatten OwnAssetAt := by
  intro halong
  -- the state in which the spend is accepted: the second block has just opened
  have hopen : ElemStep s₁ (.openBlock height time) (s₁.openedAt height time) :=
    .openBlock hheight.symm htime.le
  have hpre := Path.snoc (path_of_blockStep hf hfirst) hopen
  have hinitial : steps ++ [.openBlock height time] ++ [.tx stx evs] <+:
      [steps, blockSteps ⟨height, time, [stx], none⟩ [⟨0, .ok evs⟩]].flatten :=
    ⟨[.closeBlock], by simp [blockSteps, successes]⟩
  have hown := halong _ _ _ hinitial hpre hfrom stx evs s₂ rfl hspend
  have hnodes :=
    hown.nodes leaf amount (by rw [hpayload]; rfl) m (by rw [feeCharged_eq]; exact hunder)
  rw [feeCharged_eq, hpayload] at hnodes
  exact hasset hnodes

end State

namespace Concrete

open State

/-- The asset rule activates at height two. -/
def ruleConfig : NodeConfig ℕ := { config with mandateAssetFrom := 2 }

/-- Before the activation, a budget in asset 7, below it one in asset 8, below it one in asset 7. -/
def mixedBlock : List (SignedTx ℕ) :=
  [signed [1] 1 0 (.mandateCreate 100 none 1 7 0 9 9 9 1000 0),
    signed [1] 1 1 (.mandateCreate 101 (some 100) 1 8 0 9 9 9 1000 0),
    signed [1] 1 2 (.mandateCreate 102 (some 101) 1 7 0 9 9 9 1000 0)]

/-- After it, a spend from the lowest one. -/
def mixedSpend : SignedTx ℕ := signed [1] 1 3 (.mandateSpend 102 2 4)

def mixedStart : State ℕ := start mandateGenesis ruleConfig

/-- The state after the three creations. -/
def mixedState : State ℕ :=
  (applyBlockVerified 1 0 mixedBlock (some (mixedBlock.map fun _ => true)) mixedStart).2

/-- What evaluation shows: the creations and the spend are accepted, and the middle mandate, in
asset 8, is charged for a movement of asset 7. -/
lemma mixed_facts :
    (applyBlockVerified 1 0 mixedBlock (some (mixedBlock.map fun _ => true)) mixedStart).1 =
        .ok [⟨0, .ok [.mandateCreated 100]⟩, ⟨1, .ok [.mandateCreated 101]⟩,
          ⟨2, .ok [.mandateCreated 102]⟩] ∧
      (applyBlockVerified 2 0 [mixedSpend] (some [true]) mixedState).1 =
        .ok [⟨0, .ok [.mandateSpent 102 2 4]⟩] ∧
      (applyTxAt mixedSpend (some true) (mixedState.openedAt 2 0)).1 = .ok [.mandateSpent 102 2 4] ∧
      mixedState.height = 1 ∧ mixedState.time = 0 ∧ mixedState.mandateAssetFrom = 2 ∧
      mixedState.mandates.isUnder 101 102 = true ∧ mixedState.mandates.assetOf 101 = some 8 ∧
      mixedState.mandates.assetOf 102 = some 7 := by
  decide +kernel

/-- The sinks miss the middle of the chain: on a tree built before the activation, a spend above the
activation height charges a mandate in asset 8 for a movement of asset 7. -/
theorem mixedSpend_not_ownAsset : ∃ steps s, Path BlockStep mixedStart steps s ∧
    ¬ Path.Along ElemStep mixedStart steps.flatten OwnAssetAt := by
  obtain ⟨hcreate, hspend, htx, hheight, htime, hfrom, hunder, h101, h102⟩ := mixed_facts
  have hinit : Initial mandateGenesis mixedStart := initial_start _ (by decide +kernel)
  have hcreateStep := blockStep_of_outcome (by simp [mixedBlock, verifyEnvelope_signed]) hcreate
  rw [← mixedState] at hcreateStep
  have hverified : [mixedSpend].map verifyEnvelope = [mixedSpend].map fun _ => true := by
    simp [mixedSpend, verifyEnvelope_signed]
  have hspendStep := blockStep_of_outcome hverified hspend
  have hpayload : mixedSpend.payload = .mandateSpend 102 2 4 := payload_signed _ _ _ _
  have hnext : mixedState.height + 1 = 2 := by rw [hheight]
  have hasset : mixedState.mandates.assetOf 101 ≠ mixedState.mandates.assetOf 102 := by
    rw [h101, h102]
    decide
  exact ⟨_, _, .snoc (.single hcreateStep) hspendStep, not_along_of_mixed hinit.fresh.fits
    hcreateStep hnext htime hfrom.le (.tx (Exec.eq_of_outcome htx)) hpayload hunder hasset⟩

/-- A spend from a part of a budget charges part and whole in their one asset. -/
theorem spendBlock_ownAsset : ∃ steps s, Path BlockStep (start mandateGenesis config) steps s ∧
    s.mandates.isUnder 100 101 = true ∧
    Path.Along ElemStep (start mandateGenesis config) steps.flatten OwnAssetAt := by
  have hpath := Path.snoc (.single granted_step) drawn_step
  refine ⟨_, _, hpath, drawn_facts.2.2.2.1, ownAsset_of_run initial_mandateGenesis hpath ?_⟩
  -- the rule is active from the start
  rintro pre l s - hpre tx - hbefore
  have hfrom := hpre.invariant (I := fun s => s.mandateAssetFrom = 0) (by decide +kernel)
    fun s l s' _ hs hstep => (mandateAssetFrom_elemStep hstep).trans hs
  omega

/-- No mandate stands before its creation. -/
example : (start mandateGenesis config).mandates.assetOf 100 = none := by decide +kernel

end Concrete

end HashKinetics
