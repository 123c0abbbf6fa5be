import HashKinetics.Mandate.Walk
import HashKinetics.State.MandateBudget

/-!
# The mandate tree of the chain

Every reachable state holds a tree on which a walk from a node to its root is safe: the node's
ancestors exist, the walk ends, and the root has the account that funds it.  The refusals that
name a missing mandate therefore come only from a missing mandate in the transaction itself.
-/

namespace HashKinetics.State

open Foundations

variable {H : Type} [LinearOrder H] [HashSuite H]

/-- The mandate tree of a state. -/
structure MandateInvariant (s : State H) : Prop where
  parent : ∀ (id : H) n p, s.mandates.nodes[id]? = some n → n.parent = some p →
    ∃ parent, s.mandates.nodes[p]? = some parent ∧ n.expiry ≤ parent.expiry ∧
      n.perTxMax ≤ parent.perTxMax
  acyclic : ∀ id, ¬ Relation.TransGen s.mandates.ParentOf id id
  buffer : ∀ (id : H) n, s.mandates.nodes[id]? = some n → n.buffer ≤ n.bufferMax
  accrued : ∀ (id : H) n, s.mandates.nodes[id]? = some n → n.lastAccrual ≤ s.time
  funding : ∀ r : H, (∃ funder, s.rootFunding[r]? = some funder) ↔ s.mandates.IsRoot r

/-- The inductive form of the invariant. -/
structure MandateSound (s : State H) : Prop where
  shaped : s.mandates.Shaped s.time
  funding : ∀ r : H, (∃ funder, s.rootFunding[r]? = some funder) ↔ s.mandates.IsRoot r

omit [HashSuite H] in
/-- Soundness is the invariant and more. -/
lemma MandateSound.invariant {s : State H} (h : s.MandateSound) : s.MandateInvariant where
  parent id n p hn hp := by
    obtain ⟨parent, hparent, hnarrow⟩ := h.shaped.narrows id n p hn hp
    exact ⟨parent, hparent, hnarrow.expiry, hnarrow.perTxMax⟩
  acyclic := h.shaped.acyclic
  buffer := h.shaped.buffer
  accrued := h.shaped.accrued
  funding := h.funding

/-! ## What moves the tree -/

/-- What a transaction body does to the mandates and to the accounts that fund them. -/
inductive MandateMove (s s' : State H) : Prop
  | idle (hm : s'.mandates = s.mandates) (hf : s'.rootFunding = s.rootFunding)
  | drawn {leaf : H} {amount : ℕ} {chain : List H}
      (h : s.mandates.Spent leaf amount s.time chain s'.mandates)
      (hf : s'.rootFunding = s.rootFunding)
  | revoked {id : H} {node : MandateNode H} (hnode : s.mandates.nodes[id]? = some node)
      (hm : s'.mandates = ⟨s.mandates.nodes.insert id { node with revoked := true }⟩)
      (hf : s'.rootFunding = s.rootFunding)
  | created {sender : H} {node : MandateNode H} (h : Created s sender node s')

/-- Every body moves the tree by one of the moves, or not at all. -/
lemma mandateMove_dispatch {s s' : State H} {sender : H} {tx : Tx H} {evs : List (Event H)}
    (h : dispatch sender tx s = (.ok evs, s')) : MandateMove s s' := by
  cases tx with
  | transfer dst asset amount =>
    obtain ⟨-, -, -, -, rfl⟩ := doTransfer_eq_ok h
    exact .idle rfl rfl
  | mandateCreate id parent holder asset rate bufferMax perTxMax initial expiry tier =>
    obtain ⟨-, hc⟩ := doMandateCreate_eq_ok h
    exact .created hc
  | mandateSpend leaf dst amount =>
    obtain ⟨asset, funder, chain, t, hdraw, -, -, -, rfl⟩ := doMandateSpend_eq_ok h
    exact .drawn hdraw.spent rfl
  | mandateRevoke target =>
    obtain ⟨node, hnode, -, -, rfl⟩ := doMandateRevoke_eq_ok h
    exact .revoked hnode rfl rfl
  | channelOpen id mandate payee asset tip unitPrice maxSteps expiry =>
    obtain ⟨funder, chain, t, hdraw, -, -, -, -, -, -, rfl⟩ := doChannelOpen_eq_ok h
    exact .drawn hdraw.spent rfl
  | channelSettle id word step =>
    obtain ⟨ch, -, -, -, -, -, -, -, rfl⟩ := doChannelSettle_eq_ok h
    exact .idle rfl rfl
  | channelRefund id =>
    obtain ⟨ch, -, -, -, -, -, -, rfl⟩ := doChannelRefund_eq_ok h
    exact .idle rfl rfl
  | mintToPool asset value commitment proof ct =>
    obtain ⟨key, -, -, -, -, -, -, -, -, -, rfl⟩ := doMintToPool_eq_ok h
    exact .idle rfl rfl
  | shieldedSpend anchor nf out out2 fee creditTo mandate proof ct ct2 =>
    obtain ⟨key, pool, t, hun, -, hpaid⟩ := doShieldedSpend_eq_ok h
    have hm : s'.mandates = t ∧ s'.rootFunding = s.rootFunding := by
      rcases hpaid with ⟨-, rfl⟩ | ⟨-, dst, asset, -, -, -, rfl⟩ <;> exact ⟨rfl, rfl⟩
    cases hun.leg with
    | none => exact .idle hm.1 hm.2
    | some _ _ _ hspent => exact .drawn (hm.1 ▸ hspent) hm.2
  | accountCreate id authCommit asset amount =>
    obtain ⟨-, -, -, ⟨-, rfl⟩ | ⟨-, -, -, rfl⟩⟩ := doAccountCreate_eq_ok h <;> exact .idle rfl rfl
  | assetRegister asset symbol decimals policy =>
    obtain ⟨-, -, -, rfl⟩ := doAssetRegister_eq_ok h
    exact .idle rfl rfl
  | assetMint asset dst amount =>
    obtain ⟨info, -, -, -, -, -, -, -, rfl⟩ := doAssetMint_eq_ok h
    exact .idle rfl rfl
  | assetBurn asset amount destination =>
    obtain ⟨info, -, -, -, -, -, rfl⟩ := doAssetBurn_eq_ok h
    exact .idle rfl rfl
  | assetFreeze asset account frozen =>
    obtain ⟨info, -, -, -, -, rfl⟩ := doAssetFreeze_eq_ok h
    exact .idle rfl rfl
  | assetPause asset paused =>
    obtain ⟨info, -, -, -, -, rfl⟩ := doAssetPause_eq_ok h
    exact .idle rfl rfl

omit [HashSuite H] in
/-- The funding accounts after a creation. -/
lemma Created.rootFunding_eq {s s' : State H} {sender : H} {node : MandateNode H}
    (h : Created s sender node s') (r : H) :
    s'.rootFunding[r]? =
      if node.id = r ∧ node.parent = none then some sender else s.rootFunding[r]? := by
  rw [h.result]
  cases hp : node.parent with
  | some p => simp
  | none => simp [OrderedMap.get_insert]

omit [HashSuite H] in
/-- A move keeps the tree sound. -/
lemma MandateSound.move {s s' : State H} (h : s.MandateSound) (hmove : MandateMove s s')
    (htime : s'.time = s.time) : s'.MandateSound := by
  cases hmove with
  | idle hm hf =>
    refine ⟨?_, fun r => ?_⟩
    · rw [hm, htime]
      exact h.shaped
    · rw [hm, hf]
      exact h.funding r
  | drawn hspent hf =>
    refine ⟨?_, fun r => ?_⟩
    · rw [htime]
      exact h.shaped.spent hspent
    · rw [hf, MandateTree.isRoot_spent hspent]
      exact h.funding r
  | revoked hnode hm hf =>
    refine ⟨?_, fun r => ?_⟩
    · rw [hm, htime]
      exact h.shaped.revoked hnode
    · rw [hm, hf, MandateTree.isRoot_revoked hnode]
      exact h.funding r
  | @created sender node hc =>
    refine ⟨?_, fun r => ?_⟩
    · rw [hc.mandates_eq, htime]
      refine h.shaped.created hc.fresh (fun p hp => ?_) hc.buffer hc.lastAccrual.le
      obtain ⟨parent, hparent, -, hexpiry, hmax, -⟩ := hc.parent p hp
      exact ⟨parent, hparent, hexpiry, hmax⟩
    · rw [hc.rootFunding_eq, hc.mandates_eq, MandateTree.isRoot_created hc.fresh, ← h.funding r]
      split_ifs with hr
      · exact iff_of_true ⟨sender, rfl⟩ (.inr hr)
      · exact ⟨.inl, fun hor => hor.resolve_right hr⟩

omit [HashSuite H] in
/-- A move keeps the account that funds a root. -/
lemma MandateSound.rootFunding_move {s s' : State H} (h : s.MandateSound)
    (hmove : MandateMove s s') {r funder : H} (hr : s.rootFunding[r]? = some funder) :
    s'.rootFunding[r]? = some funder := by
  cases hmove with
  | idle _ hf => rw [hf, hr]
  | drawn _ hf => rw [hf, hr]
  | revoked _ _ hf => rw [hf, hr]
  | created hc =>
    rw [hc.rootFunding_eq, if_neg, hr]
    rintro ⟨rfl, -⟩
    obtain ⟨n, hn, -⟩ := (h.funding _).mp ⟨funder, hr⟩
    rw [hc.fresh] at hn
    cases hn

variable [TxCodec H]

/-- What one step of a run does to the tree. -/
lemma MandateSound.elemStep {s s' : State H} {l : Elementary H} (h : s.MandateSound)
    (hstep : ElemStep s l s') : s'.MandateSound ∧
      ∀ r funder : H, s.rootFunding[r]? = some funder → s'.rootFunding[r]? = some funder := by
  cases hstep with
  | openBlock _ ht => exact ⟨⟨h.shaped.mono ht, h.funding⟩, fun _ _ hr => hr⟩
  | @tx _ stx _ _ htx =>
    obtain ⟨s₁, henv⟩ := applyTxAt_eq_ok htx
    obtain ⟨acc, -, -, rfl⟩ := henv.ratchet
    have hbody := henv.body
    rw [feeCharged_eq] at hbody
    set charged : State H := { s with balances := (s.feeCharged stx.sender).balances } with hcharged
    have hsound : charged.MandateSound := ⟨h.shaped, h.funding⟩
    have hmove := mandateMove_dispatch hbody
    have htime : s₁.time = charged.time := congrArg Frame.time (frame_dispatch hbody)
    have hafter := hsound.move hmove htime
    exact ⟨⟨hafter.shaped, hafter.funding⟩, fun r funder hr => hsound.rootFunding_move hmove hr⟩
  | closeBlock => exact ⟨⟨h.shaped, h.funding⟩, fun _ _ hr => hr⟩
  | cover => exact ⟨⟨h.shaped, h.funding⟩, fun _ _ hr => hr⟩

omit [TxCodec H] in
/-- The empty tree is sound. -/
lemma Fresh.mandateSound {s : State H} (h : Fresh s) : s.MandateSound := by
  refine ⟨?_, fun r => ?_⟩
  · rw [h.mandates]
    exact MandateTree.shaped_empty _
  · rw [h.rootFunding, h.mandates]
    simp [MandateTree.IsRoot]

/-- The tree is sound in every state of a run. -/
lemma Visited.mandateSound {g : Genesis H} {s : State H} (h : Visited g s) : s.MandateSound := by
  obtain ⟨s₀, ls, hinit, hpath⟩ := h
  exact hpath.invariant hinit.fresh.mandateSound fun _ _ _ _ hs hstep => (hs.elemStep hstep).1

/-! ## Refusals that name a mandate -/

omit [TxCodec H] in
/-- A mandate the transaction itself names is missing; a channel also names the asset of its
mandate. -/
def NamesMissingMandate (s : State H) : Tx H → Prop
  | .mandateCreate _ parent _ _ _ _ _ _ _ _ => ∃ p, parent = some p ∧ s.mandates.nodes[p]? = none
  | .mandateSpend leaf _ _ => s.mandates.nodes[leaf]? = none
  | .mandateRevoke target => s.mandates.nodes[target]? = none
  | .channelOpen _ mandate _ asset _ _ _ _ => s.mandates.assetOf mandate ≠ some asset
  | .shieldedSpend _ _ _ _ _ _ mandate _ _ _ =>
    ∃ m, mandate = some m ∧ s.mandates.nodes[m]? = none
  | _ => False

/-- The tree misses no node, and a mandate is unknown only if `missing`. -/
def Blames (missing : Prop) (e : StateError) : Prop :=
  e ≠ .mandate .notFound ∧ (e = .unknownMandate → missing)

section Bodies

omit [TxCodec H]

variable {s : State H} {missing : Prop}

/-- An error that is not about a missing mandate blames nothing. -/
lemma blames_of_ne {e : StateError} (h₁ : e ≠ .mandate .notFound) (h₂ : e ≠ .unknownMandate) :
    Blames missing e :=
  ⟨h₁, fun h => absurd h h₂⟩

/-- Nor does an error of the tree but one. -/
lemma blames_mandate {e : SpendError} (h : e ≠ .notFound) : Blames missing (.mandate e) :=
  blames_of_ne (fun heq => h (StateError.mandate.inj heq)) (by simp)

omit [HashSuite H] in
/-- The pause and freeze gate blames no mandate. -/
lemma blames_assetGate {asset : H} {src dst : Option H} {e : StateError}
    (h : s.assetGate asset src dst = .error e) : Blames missing e := by
  unfold assetGate at h
  split at h
  · split at h
    · cases h
      exact blames_of_ne (by simp) (by simp)
    · split at h
      · cases h
        exact blames_of_ne (by simp) (by simp)
      · cases h
  · cases h

omit [HashSuite H] in
/-- The check of an issuer blames no mandate. -/
lemma blames_issuerEntry {sender asset : H} {allowed : AssetPolicy → Bool} {e : StateError}
    (h : s.issuerEntry sender asset allowed = .error e) : Blames missing e := by
  unfold issuerEntry at h
  split at h
  · cases h
    exact blames_of_ne (by simp) (by simp)
  · split at h
    · cases h
      exact blames_of_ne (by simp) (by simp)
    · split at h
      · cases h
        exact blames_of_ne (by simp) (by simp)
      · cases h

omit [HashSuite H] in
/-- The choice of a pool blames no mandate. -/
lemma blames_poolKeyOfAsset {asset : H} {e : StateError}
    (h : s.poolKeyOfAsset asset = .error e) : Blames missing e := by
  unfold poolKeyOfAsset at h
  split at h
  · cases h
  · split_ifs at h
    cases h
    exact blames_of_ne (by simp) (by simp)

omit [HashSuite H] in
/-- A debit blames no mandate. -/
lemma refuses_debit (id asset : H) (amount : ℕ) :
    (debit id asset amount).Refuses s (Blames missing) :=
  .get (.rejectIf (fun _ => blames_of_ne (by simp) (by simp)) fun _ =>
    (Exec.infallible_modify _).refuses s _)

omit [HashSuite H] in
/-- The look-up of a holder blames the mandate it looks up. -/
lemma blames_holderOf {id : H} {e : StateError} (h : s.holderOf id = .error e)
    (hmissing : s.mandates.nodes[id]? = none → missing) : Blames missing e := by
  unfold holderOf at h
  split at h
  · cases h
  · next hnone =>
    cases h
    exact ⟨by simp, fun _ => hmissing hnone⟩

omit [HashSuite H] in
/-- The sink rule finds the leaf and its root. -/
lemma blames_assetBound {leaf root : H} {n : MandateNode H}
    (hn : s.mandates.nodes[leaf]? = some n) (hroot : s.mandates.rootOf leaf = .ok root)
    {e : StateError} (h : s.checkMandateAssetBound leaf root = .error e) : Blames missing e := by
  obtain ⟨rn, hrn, -⟩ := MandateTree.rootOf_ok hroot
  have hleaf : s.mandates.get leaf = some n := hn
  have hget : s.mandates.get root = some rn := hrn
  simp only [checkMandateAssetBound, hleaf, hget] at h
  split at h
  · cases h
    exact blames_of_ne (by simp) (by simp)
  · cases h

omit [HashSuite H] in
/-- In a sound tree the walk to the root finds every mandate on its way. -/
lemma MandateSound.blames_rootOf (hs : s.MandateSound) {leaf : H} {n : MandateNode H}
    (hn : s.mandates.nodes[leaf]? = some n) {e : SpendError}
    (h : s.mandates.rootOf leaf = .err e) : Blames missing (.mandate e) := by
  apply blames_mandate
  rintro rfl
  exact hs.shaped.chainOf_ne_notFound hn (MandateTree.rootOf_err h)

omit [HashSuite H] in
/-- The root that the walk found is funded. -/
lemma MandateSound.rootFunding_ne_none (hs : s.MandateSound) {leaf root : H}
    (hroot : s.mandates.rootOf leaf = .ok root) : s.rootFunding[root]? ≠ none := by
  obtain ⟨funder, hfunder⟩ := (hs.funding root).mpr (MandateTree.rootOf_ok hroot)
  rw [hfunder]
  simp

omit [HashSuite H] in
/-- What the tree refuses blames a mandate only if the tree did not find one. -/
lemma refuses_onMandates {α : Type} {x : Exec (MandateTree H) SpendError α}
    (h : x.Refuses s.mandates (· ≠ .notFound)) :
    (onMandates x).Refuses s (Blames missing) :=
  Exec.Refuses.zoom fun e he => blames_mandate (h e he)

omit [HashSuite H] in
/-- The checks of a sink from the walk on, up to the state that the check of the tree leaves. -/
lemma MandateSound.refuses_sink (hs : s.MandateSound) {leaf : H} {n : MandateNode H}
    (hn : s.mandates.nodes[leaf]? = some n) {amount : ℕ} {α : Type}
    {rest : H → Exec (State H) StateError α}
    (hrest : ∀ funder, (rest funder).Refuses s (Blames missing)) :
    (do
      let root ← Exec.ofOutcome .mandate (s.mandates.rootOf leaf)
      let funder ← Exec.okOr s.rootFunding[root]? .unknownMandate
      Exec.ofExcept id
        (if s.mandateAssetFrom ≤ s.height then s.checkMandateAssetBound leaf root else .ok ())
      onMandates (MandateTree.check leaf amount s.time)
      rest funder : Exec (State H) StateError α).Refuses s (Blames missing) := by
  refine .ofOutcome (fun e he => hs.blames_rootOf hn he) fun root hroot => ?_
  refine .okOr (fun hnone => absurd hnone (hs.rootFunding_ne_none hroot)) fun funder _ => ?_
  refine .ofExcept (fun e he => ?_) fun _ _ => ?_
  · split_ifs at he
    exact blames_assetBound hn hroot he
  refine (refuses_onMandates (hs.shaped.refuses_check hn _ _)).bind fun _ s₁ hcheck => ?_
  obtain ⟨t, ht, rfl⟩ := onMandates_eq_ok.mp hcheck
  obtain ⟨rfl, -⟩ := MandateTree.check_eq_ok ht
  exact hrest funder

omit [HashSuite H] in
/-- A spend blames its leaf. -/
lemma MandateSound.refuses_mandateSpend (hs : s.MandateSound) (sender leaf dst : H) (amount : ℕ) :
    (doMandateSpend sender leaf dst amount).Refuses s
      (Blames (s.mandates.nodes[leaf]? = none)) := by
  refine .rejectIf (fun _ => blames_of_ne (by simp) (by simp)) fun _ => .get ?_
  refine .ofExcept (fun e he => blames_holderOf he fun h => h) fun holder hholder => ?_
  obtain ⟨n, hn, -⟩ := get_of_holderOf hholder
  refine .rejectIf (fun _ => blames_of_ne (by simp) (by simp)) fun _ => ?_
  refine .okOr (fun hnone => absurd hnone (by rw [hn]; simp)) fun leafNode _ => ?_
  refine hs.refuses_sink hn fun funder => ?_
  refine .ofExcept (fun e he => blames_assetGate he) fun _ _ => ?_
  refine .rejectIf (fun _ => blames_of_ne (by simp) (by simp)) fun _ => ?_
  refine (refuses_onMandates (hs.shaped.refuses_spend hn _ _)).bind fun _ s₁ _ => ?_
  exact (((Exec.infallible_expect _).bind fun _ => (Exec.infallible_modify _).bind fun _ =>
    Exec.infallible_pure _).refuses s₁ _)

/-- An opening blames its mandate, which is missing or of another asset. -/
lemma MandateSound.refuses_channelOpen (hs : s.MandateSound)
    (sender chId mandate payee asset tip : H) (unitPrice maxSteps expiry : ℕ) :
    (doChannelOpen sender chId mandate payee asset tip unitPrice maxSteps expiry).Refuses s
      (Blames (s.mandates.assetOf mandate ≠ some asset)) := by
  refine .get (.rejectIf (fun _ => blames_of_ne (by simp) (by simp)) fun _ => ?_)
  refine .rejectIf (fun _ => blames_of_ne (by simp) (by simp)) fun _ => ?_
  refine .rejectIf (fun _ => blames_of_ne (by simp) (by simp)) fun _ => ?_
  refine .ofExcept (fun e he => blames_holderOf he fun hnone => ?_) fun holder hholder => ?_
  · simp [MandateTree.assetOf, hnone]
  obtain ⟨n, hn, -⟩ := get_of_holderOf hholder
  refine .rejectIf (fun _ => blames_of_ne (by simp) (by simp)) fun _ => ?_
  refine .okOr (fun _ => blames_of_ne (by simp) (by simp)) fun acc _ => ?_
  refine .rejectIf (fun _ => blames_of_ne (by simp) (by simp)) fun _ => ?_
  refine .okOr (fun _ => blames_of_ne (by simp) (by simp)) fun deposit _ => ?_
  refine .okOr (fun hnone => absurd hnone (by rw [hn]; simp)) fun node hnode => ?_
  refine .rejectIf (fun hasset => ⟨by simp, fun _ => ?_⟩) fun _ => ?_
  · have hget : s.mandates.nodes[mandate]? = some node := hnode
    rw [MandateTree.assetOf, hget]
    exact fun heq => hasset (Option.some.inj heq)
  refine hs.refuses_sink hn fun funder => ?_
  refine .ofExcept (fun e he => blames_assetGate he) fun _ _ => ?_
  refine .rejectIf (fun _ => blames_of_ne (by simp) (by simp)) fun _ => ?_
  refine (refuses_onMandates (hs.shaped.refuses_spend hn _ _)).bind fun _ s₁ _ => ?_
  exact (((Exec.infallible_expect _).bind fun _ => (Exec.infallible_modify _).bind fun _ =>
    Exec.infallible_pure _).refuses s₁ _)

omit [HashSuite H] in
/-- A revocation blames its target. -/
lemma MandateSound.refuses_mandateRevoke (hs : s.MandateSound) (sender target : H) :
    (doMandateRevoke sender target).Refuses s (Blames (s.mandates.nodes[target]? = none)) := by
  refine .get (.okOr (fun hnone => ⟨by simp, fun _ => hnone⟩) fun node hnode => ?_)
  have hget : s.mandates.nodes[target]? = some node := hnode
  refine .ofExcept (fun e he => ?_) fun authorizer _ => ?_
  · cases hp : node.parent with
    | none =>
      rw [hp] at he
      exact blames_holderOf he fun h => h
    | some p =>
      rw [hp] at he
      obtain ⟨parent, hparent, -⟩ := hs.shaped.narrows target node p hget hp
      refine blames_holderOf he fun hnone => ?_
      rw [hparent] at hnone
      cases hnone
  refine .rejectIf (fun _ => blames_of_ne (by simp) (by simp)) fun _ => ?_
  refine (refuses_onMandates (MandateTree.refuses_revoke hget)).bind fun _ s₁ _ => ?_
  exact (Exec.infallible_pure _).refuses s₁ _

omit [HashSuite H] in
/-- A creation blames its parent. -/
lemma refuses_mandateCreate (sender mid : H) (parent : Option H) (holder asset : H)
    (rate bufferMax perTxMax initial expiry tier : ℕ) :
    (doMandateCreate sender mid parent holder asset rate bufferMax perTxMax initial expiry
      tier).Refuses s (Blames (∃ p, parent = some p ∧ s.mandates.nodes[p]? = none)) := by
  refine .get (.rejectIf (fun _ => blames_of_ne (by simp) (by simp)) fun _ => ?_)
  refine .ofExcept (fun e he => ?_) fun _ hparent => ?_
  · cases parent with
    | none => cases he
    | some p =>
      simp only [checkMandateParent, bind, Except.bind] at he
      split at he
      · next e' hholder =>
        cases he
        exact blames_holderOf hholder fun hnone => ⟨p, rfl, hnone⟩
      next h hholder =>
      obtain ⟨n, hn, -⟩ := get_of_holderOf hholder
      split_ifs at he
      · cases he
        exact blames_of_ne (by simp) (by simp)
      · rw [hn] at he
        simp only at he
        split at he
        · cases he
          exact blames_of_ne (by simp) (by simp)
        · cases he
  have hfound : ∀ p, parent = some p → ∃ node, s.mandates.nodes[p]? = some node := by
    rintro p rfl
    obtain ⟨node, hnode, -⟩ := parent_of_checkMandateParent hparent
    exact ⟨node, hnode⟩
  refine (refuses_onMandates ?_).bind fun _ s₁ _ => ?_
  · unfold insertMandate
    split_ifs
    · exact MandateTree.refuses_insertAssetBound hfound
    · exact MandateTree.refuses_insert hfound
  exact ((Exec.infallible_modify _).when.bind fun _ => Exec.infallible_pure _).refuses s₁ _

/-- An unshield blames its mandate. -/
lemma MandateSound.refuses_shieldedSpend (hs : s.MandateSound) (sender anchor nf out out2 : H)
    (fee : ℕ) (creditTo mandate : Option H) (proof : List UInt8) :
    (doShieldedSpend sender anchor nf out out2 fee creditTo mandate proof).Refuses s
      (Blames (∃ m, mandate = some m ∧ s.mandates.nodes[m]? = none)) := by
  refine .rejectIf (fun _ => blames_of_ne (by simp) (by simp)) fun _ => ?_
  refine .rejectIf (fun _ => blames_of_ne (by simp) (by simp)) fun _ => .get ?_
  refine Exec.Refuses.bind ?_ fun _ s₁ hcheck => ?_
  · cases mandate with
    | none => exact (Exec.infallible_pure _).refuses s _
    | some m =>
      refine .rejectIf (fun _ => blames_of_ne (by simp) (by simp)) fun _ => ?_
      refine .ofExcept (fun e he => blames_holderOf he fun h => ⟨m, rfl, h⟩) fun holder hholder =>
        ?_
      obtain ⟨n, hn, -⟩ := get_of_holderOf hholder
      refine .rejectIf (fun _ => blames_of_ne (by simp) (by simp)) fun _ => ?_
      exact refuses_onMandates (hs.shaped.refuses_check hn _ _)
  -- past the check the leaf exists and the state is unchanged
  obtain ⟨hsame, hleaf⟩ : s₁ = s ∧ ∀ m, mandate = some m → ∃ n, s.mandates.nodes[m]? = some n := by
    cases mandate with
    | none =>
      obtain ⟨-, rfl⟩ := Exec.pure_eq_ok.mp hcheck
      exact ⟨rfl, fun m hm => by cases hm⟩
    | some m =>
      simp only [checkSpendMandate, Exec.bind_eq_ok, Exec.rejectIf_eq_ok, Exec.ofExcept_eq_ok,
        onMandates_eq_ok, not_not] at hcheck
      obtain ⟨_, _, ⟨-, rfl⟩, holder, _, ⟨hholder, rfl⟩, _, _, ⟨rfl, rfl⟩, t, ht, rfl⟩ := hcheck
      obtain ⟨rfl, -⟩ := MandateTree.check_eq_ok ht
      obtain ⟨n, hn, -⟩ := get_of_holderOf hholder
      refine ⟨rfl, fun m' hm' => ?_⟩
      cases hm'
      exact ⟨n, hn⟩
  subst hsame
  refine .okOr (fun _ => blames_of_ne (by simp) (by simp)) fun key _ => ?_
  refine .rejectIf (fun _ => blames_of_ne (by simp) (by simp)) fun _ => ?_
  refine Exec.Refuses.bind ?_ fun _ s₂ hbound => ?_
  · cases mandate with
    | none => exact (Exec.infallible_pure _).refuses s₁ _
    | some m =>
      obtain ⟨n, hn⟩ := hleaf m rfl
      refine .when fun _ => .ofOutcome (fun e he => hs.blames_rootOf hn he) fun root hroot => ?_
      refine .ofExcept (fun e he => blames_assetBound hn hroot he) fun _ _ => ?_
      have hget : s₁.mandates.get m = some n := hn
      refine .okOr (fun hnone => absurd hnone (by rw [hget]; simp)) fun node _ => ?_
      exact (Exec.safe_rejectIf s₁ fun _ => blames_of_ne (by simp) (by simp)).2
  have hsame := reads_checkSpendMandateAsset s₁ (s₁.poolAsset key) mandate s₁
  rw [hbound] at hsame
  obtain rfl : s₁ = s₂ := hsame.symm
  refine Exec.Refuses.bind (.when fun _ => ?_) fun _ s₂ hgate => ?_
  · refine ((Exec.infallible_unwrap _).refuses _ _).bind fun a s₂ _ => ?_
    intro e he
    cases hg : s₁.assetGate a none creditTo with
    | ok u =>
      rw [hg] at he
      cases he
    | error e' =>
      rw [hg] at he
      cases he
      exact blames_assetGate hg
  have hread : (Exec.when (0 < fee) (do
      let a ← Exec.unwrap (s₁.poolAsset key)
      Exec.ofExcept id (s₁.assetGate a none creditTo)) : Exec (State H) StateError Unit).Reads :=
    .when (.bind (Exec.reads_unwrap _) fun _ => Exec.reads_ofExcept _ _)
  obtain rfl : s₂ = s₁ := by
    have hr := hread s₁
    rw [hgate] at hr
    exact hr
  refine ((Exec.infallible_unwrap _).refuses _ _).bind fun pool s₃ hpool => ?_
  obtain ⟨-, rfl⟩ := Exec.unwrap_eq_ok.mp hpool
  refine .rejectIf (fun _ => blames_of_ne (by simp) (by simp)) fun _ => ?_
  refine .rejectIf (fun _ => blames_of_ne (by simp) (by simp)) fun _ => ?_
  refine .rejectIf (fun _ => blames_of_ne (by simp) (by simp)) fun _ => ?_
  refine Exec.Refuses.bind ?_ fun _ s₄ _ => ?_
  · cases mandate with
    | none => exact (Exec.infallible_pure _).refuses _ _
    | some m =>
      obtain ⟨n, hn⟩ := hleaf m rfl
      exact refuses_onMandates (hs.shaped.refuses_spend hn _ _)
  refine Exec.Infallible.refuses ?_ s₄ _
  refine (Exec.infallible_unwrap _).bind fun _ => (Exec.infallible_modify _).bind fun _ => ?_
  refine Exec.Infallible.bind (.when ?_) fun _ => Exec.infallible_pure _
  exact (Exec.infallible_unwrap _).bind fun _ => (Exec.infallible_unwrap _).bind fun _ =>
    Exec.infallible_modify _

/-- The other bodies never look at a mandate. -/
lemma refuses_other (sender : H) (tx : Tx H)
    (hother : tx.act = .idle) (hrevoke : ∀ target, tx ≠ .mandateRevoke target)
    (hspend : ∀ anchor nf out out2 fee credit mandate proof ct ct2,
      tx ≠ .shieldedSpend anchor nf out out2 fee credit mandate proof ct ct2) :
    (dispatch sender tx).Refuses s (Blames False) := by
  have hne : ∀ {e : StateError}, e ≠ .mandate .notFound → e ≠ .unknownMandate →
      Blames False e := blames_of_ne
  cases tx with
  | transfer dst asset amount =>
    refine .rejectIf (fun _ => hne (by simp) (by simp)) fun _ => .get ?_
    refine .ofExcept (fun e he => blames_assetGate he) fun _ _ => ?_
    refine (refuses_debit _ _ _).bind fun _ _ _ => ?_
    exact ((Exec.infallible_modify _).bind fun _ => Exec.infallible_pure _).refuses _ _
  | accountCreate id authCommit asset amount =>
    refine .rejectIf (fun _ => hne (by simp) (by simp)) fun _ => .get ?_
    refine .rejectIf (fun _ => hne (by simp) (by simp)) fun _ => ?_
    refine Exec.Refuses.bind (.when fun _ => ?_) fun _ s₁ _ => ?_
    · exact .ofExcept (fun e he => blames_assetGate he) fun _ _ => refuses_debit _ _ _
    · exact ((Exec.infallible_modify _).bind fun _ => (Exec.infallible_modify _).when.bind fun _ =>
        Exec.infallible_pure _).refuses s₁ _
  | channelSettle id word step =>
    refine .get (.okOr (fun _ => hne (by simp) (by simp)) fun ch _ => ?_)
    refine .rejectIf (fun _ => hne (by simp) (by simp)) fun _ => ?_
    refine .rejectIf (fun _ => hne (by simp) (by simp)) fun _ => ?_
    refine .rejectIf (fun _ => hne (by simp) (by simp)) fun _ => ?_
    refine .rejectIf (fun _ => hne (by simp) (by simp)) fun _ => ?_
    refine .okOr (fun _ => hne (by simp) (by simp)) fun paid _ => ?_
    refine .ofExcept (fun e he => blames_assetGate he) fun _ _ => ?_
    exact ((Exec.infallible_unwrap _).bind fun _ => (Exec.infallible_modify _).bind fun _ =>
      (Exec.infallible_modify _).bind fun _ => Exec.infallible_pure _).refuses _ _
  | channelRefund id =>
    refine .get (.okOr (fun _ => hne (by simp) (by simp)) fun ch _ => ?_)
    refine .rejectIf (fun _ => hne (by simp) (by simp)) fun _ => ?_
    refine .rejectIf (fun _ => hne (by simp) (by simp)) fun _ => ?_
    refine .rejectIf (fun _ => hne (by simp) (by simp)) fun _ => ?_
    refine .ofExcept (fun e he => blames_assetGate he) fun _ _ => ?_
    exact ((Exec.infallible_modify _).bind fun _ => (Exec.infallible_modify _).bind fun _ =>
      Exec.infallible_pure _).refuses _ _
  | mintToPool asset value commitment proof ct =>
    refine .rejectIf (fun _ => hne (by simp) (by simp)) fun _ => ?_
    refine .rejectIf (fun _ => hne (by simp) (by simp)) fun _ => .get ?_
    refine .rejectIf (fun _ => hne (by simp) (by simp)) fun _ => ?_
    refine .ofExcept (fun e he => blames_assetGate he) fun _ _ => ?_
    refine .ofExcept (fun e he => blames_poolKeyOfAsset he) fun key _ => ?_
    refine .rejectIf (fun _ => hne (by simp) (by simp)) fun _ => ?_
    refine .rejectIf (fun _ => hne (by simp) (by simp)) fun _ => ?_
    refine .rejectIf (fun _ => hne (by simp) (by simp)) fun _ => ?_
    refine (refuses_debit _ _ _).bind fun _ _ _ => .get ?_
    exact ((Exec.infallible_unwrap _).bind fun _ => (Exec.infallible_modify _).bind fun _ =>
      Exec.infallible_pure _).refuses _ _
  | assetRegister asset symbol decimals policy =>
    refine .rejectIf (fun _ => hne (by simp) (by simp)) fun _ => ?_
    refine .rejectIf (fun _ => hne (by simp) (by simp)) fun _ => ?_
    refine .rejectIf (fun _ => hne (by simp) (by simp)) fun _ => .get ?_
    refine .rejectIf (fun _ => hne (by simp) (by simp)) fun _ => ?_
    exact ((Exec.infallible_modify _).bind fun _ => Exec.infallible_pure _).refuses _ _
  | assetMint asset dst amount =>
    refine .rejectIf (fun _ => hne (by simp) (by simp)) fun _ => .get ?_
    refine .ofExcept (fun e he => blames_issuerEntry he) fun info _ => ?_
    refine .okOr (fun _ => hne (by simp) (by simp)) fun _ _ => ?_
    refine .ofExcept (fun e he => blames_assetGate he) fun _ _ => ?_
    exact ((Exec.infallible_unwrap _).bind fun _ => (Exec.infallible_unwrap _).bind fun _ =>
      (Exec.infallible_modify _).bind fun _ => (Exec.infallible_modify _).bind fun _ =>
      Exec.infallible_pure _).refuses _ _
  | assetBurn asset amount destination =>
    refine .rejectIf (fun _ => hne (by simp) (by simp)) fun _ => ?_
    refine .rejectIf (fun _ => hne (by simp) (by simp)) fun _ => .get ?_
    refine .rejectIf (fun _ => hne (by simp) (by simp)) fun _ => ?_
    refine .ofExcept (fun e he => blames_assetGate he) fun _ _ => ?_
    refine (refuses_debit _ _ _).bind fun _ _ _ => ?_
    exact ((Exec.infallible_unwrap _).bind fun _ => (Exec.infallible_modify _).bind fun _ =>
      Exec.infallible_pure _).refuses _ _
  | assetFreeze asset account frozen =>
    refine .get (.ofExcept (fun e he => blames_issuerEntry he) fun info _ => ?_)
    exact ((Exec.infallible_modify _).bind fun _ => Exec.infallible_pure _).refuses _ _
  | assetPause asset paused =>
    refine .get (.ofExcept (fun e he => blames_issuerEntry he) fun info _ => ?_)
    exact ((Exec.infallible_modify _).bind fun _ => Exec.infallible_pure _).refuses _ _
  | mandateRevoke target => exact absurd rfl (hrevoke target)
  | shieldedSpend anchor nf out out2 fee credit mandate proof ct ct2 =>
    exact absurd rfl (hspend anchor nf out out2 fee credit mandate proof ct ct2)
  | mandateCreate => cases hother
  | mandateSpend => cases hother
  | channelOpen => cases hother

/-- A body is refused for a missing mandate only if the transaction names one that is missing. -/
lemma MandateSound.refuses_dispatch (hs : s.MandateSound) (sender : H) (tx : Tx H) :
    (dispatch sender tx).Refuses s (Blames (s.NamesMissingMandate tx)) := by
  have hother : ∀ tx : Tx H, tx.act = .idle → (∀ target, tx ≠ .mandateRevoke target) →
      (∀ anchor nf out out2 fee credit mandate proof ct ct2,
        tx ≠ .shieldedSpend anchor nf out out2 fee credit mandate proof ct ct2) →
      (dispatch sender tx).Refuses s (Blames (s.NamesMissingMandate tx)) :=
    fun tx h₁ h₂ h₃ e he =>
      (refuses_other sender tx h₁ h₂ h₃ e he).imp_right fun hunknown h => (hunknown h).elim
  cases tx with
  | mandateCreate id parent holder asset rate bufferMax perTxMax initial expiry tier =>
    exact refuses_mandateCreate sender id parent holder asset rate bufferMax.val perTxMax initial
      expiry tier
  | mandateSpend leaf dst amount => exact hs.refuses_mandateSpend sender leaf dst amount
  | mandateRevoke target => exact hs.refuses_mandateRevoke sender target
  | channelOpen id mandate payee asset tip unitPrice maxSteps expiry =>
    exact hs.refuses_channelOpen sender id mandate payee asset tip unitPrice maxSteps expiry
  | shieldedSpend anchor nf out out2 fee credit mandate proof ct ct2 =>
    exact hs.refuses_shieldedSpend sender anchor nf out out2 fee credit mandate proof
  | _ => exact hother _ rfl (by simp) (by simp)

end Bodies

/-- The same for a whole transaction: the envelope and the fee never look at a mandate. -/
lemma MandateSound.refuses_applyTxAt {s : State H} (hs : s.MandateSound) (stx : SignedTx H)
    (preSig : Option Bool) :
    (applyTxAt stx preSig).Refuses s (Blames (s.NamesMissingMandate stx.payload)) := by
  refine .get (.okOr (fun _ => blames_of_ne (by simp) (by simp)) fun acc _ => ?_)
  refine .rejectIf (fun _ => blames_of_ne (by simp) (by simp)) fun _ => ?_
  refine .rejectIf (fun _ => blames_of_ne (by simp) (by simp)) fun _ => ?_
  refine .rejectIf (fun _ => blames_of_ne (by simp) (by simp)) fun _ => ?_
  refine .rejectIf (fun _ => blames_of_ne (by simp) (by simp)) fun _ => ?_
  refine Exec.Refuses.bind (.when fun _ => .get ?_) fun _ s₁ hcharge => ?_
  · exact .rejectIf (fun _ => blames_of_ne (by simp) (by simp)) fun _ =>
      (Exec.infallible_expect _).refuses _ _
  obtain ⟨rfl, -⟩ := chargeFee_eq_ok hcharge
  refine Exec.Refuses.bind (fun e he => ?_) fun evs s₂ _ => ?_
  · have hbody : (dispatch stx.sender stx.payload (s.feeCharged stx.sender)).1 = .err e := by
      unfold Exec.onErr at he
      rcases h : dispatch stx.sender stx.payload (s.feeCharged stx.sender) with ⟨_ | e' | _, s₂⟩
      all_goals simp only [h] at he
      · cases he
      · split at he <;> cases he
        rfl
      · cases he
    rw [feeCharged_eq] at hbody
    have hcharged : ({ s with balances := (s.feeCharged stx.sender).balances } :
      State H).MandateSound := ⟨hs.shaped, hs.funding⟩
    have hblames := hcharged.refuses_dispatch stx.sender stx.payload e hbody
    refine ⟨hblames.1, fun hunknown => ?_⟩
    have hmissing := hblames.2 hunknown
    cases hpayload : stx.payload <;> rw [hpayload] at hmissing <;> exact hmissing
  · refine Exec.Infallible.refuses ?_ s₂ _
    refine (Exec.infallible_modify _).when.bind fun _ => Exec.Infallible.bind ?_ fun _ =>
      Exec.infallible_pure _
    exact Exec.infallible_get.bind fun _ => (Exec.infallible_unwrap _).bind fun _ =>
      (Exec.infallible_unwrap _).bind fun _ => Exec.infallible_modify _

/-! ## Every state of a run -/

/-- **The mandate tree of every state of a run**, between blocks and within one: its invariant holds
and the account that funds a root stays the same from then on; the walk from a node of a depth below
the limit reaches a root with a funder; and a transaction, whether its signature was checked before
or not, is refused for a missing mandate only if it names one itself. -/
theorem mandateInvariant_of_visited {g : Genesis H} {s : State H} (hvisited : Visited g s) :
    s.MandateInvariant ∧
    (∀ s' ls, Path ElemStep s ls s' → ∀ r funder : H, s.rootFunding[r]? = some funder →
      s'.rootFunding[r]? = some funder) ∧
    (∀ (id : H) n, s.mandates.nodes[id]? = some n → ∃ depth, s.mandates.DepthOf id depth ∧
      (depth < MAX_DEPTH → ∃ chain root funder, s.mandates.chainOf id = .ok chain ∧
        s.mandates.rootOf id = .ok root ∧ s.mandates.IsRoot root ∧
        s.rootFunding[root]? = some funder)) ∧
    ∀ stx preSig e s', applyTxAt stx preSig s = (.err e, s') → e ≠ .mandate .notFound ∧
      (e = .unknownMandate → s.NamesMissingMandate stx.payload) := by
  have hs := hvisited.mandateSound
  refine ⟨hs.invariant, fun s' ls hpath r funder hr => ?_, fun id n hn => ?_,
    fun stx preSig e s' h => hs.refuses_applyTxAt stx preSig e (by rw [h])⟩
  · have hrun := hpath.invariant
      (I := fun s => s.MandateSound ∧ s.rootFunding[r]? = some funder) ⟨hs, hr⟩
      fun _ _ _ _ hI hstep => ⟨(hI.1.elemStep hstep).1, (hI.1.elemStep hstep).2 r funder hI.2⟩
    exact hrun.2
  · obtain ⟨chain, hchain⟩ := hs.shaped.chain id n hn
    have hlen : 0 < chain.length := List.length_pos_of_mem hchain.head_mem
    refine ⟨chain.length - 1, ⟨chain, hchain, by omega⟩, fun hdepth => ?_⟩
    have hwalk : s.mandates.chainOf id = .ok chain := by
      rw [MandateTree.chainOf, hchain.chainFrom_eq, if_pos (by omega)]
    have hroot := MandateTree.rootOf_eq_ok_getLastD hwalk
    obtain ⟨funder, hfunder⟩ := (hs.funding _).mpr (MandateTree.rootOf_ok hroot)
    exact ⟨chain, _, funder, hwalk, hroot, MandateTree.rootOf_ok hroot, hfunder⟩

end HashKinetics.State

namespace HashKinetics.Concrete

open State

/-- A spend from a mandate that nobody created is refused for the leaf it names. -/
theorem unknownLeaf_refused : ∃ stx s', stx.payload = .mandateSpend 101 2 4 ∧
    applyTx stx granted = (.err .unknownMandate, s') ∧ granted.NamesMissingMandate stx.payload := by
  have hreach : Reachable mandateGenesis granted :=
    ⟨_, _, initial_mandateGenesis, .single granted_step⟩
  have herr : (applyTx (signed [2] 2 0 (.mandateSpend 101 2 4)) granted).1 =
      .err .unknownMandate := by
    rw [applyTx, ← applyTxAt_verdict, verifyEnvelope_signed]
    decide +kernel
  have happly := Foundations.Exec.eq_of_outcome herr
  exact ⟨_, _, rfl, happly,
    ((mandateInvariant_of_visited hreach.visited).2.2.2 _ _ _ _ happly).2 rfl⟩

end HashKinetics.Concrete
