import HashKinetics.State.Machine

/-!
# What a successful transaction does

One inversion lemma per transaction kind: the checks that passed, the state that results, built from
the writes of `State`, and the events.  Every invariant of the state machine is derived from these
lemmas; nothing below unfolds a transaction again.
-/

namespace HashKinetics.State

open Foundations Circuit

variable {H : Type} [LinearOrder H]

section Writes

variable {s s' : State H}

/-- A debit goes through exactly when the balance covers it. -/
@[simp] lemma debit_eq_ok {id asset : H} {amount : ℕ} {u : Unit} :
    debit id asset amount s = (.ok u, s') ↔
      amount ≤ s.balance id asset ∧ s.debited id asset amount = s' := by
  simp [debit]

/-- A credit always goes through. -/
@[simp] lemma credit_eq_ok {id asset : H} {amount : ℕ} {u : Unit} :
    credit id asset amount s = (.ok u, s') ↔ s.credited id asset amount = s' := by
  simp [credit]

/-- An update of the tree writes the tree and nothing else. -/
@[simp] lemma onMandates_eq_ok {α : Type} {x : Exec (MandateTree H) SpendError α} {a : α} :
    onMandates x s = (.ok a, s') ↔ ∃ t, x s.mandates = (.ok a, t) ∧ s.setMandates t = s' := by
  simp [onMandates]

/-- The tree holds no balances. -/
@[simp] lemma balance_setMandates (t : MandateTree H) (id asset : H) :
    (s.setMandates t).balance id asset = s.balance id asset := rfl

/-- What follows a debit finds the balance lowered. -/
lemma debit_bind_eq_ok {β : Type} {b : β} {f : Unit → Exec (State H) StateError β} {id asset : H}
    {amount : ℕ} : (debit id asset amount >>= f) s = (.ok b, s') ↔
      amount ≤ s.balance id asset ∧ f () (s.debited id asset amount) = (.ok b, s') := by
  simp [Unique.exists_iff]

/-- What follows a credit finds the balance raised. -/
lemma credit_bind_eq_ok {β : Type} {b : β} {f : Unit → Exec (State H) StateError β} {id asset : H}
    {amount : ℕ} : (credit id asset amount >>= f) s = (.ok b, s') ↔
      f () (s.credited id asset amount) = (.ok b, s') := by
  simp [Unique.exists_iff]

/-- What follows an update of the tree finds the new tree. -/
lemma onMandates_bind_eq_ok {α β : Type} {b : β} {x : Exec (MandateTree H) SpendError α}
    {f : α → Exec (State H) StateError β} : (onMandates x >>= f) s = (.ok b, s') ↔
      ∃ a t, x s.mandates = (.ok a, t) ∧ f a (s.setMandates t) = (.ok b, s') := by
  simp

end Writes

variable [HashSuite H] {s s' : State H} {evs : List (Event H)}

/-! ## Issued assets -/

omit [HashSuite H] in
/-- The entry an issuer-only verb acts on is the registered one. -/
lemma get_of_issuerEntry {sender asset : H} {allowed : AssetPolicy → Bool} {info : AssetInfo H}
    (h : s.issuerEntry sender asset allowed = .ok info) :
    s.assets[asset]? = some info ∧ info.issuer = sender ∧ allowed info.policy = true := by
  unfold issuerEntry at h
  split at h
  · cases h
  next i hi =>
  split at h
  · cases h
  next hissuer =>
  split at h
  · cases h
  next hallowed =>
  cases h
  exact ⟨hi, by simpa using hissuer, by simpa using hallowed⟩

/-- A registration writes a fresh entry under the id derived from the sender and the symbol. -/
lemma doAssetRegister_eq_ok {sender asset : H} {symbol : String} {decimals : ℕ}
    {policy : AssetPolicy}
    (h : doAssetRegister sender asset symbol decimals policy s = (.ok evs, s')) :
    asset = deriveAssetId sender symbol ∧ s.assets[asset]? = none ∧
      evs = [.assetRegistered asset sender symbol] ∧
      s' = s.setAsset asset ⟨symbol, decimals, sender, policy, 0, 0, false, ∅, s.height⟩ := by
  simp only [doAssetRegister, Exec.rejectIf_bind_eq_ok, Exec.get_bind_eq_ok,
    Exec.modify_bind_eq_ok, Exec.pure_eq_ok, not_not] at h
  obtain ⟨-, -, hid, hnew, rfl, rfl⟩ := h
  exact ⟨hid, by simpa using hnew, rfl, rfl⟩

omit [HashSuite H] in
/-- A mint is made by the issuer under a policy that allows it, and its supply fits. -/
lemma doAssetMint_eq_ok {sender asset dst : H} {amount : ℕ}
    (h : doAssetMint sender asset dst amount s = (.ok evs, s')) :
    ∃ info, s.assets[asset]? = some info ∧ info.issuer = sender ∧ info.policy.mintable = true ∧
      s.assetGate asset none (some dst) = .ok () ∧ amount ≠ 0 ∧
      info.supply + amount ≤ u128Max ∧ evs = [.assetMinted asset dst amount] ∧
      s' = (s.setAsset asset { info with supply := info.supply + amount }).credited
        dst asset amount := by
  simp only [doAssetMint, Exec.rejectIf_bind_eq_ok, Exec.get_bind_eq_ok, Exec.ofExcept_bind_eq_ok,
    Exec.okOr_bind_eq_ok, Exec.unwrap_bind_eq_ok, Exec.modify_bind_eq_ok, credit_bind_eq_ok,
    Exec.pure_eq_ok, checkedAdd_eq_some] at h
  obtain ⟨hpos, info, hentry, _, -, _, hgate, info', hinfo', _, ⟨hsum, rfl⟩, rfl, rfl⟩ := h
  obtain ⟨hinfo, hissuer, hmint⟩ := get_of_issuerEntry hentry
  rw [hinfo] at hinfo'
  cases hinfo'
  exact ⟨info, hinfo, hissuer, hmint, hgate, hpos, hsum, rfl, rfl⟩

omit [HashSuite H] in
/-- A burn takes the amount from the sender and counts it as burned. -/
lemma doAssetBurn_eq_ok {sender asset : H} {amount : ℕ} {destination : List UInt8}
    (h : doAssetBurn sender asset amount destination s = (.ok evs, s')) :
    ∃ info, s.assets[asset]? = some info ∧ s.assetGate asset (some sender) none = .ok () ∧
      amount ≠ 0 ∧ amount ≤ s.balance sender asset ∧
      evs = [.assetBurned asset sender amount destination] ∧
      s' = (s.debited sender asset amount).setAsset asset
        { info with burned := satAdd u128Max info.burned amount } := by
  simp only [doAssetBurn, Exec.rejectIf_bind_eq_ok, Exec.get_bind_eq_ok, Exec.ofExcept_bind_eq_ok,
    Exec.unwrap_bind_eq_ok, Exec.modify_bind_eq_ok, debit_bind_eq_ok, Exec.pure_eq_ok] at h
  obtain ⟨hpos, -, -, _, hgate, hbal, info, hinfo, rfl, rfl⟩ := h
  exact ⟨info, hinfo, hgate, hpos, hbal, rfl, rfl⟩

omit [HashSuite H] in
/-- A freeze rewrites one registry entry and keeps its supply and burned amounts. -/
lemma doAssetFreeze_eq_ok {sender asset account : H} {frozen : Bool}
    (h : doAssetFreeze sender asset account frozen s = (.ok evs, s')) :
    ∃ info, s.assets[asset]? = some info ∧ info.issuer = sender ∧ info.policy.freezable = true ∧
      evs = [.assetFrozen asset account frozen] ∧
      s' = s.setAsset asset { info with
        frozen := if frozen then info.frozen.insert account else info.frozen.erase account } := by
  simp only [doAssetFreeze, Exec.get_bind_eq_ok, Exec.ofExcept_bind_eq_ok,
    Exec.modify_bind_eq_ok, Exec.pure_eq_ok] at h
  obtain ⟨info, hentry, rfl, rfl⟩ := h
  obtain ⟨hinfo, hissuer, hfreeze⟩ := get_of_issuerEntry hentry
  exact ⟨info, hinfo, hissuer, hfreeze, rfl, rfl⟩

omit [HashSuite H] in
/-- Only the issuer pauses an asset, and only under a policy that allows it. -/
lemma doAssetPause_eq_ok {sender asset : H} {paused : Bool}
    (h : doAssetPause sender asset paused s = (.ok evs, s')) :
    ∃ info, s.assets[asset]? = some info ∧ info.issuer = sender ∧ info.policy.pausable = true ∧
      evs = [.assetPaused asset paused] ∧ s' = s.setAsset asset { info with paused := paused } := by
  simp only [doAssetPause, Exec.get_bind_eq_ok, Exec.ofExcept_bind_eq_ok,
    Exec.modify_bind_eq_ok, Exec.pure_eq_ok] at h
  obtain ⟨info, hentry, rfl, rfl⟩ := h
  obtain ⟨hinfo, hissuer, hpause⟩ := get_of_issuerEntry hentry
  exact ⟨info, hinfo, hissuer, hpause, rfl, rfl⟩

/-! ## Transfers and accounts -/

omit [HashSuite H] in
/-- A transfer moves a positive amount that the sender has. -/
lemma doTransfer_eq_ok {src dst asset : H} {amount : ℕ}
    (h : doTransfer src dst asset amount s = (.ok evs, s')) :
    amount ≠ 0 ∧ s.assetGate asset (some src) (some dst) = .ok () ∧
      amount ≤ s.balance src asset ∧ evs = [.transferred src dst asset amount] ∧
      s' = (s.debited src asset amount).credited dst asset amount := by
  simp only [doTransfer, Exec.rejectIf_bind_eq_ok, Exec.get_bind_eq_ok, Exec.ofExcept_bind_eq_ok,
    debit_bind_eq_ok, credit_bind_eq_ok, Exec.pure_eq_ok] at h
  obtain ⟨hpos, _, hgate, hbal, rfl, rfl⟩ := h
  exact ⟨hpos, hgate, hbal, rfl, rfl⟩

/-- An account is created under the id derived from its commitment; a positive amount comes from the
sender. -/
lemma doAccountCreate_eq_ok {sender id authCommit asset : H} {amount : ℕ}
    (h : doAccountCreate sender id authCommit asset amount s = (.ok evs, s')) :
    id = shake256_32 DOM_ACCOUNT_ID [[.digest authCommit]] ∧ s.accounts[id]? = none ∧
      evs = [.accountCreated id sender asset amount] ∧
      (amount = 0 ∧ s' = s.setAccount id ⟨authCommit, 0⟩ ∨
        0 < amount ∧ s.assetGate asset (some sender) (some id) = .ok () ∧
          amount ≤ s.balance sender asset ∧
          s' = ((s.debited sender asset amount).setAccount id ⟨authCommit, 0⟩).credited
            id asset amount) := by
  simp only [doAccountCreate, Exec.rejectIf_bind_eq_ok, Exec.get_bind_eq_ok, Exec.when_bind_eq_ok,
    Exec.ofExcept_bind_eq_ok, debit_eq_ok, credit_eq_ok, Exec.modify_bind_eq_ok, Exec.pure_eq_ok,
    not_not] at h
  obtain ⟨hid, hnew, ⟨hpos, _, ⟨_, hgate, hbal, rfl⟩, hcredit⟩ | ⟨hzero, hcredit⟩⟩ := h
  · obtain ⟨-, _, rfl, rfl, rfl⟩ | ⟨hzero, -⟩ := hcredit
    · exact ⟨hid, by simpa using hnew, rfl, .inr ⟨hpos, hgate, hbal, rfl⟩⟩
    · exact absurd hpos hzero
  · obtain ⟨hpos, -⟩ | ⟨-, rfl, rfl⟩ := hcredit
    · exact absurd hpos hzero
    · exact ⟨hid, by simpa using hnew, rfl, .inl ⟨by omega, rfl⟩⟩

/-! ## Mandates -/

omit [HashSuite H] in
/-- The holder of a mandate is read from its node. -/
lemma get_of_holderOf {id holder : H} (h : s.holderOf id = .ok holder) :
    ∃ node, s.mandates.get id = some node ∧ node.holderKey = holder := by
  unfold holderOf at h
  split at h
  · next node hnode =>
    cases h
    exact ⟨node, hnode, rfl⟩
  · cases h

omit [HashSuite H] in
/-- The asset rule of the spending sinks: the leaf and its root denominate one asset. -/
lemma asset_of_checkMandateAssetBound {leaf root : H}
    (h : s.checkMandateAssetBound leaf root = .ok ()) :
    ∃ leafNode rootNode, s.mandates.get leaf = some leafNode ∧
      s.mandates.get root = some rootNode ∧ leafNode.asset = rootNode.asset := by
  unfold checkMandateAssetBound at h
  split at h
  · cases h
  next leafNode hleaf =>
  split at h
  · cases h
  next rootNode hroot =>
  split at h
  · cases h
  next hasset => exact ⟨leafNode, rootNode, hleaf, hroot, not_not.mp hasset⟩

omit [HashSuite H] in
/-- The parent checks of a creation: the sender holds the parent, and from the activation height on
the assets agree. -/
lemma parent_of_checkMandateParent {sender asset p : H}
    (h : s.checkMandateParent sender asset (some p) = .ok ()) :
    ∃ parent, s.mandates.get p = some parent ∧ parent.holderKey = sender ∧
      (s.mandateAssetFrom ≤ s.height → parent.asset = asset) := by
  simp only [checkMandateParent, bind, Except.bind] at h
  split at h
  · cases h
  next holder hholder =>
  obtain ⟨parent, hparent, rfl⟩ := get_of_holderOf hholder
  split at h
  · cases h
  next hsender =>
  refine ⟨parent, hparent, not_not.mp hsender, fun hbound => ?_⟩
  rw [if_pos hbound, hparent] at h
  simp only at h
  split at h
  · cases h
  next hasset => exact not_not.mp hasset

/-- The node a creation inserts. -/
def createdNode (s : State H) (id : H) (parent : Option H) (holder asset : H)
    (ratePerSec bufferMax perTxMax initialBuffer expiry tier : ℕ) : MandateNode H where
  id := id
  parent := parent
  holderKey := holder
  scheme := .lamportRatchetV0
  asset := asset
  ratePerSec := ratePerSec
  bufferMax := bufferMax
  perTxMax := perTxMax
  expiry := expiry
  revoked := false
  buffer := min initialBuffer bufferMax
  lastAccrual := s.time
  tier := tier

/-- A creation inserts one fresh node below a parent that the sender holds and that it narrows. -/
structure Created (s : State H) (sender : H) (node : MandateNode H) (s' : State H) : Prop where
  fresh : s.mandates.nodes[node.id]? = none
  parent : ∀ p, node.parent = some p → ∃ parent, s.mandates.nodes[p]? = some parent ∧
    parent.holderKey = sender ∧ node.expiry ≤ parent.expiry ∧ node.perTxMax ≤ parent.perTxMax ∧
    (s.mandateAssetFrom ≤ s.height → parent.asset = node.asset)
  buffer : node.buffer ≤ node.bufferMax
  lastAccrual : node.lastAccrual = s.time
  live : node.revoked = false
  result : s' = (match node.parent with
    | some _ => s.setMandates ⟨s.mandates.nodes.insert node.id node⟩
    | none => (s.setMandates ⟨s.mandates.nodes.insert node.id node⟩).setRootFunding node.id sender)

omit [HashSuite H] in
/-- A creation adds its node to the tree. -/
lemma Created.mandates_eq {sender : H} {node : MandateNode H} (h : Created s sender node s') :
    s'.mandates = ⟨s.mandates.nodes.insert node.id node⟩ := by
  rw [h.result]
  cases node.parent <;> rfl

omit [HashSuite H] in
/-- A creation takes no time. -/
lemma Created.time_eq {sender : H} {node : MandateNode H} (h : Created s sender node s') :
    s'.time = s.time := by
  rw [h.result]
  cases node.parent <;> rfl

omit [HashSuite H] in
/-- A successful creation is one with the node that the arguments describe. -/
lemma doMandateCreate_eq_ok {sender id : H} {parent : Option H} {holder asset : H}
    {rate bufferMax perTxMax initial expiry tier : ℕ}
    (h : doMandateCreate sender id parent holder asset rate bufferMax perTxMax initial expiry tier s
      = (.ok evs, s')) :
    evs = [.mandateCreated id] ∧
      Created s sender
        (s.createdNode id parent holder asset rate bufferMax perTxMax initial expiry tier) s' := by
  simp only [doMandateCreate, Exec.rejectIf_bind_eq_ok, Exec.get_bind_eq_ok,
    Exec.ofExcept_bind_eq_ok, onMandates_bind_eq_ok, Exec.when_bind_eq_ok, Exec.modify_eq_ok,
    Exec.pure_eq_ok] at h
  obtain ⟨hnew, _, hparent, _, t, hins, hroot⟩ := h
  set node := s.createdNode id parent holder asset rate bufferMax perTxMax initial expiry tier
    with hnode
  -- both entry points of the tree write the node and check the attenuation
  have hinsert : MandateTree.insert node s.mandates = (.ok (), t) := by
    unfold insertMandate at hins
    split at hins
    · exact (MandateTree.insertAssetBound_eq_ok hins).1
    · exact hins
  obtain ⟨hnodes, hnarrow⟩ := MandateTree.insert_eq_ok hinsert
  have ht : t = ⟨s.mandates.nodes.insert node.id node⟩ := by
    cases t
    exact congrArg MandateTree.mk hnodes
  have hfresh : s.mandates.nodes[node.id]? = none := Option.not_isSome_iff_eq_none.mp hnew
  obtain ⟨rfl, hresult⟩ : [Event.mandateCreated id] = evs ∧
      (parent = none ∧ (s.setMandates t).setRootFunding id sender = s' ∨
        parent ≠ none ∧ s.setMandates t = s') := by
    rcases hroot with ⟨hnone, _, rfl, hevs, hs⟩ | ⟨hsome, hevs, hs⟩
    · exact ⟨hevs, .inl ⟨hnone, hs⟩⟩
    · exact ⟨hevs, .inr ⟨hsome, hs⟩⟩
  refine ⟨rfl, ⟨hfresh, ?_, min_le_right _ _, rfl, rfl, ?_⟩⟩
  · intro p hp
    obtain rfl : parent = some p := hp
    obtain ⟨parentNode, hget, hexpiry, hmax⟩ := hnarrow p rfl
    obtain ⟨parentNode', hget', hholder, hasset⟩ := parent_of_checkMandateParent hparent
    obtain rfl : parentNode = parentNode' := by
      simpa [MandateTree.get, hget] using hget'
    exact ⟨parentNode, hget, hholder, hexpiry, hmax, hasset⟩
  · rw [← ht]
    rcases hresult with ⟨rfl, rfl⟩ | ⟨hsome, rfl⟩
    · rfl
    · cases parent with
      | none => exact absurd rfl hsome
      | some p => rfl

/-- A spend through a mandate: who funds it, in which asset, and what it does to the tree. -/
structure MandateDraw (s : State H) (sender leaf : H) (amount : ℕ) (asset funder : H)
    (chain : List H) (t : MandateTree H) : Prop where
  leafNode : ∃ node, s.mandates.nodes[leaf]? = some node ∧ node.holderKey = sender ∧
    node.asset = asset
  funded : ∃ root, s.mandates.rootOf leaf = .ok root ∧ s.rootFunding[root]? = some funder ∧
    (s.mandateAssetFrom ≤ s.height → s.checkMandateAssetBound leaf root = .ok ())
  spent : s.mandates.Spent leaf amount s.time chain t
  balance : amount ≤ s.balance funder asset

omit [HashSuite H] in
/-- A mandate spend draws on the chain of its leaf and pays out of the account that funds the
root. -/
lemma doMandateSpend_eq_ok {sender leaf dst : H} {amount : ℕ}
    (h : doMandateSpend sender leaf dst amount s = (.ok evs, s')) :
    ∃ asset funder chain t, MandateDraw s sender leaf amount asset funder chain t ∧ amount ≠ 0 ∧
      s.assetGate asset (some funder) (some dst) = .ok () ∧
      evs = [.mandateSpent leaf dst amount] ∧
      s' = ((s.setMandates t).debited funder asset amount).credited dst asset amount := by
  simp only [doMandateSpend, Exec.rejectIf_bind_eq_ok, Exec.get_bind_eq_ok,
    Exec.ofExcept_bind_eq_ok, Exec.ofOutcome_bind_eq_ok, Exec.okOr_bind_eq_ok, onMandates_bind_eq_ok, Exec.expect_bind_eq_ok,
    debit_eq_ok, credit_bind_eq_ok, Exec.pure_eq_ok] at h
  obtain ⟨hpos, holder, hholder, hsender, node, hnode, root, hroot, funder, hfunder, _, hbound, _,
    t₀, hcheck, _, hgate, -, _, t, hspend, _, _, ⟨hbal, rfl⟩, rfl, rfl⟩ := h
  obtain ⟨rfl, -⟩ := MandateTree.check_eq_ok hcheck
  obtain ⟨chain, hspent⟩ := MandateTree.spend_eq_ok hspend
  obtain ⟨node', hnode', hkey⟩ := get_of_holderOf hholder
  obtain rfl : node = node' := by simpa [hnode] using hnode'
  refine ⟨node.asset, funder, chain, t, ⟨⟨node, hnode, ?_, rfl⟩, ⟨root, hroot, hfunder, ?_⟩, hspent,
    hbal⟩, hpos, hgate, rfl, rfl⟩
  · rw [hkey]
    exact not_not.mp hsender
  · intro hactive
    rwa [if_pos hactive] at hbound

omit [HashSuite H] in
/-- A revocation is made by the holder of the parent, or of the root itself, and sets one flag. -/
lemma doMandateRevoke_eq_ok {sender target : H}
    (h : doMandateRevoke sender target s = (.ok evs, s')) :
    ∃ node, s.mandates.nodes[target]? = some node ∧
      s.holderOf (node.parent.getD target) = .ok sender ∧ evs = [.mandateRevoked target] ∧
      s' = s.setMandates ⟨s.mandates.nodes.insert target { node with revoked := true }⟩ := by
  simp only [doMandateRevoke, Exec.rejectIf_bind_eq_ok, Exec.get_bind_eq_ok,
    Exec.ofExcept_bind_eq_ok, Exec.okOr_bind_eq_ok, onMandates_bind_eq_ok, Exec.pure_eq_ok,
    not_not] at h
  obtain ⟨node, hnode, holder, hholder, rfl, _, t, hrevoke, rfl, rfl⟩ := h
  obtain ⟨node', hnode', hnodes⟩ := MandateTree.revoke_eq_ok hrevoke
  obtain rfl : node = node' := by simpa [MandateTree.get, hnode'] using hnode.symm
  refine ⟨node, hnode, ?_, rfl, ?_⟩
  · cases hp : node.parent <;> simpa [hp] using hholder
  · cases t
    exact congrArg (fun n => s.setMandates ⟨n⟩) hnodes

/-! ## Channels -/

/-- An opening draws the whole deposit through its mandate and writes the new channel. -/
lemma doChannelOpen_eq_ok {sender chId mandate payee asset tip : H} {unitPrice maxSteps expiry : ℕ}
    (h : doChannelOpen sender chId mandate payee asset tip unitPrice maxSteps expiry s
      = (.ok evs, s')) :
    ∃ funder chain t,
      MandateDraw s sender mandate (unitPrice * maxSteps) asset funder chain t ∧
      s.channels[chId]? = none ∧ unitPrice ≠ 0 ∧ maxSteps ≠ 0 ∧
      unitPrice * maxSteps ≤ u128Max ∧ s.assetGate asset (some funder) none = .ok () ∧
      evs = [.channelOpened chId (unitPrice * maxSteps)] ∧
      s' = ((s.setMandates t).debited funder asset (unitPrice * maxSteps)).setChannel chId
        ⟨⟨chId, sender, payee, asset, mandate, tip, unitPrice, maxSteps, 0, expiry⟩,
          unitPrice * maxSteps, false⟩ := by
  simp only [doChannelOpen, Exec.rejectIf_bind_eq_ok, Exec.get_bind_eq_ok,
    Exec.ofExcept_bind_eq_ok, Exec.ofOutcome_bind_eq_ok, Exec.okOr_bind_eq_ok, onMandates_bind_eq_ok, Exec.expect_bind_eq_ok,
    debit_eq_ok, Exec.modify_bind_eq_ok, Exec.pure_eq_ok, checkedMul_eq_some, not_not] at h
  obtain ⟨hnew, hzero, -, holder, hholder, rfl, acc, -, -, _, ⟨hdep, rfl⟩, node, hnode, rfl, root,
    hroot, funder, hfunder, _, hbound, _, t₀, hcheck, _, hgate, -, _, t, hspend, _, _, ⟨hbal, rfl⟩,
    rfl, rfl⟩ := h
  obtain ⟨rfl, -⟩ := MandateTree.check_eq_ok hcheck
  obtain ⟨chain, hspent⟩ := MandateTree.spend_eq_ok hspend
  obtain ⟨node', hnode', hkey⟩ := get_of_holderOf hholder
  obtain rfl : node = node' := by simpa [hnode] using hnode'
  refine ⟨funder, chain, t, ⟨⟨node, hnode, hkey, rfl⟩, ⟨root, hroot, hfunder, ?_⟩, hspent, hbal⟩,
    by simpa using hnew, fun h => hzero (.inl h), fun h => hzero (.inr h), hdep, hgate, rfl, rfl⟩
  intro hactive
  rwa [if_pos hactive] at hbound

/-- A settlement pays the merchant for the steps between the last settled one and its own. -/
lemma doChannelSettle_eq_ok {chId word : H} {step : ℕ}
    (h : doChannelSettle chId word step s = (.ok evs, s')) :
    ∃ ch, s.channels[chId]? = some ch ∧ ch.refunded = false ∧ ch.state.highestStepSettled < step ∧
      step ≤ ch.state.maxSteps ∧
      ch.state.unitPrice * (step - ch.state.highestStepSettled) ≤ ch.escrowRemaining ∧
      s.assetGate ch.state.asset none (some ch.state.payee) = .ok () ∧
      evs = [.channelSettled chId step
        (ch.state.unitPrice * (step - ch.state.highestStepSettled))] ∧
      s' = (s.setChannel chId
          ⟨{ ch.state with highestStepSettled := step },
            ch.escrowRemaining - ch.state.unitPrice * (step - ch.state.highestStepSettled),
            ch.refunded⟩).credited ch.state.payee ch.state.asset
          (ch.state.unitPrice * (step - ch.state.highestStepSettled)) := by
  simp only [doChannelSettle, Exec.rejectIf_bind_eq_ok, Exec.get_bind_eq_ok,
    Exec.ofExcept_bind_eq_ok, Exec.okOr_bind_eq_ok, Exec.unwrap_bind_eq_ok, credit_bind_eq_ok,
    Exec.modify_bind_eq_ok, Exec.pure_eq_ok, checkedMul_eq_some, checkedSub_eq_some] at h
  obtain ⟨ch, hch, hopen, hstep, -, -, _, ⟨-, rfl⟩, _, hgate, _, ⟨hescrow, rfl⟩, rfl, rfl⟩ := h
  obtain ⟨hlow, hhigh⟩ := not_or.mp hstep
  exact ⟨ch, hch, by simpa using hopen, not_le.mp hlow, not_lt.mp hhigh, hescrow, hgate, rfl, rfl⟩

omit [HashSuite H] in
/-- A refund is made by the payer of an expired channel and gives back what is left. -/
lemma doChannelRefund_eq_ok {sender chId : H}
    (h : doChannelRefund sender chId s = (.ok evs, s')) :
    ∃ ch, s.channels[chId]? = some ch ∧ ch.refunded = false ∧ ch.state.payer = sender ∧
      ch.state.expiry ≤ s.time ∧ s.assetGate ch.state.asset none (some ch.state.payer) = .ok () ∧
      evs = [.channelRefunded chId ch.escrowRemaining] ∧
      s' = (s.setChannel chId ⟨ch.state, 0, true⟩).credited ch.state.payer ch.state.asset
        ch.escrowRemaining := by
  simp only [doChannelRefund, Exec.rejectIf_bind_eq_ok, Exec.get_bind_eq_ok,
    Exec.ofExcept_bind_eq_ok, Exec.okOr_bind_eq_ok, credit_bind_eq_ok, Exec.modify_bind_eq_ok,
    Exec.pure_eq_ok] at h
  obtain ⟨ch, hch, hopen, hpayer, htime, _, hgate, rfl, rfl⟩ := h
  exact ⟨ch, hch, by simpa using hopen, not_not.mp hpayer, not_lt.mp htime, hgate, rfl, rfl⟩

/-! ## The shielded pools -/

omit [HashSuite H] in
/-- The pool a shield goes to is the legacy pool, unpinned or pinned to the asset, or the asset's
own. -/
lemma pinned_of_poolKeyOfAsset {asset : H} {key : PoolKey H}
    (h : s.poolKeyOfAsset asset = .ok key) :
    key = .legacy ∧ s.pool.asset = none ∨ key = .legacy ∧ s.pool.asset = some asset ∨
      key = .asset asset := by
  unfold poolKeyOfAsset at h
  split at h
  · next hnone =>
    cases h
    exact .inl ⟨rfl, hnone⟩
  · next b hb =>
    split_ifs at h with hba
    · cases h
      exact .inr (.inl ⟨rfl, by rw [hb, hba]⟩)
    · cases h
      exact .inr (.inr rfl)

/-- A shield debits the sender and appends to the pool of the asset. -/
lemma doMintToPool_eq_ok {sender asset : H} {value : ℕ} {commitment : H} {proof : List UInt8}
    (h : doMintToPool sender asset value commitment proof s = (.ok evs, s')) :
    ∃ key, s.poolKeyOfAsset asset = .ok key ∧ value ≠ 0 ∧ value ≤ u64Max ∧
      s.assetGate asset (some sender) none = .ok () ∧
      (key ≠ .legacy → s.poolEligible asset = true) ∧
      s.mintProved proof (expectedMintPublic commitment value) = true ∧
      value ≤ s.balance sender asset ∧ (s.poolForMint key).tree.hasCapacity 1 ∧
      evs = [.poolMinted commitment value] ∧
      s' = (s.debited sender asset value).setPool key
        ((s.poolForMint key).minted asset commitment value) := by
  simp only [doMintToPool, Exec.rejectIf_bind_eq_ok, Exec.get_bind_eq_ok, Exec.ofExcept_bind_eq_ok,
    Exec.unwrap_bind_eq_ok, debit_bind_eq_ok, Exec.modify_bind_eq_ok, Exec.pure_eq_ok,
    PoolState.mint_eq_some] at h
  obtain ⟨hpos, hrange, -, _, hgate, key, hkey, helig, -, hproved, hbal, _, ⟨hroom, rfl⟩, rfl,
    rfl⟩ := h
  refine ⟨key, hkey, hpos, not_lt.mp hrange, hgate,
    fun hne => ?_, by simpa using hproved, hbal, hroom, rfl, rfl⟩
  by_contra hnot
  exact helig ⟨hne, by simpa using hnot⟩

/-- The mandate leg of an unshield: the budget of the named leaf, when there is one. -/
inductive MandateLeg (s : State H) (sender : H) (fee : ℕ) (asset : Option H) :
    Option H → MandateTree H → Prop
  | none : MandateLeg s sender fee asset none s.mandates
  | some {m : H} {node : MandateNode H} {chain : List H} {t : MandateTree H}
      (hnode : s.mandates.nodes[m]? = some node) (hholder : node.holderKey = sender)
      (hfee : fee ≠ 0) (hspent : s.mandates.Spent m fee s.time chain t)
      (hasset : s.mandateAssetFrom ≤ s.height → asset = some node.asset ∧
        ∃ root, s.mandates.rootOf m = .ok root ∧ s.checkMandateAssetBound m root = .ok ()) :
      MandateLeg s sender fee asset (some m) t

/-- What an accepted unshield or shielded transfer checked. -/
structure Unshields (s : State H) (sender anchor nf out out2 : H) (fee : ℕ)
    (creditTo mandate : Option H) (proof : List UInt8) (key : PoolKey H) (pool : PoolState H)
    (t : MandateTree H) : Prop where
  range : fee ≤ u64Max
  anchorKey : s.poolKeyOfAnchor anchor = some key
  poolAt : s.poolRef key = some pool
  fresh : nf ∉ pool.nullifiers
  room : pool.tree.hasCapacity 2
  proved : s.spendProved proof (expectedSpendPublic anchor nf out out2 fee creditTo) = true
  leg : MandateLeg s sender fee (s.poolAsset key) mandate t

omit [HashSuite H] in
/-- The asset rule of an unshield leaves the state alone. -/
lemma reads_checkSpendMandateAsset (s : State H) (asset mandate : Option H) :
    (checkSpendMandateAsset s asset mandate).Reads := by
  cases mandate with
  | none => exact Exec.reads_pure _
  | some m =>
    refine Exec.Reads.when ((Exec.reads_ofOutcome _ _).bind fun _ => ?_)
    refine (Exec.reads_ofExcept _ _).bind fun _ => (Exec.reads_okOr _ _).bind fun _ => ?_
    exact Exec.reads_rejectIf _ _

omit [HashSuite H] in
/-- From the activation on, a mandate is charged for an unshield of its own asset only. -/
lemma asset_of_checkSpendMandateAsset {asset : Option H} {m : H} {node : MandateNode H}
    {s₁ s₂ : State H} {u : Unit} (hnode : s.mandates.nodes[m]? = some node)
    (hactive : s.mandateAssetFrom ≤ s.height)
    (h : checkSpendMandateAsset s asset (some m) s₁ = (.ok u, s₂)) :
    asset = some node.asset ∧
      ∃ root, s.mandates.rootOf m = .ok root ∧ s.checkMandateAssetBound m root = .ok () := by
  simp only [checkSpendMandateAsset, Exec.when, if_pos hactive, Exec.ofOutcome_bind_eq_ok,
    Exec.ofExcept_bind_eq_ok, Exec.okOr_bind_eq_ok, Exec.rejectIf_eq_ok, not_not] at h
  obtain ⟨root, hroot, _, hbound, node', hnode', hasset, -⟩ := h
  obtain rfl : node = node' := by simpa [MandateTree.get, hnode] using hnode'
  exact ⟨hasset, root, hroot, hbound⟩

omit [HashSuite H] in
/-- The mandate leg that the three mandate steps of an unshield add up to. -/
lemma mandateLeg_of_checks {sender : H} {fee : ℕ} {asset mandate : Option H} {s₁ s₂ : State H}
    {u u' u'' : Unit} (hcheck : checkSpendMandate s sender fee mandate s = (.ok u, s₁))
    (hasset : checkSpendMandateAsset s asset mandate s₁ = (.ok u'', s₁))
    (hspend : spendMandate s fee mandate s₁ = (.ok u', s₂)) :
    s₁ = s ∧ ∃ t, s₂ = s.setMandates t ∧ MandateLeg s sender fee asset mandate t := by
  cases mandate with
  | none =>
    simp only [checkSpendMandate, spendMandate, Exec.pure_eq_ok] at hcheck hspend
    obtain ⟨-, rfl⟩ := hcheck
    obtain ⟨-, rfl⟩ := hspend
    exact ⟨rfl, s.mandates, rfl, .none⟩
  | some m =>
    simp only [checkSpendMandate, spendMandate, Exec.bind_eq_ok, Exec.rejectIf_eq_ok,
      Exec.ofExcept_eq_ok, onMandates_eq_ok, not_not] at hcheck hspend
    obtain ⟨_, _, ⟨hfee, rfl⟩, holder, _, ⟨hholder, rfl⟩, _, _, ⟨rfl, rfl⟩, t₀, hchk, rfl⟩ := hcheck
    obtain ⟨rfl, -⟩ := MandateTree.check_eq_ok hchk
    obtain ⟨t, hsp, rfl⟩ := hspend
    obtain ⟨chain, hspent⟩ := MandateTree.spend_eq_ok hsp
    obtain ⟨node, hnode, hkey⟩ := get_of_holderOf hholder
    exact ⟨rfl, t, rfl, .some hnode hkey hfee hspent fun hactive =>
      asset_of_checkSpendMandateAsset hnode hactive hasset⟩

/-- A shielded spend inserts its outputs into the pool of its anchor; an unshield also credits its
fee. -/
lemma doShieldedSpend_eq_ok {sender anchor nf out out2 : H} {fee : ℕ} {creditTo mandate : Option H}
    {proof : List UInt8}
    (h : doShieldedSpend sender anchor nf out out2 fee creditTo mandate proof s = (.ok evs, s')) :
    ∃ key pool t, Unshields s sender anchor nf out out2 fee creditTo mandate proof key pool t ∧
      evs = [.poolSpent nf out out2 fee creditTo] ∧
      (fee = 0 ∧ s' = (s.setMandates t).setPool key (pool.spent nf out out2 0) ∨
        0 < fee ∧ ∃ dst asset, creditTo = some dst ∧ s.poolAsset key = some asset ∧
          s.assetGate asset none (some dst) = .ok () ∧
          s' = ((s.setMandates t).setPool key (pool.spent nf out out2 fee)).credited
            dst asset fee) := by
  simp only [doShieldedSpend, Exec.rejectIf_bind_eq_ok, Exec.get_bind_eq_ok,
    Exec.bind_eq_ok (x := checkSpendMandate _ _ _ _),
    Exec.bind_eq_ok (x := checkSpendMandateAsset _ _ _), Exec.okOr_bind_eq_ok] at h
  obtain ⟨hrange, -, _, s₁, hcheck, key, hkey, -, _, s₂, hasset, hgate⟩ := h
  have hsame := reads_checkSpendMandateAsset s (s.poolAsset key) mandate s₁
  rw [hasset] at hsame
  obtain rfl : s₁ = s₂ := hsame.symm
  obtain ⟨hopen, hrest⟩ := Exec.Reads.when_bind_eq_ok
    (Exec.Reads.bind (Exec.reads_unwrap _) fun _ => Exec.reads_ofExcept _ _) hgate
  simp only [Exec.unwrap_bind_eq_ok, Exec.ofExcept_eq_ok, and_true] at hopen
  simp only [Exec.unwrap_bind_eq_ok, Exec.rejectIf_bind_eq_ok, Exec.modify_bind_eq_ok,
    Exec.bind_eq_ok (x := spendMandate _ _ _), not_not] at hrest
  obtain ⟨pool, hpool, hfresh, hroom, hproved, _, s₂, hspend, pool', hpool', hcredit⟩ := hrest
  obtain rfl := PoolState.spent_of_spend hpool'
  obtain ⟨rfl, t, rfl, hleg⟩ := mandateLeg_of_checks hcheck hasset hspend
  have hun : Unshields s₁ sender anchor nf out out2 fee creditTo mandate proof key pool t :=
    ⟨not_lt.mp hrange, hkey, hpool, by simpa using hfresh, hroom, by simpa using hproved, hleg⟩
  rcases Exec.when_bind_eq_ok.mp hcredit with ⟨hpos, _, hc, hend⟩ | ⟨hzero, hend⟩
  · simp only [Exec.unwrap_bind_eq_ok, credit_eq_ok] at hc
    obtain ⟨dst, hdst, a, ha, rfl⟩ := hc
    obtain ⟨a', ha', hg⟩ := hopen hpos
    obtain rfl : a = a' := by simpa [ha] using ha'
    obtain ⟨rfl, rfl⟩ := Exec.pure_eq_ok.mp hend
    exact ⟨key, pool, t, hun, rfl, .inr ⟨hpos, dst, a, hdst, ha, by rwa [← hdst], rfl⟩⟩
  · obtain rfl : fee = 0 := by omega
    obtain ⟨rfl, rfl⟩ := Exec.pure_eq_ok.mp hend
    exact ⟨key, pool, t, hun, rfl, .inl ⟨rfl, rfl⟩⟩

/-! ## What no transaction body writes -/

/-- The part of the state that only blocks and envelopes write: the clock, the configuration and
the burned fees. -/
structure Frame (H : Type) [LinearOrder H] where
  height : ℕ
  time : ℕ
  verifier : ProofVerifier H
  aggCover : OrderedSet H
  feeMicro : ℕ
  feeFrom : ℕ
  feesBurned : ℕ
  feeAsset : H
  multiPoolFrom : ℕ
  mandateAssetFrom : ℕ
  paywordCapFrom : ℕ

/-- The frame of a state. -/
def frame (s : State H) : Frame H :=
  ⟨s.height, s.time, s.verifier, s.aggCover, s.feeMicro, s.feeFrom, s.feesBurned, s.feeAsset,
    s.multiPoolFrom, s.mandateAssetFrom, s.paywordCapFrom⟩

/-- No body touches the height, the time or the settings of the chain. -/
lemma frame_dispatch {sender : H} {tx : Tx H} (h : dispatch sender tx s = (.ok evs, s')) :
    s'.frame = s.frame := by
  cases tx with
  | transfer dst asset amount =>
    obtain ⟨-, -, -, -, rfl⟩ := doTransfer_eq_ok h
    rfl
  | mandateCreate id parent holder asset rate bufferMax perTxMax initial expiry tier =>
    obtain ⟨-, hc⟩ := doMandateCreate_eq_ok h
    rw [hc.result]
    cases parent <;> rfl
  | mandateSpend leaf dst amount =>
    obtain ⟨asset, funder, chain, t, -, -, -, -, rfl⟩ := doMandateSpend_eq_ok h
    rfl
  | mandateRevoke target =>
    obtain ⟨node, -, -, -, rfl⟩ := doMandateRevoke_eq_ok h
    rfl
  | channelOpen id mandate payee asset tip unitPrice maxSteps expiry =>
    obtain ⟨funder, chain, t, -, -, -, -, -, -, -, rfl⟩ := doChannelOpen_eq_ok h
    rfl
  | channelSettle id word step =>
    obtain ⟨ch, -, -, -, -, -, -, -, rfl⟩ := doChannelSettle_eq_ok h
    rfl
  | channelRefund id =>
    obtain ⟨ch, -, -, -, -, -, -, rfl⟩ := doChannelRefund_eq_ok h
    rfl
  | mintToPool asset value commitment proof ct =>
    obtain ⟨key, -, -, -, -, -, -, -, -, -, rfl⟩ := doMintToPool_eq_ok h
    rfl
  | shieldedSpend anchor nf out out2 fee creditTo mandate proof ct ct2 =>
    obtain ⟨key, pool, t, -, -, ⟨-, rfl⟩ | ⟨-, dst, asset, -, -, -, rfl⟩⟩ := doShieldedSpend_eq_ok h
      <;> rfl
  | accountCreate id authCommit asset amount =>
    obtain ⟨-, -, -, ⟨-, rfl⟩ | ⟨-, -, -, rfl⟩⟩ := doAccountCreate_eq_ok h <;> rfl
  | assetRegister asset symbol decimals policy =>
    obtain ⟨-, -, -, rfl⟩ := doAssetRegister_eq_ok h
    rfl
  | assetMint asset dst amount =>
    obtain ⟨info, -, -, -, -, -, -, -, rfl⟩ := doAssetMint_eq_ok h
    rfl
  | assetBurn asset amount destination =>
    obtain ⟨info, -, -, -, -, -, rfl⟩ := doAssetBurn_eq_ok h
    rfl
  | assetFreeze asset account frozen =>
    obtain ⟨info, -, -, -, -, rfl⟩ := doAssetFreeze_eq_ok h
    rfl
  | assetPause asset paused =>
    obtain ⟨info, -, -, -, -, rfl⟩ := doAssetPause_eq_ok h
    rfl

end HashKinetics.State
