import HashKinetics.Node.Loop

/-!
# The content of a committed block

Consensus decides on the id of a value.  A value that the node proposes or reassembles from streamed
parts gets its id from its content; a synced value keeps the id that its sender wrote, and nothing
checks it before the commit looks the value up by that id.  So a committed block carries what its
certificate names exactly as long as the synced values came with the ids of their contents.
-/

namespace HashKinetics

open Foundations

section

variable {H : Type} [LinearOrder H] [HashSuite H] [NodeCodec H] [RootScheme] [TxCodec H]
  [StateCodec H]

/-- A synced value comes with the id of its content, if it decodes at all. -/
def AppMsg.SyncBound : AppMsg H → Prop
  | .processSyncedValue _ _ _ valueBytes =>
    ∀ v ∈ (NodeCodec.decodeValue valueBytes : Option (HkValue H)), v.Bound
  | _ => True

/-- The block's bytes are the ones its certificate names. -/
def StoredBlock.Bound (sb : StoredBlock H) : Prop :=
  (HkValue.new sb.valueBytes : HkValue H).id = sb.certificate.valueId

namespace HkApp

variable {P : NodeParams H} {a a' : HkApp H}

/-- Every value under vote has the id of its content. -/
def UndecidedBound (a : HkApp H) : Prop :=
  ∀ (k : ℕ ×ₗ ℤ) (l : List (ProposedValue H)), a.undecided[k]? = some l → ∀ v ∈ l, v.value.Bound

omit [NodeCodec H] [RootScheme] [TxCodec H] [StateCodec H] in
lemma UndecidedBound.of_undecided_eq (h : a.UndecidedBound) (heq : a'.undecided = a.undecided) :
    a'.UndecidedBound := by
  intro k l hl
  rw [heq] at hl
  exact h k l hl

omit [NodeCodec H] [RootScheme] [TxCodec H] [StateCodec H] in
lemma UndecidedBound.storeUndecided (h : a.UndecidedBound) {v : ProposedValue H}
    (hv : v.value.Bound) : (a.storeUndecided v).UndecidedBound := by
  -- what was stored under the key before
  have hentry : ∀ w ∈ a.undecided[undecidedKey v.height v.round]?.getD [], w.value.Bound := by
    intro w hw
    cases hold : a.undecided[undecidedKey v.height v.round]? with
    | none => simp [hold] at hw
    | some l =>
      rw [hold] at hw
      exact h _ l hold w hw
  intro k l hl
  simp only [HkApp.storeUndecided, OrderedMap.get_insert] at hl
  split at hl
  · cases hl
    intro w hw
    split at hw
    · exact hentry w hw
    · rcases List.mem_append.mp hw with hw | hw
      · exact hentry w hw
      · rw [List.mem_singleton.mp hw]
        exact hv
  · exact h k l hl

omit [NodeCodec H] [RootScheme] [TxCodec H] [StateCodec H] in
lemma UndecidedBound.getValue (h : a.UndecidedBound) (height : ℕ) (round : Round)
    (payload : List UInt8) : (a.getValue P height round payload).UndecidedBound := by
  unfold HkApp.getValue
  split
  · exact h
  · exact h.storeUndecided (HkValue.bound_new _)

omit [NodeCodec H] [RootScheme] [TxCodec H] [StateCodec H] in
lemma UndecidedBound.receivedProposalPart (h : a.UndecidedBound) (peer : ℕ)
    (part : StreamMessage H) : (a.receivedProposalPart peer part).UndecidedBound := by
  have hstreams : ∀ m, ({ a with streams := m } : HkApp H).UndecidedBound :=
    fun m => h.of_undecided_eq rfl
  unfold HkApp.receivedProposalPart
  rcases a.streams.insertPart peer part with ⟨_ | parts, m⟩
  · exact hstreams m
  · exact (hstreams m).storeUndecided (HkValue.bound_new _)

omit [RootScheme] [TxCodec H] [StateCodec H] in
lemma UndecidedBound.processSyncedValue (h : a.UndecidedBound) (height : ℕ) (round : Round)
    (proposer : HkAddress H) {valueBytes : List UInt8}
    (hv : ∀ v ∈ (NodeCodec.decodeValue valueBytes : Option (HkValue H)), v.Bound) :
    (a.processSyncedValue height round proposer valueBytes).UndecidedBound := by
  unfold HkApp.processSyncedValue
  split
  · next value hvalue => exact h.storeUndecided (hv value hvalue)
  · exact h

omit [NodeCodec H] [RootScheme] [TxCodec H] [StateCodec H] in
/-- The value a commit finds has the certificate's id and is one of the values under vote. -/
lemma UndecidedBound.undecidedValue (h : a.UndecidedBound) {cert : CommitCertificate H}
    {value : HkValue H} (hfind : a.undecidedValue cert = some value) :
    value.Bound ∧ value.id = cert.valueId := by
  obtain ⟨v, hv, rfl⟩ := Option.map_eq_some_iff.mp hfind
  have hid : v.value.id = cert.valueId := by simpa using List.find?_some hv
  obtain ⟨⟨k, l⟩, he, hmem⟩ := List.mem_flatMap.mp (List.mem_of_find?_eq_some hv)
  have hget : a.undecided[k]? = some l :=
    OrderedMap.mem_toList.mp (List.mem_of_mem_filter he)
  exact ⟨h k l hget v hmem, hid⟩

omit [NodeCodec H] [RootScheme] [TxCodec H] [StateCodec H] in
lemma UndecidedBound.settled (h : a.UndecidedBound) (cert : CommitCertificate H)
    (value : HkValue H) : (a.settled P cert value).UndecidedBound := by
  intro k l hl
  simp only [HkApp.settled, OrderedMap.get_filter, Option.filter_eq_some_iff] at hl
  exact h k l hl.1

omit [RootScheme] in
/-- An application of a batch leaves the values under vote alone. -/
lemma undecided_applyBatchToChain {height : ℕ} {batch : Option (Batch H)} {live rec v : Bool}
    (h : applyBatchToChain P height batch live rec a = (.ok v, a')) :
    a'.undecided = a.undecided := by
  obtain ⟨-, -, receipts, s, -, rfl⟩ := applyBatchToChain_eq_ok.mp h
  exact finished_undecided ..

/-- A restore brings no value under vote. -/
lemma undecided_restoreFromStore {s : NodeStore H} (h : restoreFromStore P s a = (.ok (), a')) :
    a'.undecided = a.undecided := by
  obtain ⟨a₁, a₂, himage, hreplay, rfl⟩ := restoreFromStore_eq_ok.mp h
  have h₁ : a₁.undecided = a.undecided := by
    obtain ⟨-, rfl⟩ | ⟨snap, -, hload⟩ := restoreImage_eq_ok.mp himage
    · rfl
    · obtain ⟨-, rfl⟩ := loadImage_eq_ok.mp hload
      rfl
  have h₂ : a₂.undecided = a.undecided := by
    refine replay_invariant (I := fun b => b.undecided = a.undecided) ?_ hreplay h₁
    intro height sb b b' _ _ hb hblock
    obtain ⟨-, v, b₁, happly, rfl⟩ := replayBlock_eq_ok.mp hblock
    exact (undecided_applyBatchToChain happly).trans hb
  exact h₂

end HkApp

namespace HkNode

variable {P : NodeParams H} {boot : HkApp H} {n n' : HkNode H}

/-- Every value under vote and every stored block is what its id names. -/
structure ContentBound (n : HkNode H) : Prop where
  undecided : n.app.UndecidedBound
  stored : ∀ (h : ℕ) (sb : StoredBlock H), n.store.blocks[h]? = some sb → sb.Bound

/-- The block a commit hands to the log carries what its certificate names. -/
lemma bound_of_commit {a : HkApp H} (hn : n.app.UndecidedBound) {cert : CommitCertificate H}
    {sb : StoredBlock H} (h : HkApp.commit P cert n.app = (.ok sb, a)) :
    sb.Bound ∧ a.UndecidedBound := by
  obtain ⟨value, a₁, hvalue, happly, hsb, rfl⟩ := HkApp.commit_eq_ok.mp h
  obtain ⟨hbound, hid⟩ := hn.undecidedValue hvalue
  refine ⟨?_, ?_⟩
  · rw [hsb]
    exact hbound.trans hid
  · have ha₁ : a₁.UndecidedBound :=
      hn.of_undecided_eq (HkApp.undecided_applyBatchToChain happly)
    have hcerts : (a₁.withCerts P cert.height (NodeCodec.decodeBatch value.txs)).UndecidedBound :=
      ha₁.of_undecided_eq rfl
    exact hcerts.settled cert value

lemma ContentBound.step (hn : n.ContentBound) (hboot : boot.UndecidedBound) {msg : AppMsg H}
    (hsync : msg.SyncBound) (h : step P boot n msg = some n') : n'.ContentBound := by
  cases msg with
  | startedRound height round =>
    cases h
    exact ⟨hn.undecided.of_undecided_eq rfl, hn.stored⟩
  | getValue height round payload =>
    cases h
    exact ⟨hn.undecided.getValue height round payload, hn.stored⟩
  | receivedProposalPart peer part =>
    cases h
    exact ⟨hn.undecided.receivedProposalPart peer part, hn.stored⟩
  | processSyncedValue height round proposer valueBytes =>
    cases h
    exact ⟨hn.undecided.processSyncedValue height round proposer hsync, hn.stored⟩
  | decided cert io =>
    obtain ⟨sb, a, hcommit, rfl⟩ | ⟨e, a, hcommit, rfl⟩ := step_decided h
    · obtain ⟨hsb, ha⟩ := bound_of_commit hn.undecided hcommit
      refine ⟨?_, fun height b hb => ?_⟩
      · rw [persist_app]
        exact ha.of_undecided_eq rfl
      obtain ⟨-, rfl⟩ | hold := get_persist hb
      · exact hsb
      · exact hn.stored height b hold
    · refine ⟨?_, hn.stored⟩
      obtain ⟨rfl, -⟩ | ⟨value, -, happly⟩ := HkApp.commit_eq_err hcommit
      · exact hn.undecided
      · obtain ⟨-, rfl⟩ | ⟨-, -, rfl⟩ := HkApp.applyBatchToChain_eq_err happly
        · exact hn.undecided.of_undecided_eq rfl
        · exact hn.undecided.of_undecided_eq rfl
  | restart =>
    obtain ⟨a, hrestore, rfl⟩ := step_restart h
    exact ⟨hboot.of_undecided_eq (HkApp.undecided_restoreFromStore hrestore), hn.stored⟩

omit [NodeCodec H] [RootScheme] [TxCodec H] [StateCodec H] in
/-- Nothing is under vote when a node starts. -/
lemma undecidedBound_fresh (chain : State H) (validators : HkValidatorSet H) :
    (HkApp.fresh chain validators).UndecidedBound := by
  intro k l hl
  simp [HkApp.fresh] at hl

lemma contentBound_start (P : NodeParams H) (chain : State H) (validators : HkValidatorSet H) :
    (start P (HkApp.fresh chain validators)).ContentBound := by
  rw [start_eq]
  refine ⟨(undecidedBound_fresh chain validators).of_undecided_eq rfl, fun h sb hsb => ?_⟩
  simp [NodeStore.new] at hsb

/-- **The content of committed blocks.**  In every run of a node in which every synced value comes
with the id of its content, every block of the log carries the bytes that its certificate names, and
so does the block that the next commit applies and hands to the log. -/
theorem committed_content_named (P : NodeParams H) (chain : State H) (validators : HkValidatorSet H)
    {msgs : List (AppMsg H)} {n : HkNode H} (hrun : Run P (.fresh chain validators) msgs n)
    (hsync : ∀ msg ∈ msgs, msg.SyncBound) :
    (∀ (h : ℕ) (sb : StoredBlock H), n.store.blocks[h]? = some sb →
      (HkValue.new sb.valueBytes : HkValue H).id = sb.certificate.valueId) ∧
    ∀ cert sb a, HkApp.commit P cert n.app = (.ok sb, a) →
      sb.certificate = cert ∧ (HkValue.new sb.valueBytes : HkValue H).id = cert.valueId ∧
      ∃ a₁, HkApp.applyBatchToChain P cert.height (NodeCodec.decodeBatch sb.valueBytes) true false
        n.app = (.ok sb.aggValid, a₁) ∧ a.chain = a₁.chain := by
  have hbound : n.ContentBound :=
    Path.invariant hrun (contentBound_start P chain validators) fun s msg s' hmsg hs hstep =>
      hs.step (undecidedBound_fresh chain validators) (hsync msg hmsg) hstep
  refine ⟨hbound.stored, fun cert sb a hcommit => ?_⟩
  obtain ⟨hsb, -⟩ := bound_of_commit hbound.undecided hcommit
  obtain ⟨value, a₁, -, happly, heq, rfl⟩ := HkApp.commit_eq_ok.mp hcommit
  have hcert : sb.certificate = cert := congrArg StoredBlock.certificate heq
  have hbytes : sb.valueBytes = value.txs := congrArg StoredBlock.valueBytes heq
  refine ⟨hcert, hsb.trans (congrArg CommitCertificate.valueId hcert), a₁, ?_, rfl⟩
  rw [hbytes]
  exact happly

end HkNode

end

/-! ## A synced value under a borrowed id -/

namespace Concrete

instance : StateCodec Digest where
  mandateJson n := [n.id.val, n.holderKey.val, n.asset.val, n.ratePerSec, n.bufferMax, n.perTxMax,
    n.expiry, n.revoked.toNat, n.buffer, n.lastAccrual, n.tier].flatMap leBytes
  channelJson c := [c.state.id.val, c.state.payer.val, c.state.payee.val, c.state.asset.val,
    c.state.mandate.val, c.state.tip.val, c.state.unitPrice, c.state.maxSteps,
    c.state.highestStepSettled, c.state.expiry, c.escrowRemaining, c.refunded.toNat].flatMap leBytes

/-- The digest that eight bytes spell. -/
def digestOf (bs : List UInt8) : Digest := Fin.ofNat _ (ofLeBytes bs)

/-- Batches without transactions are the commitment they build on and their aggregate; values are
their id and their content. -/
instance : NodeCodec Digest where
  decodeBatch bytes :=
    if bytes.length < 8 then none
    else some ⟨⟨[], []⟩, digestOf (bytes.take 8), [], bytes.drop 8⟩
  decodeValue bytes :=
    if bytes.length < 8 then none else some ⟨digestOf (bytes.take 8), bytes.drop 8⟩
  txJson tx := (digestTxCode tx.payload ++ [tx.sender.val, tx.nonce]).flatMap leBytes

/-- A genesis without accounts. -/
def nodeGenesis : Genesis Digest := ⟨0, [], [], none, []⟩

def nodeChain : State Digest := start nodeGenesis config

/-- The founder's set. -/
def nodeSet : HkValidatorSet Digest :=
  .new (founders.map fun v => .new v.rootPk v.publicKey v.votingPower) (by simp [founders])

def nodeParams : NodeParams Digest where
  address := .fromPublicKey [1, 1]
  chainStartTime := 0
  agg := none
  rules := setRules
  decidedWindow := 1
  snapshotEvery := 16
  retainBlocks := 0

/-- The application of the node as it is constructed. -/
def nodeBoot : HkApp Digest := .fresh nodeChain nodeSet

/-- The bytes of an empty batch on the genesis state. -/
def emptyBatch : List UInt8 := leBytes nodeChain.stateCommitment.val

/-- The same bytes with something behind them. -/
def otherBatch : List UInt8 := emptyBatch ++ [9]

/-- The certificate of the empty batch at the first height. -/
def emptyCert : CommitCertificate Digest :=
  ⟨1, some 0, (HkValue.new emptyBatch : HkValue Digest).id⟩

/-- A sync response for the first height that gives some content the id of the empty batch. -/
def syncUnder (content : List UInt8) : AppMsg Digest :=
  .processSyncedValue 1 (some 0) nodeParams.address (leBytes emptyCert.valueId.val ++ content)

/-- The node after a sync response. -/
def syncedNode (content : List UInt8) : HkNode Digest :=
  let n := HkNode.start nodeParams nodeBoot
  { n with app := n.app.storeUndecided ⟨1, some 0, none, nodeParams.address,
      ⟨emptyCert.valueId, content⟩, true⟩ }

lemma run_syncUnder {content : List UInt8}
    (h : (NodeCodec.decodeValue (leBytes emptyCert.valueId.val ++
      content) : Option (HkValue Digest)) =
      some ⟨emptyCert.valueId, content⟩) :
    HkNode.Run nodeParams nodeBoot [syncUnder content] (syncedNode content) := by
  refine .single ?_
  simp only [StepOf, syncUnder, HkNode.step, HkApp.processSyncedValue, h]
  rfl

/-- A peer answers with other bytes under the id of the empty batch: the node commits them under the
certificate of the empty batch. -/
theorem otherBatch_committed : ∃ n sb a,
    HkNode.Run nodeParams nodeBoot [syncUnder otherBatch] n ∧
      HkApp.commit nodeParams emptyCert n.app = (.ok sb, a) ∧
      emptyCert.valueId = (HkValue.new emptyBatch : HkValue Digest).id ∧
      sb.valueBytes = otherBatch ∧
      (HkValue.new sb.valueBytes : HkValue Digest).id ≠ emptyCert.valueId := by
  have hcommit : (HkApp.commit nodeParams emptyCert (syncedNode otherBatch).app).1 =
      .ok ⟨1, otherBatch, emptyCert, false⟩ := by decide +kernel
  refine ⟨syncedNode otherBatch, _, _, run_syncUnder (by decide +kernel),
    Exec.eq_of_outcome hcommit, rfl, rfl, ?_⟩
  decide +kernel

lemma decode_emptyBatch :
    (NodeCodec.decodeValue (leBytes emptyCert.valueId.val ++
      emptyBatch) : Option (HkValue Digest)) =
      some ⟨emptyCert.valueId, emptyBatch⟩ := by decide +kernel

lemma syncBound_emptyBatch : (syncUnder emptyBatch).SyncBound := by
  intro v hv
  rw [decode_emptyBatch, Option.mem_some_iff] at hv
  rw [← hv]
  exact rfl

/-- An honest answer: the empty batch is committed under its certificate. -/
theorem emptyBatch_committed : ∃ n sb a,
    HkNode.Run nodeParams nodeBoot [syncUnder emptyBatch] n ∧
      HkApp.commit nodeParams emptyCert n.app = (.ok sb, a) ∧
      (HkValue.new sb.valueBytes : HkValue Digest).id = emptyCert.valueId := by
  have hcommit : (HkApp.commit nodeParams emptyCert (syncedNode emptyBatch).app).1 =
      .ok ⟨1, emptyBatch, emptyCert, false⟩ := by decide +kernel
  have hrun := run_syncUnder decode_emptyBatch
  have hresult := Exec.eq_of_outcome hcommit
  refine ⟨_, _, _, hrun, hresult, ?_⟩
  refine ((HkNode.committed_content_named nodeParams nodeChain nodeSet hrun ?_).2 _ _ _ hresult).2.1
  intro msg hmsg
  rw [List.mem_singleton.mp hmsg]
  exact syncBound_emptyBatch

end Concrete

end HashKinetics
