import HashKinetics.State.Coverage
import HashKinetics.Node.ContentBinding

/-!
# Aggregates and proofs

A batch may leave the proofs of its pool transactions to one aggregate.  The node installs the
coverage of an accepted aggregate before it applies the block, and the end of the block clears it;
an application that fails leaves it in place.  As long as accepted aggregates come with batches for
the next height, an aggregate means the same as proofs, and no block profits from another one's.
-/

namespace HashKinetics

open Foundations

section

variable {H : Type} [LinearOrder H] [HashSuite H]

/-! ## What an aggregate covers -/

/-- The aggregate verifier accepts only statements that have a valid proof of their own. -/
def AggVerifier.Sound (v : AggVerifier H) (pv : ProofVerifier H) : Prop :=
  ∀ proof sts, v.accepts proof sts = true → ∀ st ∈ sts, ∃ p, p.isEmpty = false ∧
    st.provedBy pv p = true

omit [LinearOrder H] in
/-- Only proof-less transactions are left to an aggregate. -/
lemma SignedTx.uncovered_of_proofless {stx : SignedTx H} (h : stx.payload.proofless = false) :
    stx.uncovered = none := by
  unfold SignedTx.uncovered
  cases hp : stx.payload with
  | mintToPool asset value commitment proof ct =>
    rw [hp] at h
    exact if_neg (Bool.eq_false_iff.mp h)
  | shieldedSpend anchor nf out out2 fee credit mandate proof ct ct2 =>
    rw [hp] at h
    exact if_neg (Bool.eq_false_iff.mp h)
  | _ => rfl

omit [LinearOrder H] in
lemma Tx.ProvedAs.proofless {v : ProofVerifier H} {tx tx' : Tx H} (h : tx.ProvedAs v tx') :
    tx'.proofless = false := by
  cases h with
  | same h => exact h
  | mint hne _ => exact hne
  | spend hne _ => exact hne

lemma width_eq {n : ℕ} (h : n ≤ u64Max) : n % 2 ^ 64 = n :=
  Nat.mod_eq_of_lt (Nat.lt_of_le_of_lt h (by decide))

/-- A proof-less transaction is covered under the statement that its batch leaves to the
aggregate. -/
lemma SignedTx.coveredBy_of_contains {stx : SignedTx H} {cover : OrderedSet H}
    (h : ∀ st, stx.uncovered = some st → cover.contains st.coverKey = true) :
    stx.payload.CoveredBy cover := by
  unfold SignedTx.uncovered at h
  cases hp : stx.payload with
  | mintToPool asset value commitment proof ct =>
    intro hempty hvalue
    have hst := h (.mint (State.expectedMintPublic commitment (value % 2 ^ 64)))
      (by rw [hp]; exact if_pos hempty)
    rw [width_eq hvalue] at hst
    exact hst
  | shieldedSpend anchor nf out out2 fee credit mandate proof ct ct2 =>
    intro hempty hfee
    have hst := h (.spend (State.expectedSpendPublic anchor nf out out2 (fee % 2 ^ 64) credit))
      (by rw [hp]; exact if_pos hempty)
    rw [width_eq hfee] at hst
    exact hst
  | _ => trivial

/-- A proof-less transaction that is dispatched with success has its statement covered. -/
lemma SignedTx.contains_of_dispatch {stx : SignedTx H} {st : Statement H} {s s' : State H}
    {evs : List (Event H)} (hst : stx.uncovered = some st)
    (h : State.dispatch stx.sender stx.payload s = (.ok evs, s')) :
    s.aggCover.contains st.coverKey = true := by
  unfold SignedTx.uncovered at hst
  cases hp : stx.payload with
  | mintToPool asset value commitment proof ct =>
    rw [hp] at h hst
    obtain ⟨key, -, -, hvalue, -, -, hproved, -⟩ := State.doMintToPool_eq_ok h
    simp only [Option.ite_none_right_eq_some, Option.some.injEq] at hst
    obtain ⟨hempty, rfl⟩ := hst
    rw [width_eq hvalue]
    rw [State.mintProved, if_pos hempty] at hproved
    exact hproved
  | shieldedSpend anchor nf out out2 fee credit mandate proof ct ct2 =>
    rw [hp] at h hst
    obtain ⟨key, pool, t, hspend, -⟩ := State.doShieldedSpend_eq_ok h
    simp only [Option.ite_none_right_eq_some, Option.some.injEq] at hst
    obtain ⟨hempty, rfl⟩ := hst
    rw [width_eq hspend.range]
    have hproved := hspend.proved
    rw [State.spendProved, if_pos hempty] at hproved
    exact hproved
  | _ => simp [hp] at hst

omit [LinearOrder H] in
/-- Under a sound aggregate verifier every payload has a form with a proof of its own. -/
lemma SignedTx.exists_provedAs {stx : SignedTx H} {v : ProofVerifier H}
    (h : ∀ st, stx.uncovered = some st → ∃ p, p.isEmpty = false ∧ st.provedBy v p = true) :
    ∃ tx, stx.payload.ProvedAs v tx := by
  cases hless : stx.payload.proofless with
  | false => exact ⟨_, .same hless⟩
  | true =>
    unfold SignedTx.uncovered at h
    cases hp : stx.payload with
    | mintToPool asset value commitment proof ct =>
      rw [hp] at h hless
      obtain rfl : proof = [] := List.isEmpty_iff.mp hless
      obtain ⟨p, hne, hproof⟩ := h _ rfl
      exact ⟨_, .mint hne hproof⟩
    | shieldedSpend anchor nf out out2 fee credit mandate proof ct ct2 =>
      rw [hp] at h hless
      obtain rfl : proof = [] := List.isEmpty_iff.mp hless
      obtain ⟨p, hne, hproof⟩ := h _ rfl
      exact ⟨_, .spend hne hproof⟩
    | _ => simp [hp, Tx.proofless] at hless

variable [NodeCodec H] [RootScheme] [TxCodec H] [StateCodec H]

namespace HkApp

variable {P : NodeParams H} {a a' : HkApp H}

omit [NodeCodec H] [RootScheme] [TxCodec H] [StateCodec H] in
/-- A batch installs coverage only for its own statements, and only if its aggregate is accepted. -/
lemma coverageOf_eq_some {batch : Option (Batch H)} {cover : OrderedSet H}
    (h : coverageOf P true false batch = some cover) :
    ∃ b v, batch = some b ∧ P.agg = some v ∧ b.aggProof.isEmpty = false ∧
      v.accepts b.aggProof b.uncovered = true ∧ cover = coversOf b.uncovered := by
  cases batch with
  | none => cases h
  | some b =>
    simp only [coverageOf, if_true] at h
    split at h
    · cases h
    · next hne =>
      cases hv : P.agg with
      | none => simp [hv] at h
      | some v =>
        simp only [hv, Option.ite_none_right_eq_some, Option.some.injEq] at h
        rw [not_or] at hne
        exact ⟨b, v, rfl, rfl, Bool.not_eq_true _ ▸ hne.1, h.1, h.2.symm⟩

omit [NodeCodec H] [RootScheme] [TxCodec H] [StateCodec H] in
/-- The coverage of a batch with an accepted aggregate has every statement the batch leaves to
it. -/
lemma contains_coverageOf {b : Batch H} {v : AggVerifier H} (hv : P.agg = some v)
    (hproof : b.aggProof.isEmpty = false) (haccept : v.accepts b.aggProof b.uncovered = true)
    {st : Statement H} (hst : st ∈ b.uncovered) :
    ((coverageOf P true false (some b)).getD ∅).contains st.coverKey = true := by
  have hne : b.uncovered.isEmpty = false := by
    cases hb : b.uncovered with
    | nil =>
      rw [hb] at hst
      cases hst
    | cons x xs => rfl
  simp only [coverageOf, hproof, hne, Bool.false_eq_true, or_self, if_false, if_true, hv, haccept,
    Option.getD_some, contains_coversOf]
  exact ⟨st, hst, rfl⟩

omit [NodeCodec H] [RootScheme] [TxCodec H] [StateCodec H] in
/-- A batch that leaves nothing to an aggregate installs nothing. -/
lemma coverageOf_eq_none {b : Batch H} (h : b.uncovered = []) :
    coverageOf P true false (some b) = none := by
  simp [coverageOf, h]

omit [HashSuite H] [NodeCodec H] [RootScheme] [TxCodec H] [StateCodec H] in
/-- Without coverage at hand, a batch runs under its own coverage or under none. -/
lemma coveredBy_eq_setBlockCoverage {s : State H} (h : s.aggCover = ∅)
    (cover : Option (OrderedSet H)) : s.coveredBy cover = s.setBlockCoverage (cover.getD ∅) := by
  cases cover with
  | some c => rfl
  | none =>
    change s = { s with aggCover := ∅ }
    rw [← h]

omit [RootScheme] in
/-- A failed application leaves the chain alone, unless it had installed coverage. -/
lemma chain_of_failed {batch : Option (Batch H)} {height : ℕ} {e : NodeError H}
    (hcovered : ¬ a.Diverges batch → (coverageOf P true false batch).isSome →
      height = a.chain.height + 1 ∧ a.chain.time ≤ blockTime P height)
    (h : applyBatchToChain P height batch true false a = (.err e, a')) :
    a' = { a with lastAppHash := none } := by
  obtain ⟨-, rfl⟩ | ⟨hdiv, ⟨e', herr⟩, rfl⟩ := applyBatchToChain_eq_err h
  · rfl
  · cases hcover : coverageOf P true false batch with
    | none => rfl
    | some cover =>
      obtain ⟨hnext, htime⟩ := hcovered hdiv (by rw [hcover]; rfl)
      rw [hcover] at herr
      exact absurd herr (State.applyBlock_ne_err (s := a.chain.setBlockCoverage cover) hnext htime _
        _)

/-- A restored chain has no coverage. -/
lemma aggCover_restoreFromStore {s : NodeStore H} (ha : a.chain.aggCover = ∅)
    (h : restoreFromStore P s a = (.ok (), a')) : a'.chain.aggCover = ∅ := by
  obtain ⟨a₁, a₂, himage, hreplay, rfl⟩ := restoreFromStore_eq_ok.mp h
  have h₁ : a₁.chain.aggCover = ∅ := by
    obtain ⟨-, rfl⟩ | ⟨snap, -, hload⟩ := restoreImage_eq_ok.mp himage
    · exact ha
    · obtain ⟨-, rfl⟩ := loadImage_eq_ok.mp hload
      rfl
  have h₂ : a₂.chain.aggCover = ∅ := by
    refine replay_invariant (I := fun b => b.chain.aggCover = ∅) ?_ hreplay h₁
    intro height sb b b' _ _ hb hblock
    obtain ⟨-, v, b₁, happly, rfl⟩ := replayBlock_eq_ok.mp hblock
    exact congrArg State.Frame.aggCover (settings_applyBatchToChain happly).2
  exact h₂

end HkApp

namespace HkNode

variable {P : NodeParams H} {boot : HkApp H} {n n' : HkNode H}

/-- A decided batch that is built on the node's state and whose aggregate is accepted is for the
next height, at a time that is not past. -/
def CoversInOrder (P : NodeParams H) (n : HkNode H) (msg : AppMsg H) : Prop :=
  ∀ cert io value, msg = .decided cert io → n.app.undecidedValue cert = some value →
    ¬ n.app.Diverges (NodeCodec.decodeBatch value.txs) →
    (HkApp.coverageOf P true false (NodeCodec.decodeBatch value.txs)).isSome →
    cert.height = n.app.chain.height + 1 ∧ n.app.chain.time ≤ HkApp.blockTime P cert.height

/-- Between blocks no coverage is installed. -/
lemma aggCover_of_step {msg : AppMsg H} (hn : n.app.chain.aggCover = ∅)
    (hboot : boot.chain.aggCover = ∅) (hmsg : n.CoversInOrder P msg)
    (h : step P boot n msg = some n') : n'.app.chain.aggCover = ∅ := by
  cases effect_of_step h with
  | quiet _ _ _ happ =>
    rw [happ]
    exact hn
  | committed hcommit =>
    rw [persist_app]
    obtain ⟨value, a₁, -, happly, -, rfl⟩ := HkApp.commit_eq_ok.mp hcommit
    exact congrArg State.Frame.aggCover (HkApp.settings_applyBatchToChain happly).2
  | @failed cert io value e a _ hvalue happly =>
    obtain rfl := HkApp.chain_of_failed (hmsg cert io value rfl hvalue) happly
    exact hn
  | restarted hrestore => exact HkApp.aggCover_restoreFromStore hboot hrestore

/-- **Aggregates mean the same as proofs.**  Take any run of a node in which every decided batch
with an accepted aggregate is for the next height at a time that is not past.  Then for every block
on the state that is reached: with an accepted aggregate the block has the outcome, the receipts and
the state that it has with valid proofs in the place of the missing ones, and there always are such
proofs if the aggregate verifier is sound; and a pool transaction without a proof is accepted only
if the aggregate of its own block is. -/
theorem aggregate_eq_proofs (P : NodeParams H) (chain : State H) (validators : HkValidatorSet H)
    (hchain : chain.aggCover = ∅) {msgs : List (AppMsg H)} {n : HkNode H}
    (hrun : Run P (.fresh chain validators) msgs n)
    (hcond : Path.Along (StepOf (HkNode.step P (.fresh chain validators)))
      (start P (.fresh chain validators)) msgs (CoversInOrder P)) (height : ℕ) :
    (∀ (b : Batch H) (v : AggVerifier H) (txs' : List (SignedTx H)), P.agg = some v →
      b.aggProof.isEmpty = false → v.accepts b.aggProof b.uncovered = true →
      List.Forall₂ (SignedTx.ProvedAs n.app.chain.verifier) b.txs txs' →
      (HkApp.blockOf P height (some b)
          (n.app.chain.coveredBy (HkApp.coverageOf P true false (some b)))).1 =
        (HkApp.blockOf P height (some { b with txs := txs' }) (n.app.chain.coveredBy
          (HkApp.coverageOf P true false (some { b with txs := txs' })))).1 ∧
      ∀ receipts s, HkApp.blockOf P height (some b)
          (n.app.chain.coveredBy (HkApp.coverageOf P true false (some b))) = (.ok receipts, s) ↔
        HkApp.blockOf P height (some { b with txs := txs' }) (n.app.chain.coveredBy
          (HkApp.coverageOf P true false (some { b with txs := txs' }))) = (.ok receipts, s)) ∧
    (∀ (b : Batch H) (v : AggVerifier H), P.agg = some v → v.Sound n.app.chain.verifier →
      v.accepts b.aggProof b.uncovered = true →
      ∀ stx ∈ b.txs, ∃ tx, stx.payload.ProvedAs n.app.chain.verifier tx) ∧
    ∀ batch receipts s, HkApp.blockOf P height batch
        (n.app.chain.coveredBy (HkApp.coverageOf P true false batch)) = (.ok receipts, s) →
      ∀ stx r, (stx, r) ∈ (HkApp.txsOf batch).zip receipts → r.accepted = true →
        stx.payload.proofless = true →
        ∃ b v, batch = some b ∧ stx ∈ b.txs ∧ P.agg = some v ∧ b.aggProof.isEmpty = false ∧
          v.accepts b.aggProof b.uncovered = true := by
  have hboot : (HkApp.fresh chain validators).chain.aggCover = ∅ := hchain
  have hstart : (start P (HkApp.fresh chain validators)).app.chain.aggCover = ∅ := by
    rw [start_eq]
    exact hchain
  have hcover : n.app.chain.aggCover = ∅ :=
    hrun.invariant_along (I := fun _ n => n.app.chain.aggCover = ∅) hcond hstart
      fun _ msg s s' hs hmsg hstep => aggCover_of_step hs hboot hmsg hstep
  refine ⟨fun b v txs' hv hproof haccept htxs => ?_, fun b v hv hsound haccept stx hstx => ?_,
    fun batch receipts s hblock stx r hmem haccepted hless => ?_⟩
  · -- with proofs in place there is nothing left to an aggregate
    have hnone : ({ b with txs := txs' } : Batch H).uncovered = [] := by
      refine List.filterMap_eq_nil_iff.mpr fun stx hstx => ?_
      obtain ⟨i, hi, rfl⟩ := List.getElem_of_mem hstx
      obtain ⟨hlen, hget⟩ := List.forall₂_iff_get.mp htxs
      have hrel := hget i (hlen ▸ hi) hi
      exact SignedTx.uncovered_of_proofless hrel.payload.proofless
    rw [HkApp.coverageOf_eq_none hnone, HkApp.coveredBy_eq_setBlockCoverage hcover]
    refine State.applyBlock_proved htxs fun stx hstx => ?_
    refine SignedTx.coveredBy_of_contains fun st hst => ?_
    exact HkApp.contains_coverageOf hv hproof haccept (List.mem_filterMap.mpr ⟨stx, hstx, hst⟩)
  · refine SignedTx.exists_provedAs fun st hst => ?_
    exact hsound _ _ haccept st (List.mem_filterMap.mpr ⟨stx, hstx, hst⟩)
  · obtain ⟨-, -, -, s₁, htxs, -⟩ := State.applyBlockVerified_eq_ok hblock
    have hmap : (State.withVerdicts (HkApp.txsOf batch) none).map Prod.fst = HkApp.txsOf batch :=
      State.map_fst_withVerdicts (by simp)
    obtain ⟨t, evs, t', hsame, hdispatch⟩ :=
      State.exists_dispatch_of_accepted htxs (by rw [hmap]; exact hmem) haccepted
    obtain ⟨st, hst⟩ : ∃ st, stx.uncovered = some st := by
      unfold SignedTx.uncovered
      cases hp : stx.payload with
      | mintToPool asset value commitment proof ct =>
        rw [hp] at hless
        exact ⟨_, if_pos hless⟩
      | shieldedSpend anchor nf out out2 fee credit mandate proof ct ct2 =>
        rw [hp] at hless
        exact ⟨_, if_pos hless⟩
      | _ => simp [hp, Tx.proofless] at hless
    have hkey := SignedTx.contains_of_dispatch hst hdispatch
    rw [hsame, HkApp.coveredBy_eq_setBlockCoverage hcover] at hkey
    cases hc : HkApp.coverageOf P true false batch with
    | none =>
      rw [hc] at hkey
      have hempty : (∅ : OrderedSet H).contains st.coverKey = true := hkey
      simp at hempty
    | some cover =>
      obtain ⟨b, v, rfl, hv, hproof, haccept, -⟩ := HkApp.coverageOf_eq_some hc
      exact ⟨b, v, rfl, (List.of_mem_zip hmem).1, hv, hproof, haccept⟩

end HkNode

end

/-! ## Coverage that outlives its block -/

namespace Concrete

open State

/-- One account with a balance of the legacy asset. -/
def shieldGenesis : Genesis Digest where
  time := 0
  accounts := [⟨1, commitAt [1] 0⟩]
  alloc := [⟨1, 7, 10⟩]
  fee := none
  assets := []

/-- A verifier that takes one proof for every statement. -/
def onesVerifier : ProofVerifier Digest where
  verifySpend proof _ := proof = [1]
  verifyMint proof _ := proof = [1]

def shieldConfig : NodeConfig Digest := { config (H := Digest) with verifier := onesVerifier }

def shieldChain : State Digest := start shieldGenesis shieldConfig

/-- A shield without a proof. -/
def bareShield : SignedTx Digest := signedDigest [1] 1 0 (.mintToPool 7 5 3 [] [])

/-- The batch of the shield on the genesis state, with the given aggregate. -/
def shieldBatch (aggProof : List UInt8) : Batch Digest :=
  ⟨⟨[], []⟩, shieldChain.stateCommitment, [bareShield], aggProof⟩

/-- Byte strings are the batches of the shield under the aggregate they spell, but zero is the batch
without transactions. -/
local instance shieldCodec : NodeCodec Digest where
  decodeBatch bytes :=
    some (if bytes = [0] then { shieldBatch [] with txs := [] } else shieldBatch bytes)
  decodeValue _ := none
  txJson tx := (digestTxCode tx.payload ++ [tx.sender.val, tx.nonce]).flatMap leBytes

/-- The aggregate verifier that takes the same proof. -/
def onesAggregate : AggVerifier Digest where
  verify proof _ := proof = [1]
  spendVk := []
  mintVk := []

lemma onesAggregate_sound : onesAggregate.Sound onesVerifier := by
  intro proof sts _ st _
  refine ⟨[1], rfl, ?_⟩
  cases st <;> rfl

def shieldParams : NodeParams Digest := { nodeParams with agg := some onesAggregate }

/-- The certificate of the shield under an aggregate, at some height. -/
def shieldCert (height : ℕ) (aggProof : List UInt8) : CommitCertificate Digest :=
  ⟨height, some 0, (HkValue.new aggProof : HkValue Digest).id⟩

/-- The node proposes the shield with its aggregate for a height, and the engine decides on it. -/
def shieldAt (height : ℕ) : List (AppMsg Digest) :=
  [.getValue height (some 0) [1], .decided (shieldCert height [1]) ⟨true, false, [], [], false⟩]

def shieldNode (msgs : List (AppMsg Digest)) : Option (HkNode Digest) :=
  msgs.foldlM (HkNode.step shieldParams (.fresh shieldChain nodeSet))
    (.start shieldParams (.fresh shieldChain nodeSet))

/-- The signature of the shield is honest, so it may be skipped. -/
lemma blockOf_shieldBatch (aggProof : List UInt8) (height : ℕ) :
    HkApp.blockOf shieldParams height (some (shieldBatch aggProof)) =
      applyBlockVerified height (HkApp.blockTime shieldParams height) [bareShield]
        (some [true]) := by
  have hverified : [bareShield].map verifyEnvelope = [true] := by
    rw [List.map_singleton, bareShield, verifyEnvelope_signedDigest]
  exact HkApp.blockOf_of_verified hverified

/-- The batch is decided for height two while the chain is at genesis: its application fails, and
after that the first block accepts the shield with no proof and no aggregate. -/
theorem shieldAt_two_leaks : ∃ n receipts s,
    HkNode.Run shieldParams (.fresh shieldChain nodeSet) (shieldAt 2) n ∧
      onesAggregate.Sound shieldChain.verifier ∧ (shieldBatch []).aggProof = [] ∧
      bareShield.payload.proofless = true ∧
      HkApp.blockOf shieldParams 1 (some (shieldBatch []))
        (n.app.chain.coveredBy (HkApp.coverageOf shieldParams true false (some (shieldBatch []))))
        = (.ok receipts, s) ∧ receipts.all Receipt.accepted = true ∧ receipts.length = 1 := by
  obtain ⟨n, hn, hprop⟩ := (Option.any_eq_true _ _).mp (show (shieldNode (shieldAt 2)).any
    (fun n => (applyBlockVerified 1 (HkApp.blockTime shieldParams 1) [bareShield] (some [true])
      (n.app.chain.coveredBy (HkApp.coverageOf shieldParams true false
        (some (shieldBatch []))))).1.okAnd
        fun receipts => receipts.all Receipt.accepted && receipts.length == 1) =
          true by decide +kernel)
  rw [← blockOf_shieldBatch []] at hprop
  obtain ⟨receipts, hok, hblock⟩ := Exec.exists_of_okAnd hprop
  simp only [Bool.and_eq_true, beq_iff_eq] at hok
  exact ⟨n, receipts, _, path_of_foldlM hn, onesAggregate_sound, rfl, rfl, hblock, hok.1, hok.2⟩

/-- The shield with a proof of its own. -/
def provedShield : SignedTx Digest := signedDigest [1] 1 0 (.mintToPool 7 5 3 [1] [])

lemma signedDigest_fields (seed : List UInt8) (sender : Digest) (nonce : ℕ) (tx : Tx Digest) :
    ∃ sig, signedDigest seed sender nonce tx = ⟨sender, nonce, tx, commitAt seed (nonce + 1),
      (Lamport.keygen seed nonce).2, sig⟩ := by
  have hsome : signAt seed sender nonce tx = some (signedDigest seed sender nonce tx) :=
    (Option.some_get _).symm
  simp only [signAt] at hsome
  obtain ⟨digest, -, hstx⟩ := Option.map_eq_some_iff.mp hsome
  exact ⟨_, hstx.symm⟩

/-- Signing the two forms of a payload alike. -/
lemma signedDigest_provedAs {v : ProofVerifier Digest} {tx tx' : Tx Digest} (h : tx.ProvedAs v tx')
    (seed : List UInt8) (sender : Digest) (nonce : ℕ) :
    (signedDigest seed sender nonce tx).ProvedAs v (signedDigest seed sender nonce tx') := by
  have hverified := verifyEnvelope_signedDigest seed sender nonce tx
  have hverified' := verifyEnvelope_signedDigest seed sender nonce tx'
  have hencodes : ∀ (tx : Tx Digest) a b c, (signingDigest tx a b c).isNone = false :=
    fun _ _ _ _ => rfl
  obtain ⟨sig, hsig⟩ := signedDigest_fields seed sender nonce tx
  obtain ⟨sig', hsig'⟩ := signedDigest_fields seed sender nonce tx'
  rw [hsig] at hverified ⊢
  rw [hsig'] at hverified' ⊢
  refine ⟨rfl, rfl, rfl, rfl, ?_, hverified'.trans hverified.symm, h⟩
  rw [hencodes, hencodes]

/-- A spend without a proof under the root of the empty pool, as the sender's next transaction. -/
def spendOf (proof : List UInt8) : Tx Digest :=
  .shieldedSpend shieldChain.pool.tree.root 77 31 32 0 none none proof [] []

def bareSpend : SignedTx Digest := signedDigest [1] 1 1 (spendOf [])

/-- The spend with a proof of its own. -/
def provedSpend : SignedTx Digest := signedDigest [1] 1 1 (spendOf [1])

/-- The shield and the spend in one batch. -/
def bareBatch (aggProof : List UInt8) : Batch Digest :=
  { shieldBatch aggProof with txs := [bareShield, bareSpend] }

/-- The node proposes the empty batch for the first height, and the engine decides on it. -/
def emptyFirst : List (AppMsg Digest) :=
  [.getValue 1 (some 0) [0], .decided (shieldCert 1 [0]) ⟨true, false, [], [], false⟩]

/-- The signatures are honest, so they may be skipped. -/
lemma blockOf_bareBatch (aggProof : List UInt8) (height : ℕ) :
    HkApp.blockOf shieldParams height (some (bareBatch aggProof)) =
      applyBlockVerified height (HkApp.blockTime shieldParams height) [bareShield, bareSpend]
        (some [true, true]) := by
  have hverified : [bareShield, bareSpend].map verifyEnvelope = [true, true] := by
    simp only [List.map_cons, List.map_nil, bareShield, bareSpend, verifyEnvelope_signedDigest]
  exact HkApp.blockOf_of_verified hverified

/-- The message decides on no batch with coverage. -/
def bringsNothing (n : HkNode Digest) : AppMsg Digest → Bool
  | .decided cert _ => (n.app.undecidedValue cert).all fun value =>
      (HkApp.coverageOf shieldParams true false (NodeCodec.decodeBatch value.txs)).isNone
  | _ => true

/-- After a block without transactions the covered shield and the covered spend are accepted as the
proved ones are, and neither of them without an aggregate. -/
theorem bareShield_covered : ∃ n,
    HkNode.Run shieldParams (.fresh shieldChain nodeSet) emptyFirst n ∧ n.app.chain.height = 1 ∧
    (∃ receipts s, receipts.all Receipt.accepted = true ∧ receipts.length = 2 ∧
      HkApp.blockOf shieldParams 2 (some { bareBatch [1] with txs := [provedShield, provedSpend] })
        (n.app.chain.coveredBy (HkApp.coverageOf shieldParams true false
          (some { bareBatch [1] with txs := [provedShield, provedSpend] }))) =
            (.ok receipts, s)) ∧
    ∀ receipts s, HkApp.blockOf shieldParams 2 (some (bareBatch []))
      (n.app.chain.coveredBy (HkApp.coverageOf shieldParams true false (some (bareBatch []))))
        = (.ok receipts, s) →
      ∀ p ∈ [bareShield, bareSpend].zip receipts, p.2.accepted = false := by
  obtain ⟨n, hn, hprop⟩ := (Option.any_eq_true _ _).mp (show (shieldNode emptyFirst).any
    (fun n => n.app.chain.height = 1 ∧
      n.app.chain.verifier.verifyMint [1] (expectedMintPublic 3 5) = true ∧
      n.app.chain.verifier.verifySpend [1]
        (expectedSpendPublic shieldChain.pool.tree.root 77 31 32 0 none) = true ∧
      (applyBlockVerified 2 (HkApp.blockTime shieldParams 2) [bareShield, bareSpend]
        (some [true, true]) (n.app.chain.coveredBy (HkApp.coverageOf shieldParams true false
          (some (bareBatch [1]))))).1.okAnd
        (fun receipts => receipts.all Receipt.accepted && receipts.length == 2) = true) = true by
          decide +kernel)
  obtain ⟨hheight, hmint, hspend, hok⟩ := of_decide_eq_true hprop
  have hrun : HkNode.Run shieldParams (.fresh shieldChain nodeSet) emptyFirst n :=
    path_of_foldlM hn
  have horder : Path.Along (StepOf (HkNode.step shieldParams (.fresh shieldChain nodeSet)))
      (.start shieldParams (.fresh shieldChain nodeSet)) emptyFirst
      (HkNode.CoversInOrder shieldParams) := by
    have hnone : Path.Along (StepOf (HkNode.step shieldParams (.fresh shieldChain nodeSet)))
        (.start shieldParams (.fresh shieldChain nodeSet)) emptyFirst
        fun n msg => bringsNothing n msg = true := along_of_foldlM (by decide +kernel)
    rintro pre _ s hpre hpath cert io value rfl hvalue _ hcovers
    have hbrings := hnone pre _ s hpre hpath
    simp only [bringsNothing, hvalue, Option.all_some, Option.isNone_iff_eq_none] at hbrings
    rw [hbrings] at hcovers
    cases hcovers
  obtain ⟨hsame, -, hown⟩ :=
    HkNode.aggregate_eq_proofs shieldParams shieldChain nodeSet rfl hrun horder 2
  refine ⟨n, hrun, hheight, ?_, fun receipts s hblock p hp => ?_⟩
  · rw [← blockOf_bareBatch [1]] at hok
    obtain ⟨receipts, hreceipts, hblock⟩ := Exec.exists_of_okAnd hok
    rw [Bool.and_eq_true, beq_iff_eq] at hreceipts
    have hshield : bareShield.ProvedAs n.app.chain.verifier provedShield :=
      signedDigest_provedAs (.mint rfl hmint) [1] 1 0
    have hspent : bareSpend.ProvedAs n.app.chain.verifier provedSpend :=
      signedDigest_provedAs (.spend rfl hspend) [1] 1 1
    obtain ⟨-, hiff⟩ := hsame (bareBatch [1]) onesAggregate [provedShield, provedSpend] rfl rfl rfl
      (.cons hshield (.cons hspent .nil))
    exact ⟨receipts, _, hreceipts.1, hreceipts.2, (hiff receipts _).mp hblock⟩
  · by_contra haccepted
    have hproofless : p.1.payload.proofless = true := by
      have hmem := (List.of_mem_zip hp).1
      simp only [List.mem_cons, List.not_mem_nil, or_false] at hmem
      obtain h | h := hmem
      · rw [h]
        rfl
      · rw [h]
        rfl
    obtain ⟨b, v, hb, -, -, hproof, -⟩ := hown _ receipts s hblock p.1 p.2 hp
      (by simpa using haccepted) hproofless
    cases hb
    cases hproof

end Concrete

end HashKinetics
