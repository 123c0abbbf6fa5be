import HashKinetics.State.Accounts
import HashKinetics.Node.MempoolIndex

/-!
# The order of the mempool

Along admissions, commits and prunes the queue holds the transactions of every sender in the order
of their nonces, as long as no prune takes a transaction that the chain has not executed and leaves
a later one of the same sender behind: after such a prune the nonce that left is admitted again,
behind its successor.
-/

namespace HashKinetics

open Foundations

/-- The chain and the pool in front of it. -/
structure DoorState (H : Type) [LinearOrder H] where
  chain : State H
  pool : Mempool H

/-- What happens at the door. -/
inductive DoorOp (H : Type) [LinearOrder H] where
  | tryAdmit (tx : SignedTx H)
  | admitVerified (tx : SignedTx H) (verdict : EnvelopeVerdict H)
  /-- The coverage of an aggregate ahead of the block it came with. -/
  | cover (keys : OrderedSet H)
  | commit (b : Block H)
  | remove (included : List (H × ℕ))

/-- Every sender's transactions stand in the order of their nonces. -/
def NonceOrdered {H : Type} (q : List (SignedTx H)) : Prop :=
  q.Pairwise fun a b => a.sender = b.sender → a.nonce < b.nonce

namespace State

variable {H : Type} [LinearOrder H] [HashSuite H] [TxCodec H]

/-- Over a call of the node an account stays, and its nonce does not fall. -/
lemma BlockStep.exists_account {s s' : State H} {ls : List (Elementary H)} (hf : s.Fits)
    (h : BlockStep s ls s') {id : H} {acc : Account H} (hacc : s.accounts[id]? = some acc) :
    ∃ acc' : Account H, s'.accounts[id]? = some acc' ∧ acc.nonce ≤ acc'.nonce := by
  refine (path_of_blockStep hf h).invariant
    (I := fun t => ∃ a : Account H, t.accounts[id]? = some a ∧ acc.nonce ≤ a.nonce)
    ⟨acc, hacc, le_rfl⟩ ?_
  rintro t l t' - ⟨a, ha, hle⟩ hstep
  obtain ⟨a', ha', hle'⟩ := hstep.exists_account ha
  exact ⟨a', ha', hle.trans hle'⟩

lemma BlockStep.fits {s s' : State H} {ls : List (Elementary H)} (hf : s.Fits)
    (h : BlockStep s ls s') : s'.Fits :=
  (path_of_blockStep hf h).invariant hf fun _ _ _ _ hf hstep => hf.elemStep hstep

/-- The chain has an account for the sender and has not executed its nonce. -/
def Awaits (s : State H) (tx : SignedTx H) : Prop :=
  ∃ acc, s.accounts[tx.sender]? = some acc ∧ acc.nonce ≤ tx.nonce

end State

namespace DoorState

variable {H : Type} [LinearOrder H] [HashSuite H] [NodeCodec H] [TxCodec H] {window : ℕ}
  {d d' : DoorState H} {op : DoorOp H}

/-- One operation at the door.  A commit that stops on a failed assertion leads nowhere. -/
def step (window : ℕ) (d : DoorState H) : DoorOp H → Option (DoorState H)
  | .tryAdmit tx => some ⟨d.chain, (Mempool.tryAdmit window tx d.chain d.pool).2⟩
  | .admitVerified tx verdict =>
    some ⟨d.chain, (Mempool.tryAdmitVerified window tx d.chain verdict d.pool).2⟩
  | .cover keys => some ⟨d.chain.setBlockCoverage keys, d.pool⟩
  | .commit b =>
    match State.applyBlockVerified b.height b.time b.txs b.verdicts d.chain with
    | (.fault, _) => none
    | (_, s') => some ⟨s', d.pool⟩
  | .remove included => some ⟨d.chain, (d.pool.removeIncluded included).2⟩

/-- A prune that takes a transaction the chain has not executed takes the sender's later ones
too. -/
def LeavesNoOrphan (d : DoorState H) : DoorOp H → Prop
  | .remove included => ∀ tx ∈ d.pool.q, (tx.sender, tx.nonce) ∈ included → d.chain.Awaits tx →
      ∀ tx' ∈ d.pool.q, tx'.sender = tx.sender → tx.nonce < tx'.nonce →
        (tx'.sender, tx'.nonce) ∈ included
  | _ => True

/-- The queue is ordered, and from the nonce of its account on every sender's nonces have no gap. -/
structure Gapless (d : DoorState H) : Prop where
  fits : d.chain.Fits
  indexed : d.pool.Indexed
  account : ∀ tx ∈ d.pool.q, ∃ acc, d.chain.accounts[tx.sender]? = some acc
  ordered : NonceOrdered d.pool.q
  gapless : ∀ tx ∈ d.pool.q, ∀ acc, d.chain.accounts[tx.sender]? = some acc →
    ∀ n, acc.nonce ≤ n → n ≤ tx.nonce → ∃ t ∈ d.pool.q, t.sender = tx.sender ∧ t.nonce = n

omit [TxCodec H] in
lemma gapless_new {s : State H} (hfits : s.Fits) (cap : ℕ) :
    (⟨s, .new cap⟩ : DoorState H).Gapless :=
  ⟨hfits, Mempool.indexed_new cap, fun _ h => (by cases h), List.Pairwise.nil,
    fun _ h => (by cases h)⟩

omit [TxCodec H] in
/-- A transaction that is let in is the next one of its sender. -/
lemma Gapless.admitted (h : d.Gapless) {tx : SignedTx H} {verdict : EnvelopeVerdict H}
    {p' : Mempool H} (ha : Mempool.Admitted tx d.chain verdict d.pool p') :
    (⟨d.chain, p'⟩ : DoorState H).Gapless := by
  obtain ⟨acc, hacc, hle, auth, hauth, -⟩ := ha.account
  -- a pending nonce at or above the new one would fill the slot, which is free
  have hbelow : ∀ t ∈ d.pool.q, t.sender = tx.sender → t.nonce < tx.nonce := by
    intro t ht hsender
    by_contra hge
    obtain ⟨t', ht', hs, hn⟩ := h.gapless t ht acc (hsender ▸ hacc) tx.nonce hle (not_lt.mp hge)
    refine ha.slot ((h.indexed.keys.mem_iff tx.slot).mpr ⟨t', ht', ?_⟩)
    rw [SignedTx.slot, SignedTx.slot, hs, hn, hsender]
  -- beyond the account's nonce the predecessor is pending
  have hprev : acc.nonce < tx.nonce →
      ∃ t ∈ d.pool.q, t.sender = tx.sender ∧ t.nonce = tx.nonce - 1 := by
    intro hlt
    unfold Mempool.expectedAuth at hauth
    rw [if_neg (by omega)] at hauth
    split at hauth
    next next hkey =>
      have hin : toLex (tx.sender, tx.nonce - 1) ∈ d.pool.keys := by
        rw [Std.ExtTreeMap.mem_iff_isSome_getElem?, hkey]
        rfl
      obtain ⟨t, ht, hslot⟩ := (h.indexed.keys.mem_iff _).mp hin
      exact ⟨t, ht, by simpa [SignedTx.slot] using hslot⟩
    next => cases hauth
  have hq : p'.q = d.pool.q ++ [tx] := by
    rw [ha.result]
    rfl
  refine ⟨h.fits, h.indexed.admitted ha, ?_, ?_, ?_⟩
  · simp only [hq]
    intro t ht
    rcases List.mem_append.mp ht with ht | ht
    · exact h.account t ht
    · obtain rfl := List.mem_singleton.mp ht
      exact ⟨acc, hacc⟩
  · simp only [hq]
    refine List.pairwise_append.mpr ⟨h.ordered, List.pairwise_singleton _ _, fun t ht t' ht' => ?_⟩
    obtain rfl := List.mem_singleton.mp ht'
    exact hbelow t ht
  · simp only [hq]
    intro t ht a hget n hlo hhi
    rcases List.mem_append.mp ht with ht | ht
    · obtain ⟨t', ht', hrest⟩ := h.gapless t ht a hget n hlo hhi
      exact ⟨t', List.mem_append_left _ ht', hrest⟩
    · obtain rfl := List.mem_singleton.mp ht
      obtain rfl : acc = a := Option.some.inj (hacc.symm.trans hget)
      rcases Nat.lt_or_eq_of_le hhi with hlt | rfl
      · obtain ⟨t', ht', hs, hn⟩ := hprev (by omega)
        obtain ⟨t'', ht'', hs', hn'⟩ :=
          h.gapless t' ht' acc (hs ▸ hget) n hlo (by omega)
        exact ⟨t'', List.mem_append_left _ ht'', hs'.trans hs, hn'⟩
      · exact ⟨t, List.mem_append_right _ (List.mem_singleton_self t), rfl, rfl⟩

omit [TxCodec H] in
/-- What a prune leaves has no gap, if it left no orphan. -/
lemma Gapless.remove (h : d.Gapless) {included : List (H × ℕ)}
    (hcond : d.LeavesNoOrphan (.remove included)) :
    (⟨d.chain, (d.pool.removeIncluded included).2⟩ : DoorState H).Gapless := by
  have hmem : ∀ {t : SignedTx H}, t ∈ Mempool.kept included d.pool.q ↔
      t ∈ d.pool.q ∧ (t.sender, t.nonce) ∉ included := by
    intro t
    simp [Mempool.kept]
  refine ⟨h.fits, h.indexed.removeIncluded included, ?_, ?_, ?_⟩
  · simp only [Mempool.q_removeIncluded]
    exact fun t ht => h.account t (hmem.mp ht).1
  · simp only [Mempool.q_removeIncluded]
    exact h.ordered.sublist List.filter_sublist
  · simp only [Mempool.q_removeIncluded]
    intro t ht acc hacc n hlo hhi
    obtain ⟨hin, hkept⟩ := hmem.mp ht
    obtain ⟨t', ht', hs, hn⟩ := h.gapless t hin acc hacc n hlo hhi
    refine ⟨t', hmem.mpr ⟨ht', fun hgone => hkept ?_⟩, hs, hn⟩
    -- what left below a transaction that stayed would have taken it along
    rcases Nat.lt_or_eq_of_le hhi with hlt | heq
    · exact hcond t' ht' hgone ⟨acc, hs ▸ hacc, by omega⟩ t hin hs.symm (by omega)
    · rw [← hs, ← heq, ← hn]
      exact hgone

/-- A call of the chain keeps the order of the pool: accounts stay, and their nonces only grow. -/
lemma Gapless.blockStep (h : d.Gapless) {ls : List (Elementary H)} {s' : State H}
    (hblock : State.BlockStep d.chain ls s') : (⟨s', d.pool⟩ : DoorState H).Gapless := by
  refine ⟨hblock.fits h.fits, h.indexed, fun t ht => ?_, h.ordered, fun t ht acc' hacc' n hlo => ?_⟩
  · obtain ⟨acc, hacc⟩ := h.account t ht
    obtain ⟨acc', hacc', -⟩ := hblock.exists_account h.fits hacc
    exact ⟨acc', hacc'⟩
  · obtain ⟨acc, hacc⟩ := h.account t ht
    obtain ⟨acc'', hacc'', hle⟩ := hblock.exists_account h.fits hacc
    obtain rfl : acc'' = acc' := Option.some.inj (hacc''.symm.trans hacc')
    exact h.gapless t ht acc hacc n (hle.trans hlo)

omit [TxCodec H] in
lemma Gapless.tryAdmitVerified (h : d.Gapless) (window : ℕ) (tx : SignedTx H)
    (verdict : EnvelopeVerdict H) :
    (⟨d.chain, (Mempool.tryAdmitVerified window tx d.chain verdict d.pool).2⟩ :
      DoorState H).Gapless := by
  rcases Mempool.tryAdmitVerified_cases window tx d.chain verdict d.pool with ha | hsame
  · exact h.admitted ha
  · rw [hsame]
    exact h

lemma Gapless.step (h : d.Gapless) (hstep : d.step window op = some d')
    (hcond : d.LeavesNoOrphan op) : d'.Gapless := by
  cases op with
  | tryAdmit tx =>
    cases hstep
    exact h.tryAdmitVerified window tx _
  | admitVerified tx verdict =>
    cases hstep
    exact h.tryAdmitVerified window tx verdict
  | cover keys =>
    cases hstep
    exact h.blockStep (.cover keys)
  | commit b =>
    simp only [DoorState.step] at hstep
    rcases hrun : State.applyBlockVerified b.height b.time b.txs b.verdicts d.chain with
      ⟨receipts | e | _, s'⟩
    · rw [hrun] at hstep
      cases hstep
      exact h.blockStep (.applied hrun)
    · rw [hrun] at hstep
      cases hstep
      exact h.blockStep (.refused hrun)
    · rw [hrun] at hstep
      cases hstep
  | remove included =>
    cases hstep
    exact h.remove hcond

/-- From an empty pool, along admissions, commits and prunes that leave no orphan, the queue holds
every sender's transactions in the order of their nonces, and so does what the proposer picks. -/
theorem nonceOrdered_of_noOrphans {s : State H} (hfits : s.Fits) {cap : ℕ} {ops : List (DoorOp H)}
    (hrun : Path (StepOf (step window)) ⟨s, .new cap⟩ ops d)
    (hcond : Path.Along (StepOf (step window)) ⟨s, .new cap⟩ ops LeavesNoOrphan) :
    NonceOrdered d.pool.q ∧
      ∀ room links, NonceOrdered (selectBatchTxs d.chain d.pool.q room links).1 := by
  have h : d.Gapless :=
    hrun.invariant_along (I := fun _ d => d.Gapless) hcond (gapless_new hfits cap)
    fun _ _ _ _ hd hc hstep => hd.step hstep hc
  refine ⟨h.ordered, fun room links => h.ordered.sublist ?_⟩
  exact selectLoop_sublist d.chain room d.pool.q [] 0 links ∅

end DoorState

/-! ## A nonce that is admitted again -/

namespace Concrete

open State

/-- One account with five coins. -/
def doorGenesis : Genesis ℕ := ⟨0, [account 1], [⟨1, 7, 5⟩], none, []⟩

def doorChain : State ℕ := start doorGenesis config

/-- The first payment of the account, for more than it has. -/
def overspend : SignedTx ℕ := signed [1] 1 0 (.transfer 2 7 100)

/-- Its second payment. -/
def second : SignedTx ℕ := signed [1] 1 1 (.transfer 2 7 1)

/-- Another first payment, for what it has. -/
def retry : SignedTx ℕ := signed [1] 1 0 (.transfer 2 7 1)

/-- What the state-free half of admission says about an honest payment. -/
def honest (nonce : ℕ) : EnvelopeVerdict ℕ := ⟨some (commitAt [1] nonce), .ok ()⟩

lemma step_admit_honest (nonce amount : ℕ) {tx : SignedTx ℕ} (chain : State ℕ) (p : Mempool ℕ)
    (htx : tx = signed [1] 1 nonce (.transfer 2 7 amount)) :
    (⟨chain, p⟩ : DoorState ℕ).step 64 (.tryAdmit tx) =
      some ⟨chain, (Mempool.tryAdmitVerified 64 tx chain (honest nonce) p).2⟩ := by
  subst htx
  have hcap : Mempool.channelOpenCap (signed [1] 1 nonce (.transfer 2 7 amount)) = .ok () := by
    simp only [Mempool.channelOpenCap, payload_signed]
  simp only [DoorState.step, Mempool.tryAdmit_eq, envelopeVerdict_signed _ _ _ hcap, honest]

/-- The chain after a first block that carries one payment. -/
def chainAfter (tx : SignedTx ℕ) : State ℕ :=
  (applyBlockVerified 1 0 [tx] (some [true]) doorChain).2

lemma step_commit_honest (nonce amount : ℕ) {tx : SignedTx ℕ} (p : Mempool ℕ)
    (htx : tx = signed [1] 1 nonce (.transfer 2 7 amount))
    (hok : (applyBlockVerified 1 0 [tx] (some [true]) doorChain).1.okAnd (fun _ => true) = true) :
    (⟨doorChain, p⟩ : DoorState ℕ).step 64 (.commit ⟨1, 0, [tx], none⟩) =
      some ⟨chainAfter tx, p⟩ := by
  have hrun : applyBlockVerified 1 0 [tx] none doorChain =
      applyBlockVerified 1 0 [tx] (some [true]) doorChain := by
    have hverified : [tx].map verifyEnvelope = [true] := by
      simp [htx, verifyEnvelope_signed]
    rw [← hverified]
    exact congrFun (applyBlockVerified_verdicts 1 0 [tx]).symm doorChain
  obtain ⟨receipts, -, hres⟩ := Exec.exists_of_okAnd hok
  simp only [DoorState.step, hrun]
  rw [hres]
  rfl

/-- The pool after both payments. -/
def twoPending : Mempool ℕ :=
  (Mempool.tryAdmitVerified 64 second doorChain (honest 1)
    (Mempool.tryAdmitVerified 64 overspend doorChain (honest 0) (.new 8)).2).2

/-- The pool after the prune and the retry. -/
def retried : Mempool ℕ :=
  (Mempool.tryAdmitVerified 64 retry (chainAfter overspend) (honest 0)
    (twoPending.removeIncluded [(1, 0)]).2).2

/-- Two payments are admitted, the first is refused in a block and pruned, and a retry of the first
is admitted behind the second. -/
theorem retry_behind_second :
    Path (StepOf (DoorState.step 64)) ⟨doorChain, .new 8⟩
        [.tryAdmit overspend, .tryAdmit second, .commit ⟨1, 0, [overspend], none⟩, .remove [(1, 0)],
          .tryAdmit retry]
        ⟨chainAfter overspend, retried⟩ ∧
      retried.q.map (fun tx => (tx.sender, tx.nonce)) = [(1, 1), (1, 0)] ∧
      ¬ NonceOrdered retried.q := by
  have hslots : retried.q.map (fun tx => (tx.sender, tx.nonce)) = [(1, 1), (1, 0)] := by
    decide +kernel
  refine ⟨?_, hslots, fun hordered => ?_⟩
  · have hfirst := step_admit_honest 0 100 doorChain (.new 8) overspend.eq_def
    have hsecond := step_admit_honest 1 1 doorChain
      (Mempool.tryAdmitVerified 64 overspend doorChain (honest 0) (.new 8)).2 second.eq_def
    have hcommit := step_commit_honest 0 100 twoPending overspend.eq_def (by decide +kernel)
    have hremove : (⟨chainAfter overspend, twoPending⟩ : DoorState ℕ).step 64 (.remove [(1, 0)]) =
      some ⟨chainAfter overspend,
        (twoPending.removeIncluded [(1, 0)]).2⟩ := by simp only [DoorState.step]
    have hretry := step_admit_honest 0 1 (chainAfter overspend)
      (twoPending.removeIncluded [(1, 0)]).2
      retry.eq_def
    exact .cons hfirst (.cons hsecond (.cons hcommit (.cons hremove (.cons hretry .nil))))
  · have hpairs : (retried.q.map fun tx => (tx.sender, tx.nonce)).Pairwise
        fun a b => a.1 = b.1 → a.2 < b.2 := List.pairwise_map.mpr hordered
    rw [hslots] at hpairs
    revert hpairs
    decide

/-- The first payment is executed, and the prune leaves the second one in its place. -/
theorem retry_executed_pruned : ∃ d : DoorState ℕ,
    Path (StepOf (DoorState.step 64)) ⟨doorChain, .new 8⟩
        [.tryAdmit retry, .tryAdmit second, .commit ⟨1, 0, [retry], none⟩, .remove [(1, 0)]] d ∧
      d.pool.q.map (fun tx => (tx.sender, tx.nonce)) = [(1, 1)] ∧ NonceOrdered d.pool.q := by
  let p₁ : Mempool ℕ := (Mempool.tryAdmitVerified 64 retry doorChain (honest 0) (.new 8)).2
  let p₂ : Mempool ℕ := (Mempool.tryAdmitVerified 64 second doorChain (honest 1) p₁).2
  have hfits : doorChain.Fits := (initial_start config (by decide +kernel)).fresh.fits
  have hfirst := step_admit_honest 0 1 doorChain (.new 8) retry.eq_def
  have hsecond := step_admit_honest 1 1 doorChain p₁ second.eq_def
  have hcommit := step_commit_honest 0 1 p₂ retry.eq_def (by decide +kernel)
  have hremove : (⟨chainAfter retry, p₂⟩ : DoorState ℕ).step 64 (.remove [(1, 0)]) =
      some ⟨chainAfter retry, (p₂.removeIncluded [(1, 0)]).2⟩ := by simp only [DoorState.step]
  have hrun : Path (StepOf (DoorState.step 64)) ⟨doorChain, .new 8⟩
      [.tryAdmit retry, .tryAdmit second, .commit ⟨1, 0, [retry], none⟩, .remove [(1, 0)]] _ :=
    .cons hfirst (.cons hsecond (.cons hcommit (.cons hremove .nil)))
  -- the chain is past the nonce that the prune takes
  have hnonce : ((chainAfter retry).accounts[1]?.map fun acc => acc.nonce) = some 1 := by
    decide +kernel
  have hcond : Path.Along (StepOf (DoorState.step 64)) ⟨doorChain, .new 8⟩
      [.tryAdmit retry, .tryAdmit second, .commit ⟨1, 0, [retry], none⟩, .remove [(1, 0)]]
      DoorState.LeavesNoOrphan := by
    have hdet := stepOf_deterministic (DoorState.step (H := ℕ) 64)
    refine .cons hdet hfirst trivial (.cons hdet hsecond trivial (.cons hdet hcommit trivial
      (.cons hdet hremove ?_ .nil)))
    rintro tx - hin ⟨acc, hacc, hle⟩
    obtain ⟨hsender, hzero⟩ : tx.sender = 1 ∧ tx.nonce = 0 := by simpa using hin
    rw [hsender] at hacc
    rw [hacc] at hnonce
    have hone : acc.nonce = 1 := Option.some.inj hnonce
    omega
  exact ⟨_, hrun, by decide +kernel, (DoorState.nonceOrdered_of_noOrphans hfits hrun hcond).1⟩

end Concrete

end HashKinetics
