import HashKinetics.State.PoolMoves
import HashKinetics.Node.Door

/-!
# What the door refuses

Most refusals of the door come true: applied behind the queue, the transaction is refused by the
chain as well.  Three kinds judge on less than the chain will see: an unknown sender whose account a
pending transaction creates, a nullifier that a pending spend claims but may not get, and an anchor
that is the root of an empty tree while a pending shield opens a new pool.
-/

namespace HashKinetics

open Foundations

namespace State

variable {H : Type} [LinearOrder H] [HashSuite H]

/-! ## The pools while a block is applied -/

/-- The root of a tree without leaves, which a new pool starts with. -/
def emptyRoot (H : Type) [HashSuite H] : H := (IncrementalTree.new : IncrementalTree H).root

/-- A transaction of the list shields an asset that has neither a pool of its own nor the legacy
pool. -/
def OpensPool (s : State H) (q : List (SignedTx H)) (asset : H) : Prop :=
  ∃ tx ∈ q,
    (∃ value commitment proof ct, tx.payload = .mintToPool asset value commitment proof ct) ∧
    s.pools[asset]? = none ∧ s.pool.asset ≠ some asset

/-- The pools of `s'`, some transactions of the list after `s` and before the end of the block:
every pool is still there with its anchors and its nullifiers, and a new one has the empty root
alone. -/
structure PoolsGrow (s : State H) (q : List (SignedTx H)) (s' : State H) : Prop where
  kept : ∀ (key : PoolKey H) (p : PoolState H), s.poolRef key = some p →
    ∃ p' : PoolState H, s'.poolRef key = some p' ∧ p'.anchors = p.anchors ∧
      ∀ nf ∈ p.nullifiers, nf ∈ p'.nullifiers
  born : ∀ (key : PoolKey H) (p' : PoolState H), s'.poolRef key = some p' → s.poolRef key = none →
    p'.anchors = [emptyRoot H] ∧ ∃ asset, key = .asset asset ∧ s.OpensPool q asset
  pinned : ∀ asset, s.pool.asset = some asset → s'.pool.asset = some asset

lemma PoolsGrow.refl (s : State H) (q : List (SignedTx H)) : PoolsGrow s q s := by
  refine ⟨fun key p hp => ⟨p, hp, rfl, fun _ h => h⟩, fun key p' hp hnone => ?_, fun _ h => h⟩
  rw [hnone] at hp
  cases hp

/-- The pools behind a write of one pool that keeps its anchors and its nullifiers. -/
lemma PoolsGrow.set {s s₁ s₂ : State H} {q : List (SignedTx H)} (h : PoolsGrow s q s₁)
    {key : PoolKey H} {p p₂ : PoolState H} (hp : s₁.poolRef key = some p)
    (hset : ∀ key', s₂.poolRef key' = if key = key' then some p₂ else s₁.poolRef key')
    (hanchors : p₂.anchors = p.anchors) (hnf : ∀ nf ∈ p.nullifiers, nf ∈ p₂.nullifiers)
    (hasset : ∀ asset, p.asset = some asset → p₂.asset = some asset) : PoolsGrow s q s₂ := by
  refine ⟨fun key' p₀ hp₀ => ?_, fun key' p' hp' hnone => ?_, fun asset hpin => ?_⟩
  · obtain ⟨p₁, hp₁, hanchors₁, hnf₁⟩ := h.kept key' p₀ hp₀
    rw [hset]
    split
    next hkey =>
      subst hkey
      obtain rfl : p = p₁ := Option.some.inj (hp.symm.trans hp₁)
      exact ⟨p₂, rfl, hanchors.trans hanchors₁, fun nf hin => hnf nf (hnf₁ nf hin)⟩
    next => exact ⟨p₁, hp₁, hanchors₁, hnf₁⟩
  · rw [hset] at hp'
    split at hp'
    next hkey =>
      subst hkey
      cases hp'
      obtain ⟨hone, hopens⟩ := h.born key p hp hnone
      exact ⟨hanchors.trans hone, hopens⟩
    next => exact h.born key' p' hp' hnone
  · have hpin₁ := h.pinned asset hpin
    have hlegacy := hset .legacy
    split at hlegacy
    next hkey =>
      subst hkey
      cases hp
      have hpool : s₂.pool = p₂ := Option.some.inj hlegacy
      rw [hpool]
      exact hasset asset hpin₁
    next =>
      have hpool : s₂.pool = s₁.pool := Option.some.inj hlegacy
      rw [hpool]
      exact hpin₁

/-- The anchors of a new pool. -/
lemma anchors_newPool (s : State H) (asset : H) :
    (PoolState.sealAnchor { PoolState.default with
      version := s.pool.version, asset := some asset }).anchors = [emptyRoot H] := by
  simp [PoolState.sealAnchor, PoolState.default, emptyRoot, ANCHOR_WINDOW]

lemma PoolsGrow.move {s s₁ s₂ : State H} {q : List (SignedTx H)} (h : PoolsGrow s q s₁)
    {tx : SignedTx H} (htx : tx ∈ q) (hmove : PoolMove s₁ tx.sender tx.payload s₂) :
    PoolsGrow s q s₂ := by
  generalize hpayload : tx.payload = payload at hmove
  cases hmove with
  | idle _ hpool hpools =>
    have hsame := poolRef_congr hpool hpools
    refine ⟨fun key p hp => ?_, fun key p' hp' => ?_, fun asset hpin => ?_⟩
    · rw [hsame]
      exact h.kept key p hp
    · rw [hsame] at hp'
      exact h.born key p' hp'
    · rw [hpool]
      exact h.pinned asset hpin
  | spent hun hset =>
    simp only [poolRef_setPool] at hset
    refine h.set hun.poolAt hset rfl (fun nf hin => ?_) fun _ hasset => hasset
    exact Std.ExtTreeSet.mem_insert.mpr (.inr hin)
  | @minted asset commitment value proof ct key _ hkey _ _ _ hset =>
    simp only [poolRef_setPool] at hset
    rcases poolForMint_eq s₁ key with hp | ⟨hnone, -⟩
    · refine h.set hp hset rfl (fun _ hin => hin) fun a ha => ?_
      simp [PoolState.minted, ha]
    -- a new pool: the asset has none, and is not the one of the legacy pool
    cases key with
    | legacy => cases hnone
    | asset a =>
      have hlegacy : s₂.pool = s₁.pool := by simpa [poolRef] using hset .legacy
      obtain ⟨rfl, hother⟩ : a = asset ∧ s₁.pool.asset ≠ some asset := by
        unfold poolKeyOfAsset at hkey
        split at hkey
        · cases hkey
        next b hb =>
          split at hkey
          · cases hkey
          next hne =>
            split at hkey
            · cases hkey
              exact ⟨rfl, fun heq => hne (Option.some.inj (hb.symm.trans heq))⟩
            · cases hkey
      refine ⟨fun key' p hp => ?_, fun key' p' hp' hnone' => ?_, fun c hpin => ?_⟩
      · obtain ⟨p₁, hp₁, hrest⟩ := h.kept key' p hp
        refine ⟨p₁, ?_, hrest⟩
        rw [hset, if_neg, hp₁]
        rintro rfl
        rw [hnone] at hp₁
        cases hp₁
      · rw [hset] at hp'
        split at hp'
        next hkey' =>
          subst hkey'
          cases hp'
          have hfresh : s₁.pools[a]? = none := hnone
          refine ⟨?_, a, rfl, tx, htx, ⟨value, commitment, proof, ct, hpayload⟩, hnone',
            fun hpin => ?_⟩
          · simp only [PoolState.minted, poolForMint, hfresh, Option.getD_none]
            exact anchors_newPool s₁ a
          · exact hother (h.pinned a hpin)
        next => exact h.born key' p' hp' hnone'
      · rw [hlegacy]
        exact h.pinned c hpin

/-! ## Routes -/

/-- The anchor leads to one pool, whatever pools the list opens. -/
def RouteFixed (s : State H) (q : List (SignedTx H)) (anchor : H) : Prop :=
  anchor ≠ emptyRoot H ∨ ∀ asset, ¬ s.OpensPool q asset

/-- The pools that know an anchor, before and after. -/
lemma PoolsGrow.known_iff {s s' : State H} {q : List (SignedTx H)} (h : PoolsGrow s q s')
    {anchor : H} (hroute : s.RouteFixed q anchor) (key : PoolKey H) :
    (∃ p, s'.poolRef key = some p ∧ p.isRecentAnchor anchor) ↔
      ∃ p, s.poolRef key = some p ∧ p.isRecentAnchor anchor := by
  constructor
  · rintro ⟨p', hp', hin⟩
    cases hp : s.poolRef key with
    | some p =>
      obtain ⟨p₁, hp₁, hanchors, -⟩ := h.kept key p hp
      obtain rfl : p' = p₁ := Option.some.inj (hp'.symm.trans hp₁)
      exact ⟨p, rfl, by rwa [PoolState.isRecentAnchor, ← hanchors]⟩
    | none =>
      obtain ⟨hone, asset, -, hopens⟩ := h.born key p' hp' hp
      rw [PoolState.isRecentAnchor, hone, List.mem_singleton] at hin
      rcases hroute with hne | hnone
      · exact absurd hin hne
      · exact absurd hopens (hnone asset)
  · rintro ⟨p, hp, hin⟩
    obtain ⟨p', hp', hanchors, -⟩ := h.kept key p hp
    exact ⟨p', hp', by rwa [PoolState.isRecentAnchor, hanchors]⟩

/-- Before and after, the anchor leads to the same pool. -/
lemma PoolsGrow.poolKeyOfAnchor_eq {s s' : State H} {q : List (SignedTx H)} (h : PoolsGrow s q s')
    {anchor : H} (hroute : s.RouteFixed q anchor) :
    s'.poolKeyOfAnchor anchor = s.poolKeyOfAnchor anchor := by
  have hlegacy : s'.pool.isRecentAnchor anchor ↔ s.pool.isRecentAnchor anchor := by
    have hiff := h.known_iff hroute .legacy
    simpa [poolRef] using hiff
  have hfirst : (s'.pools.toList.find? fun e => decide (e.2.isRecentAnchor anchor)).map Prod.fst =
      (s.pools.toList.find? fun e => decide (e.2.isRecentAnchor anchor)).map Prod.fst := by
    refine OrderedMap.firstKey_congr (p := fun p : PoolState H =>
      decide (p.isRecentAnchor anchor)) fun a => ?_
    simpa [poolRef] using h.known_iff hroute (.asset a)
  have hkeys := congrArg (Option.map fun a => PoolKey.asset a) hfirst
  rw [Option.map_map, Option.map_map] at hkeys
  unfold poolKeyOfAnchor
  simp only [hlegacy]
  split
  · rfl
  · exact hkeys

/-! ## What the queue does on the way -/

variable [TxCodec H] {s s₁ : State H} {q : List (SignedTx H)} {i j : ℕ}

/-- Nothing leads out of a list that is at its end. -/
lemma stateAt_length {receipts : List (Receipt H)}
    (h : applyTxs 0 (withVerdicts q none) s = (.ok receipts, s₁)) :
    s.stateAt q q.length = some s₁ := by
  simp only [stateAt, List.take_length, h]

/-- The pools between two points of the list. -/
lemma poolsGrow_stateAt (hf : s.Fits) {sj : State H} (hj : s.stateAt q j = some sj) :
    ∀ {i : ℕ} {si : State H}, j ≤ i → i ≤ q.length → s.stateAt q i = some si →
      PoolsGrow sj q si := by
  intro i si hji
  induction i, hji using Nat.le_induction generalizing si with
  | base =>
    intro _ hsi
    obtain rfl : sj = si := Option.some.inj (hj.symm.trans hsi)
    exact .refl sj q
  | succ i hji ih =>
    intro hi hsi
    have hlt : i < q.length := hi
    obtain ⟨tx, htx⟩ : ∃ tx, q[i]? = some tx := ⟨q[i], List.getElem?_eq_getElem hlt⟩
    obtain ⟨s₁, hs₁, ⟨evs, hok⟩ | ⟨e, herr⟩⟩ := stateAt_succ htx hsi
    · exact (ih hlt.le hs₁).move (List.mem_of_getElem? htx) (poolMove_applyTxAt hok)
    · rw [refused_keeps (hf.stateAt hlt.le hs₁) herr]
      exact ih hlt.le hs₁

/-- Where an account is, some transactions on: where it was, or behind the last one of its own that
was accepted. -/
structure Moved (q : List (SignedTx H)) (id : H) (acc acc' : Account H) : Prop where
  le : acc.nonce ≤ acc'.nonce
  last : acc' = acc ∨ ∃ t ∈ q, t.sender = id ∧ t.nonce + 1 = acc'.nonce ∧
    t.nextAuth = acc'.authCommit

lemma moved_stateAt (hf : s.Fits) {id : H} {acc : Account H} (hacc : s.accounts[id]? = some acc) :
    ∀ {i : ℕ} {si : State H}, i ≤ q.length → s.stateAt q i = some si →
      ∃ acc', si.accounts[id]? = some acc' ∧ Moved q id acc acc' := by
  intro i
  induction i with
  | zero =>
    intro si _ hsi
    cases hsi
    exact ⟨acc, hacc, le_rfl, .inl rfl⟩
  | succ i ih =>
    intro si hi hsi
    have hlt : i < q.length := hi
    obtain ⟨tx, htx⟩ : ∃ tx, q[i]? = some tx := ⟨q[i], List.getElem?_eq_getElem hlt⟩
    obtain ⟨s₁, hs₁, ⟨evs, hok⟩ | ⟨e, herr⟩⟩ := stateAt_succ htx hsi
    · obtain ⟨acc₁, hacc₁, hmoved⟩ := ih hlt.le hs₁
      have hr := ratchets_of_applyTxAt hok
      by_cases hid : id = tx.sender
      · obtain ⟨acc₂, hacc₂, hnonce, -, hnew⟩ := hr.sender
        subst hid
        obtain rfl : acc₁ = acc₂ := Option.some.inj (hacc₁.symm.trans hacc₂)
        refine ⟨_, hnew, hmoved.le.trans (Nat.le_succ _),
          .inr ⟨tx, List.mem_of_getElem? htx, rfl, ?_⟩⟩
        exact ⟨by rw [hnonce], rfl⟩
      · exact ⟨acc₁, hr.others id acc₁ hid hacc₁, hmoved⟩
    · rw [refused_keeps (hf.stateAt hlt.le hs₁) herr]
      exact ih hlt.le hs₁

/-- An account that appears, and sends nothing itself, is as a pending creation makes it. -/
lemma created_stateAt (hf : s.Fits) {id : H} (hnone : s.accounts[id]? = none)
    (hquiet : ∀ t ∈ q, t.sender ≠ id) : ∀ {i : ℕ} {si : State H} {acc : Account H}, i ≤ q.length →
    s.stateAt q i = some si → si.accounts[id]? = some acc →
    acc.nonce = 0 ∧ ∃ t ∈ q, ∃ asset amount, t.payload = .accountCreate id acc.authCommit asset
      amount := by
  intro i
  induction i with
  | zero =>
    intro si acc _ hsi hacc
    cases hsi
    rw [hnone] at hacc
    cases hacc
  | succ i ih =>
    intro si acc hi hsi hacc
    have hlt : i < q.length := hi
    obtain ⟨tx, htx⟩ : ∃ tx, q[i]? = some tx := ⟨q[i], List.getElem?_eq_getElem hlt⟩
    have hmem := List.mem_of_getElem? htx
    obtain ⟨s₁, hs₁, ⟨evs, hok⟩ | ⟨e, herr⟩⟩ := stateAt_succ htx hsi
    · have hr := ratchets_of_applyTxAt hok
      cases hbefore : s₁.accounts[id]? with
      | some acc₁ =>
        have hsame := hr.others id acc₁ (hquiet tx hmem).symm hbefore
        obtain rfl : acc = acc₁ := Option.some.inj (hacc.symm.trans hsame)
        exact ih hlt.le hs₁ hbefore
      | none =>
        obtain ⟨hzero, asset, amount, hpayload⟩ := hr.created id acc hbefore hacc
        exact ⟨hzero, tx, hmem, asset, amount, hpayload⟩
    · rw [refused_keeps (hf.stateAt hlt.le hs₁) herr] at hacc
      exact ih hlt.le hs₁ hacc

end State

/-! ## Refusals that come true -/

/-- The refusals that are meant to be stricter than the chain: a full pool, a duplicate, the nonce
window, a gap, and the caps of the channels. -/
def AdmitError.isDocumented : AdmitError → Bool
  | .full | .duplicateTx | .duplicateSlot _ | .futureNonce _ _ | .nonceGap _ _ | .channelTooLong _
  | .settleDeltaTooLarge _ | .settleTooCostly _ => true
  | _ => false

/-- The anchor a payload names, if it is a shielded spend. -/
def Tx.anchor {H : Type} : Tx H → Option H
  | .shieldedSpend anchor _ _ _ _ _ _ _ _ _ => some anchor
  | _ => none

/-- An accepted spend claims its nullifier in the pool that its anchor leads to. -/
lemma State.claims_of_accepted {H : Type} [LinearOrder H] [HashSuite H] [TxCodec H]
    {s s' : State H} {tx : SignedTx H} {evs : List (Event H)} {anchor nf : H}
    (h : applyTx tx s = (.ok evs, s')) (hanchor : tx.payload.anchor = some anchor)
    (hnf : tx.payload.nullifier = some nf) :
    ∃ key pool, s.poolKeyOfAnchor anchor = some key ∧ s.poolRef key = some pool ∧
      nf ∉ pool.nullifiers ∧ ∃ pool', s'.poolRef key = some pool' ∧ nf ∈ pool'.nullifiers := by
  have hmove := poolMove_applyTxAt h
  generalize tx.payload = payload at hmove hanchor hnf
  cases hmove with
  | idle hout =>
    cases payload <;> cases hanchor
    cases hout
  | minted => cases hanchor
  | @spent _ _ out out2 fee _ _ _ _ _ key pool t _ hun hset =>
    cases hanchor
    cases hnf
    refine ⟨key, pool, hun.anchorKey, hun.poolAt, hun.fresh, pool.spent nf out out2 fee, ?_, ?_⟩
    · rw [hset, poolRef_setPool, if_pos rfl]
    · exact Std.ExtTreeSet.mem_insert_self

namespace Mempool

variable {H : Type} [LinearOrder H] [HashSuite H] [NodeCodec H] [TxCodec H]
  {chain s : State H} {p : Mempool H} {tx : SignedTx H} {e : AdmitError}

/-- What the door judged on is what the queue leaves, `s` being the chain as the block opens it.
For an unknown sender: no pending transaction creates the account with the key of this one.  For an
anchor or a spent nullifier: no pending shield opens a pool that the anchor might lead to as well.
For a pending nullifier: a pending spend of it is accepted, out of the same pool. -/
def Foretold (chain s : State H) (q : List (SignedTx H)) (tx : SignedTx H) : AdmitError → Prop
  | .unknownSender => tx.nonce = 0 → ∀ t ∈ q, ∀ asset amount, t.payload ≠
      .accountCreate tx.sender (Lamport.pkCommit tx.lamportPk) asset amount
  | .unknownAnchor | .nullifierSpent =>
    ∀ anchor ∈ tx.payload.anchor, chain.RouteFixed q anchor
  | .nullifierPending => ∀ anchor ∈ tx.payload.anchor, chain.RouteFixed q anchor ∧
      ∃ j t evs anchor', q[j]? = some t ∧ s.outcomeAt q j = some (.ok evs) ∧
        t.payload.nullifier = tx.payload.nullifier ∧ t.payload.anchor = some anchor' ∧
        chain.RouteFixed q anchor' ∧ chain.poolKeyOfAnchor anchor' = chain.poolKeyOfAnchor anchor
  | _ => True

omit [NodeCodec H] in
/-- An envelope that is refused for itself is over the cap of a channel or does not verify. -/
lemma refusal_envelopeVerdict (h : (envelopeVerdict tx).pkCommit = none ∨
    ∃ e, (envelopeVerdict tx).signature = .error e) :
    (envelopeVerdict tx).refusal.isDocumented = true ∨ State.verifyEnvelope tx = false := by
  by_cases hverify : State.verifyEnvelope tx = true
  · left
    obtain ⟨hpk, hsig⟩ := lengths_of_verifyEnvelope hverify
    cases hcap : channelOpenCap tx with
    | ok u =>
      rw [envelopeVerdict_of_verified hverify hcap] at h
      rcases h with h | ⟨e, h⟩ <;> cases h
    | error e =>
      have hrefusal : (envelopeVerdict tx).refusal = e := by
        simp [envelopeVerdict, EnvelopeVerdict.refusal, hpk, hsig, hcap]
      rw [hrefusal]
      unfold channelOpenCap at hcap
      split at hcap
      · split at hcap
        · cases hcap
          rfl
        · cases hcap
      · cases hcap
  · exact .inr (by simpa using hverify)

omit [NodeCodec H] in
lemma pkCommit_envelopeVerdict {pk : H} (h : (envelopeVerdict tx).pkCommit = some pk) :
    pk = Lamport.pkCommit tx.lamportPk := by
  unfold envelopeVerdict at h
  split at h
  · cases h
  · split at h
    · cases h
    · exact (Option.some.inj h).symm

omit [HashSuite H] [NodeCodec H] [TxCodec H] in
/-- The caps on settlements are documented. -/
lemma isDocumented_of_settle (h : channelSettleCap tx chain = .error e) :
    e.isDocumented = true := by
  unfold channelSettleCap at h
  split at h
  next id word step _ =>
    cases hdelta : settleDeltaCap chain id step with
    | error e' =>
      rw [hdelta] at h
      obtain rfl : e' = e := by simpa [bind, Except.bind] using h
      unfold settleDeltaCap at hdelta
      split at hdelta
      all_goals
        split at hdelta
        · cases hdelta
          rfl
        · cases hdelta
    | ok u =>
      rw [hdelta] at h
      simp only [bind, Except.bind] at h
      split at h
      · cases h
        rfl
      · cases h
  next => cases h

section Behind

variable {sq s' : State H} {evs : List (Event H)} (hfits : s.Fits)
  (hq : s.stateAt p.q p.q.length = some sq) (hok : State.applyTx tx sq = (.ok evs, s'))
include hfits hq hok

omit [NodeCodec H] in
/-- An accepted transaction is not behind its account. -/
lemma nonce_le_of_accepted (haccounts : s.accounts = chain.accounts) {acc : Account H}
    (hacc : chain.accounts[tx.sender]? = some acc) : acc.nonce ≤ tx.nonce := by
  rw [← haccounts] at hacc
  obtain ⟨acc', hacc', hmoved⟩ := State.moved_stateAt hfits hacc le_rfl hq
  obtain ⟨acc'', hacc'', hnonce, -⟩ := (State.ratchets_of_applyTxAt hok).sender
  obtain rfl : acc' = acc'' := Option.some.inj (hacc'.symm.trans hacc'')
  rw [hnonce]
  exact hmoved.le

/-- The key of an accepted transaction is the one the door expected. -/
lemma auth_of_accepted (haccounts : s.accounts = chain.accounts) (hfilled : FilledOn chain p)
    {acc : Account H} (hacc : chain.accounts[tx.sender]? = some acc) {auth : H}
    (hauth : p.expectedAuth acc tx = .ok auth) : Lamport.pkCommit tx.lamportPk = auth := by
  obtain ⟨acc', hacc', hmoved⟩ :=
    State.moved_stateAt hfits (show s.accounts[tx.sender]? =
      some acc by rw [haccounts, hacc]) le_rfl hq
  obtain ⟨acc'', hacc'', hnonce, hpk, -⟩ := (State.ratchets_of_applyTxAt hok).sender
  obtain rfl : acc' = acc'' := Option.some.inj (hacc'.symm.trans hacc'')
  unfold expectedAuth at hauth
  rcases hmoved.last with rfl | ⟨t, ht, hsender, hlast, hnext⟩
  · rw [if_pos hnonce] at hauth
    cases hauth
    exact hpk
  · -- the last transaction of the sender that was accepted is the pending predecessor
    obtain ⟨acc₁, hacc₁, hge⟩ := hfilled.account t ht
    rw [hsender, hacc] at hacc₁
    cases hacc₁
    rw [if_neg (by omega)] at hauth
    have hslot : toLex (tx.sender, tx.nonce - 1) = t.slot := by
      rw [SignedTx.slot, hsender, hnonce, ← hlast, Nat.add_sub_cancel]
    rw [hslot, hfilled.indexed.nextAuth t ht] at hauth
    cases hauth
    exact hpk.trans hnext.symm

/-- The sender of an accepted transaction without an account on the chain was created in the
queue, with the key of the transaction. -/
lemma created_of_accepted (haccounts : s.accounts = chain.accounts) (hfilled : FilledOn chain p)
    (hnone : chain.accounts[tx.sender]? = none) : tx.nonce = 0 ∧ ∃ t ∈ p.q, ∃ asset amount,
      t.payload = .accountCreate tx.sender (Lamport.pkCommit tx.lamportPk) asset amount := by
  have hquiet : ∀ t ∈ p.q, t.sender ≠ tx.sender := by
    intro t ht hsender
    obtain ⟨acc, hacc, -⟩ := hfilled.account t ht
    rw [hsender, hnone] at hacc
    cases hacc
  obtain ⟨acc, hacc, hnonce, hpk, -⟩ := (State.ratchets_of_applyTxAt hok).sender
  obtain ⟨hzero, t, ht, hcreate⟩ :=
    State.created_stateAt hfits (by rw [haccounts, hnone]) hquiet le_rfl hq hacc
  rw [hpk]
  exact ⟨hnonce.trans hzero, t, ht, hcreate⟩

omit [NodeCodec H] in
/-- An accepted spend comes out of the pool its anchor led to before the queue, and its nullifier is
not in that pool, neither before the queue nor by a spend of the queue. -/
lemma claims_of_accepted_behind {anchor nf : H} (hanchor : tx.payload.anchor = some anchor)
    (hnf : tx.payload.nullifier = some nf) (hroute : s.RouteFixed p.q anchor) :
    ∃ key pool, s.poolKeyOfAnchor anchor = some key ∧ s.poolRef key = some pool ∧
      nf ∉ pool.nullifiers ∧ ∀ j t evs' anchor', p.q[j]? = some t →
        s.outcomeAt p.q j = some (.ok evs') → t.payload.nullifier = some nf →
        t.payload.anchor = some anchor' → s.RouteFixed p.q anchor' →
        s.poolKeyOfAnchor anchor' ≠ some key := by
  have hgrow := State.poolsGrow_stateAt hfits (State.stateAt_zero s p.q) (Nat.zero_le _) le_rfl hq
  obtain ⟨key, pool, hkey, hpool, hfresh, -⟩ := State.claims_of_accepted hok hanchor hnf
  -- the pool was there before the queue, since it knew the anchor
  obtain ⟨pool₀, hpool₀, -⟩ := (hgrow.known_iff hroute key).mp
    ⟨pool, hpool, State.mem_anchors_of_poolKeyOfAnchor hkey hpool⟩
  rw [hgrow.poolKeyOfAnchor_eq hroute] at hkey
  obtain ⟨pool₁, hpool₁, -, hnullifiers⟩ := hgrow.kept key pool₀ hpool₀
  obtain rfl : pool = pool₁ := Option.some.inj (hpool.symm.trans hpool₁)
  refine ⟨key, pool₀, hkey, hpool₀, fun hin => hfresh (hnullifiers nf hin), ?_⟩
  intro j t evs' anchor' ht hout htnf htanchor hroute' hkey'
  have hj : j < p.q.length := (List.getElem?_eq_some_iff.mp ht).1
  obtain ⟨sj, t', hsj, ht', houtcome⟩ := State.outcomeAt_eq hout
  obtain rfl : t = t' := Option.some.inj (ht.symm.trans ht')
  have hrun := Exec.eq_of_outcome houtcome
  obtain ⟨key', _, hkeyj, -, -, pool₂, hpool₂, hclaimed⟩ :=
    State.claims_of_accepted hrun htanchor htnf
  have hgrowj := State.poolsGrow_stateAt hfits (State.stateAt_zero s p.q) (Nat.zero_le _) hj.le hsj
  rw [hgrowj.poolKeyOfAnchor_eq hroute', hkey'] at hkeyj
  cases hkeyj
  -- from there on the nullifier stays in the pool
  have hsucc :=
    State.stateAt_succ_of_attempt ht hsj (Exec.attempt_eq_ok.mpr (.inl ⟨evs', rfl, hrun⟩))
  obtain ⟨pool₃, hpool₃, -, hkept⟩ :=
    (State.poolsGrow_stateAt hfits hsucc hj le_rfl hq).kept key pool₂ hpool₂
  obtain rfl : pool = pool₃ := Option.some.inj (hpool.symm.trans hpool₃)
  exact hfresh (hkept nf hclaimed)

end Behind

omit [HashSuite H] [NodeCodec H] [TxCodec H] in
/-- The three refusals of a spend. -/
lemma spendDoor_eq_error (h : p.spendDoor chain tx.payload = .error e) :
    ∃ anchor nf, tx.payload.anchor = some anchor ∧ tx.payload.nullifier = some nf ∧
      (e = .unknownAnchor ∧ (chain.poolKeyOfAnchor anchor).bind chain.poolRef = none ∨
        e = .nullifierSpent ∧
          (∃ pool, (chain.poolKeyOfAnchor anchor).bind chain.poolRef = some pool ∧
            nf ∈ pool.nullifiers) ∨
        e = .nullifierPending) := by
  generalize tx.payload = payload at h ⊢
  unfold spendDoor at h
  split at h
  next anchor nf _ _ _ _ _ _ _ _ =>
    refine ⟨anchor, nf, rfl, rfl, ?_⟩
    split at h
    next hnone =>
      cases h
      exact .inl ⟨rfl, hnone⟩
    next pool hpool =>
      split at h
      next hin =>
        cases h
        exact .inr (.inl ⟨rfl, pool, hpool, hin⟩)
      next =>
        split at h
        · cases h
          exact .inr (.inr rfl)
        · cases h
  next => cases h

/-- What the door refused, for a reason that is neither documented nor overtaken by the queue, is
not accepted behind the queue. -/
lemma not_accepted_behind {cover : OrderedSet H} {height time : ℕ} (hfits : chain.Fits)
    (hfilled : FilledOn chain p) (hrefused : Refused tx chain (envelopeVerdict tx) p e)
    (hdoc : e.isDocumented = false)
    (hforetold : Foretold chain ((chain.setBlockCoverage cover).openedAt height time) p.q tx e)
    {sq s' : State H} {evs : List (Event H)}
    (hq : ((chain.setBlockCoverage cover).openedAt height time).stateAt p.q p.q.length = some sq) :
    State.applyTx tx sq ≠ (.ok evs, s') := by
  intro hok
  have hf : ((chain.setBlockCoverage cover).openedAt height time).Fits := hfits.of_balances _ rfl
  have haccounts : ((chain.setBlockCoverage cover).openedAt height time).accounts =
    chain.accounts :=
    rfl
  cases hrefused with
  | full | duplicateTx | duplicateSlot | futureNonce | nonceGap => cases hdoc
  | settle h =>
    rw [isDocumented_of_settle h] at hdoc
    cases hdoc
  | envelope h =>
    rcases refusal_envelopeVerdict h with hdoc' | hverify
    · rw [hdoc'] at hdoc
      cases hdoc
    · obtain ⟨s₁, henv⟩ := State.applyTxAt_eq_ok hok
      have hsig : State.verifyEnvelope tx = true := henv.signature
      rw [hverify] at hsig
      cases hsig
  | unknownSender hnone =>
    obtain ⟨hzero, t, ht, asset, amount, hcreate⟩ :=
      created_of_accepted hf hq hok haccounts hfilled hnone
    exact hforetold hzero t ht asset amount hcreate
  | staleNonce hacc hlt =>
    exact absurd (nonce_le_of_accepted hf hq hok haccounts hacc) (not_le.mpr hlt)
  | authMismatch _ hacc _ hauth hpk hne =>
    have hexpected := auth_of_accepted hf hq hok haccounts hfilled hacc hauth
    exact hne ((pkCommit_envelopeVerdict hpk).trans hexpected)
  | spend h =>
    obtain ⟨anchor, nf, hanchor, hnf, hcases⟩ := spendDoor_eq_error h
    have hclaims := fun hroute => claims_of_accepted_behind hf hq hok hanchor hnf hroute
    rcases hcases with ⟨rfl, hnone⟩ | ⟨rfl, pool, hpool, hin⟩ | rfl
    · obtain ⟨key, pool, hkey, hpool, -⟩ := hclaims (hforetold anchor hanchor)
      have hkey' : chain.poolKeyOfAnchor anchor = some key := hkey
      have hpool' : chain.poolRef key = some pool := hpool
      rw [hkey', Option.bind_some, hpool'] at hnone
      cases hnone
    · obtain ⟨key, pool', hkey, hpool', hfresh, -⟩ := hclaims (hforetold anchor hanchor)
      have hkey' : chain.poolKeyOfAnchor anchor = some key := hkey
      have hpool'' : chain.poolRef key = some pool' := hpool'
      rw [hkey', Option.bind_some, hpool''] at hpool
      cases hpool
      exact hfresh hin
    · obtain ⟨hroute, j, t, evs', anchor', ht, hout, htnf, htanchor, hroute', hsame⟩ :=
        hforetold anchor hanchor
      obtain ⟨key, -, hkey, -, -, hother⟩ := hclaims hroute
      apply hother j t evs' anchor' ht hout (htnf.trans hnf) htanchor hroute'
      have hkey' : chain.poolKeyOfAnchor anchor = some key := hkey
      exact (show _ = chain.poolKeyOfAnchor anchor from hsame).trans hkey'

/-- A transaction that the door refuses behind a pool filled at it, for a reason that is not one of
the documented ones, is refused by the chain as well when the queue and then the transaction are
applied as the next block, unless the queue overtakes what the door judged on. -/
theorem refused_behind_queue (window cap : ℕ) {chain : State H} (hfits : chain.Fits)
    (txs : List (SignedTx H)) {p : Mempool H} (hp : p = filled window chain cap txs)
    {tx : SignedTx H} {e : AdmitError} (hdoor : (tryAdmit window tx chain p).1 = .err e)
    (hdoc : e.isDocumented = false) (cover : OrderedSet H) (time : ℕ)
    (hforetold : Foretold chain ((chain.setBlockCoverage cover).openedAt (chain.height +
      1) time) p.q
      tx e) {receipts : List (Receipt H)} {s' : State H}
    (hblock : State.applyBlock (chain.height + 1) time (p.q ++
      [tx]) (chain.setBlockCoverage cover) =
      (.ok receipts, s')) :
    ∃ r, receipts.getLast? = some r ∧ r.accepted = false := by
  subst hp
  have hrefused : Refused tx chain (envelopeVerdict tx) (filled window chain cap txs) e := by
    rw [tryAdmit_eq] at hdoor
    exact (safe_tryAdmitVerified window tx chain (envelopeVerdict tx) _).2 e hdoor
  obtain ⟨-, -, -, s₁, hrun, -⟩ := State.applyBlockVerified_eq_ok hblock
  simp only [State.withVerdicts, List.map_append] at hrun
  obtain ⟨ra, sq, rb, hqueue, hlast, rfl⟩ := State.applyTxs_append.mp hrun
  have hsq := State.stateAt_length hqueue
  simp only [List.map_cons, List.map_nil, State.applyTxs, Exec.bind_eq_ok, Exec.pure_eq_ok] at hlast
  obtain ⟨r, s₂, htry, _, _, ⟨rfl, rfl⟩, rfl, rfl⟩ := hlast
  refine ⟨_, List.getLast?_concat, ?_⟩
  rcases Exec.attempt_eq_ok.mp htry with ⟨evs, rfl, hok⟩ | ⟨e', rfl, -⟩
  · exact absurd hok (not_accepted_behind hfits (filledOn_filled window chain cap txs) hrefused hdoc
      hforetold hsq)
  · rfl

end Mempool

/-! ## A new account behind its creation -/

namespace Concrete

open State

/-- One account with five coins on a chain without fees. -/
def creatorChain : State ℕ := start ⟨0, [account 1], [⟨1, 7, 5⟩], none, []⟩ config

/-- The account that is to be created. -/
def newcomer : ℕ := shake256_32 DOM_ACCOUNT_ID [[.digest (commitAt [2] 0)]]

/-- Its creation, with three coins. -/
def creation : SignedTx ℕ := signed [1] 1 0 (.accountCreate newcomer (commitAt [2] 0) 7 3)

/-- The first payment of an account, with the key of a seed. -/
def firstOf (seed : UInt8) (sender : ℕ) : SignedTx ℕ := signed [seed] sender 0 (.transfer 1 7 1)

lemma sender_firstOf (seed : UInt8) (sender : ℕ) : (firstOf seed sender).sender = sender := rfl

lemma tryAdmit_creation (chain : State ℕ) :
    Mempool.tryAdmit 64 creation chain =
      Mempool.tryAdmitVerified 64 creation chain ⟨some (commitAt [1] 0), .ok ()⟩ := by
  have hcap : Mempool.channelOpenCap
      (signed [1] 1 0 (.accountCreate newcomer (commitAt [2] 0) 7 3)) = .ok () := by
    simp only [Mempool.channelOpenCap, payload_signed]
  rw [Mempool.tryAdmit_eq, creation, envelopeVerdict_signed _ _ _ hcap]

lemma tryAdmit_firstOf (seed : UInt8) (sender : ℕ) (chain : State ℕ) :
    Mempool.tryAdmit 64 (firstOf seed sender) chain =
      Mempool.tryAdmitVerified 64 (firstOf seed sender) chain ⟨some (commitAt [seed] 0),
        .ok ()⟩ := by
  have hcap : Mempool.channelOpenCap (signed [seed] sender 0 (.transfer 1 7 1)) = .ok () := by
    simp only [Mempool.channelOpenCap, payload_signed]
  rw [Mempool.tryAdmit_eq, firstOf, envelopeVerdict_signed _ _ _ hcap]

/-- The pool with the creation. -/
def creationPool : Mempool ℕ := Mempool.filled 64 creatorChain 8 [creation]

lemma creationPool_eq : creationPool = (Mempool.tryAdmitVerified 64 creation creatorChain
    ⟨some (commitAt [1] 0), .ok ()⟩ (.new 8)).2 := by
  rw [← tryAdmit_creation]
  rfl

/-- The block of the creation and a first payment, with the verdicts of the two signatures. -/
def creationBlock (tx : SignedTx ℕ) : Outcome StateError (List (Receipt ℕ)) × State ℕ :=
  applyBlockVerified 1 0 [creation, tx] (some [true, true]) (creatorChain.setBlockCoverage ∅)

/-- The door admits the creation and then knows neither the new account nor a stranger; the next
block accepts the creation and the payment of the new account, not the one of the stranger. -/
lemma creation_runs :
    (Mempool.tryAdmitVerified 64 creation creatorChain
      ⟨some (commitAt [1] 0), .ok ()⟩ (.new 8)).1.okAnd (fun _ => true) = true ∧
    (Mempool.tryAdmitVerified 64 (firstOf 2 newcomer) creatorChain
      ⟨some (commitAt [2] 0), .ok ()⟩ (Mempool.tryAdmitVerified 64 creation creatorChain
        ⟨some (commitAt [1] 0), .ok ()⟩ (.new 8)).2).1 = .err .unknownSender ∧
    (Mempool.tryAdmitVerified 64 (firstOf 9 9) creatorChain
      ⟨some (commitAt [9] 0), .ok ()⟩ (Mempool.tryAdmitVerified 64 creation creatorChain
        ⟨some (commitAt [1] 0), .ok ()⟩ (.new 8)).2).1 = .err .unknownSender ∧
    (creationBlock (firstOf 2 newcomer)).1.okAnd
      (fun rs => rs.map Receipt.accepted = [true, true]) = true ∧
    (creationBlock (firstOf 9 9)).1.okAnd
      (fun rs => rs.map Receipt.accepted = [true, false]) = true ∧
    newcomer ≠ 9 := by
  decide +kernel

lemma creationPool_queue : creationPool.q = [creation] := by
  obtain ⟨id, -, hok⟩ := Exec.exists_of_okAnd creation_runs.1
  rw [creationPool_eq, (Mempool.admitted_of_tryAdmitVerified hok).result]
  rfl

/-- Both a new account and a stranger are unknown to the door. -/
lemma firstOf_refused {seed : UInt8} {sender : ℕ}
    (h : (Mempool.tryAdmitVerified 64 (firstOf seed sender) creatorChain
      ⟨some (commitAt [seed] 0), .ok ()⟩ (Mempool.tryAdmitVerified 64 creation creatorChain
        ⟨some (commitAt [1] 0), .ok ()⟩ (.new 8)).2).1 = .err .unknownSender) :
    (Mempool.tryAdmit 64 (firstOf seed sender) creatorChain creationPool).1 =
      .err .unknownSender := by
  rw [tryAdmit_firstOf, creationPool_eq]
  exact h

lemma creatorChain_fits : creatorChain.Fits := by
  have hinit : Initial ⟨0, [account 1], [⟨1, 7, 5⟩], none, []⟩ creatorChain :=
    initial_start config (by decide +kernel)
  exact hinit.fresh.fits

lemma applyBlock_creation (seed : UInt8) (sender : ℕ) :
    applyBlock 1 0 [creation, firstOf seed sender] (creatorChain.setBlockCoverage ∅) =
      creationBlock (firstOf seed sender) := by
  have hverified : [creation, firstOf seed sender].map verifyEnvelope = [true, true] := by
    simp [creation, firstOf, verifyEnvelope_signed]
  rw [creationBlock, ← hverified]
  exact congrFun (applyBlockVerified_verdicts 1 0 [creation, firstOf seed sender]).symm _

lemma creatorChain_height : creatorChain.height = 0 := rfl

/-- What the next block says about the creation and a first payment. -/
lemma exists_receipts {seed : UInt8} {sender : ℕ} {accepted : List Bool}
    (h : (creationBlock (firstOf seed sender)).1.okAnd
      (fun rs => rs.map Receipt.accepted = accepted) = true) :
    ∃ receipts s', applyBlock (creatorChain.height + 1) 0 (creationPool.q ++ [firstOf seed sender])
        (creatorChain.setBlockCoverage ∅) = (.ok receipts, s') ∧
      receipts.map Receipt.accepted = accepted := by
  obtain ⟨receipts, haccepted, hblock⟩ := Exec.exists_of_okAnd h
  rw [creationPool_queue, creatorChain_height, List.cons_append, List.nil_append, Nat.zero_add,
    applyBlock_creation]
  exact ⟨receipts, _, hblock, of_decide_eq_true haccepted⟩

/-- The first payment of the new account is refused at the door as one of an unknown sender, while
the next block, the pending creation and then the payment, accepts both. -/
theorem newcomer_refused_at_door : creationPool.q = [creation] ∧
    (Mempool.tryAdmit 64 (firstOf 2 newcomer) creatorChain creationPool).1 = .err .unknownSender ∧
    ∃ receipts s', applyBlock (creatorChain.height + 1) 0 (creationPool.q ++ [firstOf 2 newcomer])
        (creatorChain.setBlockCoverage ∅) = (.ok receipts, s') ∧
      receipts.map Receipt.accepted = [true, true] := by
  obtain ⟨-, hdoor, -, hblock, -, -⟩ := creation_runs
  exact ⟨creationPool_queue, firstOf_refused hdoor, exists_receipts hblock⟩

/-- A stranger is refused at the door and behind the creation. -/
theorem stranger_refused_behind :
    (Mempool.tryAdmit 64 (firstOf 9 9) creatorChain creationPool).1 = .err .unknownSender ∧
    ∃ receipts s', applyBlock (creatorChain.height + 1) 0 (creationPool.q ++ [firstOf 9 9])
        (creatorChain.setBlockCoverage ∅) = (.ok receipts, s') ∧
      ∃ r, receipts.getLast? = some r ∧ r.accepted = false := by
  obtain ⟨-, -, hstranger, -, hrun, hne⟩ := creation_runs
  have hdoor : (Mempool.tryAdmit 64 (firstOf 9 9) creatorChain creationPool).1 =
    .err .unknownSender :=
    firstOf_refused hstranger
  obtain ⟨receipts, s', hblock, -⟩ := exists_receipts hrun
  refine ⟨hdoor, receipts, s', hblock, ?_⟩
  refine Mempool.refused_behind_queue 64 8 creatorChain_fits [creation] rfl hdoor rfl ∅ 0 ?_ hblock
  intro _ t ht asset amount hcreate
  have hmem : t ∈ creationPool.q := ht
  rw [creationPool_queue, List.mem_singleton] at hmem
  subst hmem
  rw [creation, payload_signed, sender_firstOf] at hcreate
  exact hne (Tx.accountCreate.inj hcreate).1

/-- The stranger has no account. -/
example : (creatorChain.accounts[9]?).isNone = true := by decide +kernel

end Concrete

end HashKinetics
