import HashKinetics.Node.Door
import HashKinetics.Node.SettleBudget

/-!
# The links a batch makes the chain hash

A settlement is checked by hashing its PayWord from the revealed word to the tip, one link per step.
The proposer prices the settlements of a batch on the chain before the block and keeps the sum
within the budget of a block.  On a channel that the chain knows the price is never too low.  On a
channel that the batch itself opens it is: from the cap height on it stops at the largest delta,
while a second settlement of the channel climbs beyond it.
-/

namespace HashKinetics

open Foundations

/-! ## What the proposer picks -/

section Picks

variable {H : Type} [LinearOrder H] [HashSuite H]

/-- The price of a transaction on the chain before the block. -/
def State.linkPrice (chain : State H) (tx : SignedTx H) : ℕ :=
  match tx.payload with
  | .channelSettle id _ step => chain.settleCost id step
  | _ => 0

/-- What may be picked from a queue, behind `k` picked transactions, with `links` spent and some
senders held back. -/
structure Picks (chain : State H) (room : ℕ) (pending : List (SignedTx H)) (k links : ℕ)
    (heldSenders : OrderedSet H) (t : List (SignedTx H)) : Prop where
  sublist : t.Sublist pending
  perSender : ∀ a, (t.filter fun x => x.sender = a) <+: pending.filter fun x => x.sender = a
  held : ∀ x ∈ t, x.sender ∉ heldSenders
  room : t ≠ [] → k + t.length ≤ room
  budget : links + (t.map chain.linkPrice).sum ≤ max links MAX_SETTLE_LINKS_PER_BLOCK

variable {chain : State H} {room k links : ℕ} {pending t : List (SignedTx H)} {tx : SignedTx H}
  {heldSenders heldSenders' : OrderedSet H}

omit [HashSuite H] in
lemma Picks.nil : Picks chain room pending k links heldSenders [] where
  sublist := List.nil_sublist _
  perSender _ := List.nil_prefix
  held x hx := by cases hx
  room h := absurd rfl h
  budget := by simp

omit [HashSuite H] in
/-- A transaction of a held sender is left in the queue. -/
lemma Picks.skip (h : Picks chain room pending k links heldSenders' t)
    (htx : tx.sender ∈ heldSenders') (hsub : ∀ a ∈ heldSenders, a ∈ heldSenders') :
    Picks chain room (tx :: pending) k links heldSenders t where
  sublist := h.sublist.trans (List.sublist_cons_self _ _)
  perSender a := by
    by_cases ha : tx.sender = a
    · have hnone : t.filter (fun x => decide (x.sender = a)) = [] := by
        refine List.filter_eq_nil_iff.mpr fun x hx hxa => ?_
        rw [decide_eq_true_eq] at hxa
        exact h.held x hx (by rw [hxa, ← ha]; exact htx)
      rw [hnone]
      exact List.nil_prefix
    · rw [List.filter_cons_of_neg (by simpa using ha)]
      exact h.perSender a
  held x hx hmem := h.held x hx (hsub _ hmem)
  room := h.room
  budget := h.budget

omit [HashSuite H] in
/-- A transaction is picked: its sender is not held, there is room, and its price fits. -/
lemma Picks.take (h : Picks chain room pending (k + 1) (links + chain.linkPrice tx) heldSenders t)
    (htx : tx.sender ∉ heldSenders) (hroom : k < room)
    (hprice : chain.linkPrice tx = 0 ∨ links + chain.linkPrice tx ≤ MAX_SETTLE_LINKS_PER_BLOCK) :
    Picks chain room (tx :: pending) k links heldSenders (tx :: t) where
  sublist := h.sublist.cons_cons tx
  perSender a := by
    by_cases ha : tx.sender = a
    · rw [List.filter_cons_of_pos (by simpa using ha), List.filter_cons_of_pos (by simpa using ha)]
      exact List.cons_prefix_cons.mpr ⟨rfl, h.perSender a⟩
    · rw [List.filter_cons_of_neg (by simpa using ha), List.filter_cons_of_neg (by simpa using ha)]
      exact h.perSender a
  held x hx := by
    rcases List.mem_cons.mp hx with rfl | hx
    · exact htx
    · exact h.held x hx
  room _ := by
    rw [List.length_cons]
    rcases eq_or_ne t [] with rfl | hne
    · exact hroom
    · have := h.room hne
      omega
  budget := by
    have hbudget := h.budget
    rw [List.map_cons, List.sum_cons]
    omega

omit [HashSuite H] in
/-- The loop of the proposer adds a permitted pick to what it has. -/
lemma selectLoop_picks (chain : State H) (room : ℕ) (pending picked : List (SignedTx H))
    (held links : ℕ) (heldSenders : OrderedSet H) :
    ∃ t, (selectLoop chain room pending picked held links heldSenders).1 = picked ++ t ∧
      Picks chain room pending picked.length links heldSenders t := by
  induction pending generalizing picked held links heldSenders with
  | nil => exact ⟨[], by simp [selectLoop], .nil⟩
  | cons tx pending ih =>
    unfold selectLoop
    split
    · exact ⟨[], by simp, .nil⟩
    next hroom =>
    split
    next hheld =>
      obtain ⟨t, heq, ht⟩ := ih picked (held + 1) links heldSenders
      exact ⟨t, heq, ht.skip (by simpa using hheld) fun _ h => h⟩
    next hheld =>
    have hfree : tx.sender ∉ heldSenders := by simpa using hheld
    split
    next id word step hpayload =>
      have hprice : chain.linkPrice tx = chain.settleCost id step := by
        simp only [State.linkPrice, hpayload]
      dsimp only
      split
      · obtain ⟨t, heq, ht⟩ := ih picked (held + 1) links (heldSenders.insert tx.sender)
        refine ⟨t, heq, ht.skip Std.ExtTreeSet.mem_insert_self fun a ha => ?_⟩
        exact Std.ExtTreeSet.mem_insert.mpr (.inr ha)
      next hfits =>
        have hsum : satAdd u64Max links (chain.settleCost id step) =
            links + chain.settleCost id step := by
          apply satAdd_of_le
          simp only [satAdd, MAX_SETTLE_LINKS_PER_BLOCK, u64Max] at hfits ⊢
          omega
        obtain ⟨t, heq, ht⟩ := ih (picked ++ [tx]) held
          (satAdd u64Max links (chain.settleCost id step)) heldSenders
        rw [hsum, ← hprice, List.length_append, List.length_singleton] at ht
        rw [hsum, ← hprice, not_lt] at hfits
        exact ⟨tx :: t, by rw [heq, List.append_assoc]; rfl,
          ht.take hfree (not_le.mp hroom) (.inr hfits)⟩
    next hpayload =>
      have hprice : chain.linkPrice tx = 0 := by
        unfold State.linkPrice
        split
        next id word step hsettle => exact absurd hsettle (hpayload id word step)
        next => rfl
      obtain ⟨t, heq, ht⟩ := ih (picked ++ [tx]) held links heldSenders
      rw [List.length_append, List.length_singleton] at ht
      exact ⟨tx :: t, by rw [heq, List.append_assoc]; rfl,
        (by rwa [hprice] : Picks chain room pending (picked.length + 1)
          (links + chain.linkPrice tx) heldSenders t).take hfree (not_le.mp hroom) (.inl hprice)⟩

omit [HashSuite H] in
/-- What the proposer picks: a part of the queue in its order, a first part of each sender's, no
more than the room, and priced within the budget. -/
lemma picks_selectBatchTxs (chain : State H) (pending : List (SignedTx H)) (room linksSoFar : ℕ) :
    Picks chain room pending 0 linksSoFar ∅ (selectBatchTxs chain pending room linksSoFar).1 := by
  obtain ⟨t, heq, ht⟩ := selectLoop_picks chain room pending [] 0 linksSoFar ∅
  rw [List.nil_append] at heq
  rw [selectBatchTxs, heq]
  exact ht

end Picks

/-! ## What the chain hashes -/

/-- A channel would look at the word of a settlement: it is open, the step is a new one of its own,
and the step is within the largest delta of the last one settled. -/
def Channel.Admits {H : Type} (ch : Channel H) (step : ℕ) : Prop :=
  ch.refunded = false ∧ ch.state.highestStepSettled < step ∧ step ≤ ch.state.maxSteps ∧
    step - ch.state.highestStepSettled ≤ MAX_SETTLE_DELTA

namespace State

variable {H : Type} [LinearOrder H] [HashSuite H] {s s₁ chain : State H} {id : H} {step : ℕ}

/-- The links that `doChannelSettle` hashes before it answers: all of them, or none when a check
before the word refuses. -/
def settleHashes (s : State H) (id : H) (step : ℕ) : ℕ :=
  match s.channels[id]? with
  | none => 0
  | some ch =>
    if ch.refunded then 0
    else if step ≤ ch.state.highestStepSettled ∨ ch.state.maxSteps < step then 0
    else if s.paywordCapFrom ≤ s.height ∧ MAX_SETTLE_DELTA < step -
      ch.state.highestStepSettled then 0
    else step

omit [HashSuite H] in
lemma settleHashes_le (s : State H) (id : H) (step : ℕ) : s.settleHashes id step ≤ step := by
  unfold settleHashes
  split
  · exact Nat.zero_le _
  · split_ifs <;> simp

omit [HashSuite H] in
/-- No more links are hashed than the price on the same chain says. -/
lemma settleHashes_le_settleCost {ch : Channel H} (hget : s.channels[id]? = some ch) :
    s.settleHashes id step ≤ s.settleCost id step := by
  rw [settleCost_of_get hget]
  split
  next hclosed =>
    simp only [settleHashes, hget]
    rcases hclosed with hr | hstep
    · rw [if_pos hr]
    · rw [if_pos hstep, ite_self]
  next => exact s.settleHashes_le id step

variable [TxCodec H]

/-- The transaction passes its envelope and pays its fee, so that its body is run. -/
def reachesBody (s : State H) (stx : SignedTx H) : Bool :=
  match s.accounts[stx.sender]? with
  | none => false
  | some acc =>
    stx.nonce = acc.nonce ∧ Lamport.pkCommit stx.lamportPk = acc.authCommit ∧
      verifyEnvelope stx = true ∧ s.envelopeFee ≤ s.balance stx.sender s.feeAsset

/-- The PayWord links that applying a transaction hashes. -/
def linksHashed (s : State H) (stx : SignedTx H) : ℕ :=
  match stx.payload with
  | .channelSettle id _ step => if s.reachesBody stx then s.settleHashes id step else 0
  | _ => 0

/-- The links that transaction `i` of a list hashes when the list is applied in order. -/
def linksAt (s : State H) (q : List (SignedTx H)) (i : ℕ) : ℕ :=
  match s.stateAt q i, q[i]? with
  | some s', some tx => s'.linksHashed tx
  | _, _ => 0

/-- The links that a list of transactions hashes. -/
def totalLinks (s : State H) (q : List (SignedTx H)) : ℕ :=
  ((List.range q.length).map (s.linksAt q)).sum

/-- The height, the cap height, the fee and the channels, some transactions on. -/
structure ChannelsLater (s s' : State H) : Prop where
  height : s'.height = s.height
  capFrom : s'.paywordCapFrom = s.paywordCapFrom
  fee : s'.envelopeFee = s.envelopeFee
  later : ∀ (id : H) (ch : Channel H), s.channels[id]? = some ch →
    ∃ ch', s'.channels[id]? = some ch' ∧ ChannelLater ch ch'

lemma channelsLater_applyTx {s' : State H} {tx : SignedTx H} {evs : List (Event H)}
    (h : applyTx tx s = (.ok evs, s')) : ChannelsLater s s' := by
  have hlater : ∀ (id : H) (ch : Channel H), s.channels[id]? = some ch →
      ∃ ch', s'.channels[id]? = some ch' ∧ ChannelLater ch ch' :=
    fun id ch hget => (later_elemStep (.tx h) hget).1
  obtain ⟨s₁, henv⟩ := applyTxAt_eq_ok h
  obtain ⟨acc, -, -, rfl⟩ := henv.ratchet
  have hframe := frame_dispatch henv.body
  have hcharged : (s.feeCharged tx.sender).frame = s.frame := by
    rw [feeCharged_eq]
    rfl
  rw [hcharged] at hframe
  exact ⟨congrArg Frame.height hframe, congrArg Frame.paywordCapFrom hframe,
    congrArg (fun f : Frame H => if f.feeFrom ≤ f.height then f.feeMicro else 0) hframe, hlater⟩

lemma channelsLater_stateAt {q : List (SignedTx H)} (hf : s.Fits) : ∀ {i : ℕ} {si : State H},
    i ≤ q.length → s.stateAt q i = some si → ChannelsLater s si := by
  intro i
  induction i with
  | zero =>
    intro si _ hsi
    cases hsi
    exact ⟨rfl, rfl, rfl, fun id ch hget => ⟨ch, hget, .refl ch⟩⟩
  | succ i ih =>
    intro si hi hsi
    have hlt : i < q.length := hi
    obtain ⟨tx, htx⟩ : ∃ tx, q[i]? = some tx := ⟨q[i], List.getElem?_eq_getElem hlt⟩
    obtain ⟨s₁, hs₁, ⟨evs, hok⟩ | ⟨e, herr⟩⟩ := stateAt_succ htx hsi
    · have hfirst := ih hlt.le hs₁
      have hnext := channelsLater_applyTx hok
      refine ⟨hnext.height.trans hfirst.height, hnext.capFrom.trans hfirst.capFrom,
        hnext.fee.trans hfirst.fee, ?_⟩
      intro id ch hget
      obtain ⟨ch₁, hget₁, hlater₁⟩ := hfirst.later id ch hget
      obtain ⟨ch₂, hget₂, hlater₂⟩ := hnext.later id ch₁ hget₁
      exact ⟨ch₂, hget₂, hlater₁.trans hlater₂⟩
    · rw [refused_keeps (hf.stateAt hlt.le hs₁) herr]
      exact ih hlt.le hs₁

/-- From the cap height on, no settlement beyond the largest delta comes through, at its turn, to
the word of a channel that is new in the batch.  It does only if the batch has settled the channel
before. -/
def Unclimbed (chain s : State H) (batch : List (SignedTx H)) : Prop :=
  chain.paywordCapFrom ≤ satAdd u64Max chain.height 1 →
    ∀ (i : ℕ) (tx : SignedTx H) (si : State H) (id word : H) (step : ℕ) (ch : Channel H),
      batch[i]? = some tx → s.stateAt batch i = some si →
      tx.payload = .channelSettle id word step → chain.channels[id]? = none →
      MAX_SETTLE_DELTA < step → si.channels[id]? = some ch → si.reachesBody tx = true →
      ¬ ch.Admits step

omit [TxCodec H] [HashSuite H] in
/-- At its turn, a settlement hashes no more links than its price on the chain before the block. -/
lemma settleHashes_le_price {si : State H} {time : ℕ}
    (hlater : ChannelsLater (chain.openedAt (chain.height + 1) time) si)
    (hunclimbed : chain.paywordCapFrom ≤ satAdd u64Max chain.height 1 →
      chain.channels[id]? = none → MAX_SETTLE_DELTA < step →
      ∀ ch, si.channels[id]? = some ch → ¬ ch.Admits step) :
    si.settleHashes id step ≤ chain.settleCost id step := by
  cases hget : chain.channels[id]? with
  | some ch =>
    obtain ⟨ch', hget', hch⟩ := hlater.later id ch hget
    exact (settleHashes_le_settleCost hget').trans (settleCost_later hget hget' hch)
  | none =>
    have hcost : chain.settleCost id step =
        if chain.paywordCapFrom ≤ satAdd u64Max chain.height 1 then min step MAX_SETTLE_DELTA
        else step := by
      have hunknown : chain.channels.contains id = false := by
        rw [Std.ExtTreeMap.contains_eq_isSome_getElem?, hget]
        rfl
      simp [settleCost, settleLinks, settleDelta, hget, hunknown]
    rw [hcost]
    split
    next hcap =>
      rcases le_or_gt step MAX_SETTLE_DELTA with hsmall | hlarge
      · rw [min_eq_left hsmall]
        exact si.settleHashes_le id step
      · -- a settlement beyond the largest delta is refused before its word
        have hactive : si.paywordCapFrom ≤ si.height := by
          rw [hlater.height, hlater.capFrom]
          exact hcap.trans (satAdd_le_add _ _ _)
        have hzero : si.settleHashes id step = 0 := by
          unfold settleHashes
          split
          · rfl
          next ch hch =>
            have hrefused := hunclimbed hcap hget hlarge ch hch
            split_ifs with h₁ h₂ h₃
            · rfl
            · rfl
            · rfl
            · obtain ⟨hlow, hhigh⟩ := not_or.mp h₂
              have hdelta : step - ch.state.highestStepSettled ≤ MAX_SETTLE_DELTA :=
                not_lt.mp fun hover => h₃ ⟨hactive, hover⟩
              exact absurd ⟨by simpa using h₁, not_le.mp hlow, not_lt.mp hhigh, hdelta⟩ hrefused
        omega
    next => exact si.settleHashes_le id step

/-- Along a batch whose new channels are not climbed, the links hashed are within the prices. -/
lemma totalLinks_le_prices {batch : List (SignedTx H)} (hf : chain.Fits) (time : ℕ)
    (h : Unclimbed chain (chain.openedAt (chain.height + 1) time) batch) :
    (chain.openedAt (chain.height + 1) time).totalLinks batch ≤
      (batch.map chain.linkPrice).sum := by
  have hfo : (chain.openedAt (chain.height + 1) time).Fits := hf.of_balances _ rfl
  have hprices : (batch.map chain.linkPrice).sum =
      ((List.range batch.length).map fun i => (batch[i]?.map chain.linkPrice).getD 0).sum := by
    congr 1
    refine List.ext_getElem (by simp) fun i hi hi' => ?_
    have hlt : i < batch.length := by simpa using hi
    simp [List.getElem?_eq_getElem hlt]
  rw [totalLinks, hprices]
  refine List.sum_le_sum fun i hi => ?_
  have hlt : i < batch.length := List.mem_range.mp hi
  unfold linksAt
  split
  next si tx hsi htx =>
    rw [htx, Option.map_some, Option.getD_some]
    unfold linksHashed linkPrice
    split
    next id word step hpayload =>
      split
      next hreach =>
        apply settleHashes_le_price (channelsLater_stateAt hfo hlt.le hsi)
        intro hcap hnew hlarge ch hch
        exact h hcap i tx si id word step ch htx hsi hpayload hnew hlarge hch hreach
      next => exact Nat.zero_le _
    next => exact Nat.zero_le _
  next => exact Nat.zero_le _

end State

section Budget

variable {H : Type} [LinearOrder H] [HashSuite H] [TxCodec H]

/-- The batch the proposer picks is a part of the queue in its order, a first part of each sender's
transactions, and no longer than the room.  Applied in order as the next block, it hashes no more
links than the budget of a block when, from the cap height on, no settlement beyond the largest
delta comes through to the word of a channel that is new in the batch. -/
theorem selectBatchTxs_links (chain : State H) (hfits : chain.Fits) (pending : List (SignedTx H))
    (room linksSoFar time : ℕ) :
    (selectBatchTxs chain pending room linksSoFar).1.Sublist pending ∧
    (∀ a, ((selectBatchTxs chain pending room linksSoFar).1.filter fun tx => tx.sender = a) <+:
      pending.filter fun tx => tx.sender = a) ∧
    (selectBatchTxs chain pending room linksSoFar).1.length ≤ room ∧
    (State.Unclimbed chain (chain.openedAt (chain.height + 1) time)
        (selectBatchTxs chain pending room linksSoFar).1 →
      (chain.openedAt (chain.height + 1) time).totalLinks
        (selectBatchTxs chain pending room linksSoFar).1 ≤ MAX_SETTLE_LINKS_PER_BLOCK) := by
  have hpicks := picks_selectBatchTxs chain pending room linksSoFar
  refine ⟨hpicks.sublist, hpicks.perSender, ?_, fun hunclimbed => ?_⟩
  · rcases eq_or_ne (selectBatchTxs chain pending room linksSoFar).1 [] with hnil | hne
    · rw [hnil]
      exact Nat.zero_le _
    · have := hpicks.room hne
      omega
  · have htotal := State.totalLinks_le_prices hfits time hunclimbed
    have hbudget := hpicks.budget
    omega

end Budget

namespace State

variable {H : Type} [LinearOrder H] [HashSuite H] [TxCodec H] {s : State H} {stx : SignedTx H}
  {id word : H} {step : ℕ}

/-- Where no fee is charged, a settlement on a sound channel is accepted or refused. -/
lemma settlement_safe (hpayload : stx.payload = .channelSettle id word step)
    (hfee : s.envelopeFee = 0)
    (hsound : ∀ ch, s.channels[id]? = some ch → ch.Sound)
    (hnonce : ∀ acc, s.accounts[stx.sender]? = some acc → acc.nonce + 1 ≤ u64Max) :
    (applyTx stx s).1 ≠ .fault := by
  have hzero : ¬ 0 < s.envelopeFee := by omega
  suffices hsafe : (applyTx stx).Safe s (fun _ => True) from hsafe.1
  refine (Exec.safe_get s _).bind fun _ _ h => ?_
  obtain ⟨rfl, rfl⟩ := Exec.get_eq_ok.mp h
  refine (Exec.safe_okOr s fun _ => trivial).bind fun acc _ h => ?_
  obtain ⟨hacc, rfl⟩ := Exec.okOr_eq_ok.mp h
  refine (Exec.safe_rejectIf s fun _ => trivial).bind fun _ _ h => ?_
  obtain ⟨-, rfl⟩ := Exec.rejectIf_eq_ok.mp h
  refine (Exec.safe_rejectIf s fun _ => trivial).bind fun _ _ h => ?_
  obtain ⟨-, rfl⟩ := Exec.rejectIf_eq_ok.mp h
  refine (Exec.safe_rejectIf s fun _ => trivial).bind fun _ _ h => ?_
  obtain ⟨-, rfl⟩ := Exec.rejectIf_eq_ok.mp h
  refine (Exec.safe_rejectIf s fun _ => trivial).bind fun _ _ h => ?_
  obtain ⟨-, rfl⟩ := Exec.rejectIf_eq_ok.mp h
  refine (Exec.safe_when_of_not _ hzero s _).bind fun _ _ h => ?_
  obtain ⟨hpos, -⟩ | ⟨-, rfl⟩ := Exec.when_eq_ok.mp h
  · exact absurd hpos hzero
  have hbody : (dispatch stx.sender stx.payload).Safe s (fun _ => True) := by
    rw [hpayload]
    exact ⟨(safe_doChannelSettle hsound word step).1, fun _ _ => trivial⟩
  refine (hbody.onErr fun s₁ => by simp [Exec.when, hzero]).bind fun evs s₁ h => ?_
  have hdispatch := Exec.onErr_eq_ok.mp h
  rw [hpayload] at hdispatch
  refine (Exec.safe_when_of_not _ hzero s₁ _).bind fun _ _ h => ?_
  obtain ⟨hpos, -⟩ | ⟨-, rfl⟩ := Exec.when_eq_ok.mp h
  · exact absurd hpos hzero
  -- a settlement writes no account
  have hacc' : s₁.accounts[stx.sender]? = some acc := by
    obtain ⟨ch, -, -, -, -, -, -, -, rfl⟩ := doChannelSettle_eq_ok hdispatch
    exact hacc
  refine Exec.Safe.bind ?_ fun _ _ _ => Exec.safe_pure _ _ _
  refine (Exec.safe_get s₁ _).bind fun _ _ h => ?_
  obtain ⟨rfl, rfl⟩ := Exec.get_eq_ok.mp h
  refine (Exec.safe_unwrap hacc' s₁ _).bind fun _ _ h => ?_
  obtain ⟨hget, rfl⟩ := Exec.unwrap_eq_ok.mp h
  obtain rfl := Option.some.inj (hget.symm.trans hacc')
  refine (Exec.safe_unwrap (checkedAdd_eq_some.mpr ⟨hnonce _ hacc, rfl⟩) s₁ _).bind fun _ _ _ => ?_
  exact Exec.safe_modify _ _ _

/-- A settlement of one channel leaves the others and the accounts of other senders. -/
lemma settlement_frame {s' : State H} {evs : List (Event H)}
    (hpayload : stx.payload = .channelSettle id word step) (h : applyTx stx s = (.ok evs, s'))
    {c a : H} (hc : id ≠ c) (ha : stx.sender ≠ a) :
    s'.channels[c]? = s.channels[c]? ∧ s'.accounts[a]? = s.accounts[a]? := by
  obtain ⟨s₁, henv⟩ := applyTxAt_eq_ok h
  have hbody := henv.body
  rw [hpayload] at hbody
  obtain ⟨ch, -, -, -, -, -, -, -, rfl⟩ := doChannelSettle_eq_ok hbody
  obtain ⟨acc, -, -, rfl⟩ := henv.ratchet
  have hfee : (s.feeCharged stx.sender).channels = s.channels ∧
      (s.feeCharged stx.sender).accounts = s.accounts := by
    rw [feeCharged_eq]
    exact ⟨rfl, rfl⟩
  constructor
  · change ((s.feeCharged stx.sender).channels.insert id _)[c]? = _
    rw [OrderedMap.get_insert, if_neg hc, hfee.1]
  · change ((s.feeCharged stx.sender).accounts.insert stx.sender _)[a]? = _
    rw [OrderedMap.get_insert, if_neg ha, hfee.2]

/-- Behind a settlement of one channel, accepted or refused, the other channels and the accounts of
other senders are as they were. -/
lemma stateAt_behind_settlement {q : List (SignedTx H)} {i : ℕ} {si : State H} (hf : si.Fits)
    (hsi : s.stateAt q i = some si) (htx : q[i]? = some stx)
    (hpayload : stx.payload = .channelSettle id word step) (hfee : si.envelopeFee = 0)
    (hsound : ∀ ch, si.channels[id]? = some ch → ch.Sound)
    (hnonce : ∀ acc, si.accounts[stx.sender]? = some acc → acc.nonce + 1 ≤ u64Max) {c a : H}
    (hc : id ≠ c) (ha : stx.sender ≠ a) :
    ∃ s', s.stateAt q (i + 1) = some s' ∧ ChannelsLater si s' ∧
      s'.channels[c]? = si.channels[c]? ∧ s'.accounts[a]? = si.accounts[a]? := by
  have hsafe := settlement_safe hpayload hfee hsound hnonce
  rcases happly : applyTx stx si with ⟨evs | e | _, s'⟩
  · exact ⟨s', stateAt_succ_of_attempt htx hsi (Exec.attempt_eq_ok.mpr (.inl ⟨evs, rfl, happly⟩)),
      channelsLater_applyTx happly, settlement_frame hpayload happly hc ha⟩
  · obtain rfl := refused_keeps hf happly
    exact ⟨_, stateAt_succ_of_err htx hsi happly,
      ⟨rfl, rfl, rfl, fun id ch hget => ⟨ch, hget, .refl ch⟩⟩, rfl, rfl⟩
  · exact absurd (congrArg Prod.fst happly) hsafe

omit [HashSuite H] [TxCodec H] in
/-- What a settlement hashes depends on its channel, the height and the cap height. -/
lemma settleHashes_congr {s' : State H} (hch : s'.channels[id]? = s.channels[id]?)
    (hlater : ChannelsLater s s') : s'.settleHashes id step = s.settleHashes id step := by
  unfold settleHashes
  rw [hch, hlater.height, hlater.capFrom]

/-- The links of a settlement whose body is run. -/
lemma linksAt_of_settlement {q : List (SignedTx H)} {i : ℕ} {si : State H}
    (hsi : s.stateAt q i = some si) (htx : q[i]? = some stx)
    (hpayload : stx.payload = .channelSettle id word step) (hreach : si.reachesBody stx = true) :
    s.linksAt q i = si.settleHashes id step := by
  simp only [linksAt, hsi, htx, linksHashed, hpayload, hreach, if_true]

/-- The state after some transactions whose signatures were verified ahead of time. -/
lemma stateAt_of_verified {q : List (SignedTx H)} {i : ℕ}
    (hverified : (q.take i).map verifyEnvelope = (q.take i).map fun _ => true)
    (hok : (applyTxs 0 (withVerdicts (q.take i) (some ((q.take i).map fun _ => true))) s).1.okAnd
      (fun _ => true) = true) :
    s.stateAt q i =
      some (applyTxs 0 (withVerdicts (q.take i) (some ((q.take i).map fun _ => true))) s).2 := by
  obtain ⟨receipts, -, hrun⟩ := Exec.exists_of_okAnd hok
  unfold stateAt
  rw [← applyTxs_verdicts, hverified, hrun]

end State

/-- Where the whole queue fits the room and the budget, the proposer picks all of it. -/
lemma selectLoop_all {H : Type} [LinearOrder H] [HashSuite H] {chain : State H} {room : ℕ}
    {pending picked : List (SignedTx H)} {held links : ℕ}
    (hroom : picked.length + pending.length ≤ room)
    (hlinks : links + (pending.map chain.linkPrice).sum ≤ MAX_SETTLE_LINKS_PER_BLOCK) :
    (selectLoop chain room pending picked held links ∅).1 = picked ++ pending := by
  induction pending generalizing picked links with
  | nil => simp [selectLoop]
  | cons tx pending ih =>
    rw [List.length_cons] at hroom
    rw [List.map_cons, List.sum_cons] at hlinks
    have hlen : (picked ++ [tx]).length + pending.length ≤ room := by
      rw [List.length_append, List.length_singleton]
      omega
    have hjoin : picked ++ tx :: pending = picked ++ [tx] ++ pending := by simp
    have hfree : ¬ (∅ : OrderedSet H).contains tx.sender = true := by simp
    rw [selectLoop, if_neg (by omega), if_neg hfree, hjoin]
    split
    next id word step hpayload =>
      have hprice : chain.linkPrice tx = chain.settleCost id step := by
        simp only [State.linkPrice, hpayload]
      rw [hprice] at hlinks
      have hsum : satAdd u64Max links (chain.settleCost id step) =
          links + chain.settleCost id step := by
        apply satAdd_of_le
        simp only [MAX_SETTLE_LINKS_PER_BLOCK, u64Max] at hlinks ⊢
        omega
      dsimp only
      rw [hsum, if_neg (by omega)]
      exact ih hlen (by omega)
    next => exact ih hlen (by omega)

lemma selectBatchTxs_all {H : Type} [LinearOrder H] [HashSuite H] {chain : State H} {room : ℕ}
    {pending : List (SignedTx H)} (hroom : pending.length ≤ room)
    (hlinks : (pending.map chain.linkPrice).sum ≤ MAX_SETTLE_LINKS_PER_BLOCK) :
    (selectBatchTxs chain pending room 0).1 = pending := by
  rw [selectBatchTxs, selectLoop_all (by simpa using hroom) (by simpa using hlinks),
    List.nil_append]

/-- The links of a list of five that are known at three places are no more than all of them. -/
lemma State.le_totalLinks {H : Type} [LinearOrder H] [HashSuite H] [TxCodec H] {s : State H}
    {q : List (SignedTx H)} (hlen : q.length = 5) :
    s.linksAt q 1 + s.linksAt q 3 + s.linksAt q 4 ≤ s.totalLinks q := by
  simp only [totalLinks, hlen, List.range_succ, List.range_zero, List.nil_append, List.map_append,
    List.map_cons, List.map_nil, List.sum_append, List.sum_cons, List.sum_nil]
  omega

namespace Concrete

open State

/-- An organisation with a million units, an agent and a third account. -/
def climbGenesis : Genesis ℕ where
  time := 0
  accounts := [account 1, account 2, account 3]
  alloc := [⟨1, 7, 1000000⟩]
  fee := none
  assets := []

/-- The organisation gives the agent a mandate over all of it. -/
def climbGrant : List (SignedTx ℕ) :=
  [signed [1] 1 0 (.mandateCreate 100 none 2 7 1 1000000 1000000 1000000 1000 0)]

/-- The chain before the batch. -/
def climbChain : State ℕ :=
  (applyBlockVerified 1 10 climbGrant (some (climbGrant.map fun _ => true))
    (start climbGenesis config)).2

/-- A PayWord chain of which one link is known. -/
def climbTip : ℕ := Payword.link 77

def climbFirst : ℕ := deriveChannelId 2 1 climbTip 0

def climbSecond : ℕ := deriveChannelId 2 1 climbTip 1

/-- The agent opens two channels of the greatest length.  The first is settled for one step and then
beyond the largest delta, the second for almost that delta; the last two words are worthless. -/
def climbBatch : List (SignedTx ℕ) :=
  [signed [2] 2 0 (.channelOpen climbFirst 100 1 7 climbTip 1 131072 100),
    signed [1] 1 1 (.channelSettle climbFirst 77 1),
    signed [2] 2 1 (.channelOpen climbSecond 100 1 7 climbTip 1 131072 100),
    signed [1] 1 2 (.channelSettle climbFirst 0 65537),
    signed [3] 3 0 (.channelSettle climbSecond 0 65535)]

/-- The chain after the first `i` transactions of the batch. -/
def climbState (i : ℕ) : State ℕ :=
  (applyTxs 0 (withVerdicts (climbBatch.take i) (some ((climbBatch.take i).map fun _ => true)))
    (climbChain.openedAt 2 10)).2

lemma climbBatch_verified (i : ℕ) :
    (climbBatch.take i).map verifyEnvelope = (climbBatch.take i).map fun _ => true := by
  refine List.map_congr_left fun tx htx => ?_
  have hmem := List.mem_of_mem_take htx
  simp only [climbBatch, List.mem_cons, List.not_mem_nil, or_false] at hmem
  rcases hmem with rfl | rfl | rfl | rfl | rfl <;> exact verifyEnvelope_signed _ _ _ _

lemma climbBatch_one : (climbChain.openedAt 2 10).stateAt climbBatch 1 = some (climbState 1) :=
  stateAt_of_verified (climbBatch_verified 1) (by decide +kernel)

lemma climbBatch_three : (climbChain.openedAt 2 10).stateAt climbBatch 3 = some (climbState 3) :=
  stateAt_of_verified (climbBatch_verified 3) (by decide +kernel)

/-- An account at the key of a transaction lets its body run. -/
lemma reachesBody_signed (s : State ℕ) (seed : List UInt8) (sender nonce : ℕ) (payload : Tx ℕ)
    (hfee : s.envelopeFee = 0)
    (hacc : (s.accounts[sender]?).any (fun acc => acc.authCommit = commitAt seed nonce ∧
      acc.nonce = nonce) = true) : s.reachesBody (signed seed sender nonce payload) = true := by
  obtain ⟨acc, hget, hkey⟩ := (Option.any_eq_true _ _).mp hacc
  obtain ⟨hauth, hnonce⟩ := of_decide_eq_true hkey
  have hsender : (signed seed sender nonce payload).sender = sender := rfl
  have hnonce' : (signed seed sender nonce payload).nonce = nonce := rfl
  unfold reachesBody
  rw [hsender, hget]
  simp [hnonce', hnonce, pkCommit_signed, hauth, verifyEnvelope_signed, hfee]

lemma climbChain_fits : climbChain.Fits := by
  have hinit : Initial climbGenesis (start climbGenesis config) :=
    initial_start config (by decide +kernel)
  have hverified : climbGrant.map verifyEnvelope = climbGrant.map fun _ => true := by
    simp [climbGrant, verifyEnvelope_signed]
  obtain ⟨receipts, -, hgrant⟩ := blockStep_of_verified (start climbGenesis config) 1 10 hverified
    (by decide +kernel)
  rw [← climbChain] at hgrant
  exact Reachable.fits ⟨_, _, hinit, .single hgrant⟩

lemma climbState_fits {i : ℕ} (hi : i ≤ climbBatch.length)
    (h : (climbChain.openedAt 2 10).stateAt climbBatch i = some (climbState i)) :
    (climbState i).Fits := by
  have hopened : ∀ s : State ℕ, s.Fits → (s.openedAt 2 10).Fits := fun s hf => hf.of_balances _ rfl
  exact (hopened _ climbChain_fits).stateAt hi h

/-- What stands on the chain after the openings. -/
lemma climbState_three :
    (climbState 3).settleHashes climbFirst 65537 = 65537 ∧
    (climbState 3).settleHashes climbSecond 65535 = 65535 ∧
    (climbState 3).envelopeFee = 0 ∧
    ((climbState 3).accounts[1]?).any (fun acc => acc.authCommit = commitAt [1] 2 ∧ acc.nonce = 2)
      = true ∧
    ((climbState 3).accounts[3]?).any (fun acc => acc.authCommit = commitAt [3] 0 ∧ acc.nonce = 0)
      = true ∧
    ((climbState 3).channels[climbFirst]?).all (fun ch => ch.state.highestStepSettled = 1 ∧
      ch.state.maxSteps = 131072 ∧ ch.state.unitPrice = 1 ∧ ch.refunded = false ∧
      ch.escrowRemaining = 131071) = true := by
  decide +kernel

lemma climbState_sound (ch : Channel ℕ) (h : (climbState 3).channels[climbFirst]? = some ch) :
    ch.Sound := by
  have hall := climbState_three.2.2.2.2.2
  rw [h, Option.all_some] at hall
  obtain ⟨hstep, hmax, hprice, hopen, hescrow⟩ := of_decide_eq_true hall
  refine ⟨?_, ?_, ?_⟩
  · omega
  · rw [hescrow, hopen, hprice, hmax, hstep]
    rfl
  · rw [Channel.deposit, hprice, hmax]
    decide

lemma climbState_nonce (acc : Account ℕ) (h : (climbState 3).accounts[1]? = some acc) :
    acc.nonce + 1 ≤ u64Max := by
  have hany := climbState_three.2.2.2.1
  rw [h, Option.any_some] at hany
  rw [(of_decide_eq_true hany).2]
  decide

lemma climbBatch_get_three :
    climbBatch[3]? = some (signed [1] 1 2 (.channelSettle climbFirst 0 65537)) := rfl

/-- The last settlement still finds its channel and its account as they were. -/
lemma climbBatch_four : ∃ s, (climbChain.openedAt 2 10).stateAt climbBatch 4 = some s ∧
    s.settleHashes climbSecond 65535 = 65535 ∧ s.envelopeFee = 0 ∧
    (s.accounts[3]?).any (fun acc => acc.authCommit = commitAt [3] 0 ∧ acc.nonce = 0) = true := by
  obtain ⟨-, hnum, hfee, -, hacc, -⟩ := climbState_three
  have hother : climbFirst ≠ climbSecond := by decide +kernel
  have hlen : 3 ≤ climbBatch.length := by simp [climbBatch]
  obtain ⟨s, hs, hlater, hch, haccounts⟩ := stateAt_behind_settlement
    (climbState_fits hlen climbBatch_three) climbBatch_three climbBatch_get_three
    (payload_signed _ _ _ _) hfee climbState_sound climbState_nonce hother
    (show (1 : ℕ) ≠ 3 by decide)
  refine ⟨s, hs, (settleHashes_congr hch hlater).trans hnum, hlater.fee.trans hfee, ?_⟩
  rw [haccounts]
  exact hacc

lemma climbBatch_prices : (climbBatch.map climbChain.linkPrice).sum = 131072 := by
  obtain ⟨hfirst, hclimb, hsecond⟩ : climbChain.settleCost climbFirst 1 = 1 ∧
      climbChain.settleCost climbFirst 65537 = 65536 ∧
      climbChain.settleCost climbSecond 65535 = 65535 := by
    decide +kernel
  simp only [climbBatch, List.map_cons, List.map_nil, linkPrice, payload_signed, hfirst, hclimb,
    hsecond, List.sum_cons, List.sum_nil]
  omega

lemma climbState_one :
    (climbState 1).settleHashes climbFirst 1 = 1 ∧ (climbState 1).envelopeFee = 0 ∧
    ((climbState 1).accounts[1]?).any (fun acc => acc.authCommit = commitAt [1] 1 ∧ acc.nonce = 1)
      = true := by
  decide +kernel

lemma climbBatch_links_one : (climbChain.openedAt 2 10).linksAt climbBatch 1 = 1 := by
  have hget : climbBatch[1]? = some (signed [1] 1 1 (.channelSettle climbFirst 77 1)) := rfl
  obtain ⟨hnum, hfee, hacc⟩ := climbState_one
  have hreach := reachesBody_signed (climbState 1)
    [1] 1 1 (.channelSettle climbFirst 77 1) hfee hacc
  rw [linksAt_of_settlement climbBatch_one hget (payload_signed _ _ _ _) hreach, hnum]

lemma climbBatch_links_three : (climbChain.openedAt 2 10).linksAt climbBatch 3 = 65537 := by
  obtain ⟨hnum, -, hfee, hacc, -, -⟩ := climbState_three
  have hreach := reachesBody_signed (climbState 3) [1] 1 2 (.channelSettle climbFirst 0 65537) hfee
    hacc
  rw [linksAt_of_settlement climbBatch_three climbBatch_get_three (payload_signed _ _ _ _) hreach,
    hnum]

lemma climbBatch_links_four : (climbChain.openedAt 2 10).linksAt climbBatch 4 = 65535 := by
  have hget : climbBatch[4]? = some (signed [3] 3 0 (.channelSettle climbSecond 0 65535)) := rfl
  obtain ⟨s, hs, hnum, hfee, hacc⟩ := climbBatch_four
  have hreach := reachesBody_signed s [3] 3 0 (.channelSettle climbSecond 0 65535) hfee hacc
  rw [linksAt_of_settlement hs hget (payload_signed _ _ _ _) hreach, hnum]

/-- The openings and the first settlement hash within the budget. -/
theorem climbChain_links : climbChain.Fits ∧
    (climbChain.openedAt (climbChain.height + 1) 10).totalLinks
      (selectBatchTxs climbChain (climbBatch.take 3) 5 0).1 ≤ MAX_SETTLE_LINKS_PER_BLOCK := by
  obtain ⟨hsub, -, -, hlinks⟩ := selectBatchTxs_links climbChain climbChain_fits
    (climbBatch.take 3) 5 0 10
  refine ⟨climbChain_fits, hlinks ?_⟩
  intro _ i tx si id word step ch htx _ hpayload _ hlarge _ _
  exfalso
  have hmem := hsub.subset (List.mem_of_getElem? htx)
  simp only [climbBatch, List.take_succ_cons, List.take_zero, List.mem_cons, List.not_mem_nil,
    or_false] at hmem
  rcases hmem with rfl | rfl | rfl
  · exact absurd (payload_signed _ _ _ _ ▸ hpayload) (by simp)
  · rw [payload_signed] at hpayload
    obtain ⟨-, -, rfl⟩ := Tx.channelSettle.inj hpayload
    exact absurd hlarge (by decide)
  · exact absurd (payload_signed _ _ _ _ ▸ hpayload) (by simp)

/-- The whole batch is picked, and applied it hashes one link more than a block may. -/
theorem climbBatch_over_budget :
    (selectBatchTxs climbChain climbBatch 5 0).1 = climbBatch ∧
    MAX_SETTLE_LINKS_PER_BLOCK <
      (climbChain.openedAt (climbChain.height + 1) 10).totalLinks climbBatch := by
  have hheight : climbChain.height + 1 = 2 := by decide +kernel
  have hlen : climbBatch.length = 5 := by simp [climbBatch]
  refine ⟨selectBatchTxs_all hlen.le (by rw [climbBatch_prices]; decide), ?_⟩
  have htotal := le_totalLinks (s := climbChain.openedAt 2 10) hlen
  rw [climbBatch_links_one, climbBatch_links_three, climbBatch_links_four] at htotal
  rw [hheight]
  exact lt_of_lt_of_le (by decide) htotal

/-- A batch stops at its room. -/
example : (selectBatchTxs climbChain climbBatch 2 0).1.length = 2 := by decide +kernel

end Concrete

end HashKinetics
