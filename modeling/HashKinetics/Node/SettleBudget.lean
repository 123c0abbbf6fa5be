import HashKinetics.Node.Mempool

/-!
# What the door admits the proposer picks

The door prices a settlement on the chain of its time, the proposer on a later one.  The terms of a
channel never change, its settled step never falls and a refund is final, so the price never rises
above what one whole block may carry.
-/

namespace HashKinetics

open Foundations

namespace State

variable {H : Type} [LinearOrder H] [HashSuite H] {s s' : State H} {id : H} {step : ℕ}

omit [HashSuite H] in
/-- The price of a settlement on a channel that the chain knows. -/
lemma settleCost_of_get {ch : Channel H} (hget : s.channels[id]? = some ch) :
    s.settleCost id step =
      if ch.refunded = true ∨ step ≤ ch.state.highestStepSettled ∨ ch.state.maxSteps < step then 0
      else step := by
  have hknown : s.channels.contains id = true := by
    rw [Std.ExtTreeMap.contains_eq_isSome_getElem?, hget]
    rfl
  unfold settleCost settleLinks settleDelta
  by_cases hr : ch.refunded = true
  · simp [hget, hr, hknown]
  · by_cases hstep : step ≤ ch.state.highestStepSettled ∨ ch.state.maxSteps < step
    · simp [hget, hr, hstep, hknown]
    · simp [hget, hr, hstep]

omit [HashSuite H] in
/-- The price of a settlement is never more than its step. -/
lemma settleCost_le (s : State H) (id : H) (step : ℕ) : s.settleCost id step ≤ step := by
  cases hget : s.channels[id]? with
  | some ch =>
    rw [settleCost_of_get hget]
    split
    · exact Nat.zero_le _
    · exact le_rfl
  | none =>
    unfold settleCost settleLinks settleDelta
    simp only [hget, Option.map_none]
    split
    · exact Nat.zero_le _
    · split
      · exact min_le_left _ _
      · exact le_rfl

omit [HashSuite H] in
/-- As a channel goes on, the price of a settlement on it stays or falls to nothing. -/
lemma settleCost_later {ch ch' : Channel H} (hget : s.channels[id]? = some ch)
    (hget' : s'.channels[id]? = some ch') (hlater : ChannelLater ch ch') :
    s'.settleCost id step ≤ s.settleCost id step := by
  have hmax : ch'.state.maxSteps = ch.state.maxSteps := by rw [hlater.terms]
  rw [settleCost_of_get hget, settleCost_of_get hget', hmax]
  split
  · exact Nat.zero_le _
  next hopen' =>
  rw [if_neg]
  rintro (hr | hlow | hhigh)
  · exact hopen' (.inl (by rw [hlater.absorbed hr, hr]))
  · exact hopen' (.inr (.inl (hlow.trans hlater.step)))
  · exact hopen' (.inr (.inr hhigh))

end State

section Picked

variable {H : Type} [LinearOrder H] [HashSuite H] [NodeCodec H] [TxCodec H]

omit [NodeCodec H] in
/-- What the door let in costs no more than a block may carry, on every later chain. -/
lemma settleCost_le_budget {s s' : State H} {ls : List (Elementary H)}
    (hpath : Path State.ElemStep s ls s') {tx : SignedTx H} {id word : H} {step : ℕ}
    (htx : tx.payload = .channelSettle id word step)
    (hcap : Mempool.channelSettleCap tx s = .ok ()) :
    s'.settleCost id step ≤ MAX_SETTLE_LINKS_PER_BLOCK := by
  simp only [Mempool.channelSettleCap, htx, bind, Except.bind] at hcap
  split at hcap
  · cases hcap
  next hdelta =>
  split at hcap
  · cases hcap
  next hcost =>
  cases hget : s.channels[id]? with
  | some ch =>
    obtain ⟨⟨ch', hget', hlater⟩, -⟩ := State.later_of_path hpath hget
    exact (State.settleCost_later hget hget' hlater).trans (not_lt.mp hcost)
  | none =>
    -- the channel was unknown, and the door capped the step itself
    have hstep : step ≤ MAX_SETTLE_DELTA := by
      by_contra hlt
      have hnone : s.settleDelta id step = none := by simp [State.settleDelta, hget]
      have hunknown : s.channels.contains id = false := by
        rw [Std.ExtTreeMap.contains_eq_isSome_getElem?, hget]
        rfl
      simp [Mempool.settleDeltaCap, hnone, hunknown, not_le.mp hlt] at hdelta
    calc s'.settleCost id step ≤ step := s'.settleCost_le id step
      _ ≤ MAX_SETTLE_DELTA := hstep
      _ ≤ MAX_SETTLE_LINKS_PER_BLOCK := by decide

omit [HashSuite H] [NodeCodec H] [TxCodec H] in
/-- What the proposer has picked stays picked. -/
lemma picked_prefix_selectLoop (chain : State H) (room : ℕ) (pending picked : List (SignedTx H))
    (held links : ℕ) (heldSenders : OrderedSet H) :
    picked <+: (selectLoop chain room pending picked held links heldSenders).1 := by
  induction pending generalizing picked held links heldSenders with
  | nil => exact List.prefix_rfl
  | cons tx pending ih =>
    have htake : picked <+: picked ++ [tx] := List.prefix_append _ _
    unfold selectLoop
    split
    · exact List.prefix_rfl
    split
    · exact ih _ _ _ _
    split
    · dsimp only
      split
      · exact ih _ _ _ _
      · exact htake.trans (ih _ _ _ _)
    · exact htake.trans (ih _ _ _ _)

/-- A transaction that the door let in on some chain is picked by the proposer of every later chain
when it stands first and the block has room: its price stays within the budget of a block. -/
theorem picked_of_admitted {s s' : State H} (hfits : s.Fits) {steps : List (List (Elementary H))}
    (hrun : Path State.BlockStep s steps s') {window : ℕ} {tx : SignedTx H}
    {verdict : EnvelopeVerdict H} {p p' : Mempool H} {txId : H}
    (hadmitted : Mempool.tryAdmitVerified window tx s verdict p = (.ok txId, p'))
    (rest : List (SignedTx H)) {room : ℕ} (hroom : 0 < room) :
    (∀ id word step, tx.payload = .channelSettle id word step →
        s'.settleCost id step ≤ MAX_SETTLE_LINKS_PER_BLOCK) ∧
      [tx] <+: (selectBatchTxs s' (tx :: rest) room 0).1 := by
  have hcap := (Mempool.admitted_of_tryAdmitVerified hadmitted).settle
  have hcost : ∀ id word step, tx.payload = .channelSettle id word step →
      s'.settleCost id step ≤ MAX_SETTLE_LINKS_PER_BLOCK := by
    intro id word step htx
    exact settleCost_le_budget (State.elemPath hfits hrun) htx hcap
  refine ⟨hcost, ?_⟩
  unfold selectBatchTxs selectLoop
  rw [if_neg (by simpa using hroom.ne'), if_neg (by simp)]
  split
  next id word step htx =>
    have hle : satAdd u64Max 0 (s'.settleCost id step) ≤ MAX_SETTLE_LINKS_PER_BLOCK := by
      have hbudget := hcost id word step htx
      unfold satAdd
      omega
    rw [if_neg (not_lt.mpr hle)]
    exact picked_prefix_selectLoop ..
  next => exact picked_prefix_selectLoop ..

end Picked

namespace Concrete

open State

/-- The agent settles both steps of its channel for the organisation. -/
def settleBoth : SignedTx ℕ := signed [2] 2 1 (.channelSettle twoSteps 77 2)

/-- It is admitted while nothing is settled, and still picked after the first step was. -/
theorem settleBoth_picked :
    [settleBoth] <+: (selectBatchTxs channelSettled [settleBoth] 1 0).1 := by
  have hfits : channelOpened.Fits :=
    Reachable.fits ⟨_, _, initial_mandateGenesis, (Path.single granted_step).snoc channelOpened_step⟩
  have hok : (Mempool.tryAdmitVerified 64 settleBoth channelOpened
      ⟨some (commitAt [2] 1), .ok ()⟩ (.new 8)).1.okAnd (fun _ => true) = true := by
    decide +kernel
  obtain ⟨txId, -, hadmitted⟩ := Exec.exists_of_okAnd hok
  exact (picked_of_admitted hfits (.single channelSettled_step) hadmitted [] Nat.one_pos).2

end Concrete

end HashKinetics
