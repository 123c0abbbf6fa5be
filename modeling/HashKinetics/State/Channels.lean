import HashKinetics.State.Conservation
import HashKinetics.State.Debits

/-!
# The life of a channel

A channel is opened with a deposit of its unit price times its steps, pays its merchant step by
step, and is refunded once.  The escrow arithmetic is unchecked in the chain; it is safe because the
escrow is at all times the price of the steps that are still to settle.  What the events of a step
say about a channel is what the step moved: the deposit leaves the account that funds the channel's
mandate, a settlement reaches the merchant, and the refund the payer.
-/

namespace HashKinetics

open Foundations

/-- What an event says a channel took at its opening. -/
def Event.deposited {H : Type} [DecidableEq H] (id : H) : Event H → ℕ
  | .channelOpened c escrow => if c = id then escrow else 0
  | _ => 0

/-- What an event says a channel paid to its merchant. -/
def Event.paidOut {H : Type} [DecidableEq H] (id : H) : Event H → ℕ
  | .channelSettled c _ paid => if c = id then paid else 0
  | _ => 0

/-- What an event says a channel gave back to its payer. -/
def Event.givenBack {H : Type} [DecidableEq H] (id : H) : Event H → ℕ
  | .channelRefunded c amount => if c = id then amount else 0
  | _ => 0

/-- The events of a step. -/
def Elementary.events {H : Type} [LinearOrder H] : Elementary H → List (Event H)
  | .tx _ evs => evs
  | _ => []

/-- The sum of an amount over the events of a run. -/
def eventSum {H : Type} [LinearOrder H] (f : Event H → ℕ) (ls : List (Elementary H)) : ℕ :=
  (ls.map fun l => (l.events.map f).sum).sum

lemma eventSum_snoc {H : Type} [LinearOrder H] (f : Event H → ℕ) (ls : List (Elementary H))
    (l : Elementary H) : eventSum f (ls ++ [l]) = eventSum f ls + (l.events.map f).sum := by
  simp [eventSum]

/-- The deposit of a channel. -/
def Channel.deposit {H : Type} (ch : Channel H) : ℕ := ch.state.unitPrice * ch.state.maxSteps

/-- The settled step is within the channel, the escrow is the price of the steps still to settle
until the refund and nothing afterwards, and the deposit is a `u128`. -/
structure Channel.Sound {H : Type} (ch : Channel H) : Prop where
  step : ch.state.highestStepSettled ≤ ch.state.maxSteps
  escrow : ch.escrowRemaining =
    if ch.refunded then 0
    else ch.state.unitPrice * (ch.state.maxSteps - ch.state.highestStepSettled)
  width : ch.deposit ≤ u128Max

/-- The steps of a sound open channel are covered by its escrow. -/
lemma Channel.Sound.covers {H : Type} {ch : Channel H} (h : ch.Sound) (hopen : ch.refunded = false)
    {step : ℕ} (hstep : step ≤ ch.state.maxSteps) :
    ch.state.unitPrice * (step - ch.state.highestStepSettled) ≤ ch.escrowRemaining ∧
      ch.state.unitPrice * (step - ch.state.highestStepSettled) ≤ u128Max := by
  have hescrow := h.escrow
  rw [hopen, if_neg (by simp)] at hescrow
  have hwidth : ch.state.unitPrice * ch.state.maxSteps ≤ u128Max := h.width
  refine ⟨?_, ?_⟩
  · rw [hescrow]
    exact Nat.mul_le_mul_left _ (by omega)
  · exact (Nat.mul_le_mul_left _ (by omega)).trans hwidth

/-- A settlement keeps a channel sound. -/
lemma Channel.Sound.settled {H : Type} {ch : Channel H} (h : ch.Sound) (hopen : ch.refunded = false)
    {step : ℕ} (hlow : ch.state.highestStepSettled < step) (hstep : step ≤ ch.state.maxSteps) :
    (⟨{ ch.state with highestStepSettled := step },
      ch.escrowRemaining - ch.state.unitPrice * (step - ch.state.highestStepSettled),
      ch.refunded⟩ : Channel H).Sound := by
  have hescrow := h.escrow
  rw [hopen, if_neg (by simp)] at hescrow
  have hwidth : ch.state.unitPrice * ch.state.maxSteps ≤ u128Max := h.width
  refine ⟨hstep, ?_, hwidth⟩
  have hsplit : ch.state.maxSteps - ch.state.highestStepSettled =
      (step - ch.state.highestStepSettled) + (ch.state.maxSteps - step) := by omega
  have hsum : ch.escrowRemaining = ch.state.unitPrice * (step - ch.state.highestStepSettled) +
      ch.state.unitPrice * (ch.state.maxSteps - step) := by
    rw [hescrow, hsplit, Nat.mul_add]
  simp only [hopen, Bool.false_eq_true, if_false]
  omega

namespace State

variable {H : Type} [LinearOrder H] [HashSuite H]

/-! ## What moves a channel -/

/-- An amount left the balance of one account in one asset, and no other balance moved. -/
structure TakenFrom (s s' : State H) (id asset : H) (amount : ℕ) : Prop where
  taken : s'.balance id asset + amount = s.balance id asset
  others : ∀ id' asset', ¬(id = id' ∧ asset = asset') →
    s'.balance id' asset' = s.balance id' asset'

/-- An amount reached the balance of one account in one asset, and no other balance moved.  The
credit saturates, which never shows where the books of the asset fit their width. -/
structure PaidTo (s s' : State H) (id asset : H) (amount : ℕ) : Prop where
  paid : s'.balance id asset = satAdd u128Max (s.balance id asset) amount
  whole : s.accounted asset ≤ u128Max → s'.balance id asset = s.balance id asset + amount
  others : ∀ id' asset', ¬(id = id' ∧ asset = asset') →
    s'.balance id' asset' = s.balance id' asset'

omit [HashSuite H] in
/-- A debit takes its amount. -/
lemma takenFrom_debited {s : State H} {id asset : H} {amount : ℕ}
    (hle : amount ≤ s.balance id asset) :
    TakenFrom s (s.debited id asset amount) id asset amount where
  taken := by
    rw [debited, balance_setBalance, if_pos ⟨rfl, rfl⟩, Nat.sub_add_cancel hle]
  others id' asset' hne := by
    rw [debited, balance_setBalance, if_neg hne]

omit [HashSuite H] in
/-- A credit pays its amount. -/
lemma paidTo_credited {s : State H} {id asset : H} {amount : ℕ}
    (hroom : s.balance id asset + amount ≤ s.accounted asset) :
    PaidTo s (s.credited id asset amount) id asset amount := by
  have hpaid : (s.credited id asset amount).balance id asset =
      satAdd u128Max (s.balance id asset) amount := by
    rw [credited, balance_setBalance, if_pos ⟨rfl, rfl⟩]
  refine ⟨hpaid, fun hfits => ?_, fun id' asset' hne => ?_⟩
  · rw [hpaid, satAdd_of_le (hroom.trans hfits)]
  · rw [credited, balance_setBalance, if_neg hne]

omit [HashSuite H] in
lemma TakenFrom.of_balances {s s₁ s' : State H} {id asset : H} {amount : ℕ}
    (h : TakenFrom s s₁ id asset amount) (hb : s'.balances = s₁.balances) :
    TakenFrom s s' id asset amount where
  taken := by
    rw [balance_of_balances hb]
    exact h.taken
  others id' asset' hne := by
    rw [balance_of_balances hb]
    exact h.others id' asset' hne

omit [HashSuite H] in
lemma PaidTo.of_balances {s s₁ s' : State H} {id asset : H} {amount : ℕ}
    (h : PaidTo s s₁ id asset amount) (hb : s'.balances = s₁.balances) :
    PaidTo s s' id asset amount where
  paid := by
    rw [balance_of_balances hb]
    exact h.paid
  whole := by
    rw [balance_of_balances hb]
    exact h.whole
  others id' asset' hne := by
    rw [balance_of_balances hb]
    exact h.others id' asset' hne

omit [HashSuite H] in
/-- What a channel holds comes on top of any balance in the books of its asset. -/
lemma balance_add_le_accounted {s : State H} {id : H} {ch : Channel H}
    (hget : s.channels[id]? = some ch) {paid : ℕ} (hle : paid ≤ ch.escrowRemaining) (A : H) :
    s.balance A ch.state.asset + paid ≤ s.accounted ch.state.asset := by
  have hsplit := accounted_setChannel_paid hget
    ⟨ch.state, ch.escrowRemaining - paid, ch.refunded⟩ rfl (Nat.sub_add_cancel hle) ch.state.asset
  have hpart :=
    (s.setChannel id ⟨ch.state, ch.escrowRemaining - paid, ch.refunded⟩).balance_le_accounted
    A ch.state.asset
  rw [amountIn_self] at hsplit
  rw [← hsplit]
  exact Nat.add_le_add_right hpart _

/-- What a transaction does to the channels and, if it touches one, to the balances, with its
events.  An opening takes the deposit from the account that funds the root of the channel's mandate;
a settlement pays the merchant for the steps it settles; a refund gives the escrow back to the
payer. -/
inductive ChannelMove (s s' : State H) : List (Event H) → Prop
  | idle {evs : List (Event H)} (hch : s'.channels = s.channels)
      (hevs : ∀ id, ∀ ev ∈ evs, ev.deposited id = 0 ∧ ev.paidOut id = 0 ∧ ev.givenBack id = 0) :
      ChannelMove s s' evs
  | opened {id root funder : H} {ch : Channel H} (hnew : s.channels[id]? = none)
      (hid : ch.state.id = id) (hzero : ch.state.highestStepSettled = 0)
      (hopen : ch.refunded = false)
      (hescrow : ch.escrowRemaining = ch.deposit) (hwidth : ch.deposit ≤ u128Max)
      (hch : s'.channels = s.channels.insert id ch)
      (hroot : s.mandates.rootOf ch.state.mandate = .ok root)
      (hfunder : s.rootFunding[root]? = some funder)
      (hpaid : TakenFrom s s' funder ch.state.asset ch.deposit) :
      ChannelMove s s' [.channelOpened id ch.deposit]
  | settled {id : H} {ch : Channel H} {step : ℕ} (hget : s.channels[id]? = some ch)
      (hopen : ch.refunded = false) (hlow : ch.state.highestStepSettled < step)
      (hhigh : step ≤ ch.state.maxSteps)
      (hch : s'.channels = s.channels.insert id
        ⟨{ ch.state with highestStepSettled := step },
          ch.escrowRemaining - ch.state.unitPrice * (step - ch.state.highestStepSettled),
          ch.refunded⟩)
      (hpaid : PaidTo s s' ch.state.payee ch.state.asset
        (ch.state.unitPrice * (step - ch.state.highestStepSettled))) :
      ChannelMove s s' [.channelSettled id step
        (ch.state.unitPrice * (step - ch.state.highestStepSettled))]
  | refunded {id : H} {ch : Channel H} (hget : s.channels[id]? = some ch)
      (hopen : ch.refunded = false) (hch : s'.channels = s.channels.insert id ⟨ch.state, 0, true⟩)
      (hpaid : PaidTo s s' ch.state.payer ch.state.asset ch.escrowRemaining) :
      ChannelMove s s' [.channelRefunded id ch.escrowRemaining]

omit [HashSuite H] in
lemma ChannelMove.idle_of {s s' : State H} {ev : Event H} (hch : s'.channels = s.channels)
    (hev : ∀ id, ev.deposited id = 0 ∧ ev.paidOut id = 0 ∧ ev.givenBack id = 0) :
    ChannelMove s s' [ev] :=
  .idle hch fun id e he => by
    rw [List.mem_singleton] at he
    rw [he]
    exact hev id

omit [HashSuite H] in
/-- The move of a transaction is known from the channels and balances it ends with. -/
lemma ChannelMove.of_eq {s s₁ s' : State H} {evs : List (Event H)} (h : ChannelMove s s₁ evs)
    (hch : s'.channels = s₁.channels) (hb : s'.balances = s₁.balances) : ChannelMove s s' evs := by
  cases h with
  | idle hch₁ hevs => exact .idle (hch.trans hch₁) hevs
  | opened hnew hid hzero hopen hescrow hwidth hch₁ hroot hfunder hpaid =>
    exact .opened hnew hid hzero hopen hescrow hwidth (hch.trans hch₁) hroot hfunder
      (hpaid.of_balances hb)
  | settled hget hopen hlow hhigh hch₁ hpaid =>
    exact .settled hget hopen hlow hhigh (hch.trans hch₁) (hpaid.of_balances hb)
  | refunded hget hopen hch₁ hpaid =>
    exact .refunded hget hopen (hch.trans hch₁) (hpaid.of_balances hb)

/-- The body of a transaction moves a channel as its events say. -/
lemma channelMove_dispatch {s s' : State H} {sender : H} {tx : Tx H} {evs : List (Event H)}
    (h : dispatch sender tx s = (.ok evs, s')) : ChannelMove s s' evs := by
  cases tx with
  | transfer dst asset amount =>
    obtain ⟨-, -, -, rfl, rfl⟩ := doTransfer_eq_ok h
    exact .idle_of rfl fun _ => ⟨rfl, rfl, rfl⟩
  | mandateCreate id parent holder asset rate bufferMax perTxMax initial expiry tier =>
    obtain ⟨rfl, hc⟩ := doMandateCreate_eq_ok h
    refine .idle_of ?_ fun _ => ⟨rfl, rfl, rfl⟩
    rw [hc.result]
    cases parent <;> rfl
  | mandateSpend leaf dst amount =>
    obtain ⟨asset, funder, chain, t, -, -, -, rfl, rfl⟩ := doMandateSpend_eq_ok h
    exact .idle_of rfl fun _ => ⟨rfl, rfl, rfl⟩
  | mandateRevoke target =>
    obtain ⟨node, -, -, rfl, rfl⟩ := doMandateRevoke_eq_ok h
    exact .idle_of rfl fun _ => ⟨rfl, rfl, rfl⟩
  | channelOpen id mandate payee asset tip unitPrice maxSteps expiry =>
    obtain ⟨funder, chain, t, hdraw, hnew, -, -, hwidth, -, rfl, rfl⟩ := doChannelOpen_eq_ok h
    let ch : Channel H := ⟨⟨id, sender, payee, asset, mandate, tip, unitPrice, maxSteps, 0, expiry⟩,
      unitPrice * maxSteps, false⟩
    have hdeposit : ch.deposit ≤ u128Max := hwidth
    obtain ⟨root, hroot, hfunder, -⟩ := hdraw.funded
    have htaken := takenFrom_debited (s := s.setMandates t) hdraw.balance
    exact .opened hnew rfl rfl rfl rfl hdeposit rfl hroot hfunder
      ⟨htaken.taken, htaken.others⟩
  | channelSettle id word step =>
    obtain ⟨ch, hget, hopen, hlow, hhigh, hcovered, -, rfl, rfl⟩ := doChannelSettle_eq_ok h
    have hroom := balance_add_le_accounted hget hcovered ch.state.payee
    exact .settled hget hopen hlow hhigh rfl ((paidTo_credited hroom).of_balances rfl)
  | channelRefund id =>
    obtain ⟨ch, hget, hopen, -, -, -, rfl, rfl⟩ := doChannelRefund_eq_ok h
    have hroom := balance_add_le_accounted hget le_rfl ch.state.payer
    exact .refunded hget hopen rfl ((paidTo_credited hroom).of_balances rfl)
  | mintToPool asset value commitment proof ct =>
    obtain ⟨key, -, -, -, -, -, -, -, -, rfl, rfl⟩ := doMintToPool_eq_ok h
    exact .idle_of rfl fun _ => ⟨rfl, rfl, rfl⟩
  | shieldedSpend anchor nf out out2 fee creditTo mandate proof ct ct2 =>
    obtain ⟨key, pool, t, -, rfl, ⟨-, rfl⟩ | ⟨-, dst, asset, -, -, -, rfl⟩⟩ :=
      doShieldedSpend_eq_ok h
    · exact .idle_of rfl fun _ => ⟨rfl, rfl, rfl⟩
    · exact .idle_of rfl fun _ => ⟨rfl, rfl, rfl⟩
  | accountCreate id authCommit asset amount =>
    obtain ⟨-, -, rfl, ⟨-, rfl⟩ | ⟨-, -, -, rfl⟩⟩ := doAccountCreate_eq_ok h
    · exact .idle_of rfl fun _ => ⟨rfl, rfl, rfl⟩
    · exact .idle_of rfl fun _ => ⟨rfl, rfl, rfl⟩
  | assetRegister asset symbol decimals policy =>
    obtain ⟨-, -, rfl, rfl⟩ := doAssetRegister_eq_ok h
    exact .idle_of rfl fun _ => ⟨rfl, rfl, rfl⟩
  | assetMint asset dst amount =>
    obtain ⟨info, -, -, -, -, -, -, rfl, rfl⟩ := doAssetMint_eq_ok h
    exact .idle_of rfl fun _ => ⟨rfl, rfl, rfl⟩
  | assetBurn asset amount destination =>
    obtain ⟨info, -, -, -, -, rfl, rfl⟩ := doAssetBurn_eq_ok h
    exact .idle_of rfl fun _ => ⟨rfl, rfl, rfl⟩
  | assetFreeze asset account frozen =>
    obtain ⟨info, -, -, -, rfl, rfl⟩ := doAssetFreeze_eq_ok h
    exact .idle_of rfl fun _ => ⟨rfl, rfl, rfl⟩
  | assetPause asset paused =>
    obtain ⟨info, -, -, -, rfl, rfl⟩ := doAssetPause_eq_ok h
    exact .idle_of rfl fun _ => ⟨rfl, rfl, rfl⟩

/-! ## The books of a channel -/

/-- The books of a run: an absent channel moved nothing; a channel took its deposit, and what it
paid, gave back and still holds add up to it. -/
def ChannelBooks (ls : List (Elementary H)) (s : State H) (id : H) : Prop :=
  match s.channels[id]? with
  | none => eventSum (Event.deposited id) ls = 0 ∧ eventSum (Event.paidOut id) ls = 0 ∧
      eventSum (Event.givenBack id) ls = 0
  | some ch => ch.Sound ∧ eventSum (Event.deposited id) ls = ch.deposit ∧
      eventSum (Event.paidOut id) ls + eventSum (Event.givenBack id) ls + ch.escrowRemaining =
        ch.deposit

omit [HashSuite H] in
lemma ChannelBooks.of_channels {ls : List (Elementary H)} {s s' : State H} {id : H}
    (h : ChannelBooks ls s id) (hch : s'.channels[id]? = s.channels[id]?) :
    ChannelBooks ls s' id := by
  unfold ChannelBooks
  rw [hch]
  exact h

omit [HashSuite H] in
/-- A step whose events say nothing about a channel that it leaves alone keeps the books. -/
lemma ChannelBooks.quiet {ls : List (Elementary H)} {l : Elementary H} {s s' : State H} {id : H}
    (h : ChannelBooks ls s id) (hch : s'.channels[id]? = s.channels[id]?)
    (hevs : (l.events.map (Event.deposited id)).sum = 0 ∧
      (l.events.map (Event.paidOut id)).sum = 0 ∧ (l.events.map (Event.givenBack id)).sum = 0) :
    ChannelBooks (ls ++ [l]) s' id := by
  have hsame := h.of_channels hch
  unfold ChannelBooks at hsame ⊢
  simp only [eventSum_snoc, hevs.1, hevs.2.1, hevs.2.2, Nat.add_zero]
  exact hsame

omit [HashSuite H] in
/-- A move of the channels keeps the books. -/
lemma ChannelBooks.move {ls : List (Elementary H)} {s s' : State H} {stx : SignedTx H}
    {evs : List (Event H)} (hmove : ChannelMove s s' evs) {id : H} (h : ChannelBooks ls s id) :
    ChannelBooks (ls ++ [.tx stx evs]) s' id := by
  cases hmove with
  | idle hch hevs =>
    refine h.quiet (by rw [hch]) ⟨?_, ?_, ?_⟩
    all_goals
      refine List.sum_eq_zero fun x hx => ?_
      obtain ⟨ev, hev, rfl⟩ := List.mem_map.mp hx
    · exact (hevs id ev hev).1
    · exact (hevs id ev hev).2.1
    · exact (hevs id ev hev).2.2
  | @opened c _ _ ch hnew hid hzero hopen hescrow hwidth hch =>
    by_cases hc : c = id
    · subst hc
      have hget : s'.channels[c]? = some ch := by rw [hch]; simp
      unfold ChannelBooks at h ⊢
      rw [hnew] at h
      obtain ⟨hdep, hpaid, hback⟩ := h
      rw [hget]
      refine ⟨⟨?_, ?_, hwidth⟩, ?_, ?_⟩
      · rw [hzero]
        exact Nat.zero_le _
      · rw [hescrow, hopen, hzero, Nat.sub_zero]
        rfl
      · simp [eventSum_snoc, hdep, Elementary.events, Event.deposited]
      · simp [eventSum_snoc, hpaid, hback, hescrow, Elementary.events, Event.paidOut,
          Event.givenBack]
    · apply h.quiet (by rw [hch, OrderedMap.get_insert, if_neg hc])
      simp [Elementary.events, Event.deposited, Event.paidOut, Event.givenBack, hc]
  | @settled c ch step hget hopen hlow hhigh hch =>
    by_cases hc : c = id
    · subst hc
      unfold ChannelBooks at h ⊢
      rw [hget] at h
      obtain ⟨hsound, hdep, hsum⟩ := h
      have hcovers := (hsound.covers hopen hhigh).1
      rw [hch, OrderedMap.get_insert, if_pos rfl]
      refine ⟨hsound.settled hopen hlow hhigh, ?_, ?_⟩
      · simp only [eventSum_snoc, hdep, Elementary.events, List.map_cons, List.map_nil,
          Event.deposited, List.sum_cons, List.sum_nil, Nat.add_zero]
        rfl
      · simp only [eventSum_snoc, Elementary.events, List.map_cons, List.map_nil, Event.paidOut,
          Event.givenBack, List.sum_cons, List.sum_nil, if_true, Nat.add_zero]
        change _ = ch.deposit
        omega
    · apply h.quiet (by rw [hch, OrderedMap.get_insert, if_neg hc])
      simp [Elementary.events, Event.deposited, Event.paidOut, Event.givenBack, hc]
  | @refunded c ch hget hopen hch =>
    by_cases hc : c = id
    · subst hc
      unfold ChannelBooks at h ⊢
      rw [hget] at h
      obtain ⟨hsound, hdep, hsum⟩ := h
      rw [hch, OrderedMap.get_insert, if_pos rfl]
      refine ⟨⟨hsound.step, rfl, hsound.width⟩, ?_, ?_⟩
      · simp only [eventSum_snoc, hdep, Elementary.events, List.map_cons, List.map_nil,
          Event.deposited, List.sum_cons, List.sum_nil, Nat.add_zero]
        rfl
      · simp only [eventSum_snoc, Elementary.events, List.map_cons, List.map_nil, Event.paidOut,
          Event.givenBack, List.sum_cons, List.sum_nil, if_true, Nat.add_zero]
        change _ = ch.deposit
        omega
    · apply h.quiet (by rw [hch, OrderedMap.get_insert, if_neg hc])
      simp [Elementary.events, Event.deposited, Event.paidOut, Event.givenBack, hc]

/-- The channel after some steps: the same terms, no fewer settled steps, and nothing at all once it
is refunded. -/
structure ChannelLater (ch ch' : Channel H) : Prop where
  terms : ch'.state = { ch.state with highestStepSettled := ch'.state.highestStepSettled }
  step : ch.state.highestStepSettled ≤ ch'.state.highestStepSettled
  absorbed : ch.refunded = true → ch' = ch

omit [LinearOrder H] [HashSuite H] in
lemma ChannelLater.refl (ch : Channel H) : ChannelLater ch ch := ⟨rfl, le_rfl, fun _ => rfl⟩

omit [LinearOrder H] [HashSuite H] in
lemma ChannelLater.trans {ch ch₁ ch₂ : Channel H} (h₁ : ChannelLater ch ch₁)
    (h₂ : ChannelLater ch₁ ch₂) : ChannelLater ch ch₂ := by
  refine ⟨?_, h₁.step.trans h₂.step, fun hr => ?_⟩
  · rw [h₂.terms, h₁.terms]
  · have heq := h₁.absorbed hr
    subst heq
    exact h₂.absorbed hr

/-- The transaction settles or refunds the channel. -/
def Closes (id : H) : Tx H → Prop
  | .channelSettle c _ _ => c = id
  | .channelRefund c => c = id
  | _ => False

omit [HashSuite H] in
lemma ChannelMove.later {s s' : State H} {evs : List (Event H)} (hmove : ChannelMove s s' evs)
    {id : H} {ch : Channel H} (hget : s.channels[id]? = some ch) :
    ∃ ch', s'.channels[id]? = some ch' ∧ ChannelLater ch ch' := by
  cases hmove with
  | idle hch => exact ⟨ch, by rw [hch, hget], .refl ch⟩
  | @opened c _ _ _ hnew _ _ _ _ _ hch =>
    have hc : c ≠ id := by
      rintro rfl
      rw [hnew] at hget
      cases hget
    exact ⟨ch, by rw [hch, OrderedMap.get_insert, if_neg hc, hget], .refl ch⟩
  | @settled c ch₀ step hget₀ hopen hlow hhigh hch =>
    by_cases hc : c = id
    · subst hc
      rw [hget] at hget₀
      cases hget₀
      have hnew : s'.channels[c]? = some ⟨{ ch.state with highestStepSettled := step },
          ch.escrowRemaining - ch.state.unitPrice * (step - ch.state.highestStepSettled),
          ch.refunded⟩ := by
        rw [hch, OrderedMap.get_insert, if_pos rfl]
      refine ⟨_, hnew, rfl, hlow.le, fun hr => ?_⟩
      rw [hopen] at hr
      cases hr
    · exact ⟨ch, by rw [hch, OrderedMap.get_insert, if_neg hc, hget], .refl ch⟩
  | @refunded c ch₀ hget₀ hopen hch =>
    by_cases hc : c = id
    · subst hc
      rw [hget] at hget₀
      cases hget₀
      have hnew : s'.channels[c]? = some ⟨ch.state, 0, true⟩ := by
        rw [hch, OrderedMap.get_insert, if_pos rfl]
      refine ⟨_, hnew, rfl, le_rfl, fun hr => ?_⟩
      rw [hopen] at hr
      cases hr
    · exact ⟨ch, by rw [hch, OrderedMap.get_insert, if_neg hc, hget], .refl ch⟩

/-- A refunded channel is settled or refunded no more. -/
lemma not_closes_dispatch {s s' : State H} {sender : H} {tx : Tx H} {evs : List (Event H)}
    (h : dispatch sender tx s = (.ok evs, s')) {id : H} {ch : Channel H}
    (hget : s.channels[id]? = some ch) (hr : ch.refunded = true) : ¬ Closes id tx := by
  intro hcloses
  cases tx with
  | channelSettle c word step =>
    obtain rfl : c = id := hcloses
    obtain ⟨ch', hget', hopen, -⟩ := doChannelSettle_eq_ok h
    rw [hget] at hget'
    cases hget'
    rw [hopen] at hr
    cases hr
  | channelRefund c =>
    obtain rfl : c = id := hcloses
    obtain ⟨ch', hget', hopen, -⟩ := doChannelRefund_eq_ok h
    rw [hget] at hget'
    cases hget'
    rw [hopen] at hr
    cases hr
  | _ => exact hcloses

omit [HashSuite H] in
/-- The channels of the state that a body sees are those before the envelope. -/
lemma channels_feeCharged (s : State H) (sender : H) :
    (s.feeCharged sender).channels = s.channels := by
  rw [feeCharged_eq]

variable [TxCodec H]

/-- A transaction of a run moves a channel as its events say: the fee apart, it moves the balances
by the amounts of the events. -/
lemma channelMove_applyTxAt {s s' : State H} {stx : SignedTx H} {preSig : Option Bool}
    {evs : List (Event H)} (h : applyTxAt stx preSig s = (.ok evs, s')) :
    ChannelMove (s.feeCharged stx.sender) s' evs := by
  obtain ⟨s₁, henv⟩ := applyTxAt_eq_ok h
  obtain ⟨acc, -, -, rfl⟩ := henv.ratchet
  exact (channelMove_dispatch henv.body).of_eq rfl rfl

/-- What one step of a run does to the channels. -/
lemma ChannelBooks.elemStep {ls : List (Elementary H)} {s s' : State H} {l : Elementary H}
    (h : ∀ id, ChannelBooks ls s id) (hstep : ElemStep s l s') (id : H) :
    ChannelBooks (ls ++ [l]) s' id := by
  cases hstep with
  | openBlock => exact (h id).quiet rfl ⟨rfl, rfl, rfl⟩
  | closeBlock => exact (h id).quiet rfl ⟨rfl, rfl, rfl⟩
  | cover => exact (h id).quiet rfl ⟨rfl, rfl, rfl⟩
  | @tx _ stx _ _ htx =>
    have hcharged : ChannelBooks ls (s.feeCharged stx.sender) id :=
      (h id).of_channels (by rw [channels_feeCharged])
    exact hcharged.move (channelMove_applyTxAt htx)

lemma later_elemStep {s s' : State H} {l : Elementary H} (hstep : ElemStep s l s') {id : H}
    {ch : Channel H} (hget : s.channels[id]? = some ch) :
    (∃ ch', s'.channels[id]? = some ch' ∧ ChannelLater ch ch') ∧
      (ch.refunded = true → ∀ tx, l.payload = some tx → ¬ Closes id tx) := by
  cases hstep with
  | openBlock => exact ⟨⟨ch, hget, .refl ch⟩, fun _ tx htx => by cases htx⟩
  | closeBlock => exact ⟨⟨ch, hget, .refl ch⟩, fun _ tx htx => by cases htx⟩
  | cover => exact ⟨⟨ch, hget, .refl ch⟩, fun _ tx htx => by cases htx⟩
  | @tx _ stx _ _ htx =>
    obtain ⟨s₁, henv⟩ := applyTxAt_eq_ok htx
    have hcharged : (s.feeCharged stx.sender).channels[id]? = some ch := by
      rw [channels_feeCharged, hget]
    refine ⟨(channelMove_applyTxAt htx).later hcharged, fun hr tx hpayload => ?_⟩
    cases hpayload
    exact not_closes_dispatch henv.body hcharged hr

/-- The channel along a run. -/
lemma later_of_path {s s' : State H} {ls : List (Elementary H)} (hpath : Path ElemStep s ls s')
    {id : H} {ch : Channel H} (hget : s.channels[id]? = some ch) :
    (∃ ch', s'.channels[id]? = some ch' ∧ ChannelLater ch ch') ∧
      (ch.refunded = true → ∀ l ∈ ls, ∀ tx, l.payload = some tx → ¬ Closes id tx) := by
  have halong : Path.Along ElemStep s ls fun _ _ => True := fun _ _ _ _ _ => trivial
  refine hpath.invariant_along
    (I := fun ls s' => (∃ ch', s'.channels[id]? = some ch' ∧ ChannelLater ch ch') ∧
      (ch.refunded = true → ∀ l ∈ ls, ∀ tx, l.payload = some tx → ¬ Closes id tx))
    halong ⟨⟨ch, hget, .refl ch⟩, fun _ l hl => by cases hl⟩ ?_
  rintro pre l s₁ s₂ ⟨⟨ch₁, hget₁, hlater₁⟩, hno⟩ - hstep
  obtain ⟨⟨ch₂, hget₂, hlater₂⟩, hno₂⟩ := later_elemStep hstep hget₁
  refine ⟨⟨ch₂, hget₂, hlater₁.trans hlater₂⟩, fun hr l' hl' => ?_⟩
  rcases List.mem_append.mp hl' with hl' | hl'
  · exact hno hr l' hl'
  · rw [List.mem_singleton] at hl'
    subst hl'
    exact hno₂ (by rw [hlater₁.absorbed hr, hr])

omit [TxCodec H] [HashSuite H] in
lemma assetGate_ne_overflow {s : State H} {asset : H} {src dst : Option H} {e : StateError}
    (h : s.assetGate asset src dst = .error e) : e ≠ .overflow := by
  unfold assetGate at h
  split at h
  · split at h
    · cases h
      simp
    · split at h
      · cases h
        simp
      · cases h
  · cases h

omit [TxCodec H] in
/-- The arithmetic of a settlement is safe on a sound channel: the product fits its width, so a
settlement is neither refused for an overflow nor stopped by a negative escrow. -/
lemma safe_doChannelSettle {s : State H} {cid : H}
    (hs : ∀ ch, s.channels[cid]? = some ch → ch.Sound) (word : H) (step : ℕ) :
    (doChannelSettle cid word step).Safe s (· ≠ .overflow) := by
  refine Exec.Safe.bind ⟨by simp [Exec.get], Exec.infallible_get.refuses s _⟩ fun _ _ h => ?_
  obtain ⟨rfl, rfl⟩ := Exec.get_eq_ok.mp h
  refine (Exec.safe_okOr s fun _ => by simp).bind fun ch _ h => ?_
  obtain ⟨hch, rfl⟩ := Exec.okOr_eq_ok.mp h
  refine (Exec.safe_rejectIf s fun _ => by simp).bind fun _ _ h => ?_
  obtain ⟨hopen, rfl⟩ := Exec.rejectIf_eq_ok.mp h
  refine (Exec.safe_rejectIf s fun _ => by simp).bind fun _ _ h => ?_
  obtain ⟨hstep, rfl⟩ := Exec.rejectIf_eq_ok.mp h
  refine (Exec.safe_rejectIf s fun _ => by simp).bind fun _ _ h => ?_
  obtain ⟨-, rfl⟩ := Exec.rejectIf_eq_ok.mp h
  refine (Exec.safe_rejectIf s fun _ => by simp).bind fun _ _ h => ?_
  obtain ⟨-, rfl⟩ := Exec.rejectIf_eq_ok.mp h
  have hmax : step ≤ ch.state.maxSteps := by omega
  have hcovers := (hs ch hch).covers (by simpa using hopen) hmax
  have hmul : checkedMul u128Max ch.state.unitPrice (step - ch.state.highestStepSettled) =
      some (ch.state.unitPrice * (step - ch.state.highestStepSettled)) :=
    checkedMul_eq_some.mpr ⟨hcovers.2, rfl⟩
  refine (Exec.safe_okOr s fun hnone => ?_).bind fun paid _ h => ?_
  · rw [hmul] at hnone
    cases hnone
  obtain ⟨hpaid, rfl⟩ := Exec.okOr_eq_ok.mp h
  obtain rfl := Option.some.inj (hpaid.symm.trans hmul)
  refine Exec.Safe.bind (Exec.safe_ofExcept s fun e he => ?_) fun _ _ h => ?_
  · exact assetGate_ne_overflow he
  obtain ⟨-, rfl⟩ := Exec.ofExcept_eq_ok.mp h
  refine (Exec.safe_unwrap (checkedSub_eq_some.mpr ⟨hcovers.1, rfl⟩) s _).bind fun _ _ _ => ?_
  refine (Exec.safe_modify _ _ _).bind fun _ _ _ => ?_
  exact (Exec.safe_modify _ _ _).bind fun _ _ _ => Exec.safe_pure _ _ _

/-- The amounts in the events of a step are what the step, its fee apart, took from the funder of a
channel's mandate, paid to its merchant or gave back to its payer. -/
def EventsPay (s : State H) (l : Elementary H) : Prop :=
  ∀ stx evs s', l = .tx stx evs → ElemStep s l s' → ChannelMove (s.feeCharged stx.sender) s' evs

/-- **The life of a channel.**  Along every run and for every channel: the settled step is within
the channel, the escrow is the price of the steps still to settle until the refund and nothing
afterwards; what the run paid out, gave back and still holds adds up to the deposit taken at the
opening, and each of these amounts left or reached a balance in the step that reports it; on every
continuation of the run the settled step does not decrease and, once refunded, the channel stays as
it is and is neither settled nor refunded again; and the arithmetic of a settlement neither
overflows nor underflows. -/
theorem channel_lifecycle {g : Genesis H} {s₀ s : State H} {steps : List (List (Elementary H))}
    (hinit : Initial g s₀) (hpath : Path BlockStep s₀ steps s) :
    (∀ (id : H) ch, s.channels[id]? = some ch →
      ch.state.highestStepSettled ≤ ch.state.maxSteps ∧
      ch.escrowRemaining = (if ch.refunded then 0
        else ch.state.unitPrice * (ch.state.maxSteps - ch.state.highestStepSettled)) ∧
      eventSum (Event.deposited id) steps.flatten = ch.state.unitPrice * ch.state.maxSteps ∧
      eventSum (Event.paidOut id) steps.flatten + eventSum (Event.givenBack id) steps.flatten +
        ch.escrowRemaining = eventSum (Event.deposited id) steps.flatten) ∧
    Path.Along ElemStep s₀ steps.flatten EventsPay ∧
    (∀ s' steps', Path BlockStep s steps' s' → ∀ (id : H) ch, s.channels[id]? = some ch →
      (∃ ch', s'.channels[id]? = some ch' ∧
        ch.state.highestStepSettled ≤ ch'.state.highestStepSettled ∧
        (ch.refunded = true → ch' = ch)) ∧
      (ch.refunded = true → ∀ l ∈ steps'.flatten, ∀ tx, l.payload = some tx → ¬ Closes id tx)) ∧
    ∀ id word step, (doChannelSettle id word step s).1 ≠ .fault ∧
      (doChannelSettle id word step s).1 ≠ .err .overflow := by
  have hrun := elemPath hinit.fresh.fits hpath
  have hstart : ∀ id, ChannelBooks [] s₀ id := by
    intro id
    simp [ChannelBooks, hinit.fresh.channels, eventSum]
  have halong : Path.Along ElemStep s₀ steps.flatten fun _ _ => True := fun _ _ _ _ _ => trivial
  have hbooks : ∀ id, ChannelBooks steps.flatten s id :=
    hrun.invariant_along (I := fun ls s => ∀ id, ChannelBooks ls s id) halong hstart
      fun _ _ _ _ h _ hstep => ChannelBooks.elemStep h hstep
  have hfits : s.Fits := hrun.invariant hinit.fresh.fits fun _ _ _ _ hf hstep => hf.elemStep hstep
  have hchannel : ∀ (id : H) ch, s.channels[id]? = some ch → ch.Sound ∧
      eventSum (Event.deposited id) steps.flatten = ch.deposit ∧
      eventSum (Event.paidOut id) steps.flatten + eventSum (Event.givenBack id) steps.flatten +
        ch.escrowRemaining = ch.deposit := by
    intro id ch hget
    have hbook := hbooks id
    unfold ChannelBooks at hbook
    rw [hget] at hbook
    exact hbook
  refine ⟨fun id ch hget => ?_, fun pre l s₁ _ _ stx evs s₂ hl hstep => ?_,
    fun s' steps' hpath' id ch hget => ?_, fun id word step => ?_⟩
  · obtain ⟨hsound, hdep, hsum⟩ := hchannel id ch hget
    exact ⟨hsound.step, hsound.escrow, hdep, hsum.trans hdep.symm⟩
  · subst hl
    cases hstep with
    | tx htx => exact channelMove_applyTxAt htx
  · obtain ⟨⟨ch', hget', hlater⟩, hclosed⟩ := later_of_path (elemPath hfits hpath') hget
    exact ⟨⟨ch', hget', hlater.step, hlater.absorbed⟩, hclosed⟩
  · have hsafe := safe_doChannelSettle (fun ch hget => (hchannel id ch hget).1) word step
    exact ⟨hsafe.1, fun h => hsafe.2 .overflow h rfl⟩

end State

namespace Concrete

open State

/-- A chain of two words. -/
def twoWords : ℕ := Payword.link (Payword.link 77)

/-- The channel of the agent to a merchant. -/
def twoSteps : ℕ := deriveChannelId 2 3 twoWords 0

/-- The agent opens a channel of two steps at two units each, out of the organisation's budget. -/
def openBlock : List (SignedTx ℕ) :=
  [signed [2] 2 0 (.channelOpen twoSteps 100 3 7 twoWords 2 2 20)]

/-- The first step is settled. -/
def settleBlock : List (SignedTx ℕ) :=
  [signed [1] 1 1 (.channelSettle twoSteps (Payword.link 77) 1)]

/-- When the channel has expired, the agent takes back the rest. -/
def refundBlock : List (SignedTx ℕ) := [signed [2] 2 1 (.channelRefund twoSteps)]

/-- The state after the opening. -/
def channelOpened : State ℕ :=
  (applyBlockVerified 2 12 openBlock (some (openBlock.map fun _ => true)) granted).2

/-- The state after the settlement. -/
def channelSettled : State ℕ :=
  (applyBlockVerified 3 12 settleBlock (some (settleBlock.map fun _ => true)) channelOpened).2

/-- The state after the refund. -/
def channelRefunded : State ℕ :=
  (applyBlockVerified 4 20 refundBlock (some (refundBlock.map fun _ => true)) channelSettled).2

/-- What evaluation shows: the receipts of the three blocks, the channel at the end, and the balances
of the organisation, the merchant and the agent. -/
lemma twoSteps_facts :
    (applyBlockVerified 2 12 openBlock (some (openBlock.map fun _ => true)) granted).1 =
        .ok [⟨0, .ok [.channelOpened twoSteps 4]⟩] ∧
      (applyBlockVerified 3 12 settleBlock (some (settleBlock.map fun _ => true)) channelOpened).1 =
        .ok [⟨0, .ok [.channelSettled twoSteps 1 2]⟩] ∧
      (applyBlockVerified 4 20 refundBlock (some (refundBlock.map fun _ =>
        true)) channelSettled).1 =
        .ok [⟨0, .ok [.channelRefunded twoSteps 2]⟩] ∧
      (channelRefunded.channels[twoSteps]?).any (fun ch => ch.refunded = true) = true ∧
      channelRefunded.balance 1 7 = 6 ∧ channelRefunded.balance 3 7 = 2 ∧
      channelRefunded.balance 2 7 = 2 := by
  decide +kernel

lemma channelOpened_step : BlockStep granted
    (blockSteps ⟨2, 12, openBlock, none⟩ [⟨0, .ok [.channelOpened twoSteps 4]⟩]) channelOpened := by
  have hstep := blockStep_of_outcome (by simp [openBlock, verifyEnvelope_signed]) twoSteps_facts.1
  rwa [← channelOpened] at hstep

lemma channelSettled_step : BlockStep channelOpened
    (blockSteps ⟨3, 12, settleBlock, none⟩ [⟨0, .ok [.channelSettled twoSteps 1 2]⟩])
    channelSettled := by
  have hstep := blockStep_of_outcome (by simp [settleBlock, verifyEnvelope_signed])
    twoSteps_facts.2.1
  rwa [← channelSettled] at hstep

/-- Of ten units, four go into the channel, two of them to the merchant and two back to the
agent. -/
theorem twoSteps_settled_refunded : ∃ steps ch,
    Path BlockStep (start mandateGenesis config) steps channelRefunded ∧
      channelRefunded.channels[twoSteps]? = some ch ∧ ch.refunded = true ∧ ch.escrowRemaining = 0 ∧
      eventSum (Event.paidOut twoSteps) steps.flatten = 2 ∧
      eventSum (Event.paidOut twoSteps) steps.flatten +
        eventSum (Event.givenBack twoSteps) steps.flatten + ch.escrowRemaining =
          eventSum (Event.deposited twoSteps) steps.flatten ∧
      Path.Along ElemStep (start mandateGenesis config) steps.flatten EventsPay ∧
      channelRefunded.balance 1 7 = 6 ∧ channelRefunded.balance 3 7 = 2 ∧
      channelRefunded.balance 2 7 = 2 := by
  obtain ⟨-, -, hrefund, hclosed, hbalances⟩ := twoSteps_facts
  have hrefundStep := blockStep_of_outcome (by simp [refundBlock, verifyEnvelope_signed]) hrefund
  rw [← channelRefunded] at hrefundStep
  have hpath := (((Path.single granted_step).snoc channelOpened_step).snoc
    channelSettled_step).snoc hrefundStep
  obtain ⟨ch, hch, hrefunded⟩ := (Option.any_eq_true _ _).mp hclosed
  have hdone := of_decide_eq_true hrefunded
  obtain ⟨hchannel, hpays, -⟩ := channel_lifecycle initial_mandateGenesis hpath
  obtain ⟨-, hescrow, -, hsum⟩ := hchannel twoSteps ch hch
  rw [if_pos hdone] at hescrow
  exact ⟨_, ch, hpath, hch, hdone, hescrow, rfl, hsum, hpays, hbalances⟩

end Concrete

end HashKinetics
