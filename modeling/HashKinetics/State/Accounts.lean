import HashKinetics.State.Run

/-!
# Replay protection and the permanence of accounts

A successful transaction consumes the key its account had committed to, commits to the next one and
advances the nonce; a refused one does neither; the only other write to the account table adds an
account that was not there.  Over whole runs this gives replay protection: nonces count successes,
so no signed transaction succeeds twice.
-/

namespace HashKinetics

open Foundations

/-- The signed transaction of an elementary step, if it is one. -/
def Elementary.signed {H : Type} [LinearOrder H] : Elementary H → Option (SignedTx H)
  | .tx stx _ => some stx
  | _ => none

namespace State

variable {H : Type} [LinearOrder H]

/-- The signed transactions that succeeded, in order. -/
def succeeded (ls : List (Elementary H)) : List (SignedTx H) := ls.filterMap Elementary.signed

/-- How many transactions of an account succeeded. -/
def successesOf (id : H) (ls : List (Elementary H)) : ℕ :=
  (succeeded ls).countP fun stx => stx.sender = id

lemma succeeded_append (ls ls' : List (Elementary H)) :
    succeeded (ls ++ ls') = succeeded ls ++ succeeded ls' :=
  List.filterMap_append

variable [HashSuite H]

/-! ## One transaction -/

/-- A transaction body leaves the accounts alone or adds one that was not there. -/
lemma accounts_dispatch {s s' : State H} {sender : H} {tx : Tx H} {evs : List (Event H)}
    (h : dispatch sender tx s = (.ok evs, s')) :
    s'.accounts = s.accounts ∨ ∃ id auth asset amount, tx = .accountCreate id auth asset amount ∧
      s.accounts[id]? = none ∧ s'.accounts = s.accounts.insert id ⟨auth, 0⟩ := by
  cases tx with
  | accountCreate id authCommit asset amount =>
    obtain ⟨-, hnew, -, ⟨-, rfl⟩ | ⟨-, -, -, rfl⟩⟩ := doAccountCreate_eq_ok h
    · exact .inr ⟨id, authCommit, asset, amount, rfl, hnew, rfl⟩
    · exact .inr ⟨id, authCommit, asset, amount, rfl, hnew, rfl⟩
  | transfer dst asset amount =>
    obtain ⟨-, -, -, -, rfl⟩ := doTransfer_eq_ok h
    exact .inl rfl
  | mandateCreate id parent holder asset rate bufferMax perTxMax initial expiry tier =>
    obtain ⟨-, hc⟩ := doMandateCreate_eq_ok h
    rw [hc.result]
    cases parent <;> exact .inl rfl
  | mandateSpend leaf dst amount =>
    obtain ⟨asset, funder, chain, t, -, -, -, -, rfl⟩ := doMandateSpend_eq_ok h
    exact .inl rfl
  | mandateRevoke target =>
    obtain ⟨node, -, -, -, rfl⟩ := doMandateRevoke_eq_ok h
    exact .inl rfl
  | channelOpen id mandate payee asset tip unitPrice maxSteps expiry =>
    obtain ⟨funder, chain, t, -, -, -, -, -, -, -, rfl⟩ := doChannelOpen_eq_ok h
    exact .inl rfl
  | channelSettle id word step =>
    obtain ⟨ch, -, -, -, -, -, -, -, rfl⟩ := doChannelSettle_eq_ok h
    exact .inl rfl
  | channelRefund id =>
    obtain ⟨ch, -, -, -, -, -, -, rfl⟩ := doChannelRefund_eq_ok h
    exact .inl rfl
  | mintToPool asset value commitment proof ct =>
    obtain ⟨key, -, -, -, -, -, -, -, -, -, rfl⟩ := doMintToPool_eq_ok h
    exact .inl rfl
  | shieldedSpend anchor nf out out2 fee creditTo mandate proof ct ct2 =>
    obtain ⟨key, pool, t, -, -, ⟨-, rfl⟩ | ⟨-, dst, asset, -, -, -, rfl⟩⟩ := doShieldedSpend_eq_ok h
      <;> exact .inl rfl
  | assetRegister asset symbol decimals policy =>
    obtain ⟨-, -, -, rfl⟩ := doAssetRegister_eq_ok h
    exact .inl rfl
  | assetMint asset dst amount =>
    obtain ⟨info, -, -, -, -, -, -, -, rfl⟩ := doAssetMint_eq_ok h
    exact .inl rfl
  | assetBurn asset amount destination =>
    obtain ⟨info, -, -, -, -, -, rfl⟩ := doAssetBurn_eq_ok h
    exact .inl rfl
  | assetFreeze asset account frozen =>
    obtain ⟨info, -, -, -, -, rfl⟩ := doAssetFreeze_eq_ok h
    exact .inl rfl
  | assetPause asset paused =>
    obtain ⟨info, -, -, -, -, rfl⟩ := doAssetPause_eq_ok h
    exact .inl rfl

/-- What a successful transaction does to the account table: the sender's key is the committed one
and is ratcheted, every other account stays as it is, and a new account starts at nonce zero. -/
structure Ratchets (s : State H) (stx : SignedTx H) (s' : State H) : Prop where
  sender : ∃ acc, s.accounts[stx.sender]? = some acc ∧ stx.nonce = acc.nonce ∧
    Lamport.pkCommit stx.lamportPk = acc.authCommit ∧
    s'.accounts[stx.sender]? = some ⟨stx.nextAuth, acc.nonce + 1⟩
  others : ∀ (id : H) (acc : Account H), id ≠ stx.sender → s.accounts[id]? = some acc →
    s'.accounts[id]? = some acc
  created : ∀ (id : H) (acc : Account H), s.accounts[id]? = none → s'.accounts[id]? = some acc →
    acc.nonce = 0 ∧ ∃ asset amount, stx.payload = .accountCreate id acc.authCommit asset amount

variable [TxCodec H]

lemma ratchets_of_applyTxAt {s s' : State H} {stx : SignedTx H} {preSig : Option Bool}
    {evs : List (Event H)} (h : applyTxAt stx preSig s = (.ok evs, s')) : Ratchets s stx s' := by
  obtain ⟨s₁, henv⟩ := applyTxAt_eq_ok h
  obtain ⟨acc, hacc, hnonce, hauth⟩ := henv.account
  obtain ⟨acc₁, hacc₁, -, rfl⟩ := henv.ratchet
  have hfee : (s.feeCharged stx.sender).accounts = s.accounts := by rw [feeCharged_eq]
  have hbody := accounts_dispatch henv.body
  rw [hfee] at hbody
  -- the body keeps every account that was there
  have hkeep : ∀ (id : H) (a : Account H), s.accounts[id]? = some a →
    s₁.accounts[id]? = some a := by
    intro id a ha
    rcases hbody with hsame | ⟨id', auth, -, -, -, hnew, hins⟩
    · rwa [hsame]
    · rw [hins, OrderedMap.get_insert, if_neg, ha]
      rintro rfl
      simp [ha] at hnew
  obtain rfl : acc₁ = acc := Option.some.inj (hacc₁.symm.trans (hkeep _ _ hacc))
  refine ⟨⟨acc₁, hacc, hnonce, hauth, ?_⟩, ?_, ?_⟩
  · simp
  · intro id a hne ha
    simpa [OrderedMap.get_insert, hne.symm] using hkeep id a ha
  · intro id a hnone ha
    have hne : stx.sender ≠ id := by
      rintro rfl
      simp [hacc] at hnone
    simp only [setAccount_accounts, feeBurned_accounts, OrderedMap.get_insert, hne, if_false] at ha
    rcases hbody with hsame | ⟨id', auth, asset, amount, htx, -, hins⟩
    · rw [hsame, hnone] at ha
      cases ha
    · rw [hins, OrderedMap.get_insert, hnone] at ha
      split_ifs at ha with hid
      cases ha
      exact ⟨rfl, asset, amount, by rw [htx, hid]⟩

/-- What an elementary step does to the account table. -/
def AccountStep (s : State H) (l : Elementary H) (s' : State H) : Prop :=
  match l with
  | .tx stx _ => Ratchets s stx s'
  | _ => s'.accounts = s.accounts

lemma ElemStep.accountStep {s s' : State H} {l : Elementary H} (h : ElemStep s l s') :
    AccountStep s l s' := by
  cases h with
  | openBlock => rfl
  | tx h => exact ratchets_of_applyTxAt h
  | closeBlock => rfl
  | cover => rfl

/-- An account that is there stays there. -/
lemma ElemStep.exists_account {s s' : State H} {l : Elementary H} (h : ElemStep s l s') {id : H}
    {acc : Account H} (hacc : s.accounts[id]? = some acc) :
    ∃ acc' : Account H, s'.accounts[id]? = some acc' ∧ acc.nonce ≤ acc'.nonce := by
  have hstep := h.accountStep
  cases l with
  | tx stx evs =>
    by_cases hid : id = stx.sender
    · obtain ⟨acc₀, hacc₀, -, -, hacc'⟩ := hstep.sender
      rw [hid] at hacc ⊢
      obtain rfl : acc = acc₀ := Option.some.inj (hacc.symm.trans hacc₀)
      exact ⟨_, hacc', Nat.le_succ _⟩
    · exact ⟨acc, hstep.others id acc hid hacc, le_rfl⟩
  | _ =>
    have hsame : s'.accounts = s.accounts := hstep
    exact ⟨acc, by rwa [hsame], le_rfl⟩

/-! ## Runs -/

/-- Nonces count successes, and every success lies behind its sender's nonce. -/
structure Counted (ls : List (Elementary H)) (s : State H) : Prop where
  nodup : (succeeded ls).Nodup
  behind : ∀ stx ∈ succeeded ls, ∃ acc : Account H, s.accounts[stx.sender]? = some acc ∧
    stx.nonce < acc.nonce
  nonce : ∀ (id : H) (acc : Account H), s.accounts[id]? = some acc →
    acc.nonce = successesOf id ls
  absent : ∀ id : H, s.accounts[id]? = none → successesOf id ls = 0

omit [HashSuite H] [TxCodec H] in
lemma Counted.of_accounts {ls : List (Elementary H)} {l : Elementary H} {s s' : State H}
    (h : Counted ls s) (hl : l.signed = none) (hsame : s'.accounts = s.accounts) :
    Counted (ls ++ [l]) s' := by
  have hsucc : succeeded (ls ++ [l]) = succeeded ls := by simp [succeeded, hl]
  have hcount : ∀ id, successesOf id (ls ++ [l]) = successesOf id ls := by
    intro id
    rw [successesOf, hsucc, successesOf]
  refine ⟨by rw [hsucc]; exact h.nodup, ?_, ?_, ?_⟩
  · rw [hsucc, hsame]
    exact h.behind
  · intro id acc hacc
    rw [hcount]
    exact h.nonce id acc (hsame ▸ hacc)
  · intro id hnone
    rw [hcount]
    exact h.absent id (hsame ▸ hnone)

omit [TxCodec H] in
lemma Counted.of_ratchets {ls : List (Elementary H)} {stx : SignedTx H} {evs : List (Event H)}
    {s s' : State H} (h : Counted ls s) (hr : Ratchets s stx s') :
    Counted (ls ++ [.tx stx evs]) s' := by
  obtain ⟨acc, hacc, hnonce, -, hacc'⟩ := hr.sender
  have hsucc : succeeded (ls ++ [.tx stx evs]) = succeeded ls ++ [stx] := by
    simp [succeeded, Elementary.signed]
  have hcount : ∀ id, successesOf id (ls ++ [.tx stx evs]) =
      successesOf id ls + if stx.sender = id then 1 else 0 := by
    intro id
    simp [successesOf, hsucc, List.countP_singleton]
  refine ⟨?_, ?_, ?_, ?_⟩
  · -- an earlier success of the same transaction lies behind the nonce it needs now
    rw [hsucc]
    refine List.nodup_append.mpr ⟨h.nodup, List.nodup_singleton _, ?_⟩
    rintro a ha b hb rfl
    obtain rfl := List.mem_singleton.mp hb
    obtain ⟨acc₀, hacc₀, hlt⟩ := h.behind a ha
    obtain rfl : acc = acc₀ := Option.some.inj (hacc.symm.trans hacc₀)
    omega
  · rw [hsucc]
    intro a ha
    rcases List.mem_append.mp ha with ha | ha
    · obtain ⟨acc₀, hacc₀, hlt⟩ := h.behind a ha
      by_cases hid : a.sender = stx.sender
      · rw [hid] at hacc₀ ⊢
        obtain rfl : acc = acc₀ := Option.some.inj (hacc.symm.trans hacc₀)
        exact ⟨_, hacc', Nat.lt_succ_of_lt hlt⟩
      · exact ⟨acc₀, hr.others _ _ hid hacc₀, hlt⟩
    · obtain rfl := List.mem_singleton.mp ha
      exact ⟨_, hacc', by simp only; omega⟩
  · intro id a ha
    rw [hcount]
    by_cases hid : stx.sender = id
    · subst hid
      rw [hacc'] at ha
      cases ha
      simp [h.nonce _ _ hacc]
    · rw [if_neg hid, Nat.add_zero]
      cases hbefore : s.accounts[id]? with
      | some a₀ =>
        rw [hr.others id a₀ (Ne.symm hid) hbefore] at ha
        cases ha
        exact h.nonce id _ hbefore
      | none =>
        rw [(hr.created id a hbefore ha).1]
        exact (h.absent id hbefore).symm
  · intro id hnone
    rw [hcount]
    have hid : stx.sender ≠ id := by
      rintro rfl
      rw [hacc'] at hnone
      cases hnone
    rw [if_neg hid, Nat.add_zero]
    cases hbefore : s.accounts[id]? with
    | some a₀ =>
      rw [hr.others id a₀ (Ne.symm hid) hbefore] at hnone
      cases hnone
    | none => exact h.absent id hbefore

lemma Counted.elemStep {ls : List (Elementary H)} {l : Elementary H} {s s' : State H}
    (h : Counted ls s) (hstep : ElemStep s l s') : Counted (ls ++ [l]) s' := by
  have hacc := hstep.accountStep
  cases l with
  | tx stx evs => exact h.of_ratchets hacc
  | _ => exact h.of_accounts rfl hacc

omit [TxCodec H] in
/-- Genesis accounts start at nonce zero. -/
lemma Initial.nonce_eq_zero {g : Genesis H} {s : State H} (h : Initial g s) {id : H}
    {acc : Account H} (hacc : s.accounts[id]? = some acc) : acc.nonce = 0 := by
  obtain ⟨s₀, c, hg, rfl⟩ := h
  obtain ⟨s₁, s₂, h₁, h₂, -, rfl⟩ := fromGenesis_eq_ok hg
  let I : State H → Prop := fun s => ∀ (id : H) (acc : Account H), s.accounts[id]? = some acc →
    acc.nonce = 0
  have hI₁ : I s₁ := by
    refine invariant_of_foldlM (fun s ga s' hs hadd => ?_) ?_ h₁
    · unfold addGenesisAccount at hadd
      split_ifs at hadd
      cases hadd
      intro id acc hacc
      rw [setAccount_accounts, OrderedMap.get_insert] at hacc
      split_ifs at hacc
      · cases hacc
        rfl
      · exact hs id acc hacc
    · intro id acc hacc
      simp [State.default] at hacc
  have hI₂ : I s₂ := by
    refine invariant_of_foldlM (fun s ga s' hs hadd => ?_) hI₁ h₂
    unfold addGenesisAsset at hadd
    split_ifs at hadd
    cases hadd
    exact hs
  have hI₃ : I (g.alloc.foldl allocate s₂) := by
    refine invariant_of_foldl (fun s al hs => ?_) g.alloc hI₂
    unfold allocate
    simp only
    split
    · exact hs
    · exact hs
  have hfee : (withGenesisFee (g.alloc.foldl allocate s₂) g.fee).accounts =
      (g.alloc.foldl allocate s₂).accounts := by
    cases g.fee <;> rfl
  apply hI₃ id acc
  rw [← hfee]
  exact hacc

/-- In every run of blocks from genesis: no signed transaction succeeds twice; the nonce of every
account is the number of its transactions that succeeded; an account that exists at some point
exists from then on; and every success opens the commitment stored before it, stores the declared
next one, and leaves every other account as it was. -/
theorem accounts_of_run {g : Genesis H} {s₀ s : State H} {steps : List (List (Elementary H))}
    (hinit : Initial g s₀) (hrun : Path BlockStep s₀ steps s) :
    (succeeded steps.flatten).Nodup ∧
      (∀ (id : H) (acc : Account H), s.accounts[id]? = some acc →
        acc.nonce = successesOf id steps.flatten) ∧
      (∀ pre t, pre <+: steps.flatten → Path ElemStep s₀ pre t → ∀ (id : H) (acc : Account H),
        t.accounts[id]? = some acc → ∃ acc' : Account H, s.accounts[id]? = some acc') ∧
      Path.Along ElemStep s₀ steps.flatten
        fun t l => ∀ t', ElemStep t l t' → AccountStep t l t' := by
  have hpath := elemPath hinit.fresh.fits hrun
  have hstart : Counted [] s₀ := by
    refine ⟨List.nodup_nil, by simp [succeeded], ?_, fun _ _ => rfl⟩
    intro id acc hacc
    rw [hinit.nonce_eq_zero hacc]
    rfl
  have hcounted : Counted steps.flatten s :=
    hpath.invariant_along (I := Counted) (Path.along_mem) hstart
      fun _ _ _ _ h _ hs => h.elemStep hs
  refine ⟨hcounted.nodup, hcounted.nonce, ?_, fun _ _ _ _ _ _ h => h.accountStep⟩
  rintro pre t ⟨post, hpost⟩ hpre id acc hacc
  rw [← hpost] at hpath
  obtain ⟨t', hpre', hrest⟩ := hpath.exists_of_append
  obtain rfl := Path.eq_of_deterministic elemStep_deterministic hpre hpre'
  refine hrest.invariant (I := fun u => ∃ acc' : Account H, u.accounts[id]? = some acc')
    ⟨acc, hacc⟩ ?_
  rintro u l u' - ⟨a, ha⟩ hs
  obtain ⟨a', ha', -⟩ := hs.exists_account ha
  exact ⟨a', ha'⟩

end State

namespace Concrete

open State

/-- Account one pays account two. -/
def payBlock : List (SignedTx ℕ) := [signed [1] 1 0 (.transfer 2 9 3)]

theorem payBlock_counted : ∃ steps s, Path BlockStep (start feeGenesis config) steps s ∧
    (succeeded steps.flatten).Nodup ∧
      ∀ acc, s.accounts[(1 : ℕ)]? = some acc → acc.nonce = successesOf 1 steps.flatten := by
  have hinit : Initial feeGenesis (start feeGenesis config) :=
    initial_start config (by decide +kernel)
  have hverified : payBlock.map verifyEnvelope = payBlock.map fun _ => true := by
    simp [payBlock, verifyEnvelope_signed]
  obtain ⟨receipts, -, hstep⟩ := blockStep_of_verified (start feeGenesis config) 1 0 hverified
    (by decide +kernel)
  obtain ⟨hnodup, hnonce, -, -⟩ := accounts_of_run hinit (.single hstep)
  exact ⟨_, _, .single hstep, hnodup, hnonce 1⟩

end Concrete

end HashKinetics
