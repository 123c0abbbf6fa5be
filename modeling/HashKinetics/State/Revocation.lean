import HashKinetics.State.MandateBudget

/-!
# Revocation

Revoking a mandate marks one node, and an expiry is never moved; both are permanent.  Every spend
walks from the leaf it names to the root, so a dead node stops the spends of everything below it,
including the nodes created below it later.
-/

namespace HashKinetics

open Foundations

namespace MandateTree

variable {H : Type} [LinearOrder H] {t t' : MandateTree H} {now now' : ℕ} {m leaf : H}

/-- The node is `m` or lies below it. -/
inductive Under (t : MandateTree H) (m : H) : H → Prop
  | self : Under t m m
  | child {leaf p : H} {n : MandateNode H} (hn : t.nodes[leaf]? = some n) (hp : n.parent = some p)
      (hup : Under t m p) : Under t m leaf

/-- The chain of a leaf passes through every node above it. -/
lemma IsChain.mem_of_under {chain : List H} (hc : IsChain t leaf chain) (h : Under t m leaf) :
    m ∈ chain := by
  induction h generalizing chain with
  | self => exact hc.head_mem
  | child hn hp _ ih =>
    cases hc with
    | root hn' hp' =>
      rw [hn] at hn'
      cases hn'
      rw [hp] at hp'
      cases hp'
    | step hn' hp' hc' =>
      rw [hn] at hn'
      cases hn'
      rw [hp] at hp'
      cases hp'
      exact List.mem_cons_of_mem _ (ih hc')

/-- The node is revoked, or its expiry has passed. -/
def Dead (t : MandateTree H) (now : ℕ) (m : H) : Prop :=
  ∃ n, t.nodes[m]? = some n ∧ (n.revoked = true ∨ n.expiry ≤ now)

/-- A revocation is never taken back. -/
lemma TreeStep.revoked {d : TreeAct H} (h : TreeStep (t, now) d (t', now')) {n n' : MandateNode H}
    (hn : t.nodes[m]? = some n) (hn' : t'.nodes[m]? = some n') (hr : n.revoked = true) :
    n'.revoked = true := by
  cases h with
  | tick =>
    rw [hn] at hn'
    cases hn'
    exact hr
  | @draw _ _ _ leaf amount chain h =>
    rw [h.nodes, hn] at hn'
    split_ifs at hn'
    · cases hn'
      change (n.accrue now).revoked = true
      unfold MandateNode.accrue
      split <;> exact hr
    · cases hn'
      exact hr
  | @create _ _ node hfresh =>
    have hne : node.id ≠ m := by
      rintro rfl
      rw [hfresh] at hn
      cases hn
    rw [OrderedMap.get_insert, if_neg hne, hn] at hn'
    cases hn'
    exact hr
  | revoke hnode =>
    rw [OrderedMap.get_insert] at hn'
    split_ifs at hn'
    · cases hn'
      rfl
    · rw [hn] at hn'
      cases hn'
      exact hr

/-- A dead node stays dead. -/
lemma Dead.treeStep {d : TreeAct H} (hd : Dead t now m) (h : TreeStep (t, now) d (t', now')) :
    Dead t' now' m := by
  obtain ⟨n, hn, hdead⟩ := hd
  obtain ⟨n', hn', hterms⟩ := h.persists m n hn
  refine ⟨n', hn', hdead.imp (h.revoked hn hn') fun hexpired => ?_⟩
  have hexpiry : n'.expiry = n.expiry :=
    MandateNode.field_eq_of_terms MandateNode.expiry (fun _ => rfl) hterms
  rw [hexpiry]
  exact hexpired.trans h.time_le

/-- Nothing is drawn through a dead node. -/
lemma Dead.not_under (hd : Dead t now m) {amount : ℕ}
    (h : TreeStep (t, now) (.draw leaf amount) (t', now')) : ¬ Under t m leaf := by
  intro hunder
  obtain ⟨chain, hchain, hspent⟩ := h.chainOf
  obtain ⟨n, hn, hdead⟩ := hd
  obtain ⟨n', hn', hclears⟩ :=
    hspent.clears m ((isChain_of_chainOf hchain).mem_of_under hunder)
  rw [hn] at hn'
  cases hn'
  rcases hdead with hrevoked | hexpired
  · rw [hclears.live] at hrevoked
    cases hrevoked
  · exact absurd hclears.unexpired (Nat.not_lt.mpr hexpired)

end MandateTree

/-- The mandate that a transaction spends through, for each of the three kinds that do. -/
def Tx.mandateNamed {H : Type} : Tx H → Option H
  | .mandateSpend leaf _ _ => some leaf
  | .channelOpen _ mandate _ _ _ _ _ _ => some mandate
  | .shieldedSpend _ _ _ _ _ _ mandate _ _ _ => mandate
  | _ => none

lemma Tx.act_of_mandateNamed {H : Type} {tx : Tx H} {leaf : H} (h : tx.mandateNamed = some leaf) :
    ∃ amount, tx.act = .draw leaf amount := by
  cases tx with
  | mandateSpend l dst amount =>
    cases h
    exact ⟨amount, rfl⟩
  | channelOpen id mandate payee asset tip unitPrice maxSteps expiry =>
    cases h
    exact ⟨unitPrice * maxSteps, rfl⟩
  | shieldedSpend anchor nf out out2 fee creditTo mandate proof ct ct2 =>
    cases h
    exact ⟨fee, rfl⟩
  | _ => cases h

namespace State

variable {H : Type} [LinearOrder H] [HashSuite H] [TxCodec H]

open MandateTree (Dead Under)

/-- A successful revocation kills its target. -/
lemma dead_of_revoke {s s' : State H} {stx : SignedTx H} {evs : List (Event H)} {m : H}
    (h : ElemStep s (.tx stx evs) s') (hpayload : stx.payload = .mandateRevoke m) :
    Dead s'.mandates s'.time m := by
  cases h with
  | tx h =>
    obtain ⟨s₁, henv⟩ := applyTxAt_eq_ok h
    have hbody := henv.body
    obtain ⟨acc, -, -, rfl⟩ := henv.ratchet
    rw [hpayload] at hbody
    obtain ⟨node, -, -, -, rfl⟩ := doMandateRevoke_eq_ok hbody
    refine ⟨{ node with revoked := true }, ?_, .inl rfl⟩
    simp

/-- A dead mandate stays dead along a run. -/
lemma dead_of_path {s s' : State H} {ls : List (Elementary H)} {m : H}
    (h : Path ElemStep s ls s') (hd : Dead s.mandates s.time m) : Dead s'.mandates s'.time m :=
  h.invariant (I := fun u => Dead u.mandates u.time m) hd
    fun _ _ _ _ hu hs => hu.treeStep (treeStep_elemStep hs)

/-- **Revocation cascades forever.**  In every run of blocks from genesis, no mandate spend, channel
opening or mandated shielded spend that names a mandate at or below `m` succeeds after a revocation
of `m` has succeeded or after the expiry of `m` has passed, wherever below `m` and whenever the
named mandate was created. -/
theorem revocation_cascades {g : Genesis H} {s₀ s t : State H}
    {steps : List (List (Elementary H))} (hinit : Initial g s₀) (hrun : Path BlockStep s₀ steps s)
    {pre post : List (Elementary H)} {stx : SignedTx H} {evs : List (Event H)} {m leaf : H}
    (hsteps : steps.flatten = pre ++ .tx stx evs :: post) (hpre : Path ElemStep s₀ pre t)
    (hdead : (∃ r revs, .tx r revs ∈ pre ∧ r.payload = .mandateRevoke m) ∨
      ∃ earlier u n, earlier <+: pre ∧ Path ElemStep s₀ earlier u ∧
        u.mandates.nodes[m]? = some n ∧ n.expiry ≤ u.time)
    (hnamed : stx.payload.mandateNamed = some leaf) : ¬ Under t.mandates m leaf := by
  have hpath := elemPath hinit.fresh.fits hrun
  rw [hsteps] at hpath
  obtain ⟨t₁, ht₁, hrest⟩ := hpath.exists_of_append
  obtain rfl := Path.eq_of_deterministic elemStep_deterministic hpre ht₁
  obtain ⟨t', hstep, -⟩ := (List.singleton_append ▸ hrest :
    Path ElemStep t ([.tx stx evs] ++ post) s).exists_of_append
  have hsnoc : Path ElemStep t ([] ++ [.tx stx evs]) t' := hstep
  obtain ⟨t₂, ht₂, hspend⟩ := hsnoc.exists_of_snoc
  cases Path.eq_of_deterministic elemStep_deterministic ht₂ .nil
  have hd : Dead t.mandates t.time m := by
    rcases hdead with ⟨r, revs, hmem, hpayload⟩ | ⟨earlier, u, n, ⟨later, rfl⟩, hu, hn, hexpired⟩
    · obtain ⟨ls₁, ls₂, u, u', -, -, hrevoke, hafter⟩ := hpre.exists_step_of_mem hmem
      exact dead_of_path hafter (dead_of_revoke hrevoke hpayload)
    · obtain ⟨u', hu', hlater⟩ := hpre.exists_of_append
      obtain rfl := Path.eq_of_deterministic elemStep_deterministic hu hu'
      exact dead_of_path hlater ⟨n, hn, .inr hexpired⟩
  obtain ⟨amount, hact⟩ := Tx.act_of_mandateNamed hnamed
  have htree := treeStep_elemStep hspend
  have hdraw : Elementary.act (.tx stx evs : Elementary H) = .draw leaf amount := hact
  rw [hdraw] at htree
  exact hd.not_under htree

end State

namespace Concrete

open State

/-- Two budgets for the agent, which gives the first of them up at once. -/
def revokeBlock : List (SignedTx ℕ) :=
  [signed [1] 1 0 (.mandateCreate 100 none 2 7 1 6 4 5 1000 0),
    signed [1] 1 1 (.mandateCreate 200 none 2 7 1 6 4 5 1000 0),
    signed [2] 2 0 (.mandateRevoke 100)]

/-- A spend from the second one. -/
def otherSpend : SignedTx ℕ := signed [2] 2 1 (.mandateSpend 200 2 4)

/-- The state after the revocation. -/
def revoked : State ℕ :=
  (applyBlockVerified 1 10 revokeBlock (some (revokeBlock.map fun _ => true))
    (start mandateGenesis config)).2

/-- What evaluation shows: the revocation and the later spend are accepted. -/
lemma revoked_facts :
    (applyBlockVerified 1 10 revokeBlock (some (revokeBlock.map fun _ => true))
        (start mandateGenesis config)).1 =
      .ok [⟨0, .ok [.mandateCreated 100]⟩, ⟨1, .ok [.mandateCreated 200]⟩,
        ⟨2, .ok [.mandateRevoked 100]⟩] ∧
      (applyBlockVerified 2 12 [otherSpend] (some [true]) revoked).1 =
        .ok [⟨0, .ok [.mandateSpent 200 2 4]⟩] ∧
      revoked.height = 1 ∧ revoked.time = 10 := by
  decide +kernel

/-- The budget that still pays is not below the revoked one. -/
theorem otherSpend_not_under : ∃ pre t, Path ElemStep (start mandateGenesis config) pre t ∧
    ¬ MandateTree.Under t.mandates 100 200 := by
  obtain ⟨hrevoke, hspend, hheight, htime⟩ := revoked_facts
  have hinit : Initial mandateGenesis (start mandateGenesis config) :=
    initial_start config (by decide +kernel)
  have hrevokeStep := blockStep_of_outcome (by simp [revokeBlock, verifyEnvelope_signed]) hrevoke
  rw [← revoked] at hrevokeStep
  have hverified : [otherSpend].map verifyEnvelope = [otherSpend].map fun _ => true := by
    simp [otherSpend, verifyEnvelope_signed]
  have hspendStep := blockStep_of_outcome hverified hspend
  have hopen : ElemStep revoked (.openBlock 2 12) (revoked.openedAt 2 12) :=
    .openBlock (by rw [hheight]) (by rw [htime]; decide)
  have hpre := Path.snoc (path_of_blockStep hinit.fresh.fits hrevokeStep) hopen
  refine ⟨_, _, hpre,
    @revocation_cascades _ _ _ _ _ _ _ _ _ hinit (.snoc (.single hrevokeStep) hspendStep)
    _ [.closeBlock] otherSpend [.mandateSpent 200 2 4] _ _ ?_ hpre ?_ rfl⟩
  · simp [blockSteps, successes]
  · exact .inl ⟨signed [2] 2 0 (.mandateRevoke 100), [.mandateRevoked 100],
      by simp [blockSteps, successes, revokeBlock], rfl⟩

end Concrete

end HashKinetics
