import HashKinetics.Mandate.Budget
import HashKinetics.State.Run

/-!
# Mandate budgets on the chain

The mandate tree of the chain moves by the steps of `MandateTree.TreeStep`: three kinds of
transactions draw on it, two write nodes, and the rest leave it alone.  Budgets over runs of blocks
follow from the potential of a node.
-/

namespace HashKinetics

open Foundations

/-- What a transaction does to the mandate tree. -/
def Tx.act {H : Type} : Tx H → TreeAct H
  | .mandateSpend leaf _ amount => .draw leaf amount
  | .channelOpen _ mandate _ _ _ unitPrice maxSteps _ => .draw mandate (unitPrice * maxSteps)
  | .shieldedSpend _ _ _ _ fee _ (some mandate) _ _ _ => .draw mandate fee
  | .mandateCreate id parent _ asset _ _ _ _ _ _ => .create id parent asset
  | _ => .idle

/-- What an elementary step does to the mandate tree. -/
def Elementary.act {H : Type} [LinearOrder H] : Elementary H → TreeAct H
  | .tx stx _ => stx.payload.act
  | _ => .idle

namespace State

variable {H : Type} [LinearOrder H] [HashSuite H]

open MandateTree (TreeStep)

/-- The mandate tree with its clock. -/
def mandateView (s : State H) : MandateTree H × ℕ := (s.mandates, s.time)

/-- A transaction body moves the mandate tree by one step. -/
lemma treeStep_dispatch {s s' : State H} {sender : H} {tx : Tx H} {evs : List (Event H)}
    (h : dispatch sender tx s = (.ok evs, s')) :
    TreeStep s.mandateView tx.act s'.mandateView := by
  cases tx with
  | transfer dst asset amount =>
    obtain ⟨-, -, -, -, rfl⟩ := doTransfer_eq_ok h
    exact .tick le_rfl
  | mandateCreate id parent holder asset rate bufferMax perTxMax initial expiry tier =>
    obtain ⟨-, hc⟩ := doMandateCreate_eq_ok h
    rw [mandateView, mandateView, hc.mandates_eq, hc.time_eq]
    refine .create hc.fresh (fun p hp => ?_) hc.buffer (hc.buffer.trans bufferMax.le_max)
    obtain ⟨parentNode, hparent, -⟩ := hc.parent p hp
    exact ⟨parentNode, hparent⟩
  | mandateSpend leaf dst amount =>
    obtain ⟨asset, funder, chain, t, hdraw, -, -, -, rfl⟩ := doMandateSpend_eq_ok h
    exact .draw hdraw.spent
  | mandateRevoke target =>
    obtain ⟨node, hnode, -, -, rfl⟩ := doMandateRevoke_eq_ok h
    exact .revoke hnode
  | channelOpen id mandate payee asset tip unitPrice maxSteps expiry =>
    obtain ⟨funder, chain, t, hdraw, -, -, -, -, -, -, rfl⟩ := doChannelOpen_eq_ok h
    exact .draw hdraw.spent
  | channelSettle id word step =>
    obtain ⟨ch, -, -, -, -, -, -, -, rfl⟩ := doChannelSettle_eq_ok h
    exact .tick le_rfl
  | channelRefund id =>
    obtain ⟨ch, -, -, -, -, -, -, rfl⟩ := doChannelRefund_eq_ok h
    exact .tick le_rfl
  | mintToPool asset value commitment proof ct =>
    obtain ⟨key, -, -, -, -, -, -, -, -, -, rfl⟩ := doMintToPool_eq_ok h
    exact .tick le_rfl
  | shieldedSpend anchor nf out out2 fee creditTo mandate proof ct ct2 =>
    obtain ⟨key, pool, t, hun, -, hpaid⟩ := doShieldedSpend_eq_ok h
    have hview : s'.mandateView = (t, s.time) := by
      rcases hpaid with ⟨-, rfl⟩ | ⟨-, dst, asset, -, -, -, rfl⟩ <;> rfl
    rw [hview]
    cases hun.leg with
    | none => exact .tick le_rfl
    | some _ _ _ hspent => exact .draw hspent
  | accountCreate id authCommit asset amount =>
    obtain ⟨-, -, -, ⟨-, rfl⟩ | ⟨-, -, -, rfl⟩⟩ := doAccountCreate_eq_ok h
    · exact .tick le_rfl
    · exact .tick le_rfl
  | assetRegister asset symbol decimals policy =>
    obtain ⟨-, -, -, rfl⟩ := doAssetRegister_eq_ok h
    exact .tick le_rfl
  | assetMint asset dst amount =>
    obtain ⟨info, -, -, -, -, -, -, -, rfl⟩ := doAssetMint_eq_ok h
    exact .tick le_rfl
  | assetBurn asset amount destination =>
    obtain ⟨info, -, -, -, -, -, rfl⟩ := doAssetBurn_eq_ok h
    exact .tick le_rfl
  | assetFreeze asset account frozen =>
    obtain ⟨info, -, -, -, -, rfl⟩ := doAssetFreeze_eq_ok h
    exact .tick le_rfl
  | assetPause asset paused =>
    obtain ⟨info, -, -, -, -, rfl⟩ := doAssetPause_eq_ok h
    exact .tick le_rfl

omit [HashSuite H] in
lemma mandateView_feeCharged (s : State H) (sender : H) :
    (s.feeCharged sender).mandateView = s.mandateView := by
  unfold feeCharged
  split_ifs <;> rfl

variable [TxCodec H]

/-- The state machine moves its mandate tree by tree steps. -/
lemma treeStep_elemStep {s s' : State H} {l : Elementary H} (h : ElemStep s l s') :
    TreeStep s.mandateView l.act s'.mandateView := by
  cases h with
  | openBlock _ ht => exact .tick ht
  | tx h =>
    obtain ⟨s₁, henv⟩ := applyTxAt_eq_ok h
    obtain ⟨acc, -, -, rfl⟩ := henv.ratchet
    have hbody := treeStep_dispatch henv.body
    rw [mandateView_feeCharged] at hbody
    exact hbody
  | closeBlock => exact .tick le_rfl
  | cover => exact .tick le_rfl

/-- A run of the chain, seen as a run of its mandate tree. -/
lemma treePath {s s' : State H} {ls : List (Elementary H)} (h : Path ElemStep s ls s') :
    Path TreeStep s.mandateView (ls.map Elementary.act) s'.mandateView :=
  h.map mandateView Elementary.act fun _ _ _ => treeStep_elemStep

/-- **Mandate budgets.**  Between any two states `s` and `s'` of any run, and for every mandate `m`:
what was drawn through `m`, by its holder or below, is at most its accrued buffer at the first plus
the rate times the time between; within a single instant it is at most the cap; and every single
draw is at most the per-transaction limit of every mandate on its chain. -/
theorem drawnThrough_le_budget {g : Genesis H} {s₀ s s' : State H} {pre ls : List (Elementary H)}
    (hinit : Initial g s₀) (hpre : Path ElemStep s₀ pre s) (hrun : Path ElemStep s ls s') :
    (∀ (m : H) n, s.mandates.nodes[m]? = some n →
      s'.mandates.drawnThrough m (ls.map Elementary.act) ≤
        n.projected s.time + n.ratePerSec * (s'.time - s.time)) ∧
    (∀ (m : H) n, s'.mandates.nodes[m]? = some n → s'.time = s.time →
      s'.mandates.drawnThrough m (ls.map Elementary.act) ≤ n.bufferMax) ∧
    ∀ leaf amount, .draw leaf amount ∈ ls.map Elementary.act → ∀ m,
      s'.mandates.isUnder m leaf = true →
        ∃ n, s'.mandates.nodes[m]? = some n ∧ amount ≤ n.perTxMax := by
  have hcapped₀ : s₀.mandates.Capped := by
    intro id n hn
    rw [hinit.fresh.mandates] at hn
    exact absurd hn (by simp)
  have hcapped : s.mandates.Capped := MandateTree.capped_of_path hcapped₀ (treePath hpre)
  have hpath := treePath hrun
  refine ⟨fun m n hn => ?_, fun m n hn hinstant => ?_, fun leaf amount hmem m hunder => ?_⟩
  · obtain ⟨n', hn', hterms⟩ := MandateTree.persists_of_path hpath m n hn
    have hrate : n'.ratePerSec = n.ratePerSec :=
      MandateNode.field_eq_of_terms MandateNode.ratePerSec (fun _ => rfl) hterms
    have hle := MandateTree.drawnThrough_add_projected_le (fun _ => n.projected s.time)
      (fun _ _ _ => rfl) hcapped (fun n₁ hn₁ => by rw [Option.some.inj (hn.symm.trans hn₁)])
      (fun hnone => by rw [hn] at hnone; cases hnone) hpath hn'
    rw [hrate] at hle
    omega
  · have hle := MandateTree.drawnThrough_add_projected_le MandateNode.bufferMax
      (fun n n' => MandateNode.field_eq_of_terms MandateNode.bufferMax fun _ => rfl) hcapped
      (fun n₁ _ => n₁.projected_le_bufferMax _) (fun _ n₁ now => n₁.projected_le_bufferMax now)
      hpath hn
    rw [hinstant, Nat.sub_self, Nat.mul_zero] at hle
    omega
  · obtain ⟨chain, hchain, hall⟩ := MandateTree.draw_of_mem hpath hmem
    rw [MandateTree.isUnder_of_chainOf hchain] at hunder
    exact hall m (of_decide_eq_true hunder)

end State

namespace Concrete

open State

/-- An organisation with ten units of an asset, and an agent. -/
def mandateGenesis : Genesis ℕ where
  time := 0
  accounts := [account 1, account 2]
  alloc := [⟨1, 7, 10⟩]
  fee := none
  assets := []

/-- The organisation gives the agent a budget. -/
def grantBlock : List (SignedTx ℕ) :=
  [signed [1] 1 0 (.mandateCreate 100 none 2 7 1 6 4 5 1000 0)]

/-- The agent hands a part of it back, and the organisation spends from that part. -/
def spendBlock : List (SignedTx ℕ) :=
  [signed [2] 2 0 (.mandateCreate 101 (some 100) 1 7 1 5 4 4 900 0),
    signed [1] 1 1 (.mandateSpend 101 2 4)]

def grantReceipts : List (Receipt ℕ) := [⟨0, .ok [.mandateCreated 100]⟩]

def spendReceipts : List (Receipt ℕ) :=
  [⟨0, .ok [.mandateCreated 101]⟩, ⟨1, .ok [.mandateSpent 101 2 4]⟩]

/-- The state after the grant. -/
def granted : State ℕ :=
  (applyBlockVerified 1 10 grantBlock (some (grantBlock.map fun _ => true))
    (start mandateGenesis config)).2

/-- The state after the spend. -/
def drawn : State ℕ :=
  (applyBlockVerified 2 12 spendBlock (some (spendBlock.map fun _ => true)) granted).2

/-- What evaluation shows: both blocks are accepted, and the spend from the part counts as one from
the whole. -/
lemma drawn_facts :
    (applyBlockVerified 1 10 grantBlock (some (grantBlock.map fun _ => true))
        (start mandateGenesis config)).1 = .ok grantReceipts ∧
      (applyBlockVerified 2 12 spendBlock (some (spendBlock.map fun _ => true)) granted).1 =
        .ok spendReceipts ∧
      (granted.mandates.nodes[100]?).isSome = true ∧ drawn.mandates.isUnder 100 101 = true ∧
      drawn.mandates.drawnThrough 100
        ((blockSteps ⟨2, 12, spendBlock, none⟩ spendReceipts).map Elementary.act) = 4 := by
  decide +kernel

lemma initial_mandateGenesis : Initial mandateGenesis (start mandateGenesis config) :=
  initial_start config (by decide +kernel)

lemma granted_step : BlockStep (start mandateGenesis config)
    (blockSteps ⟨1, 10, grantBlock, none⟩ grantReceipts) granted := by
  have hstep := blockStep_of_outcome (by simp [grantBlock, verifyEnvelope_signed]) drawn_facts.1
  rwa [← granted] at hstep

lemma drawn_step : BlockStep granted (blockSteps ⟨2, 12, spendBlock, none⟩ spendReceipts) drawn := by
  have hstep := blockStep_of_outcome (by simp [spendBlock, verifyEnvelope_signed]) drawn_facts.2.1
  rwa [← drawn] at hstep

/-- The spend from the part is within the budget of the whole. -/
theorem spendBlock_within_budget : ∃ s ls n, Path ElemStep granted ls s ∧
    granted.mandates.nodes[100]? = some n ∧ s.mandates.isUnder 100 101 = true ∧
      s.mandates.drawnThrough 100 (ls.map Elementary.act) = 4 ∧
      s.mandates.drawnThrough 100 (ls.map Elementary.act) ≤
        n.projected granted.time + n.ratePerSec * (s.time - granted.time) := by
  obtain ⟨-, -, hnode, hunder, hamount⟩ := drawn_facts
  have hpre := path_of_blockStep initial_mandateGenesis.fresh.fits granted_step
  have hfits : granted.Fits :=
    hpre.invariant initial_mandateGenesis.fresh.fits fun _ _ _ _ hf hs => hf.elemStep hs
  have hrun := path_of_blockStep hfits drawn_step
  obtain ⟨n, hn⟩ := Option.isSome_iff_exists.mp hnode
  exact ⟨_, _, n, hrun, hn, hunder, hamount,
    (drawnThrough_le_budget initial_mandateGenesis hpre hrun).1 100 n hn⟩

end Concrete

end HashKinetics
