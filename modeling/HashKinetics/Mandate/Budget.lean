import HashKinetics.Mandate.Tree
import HashKinetics.Foundations.Transition

/-!
# Budgets over runs

What a mandate lets through over time.  `TreeStep` is a run of the mandate tree seen from outside:
the clock moves, nodes are created and revoked, and amounts are drawn through leaves.  The allowance
of a node, projected to the current time, is a potential: a draw below the node lowers it by at
least the amount, and the clock raises it by at most the rate.
-/

namespace HashKinetics

open Foundations

namespace MandateNode

variable {H : Type}

/-- The part of a node that is fixed when the node is created. -/
def terms (n : MandateNode H) : MandateNode H :=
  { n with revoked := false, buffer := 0, lastAccrual := 0 }

/-- A field of the terms is fixed. -/
lemma field_eq_of_terms {α : Type} (f : MandateNode H → α) (hf : ∀ n, f n.terms = f n)
    {n n' : MandateNode H} (h : n'.terms = n.terms) : f n' = f n := by
  rw [← hf n', h, hf]

@[simp] lemma terms_accrue (n : MandateNode H) (now : ℕ) : (n.accrue now).terms = n.terms := by
  unfold accrue
  split_ifs <;> rfl

@[simp] lemma terms_debited (n : MandateNode H) (amount now : ℕ) :
    (n.debited amount now).terms = n.terms :=
  n.terms_accrue now

lemma projected_le_bufferMax (n : MandateNode H) (now : ℕ) : n.projected now ≤ n.bufferMax :=
  min_le_right _ _

/-- Time raises the allowance by at most the rate. -/
lemma projected_le_add (n : MandateNode H) {now later : ℕ} (h : now ≤ later) :
    n.projected later ≤ n.projected now + n.ratePerSec * (later - now) := by
  have hdrip : n.ratePerSec * (later - n.lastAccrual) ≤
      n.ratePerSec * (now - n.lastAccrual) + n.ratePerSec * (later - now) := by
    rw [← Nat.mul_add]
    exact Nat.mul_le_mul_left _ (by omega)
  simp only [projected, satAdd, satMul]
  omega

/-- Accruing at `now` makes the projected allowance the buffer. -/
lemma buffer_accrue {n : MandateNode H} (hcap : n.buffer ≤ n.bufferMax)
    (hfits : n.buffer ≤ u128Max) (now : ℕ) : (n.accrue now).buffer = n.projected now := by
  unfold accrue
  split_ifs with h
  · rfl
  · have hzero : now - n.lastAccrual = 0 := by omega
    simp only [projected, satAdd, satMul, hzero, Nat.mul_zero]
    omega

/-- A debit lowers the allowance by at least its amount. -/
lemma projected_debited_add_le {n : MandateNode H} (hcap : n.buffer ≤ n.bufferMax)
    (hfits : n.buffer ≤ u128Max) {amount now : ℕ} (hle : amount ≤ n.projected now) :
    (n.debited amount now).projected now + amount ≤ n.projected now := by
  have hbuffer := buffer_accrue hcap hfits now
  have hclock : now - (n.accrue now).lastAccrual = 0 := by
    unfold accrue
    split_ifs with h
    · exact Nat.sub_self now
    · exact Nat.sub_eq_zero_of_le (not_lt.mp h)
  have hproj : (n.debited amount now).projected now ≤ n.projected now - amount := by
    rw [← hbuffer, projected]
    refine (min_le_left _ _).trans ((satAdd_le_add _ _ _).trans ?_)
    simp only [debited, hclock, satMul, Nat.mul_zero, Nat.zero_min, Nat.add_zero]
    exact le_rfl
  omega

end MandateNode

/-- What happens to the mandate tree, seen from outside: an amount is drawn through a leaf, a node
is created, or neither. -/
inductive TreeAct (H : Type) where
  | idle
  | draw (leaf : H) (amount : ℕ)
  | create (id : H) (parent : Option H) (asset : H)

namespace MandateTree

variable {H : Type} [LinearOrder H]

/-- Every buffer is a `u128` within its cap. -/
def Capped (t : MandateTree H) : Prop :=
  ∀ (id : H) n, t.nodes[id]? = some n → n.buffer ≤ n.bufferMax ∧ n.buffer ≤ u128Max

/-- Nodes are never removed, and their terms never change. -/
def Persists (t t' : MandateTree H) : Prop :=
  ∀ (id : H) n, t.nodes[id]? = some n → ∃ n', t'.nodes[id]? = some n' ∧ n'.terms = n.terms

lemma Persists.refl (t : MandateTree H) : Persists t t :=
  fun _ n h => ⟨n, h, rfl⟩

/-- A walk that succeeds keeps its result. -/
lemma Persists.chainFrom {t t' : MandateTree H} (h : Persists t t') {fuel : ℕ} {leaf : H}
    {chain : List H} (hchain : t.chainFrom fuel leaf = .ok chain) :
    t'.chainFrom fuel leaf = .ok chain := by
  induction fuel generalizing leaf chain with
  | zero => cases hchain
  | succ fuel ih =>
    unfold MandateTree.chainFrom at hchain
    split at hchain
    · cases hchain
    next n hn =>
    obtain ⟨n', hn', hterms⟩ := h leaf n hn
    have hparent : n'.parent = n.parent :=
      MandateNode.field_eq_of_terms MandateNode.parent (fun _ => rfl) hterms
    unfold MandateTree.chainFrom
    simp only [hn', hparent]
    split at hchain
    · exact hchain
    · split at hchain
      · next rest hrest =>
        simp only [ih hrest]
        exact hchain
      · cases hchain

/-- The node `m` lies on the way from `leaf` to the root. -/
def isUnder (t : MandateTree H) (m leaf : H) : Bool :=
  match t.chainOf leaf with
  | .ok chain => decide (m ∈ chain)
  | .error _ => false

lemma isUnder_of_chainOf {t : MandateTree H} {leaf : H} {chain : List H}
    (h : t.chainOf leaf = .ok chain) (m : H) : t.isUnder m leaf = decide (m ∈ chain) := by
  simp [isUnder, h]

/-- What an action takes through the node `m`. -/
def drawThrough (t : MandateTree H) (m : H) : TreeAct H → ℕ
  | .idle => 0
  | .draw leaf amount => if t.isUnder m leaf then amount else 0
  | .create _ _ _ => 0

/-- What a run takes through the node `m`. -/
def drawnThrough (t : MandateTree H) (m : H) (acts : List (TreeAct H)) : ℕ :=
  (acts.map (t.drawThrough m)).sum

/-! ## Runs of the tree -/

/-- One step of the tree at its current time. -/
inductive TreeStep : MandateTree H × ℕ → TreeAct H → MandateTree H × ℕ → Prop
  | tick {t : MandateTree H} {now later : ℕ} (h : now ≤ later) :
      TreeStep (t, now) .idle (t, later)
  | draw {t t' : MandateTree H} {now : ℕ} {leaf : H} {amount : ℕ} {chain : List H}
      (h : t.Spent leaf amount now chain t') : TreeStep (t, now) (.draw leaf amount) (t', now)
  | create {t : MandateTree H} {now : ℕ} {node : MandateNode H}
      (hfresh : t.nodes[node.id]? = none)
      (hparent : ∀ p, node.parent = some p → ∃ parent, t.nodes[p]? = some parent)
      (hcap : node.buffer ≤ node.bufferMax) (hfits : node.buffer ≤ u128Max) :
      TreeStep (t, now) (.create node.id node.parent node.asset)
        (⟨t.nodes.insert node.id node⟩, now)
  | revoke {t : MandateTree H} {now : ℕ} {id : H} {node : MandateNode H}
      (h : t.nodes[id]? = some node) :
      TreeStep (t, now) .idle (⟨t.nodes.insert id { node with revoked := true }⟩, now)

variable {t t' : MandateTree H} {now now' : ℕ} {d : TreeAct H}

lemma TreeStep.persists (h : TreeStep (t, now) d (t', now')) : Persists t t' := by
  intro id n hn
  cases h with
  | tick => exact ⟨n, hn, rfl⟩
  | @draw _ _ _ leaf amount chain h =>
    rw [h.nodes]
    split_ifs
    · exact ⟨n.debited amount now, by rw [hn]; rfl, n.terms_debited amount now⟩
    · exact ⟨n, hn, rfl⟩
  | @create _ _ node hfresh =>
    have hne : node.id ≠ id := by
      rintro rfl
      rw [hfresh] at hn
      cases hn
    exact ⟨n, by rwa [OrderedMap.get_insert, if_neg hne], rfl⟩
  | @revoke _ _ id' node hnode =>
    rw [OrderedMap.get_insert]
    split_ifs with heq
    · subst heq
      rw [hn] at hnode
      cases hnode
      exact ⟨_, rfl, rfl⟩
    · exact ⟨n, hn, rfl⟩

lemma TreeStep.capped (hc : Capped t) (h : TreeStep (t, now) d (t', now')) : Capped t' := by
  intro id n hn
  cases h with
  | tick => exact hc id n hn
  | @draw _ _ _ leaf amount chain h =>
    rw [h.nodes] at hn
    split_ifs at hn
    · obtain ⟨n₀, hn₀, rfl⟩ := Option.map_eq_some_iff.mp hn
      obtain ⟨hcap, hfits⟩ := hc id n₀ hn₀
      have hbuffer := MandateNode.buffer_accrue hcap hfits now
      have hproj := n₀.projected_le_bufferMax now
      have hmax : (n₀.debited amount now).bufferMax = n₀.bufferMax :=
        MandateNode.field_eq_of_terms MandateNode.bufferMax (fun _ => rfl)
          (n₀.terms_debited amount now)
      have hwidth : n₀.projected now ≤ u128Max := (min_le_left _ _).trans (min_le_right _ _)
      change (n₀.accrue now).buffer - amount ≤ _ ∧ (n₀.accrue now).buffer - amount ≤ _
      rw [hmax]
      omega
    · exact hc id n hn
  | create _ _ hcap hfits =>
    rw [OrderedMap.get_insert] at hn
    split_ifs at hn
    · cases hn
      exact ⟨hcap, hfits⟩
    · exact hc id n hn
  | revoke hnode =>
    rw [OrderedMap.get_insert] at hn
    split_ifs at hn
    · cases hn
      have hold := hc _ _ hnode
      exact hold
    · exact hc id n hn

/-- The clock never goes backwards. -/
lemma TreeStep.time_le (h : TreeStep (t, now) d (t', now')) : now ≤ now' := by
  cases h with
  | tick h => exact h
  | draw => exact le_rfl
  | create => exact le_rfl
  | revoke => exact le_rfl

/-- The leaf a step acts through has its chain, before and after. -/
lemma TreeStep.chainOf {leaf : H} {amount : ℕ}
    (h : TreeStep (t, now) (.draw leaf amount) (t', now')) :
    ∃ chain, t.chainOf leaf = .ok chain ∧ t.Spent leaf amount now chain t' := by
  cases h with
  | draw h => exact ⟨_, h.walk, h⟩

/-- **One step of the potential.**  What the step acts through `m` comes off the allowance of `m`;
the clock adds at most the rate. -/
lemma TreeStep.projected_le (hc : Capped t) (h : TreeStep (t, now) d (t', now')) {m : H}
    {n n' : MandateNode H} (hn : t.nodes[m]? = some n) (hn' : t'.nodes[m]? = some n') :
    t'.drawThrough m d + n'.projected now' ≤ n.projected now + n.ratePerSec * (now' - now) := by
  have hpersists := h.persists
  cases h with
  | tick h =>
    rw [hn] at hn'
    cases hn'
    rw [drawThrough, Nat.zero_add]
    exact n.projected_le_add h
  | @draw _ _ _ leaf amount chain h =>
    have hunder := isUnder_of_chainOf (hpersists.chainFrom h.walk) m
    rw [Nat.sub_self, Nat.mul_zero, Nat.add_zero]
    simp only [drawThrough, hunder, decide_eq_true_eq]
    rw [h.nodes, hn] at hn'
    by_cases hm : m ∈ chain
    · obtain ⟨n₀, hn₀, hclears⟩ := h.clears m hm
      obtain rfl : n = n₀ := Option.some.inj (hn.symm.trans hn₀)
      obtain ⟨hcap, hfits⟩ := hc m n hn
      rw [if_pos hm] at hn' ⊢
      obtain rfl : n.debited amount now = n' := Option.some.inj hn'
      rw [Nat.add_comm]
      exact MandateNode.projected_debited_add_le hcap hfits hclears.funded
    · rw [if_neg hm] at hn' ⊢
      cases hn'
      exact (Nat.zero_add _).le
  | @create _ _ node hfresh =>
    have hne : node.id ≠ m := by
      rintro rfl
      rw [hfresh] at hn
      cases hn
    rw [OrderedMap.get_insert, if_neg hne, hn] at hn'
    cases hn'
    rw [drawThrough]
    omega
  | revoke hnode =>
    rw [OrderedMap.get_insert] at hn'
    rw [drawThrough, Nat.zero_add, Nat.sub_self, Nat.mul_zero, Nat.add_zero]
    split_ifs at hn' with heq
    · subst heq
      rw [hn] at hnode
      cases hnode
      cases hn'
      exact le_rfl
    · rw [hn] at hn'
      cases hn'
      exact le_rfl

/-- A draw leaves the chains of earlier acts alone, so what they took through `m` stays. -/
lemma drawnThrough_congr {acts : List (TreeAct H)} (hp : Persists t t')
    (hwalk : ∀ leaf amount, .draw leaf amount ∈ acts → ∃ chain, t.chainOf leaf = .ok chain)
    (m : H) : t'.drawnThrough m acts = t.drawnThrough m acts := by
  unfold drawnThrough
  congr 1
  refine List.map_congr_left fun d hd => ?_
  cases d with
  | idle => rfl
  | create => rfl
  | draw leaf amount =>
    obtain ⟨chain, hchain⟩ := hwalk leaf amount hd
    simp only [drawThrough, isUnder_of_chainOf hchain,
      isUnder_of_chainOf (Persists.chainFrom hp hchain)]

section Runs

variable {t₀ : MandateTree H} {now₀ : ℕ} {acts : List (TreeAct H)}

lemma capped_of_path (hc : Capped t₀) (h : Path TreeStep (t₀, now₀) acts (t, now)) : Capped t :=
  h.invariant (I := fun p => Capped p.1) hc fun _ _ _ _ hc hs => hs.capped hc

lemma time_le_of_path (h : Path TreeStep (t₀, now₀) acts (t, now)) : now₀ ≤ now :=
  h.invariant (I := fun p => now₀ ≤ p.2) le_rfl fun _ _ _ _ hle hs => hle.trans hs.time_le

/-- Nodes persist along a run. -/
lemma persists_of_path (h : Path TreeStep (t₀, now₀) acts (t, now)) : Persists t₀ t := by
  refine h.invariant (I := fun p => Persists t₀ p.1) (Persists.refl t₀) ?_
  intro _ _ _ _ hp hs id n hn
  obtain ⟨n₁, hn₁, hterms₁⟩ := hp id n hn
  obtain ⟨n₂, hn₂, hterms₂⟩ := hs.persists id n₁ hn₁
  exact ⟨n₂, hn₂, hterms₂.trans hterms₁⟩

/-- Every leaf drawn through along a run has its chain at the end, and no amount exceeds what any
node on it allows for one transaction. -/
lemma draw_of_mem {leaf : H} {amount : ℕ} (h : Path TreeStep (t₀, now₀) acts (t, now))
    (hmem : .draw leaf amount ∈ acts) :
    ∃ chain, t.chainOf leaf = .ok chain ∧
      ∀ id ∈ chain, ∃ n, t.nodes[id]? = some n ∧ amount ≤ n.perTxMax := by
  obtain ⟨_, _, ⟨t₁, now₁⟩, ⟨t₂, now₂⟩, -, -, hstep, hrest⟩ := h.exists_step_of_mem hmem
  obtain ⟨chain, hchain, hspent⟩ := hstep.chainOf
  have hpersists : Persists t₁ t := by
    have hpath := Path.cons hstep hrest
    exact persists_of_path hpath
  refine ⟨chain, hpersists.chainFrom hchain, fun id hid => ?_⟩
  obtain ⟨n, hn, hclears⟩ := hspent.clears id hid
  obtain ⟨n', hn', hterms⟩ := hpersists id n hn
  have hmax : n'.perTxMax = n.perTxMax :=
    MandateNode.field_eq_of_terms MandateNode.perTxMax (fun _ => rfl) hterms
  exact ⟨n', hn', hmax ▸ hclears.perTx⟩

/-- A draw only goes through nodes that exist: before `m` is created nothing is drawn through it. -/
lemma drawnThrough_eq_zero (h : Path TreeStep (t₀, now₀) acts (t, now)) {m : H}
    (hm : t.nodes[m]? = none) : t.drawnThrough m acts = 0 := by
  refine List.sum_eq_zero fun x hx => ?_
  obtain ⟨d, hd, rfl⟩ := List.mem_map.mp hx
  cases d with
  | idle => rfl
  | create => rfl
  | draw leaf amount =>
    obtain ⟨chain, hchain, hall⟩ := draw_of_mem h hd
    simp only [drawThrough, isUnder_of_chainOf hchain, decide_eq_true_eq]
    refine if_neg fun hmem => ?_
    obtain ⟨n, hn, -⟩ := hall m hmem
    rw [hm] at hn
    cases hn

/-- **The potential along a run.**  What a run acts through `m`, together with the allowance left,
is bounded by a base `B` and what dripped in between; the base bounds the allowance of `m` at the
start, or, if the run creates `m`, at its creation. -/
lemma drawnThrough_add_projected_le {m : H} (B : MandateNode H → ℕ)
    (hterms : ∀ n n' : MandateNode H, n'.terms = n.terms → B n' = B n) (hc : Capped t₀)
    (hstart : ∀ n, t₀.nodes[m]? = some n → n.projected now₀ ≤ B n)
    (hcreate : t₀.nodes[m]? = none → ∀ n now, n.projected now ≤ B n)
    (h : Path TreeStep (t₀, now₀) acts (t, now)) {n : MandateNode H}
    (hn : t.nodes[m]? = some n) :
    t.drawnThrough m acts + n.projected now ≤ B n + n.ratePerSec * (now - now₀) := by
  generalize hend : (t, now) = p at h
  induction h generalizing t now n with
  | nil =>
    cases hend
    have hle := hstart n hn
    simp only [drawnThrough, List.map_nil, List.sum_nil]
    omega
  | @snoc acts d q _ hpath hs ih =>
    subst hend
    obtain ⟨t₁, now₁⟩ := q
    have hpersists := hs.persists
    have hsum : t.drawnThrough m (acts ++ [d]) = t₁.drawnThrough m acts + t.drawThrough m d := by
      rw [← drawnThrough_congr hpersists fun leaf amount hd =>
        (draw_of_mem hpath hd).imp fun _ hchain => hchain.1]
      simp [drawnThrough]
    rw [hsum]
    cases hn₁ : t₁.nodes[m]? with
    | some n₁ =>
      obtain ⟨n₂, hn₂, hsame⟩ := hpersists m n₁ hn₁
      obtain rfl : n = n₂ := Option.some.inj (hn.symm.trans hn₂)
      have hrate : n.ratePerSec = n₁.ratePerSec :=
        MandateNode.field_eq_of_terms MandateNode.ratePerSec (fun _ => rfl) hsame
      have hbase := hterms n₁ n hsame
      have hprev := ih hn₁ rfl
      have hstep := hs.projected_le (capped_of_path hc hpath) hn₁ hn
      have htime₁ := time_le_of_path hpath
      have htime := hs.time_le
      have hsplit : n₁.ratePerSec * (now - now₀) =
          n₁.ratePerSec * (now₁ - now₀) + n₁.ratePerSec * (now - now₁) := by
        rw [← Nat.mul_add]
        congr 1
        omega
      rw [hrate, hsplit, hbase]
      omega
    | none =>
      -- this very step creates `m`: nothing has been drawn through it yet
      have hzero := drawnThrough_eq_zero hpath hn₁
      have hfresh : t₀.nodes[m]? = none := by
        cases hn₀ : t₀.nodes[m]? with
        | none => rfl
        | some n₀ =>
          obtain ⟨_, hn₂, -⟩ := persists_of_path hpath m n₀ hn₀
          rw [hn₁] at hn₂
          cases hn₂
      have hle := hcreate hfresh n now
      have hnone : t.drawThrough m d = 0 := by
        cases d with
        | idle => rfl
        | create => rfl
        | draw leaf amount =>
          obtain ⟨chain, hchain, hspent⟩ := hs.chainOf
          rw [hspent.nodes, hn₁] at hn
          split_ifs at hn
          cases hn
      omega

end Runs

end MandateTree

end HashKinetics
