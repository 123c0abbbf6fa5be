import HashKinetics.Mandate.Asset

/-!
# The shape of the mandate tree

What a walk from a leaf to its root rests on: parents exist, no node is above itself, and terms only
narrow on the way down.  `Shaped` says this of a tree at a time; creations, draws and revocations
keep it.
-/

namespace HashKinetics.MandateTree

open Foundations

variable {H : Type} [LinearOrder H] {t t' : MandateTree H}

/-- `p` is the parent of `id`. -/
def ParentOf (t : MandateTree H) (p id : H) : Prop :=
  ∃ n, t.nodes[id]? = some n ∧ n.parent = some p

/-- `id` is a node without a parent. -/
def IsRoot (t : MandateTree H) (id : H) : Prop := ∃ n, t.nodes[id]? = some n ∧ n.parent = none

/-- The number of links from a node to its root. -/
def DepthOf (t : MandateTree H) (id : H) (depth : ℕ) : Prop :=
  ∃ chain, IsChain t id chain ∧ chain.length = depth + 1

/-- A child may only narrow its parent. -/
structure Narrows (child parent : MandateNode H) : Prop where
  expiry : child.expiry ≤ parent.expiry
  perTxMax : child.perTxMax ≤ parent.perTxMax

/-- The tree as creations build it, at a time: every node has a way to a root on which terms only
narrow, its buffer is within its cap, and it accrued no later than now. -/
structure Shaped (t : MandateTree H) (now : ℕ) : Prop where
  chain : ∀ (id : H) n, t.nodes[id]? = some n → ∃ chain, IsChain t id chain
  narrows : ∀ (id : H) n p, t.nodes[id]? = some n → n.parent = some p →
    ∃ parent, t.nodes[p]? = some parent ∧ Narrows n parent
  buffer : ∀ (id : H) n, t.nodes[id]? = some n → n.buffer ≤ n.bufferMax
  accrued : ∀ (id : H) n, t.nodes[id]? = some n → n.lastAccrual ≤ now

lemma shaped_empty (now : ℕ) : Shaped (∅ : MandateTree H) now :=
  ⟨fun id n hn => by simp at hn, fun id n p hn => by simp at hn, fun id n hn => by simp at hn,
    fun id n hn => by simp at hn⟩

lemma Shaped.mono {now later : ℕ} (h : Shaped t now) (hle : now ≤ later) : Shaped t later :=
  ⟨h.chain, h.narrows, h.buffer, fun id n hn => (h.accrued id n hn).trans hle⟩

/-! ## Walks -/

/-- Going up one link shortens the chain. -/
lemma IsChain.of_parentOf {p id : H} {chain : List H} (h : IsChain t id chain)
    (hp : t.ParentOf p id) : ∃ rest, IsChain t p rest ∧ rest.length < chain.length := by
  obtain ⟨n, hn, hparent⟩ := hp
  cases h with
  | root hn' hp' =>
    rw [hn] at hn'
    cases hn'
    rw [hp'] at hparent
    cases hparent
  | step hn' hp' hc =>
    rw [hn] at hn'
    cases hn'
    rw [hparent] at hp'
    cases hp'
    exact ⟨_, hc, by simp⟩

/-- Every ancestor of a node has a shorter chain. -/
lemma IsChain.of_ancestor {a id : H} (h : Relation.TransGen t.ParentOf a id) :
    ∀ {chain : List H}, IsChain t id chain →
      ∃ rest, IsChain t a rest ∧ rest.length < chain.length := by
  induction h with
  | single hp => exact fun hc => hc.of_parentOf hp
  | tail _ hp ih =>
    intro chain hc
    obtain ⟨rest, hrest, hlt⟩ := hc.of_parentOf hp
    obtain ⟨top, htop, hlt'⟩ := ih hrest
    exact ⟨top, htop, hlt'.trans hlt⟩

/-- No node is above itself. -/
lemma Shaped.acyclic {now : ℕ} (h : Shaped t now) (id : H) :
    ¬ Relation.TransGen t.ParentOf id id := by
  intro hcycle
  obtain ⟨chain, hchain⟩ : ∃ chain, IsChain t id chain := by
    cases hcycle with
    | single hp => exact h.chain id _ hp.choose_spec.1
    | tail _ hp => exact h.chain id _ hp.choose_spec.1
  obtain ⟨rest, hrest, hlt⟩ := hchain.of_ancestor hcycle
  rw [hrest.unique hchain] at hlt
  exact lt_irrefl _ hlt

/-- The walk finds a chain that its budget covers, and runs out of budget otherwise. -/
lemma IsChain.chainFrom_eq {id : H} {chain : List H} (h : IsChain t id chain) (fuel : ℕ) :
    t.chainFrom fuel id = if chain.length ≤ fuel then .ok chain else .error .badChain := by
  induction h generalizing fuel with
  | root hn hp =>
    cases fuel with
    | zero => simp [chainFrom]
    | succ fuel => simp [chainFrom, hn, hp]
  | step hn hp hc ih =>
    cases fuel with
    | zero => simp [chainFrom]
    | succ fuel =>
      rw [chainFrom]
      simp only [hn, hp, ih fuel, List.length_cons, Nat.add_le_add_iff_right]
      split_ifs <;> rfl

/-- A chain ends at a root. -/
lemma IsChain.root_getLastD {id : H} {chain : List H} (h : IsChain t id chain) :
    ∃ n, t.nodes[chain.getLastD id]? = some n ∧ n.parent = none := by
  induction h with
  | root hn hp => exact ⟨_, hn, hp⟩
  | @step leaf p n chain hn hp hc ih =>
    have hlast : (leaf :: chain).getLastD leaf = chain.getLastD p := by
      cases hc <;> simp [List.getLastD]
    rwa [hlast]

/-- A walk of a shaped tree from one of its nodes ends at a root or exceeds the depth. -/
lemma Shaped.chainOf_ne_notFound {now : ℕ} (h : Shaped t now) {id : H} {n : MandateNode H}
    (hn : t.nodes[id]? = some n) : t.chainOf id ≠ .error .notFound := by
  obtain ⟨chain, hchain⟩ := h.chain id n hn
  rw [chainOf, hchain.chainFrom_eq]
  split_ifs <;> simp

/-- The root of a chain is a root of the tree. -/
lemma rootOf_ok {id root : H} (h : t.rootOf id = .ok root) : t.IsRoot root := by
  obtain ⟨chain, hchain, rfl⟩ := exists_chain_of_rootOf h
  exact (isChain_of_chainOf hchain).root_getLastD

/-! ## What keeps the shape -/

/-- Chains survive as long as nodes keep their parents. -/
lemma Shaped.of_links {now : ℕ} (h : Shaped t now)
    (hold : ∀ (id : H) n', t'.nodes[id]? = some n' → ∃ n, t.nodes[id]? = some n ∧
      n'.terms = n.terms ∧ n'.buffer ≤ n'.bufferMax ∧ n'.lastAccrual ≤ now)
    (hnew : Persists t t') : Shaped t' now := by
  refine ⟨fun id n' hn' => ?_, fun id n' p hn' hp' => ?_, fun id n' hn' => ?_,
    fun id n' hn' => ?_⟩
  · obtain ⟨n, hn, -⟩ := hold id n' hn'
    obtain ⟨chain, hchain⟩ := h.chain id n hn
    refine ⟨chain, hchain.congr fun k _ m hm => ?_⟩
    obtain ⟨m', hm', hterms⟩ := hnew k m hm
    exact ⟨m', hm', MandateNode.field_eq_of_terms MandateNode.parent (fun _ => rfl) hterms⟩
  · obtain ⟨n, hn, hterms, -⟩ := hold id n' hn'
    have hp : n.parent = some p := by
      rw [← hp']
      exact (MandateNode.field_eq_of_terms MandateNode.parent (fun _ => rfl) hterms).symm
    obtain ⟨parent, hparent, hnarrow⟩ := h.narrows id n p hn hp
    obtain ⟨parent', hparent', hpterms⟩ := hnew p parent hparent
    refine ⟨parent', hparent', ?_, ?_⟩
    · rw [MandateNode.field_eq_of_terms MandateNode.expiry (fun _ => rfl) hterms,
        MandateNode.field_eq_of_terms MandateNode.expiry (fun _ => rfl) hpterms]
      exact hnarrow.expiry
    · rw [MandateNode.field_eq_of_terms MandateNode.perTxMax (fun _ => rfl) hterms,
        MandateNode.field_eq_of_terms MandateNode.perTxMax (fun _ => rfl) hpterms]
      exact hnarrow.perTxMax
  · exact (hold id n' hn').choose_spec.2.2.1
  · exact (hold id n' hn').choose_spec.2.2.2

omit [LinearOrder H] in
lemma lastAccrual_accrue_le {n : MandateNode H} {now : ℕ} (h : n.lastAccrual ≤ now) :
    (n.accrue now).lastAccrual ≤ now := by
  unfold MandateNode.accrue
  split_ifs
  · exact le_rfl
  · exact h

omit [LinearOrder H] in
lemma buffer_accrue_le {n : MandateNode H} (h : n.buffer ≤ n.bufferMax) (now : ℕ) :
    (n.accrue now).buffer ≤ n.bufferMax := by
  unfold MandateNode.accrue
  split_ifs
  · exact n.projected_le_bufferMax now
  · exact h

/-- A draw keeps the shape. -/
lemma Shaped.spent {now : ℕ} (h : Shaped t now) {leaf : H} {amount : ℕ} {chain : List H}
    (hspent : t.Spent leaf amount now chain t') : Shaped t' now := by
  have hpersists : Persists t t' := (TreeStep.draw hspent).persists
  refine h.of_links (fun id n' hn' => ?_) hpersists
  rw [hspent.nodes] at hn'
  split_ifs at hn'
  · obtain ⟨n, hn, rfl⟩ := Option.map_eq_some_iff.mp hn'
    refine ⟨n, hn, n.terms_debited amount now, ?_, lastAccrual_accrue_le (h.accrued id n hn)⟩
    have hmax : (n.debited amount now).bufferMax = n.bufferMax :=
      MandateNode.field_eq_of_terms MandateNode.bufferMax (fun _ => rfl)
        (n.terms_debited amount now)
    rw [hmax]
    exact (Nat.sub_le _ _).trans (buffer_accrue_le (h.buffer id n hn) now)
  · exact ⟨n', hn', rfl, h.buffer id n' hn', h.accrued id n' hn'⟩

/-- A revocation keeps the shape. -/
lemma Shaped.revoked {now : ℕ} (h : Shaped t now) {id : H} {node : MandateNode H}
    (hnode : t.nodes[id]? = some node) :
    Shaped ⟨t.nodes.insert id { node with revoked := true }⟩ now := by
  have hpersists : Persists t ⟨t.nodes.insert id { node with revoked := true }⟩ :=
    (show TreeStep (t, now) .idle (_, now) from .revoke hnode).persists
  refine h.of_links (fun k n' hn' => ?_) hpersists
  rw [OrderedMap.get_insert] at hn'
  split_ifs at hn' with hk
  · subst hk
    cases hn'
    have hbuffer := h.buffer id node hnode
    have haccrued := h.accrued id node hnode
    exact ⟨node, hnode, rfl, hbuffer, haccrued⟩
  · exact ⟨n', hn', rfl, h.buffer k n' hn', h.accrued k n' hn'⟩

/-- A creation below a parent that it narrows keeps the shape. -/
lemma Shaped.created {now : ℕ} (h : Shaped t now) {node : MandateNode H}
    (hfresh : t.nodes[node.id]? = none)
    (hparent : ∀ p, node.parent = some p → ∃ parent, t.nodes[p]? = some parent ∧
      Narrows node parent)
    (hbuffer : node.buffer ≤ node.bufferMax) (haccrued : node.lastAccrual ≤ now) :
    Shaped ⟨t.nodes.insert node.id node⟩ now := by
  have hget : ∀ (id : H) n, t.nodes[id]? = some n →
      (⟨t.nodes.insert node.id node⟩ : MandateTree H).nodes[id]? = some n := by
    intro id n hn
    have hne : node.id ≠ id := by
      rintro rfl
      rw [hfresh] at hn
      cases hn
    rwa [OrderedMap.get_insert, if_neg hne]
  have hold : ∀ (id : H) n, t.nodes[id]? = some n →
      ∃ chain, IsChain ⟨t.nodes.insert node.id node⟩ id chain := by
    intro id n hn
    obtain ⟨chain, hchain⟩ := h.chain id n hn
    exact ⟨chain, hchain.congr fun k _ m hm => ⟨m, hget k m hm, rfl⟩⟩
  refine ⟨fun id n hn => ?_, fun id n p hn hp => ?_, fun id n hn => ?_, fun id n hn => ?_⟩
  all_goals
    have hn' := hn
    rw [OrderedMap.get_insert] at hn'
    split_ifs at hn' with hid
  · subst hid
    cases hn'
    cases hp : node.parent with
    | none => exact ⟨_, .root hn hp⟩
    | some p =>
      obtain ⟨parent, hparent, -⟩ := hparent p hp
      obtain ⟨chain, hchain⟩ := hold p parent hparent
      exact ⟨_, .step hn hp hchain⟩
  · exact hold id n hn'
  · cases hn'
    obtain ⟨parent, hparent, hnarrow⟩ := hparent p hp
    exact ⟨parent, hget p parent hparent, hnarrow⟩
  · obtain ⟨parent, hparent, hnarrow⟩ := h.narrows id n p hn' hp
    exact ⟨parent, hget p parent hparent, hnarrow⟩
  · cases hn'
    exact hbuffer
  · exact h.buffer id n hn'
  · cases hn'
    exact haccrued
  · exact h.accrued id n hn'

/-! ## Roots -/

lemma isRoot_spent {leaf : H} {amount now : ℕ} {chain : List H}
    (h : t.Spent leaf amount now chain t') (id : H) : t'.IsRoot id ↔ t.IsRoot id := by
  unfold IsRoot
  rw [h.nodes]
  split_ifs
  · cases hn : t.nodes[id]? <;> simp
  · rfl

lemma isRoot_revoked {target : H} {node : MandateNode H} (hnode : t.nodes[target]? = some node)
    (id : H) : (⟨t.nodes.insert target { node with revoked := true }⟩ : MandateTree H).IsRoot id ↔
      t.IsRoot id := by
  unfold IsRoot
  rw [OrderedMap.get_insert]
  split_ifs with hid
  · subst hid
    simp [hnode]
  · rfl

lemma isRoot_created {node : MandateNode H} (hfresh : t.nodes[node.id]? = none) (id : H) :
    (⟨t.nodes.insert node.id node⟩ : MandateTree H).IsRoot id ↔
      t.IsRoot id ∨ node.id = id ∧ node.parent = none := by
  unfold IsRoot
  rw [OrderedMap.get_insert]
  split_ifs with hid
  · subst hid
    simp [hfresh]
  · simp [hid]

/-! ## Refusals -/

lemma refuses_checkChain (amount now depth : ℕ) (chain : List H) (t : MandateTree H) :
    (checkChain amount now depth chain).Refuses t (· ≠ .notFound) := by
  induction chain generalizing depth with
  | nil => exact (Exec.infallible_pure ()).refuses t _
  | cons id ids ih =>
    refine .get (((Exec.infallible_unwrap _).refuses t _).bind fun n t₁ h => ?_)
    obtain ⟨-, rfl⟩ := Exec.unwrap_eq_ok.mp h
    refine .rejectIf (fun _ => by simp) fun _ => .rejectIf (fun _ => by simp) fun _ => ?_
    exact .rejectIf (fun _ => by simp) fun _ => .rejectIf (fun _ => by simp) fun _ => ih _

/-- The check of an existing leaf never misses a node. -/
lemma Shaped.refuses_check {now : ℕ} (h : Shaped t now) {leaf : H} {n : MandateNode H}
    (hn : t.nodes[leaf]? = some n) (amount now' : ℕ) :
    (check leaf amount now').Refuses t (· ≠ .notFound) := by
  refine .get (.ofExcept (fun e he => ?_) fun chain _ => refuses_checkChain _ _ _ _ _)
  rintro rfl
  exact h.chainOf_ne_notFound hn he

/-- A spend from an existing leaf never misses a node. -/
lemma Shaped.refuses_spend {now : ℕ} (h : Shaped t now) {leaf : H} {n : MandateNode H}
    (hn : t.nodes[leaf]? = some n) (amount now' : ℕ) :
    (spend leaf amount now').Refuses t (· ≠ .notFound) := by
  refine (h.refuses_check hn amount now').bind fun _ t₁ hcheck => ?_
  obtain ⟨rfl, -⟩ := check_eq_ok hcheck
  refine .get (.ofExcept (fun e he => ?_) fun chain _ => (infallible_debitChain _ _ _).refuses _ _)
  rintro rfl
  exact h.chainOf_ne_notFound hn he

/-- An insertion below an existing parent never misses it. -/
lemma refuses_insert {node : MandateNode H}
    (hparent : ∀ p, node.parent = some p → ∃ parent, t.nodes[p]? = some parent) :
    (insert node).Refuses t (· ≠ .notFound) := by
  unfold insert
  cases hp : node.parent with
  | none => exact (Exec.infallible_modify _).refuses t _
  | some p =>
    obtain ⟨parent, hget⟩ := hparent p hp
    refine .get (.okOr (fun hnone => ?_) fun _ _ => ?_)
    · rw [hget] at hnone
      cases hnone
    · exact .rejectIf (fun _ => by simp) fun _ => .rejectIf (fun _ => by simp) fun _ =>
        (Exec.infallible_modify _).refuses t _

lemma refuses_insertAssetBound {node : MandateNode H}
    (hparent : ∀ p, node.parent = some p → ∃ parent, t.nodes[p]? = some parent) :
    (insertAssetBound node).Refuses t (· ≠ .notFound) := by
  have hcheck : (checkAssetBound node).Refuses t (· ≠ .notFound) ∧
    (checkAssetBound node t).2 = t := by
    unfold checkAssetBound
    cases hp : node.parent with
    | none => exact ⟨(Exec.infallible_pure ()).refuses t _, rfl⟩
    | some p =>
      obtain ⟨parent, hget⟩ := hparent p hp
      refine ⟨.get (.okOr (fun hnone => ?_) fun _ _ => fun e he => ?_), ?_⟩
      · rw [hget] at hnone
        cases hnone
      · unfold Exec.rejectIf at he
        split at he <;> cases he
        simp
      · exact Exec.Reads.bind Exec.reads_get (fun _ => .bind (Exec.reads_okOr _ _)
          fun _ => Exec.reads_rejectIf _ _) t
  refine hcheck.1.bind fun _ t₁ h => ?_
  have hsame : t₁ = t := by rw [← hcheck.2, h]
  rw [hsame]
  exact refuses_insert hparent

/-- A revocation of an existing node is not refused. -/
lemma refuses_revoke {id : H} {n : MandateNode H} (hn : t.nodes[id]? = some n) :
    (revoke id).Refuses t (· ≠ .notFound) := by
  refine .get (.okOr (fun hnone => ?_) fun _ _ => (Exec.infallible_modify _).refuses t _)
  rw [hn] at hnone
  cases hnone

end HashKinetics.MandateTree
