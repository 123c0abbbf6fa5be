import HashKinetics.Primitives
import HashKinetics.Foundations.Exec

/-!
# The mandate tree

Hierarchical budgets: a node accrues an allowance per second into a capped buffer, and a spend at a
leaf must clear every node on the way to the root.  `check` validates the whole chain and `spend`
then debits it.  The chain of a leaf is described by the relation `IsChain`, which the fuelled walk
`chainOf` computes.
-/

namespace HashKinetics

open Foundations

/-- The signature schemes of the keychain layers. -/
inductive SigScheme where
  | slhDsa192s
  | slhDsa128s
  | lms
  | xmss
  | wotsPlus
  | lamportRatchetV0
  deriving DecidableEq

/-- A consensus-enforced budget. -/
structure MandateNode (H : Type) where
  id : H
  parent : Option H
  /-- The key of the account the mandate authorises; always the 32 bytes of an account id. -/
  holderKey : H
  scheme : SigScheme
  asset : H
  /-- The drip accrual rate. -/
  ratePerSec : ℕ
  /-- The accrual cap. -/
  bufferMax : ℕ
  perTxMax : ℕ
  expiry : ℕ
  revoked : Bool
  /-- The allowance available at `lastAccrual`. -/
  buffer : ℕ
  lastAccrual : ℕ
  tier : ℕ

/-- Why the tree refuses; depths count from the leaf. -/
inductive SpendError where
  | notFound
  | revoked (depth : ℕ)
  | expired (depth : ℕ)
  | perTxCap (depth : ℕ)
  | insufficient (depth : ℕ) (have_ need : ℕ)
  | badChain
  | attenuation (reason : String)
  deriving DecidableEq

/-- The longest chain a walk follows. -/
def MAX_DEPTH : ℕ := 64

/-- The tree of mandates, as a map from ids to nodes with parent links. -/
structure MandateTree (H : Type) [LinearOrder H] where
  nodes : OrderedMap H (MandateNode H)

namespace MandateNode

variable {H : Type}

/-- The allowance of a node at `now`: the buffer plus what dripped since, capped. -/
def projected (n : MandateNode H) (now : ℕ) : ℕ :=
  min (satAdd u128Max n.buffer (satMul u128Max n.ratePerSec (now - n.lastAccrual))) n.bufferMax

/-- Lazy drip accrual. -/
def accrue (n : MandateNode H) (now : ℕ) : MandateNode H :=
  if n.lastAccrual < now then { n with buffer := n.projected now, lastAccrual := now } else n

/-- A node lets an amount through at `now`. -/
structure Clears (n : MandateNode H) (amount now : ℕ) : Prop where
  live : n.revoked = false
  unexpired : now < n.expiry
  perTx : amount ≤ n.perTxMax
  funded : amount ≤ n.projected now

/-- The node after an amount was debited at `now`. -/
def debited (n : MandateNode H) (amount now : ℕ) : MandateNode H :=
  { n.accrue now with buffer := (n.accrue now).buffer - amount }

@[simp] lemma accrue_parent (n : MandateNode H) (now : ℕ) :
    (n.accrue now).parent = n.parent := by
  unfold accrue; split <;> rfl

@[simp] lemma debited_parent (n : MandateNode H) (a : ℕ) (now : ℕ) :
    (n.debited a now).parent = n.parent := accrue_parent n now

end MandateNode

namespace MandateTree

variable {H : Type} [LinearOrder H]

instance : EmptyCollection (MandateTree H) := ⟨⟨∅⟩⟩

@[simp] lemma nodes_empty : (∅ : MandateTree H).nodes = ∅ := rfl

/-- The node at an id. -/
def get (t : MandateTree H) (id : H) : Option (MandateNode H) := t.nodes[id]?

/-- Insert a node under the attenuation rule: a child may only narrow. -/
def insert (node : MandateNode H) : Exec (MandateTree H) SpendError Unit := do
  match node.parent with
  | some pid =>
    let t ← Exec.get
    let parent ← Exec.okOr t.nodes[pid]? .notFound
    Exec.rejectIf (parent.expiry < node.expiry) (.attenuation "child expiry outlives parent")
    Exec.rejectIf (parent.perTxMax < node.perTxMax)
      (.attenuation "child per_tx_max exceeds parent")
    Exec.modify fun t => ⟨t.nodes.insert node.id node⟩
  | none => Exec.modify fun t => ⟨t.nodes.insert node.id node⟩

/-- A child must carry its parent's asset. -/
def checkAssetBound (node : MandateNode H) : Exec (MandateTree H) SpendError Unit := do
  match node.parent with
  | some pid =>
    let t ← Exec.get
    let parent ← Exec.okOr t.nodes[pid]? .notFound
    Exec.rejectIf (node.asset ≠ parent.asset) (.attenuation "child asset differs from parent")
  | none => pure ()

/-- `insert` under the asset rule. -/
def insertAssetBound (node : MandateNode H) : Exec (MandateTree H) SpendError Unit := do
  checkAssetBound node
  insert node

/-- Revoke a node. -/
def revoke (id : H) : Exec (MandateTree H) SpendError Unit := do
  let t ← Exec.get
  let n ← Exec.okOr t.nodes[id]? .notFound
  Exec.modify fun t => ⟨t.nodes.insert id { n with revoked := true }⟩

/-- The walk from a node to the root, with the number of nodes it may still visit. -/
def chainFrom (t : MandateTree H) : ℕ → H → Except SpendError (List H)
  | 0, _ => .error .badChain
  | n + 1, cur =>
    match t.nodes[cur]? with
    | none => .error .notFound
    | some node =>
      match node.parent with
      | none => .ok [cur]
      | some p =>
        match chainFrom t n p with
        | .ok chain => .ok (cur :: chain)
        | .error e => .error e

/-- The leaf-to-root chain of ids. -/
def chainOf (t : MandateTree H) (leaf : H) : Except SpendError (List H) :=
  t.chainFrom MAX_DEPTH leaf

/-- Check every node of a chain, counting depths from `depth`. -/
def checkChain (amount now : ℕ) :
    ℕ → List H → Exec (MandateTree H) SpendError Unit
  | _, [] => pure ()
  | depth, id :: ids => do
    let t ← Exec.get
    let n ← Exec.unwrap t.nodes[id]?
    Exec.rejectIf (n.revoked = true) (.revoked depth)
    Exec.rejectIf (n.expiry ≤ now) (.expired depth)
    Exec.rejectIf (n.perTxMax < amount) (.perTxCap depth)
    Exec.rejectIf (n.projected now < amount) (.insufficient depth (n.projected now) amount)
    checkChain amount now (depth + 1) ids

/-- Read-only validation of a prospective spend. -/
def check (leaf : H) (amount now : ℕ) : Exec (MandateTree H) SpendError Unit := do
  let t ← Exec.get
  let chain ← Exec.ofExcept id (t.chainOf leaf)
  checkChain amount now 0 chain

/-- Accrue and debit every node of a chain. -/
def debitChain (amount now : ℕ) :
    List H → Exec (MandateTree H) SpendError Unit
  | [] => pure ()
  | id :: ids => do
    let t ← Exec.get
    let n ← Exec.unwrap t.nodes[id]?
    let buffer ← Exec.unwrap (checkedSub (n.accrue now).buffer amount)
    Exec.modify fun t => ⟨t.nodes.insert id { n.accrue now with buffer := buffer }⟩
    debitChain amount now ids

/-- Spend an amount from a leaf: validate, then debit the entire ancestor chain. -/
def spend (leaf : H) (amount now : ℕ) : Exec (MandateTree H) SpendError Unit := do
  check leaf amount now
  let t ← Exec.get
  let chain ← Exec.ofExcept id (t.chainOf leaf)
  debitChain amount now chain

/-- The root of a leaf's chain, which is asserted to have a last element. -/
def rootOf (t : MandateTree H) (leaf : H) : Outcome SpendError H :=
  match t.chainOf leaf with
  | .ok chain =>
    match chain.getLast? with
    | some root => .ok root
    | none => .fault
  | .error e => .err e

/-! ## Chains -/

/-- `chain` lists the ids from `leaf` up to the root above it. -/
inductive IsChain (t : MandateTree H) : H → List H → Prop
  | root {leaf : H} {n : MandateNode H} (h : t.nodes[leaf]? = some n) (hp : n.parent = none) :
      IsChain t leaf [leaf]
  | step {leaf p : H} {n : MandateNode H} {chain : List H} (h : t.nodes[leaf]? = some n)
      (hp : n.parent = some p) (hc : IsChain t p chain) : IsChain t leaf (leaf :: chain)

/-- The fuelled walk computes the chain. -/
lemma isChain_of_chainFrom {t : MandateTree H} {fuel : ℕ} {leaf : H} {chain : List H}
    (h : t.chainFrom fuel leaf = .ok chain) : IsChain t leaf chain := by
  induction fuel generalizing leaf chain with
  | zero => simp [chainFrom] at h
  | succ fuel ih =>
    unfold chainFrom at h
    split at h
    · cases h
    next node hnode =>
    split at h
    · next hp =>
      cases h
      exact .root hnode hp
    · next p hp =>
      split at h
      · next rest hrest =>
        cases h
        exact .step hnode hp (ih hrest)
      · cases h

lemma isChain_of_chainOf {t : MandateTree H} {leaf : H} {chain : List H}
    (h : t.chainOf leaf = .ok chain) : IsChain t leaf chain :=
  isChain_of_chainFrom h

namespace IsChain

variable {t : MandateTree H} {leaf : H} {chain : List H}

/-- A leaf has one chain. -/
lemma unique (h : IsChain t leaf chain) {chain' : List H} (h' : IsChain t leaf chain') :
    chain = chain' := by
  induction h generalizing chain' with
  | root hn hp =>
    cases h' with
    | root => rfl
    | step hn' hp' _ =>
      rw [hn] at hn'
      cases hn'
      simp [hp] at hp'
  | step hn hp _ ih =>
    cases h' with
    | root hn' hp' =>
      rw [hn] at hn'
      cases hn'
      simp [hp] at hp'
    | step hn' hp' hc' =>
      rw [hn] at hn'
      cases hn'
      rw [hp] at hp'
      cases hp'
      rw [ih hc']

/-- The leaf heads its chain. -/
lemma head_mem (h : IsChain t leaf chain) : leaf ∈ chain := by
  cases h <;> simp

/-- Every id of a chain has a node. -/
lemma exists_node (h : IsChain t leaf chain) {id : H} (hid : id ∈ chain) :
    ∃ n, t.nodes[id]? = some n := by
  induction h with
  | root hn hp =>
    rw [List.mem_singleton] at hid
    exact ⟨_, hid ▸ hn⟩
  | step hn hp _ ih =>
    rcases List.mem_cons.mp hid with rfl | hid
    · exact ⟨_, hn⟩
    · exact ih hid

/-- The part of a chain from one of its ids on is the chain of that id. -/
lemma suffix_of_mem (h : IsChain t leaf chain) {id : H} (hid : id ∈ chain) :
    ∃ rest, IsChain t id rest ∧ rest <:+ chain := by
  induction h with
  | root hn hp =>
    rw [List.mem_singleton] at hid
    subst hid
    exact ⟨_, .root hn hp, List.suffix_rfl⟩
  | step hn hp hc ih =>
    rcases List.mem_cons.mp hid with rfl | hid
    · exact ⟨_, .step hn hp hc, List.suffix_rfl⟩
    · obtain ⟨rest, hrest, hsuf⟩ := ih hid
      exact ⟨rest, hrest, hsuf.trans (List.suffix_cons _ _)⟩

/-- A chain visits no node twice: a repeated id would have two chains of different lengths. -/
lemma nodup (h : IsChain t leaf chain) : chain.Nodup := by
  induction h with
  | root hn hp => exact List.nodup_singleton _
  | step hn hp hc ih =>
    refine List.nodup_cons.mpr ⟨fun hmem => ?_, ih⟩
    obtain ⟨rest, hrest, hsuf⟩ := hc.suffix_of_mem hmem
    have heq := hrest.unique (.step hn hp hc)
    have hlen := hsuf.length_le
    rw [heq, List.length_cons] at hlen
    omega

/-- Chains only depend on the parent links of the nodes they visit. -/
lemma congr (h : IsChain t leaf chain) {t' : MandateTree H}
    (hlink : ∀ id ∈ chain, ∀ n, t.nodes[id]? = some n →
      ∃ n', t'.nodes[id]? = some n' ∧ n'.parent = n.parent) : IsChain t' leaf chain := by
  induction h with
  | root hn hp =>
    obtain ⟨n', hn', hp'⟩ := hlink _ (by simp) _ hn
    exact .root hn' (hp'.trans hp)
  | step hn hp _ ih =>
    obtain ⟨n', hn', hp'⟩ := hlink _ (by simp) _ hn
    exact .step hn' (hp'.trans hp) (ih fun id hid => hlink id (List.mem_cons_of_mem _ hid))

end IsChain

section Roots

variable {t : MandateTree H}

/-- The root of a leaf whose walk succeeds is the last id of its chain. -/
lemma rootOf_eq_ok_getLastD {id : H} {chain : List H} (h : t.chainOf id = .ok chain) :
    t.rootOf id = .ok (chain.getLastD id) := by
  cases chain with
  | nil => cases (isChain_of_chainOf h).head_mem
  | cons leaf rest =>
    simp only [rootOf, h, List.getLast?_cons, List.getLastD_eq_getLast?, Option.getD_some]

/-- A root found is the last id of a chain. -/
lemma exists_chain_of_rootOf {id root : H} (h : t.rootOf id = .ok root) :
    ∃ chain, t.chainOf id = .ok chain ∧ chain.getLastD id = root := by
  cases hchain : t.chainOf id with
  | error e => simp [rootOf, hchain] at h
  | ok chain =>
    rw [rootOf_eq_ok_getLastD hchain] at h
    cases h
    exact ⟨chain, rfl, rfl⟩

/-- A walk that succeeds has passed its leaf, so the assertion on its chain holds. -/
lemma rootOf_ne_fault (t : MandateTree H) (id : H) : t.rootOf id ≠ .fault := by
  cases hchain : t.chainOf id with
  | error e => simp [rootOf, hchain]
  | ok chain => simp [rootOf_eq_ok_getLastD hchain]

/-- The search for a root refuses as the walk does. -/
lemma rootOf_err {id : H} {e : SpendError} (h : t.rootOf id = .err e) :
    t.chainOf id = .error e := by
  cases hchain : t.chainOf id with
  | error e' =>
    simp only [rootOf, hchain] at h
    cases h
    rfl
  | ok chain => simp [rootOf_eq_ok_getLastD hchain] at h

end Roots

/-! ## What a successful operation did -/

/-- A chain that passed the check: every node on it lets the amount through. -/
lemma checkChain_eq_ok {t t' : MandateTree H} {amount now : ℕ} {depth : ℕ}
    {chain : List H} {u : Unit} (h : checkChain amount now depth chain t = (.ok u, t')) :
    t' = t ∧ ∀ id ∈ chain, ∃ n, t.nodes[id]? = some n ∧ n.Clears amount now := by
  induction chain generalizing depth with
  | nil =>
    simp only [checkChain, Exec.pure_eq_ok] at h
    simp [← h.2]
  | cons id ids ih =>
    simp only [checkChain, Exec.bind_eq_ok, Exec.get_eq_ok, Exec.unwrap_eq_ok,
      Exec.rejectIf_eq_ok] at h
    obtain ⟨_, _, ⟨rfl, rfl⟩, n, _, ⟨hn, rfl⟩, _, _, ⟨hr, rfl⟩, _, _, ⟨he, rfl⟩, _, _, ⟨hp, rfl⟩,
      _, _, ⟨hb, rfl⟩, hrest⟩ := h
    obtain ⟨rfl, hall⟩ := ih hrest
    refine ⟨rfl, List.forall_mem_cons.mpr ⟨⟨n, hn, ?_⟩, hall⟩⟩
    exact ⟨by simpa using hr, by omega, by omega, by omega⟩

/-- A check that passed: the leaf has a chain, and every node on it lets the amount through. -/
lemma check_eq_ok {t t' : MandateTree H} {leaf : H} {amount now : ℕ} {u : Unit}
    (h : check leaf amount now t = (.ok u, t')) :
    t' = t ∧ ∃ chain, t.chainOf leaf = .ok chain ∧
      ∀ id ∈ chain, ∃ n, t.nodes[id]? = some n ∧ n.Clears amount now := by
  simp only [check, Exec.bind_eq_ok, Exec.get_eq_ok, Exec.ofExcept_eq_ok] at h
  obtain ⟨_, _, ⟨rfl, rfl⟩, chain, _, ⟨hchain, rfl⟩, hcheck⟩ := h
  obtain ⟨rfl, hall⟩ := checkChain_eq_ok hcheck
  exact ⟨rfl, chain, hchain, hall⟩

/-- Debiting a chain without repetition debits each of its nodes once and no other node. -/
lemma debitChain_eq_ok {t t' : MandateTree H} {amount now : ℕ}
    {chain : List H} {u : Unit} (hnd : chain.Nodup)
    (h : debitChain amount now chain t = (.ok u, t')) :
    ∀ id, t'.nodes[id]? =
      if id ∈ chain then t.nodes[id]?.map (·.debited amount now) else t.nodes[id]? := by
  induction chain generalizing t with
  | nil =>
    simp only [debitChain, Exec.pure_eq_ok] at h
    simp [← h.2]
  | cons k ids ih =>
    simp only [debitChain, Exec.bind_eq_ok, Exec.get_eq_ok, Exec.unwrap_eq_ok,
      Exec.modify_eq_ok, checkedSub_eq_some] at h
    obtain ⟨_, _, ⟨rfl, rfl⟩, n, _, ⟨hn, rfl⟩, _, _, ⟨⟨-, rfl⟩, rfl⟩, _, _, rfl, hrest⟩ := h
    obtain ⟨hk, hnd⟩ := List.nodup_cons.mp hnd
    intro id
    rw [ih hnd hrest id, OrderedMap.get_insert]
    by_cases hkid : k = id
    · subst hkid
      simp [hk, hn, MandateNode.debited]
    · simp [hkid, Ne.symm hkid]

/-- What a spend that went through established and did. -/
structure Spent (t : MandateTree H) (leaf : H) (amount now : ℕ)
    (chain : List H) (t' : MandateTree H) : Prop where
  walk : t.chainOf leaf = .ok chain
  clears : ∀ id ∈ chain, ∃ n, t.nodes[id]? = some n ∧ n.Clears amount now
  nodes : ∀ id, t'.nodes[id]? =
    if id ∈ chain then t.nodes[id]?.map (·.debited amount now) else t.nodes[id]?

/-- A spend debits exactly the nodes of the leaf's chain. -/
lemma spend_eq_ok {t t' : MandateTree H} {leaf : H} {amount now : ℕ} {u : Unit}
    (h : spend leaf amount now t = (.ok u, t')) : ∃ chain, Spent t leaf amount now chain t' := by
  simp only [spend, Exec.bind_eq_ok, Exec.get_eq_ok, Exec.ofExcept_eq_ok] at h
  obtain ⟨_, _, hcheck, _, _, ⟨rfl, rfl⟩, chain, _, ⟨hchain, rfl⟩, hdebit⟩ := h
  obtain ⟨rfl, chain', hchain', hall⟩ := check_eq_ok hcheck
  obtain rfl : chain = chain' := by rw [hchain'] at hchain; cases hchain; rfl
  exact ⟨chain, hchain, hall, debitChain_eq_ok (isChain_of_chainOf hchain).nodup hdebit⟩

/-- An insertion that went through wrote the node, below a parent that it narrows. -/
lemma insert_eq_ok {t t' : MandateTree H} {node : MandateNode H} {u : Unit}
    (h : insert node t = (.ok u, t')) :
    t'.nodes = t.nodes.insert node.id node ∧
      ∀ p, node.parent = some p → ∃ parent, t.nodes[p]? = some parent ∧
        node.expiry ≤ parent.expiry ∧ node.perTxMax ≤ parent.perTxMax := by
  cases hp : node.parent with
  | some p =>
    simp only [insert, hp, Exec.bind_eq_ok, Exec.get_eq_ok, Exec.okOr_eq_ok, Exec.rejectIf_eq_ok,
      Exec.modify_eq_ok] at h
    obtain ⟨_, _, ⟨rfl, rfl⟩, parent, _, ⟨hparent, rfl⟩, _, _, ⟨he, rfl⟩, _, _, ⟨hm, rfl⟩, rfl⟩ := h
    refine ⟨rfl, fun q hq => ?_⟩
    cases hq
    exact ⟨parent, hparent, by omega, by omega⟩
  | none =>
    simp only [insert, hp, Exec.modify_eq_ok] at h
    subst h
    exact ⟨rfl, fun q hq => by cases hq⟩

/-- The asset rule that `insertAssetBound` adds. -/
lemma insertAssetBound_eq_ok {t t' : MandateTree H} {node : MandateNode H} {u : Unit}
    (h : insertAssetBound node t = (.ok u, t')) :
    insert node t = (.ok u, t') ∧
      ∀ p, node.parent = some p → ∃ parent, t.nodes[p]? = some parent ∧
        node.asset = parent.asset := by
  simp only [insertAssetBound, Exec.bind_eq_ok] at h
  obtain ⟨_, t₁, hcheck, hins⟩ := h
  cases hp : node.parent with
  | some p =>
    simp only [checkAssetBound, hp, Exec.bind_eq_ok, Exec.get_eq_ok, Exec.okOr_eq_ok,
      Exec.rejectIf_eq_ok, not_not] at hcheck
    obtain ⟨_, _, ⟨rfl, rfl⟩, parent, _, ⟨hparent, rfl⟩, hasset, rfl⟩ := hcheck
    refine ⟨hins, fun q hq => ?_⟩
    cases hq
    exact ⟨parent, hparent, hasset⟩
  | none =>
    simp only [checkAssetBound, hp, Exec.pure_eq_ok] at hcheck
    obtain ⟨-, rfl⟩ := hcheck
    exact ⟨hins, fun q hq => by cases hq⟩

/-- A revocation sets the flag of one node. -/
lemma revoke_eq_ok {t t' : MandateTree H} {id : H} {u : Unit}
    (h : revoke id t = (.ok u, t')) :
    ∃ n, t.nodes[id]? = some n ∧ t'.nodes = t.nodes.insert id { n with revoked := true } := by
  simp only [revoke, Exec.bind_eq_ok, Exec.get_eq_ok, Exec.okOr_eq_ok, Exec.modify_eq_ok] at h
  obtain ⟨_, _, ⟨rfl, rfl⟩, n, _, ⟨hn, rfl⟩, rfl⟩ := h
  exact ⟨n, hn, rfl⟩

/-- Debiting never refuses: the check came before. -/
lemma infallible_debitChain (amount now : ℕ) (chain : List H) :
    (debitChain amount now chain).Infallible := by
  induction chain with
  | nil => exact Exec.infallible_pure _
  | cons id ids ih =>
    refine Exec.infallible_get.bind fun t => (Exec.infallible_unwrap _).bind fun n => ?_
    exact (Exec.infallible_unwrap _).bind fun _ => (Exec.infallible_modify _).bind fun _ => ih

end MandateTree

end HashKinetics
