import HashKinetics.State.Solvency
import HashKinetics.Node.ContentBinding

/-!
# The note feeds

Wallets rebuild their authentication paths from the note feed of a pool, so the feed has to list the
leaves of the pool's tree in tree order.  The node files the outputs of a block once the block is
applied: a shield goes to the feed of its asset's pool, the outputs of a spend to the feed of the
pool that knows the anchor.  By then the pools have sealed their new roots, so the pool that knows
the anchor may be another one than the pool that the spend acted on.
-/

namespace HashKinetics

open Foundations

section

variable {H : Type} [LinearOrder H] [HashSuite H]

namespace State

/-! ## Where a transaction is filed -/

/-- What later states of a block still know about the pools of a state: the asset of the legacy pool
and which pools there are. -/
structure PoolsLater (s s' : State H) : Prop where
  pinned : ∀ a, s.pool.asset = some a → s'.pool.asset = some a
  pools : ∀ a, s.pools.contains a = true → s'.pools.contains a = true

omit [HashSuite H] in
lemma PoolsLater.refl (s : State H) : PoolsLater s s := ⟨fun _ h => h, fun _ h => h⟩

omit [HashSuite H] in
lemma PoolsLater.trans {s₁ s₂ s₃ : State H} (h₁ : PoolsLater s₁ s₂) (h₂ : PoolsLater s₂ s₃) :
    PoolsLater s₁ s₃ :=
  ⟨fun a h => h₂.pinned a (h₁.pinned a h), fun a h => h₂.pools a (h₁.pools a h)⟩

omit [HashSuite H] in
lemma contains_pools_iff (s : State H) (a : H) :
    s.pools.contains a = true ↔ ∃ p, s.poolRef (.asset a) = some p := by
  rw [Std.ExtTreeMap.contains_eq_isSome_getElem?, Option.isSome_iff_exists]
  rfl

omit [HashSuite H] in
/-- The pools behind the keys decide. -/
lemma poolsLater_of_poolRef {s s' : State H}
    (h : ∀ key p, s.poolRef key = some p → ∃ p', s'.poolRef key = some p' ∧
      ∀ a, p.asset = some a → p'.asset = some a) : PoolsLater s s' := by
  refine ⟨fun a ha => ?_, fun a ha => ?_⟩
  · obtain ⟨p', hp', hasset⟩ := h .legacy s.pool rfl
    obtain rfl : s'.pool = p' := Option.some.inj hp'
    exact hasset a ha
  · obtain ⟨p, hp⟩ := (contains_pools_iff s a).mp ha
    obtain ⟨p', hp', -⟩ := h (.asset a) p hp
    exact (contains_pools_iff s' a).mpr ⟨p', hp'⟩

lemma PoolMove.poolsLater {s s' : State H} {sender : H} {tx : Tx H} (h : PoolMove s sender tx s') :
    PoolsLater s s' := by
  refine poolsLater_of_poolRef fun key p hp => ?_
  cases h with
  | idle htx hpool hpools => exact ⟨p, by rw [poolRef_congr hpool hpools, hp], fun _ h => h⟩
  | @minted asset commitment value proof ct key' _ hkey hrange hproved hroom hset =>
    rw [hset, poolRef_setPool]
    split_ifs with hk
    · subst hk
      refine ⟨_, rfl, fun a ha => ?_⟩
      rcases poolForMint_eq s key' with hold | ⟨hnone, -⟩
      · rw [hold] at hp
        cases hp
        simp [PoolState.minted, ha]
      · rw [hnone] at hp
        cases hp
    · exact ⟨p, hp, fun _ h => h⟩
  | @spent anchor nf out out2 fee creditTo mandate proof ct ct2 key' pool t _ hun hset =>
    rw [hset, poolRef_setPool]
    split_ifs with hk
    · subst hk
      rw [hun.poolAt] at hp
      cases hp
      exact ⟨_, rfl, fun _ h => h⟩
    · exact ⟨p, hp, fun _ h => h⟩

lemma poolsLater_sealBlock (s : State H) : PoolsLater s s.sealBlock := by
  refine poolsLater_of_poolRef fun key p hp => ⟨p.sealAnchor, ?_, fun a ha => ?_⟩
  · rw [poolRef_sealBlock, hp]
    rfl
  · rw [PoolState.sealAnchor_asset]
    exact ha

/-- A shield is filed under the pool it went to. -/
lemma feedOfAsset_of_minted {s s' S : State H} {asset commitment : H} {value : ℕ}
    {key : PoolKey H} (hkey : s.poolKeyOfAsset asset = .ok key)
    (hset : ∀ key', s'.poolRef key' = (s.setPool key
      ((s.poolForMint key).minted asset commitment value)).poolRef key')
        (hlater : PoolsLater s' S) :
    HkApp.feedOfAsset S asset = key := by
  have hat := hset key
  rw [poolRef_setPool, if_pos rfl] at hat
  unfold poolKeyOfAsset at hkey
  unfold HkApp.feedOfAsset poolKeyOfAsset
  cases hpinned : s.pool.asset with
  | none =>
    rw [hpinned] at hkey
    cases hkey
    have hasset : s'.pool.asset = some asset := by
      rw [Option.some.inj hat, PoolState.minted, poolForMint, hpinned]
      rfl
    rw [hlater.pinned asset hasset]
    simp
  | some a =>
    simp only [hpinned] at hkey
    split_ifs at hkey with ha hactive
    · cases hkey
      subst ha
      have hasset : s'.pool.asset = some a := by
        rw [Option.some.inj hat, PoolState.minted, poolForMint, hpinned]
        rfl
      rw [hlater.pinned a hasset]
      simp
    · cases hkey
      have hlegacy := hset .legacy
      rw [poolRef_setPool, if_neg (by simp)] at hlegacy
      have hasset : s'.pool.asset = some a := by
        rw [Option.some.inj hlegacy, hpinned]
      have hthere := hlater.pools asset ((contains_pools_iff s' asset).mpr ⟨_, hat⟩)
      rw [hlater.pinned a hasset]
      simp [ha, hthere]

/-- Once the pools of a state are sealed, the anchor of a spend still leads to the feed of the given
pool: it is in the window of that pool and of none that is asked before it.  A spend from the legacy
pool is also filed right when no pool knows its anchor any more. -/
def KeepsRoute (s : State H) (anchor : H) : PoolKey H → Prop
  | .legacy => s.pool.sealAnchor.isRecentAnchor anchor ∨
      ∀ (a : H) (p : PoolState H), s.pools[a]? = some p → ¬ p.sealAnchor.isRecentAnchor anchor
  | .asset a => ¬ s.pool.sealAnchor.isRecentAnchor anchor ∧
      (∃ p : PoolState H, s.pools[a]? = some p ∧ p.sealAnchor.isRecentAnchor anchor) ∧
      ∀ (b : H) (p : PoolState H), b < a → s.pools[b]? = some p →
        ¬ p.sealAnchor.isRecentAnchor anchor

lemma feedOfAnchor_of_keepsRoute {s : State H} {anchor : H} {key : PoolKey H}
    (h : s.KeepsRoute anchor key) : HkApp.feedOfAnchor s.sealBlock anchor = key := by
  have hpools : ∀ (a : H) (q : PoolState H), (a, q) ∈ s.sealBlock.pools.toList ↔
      ∃ p, s.pools[a]? = some p ∧ p.sealAnchor = q := by
    intro a q
    rw [OrderedMap.mem_toList]
    simp [sealBlock, Std.ExtTreeMap.getElem?_map]
  unfold HkApp.feedOfAnchor poolKeyOfAnchor
  cases key with
  | legacy =>
    rcases h with hrecent | hnone
    · rw [if_pos (show s.sealBlock.pool.isRecentAnchor anchor from hrecent)]
    · split
      · next a hfind =>
        split_ifs at hfind with hpool
        · cases hfind
        obtain ⟨⟨b, q⟩, hmem, -⟩ := Option.map_eq_some_iff.mp hfind
        obtain ⟨p, hp, rfl⟩ := (hpools b q).mp (List.mem_of_find?_eq_some hmem)
        have hpred := List.find?_some hmem
        exact absurd (of_decide_eq_true hpred) (hnone b p hp)
      · rfl
  | asset a =>
    obtain ⟨hlegacy, ⟨p, hp, hrecent⟩, hbefore⟩ := h
    rw [if_neg (show ¬ s.sealBlock.pool.isRecentAnchor anchor from hlegacy)]
    have hmem : (a, p.sealAnchor) ∈ s.sealBlock.pools.toList := (hpools a _).mpr ⟨p, hp, rfl⟩
    cases hfind : s.sealBlock.pools.toList.find? fun e => e.2.isRecentAnchor anchor with
    | none =>
      have hno := List.find?_eq_none.mp hfind _ hmem
      exact absurd (decide_eq_true hrecent) hno
    | some e =>
      -- the list is in the order of the assets, so what is found comes first
      obtain ⟨hpred, pre, post, hsplit, hpre⟩ := List.find?_eq_some_iff_append.mp hfind
      have hsorted := OrderedMap.sorted_keys s.sealBlock.pools
      rw [← Std.ExtTreeMap.map_fst_toList_eq_keys, hsplit] at hsorted
      obtain ⟨b, q⟩ := e
      obtain ⟨p', hp', rfl⟩ := (hpools b q).mp (by rw [hsplit]; simp)
      rw [hsplit, List.mem_append, List.mem_cons] at hmem
      rcases hmem with hmem | heq | hmem
      · exact absurd (decide_eq_true hrecent) (by simpa using hpre _ hmem)
      · rw [(Prod.mk.inj heq).1]
        rfl
      · have hlt : b < a := by
          rw [List.map_append, List.pairwise_append, List.map_cons, List.pairwise_cons] at hsorted
          exact hsorted.2.1.1 a (List.mem_map_of_mem hmem)
        exact absurd (of_decide_eq_true hpred) (hbefore b p' hlt hp')

end State

variable [NodeCodec H] [TxCodec H] [StateCodec H]

namespace HkApp

variable {P : NodeParams H} {a a' : HkApp H}

/-! ## Feeds and trees -/

/-- The feeds are those of the pools of a state: every feed lists the leaves of its pool's tree in
tree order, and there is no feed without a pool. -/
def FeedsOf (a : HkApp H) (s : State H) : Prop :=
  ∀ key, match s.poolRef key with
    | some p => p.tree = .ofLeaves ((a.feed key).map Prod.fst)
    | none => a.feed key = []

omit [NodeCodec H] [TxCodec H] [StateCodec H] in
lemma FeedsOf.tree_eq {s : State H} (h : a.FeedsOf s) {key : PoolKey H} {p : PoolState H}
    (hp : s.poolRef key = some p) : p.tree = .ofLeaves ((a.feed key).map Prod.fst) := by
  have hkey := h key
  rw [hp] at hkey
  exact hkey

omit [NodeCodec H] [TxCodec H] [StateCodec H] in
lemma FeedsOf.feed_eq_nil {s : State H} (h : a.FeedsOf s) {key : PoolKey H}
    (hp : s.poolRef key = none) :
    a.feed key = [] := by
  have hkey := h key
  rw [hp] at hkey
  exact hkey

omit [HashSuite H] [NodeCodec H] [TxCodec H] [StateCodec H] in
@[simp] lemma feed_pushNotes (a : HkApp H) (key key' : PoolKey H) (notes : List (PoolNote H)) :
    (a.pushNotes key notes).feed key' = if key = key' then a.feed key' ++
      notes else a.feed key' := by
  cases key with
  | legacy => cases key' <;> simp [pushNotes, feed]
  | asset x =>
    cases key' with
    | legacy => simp [pushNotes, feed]
    | asset y =>
      simp only [pushNotes, feed, OrderedMap.get_insert, PoolKey.asset.injEq]
      split_ifs with h
      · subst h
        rfl
      · rfl

omit [NodeCodec H] [TxCodec H] [StateCodec H] in
/-- One pool gets new leaves, and its feed the same. -/
lemma FeedsOf.pushNotes {s s' : State H} (h : a.FeedsOf s) {key : PoolKey H} {p : PoolState H}
    {notes : List (PoolNote H)}
    (hset : ∀ key', s'.poolRef key' = if key = key' then some p else s.poolRef key')
    (htree : p.tree = .ofLeaves ((a.feed key ++ notes).map Prod.fst)) :
    (a.pushNotes key notes).FeedsOf s' := by
  intro key'
  rw [hset, feed_pushNotes]
  split_ifs with hk
  · subst hk
    exact htree
  · exact h key'

omit [NodeCodec H] [TxCodec H] [StateCodec H] in
/-- The feeds depend on nothing but the trees of the pools. -/
lemma FeedsOf.congr {s s' : State H} (h : a.FeedsOf s) (hfeed : a'.feed = a.feed)
    (htree : ∀ key, (s'.poolRef key).map PoolState.tree = (s.poolRef key).map PoolState.tree) :
    a'.FeedsOf s' := by
  intro key
  have hkey := h key
  have ht := htree key
  rw [hfeed]
  cases hs : s.poolRef key with
  | none =>
    rw [hs] at hkey ht
    rw [Option.map_eq_none_iff.mp ht]
    exact hkey
  | some p =>
    rw [hs] at hkey ht
    obtain ⟨p', hp', heq⟩ := Option.map_eq_some_iff.mp ht
    rw [hp']
    exact heq.trans hkey

/-! ## One block -/

/-- The outputs of a successful transaction, filed on the state that the application holds. -/
def filed (a : HkApp H) : Elementary H → HkApp H
  | .tx stx evs => a.routeNotes (stx, ⟨0, .ok evs⟩)
  | _ => a

omit [HashSuite H] [NodeCodec H] [TxCodec H] [StateCodec H] in
lemma chain_filed (a : HkApp H) (l : Elementary H) : (a.filed l).chain = a.chain := by
  cases l with
  | tx stx evs =>
    have hroute := foldl_routeNotes_eq [(stx, (⟨0, .ok evs⟩ : Receipt H))] a
    exact (congrArg HkApp.chain hroute :)
  | _ => rfl

omit [HashSuite H] [NodeCodec H] [TxCodec H] [StateCodec H] in
/-- Refused transactions are not filed. -/
lemma foldl_routeNotes_eq_filed (txs : List (SignedTx H)) (receipts : List (Receipt H))
    (a : HkApp H) :
    (txs.zip receipts).foldl routeNotes a = (State.successes txs receipts).foldl filed a := by
  unfold State.successes
  generalize txs.zip receipts = es
  induction es generalizing a with
  | nil => rfl
  | cons e es ih =>
    obtain ⟨stx, i, r⟩ := e
    rw [List.foldl_cons, ih]
    cases r with
    | ok evs => rfl
    | error m => rfl

/-- A spend in the block still leads to its pool once the pools of `S` are sealed. -/
def SpendKeepsRoute (S : State H) (t : State H) : Elementary H → Prop
  | .tx stx _ => ∀ anchor nf out out2 fee credit mandate proof ct ct2 key,
      stx.payload = .shieldedSpend anchor nf out out2 fee credit mandate proof ct ct2 →
      t.poolKeyOfAnchor anchor = some key → S.KeepsRoute anchor key
  | _ => True

omit [NodeCodec H] [StateCodec H] in
/-- A transaction that is filed under the pool it acted on keeps feeds and trees together. -/
lemma FeedsOf.tx {s s' S : State H} {stx : SignedTx H} {evs : List (Event H)} (h : a.FeedsOf s)
    (hchain : a.chain = S.sealBlock) (hstep : State.ElemStep s (.tx stx evs) s')
    (hlater : State.PoolsLater s' S.sealBlock) (hroute : SpendKeepsRoute S s (.tx stx evs)) :
    (a.filed (.tx stx evs)).FeedsOf s' := by
  have hmove : State.PoolMove s stx.sender stx.payload s' := by
    cases hstep with
    | tx happly => exact State.poolMove_applyTxAt happly
  have haccepted : (⟨0, .ok evs⟩ : Receipt H).accepted = true := rfl
  dsimp only [filed, routeNotes]
  rw [if_pos haccepted, hchain]
  generalize htx : stx.payload = tx at hmove
  cases hmove with
  | idle hout hpool hpools =>
    have hsame : a.FeedsOf s' := h.congr rfl fun key => by rw [State.poolRef_congr hpool hpools]
    cases tx with
    | mintToPool asset value commitment proof ct => cases hout
    | shieldedSpend anchor nf out out2 fee creditTo mandate proof ct ct2 => cases hout
    | _ => exact hsame
  | @minted asset commitment value proof ct key _ hkey hrange hproved hroom hset =>
    dsimp only
    rw [State.feedOfAsset_of_minted hkey hset hlater]
    refine h.pushNotes (fun key' => by rw [hset, State.poolRef_setPool]) ?_
    have hold : (s.poolForMint key).tree = .ofLeaves ((a.feed key).map Prod.fst) := by
      rcases State.poolForMint_eq s key with hat | ⟨hnone, hnew⟩
      · exact h.tree_eq hat
      · rw [hnew, h.feed_eq_nil hnone]
        rfl
    rw [List.map_append, List.map_singleton, IncrementalTree.ofLeaves_append, ← hold]
    rfl
  | @spent anchor nf out out2 fee creditTo mandate proof ct ct2 key pool t _ hun hset =>
    have hkeeps := hroute anchor nf out out2 fee creditTo mandate proof ct ct2 key htx hun.anchorKey
    dsimp only
    rw [State.feedOfAnchor_of_keepsRoute hkeeps]
    refine h.pushNotes (fun key' => by rw [hset, State.poolRef_setPool]) ?_
    have hnotes : (a.feed key ++ [(out, ct), (out2, ct2)]).map Prod.fst =
        (a.feed key).map Prod.fst ++ [out] ++ [out2] := by simp
    rw [hnotes, IncrementalTree.ofLeaves_append, IncrementalTree.ofLeaves_append,
      ← h.tree_eq hun.poolAt]
    rfl

omit [NodeCodec H] [StateCodec H] in
/-- The successful transactions of a block, filed one after the other, keep feeds and trees
together. -/
lemma FeedsOf.txs {s S : State H} {ls : List (Elementary H)} (h : a.FeedsOf s)
    (hchain : a.chain = S.sealBlock) (hpath : Path State.ElemStep s ls S)
    (htxs : ∀ l ∈ ls, ∃ stx evs, l = .tx stx evs)
    (hroute : Path.Along State.ElemStep s ls (SpendKeepsRoute S)) :
    (ls.foldl filed a).FeedsOf S := by
  -- from every state of the path the pools of its end are later ones
  have hlater : Path.Along State.ElemStep s ls fun t l => ∀ t', State.ElemStep t l t' →
      State.PoolsLater t' S := by
    intro pre l t hpre ht t' hstep
    obtain ⟨rest, rfl⟩ := hpre
    rw [List.append_assoc] at hpath
    obtain ⟨u, hu, hrest⟩ := hpath.exists_of_append
    obtain rfl := Path.eq_of_deterministic State.elemStep_deterministic hu ht
    obtain ⟨v, hv, hend⟩ := Path.exists_of_append hrest
    obtain rfl := Path.eq_of_deterministic State.elemStep_deterministic hv (.single hstep)
    refine hend.invariant (I := State.PoolsLater v) (.refl _) fun x k y hk hx hxy => hx.trans ?_
    obtain ⟨stx, evs, rfl⟩ := htxs k (by simp [hk])
    cases hxy with
    | tx happly => exact (State.poolMove_applyTxAt happly).poolsLater
  have hcond : Path.Along State.ElemStep s ls fun t l => l ∈ ls ∧ SpendKeepsRoute S t l ∧
      ∀ t', State.ElemStep t l t' → State.PoolsLater t' S :=
    fun pre l t hpre ht => ⟨Path.along_mem pre l t hpre ht, hroute pre l t hpre ht,
      hlater pre l t hpre ht⟩
  have hfinal := hpath.invariant_along
    (I := fun pre t => (pre.foldl filed a).FeedsOf t ∧
      (pre.foldl filed a).chain = S.sealBlock) hcond
    ⟨h, hchain⟩ ?_
  · exact hfinal.1
  · rintro pre l t t' ⟨ht, htchain⟩ ⟨hl, hkeeps, hend⟩ hstep
    obtain ⟨stx, evs, rfl⟩ := htxs l hl
    rw [List.foldl_append, List.foldl_cons, List.foldl_nil]
    exact ⟨ht.tx htchain hstep ((hend t' hstep).trans (State.poolsLater_sealBlock S)) hkeeps,
      (chain_filed _ _).trans htchain⟩

/-- Every spend that a batch gets accepted still leads to its pool after the block. -/
def RoutesKept (P : NodeParams H) (a : HkApp H) (height : ℕ) (batch : Option (Batch H))
    (live rec : Bool) : Prop :=
  ∀ receipts S, State.applyTxs 0 (State.withVerdicts (txsOf batch) none)
      ((a.chain.coveredBy (coverageOf P live rec batch)).openedAt height (blockTime P height))
        = (.ok receipts, S) →
    Path.Along State.ElemStep
      ((a.chain.coveredBy (coverageOf P live rec batch)).openedAt height (blockTime P height))
      (State.successes (txsOf batch) receipts) (SpendKeepsRoute S)

/-- What a block leaves of the feeds, the trees and the balances. -/
lemma FeedsOf.block {height : ℕ} {batch : Option (Batch H)} {live rec v : Bool}
    (h : a.FeedsOf a.chain) (hfits : a.chain.Fits) (hroute : RoutesKept P a height batch live rec)
    (happly : applyBatchToChain P height batch live rec a = (.ok v, a')) :
    a'.FeedsOf a'.chain ∧ a'.chain.Fits := by
  obtain ⟨-, -, receipts, s, hblock, rfl⟩ := applyBatchToChain_eq_ok.mp happly
  obtain ⟨hheight, htime, hmap, S, htxs, rfl⟩ := State.applyBlockVerified_eq_ok hblock
  have hopened : ∀ cover, (a.chain.coveredBy cover).Fits ∧ ∀ key,
      ((a.chain.coveredBy cover).openedAt height (blockTime P height)).poolRef key =
        a.chain.poolRef key := by
    intro cover
    cases cover <;> exact ⟨hfits.of_balances _ rfl, fun key => State.poolRef_congr rfl rfl key⟩
  obtain ⟨hfits₀, hpools⟩ := hopened (coverageOf P live rec batch)
  have hfits₁ := hfits₀.of_balances
    ((a.chain.coveredBy (coverageOf P live rec batch)).openedAt height (blockTime P height)) rfl
  have hpath := State.path_of_applyTxs hfits₁ htxs
  rw [hmap] at hpath
  have hfits₂ : S.Fits := hpath.invariant hfits₁ fun _ _ _ _ hf hstep => hf.elemStep hstep
  rw [finished_chain]
  refine ⟨?_, hfits₂.of_balances _ rfl⟩
  have hfiled : (a.finished S.sealBlock (txsOf batch) receipts).feed =
      ((State.successes (txsOf batch) receipts).foldl filed
        (recordReceipts { a with lastAppHash := none, chain := S.sealBlock } (txsOf batch)
          receipts)).feed := by
    rw [finished, recorded, ← foldl_routeNotes_eq_filed]
    rfl
  have hfeeds : ((State.successes (txsOf batch) receipts).foldl filed
      (recordReceipts { a with lastAppHash := none, chain := S.sealBlock } (txsOf batch)
        receipts)).FeedsOf S := by
    refine FeedsOf.txs ?_ rfl hpath ?_ (hroute receipts S htxs)
    · exact h.congr rfl fun key => by rw [hpools]
    · intro l hl
      obtain ⟨⟨stx, r⟩, -, hr⟩ := List.mem_filterMap.mp hl
      cases hres : r.result with
      | ok evs =>
        rw [hres] at hr
        exact ⟨stx, evs, (Option.some.inj hr).symm⟩
      | error m =>
        rw [hres] at hr
        cases hr
  refine hfeeds.congr hfiled fun key => ?_
  rw [State.poolRef_sealBlock, Option.map_map]
  congr 1
  funext p
  exact p.sealAnchor_tree

end HkApp

/-! ## Sequences of blocks -/

/-- One application of a decided batch, at a commit or in a replay. -/
structure BatchCall (H : Type) where
  height : ℕ
  batch : Option (Batch H)
  liveAgg : Bool
  recordedAggValid : Bool

namespace HkApp

variable {P : NodeParams H}

/-- Apply a batch; an application that fails is a step too, and nothing follows when the process
stops. -/
def call (P : NodeParams H) (a : HkApp H) (c : BatchCall H) : Option (HkApp H) :=
  match applyBatchToChain P c.height c.batch c.liveAgg c.recordedAggValid a with
  | (.ok _, a') => some a'
  | (.err _, a') => some a'
  | (.fault, _) => none

/-- The spends that a call gets accepted still lead to their pools after the block. -/
def CallKeepsRoutes (P : NodeParams H) (a : HkApp H) (c : BatchCall H) : Prop :=
  RoutesKept P a c.height c.batch c.liveAgg c.recordedAggValid

lemma FeedsOf.call {a a' : HkApp H} {c : BatchCall H} (h : a.FeedsOf a.chain) (hfits : a.chain.Fits)
    (hroute : CallKeepsRoutes P a c) (hcall : a.call P c = some a') :
    a'.FeedsOf a'.chain ∧ a'.chain.Fits := by
  unfold HkApp.call at hcall
  rcases happly : applyBatchToChain P c.height c.batch c.liveAgg c.recordedAggValid a
    with ⟨v | e | _, a₁⟩ <;> rw [happly] at hcall
  · cases hcall
    exact h.block hfits hroute happly
  · cases hcall
    obtain ⟨-, rfl⟩ | ⟨-, -, rfl⟩ := applyBatchToChain_eq_err happly
    · exact ⟨h, hfits⟩
    · cases coverageOf P c.liveAgg c.recordedAggValid c.batch with
      | none => exact ⟨h, hfits⟩
      | some cover =>
        exact ⟨h.congr rfl fun key => congrArg _ (State.poolRef_congr rfl rfl key),
          hfits.of_balances _ rfl⟩
  · cases hcall

/-- **Feeds match the trees.**  After every sequence of blocks on a genesis state in which the
anchor of every accepted spend still leads to its pool once the block is sealed, the feed of the
legacy pool and of every other pool lists the leaves of that pool's tree in tree order, and there is
no feed of a pool that does not exist. -/
theorem tree_eq_ofLeaves_feed (P : NodeParams H) {g : Genesis H} {chain : State H}
    (hgenesis : State.Initial g chain) (validators : HkValidatorSet H) {calls : List (BatchCall H)}
    {a : HkApp H} (hrun : Path (StepOf (call P)) (.fresh chain validators) calls a)
    (hroute : Path.Along (StepOf (call P)) (.fresh chain validators) calls (CallKeepsRoutes P)) :
    (∀ key p, a.chain.poolRef key = some p → p.tree = .ofLeaves ((a.feed key).map Prod.fst)) ∧
      ∀ key, a.chain.poolRef key = none → a.feed key = [] := by
  have hfresh := hgenesis.fresh
  have hstart : (fresh chain validators).FeedsOf chain := by
    intro key
    cases key with
    | legacy =>
      change chain.pool.tree = _
      rw [hfresh.pool, PoolState.sealAnchor_tree]
      rfl
    | asset x =>
      have hnone : chain.poolRef (.asset x) = none := by
        change chain.pools[x]? = none
        rw [hfresh.pools]
        exact Std.ExtTreeMap.getElem?_empty
      have hfeed : (fresh chain validators).feed (.asset x) = [] := by simp [fresh, feed]
      rw [hnone]
      exact hfeed
  obtain ⟨hfeeds, -⟩ := hrun.invariant_along
    (I := fun _ a => a.FeedsOf a.chain ∧ a.chain.Fits) hroute ⟨hstart, hfresh.fits⟩
    fun _ c a a' ha hc hstep => ha.1.call ha.2 hc hstep
  exact ⟨fun key p hp => hfeeds.tree_eq hp, fun key hp => hfeeds.feed_eq_nil hp⟩

end HkApp

end

/-! ## A spend that is filed under the wrong pool -/

namespace Concrete

open State

/-- The legacy asset and a second one that its issuer lets into a pool. -/
def feedGenesis : Genesis Digest where
  time := 0
  accounts := [⟨1, commitAt [1] 0⟩]
  alloc := [⟨1, 7, 20⟩, ⟨1, 8, 20⟩]
  fee := none
  assets := [⟨8, "TWO", 6, 1, ⟨false, false, false, true⟩⟩]

/-- A verifier that takes one proof for every statement. -/
def feedConfig : NodeConfig Digest :=
  { config (H := Digest) with verifier := ⟨fun proof _ => proof = [1], fun proof _ => proof = [1]⟩ }

/-- The application on the genesis state. -/
def feedBoot : HkApp Digest := .fresh (start feedGenesis feedConfig) nodeSet

/-- Honestly signed transactions of the only account. -/
def feedTxs (nonce : ℕ) : List (Tx Digest) → List (SignedTx Digest)
  | [] => []
  | tx :: txs => signedDigest [1] 1 nonce tx :: feedTxs (nonce + 1) txs

lemma verified_feedTxs (nonce : ℕ) (txs : List (Tx Digest)) :
    (feedTxs nonce txs).map verifyEnvelope = (feedTxs nonce txs).map fun _ => true := by
  induction txs generalizing nonce with
  | nil => rfl
  | cons tx txs ih => rw [feedTxs, List.map_cons, List.map_cons, ih, verifyEnvelope_signedDigest]

/-- The state machine's answer to a block of them. -/
def feedBlock (height : ℕ) (txs : List (SignedTx Digest)) (a : HkApp Digest) :
    Outcome StateError (List (Receipt Digest)) × State Digest :=
  applyBlockVerified height (HkApp.blockTime nodeParams height) txs (some (txs.map fun _ => true))
    a.chain

/-- The receipts of an accepted block. -/
def receiptsOf : Outcome StateError (List (Receipt Digest)) → List (Receipt Digest)
  | .ok receipts => receipts
  | _ => []

/-- The application after a block. -/
def feedAfter (height : ℕ) (txs : List (SignedTx Digest)) (a : HkApp Digest) : HkApp Digest :=
  a.finished (feedBlock height txs a).2 txs (receiptsOf (feedBlock height txs a).1)

/-- The call that applies a block on an application. -/
def feedCall (height : ℕ) (txs : List (SignedTx Digest)) (a : HkApp Digest) : BatchCall Digest :=
  ⟨height, some ⟨⟨[], []⟩, a.ourHash, txs, []⟩, true, false⟩

lemma call_feedCall (height nonce : ℕ) (txs : List (Tx Digest)) (a : HkApp Digest)
    (hok : (feedBlock height (feedTxs nonce txs) a).1.okAnd (fun _ => true) = true) :
    a.call nodeParams (feedCall height (feedTxs nonce txs) a) =
      some (feedAfter height (feedTxs nonce txs) a) := by
  obtain ⟨receipts, -, hblock⟩ := Exec.exists_of_okAnd hok
  have happly : HkApp.applyBatchToChain nodeParams height
      (some ⟨⟨[], []⟩, a.ourHash, feedTxs nonce txs, []⟩) true false a =
        (.ok false, feedAfter height (feedTxs nonce txs) a) := by
    refine HkApp.applyBatchToChain_eq_ok.mpr ⟨?_, rfl, receipts,
      (feedBlock height (feedTxs nonce txs) a).2, ?_, ?_⟩
    · rintro ⟨b, hb, hne⟩
      cases hb
      exact hne rfl
    · rw [HkApp.blockOf_of_verified (verified_feedTxs nonce txs)]
      exact hblock
    · rw [feedAfter, hblock]
      rfl
  simp only [HkApp.call, feedCall, happly]

/-- One note in the legacy pool; the same and a second one in the other pool. -/
def firstNotes : List (SignedTx Digest) :=
  feedTxs 0 [.mintToPool 7 5 21 [1] [], .mintToPool 8 5 21 [1] [], .mintToPool 8 5 22 [1] []]

def notesNode : HkApp Digest := feedAfter 1 firstNotes feedBoot

/-- The block is accepted, and both notes are filed in the second pool. -/
lemma firstNotes_runs : (feedBlock 1 firstNotes feedBoot).1.okAnd (fun _ => true) = true ∧
    (notesNode.chain.poolRef (.asset 8)).any (fun _ =>
      (notesNode.feed (.asset 8)).map Prod.fst = [21, 22]) = true := by
  decide +kernel

lemma call_firstNotes : feedBoot.call nodeParams (feedCall 1 firstNotes feedBoot) =
    some notesNode :=
  call_feedCall 1 0 _ feedBoot firstNotes_runs.1

/-- The anchor of the second pool. -/
def secondAnchor : Digest :=
  ((notesNode.chain.pools[(8 : Digest)]?).map fun p => p.tree.root).getD 0

/-- A spend from the second pool, and the second note into the legacy pool. -/
def crossingBlock : List (SignedTx Digest) :=
  feedTxs 3 [.shieldedSpend secondAnchor 77 31 32 0 none none [1] [] [], .mintToPool 7 5 22 [1] []]

/-- The block is accepted and leaves four leaves in the second pool and two outputs in its feed. -/
lemma crossingBlock_runs : (feedBlock 2 crossingBlock notesNode).1.okAnd (fun _ => true) = true ∧
    ((feedAfter 2 crossingBlock notesNode).chain.poolRef (.asset 8)).any (fun p =>
      p.tree.nextIndex = 4 ∧ ((feedAfter 2 crossingBlock notesNode).feed (.asset 8)).length = 2) =
        true := by
  decide +kernel

/-- At the end of the block the legacy pool has the tree that the second pool had, so the anchor of
the spend leads there: the feed of the second pool lacks the two outputs. -/
theorem crossingBlock_misfiled : ∃ a,
    Path (StepOf (HkApp.call nodeParams)) feedBoot
      [feedCall 1 firstNotes feedBoot, feedCall 2 crossingBlock notesNode] a ∧
    Initial feedGenesis (start feedGenesis feedConfig) ∧
    ∃ key p, a.chain.poolRef key = some p ∧ p.tree.nextIndex = 4 ∧ (a.feed key).length = 2 ∧
      p.tree ≠ .ofLeaves ((a.feed key).map Prod.fst) := by
  have hsecond := call_feedCall 2 3 _ notesNode crossingBlock_runs.1
  refine ⟨_, Path.cons call_firstNotes (.single hsecond), initial_start _ (by decide +kernel),
    .asset 8, ?_⟩
  obtain ⟨p, hp, hlen⟩ := (Option.any_eq_true _ _).mp crossingBlock_runs.2
  obtain ⟨hindex, hfeed⟩ := of_decide_eq_true hlen
  refine ⟨p, hp, hindex, hfeed, fun htree => ?_⟩
  have hlist := congrArg IncrementalTree.nextIndex htree
  rw [IncrementalTree.nextIndex_ofLeaves, List.length_map, hindex] at hlist
  have : (4 : ℕ) = 2 := hlist.trans hfeed
  cases this

/-- A spend from the second pool. -/
def spendTx : Tx Digest := .shieldedSpend secondAnchor 77 31 32 0 none none [1] [] []

/-- The spend, and one more note in that pool. -/
def drawnNotes : List (SignedTx Digest) := feedTxs 3 [spendTx, .mintToPool 8 5 23 [1] []]

def spentNode : HkApp Digest := feedAfter 2 drawnNotes notesNode

/-- The chain that the second block opens. -/
def spendOpen : State Digest := notesNode.chain.openedAt 2 (HkApp.blockTime nodeParams 2)

/-- The transactions of the second block on that chain. -/
def spendRun : Outcome StateError (List (Receipt Digest)) × State Digest :=
  applyTxs 0 (withVerdicts drawnNotes (some (drawnNotes.map fun _ => true))) spendOpen

def drawnReceipts : List (Receipt Digest) :=
  [⟨0, .ok [.poolSpent 77 31 32 0 none]⟩, ⟨1, .ok [.poolMinted 23 5]⟩]

/-- The block is accepted and fills the second pool alone; the anchor of the spend leads there when
the block is opened and once it is sealed. -/
lemma drawnNotes_runs : (feedBlock 2 drawnNotes notesNode).1.okAnd (fun _ => true) = true ∧
    (spentNode.chain.poolRef (.asset 8)).any (fun _ =>
      (spentNode.feed (.asset 8)).map Prod.fst = [21, 22, 31, 32, 23]) = true ∧
    spendRun.1 = .ok drawnReceipts ∧ spendOpen.poolKeyOfAnchor secondAnchor = some (.asset 8) ∧
    ¬ spendRun.2.pool.sealAnchor.isRecentAnchor secondAnchor ∧
    (spendRun.2.pools[(8 : Digest)]?).any (fun p => p.sealAnchor.isRecentAnchor secondAnchor) =
      true ∧
    spendRun.2.pools.toList.map Prod.fst = [8] := by
  decide +kernel

/-- Shields keep every route. -/
lemma spendKeepsRoute_of_mint {S t : State Digest} {stx : SignedTx Digest}
    {evs : List (Event Digest)} {asset commitment : Digest} {value : ℕ} {proof ct : List UInt8}
    (h : stx.payload = .mintToPool asset value commitment proof ct) :
    HkApp.SpendKeepsRoute S t (.tx stx evs) := by
  intro anchor nf out out2 fee credit mandate proof' ct' ct2 key hpayload
  cases h.symm.trans hpayload

/-- The first block keeps all routes. -/
lemma firstNotes_routes :
    HkApp.CallKeepsRoutes nodeParams feedBoot (feedCall 1 firstNotes feedBoot) := by
  intro receipts S _
  refine Path.Along.of_forall_mem fun l hl t => ?_
  obtain ⟨⟨stx, r⟩, hmem, hr⟩ := List.mem_filterMap.mp hl
  have hstx : stx ∈ firstNotes := (List.of_mem_zip hmem).1
  simp only [firstNotes, feedTxs, List.mem_cons, List.not_mem_nil, or_false] at hstx
  cases hres : r.result with
  | error e => simp [hres] at hr
  | ok evs =>
    simp only [hres, Option.some.injEq] at hr
    subst hr
    obtain rfl | rfl | rfl := hstx
    · exact spendKeepsRoute_of_mint rfl
    · exact spendKeepsRoute_of_mint rfl
    · exact spendKeepsRoute_of_mint rfl

/-- The spend of the second block leads to the second pool once the block is sealed. -/
lemma drawnNotes_route : KeepsRoute spendRun.2 secondAnchor (.asset 8) := by
  obtain ⟨-, -, -, -, hlegacy, hpool, hkeys⟩ := drawnNotes_runs
  obtain ⟨p, hp, hrecent⟩ := (Option.any_eq_true _ _).mp hpool
  refine ⟨hlegacy, ⟨p, hp, of_decide_eq_true hrecent⟩, fun b q hb hq => ?_⟩
  have hmem : b ∈ spendRun.2.pools.toList.map Prod.fst :=
    List.mem_map.mpr ⟨(b, q), OrderedMap.mem_toList.mpr hq, rfl⟩
  rw [hkeys, List.mem_singleton] at hmem
  exact absurd hb (hmem ▸ lt_irrefl _)

/-- The second block keeps all routes. -/
lemma drawnNotes_routes :
    HkApp.CallKeepsRoutes nodeParams notesNode (feedCall 2 drawnNotes notesNode) := by
  obtain ⟨-, -, hreceipts, hkey, -⟩ := drawnNotes_runs
  intro receipts S htxs
  change applyTxs 0 (withVerdicts drawnNotes none) ((notesNode.chain.coveredBy (HkApp.coverageOf
    nodeParams true false (feedCall 2 drawnNotes notesNode).batch)).openedAt 2
      (HkApp.blockTime nodeParams 2)) = _ at htxs
  change Path.Along ElemStep ((notesNode.chain.coveredBy (HkApp.coverageOf nodeParams true false
    (feedCall 2 drawnNotes notesNode).batch)).openedAt 2 (HkApp.blockTime nodeParams 2))
      (successes drawnNotes receipts) (HkApp.SpendKeepsRoute S)
  rw [HkApp.coverageOf_of_agg (P := nodeParams) rfl] at htxs ⊢
  have hrun : spendRun = (.ok receipts, S) := by
    rw [← htxs, ← applyTxs_verdicts, drawnNotes, verified_feedTxs]
    rfl
  rw [hrun, Outcome.ok.injEq] at hreceipts
  obtain rfl : spendRun.2 = S := congrArg Prod.snd hrun
  rw [hreceipts]
  -- the spend is the first step, in the state that the block opens
  rintro pre l s ⟨post, hpre⟩ hpath
  have hsteps : successes drawnNotes drawnReceipts =
      [.tx (signedDigest [1] 1 3 spendTx) [.poolSpent 77 31 32 0 none],
        .tx (signedDigest [1] 1 4 (.mintToPool 8 5 23 [1] [])) [.poolMinted 23 5]] := rfl
  rw [hsteps] at hpre
  cases pre with
  | nil =>
    obtain ⟨rfl, -⟩ := List.cons.inj hpre
    cases Path.eq_of_deterministic elemStep_deterministic hpath .nil
    intro anchor nf out out2 fee credit mandate proof ct ct2 key hpayload hat
    cases hpayload
    cases hkey.symm.trans hat
    exact drawnNotes_route
  | cons _ pre =>
    have hrest : pre ++ [l] ++ post = [_] := (List.cons.inj hpre).2
    have hmem : l ∈ pre ++ [l] ++ post := by simp
    rw [hrest, List.mem_singleton] at hmem
    rw [hmem]
    exact spendKeepsRoute_of_mint rfl

/-- A block of shields and one with a spend are filed right. -/
theorem firstNotes_filed : ∃ p,
    Path (StepOf (HkApp.call nodeParams)) feedBoot
      [feedCall 1 firstNotes feedBoot, feedCall 2 drawnNotes notesNode] spentNode ∧
    spentNode.chain.poolRef (.asset 8) = some p ∧
    (spentNode.feed (.asset 8)).map Prod.fst = [21, 22, 31, 32, 23] ∧
    p.tree = .ofLeaves ((spentNode.feed (.asset 8)).map Prod.fst) := by
  have hsecond : notesNode.call nodeParams (feedCall 2 drawnNotes notesNode) = some spentNode :=
    call_feedCall 2 3 _ notesNode drawnNotes_runs.1
  have hrun : Path (StepOf (HkApp.call nodeParams)) feedBoot
      [feedCall 1 firstNotes feedBoot, feedCall 2 drawnNotes notesNode] spentNode :=
    .cons call_firstNotes (.single hsecond)
  obtain ⟨p, hp, hfeed⟩ := (Option.any_eq_true _ _).mp drawnNotes_runs.2.1
  have hroute : Path.Along (StepOf (HkApp.call nodeParams)) feedBoot
      [feedCall 1 firstNotes feedBoot, feedCall 2 drawnNotes notesNode]
      (HkApp.CallKeepsRoutes nodeParams) :=
    .cons (stepOf_deterministic _) call_firstNotes firstNotes_routes <|
      .cons (stepOf_deterministic _) hsecond drawnNotes_routes .nil
  exact ⟨p, hrun, hp, of_decide_eq_true hfeed, (HkApp.tree_eq_ofLeaves_feed nodeParams
    (initial_start _ (by decide +kernel)) nodeSet hrun hroute).1 _ p hp⟩

/-- Nothing is filed before the first block. -/
example : (feedBoot.feed (.asset 8)).length = 0 := by decide +kernel

end Concrete

end HashKinetics
