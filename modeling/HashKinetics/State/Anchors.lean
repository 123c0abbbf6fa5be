import HashKinetics.State.Solvency

/-!
# Which pool an anchor names

A spend names no asset: the pool it acts on, and with it the asset it pays out, is found by its
anchor.  Under an injective node hash a root determines the first leaf of its tree, so two pools
that share a recent anchor over a non-empty tree were opened with one commitment.  The state machine
does not prevent that: a shield may repeat the commitment and the proof of another one.  Along every
run in which no shield opens a pool with the first commitment of another pool, an anchor names one
pool, the pool holds the note that is spent, and what is paid out is what was deposited.
-/

namespace HashKinetics

open Foundations Circuit

variable {H : Type} [LinearOrder H] [HashSuite H]

/-! ## Trees and their leaves -/

namespace IncrementalTree

omit [LinearOrder H] in
/-- Equal roots have equal first leaves. -/
lemma leafAt_zero_of_root_eq (hnode : Function.Injective2 (merkleNode (H := H))) {cms cms' : List H}
    (hlt : cms.length < 2 ^ TREE_DEPTH) (hlt' : cms'.length < 2 ^ TREE_DEPTH)
    (h : (ofLeaves cms).root = (ofLeaves cms').root) : leafAt cms 0 = leafAt cms' 0 := by
  rw [root_ofLeaves hlt, root_ofLeaves hlt'] at h
  exact Merkle.leaf_eq_of_subRoot_eq merkleNode hnode TREE_DEPTH 0 h 0 (by simp) (by simp)

omit [LinearOrder H] in
/-- The root and the number of leaves determine the leaves. -/
lemma leaves_eq_of_root_eq (hnode : Function.Injective2 (merkleNode (H := H))) {cms cms' : List H}
    (hlt : cms.length < 2 ^ TREE_DEPTH) (hlen : cms.length = cms'.length)
    (hroot : (ofLeaves cms).root = (ofLeaves cms').root) : cms = cms' := by
  rw [root_ofLeaves hlt, root_ofLeaves (hlen ▸ hlt)] at hroot
  refine List.ext_getElem hlen fun j hj hj' => ?_
  have hleaf := Merkle.leaf_eq_of_subRoot_eq merkleNode hnode TREE_DEPTH 0 hroot j (by simp)
    (by rw [Nat.zero_add, Nat.one_mul]; exact hj.trans hlt)
  simpa [leafAt, hj, hj'] using hleaf

omit [LinearOrder H] in
/-- A tree determines its leaves. -/
lemma ofLeaves_injective (hnode : Function.Injective2 (merkleNode (H := H))) {cms cms' : List H}
    (hlt : cms.length < 2 ^ TREE_DEPTH) (h : ofLeaves cms = ofLeaves cms') : cms = cms' := by
  have hlen : cms.length = cms'.length := by
    rw [← nextIndex_ofLeaves cms, h, nextIndex_ofLeaves]
  exact leaves_eq_of_root_eq hnode hlt hlen (by rw [h])

/-- The first commitment that entered a tree. -/
def FirstLeaf (t : IncrementalTree H) (c : H) : Prop := ∃ rest, t = ofLeaves (c :: rest)

omit [LinearOrder H] in
lemma not_firstLeaf_of_nextIndex {t : IncrementalTree H} (h : t.nextIndex = 0) (c : H) :
    ¬ t.FirstLeaf c := by
  rintro ⟨rest, rfl⟩
  rw [nextIndex_ofLeaves] at h
  cases h

omit [LinearOrder H] in
/-- The first leaf, in terms of the leaves. -/
lemma firstLeaf_ofLeaves (hnode : Function.Injective2 (merkleNode (H := H))) {cms : List H}
    (hlt : cms.length < 2 ^ TREE_DEPTH) {c : H} :
    (ofLeaves cms).FirstLeaf c ↔ cms.head? = some c := by
  constructor
  · rintro ⟨rest, h⟩
    rw [ofLeaves_injective hnode hlt h, List.head?_cons]
  · intro h
    obtain ⟨rest, rfl⟩ := List.head?_eq_some_iff.mp h
    exact ⟨rest, rfl⟩

end IncrementalTree

namespace PoolState

variable {p : PoolState H} {notes : List (Note H)}

/-- A pool that has the root of a non-empty tree among its anchors starts with the first leaf of
that tree. -/
lemma Holds.firstLeaf_of_anchor (hash : DomainSeparated H) (h : p.Holds notes) {n : Note H}
    {ns : List (Note H)} (hlen : (n :: ns).length < 2 ^ TREE_DEPTH)
    (hmem : (IncrementalTree.ofLeaves ((n :: ns).map commitNote)).root ∈ p.anchors) :
    p.tree.FirstLeaf (commitNote n) := by
  obtain ⟨cms, hpre, hroot⟩ := h.anchors _ hmem
  have hlt : cms.length < 2 ^ TREE_DEPTH := by
    have hle := hpre.length_le
    rw [List.length_map] at hle
    exact hle.trans_lt h.room
  have hleaf := IncrementalTree.leafAt_zero_of_root_eq hash.node (by simpa using hlen) hlt hroot
  cases cms with
  | nil => exact absurd hleaf (hash.leaf n)
  | cons c cms =>
    obtain ⟨rest, hrest⟩ := hpre
    have hc : c = commitNote n := hleaf.symm
    exact ⟨cms ++ rest, by rw [h.tree, ← hrest, hc]; rfl⟩

/-- The tree whose root a spend proves membership in is not empty. -/
lemma Holds.exists_notes_of_anchor (hash : DomainSeparated H) (h : p.Holds notes)
    {w : SpendWitness H} {pub : SpendPublic H} (hw : Accepts w pub)
    (hanchor : pub.merkleRoot ∈ p.anchors) :
    ∃ n ns, (n :: ns).length < 2 ^ TREE_DEPTH ∧
      pub.merkleRoot = (IncrementalTree.ofLeaves ((n :: ns).map commitNote)).root := by
  obtain ⟨cms, hpre, hcms⟩ := h.anchors _ hanchor
  obtain ⟨k, rfl⟩ : ∃ k, cms = (notes.take k).map commitNote := by
    obtain ⟨rest, hrest⟩ := hpre
    refine ⟨cms.length, ?_⟩
    rw [List.map_take, ← hrest, List.take_left']
    rfl
  have hlt : (notes.take k).length < 2 ^ TREE_DEPTH := by
    rw [List.length_take]
    have hroom := h.room
    omega
  cases hk : notes.take k with
  | cons n ns => exact ⟨n, ns, hk ▸ hlt, by rw [hcms, hk]⟩
  | nil =>
    rw [hk] at hcms
    have hfold := hw.root.symm.trans hcms
    rcases IncrementalTree.mem_of_foldPath_eq_root hash.node (by simp [TREE_DEPTH]) hw.depth hfold
      with hmem | hempty
    · cases hmem
    · exact absurd hempty (hash.leaf _)

end PoolState

namespace State

/-! ## What the pools keep -/

/-- No two pools were opened with one commitment. -/
def OpenedApart (s : State H) : Prop :=
  ∀ key key' p p' c, s.poolRef key = some p → s.poolRef key' = some p' → p.tree.FirstLeaf c →
    p'.tree.FirstLeaf c → key = key'

/-- The transaction opens no pool with the first commitment of a pool. -/
def OpensApart (s : State H) (tx : Tx H) : Prop :=
  ∀ asset value commitment proof ct key, tx = .mintToPool asset value commitment proof ct →
    s.poolKeyOfAsset asset = .ok key → (s.poolForMint key).tree.nextIndex = 0 →
    ∀ key' p, s.poolRef key' = some p → ¬ p.tree.FirstLeaf commitment

/-- The root of a tree with a note in it is a recent anchor of at most one pool. -/
def AnchorsApart (s : State H) : Prop :=
  ∀ (n : Note H) (ns : List (Note H)), (n :: ns).length < 2 ^ TREE_DEPTH → ∀ key key' p p',
    s.poolRef key = some p → s.poolRef key' = some p' →
    (IncrementalTree.ofLeaves ((n :: ns).map commitNote)).root ∈ p.anchors →
    (IncrementalTree.ofLeaves ((n :: ns).map commitNote)).root ∈ p'.anchors → key = key'

lemma OpenedApart.anchorsApart (hash : DomainSeparated H) {s : State H} (h : OpenedApart s)
    (hs : PoolsSolvent s) : AnchorsApart s := by
  intro n ns hlen key key' p p' hp hp' hmem hmem'
  obtain ⟨notes, hnotes⟩ := hs.holds hp
  obtain ⟨notes', hnotes'⟩ := hs.holds hp'
  exact h key key' p p' _ hp hp' (hnotes.firstLeaf_of_anchor hash hlen hmem)
    (hnotes'.firstLeaf_of_anchor hash hlen hmem')

/-- Whatever first leaf a written pool has, it had before or no other pool has. -/
lemma OpenedApart.of_setPool {s s' : State H} (h : OpenedApart s) {key : PoolKey H}
    {p : PoolState H} (hset : ∀ key', s'.poolRef key' = (s.setPool key p).poolRef key')
    (hfirst : ∀ c, p.tree.FirstLeaf c →
      (∃ q, s.poolRef key = some q ∧ q.tree.FirstLeaf c) ∨
        ∀ key' q, s.poolRef key' = some q → ¬ q.tree.FirstLeaf c) : OpenedApart s' := by
  -- a pool behind another key against the written one
  have hother : ∀ key' q c, key ≠ key' → s.poolRef key' = some q → q.tree.FirstLeaf c →
      ¬ p.tree.FirstLeaf c := by
    intro key' q c hne hq hqc hpc
    rcases hfirst c hpc with ⟨q₀, hq₀, hc⟩ | hnone
    · exact hne (h key key' q₀ q c hq₀ hq hc hqc)
    · exact hnone key' q hq hqc
  intro key₁ key₂ p₁ p₂ c h₁ h₂ hc₁ hc₂
  rw [hset, poolRef_setPool] at h₁ h₂
  split_ifs at h₁ h₂ with hk₁ hk₂ hk₂
  · exact hk₁.symm.trans hk₂
  · cases h₁
    exact absurd hc₁ (hother key₂ p₂ c hk₂ h₂ hc₂)
  · cases h₂
    exact absurd hc₂ (hother key₁ p₁ c hk₁ h₁ hc₁)
  · exact h key₁ key₂ p₁ p₂ c h₁ h₂ hc₁ hc₂

/-- The note an accepted spend consumes is a leaf of the pool it acts on. -/
lemma PoolsSolvent.exists_spentNote (hash : DomainSeparated H) {s : State H} (hs : PoolsSolvent s)
    {sender anchor nf out out2 : H} {fee : ℕ} {creditTo mandate : Option H} {proof : List UInt8}
    {key : PoolKey H} {pool : PoolState H} {t : MandateTree H}
    (h : Unshields s sender anchor nf out out2 fee creditTo mandate proof key pool t) :
    ∃ w notes, run w = .ok (expectedSpendPublic anchor nf out out2 fee creditTo) ∧
      anchor ∈ pool.anchors ∧ pool.Holds notes ∧ w.inNote ∈ notes := by
  obtain ⟨notes, hnotes⟩ := hs.holds h.poolAt
  obtain ⟨w, hw⟩ := exists_witness_of_spendProved hs h.proved
  have hanchor := mem_anchors_of_poolKeyOfAnchor h.anchorKey h.poolAt
  exact ⟨w, notes, hw, hanchor, hnotes, hnotes.inNote_mem hash (accepts_of_run hw) hanchor⟩

/-- A pool with a note in it is not empty. -/
lemma nextIndex_ne_zero_of_mem {pool : PoolState H} {notes : List (Note H)} {n : Note H}
    (h : pool.Holds notes) (hn : n ∈ notes) : pool.tree.nextIndex ≠ 0 := by
  rw [h.tree, IncrementalTree.nextIndex_ofLeaves, List.length_map]
  exact (List.length_pos_of_mem hn).ne'

/-- An accepted spend leaves the first leaf of its pool alone: the pool is not empty. -/
lemma firstLeaf_of_spent (hash : DomainSeparated H) {s : State H} (hs : PoolsSolvent s)
    {sender anchor nf out out2 : H} {fee : ℕ} {creditTo mandate : Option H} {proof : List UInt8}
    {key : PoolKey H} {pool : PoolState H} {t : MandateTree H}
    (h : Unshields s sender anchor nf out out2 fee creditTo mandate proof key pool t) {c : H}
    (hc : (pool.spent nf out out2 fee).tree.FirstLeaf c) :
    pool.tree.FirstLeaf c := by
  obtain ⟨w, notes, -, -, hnotes, hin⟩ := hs.exists_spentNote hash h
  have hcap := IncrementalTree.nextIndex_add_lt_of_hasCapacity h.room
  rw [hnotes.tree, IncrementalTree.nextIndex_ofLeaves, List.length_map] at hcap
  have htree : (pool.spent nf out out2 fee).tree =
      .ofLeaves (notes.map commitNote ++ [out] ++ [out2]) := by
    rw [IncrementalTree.ofLeaves_append, IncrementalTree.ofLeaves_append, ← hnotes.tree]
    rfl
  rw [htree, IncrementalTree.firstLeaf_ofLeaves hash.node (by simpa using hcap)] at hc
  rw [hnotes.tree, IncrementalTree.firstLeaf_ofLeaves hash.node (by simp; omega)]
  cases notes with
  | nil => cases hin
  | cons n notes => simpa using hc

/-- The first leaf of a pool after a shield: the one it had, or the commitment that opened it. -/
lemma firstLeaf_of_minted (hash : DomainSeparated H) {s : State H} (hs : PoolsSolvent s)
    {key : PoolKey H} (hroom : (s.poolForMint key).tree.hasCapacity 1) {asset commitment c : H}
    {value : ℕ} (hc : ((s.poolForMint key).minted asset commitment value).tree.FirstLeaf c) :
    (s.poolForMint key).tree.FirstLeaf c ∨
      (s.poolForMint key).tree.nextIndex = 0 ∧ c = commitment := by
  obtain ⟨notes, hnotes⟩ := hs.poolForMint key
  have hcap := IncrementalTree.nextIndex_add_lt_of_hasCapacity hroom
  rw [hnotes.tree, IncrementalTree.nextIndex_ofLeaves, List.length_map] at hcap
  have htree : ((s.poolForMint key).minted asset commitment value).tree =
      .ofLeaves (notes.map commitNote ++ [commitment]) := by
    rw [IncrementalTree.ofLeaves_append, ← hnotes.tree]
    rfl
  rw [htree, IncrementalTree.firstLeaf_ofLeaves hash.node (by simpa using hcap)] at hc
  rw [hnotes.tree, IncrementalTree.firstLeaf_ofLeaves hash.node (by simp; omega),
    IncrementalTree.nextIndex_ofLeaves]
  cases notes with
  | nil => exact .inr ⟨rfl, by simpa using hc.symm⟩
  | cons n notes => exact .inl (by simpa using hc)

/-- Pools opened apart stay apart, as long as no shield repeats a first commitment. -/
lemma OpenedApart.poolMove (hash : DomainSeparated H) {s s' : State H} {sender : H} {tx : Tx H}
    (h : OpenedApart s) (hs : PoolsSolvent s) (hmove : PoolMove s sender tx s')
    (hopens : OpensApart s tx) : OpenedApart s' := by
  cases hmove with
  | idle htx hpool hpools =>
    intro key key' p p' c hp hp'
    rw [poolRef_congr hpool hpools] at hp hp'
    exact h key key' p p' c hp hp'
  | @minted asset commitment value proof ct key _ hkey hrange hproved hroom hset =>
    refine h.of_setPool hset fun c hc => ?_
    rcases firstLeaf_of_minted hash hs hroom hc with hold | ⟨hempty, rfl⟩
    · rcases s.poolForMint_eq key with hpool | ⟨-, hnew⟩
      · exact .inl ⟨_, hpool, hold⟩
      · exact absurd hold (IncrementalTree.not_firstLeaf_of_nextIndex (by rw [hnew]; rfl) c)
    · exact .inr (hopens asset value c proof ct key rfl hkey hempty)
  | spent hun hset =>
    refine h.of_setPool hset fun c hc => ?_
    exact .inl ⟨_, hun.poolAt, firstLeaf_of_spent hash hs hun hc⟩

/-! ## Deposits -/

variable [TxCodec H]

/-- An asset was shielded into the pool behind a key on the way. -/
def Deposited (s₀ : State H) (pre : List (Elementary H)) (key : PoolKey H) (asset : H) : Prop :=
  ∃ pre₀ stx evs t value commitment proof ct, pre₀ ++ [.tx stx evs] <+: pre ∧
    Path ElemStep s₀ pre₀ t ∧ stx.payload = .mintToPool asset value commitment proof ct ∧
    t.poolKeyOfAsset asset = .ok key

lemma Deposited.snoc {s₀ : State H} {pre : List (Elementary H)} {key : PoolKey H} {asset : H}
    (h : Deposited s₀ pre key asset) (l : Elementary H) : Deposited s₀ (pre ++ [l]) key asset := by
  obtain ⟨pre₀, stx, evs, t, value, commitment, proof, ct, hpre, hrest⟩ := h
  exact ⟨pre₀, stx, evs, t, value, commitment, proof, ct, hpre.trans (List.prefix_append _ _),
    hrest⟩

/-- A deposit was made before the last step or by it. -/
lemma Deposited.of_snoc {s₀ s : State H} {pre : List (Elementary H)} {l : Elementary H}
    {key : PoolKey H} {asset : H} (hpath : Path ElemStep s₀ pre s)
    (h : Deposited s₀ (pre ++ [l]) key asset) :
    Deposited s₀ pre key asset ∨ ∃ value commitment proof ct,
      l.payload = some (.mintToPool asset value commitment proof ct) ∧
        s.poolKeyOfAsset asset = .ok key := by
  obtain ⟨pre₀, stx, evs, t, value, commitment, proof, ct, hpre, hpath₀, hpayload, hkey⟩ := h
  rcases List.prefix_concat_iff.mp hpre with heq | hpre
  · obtain ⟨rfl, hl⟩ := List.append_inj' heq rfl
    obtain rfl := List.singleton_inj.mp hl
    obtain rfl := Path.eq_of_deterministic elemStep_deterministic hpath hpath₀
    exact .inr ⟨value, commitment, proof, ct, congrArg some hpayload, hkey⟩
  · exact .inl ⟨pre₀, stx, evs, t, value, commitment, proof, ct, hpre, hpath₀, hpayload, hkey⟩

omit [TxCodec H] in
/-- The asset of a pool is what a transaction body shields into it, and stays. -/
lemma poolAsset_poolMove {s s' : State H} {sender : H} {tx : Tx H}
    (hmove : PoolMove s sender tx s') {key : PoolKey H} {asset : H}
    (h : s.poolAsset key = some asset ∨ ∃ value commitment proof ct,
      tx = .mintToPool asset value commitment proof ct ∧ s.poolKeyOfAsset asset = .ok key) :
    s'.poolAsset key = some asset := by
  cases key with
  | asset a =>
    rcases h with h | ⟨value, commitment, proof, ct, -, hkey⟩
    · exact h
    · rcases pinned_of_poolKeyOfAsset hkey with ⟨hne, -⟩ | ⟨hne, -⟩ | heq
      · cases hne
      · cases hne
      · cases heq
        rfl
  | legacy =>
    cases hmove with
    | idle htx hpool hpools =>
      rcases h with h | ⟨value, commitment, proof, ct, rfl, -⟩
      · rw [poolAsset, hpool]
        exact h
      · cases htx
    | @minted asset' commitment value proof ct key _ hkey hrange hproved hroom hset =>
      have hpool := hset .legacy
      rw [poolRef_setPool] at hpool
      split_ifs at hpool with hk
      · subst hk
        have hasset : s'.pool.asset = some (s.pool.asset.getD asset') := by
          rw [Option.some.inj hpool]
          rfl
        rw [poolAsset, hasset]
        rcases h with h | ⟨_, _, _, _, heq, -⟩
        · have hsome : s.pool.asset = some asset := h
          rw [hsome, Option.getD_some]
        · cases heq
          rcases pinned_of_poolKeyOfAsset hkey with ⟨-, hnone⟩ | ⟨-, hsome⟩ | hne
          · rw [hnone, Option.getD_none]
          · rw [hsome, Option.getD_some]
          · cases hne
      · rcases h with h | ⟨_, _, _, _, heq, hlegacy⟩
        · rw [poolAsset, Option.some.inj hpool]
          exact h
        · cases heq
          rw [hkey] at hlegacy
          exact absurd (Except.ok.inj hlegacy) hk
    | @spent anchor nf out out2 fee creditTo mandate proof ct ct2 key pool t _ hun hset =>
      rcases h with h | ⟨_, _, _, _, heq, -⟩
      · have hpool := hset .legacy
        rw [poolRef_setPool] at hpool
        split_ifs at hpool with hk
        · subst hk
          have hat : s.pool = pool := Option.some.inj hun.poolAt
          rw [poolAsset, Option.some.inj hpool, PoolState.spent, ← hat]
          exact h
        · rw [poolAsset, Option.some.inj hpool]
          exact h
      · cases heq

/-! ## Runs -/

/-- The pools of a state that the labels `pre` lead to. -/
structure PoolsTraced (s₀ : State H) (pre : List (Elementary H)) (s : State H) : Prop where
  path : Path ElemStep s₀ pre s
  solvent : PoolsSolvent s
  apart : OpenedApart s
  pinned : ∀ key asset, Deposited s₀ pre key asset → s.poolAsset key = some asset
  deposited : ∀ key p, s.poolRef key = some p → p.tree.nextIndex ≠ 0 →
    ∃ asset, Deposited s₀ pre key asset

omit [TxCodec H] in
/-- A fresh state has no leaf in any pool. -/
lemma Fresh.nextIndex_eq_zero {s : State H} (hf : Fresh s) {key : PoolKey H} {p : PoolState H}
    (hp : s.poolRef key = some p) : p.tree.nextIndex = 0 := by
  cases key with
  | legacy =>
    cases hp
    rw [hf.pool, PoolState.sealAnchor_tree]
    rfl
  | asset a =>
    have hp' : s.pools[a]? = some p := hp
    rw [hf.pools] at hp'
    simp at hp'

lemma PoolsTraced.start {s₀ : State H} (hf : Fresh s₀) (hsound : s₀.verifier.Sound) :
    PoolsTraced s₀ [] s₀ := by
  refine ⟨.nil, hf.poolsSolvent hsound, fun key key' p p' c hp _ hc _ => ?_, fun key asset h => ?_,
    fun key p hp hne => absurd (hf.nextIndex_eq_zero hp) hne⟩
  · exact absurd hc (IncrementalTree.not_firstLeaf_of_nextIndex (hf.nextIndex_eq_zero hp) c)
  · obtain ⟨pre₀, stx, evs, _, _, _, _, _, hpre, -⟩ := h
    simp at hpre

/-- A transaction keeps the trace. -/
lemma PoolsTraced.tx (hash : DomainSeparated H) {s₀ s s' : State H} {pre : List (Elementary H)}
    {stx : SignedTx H} {evs : List (Event H)} (h : PoolsTraced s₀ pre s)
    (hstep : ElemStep s (.tx stx evs) s') (hsolvent : PoolsSolvent s')
    (hopens : OpensApart s stx.payload) : PoolsTraced s₀ (pre ++ [.tx stx evs]) s' := by
  have hmove : PoolMove s stx.sender stx.payload s' := by
    cases hstep with
    | tx happly => exact poolMove_applyTxAt happly
  refine ⟨.snoc h.path hstep, hsolvent, h.apart.poolMove hash h.solvent hmove hopens, ?_, ?_⟩
  · intro key asset hdep
    apply poolAsset_poolMove hmove
    rcases hdep.of_snoc h.path with hold | ⟨value, commitment, proof, ct, hl, hkey⟩
    · exact .inl (h.pinned key asset hold)
    · exact .inr ⟨value, commitment, proof, ct, Option.some.inj hl, hkey⟩
  · intro key p hp hne
    generalize htx : stx.payload = tx at hmove
    cases hmove with
    | idle htx hpool hpools =>
      rw [poolRef_congr hpool hpools] at hp
      obtain ⟨asset, hasset⟩ := h.deposited key p hp hne
      exact ⟨asset, hasset.snoc _⟩
    | @minted asset commitment value proof ct key' _ hkey hrange hproved hroom hset =>
      rw [hset, poolRef_setPool] at hp
      split_ifs at hp with hk
      · subst hk
        exact ⟨asset, pre, stx, evs, s, value, commitment, proof, ct, List.prefix_rfl, h.path, htx,
          hkey⟩
      · obtain ⟨asset, hasset⟩ := h.deposited key p hp hne
        exact ⟨asset, hasset.snoc _⟩
    | @spent anchor nf out out2 fee creditTo mandate proof ct ct2 key' pool t _ hun hset =>
      rw [hset, poolRef_setPool] at hp
      split_ifs at hp with hk
      · subst hk
        obtain ⟨w, notes, -, -, hnotes, hin⟩ := h.solvent.exists_spentNote hash hun
        obtain ⟨asset, hasset⟩ :=
          h.deposited key' pool hun.poolAt (nextIndex_ne_zero_of_mem hnotes hin)
        exact ⟨asset, hasset.snoc _⟩
      · obtain ⟨asset, hasset⟩ := h.deposited key p hp hne
        exact ⟨asset, hasset.snoc _⟩

/-- A step that is no transaction keeps the trace. -/
lemma PoolsTraced.quiet {s₀ s s' : State H} {pre : List (Elementary H)} {l : Elementary H}
    (h : PoolsTraced s₀ pre s) (hstep : ElemStep s l s') (hl : l.payload = none)
    (hsolvent : PoolsSolvent s') : PoolsTraced s₀ (pre ++ [l]) s' := by
  refine ⟨.snoc h.path hstep, hsolvent, fun key key' p p' c hp hp' hc hc' => ?_,
    fun key asset hdep => ?_, fun key p hp hne => ?_⟩
  · obtain ⟨q, hq, htree, -⟩ := poolRef_of_quiet hstep hl hp
    obtain ⟨q', hq', htree', -⟩ := poolRef_of_quiet hstep hl hp'
    rw [htree] at hc
    rw [htree'] at hc'
    exact h.apart key key' q q' c hq hq' hc hc'
  · rcases hdep.of_snoc h.path with hold | ⟨_, _, _, _, hpayload, -⟩
    · have hasset := h.pinned key asset hold
      cases key with
      | asset a => exact hasset
      | legacy =>
        have hpool : s'.poolRef .legacy = some s'.pool := rfl
        obtain ⟨q, hq, -, heq⟩ := poolRef_of_quiet hstep hl hpool
        cases hq
        rw [poolAsset, heq]
        exact hasset
    · rw [hl] at hpayload
      cases hpayload
  · obtain ⟨q, hq, htree, -⟩ := poolRef_of_quiet hstep hl hp
    rw [htree] at hne
    obtain ⟨asset, hasset⟩ := h.deposited key q hq hne
    exact ⟨asset, hasset.snoc _⟩

lemma PoolsTraced.step (hash : DomainSeparated H) {s₀ s s' : State H} {pre : List (Elementary H)}
    {l : Elementary H} (h : PoolsTraced s₀ pre s) (hstep : ElemStep s l s')
    (hcover : ∀ keys, l = .cover keys → CoverSound keys)
    (hopens : ∀ tx, l.payload = some tx → OpensApart s tx) : PoolsTraced s₀ (pre ++ [l]) s' := by
  have hsolvent := (h.solvent.elemStep hash hcover hstep).2
  cases l with
  | tx stx evs => exact h.tx hash hstep hsolvent (hopens _ rfl)
  | openBlock height time => exact h.quiet hstep rfl hsolvent
  | closeBlock => exact h.quiet hstep rfl hsolvent
  | cover keys => exact h.quiet hstep rfl hsolvent

/-- What an accepted spend resolved its anchor to: the only pool that has the anchor, whose tree
holds the note that is spent, and whose asset is the one that was deposited and is paid out. -/
structure ResolvesTo (s₀ : State H) (pre : List (Elementary H)) (s : State H) (stx : SignedTx H)
    (s' : State H) (anchor nf out out2 : H) (fee : ℕ) (creditTo : Option H) (key : PoolKey H)
    (pool : PoolState H) (asset : H) : Prop where
  resolved : s.poolKeyOfAnchor anchor = some key
  poolAt : s.poolRef key = some pool
  only : ∀ key' pool', s.poolRef key' = some pool' → anchor ∈ pool'.anchors → key' = key
  note : ∃ (w : SpendWitness H) (notes : List (Note H)),
    run w = .ok (expectedSpendPublic anchor nf out out2 fee creditTo) ∧
    pool.tree = .ofLeaves (notes.map commitNote) ∧ w.inNote ∈ notes
  deposited : ∀ b, Deposited s₀ pre key b ↔ b = asset
  paid : fee = 0 ∧ s'.balances = (s.feeCharged stx.sender).balances ∨ ∃ dst, creditTo = some dst ∧
    s'.balances = ((s.feeCharged stx.sender).credited dst asset fee).balances

/-- What an accepted spend credits, around the envelope fee. -/
lemma balances_of_shieldedSpend {s s' : State H} {stx : SignedTx H} {evs : List (Event H)}
    (h : ElemStep s (.tx stx evs) s') {anchor nf out out2 : H} {fee : ℕ}
    {creditTo mandate : Option H} {proof ct ct2 : List UInt8}
    (htx : stx.payload = .shieldedSpend anchor nf out out2 fee creditTo mandate proof ct ct2) :
    ∃ key pool t, Unshields s stx.sender anchor nf out out2 fee creditTo mandate proof key pool t ∧
      (fee = 0 ∧ s'.balances = (s.feeCharged stx.sender).balances ∨
        ∃ dst asset, creditTo = some dst ∧ s.poolAsset key = some asset ∧
          s'.balances = ((s.feeCharged stx.sender).credited dst asset fee).balances) := by
  cases h with
  | tx h =>
    obtain ⟨s₁, henv⟩ := applyTxAt_eq_ok h
    obtain ⟨acc, -, -, rfl⟩ := henv.ratchet
    have hbody := henv.body
    rw [htx] at hbody
    obtain ⟨key, pool, t, hun, -, hpaid⟩ := doShieldedSpend_eq_ok hbody
    refine ⟨key, pool, t, hun.of_balances (s.feeCharged_eq _), ?_⟩
    rcases hpaid with ⟨rfl, rfl⟩ | ⟨-, dst, asset, hdst, hasset, -, rfl⟩
    · exact .inl ⟨rfl, rfl⟩
    · rw [feeCharged_eq] at hasset
      exact .inr ⟨dst, asset, hdst, hasset, rfl⟩

/-- An accepted spend of a traced state resolves to one pool. -/
lemma PoolsTraced.resolvesTo (hash : DomainSeparated H) {s₀ s s' : State H}
    {pre : List (Elementary H)} {stx : SignedTx H} {evs : List (Event H)} (h : PoolsTraced s₀ pre s)
    (hstep : ElemStep s (.tx stx evs) s') {anchor nf out out2 : H} {fee : ℕ}
    {creditTo mandate : Option H} {proof ct ct2 : List UInt8}
    (htx : stx.payload = .shieldedSpend anchor nf out out2 fee creditTo mandate proof ct ct2) :
    ∃ key pool asset,
      ResolvesTo s₀ pre s stx s' anchor nf out out2 fee creditTo key pool asset := by
  obtain ⟨key, pool, t, hun, hpaid⟩ := balances_of_shieldedSpend hstep htx
  obtain ⟨w, notes, hw, hanchor, hnotes, hin⟩ := h.solvent.exists_spentNote hash hun
  obtain ⟨asset, hdep⟩ := h.deposited key pool hun.poolAt (nextIndex_ne_zero_of_mem hnotes hin)
  have hasset := h.pinned key asset hdep
  refine ⟨key, pool, asset, hun.anchorKey, hun.poolAt, ?_, ⟨w, notes, hw, hnotes.tree, hin⟩, ?_, ?_⟩
  · intro key' pool' hpool' hmem'
    obtain ⟨n, ns, hlen, hroot⟩ := hnotes.exists_notes_of_anchor hash (accepts_of_run hw) hanchor
    change anchor = _ at hroot
    rw [hroot] at hanchor hmem'
    exact h.apart.anchorsApart hash h.solvent n ns hlen key' key pool' pool hpool' hun.poolAt hmem'
      hanchor
  · intro b
    constructor
    · intro hb
      exact Option.some.inj ((h.pinned key b hb).symm.trans hasset)
    · rintro rfl
      exact hdep
  · rcases hpaid with hzero | ⟨dst, asset', hdst, hasset', hbal⟩
    · exact .inl hzero
    · rw [hasset] at hasset'
      cases hasset'
      exact .inr ⟨dst, hdst, hbal⟩

/-- **An anchor names one pool.**  With domain-separated hashes, a sound verifier and sound
coverage, along every run of blocks in which no shield opens a pool with the first commitment of
another: in every state, the root of a non-empty tree is a recent anchor of at most one pool, and
every accepted spend acts on the only pool with its anchor, which holds the spent note and whose
asset, the one that was deposited, is paid out. -/
theorem resolvesTo_of_run (hash : DomainSeparated H) {g : Genesis H} {s₀ s : State H}
    {steps : List (List (Elementary H))} (hinit : Initial g s₀) (hsound : s₀.verifier.Sound)
    (hpath : Path BlockStep s₀ steps s)
    (hcover : ∀ keys, .cover keys ∈ steps.flatten → CoverSound keys)
    (hopens : Path.Along ElemStep s₀ steps.flatten fun s l =>
      ∀ tx, l.payload = some tx → OpensApart s tx) :
    AnchorsApart s ∧ ∀ pre l t t', pre ++ [l] <+: steps.flatten → Path ElemStep s₀ pre t →
      ElemStep t l t' → AnchorsApart t ∧
        ∀ stx evs anchor nf out out2 fee creditTo mandate proof ct ct2, l = .tx stx evs →
          stx.payload = .shieldedSpend anchor nf out out2 fee creditTo mandate proof ct ct2 →
          ∃ key pool asset,
            ResolvesTo s₀ pre t stx t' anchor nf out out2 fee creditTo key pool asset := by
  have helem := elemPath hinit.fresh.fits hpath
  have hstart := PoolsTraced.start hinit.fresh hsound
  have hcond : Path.Along ElemStep s₀ steps.flatten fun s l => l ∈ steps.flatten ∧
      ∀ tx, l.payload = some tx → OpensApart s tx :=
    fun pre l s hpre hp => ⟨hpre.subset (by simp), hopens pre l s hpre hp⟩
  have htraced : ∀ {ls t}, ls <+: steps.flatten → Path ElemStep s₀ ls t →
      PoolsTraced s₀ ls t := by
    intro ls t hls ht
    obtain ⟨rest, hrest⟩ := hls
    rw [← hrest] at hcond
    exact ht.invariant_along hcond.of_append hstart fun pre l u u' hu hc hstep =>
      hu.step hash hstep (fun keys hk => hcover keys (by rw [← hrest, ← hk]; exact hc.1)) hc.2
  refine ⟨?_, ?_⟩
  · have hend := htraced List.prefix_rfl helem
    exact hend.apart.anchorsApart hash hend.solvent
  · intro pre l t t' hpre ht hstep
    have hat := htraced ((List.prefix_append _ _).trans hpre) ht
    refine ⟨hat.apart.anchorsApart hash hat.solvent, ?_⟩
    rintro stx evs anchor nf out out2 fee creditTo mandate proof ct ct2 rfl htx
    exact hat.resolvesTo hash hstep htx

end State

namespace Concrete

open State

/-- A note of five units. -/
def note : Note ℕ := ⟨5, 1, 2, 3⟩

/-- A second note of the same value. -/
def otherNote : Note ℕ := ⟨5, 1, 4, 3⟩

/-- A verifier that accepts the shields of the two notes. -/
def noteVerifier : ProofVerifier ℕ where
  verifySpend _ _ := false
  verifyMint _ pub := pub = runMint ⟨note⟩ ∨ pub = runMint ⟨otherNote⟩

lemma noteVerifier_sound : noteVerifier.Sound where
  spend _ _ h := by cases h
  mint _ _ h := by
    rcases of_decide_eq_true h with hpub | hpub
    · exact ⟨⟨note⟩, hpub.symm⟩
    · exact ⟨⟨otherNote⟩, hpub.symm⟩

/-- The legacy asset and a second one that its issuer lets into a pool. -/
def twinGenesis : Genesis ℕ where
  time := 0
  accounts := [account 1]
  alloc := [⟨1, 7, 10⟩, ⟨1, 8, 10⟩]
  fee := none
  assets := [⟨8, "TWO", 6, 1, ⟨false, false, false, true⟩⟩]

def twinStart : State ℕ :=
  start twinGenesis { (config : NodeConfig ℕ) with verifier := noteVerifier }

/-- Account one shields the note in the legacy pool, and the same note once more in the pool of the
second asset. -/
def twinBlock : List (SignedTx ℕ) :=
  [signed [1] 1 0 (.mintToPool 7 5 (commitNote note) [1] []),
    signed [1] 1 1 (.mintToPool 8 5 (commitNote note) [1] [])]

/-- The state before the block is sealed. -/
def twinOpen : State ℕ :=
  (applyTxs 0 (withVerdicts twinBlock (some (twinBlock.map fun _ => true)))
    (twinStart.openedAt 1 0)).2

/-- Both pools have the note as their only leaf. -/
lemma twinOpen_tree {key : PoolKey ℕ}
    (h : (twinOpen.poolRef key).any (fun p => p.tree.frontier =
      (IncrementalTree.ofLeaves ([note].map commitNote)).frontier ∧ p.tree.nextIndex = 1) = true) :
    ∃ p, twinOpen.poolRef key = some p ∧ p.tree = .ofLeaves ([note].map commitNote) := by
  obtain ⟨p, hp, htree⟩ := (Option.any_eq_true _ _).mp h
  obtain ⟨hfrontier, hindex⟩ := of_decide_eq_true htree
  refine ⟨p, hp, ?_⟩
  rcases hpt : p.tree with ⟨frontier, nextIndex, hlen⟩
  rw [hpt] at hfrontier hindex
  subst hfrontier hindex
  rfl

/-- The block is accepted and leaves the note in both pools. -/
lemma twinBlock_runs :
    (applyBlockVerified 1 0 twinBlock (some (twinBlock.map fun _ => true)) twinStart).1.okAnd
      (·.all Receipt.accepted) = true ∧
    (twinOpen.poolRef .legacy).any (fun p => p.tree.frontier =
      (IncrementalTree.ofLeaves ([note].map commitNote)).frontier ∧ p.tree.nextIndex = 1) = true ∧
    (twinOpen.poolRef (.asset 8)).any (fun p => p.tree.frontier =
      (IncrementalTree.ofLeaves ([note].map commitNote)).frontier ∧
        p.tree.nextIndex = 1) = true := by
  decide +kernel

/-- Two shields of one commitment: the root over it is an anchor of both pools. -/
theorem twinBlock_shares_anchor : ∃ receipts s, receipts.all Receipt.accepted = true ∧
    Initial twinGenesis twinStart ∧ twinStart.verifier.Sound ∧
    Path BlockStep twinStart [blockSteps ⟨1, 0, twinBlock, none⟩ receipts] s ∧
    ¬ AnchorsApart s := by
  have hinit : Initial twinGenesis twinStart := initial_start _ (by decide +kernel)
  have hverified : twinBlock.map verifyEnvelope = twinBlock.map fun _ => true := by
    simp [twinBlock, verifyEnvelope_signed]
  have hverifier : twinStart.verifier.Sound := by
    rw [twinStart, verifier_start hinit]
    exact noteVerifier_sound
  obtain ⟨hruns, hlegacy, hasset⟩ := twinBlock_runs
  obtain ⟨receipts, haccepted, happly⟩ := Exec.exists_of_okAnd hruns
  have hstep := blockStep_of_outcome hverified (congrArg Prod.fst happly)
  obtain ⟨-, -, -, s₁, htxs, hsealed⟩ := applyBlockVerified_eq_ok happly
  obtain rfl : twinOpen = s₁ := congrArg Prod.snd htxs
  refine ⟨receipts, _, haccepted, hinit, hverifier, .single hstep, fun hapart => ?_⟩
  rw [hsealed] at hapart
  obtain ⟨p, hp, htree⟩ := twinOpen_tree hlegacy
  obtain ⟨p', hp', htree'⟩ := twinOpen_tree hasset
  have hmem := p.root_mem_sealAnchor
  have hmem' := p'.root_mem_sealAnchor
  rw [htree] at hmem
  rw [htree'] at hmem'
  have hsame := hapart note [] (by simp [TREE_DEPTH]) .legacy (.asset 8) p.sealAnchor p'.sealAnchor
    (by rw [poolRef_sealBlock, hp]; rfl) (by rw [poolRef_sealBlock, hp']; rfl) hmem hmem'
  cases hsame

/-- Account one shields a note in the legacy pool, and the other note in the pool of the second
asset. -/
def apartBlock : List (SignedTx ℕ) :=
  [signed [1] 1 0 (.mintToPool 7 5 (commitNote note) [1] []),
    signed [1] 1 1 (.mintToPool 8 5 (commitNote otherNote) [1] [])]

def apartReceipts : List (Receipt ℕ) :=
  [⟨0, .ok [.poolMinted (commitNote note) 5]⟩, ⟨1, .ok [.poolMinted (commitNote otherNote) 5]⟩]

/-- The state after the first shield. -/
def apartMid : State ℕ :=
  (applyTxAt (signed [1] 1 0 (.mintToPool 7 5 (commitNote note) [1] [])) (some true)
    (twinStart.openedAt 1 0)).2

/-- The state after the block. -/
def apartEnd : State ℕ :=
  (applyBlockVerified 1 0 apartBlock (some (apartBlock.map fun _ => true)) twinStart).2

/-- What evaluation shows: both shields are accepted, after the first of them the legacy pool has the
note as its only leaf and no other pool stands, and after the block the second pool does. -/
lemma apart_facts :
    (applyBlockVerified 1 0 apartBlock (some (apartBlock.map fun _ => true)) twinStart).1 =
        .ok apartReceipts ∧
      (applyTxAt (signed [1] 1 0 (.mintToPool 7 5 (commitNote note) [1] [])) (some true)
        (twinStart.openedAt 1 0)).1 = .ok [.poolMinted (commitNote note) 5] ∧
      (applyTxAt (signed [1] 1 1 (.mintToPool 8 5 (commitNote otherNote) [1] [])) (some true)
        apartMid).1 = .ok [.poolMinted (commitNote otherNote) 5] ∧
      (apartMid.pool.tree.frontier =
          (IncrementalTree.ofLeaves ([note].map commitNote)).frontier ∧
        apartMid.pool.tree.nextIndex = 1) ∧
      apartMid.pools.isEmpty = true ∧ (apartEnd.poolRef (.asset 8)).isSome = true ∧
      twinStart.height = 0 ∧ twinStart.time = 0 := by
  decide +kernel

/-- Before the first shield no pool has a leaf. -/
lemma opensApart_twinStart (tx : Tx ℕ) : OpensApart (twinStart.openedAt 1 0) tx := by
  intro asset value commitment proof ct key _ _ _ key' p hp
  have hinit : Initial twinGenesis twinStart := initial_start _ (by decide +kernel)
  have hp' : twinStart.poolRef key' = some p := by
    cases key' <;> exact hp
  exact IncrementalTree.not_firstLeaf_of_nextIndex (hinit.fresh.nextIndex_eq_zero hp') _

/-- The second shield repeats no first leaf. -/
lemma opensApart_apartMid :
    OpensApart apartMid (.mintToPool 8 5 (commitNote otherNote) [1] []) := by
  obtain ⟨-, -, -, ⟨hfrontier, hindex⟩, hempty, -⟩ := apart_facts
  intro asset value commitment proof ct key hmint _ _ key' p hp hfirst
  cases hmint
  cases key' with
  | asset a =>
    have hp' : apartMid.pools[a]? = some p := hp
    rw [Std.ExtTreeMap.isEmpty_iff.mp hempty] at hp'
    simp at hp'
  | legacy =>
    have hp' : some apartMid.pool = some p := hp
    obtain rfl := Option.some.inj hp'
    have htree : apartMid.pool.tree = .ofLeaves ([note].map commitNote) := by
      rcases hpt : apartMid.pool.tree with ⟨frontier, nextIndex, hlen⟩
      rw [hpt] at hfrontier hindex
      subst hfrontier hindex
      rfl
    rw [htree, IncrementalTree.firstLeaf_ofLeaves domainSeparated.node (by simp [TREE_DEPTH])]
      at hfirst
    have hnotes := domainSeparated.commit note otherNote (by decide) (by decide)
      (Option.some.inj hfirst)
    exact absurd (congrArg Note.rho hnotes) (by decide)

/-- Shields of two notes in two pools: every anchor names one of them. -/
theorem poolBlock_anchors_apart : ∃ steps, Path BlockStep twinStart steps apartEnd ∧
    (apartEnd.poolRef (.asset 8)).isSome = true ∧ AnchorsApart apartEnd := by
  obtain ⟨hblock, hfirst, hsecond, -, -, hpool, hheight, htime⟩ := apart_facts
  have hinit : Initial twinGenesis twinStart := initial_start _ (by decide +kernel)
  have hverifier : twinStart.verifier.Sound := by
    rw [twinStart, verifier_start hinit]
    exact noteVerifier_sound
  have hstep := blockStep_of_outcome (by simp [apartBlock, verifyEnvelope_signed]) hblock
  rw [← apartEnd] at hstep
  have hopen : ElemStep twinStart (.openBlock 1 0) (twinStart.openedAt 1 0) :=
    .openBlock (by rw [hheight]) (by rw [htime])
  have hmint := ElemStep.tx (Exec.eq_of_outcome hfirst)
  rw [← apartMid] at hmint
  have hmint' := ElemStep.tx (Exec.eq_of_outcome hsecond)
  refine ⟨_, .single hstep, hpool,
    (resolvesTo_of_run domainSeparated hinit hverifier (.single hstep) (fun keys hkeys => ?_)
      ?_).1⟩
  · rw [List.flatten_singleton] at hkeys
    exact absurd hkeys (cover_notMem_blockSteps _ _ _)
  · rw [List.flatten_singleton]
    refine .cons elemStep_deterministic hopen (fun tx htx => by cases htx) ?_
    refine .cons elemStep_deterministic hmint (fun tx _ => opensApart_twinStart tx) ?_
    refine .cons elemStep_deterministic hmint' (fun tx htx => ?_) ?_
    · obtain rfl : Tx.mintToPool 8 5 (commitNote otherNote) [1] [] = tx := Option.some.inj htx
      exact opensApart_apartMid
    · refine .of_forall_mem fun l hl s tx htx => ?_
      rw [List.mem_singleton.mp hl] at htx
      cases htx

/-- Before its first shield the second asset has no pool. -/
example : (twinStart.poolRef (.asset 8)).isNone = true := by decide +kernel

end Concrete

end HashKinetics
