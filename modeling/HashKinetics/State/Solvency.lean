import HashKinetics.State.Conservation
import HashKinetics.State.PoolMoves

/-!
# Solvency of the shielded pools

A pool never pays out more than it holds.  The argument joins the statement a spend proof attests,
the incremental tree with its window of anchors, and the nullifier accounting: the leaves of a
pool's tree are commitments of known notes, an anchor pins a spend to one of them, the value
equation of the statement bounds the fee by the note's value, and the notes whose nullifier is not
recorded are worth at most the total the pool records.
-/

namespace HashKinetics

open Foundations Circuit

variable {H : Type} [LinearOrder H] [HashSuite H]

/-! ## Trees of known leaves -/

/-- The leaf at an index of a tree whose commitments so far are `cms`. -/
def leafAt (cms : List H) (i : ℕ) : H := cms[i]?.getD emptyLeaf

/-- The incremental tree after the given commitments were appended. -/
def IncrementalTree.ofLeaves (cms : List H) : IncrementalTree H :=
  cms.foldl IncrementalTree.appended .new

namespace IncrementalTree

omit [LinearOrder H] in
lemma ofLeaves_append (cms : List H) (cm : H) :
    ofLeaves (cms ++ [cm]) = (ofLeaves cms).appended cm := by
  simp [ofLeaves]

omit [LinearOrder H] in
lemma nextIndex_ofLeaves (cms : List H) : (ofLeaves cms).nextIndex = cms.length := by
  induction cms using List.reverseRecOn with
  | nil => rfl
  | append_singleton cms cm ih =>
    rw [ofLeaves_append, List.length_append]
    exact congrArg (· + 1) ih

omit [LinearOrder H] in
/-- The frontier of a tree of known leaves parks the subtrees of those leaves. -/
lemma pendingAt_ofLeaves (cms : List H) :
    Merkle.PendingAt merkleNode (leafAt cms) 0 (ofLeaves cms).frontier cms.length := by
  induction cms using List.reverseRecOn with
  | nil =>
    -- an empty tree parks nothing: every bit of the insertion position is zero
    have hzero : ∀ (fs : List H) (k : ℕ), Merkle.PendingAt merkleNode (leafAt []) k fs 0 := by
      intro fs
      induction fs with
      | nil => intro k; trivial
      | cons f fs ih => exact fun k => ⟨fun h => absurd h (by decide), ih (k + 1)⟩
    exact hzero _ _
  | append_singleton cms cm ih =>
    have hagree : ∀ j, j < cms.length * 2 ^ 0 → leafAt cms j = leafAt (cms ++ [cm]) j := by
      intro j hj
      rw [pow_zero, mul_one] at hj
      rw [leafAt, leafAt, List.getElem?_append_left hj]
    have hcur : cm = Merkle.subRoot merkleNode (leafAt (cms ++ [cm])) 0 cms.length := by
      simp [Merkle.subRoot, leafAt]
    have hnext := (ih.congr merkleNode hagree).append merkleNode hcur
    rw [ofLeaves_append, List.length_append]
    change Merkle.PendingAt _ _ _
      (Merkle.appendFrontier merkleNode (ofLeaves cms).frontier (ofLeaves cms).nextIndex cm) _
    rw [nextIndex_ofLeaves]
    exact hnext

omit [LinearOrder H] in
/-- The incremental root is the root of the full tree over the leaves. -/
lemma root_ofLeaves {cms : List H} (h : cms.length < 2 ^ TREE_DEPTH) :
    (ofLeaves cms).root = Merkle.subRoot merkleNode (leafAt cms) TREE_DEPTH 0 := by
  have hcur : (emptyLeaf : H) = Merkle.subRoot merkleNode (leafAt cms) 0 cms.length := by
    simp [Merkle.subRoot, leafAt]
  have hempty : ∀ j, (cms.length + 1) * 2 ^ 0 ≤ j → leafAt cms j = emptyLeaf := by
    intro j hj
    rw [pow_zero, mul_one] at hj
    rw [leafAt, List.getElem?_eq_none (by omega), Option.getD_none]
  have hroot := (pendingAt_ofLeaves cms).root merkleNode hcur hempty
  rw [(ofLeaves cms).frontier_length, Nat.div_eq_of_lt h, Nat.zero_add] at hroot
  rw [root, nextIndex_ofLeaves]
  exact hroot

omit [LinearOrder H] in
/-- A path that folds to the root of a tree opens one of its leaves, or an empty slot. -/
lemma mem_of_foldPath_eq_root (hnode : Function.Injective2 (merkleNode (H := H))) {cms : List H}
    (h : cms.length < 2 ^ TREE_DEPTH) {sibs : List H} {idx : ℕ} {cm : H}
    (hlen : sibs.length = TREE_DEPTH)
    (hfold : Merkle.foldPath merkleNode sibs idx cm = (ofLeaves cms).root) :
    cm ∈ cms ∨ cm = emptyLeaf := by
  rw [root_ofLeaves h, ← hlen] at hfold
  have hleaf := Merkle.eq_subRoot_of_foldPath merkleNode hnode sibs 0 0 idx cm
    (by rw [Nat.zero_add]; exact hfold)
  rw [Merkle.subRoot, leafAt] at hleaf
  cases hget : cms[0 * 2 ^ sibs.length + idx % 2 ^ sibs.length]? with
  | none =>
    rw [hget] at hleaf
    exact .inr hleaf
  | some cm' =>
    rw [hget] at hleaf
    rw [hleaf]
    exact .inl (List.mem_of_getElem? hget)

omit [LinearOrder H] [HashSuite H] in
/-- Capacity in plain numbers. -/
lemma nextIndex_add_lt_of_hasCapacity {t : IncrementalTree H} {n : ℕ} (h : t.hasCapacity n) :
    t.nextIndex + n < 2 ^ TREE_DEPTH := by
  simp only [hasCapacity, satAdd, u64Max, TREE_DEPTH] at h ⊢
  omega

end IncrementalTree

/-! ## The value of unspent notes -/

/-- What the accounting needs of the hashes: commitments of `u64` notes and nodes are injective, an
address tag determines its nullifier key, and no commitment is the empty leaf. -/
structure DomainSeparated (H : Type) [HashSuite H] : Prop where
  commit : ∀ n n' : Note H, n.value ≤ u64Max → n'.value ≤ u64Max →
    commitNote n = commitNote n' → n = n'
  node : Function.Injective2 (merkleNode (H := H))
  address : ∀ spendRoot spendRoot' nk nk' : H,
    addressTag spendRoot nk = addressTag spendRoot' nk' → nk = nk'
  leaf : ∀ n : Note H, commitNote n ≠ emptyLeaf

/-- The nullifier of a note, under the key its owner's address commits to, is recorded. -/
def Circuit.Note.Spent (nfs : OrderedSet H) (n : Note H) : Prop :=
  ∃ spendRoot nk, addressTag spendRoot nk = n.owner ∧ nullifier nk n.rho ∈ nfs

open Classical in
/-- The sum of the values of the notes whose nullifier is not recorded. -/
noncomputable def unspentValue (nfs : OrderedSet H) (notes : List (Note H)) : ℕ :=
  (notes.map fun n => if n.Spent nfs then 0 else n.value).sum

lemma Circuit.Note.Spent.insert {nfs : OrderedSet H} {n : Note H} (h : n.Spent nfs) (nf : H) :
    n.Spent (nfs.insert nf) := by
  obtain ⟨spendRoot, nk, howner, hmem⟩ := h
  exact ⟨spendRoot, nk, howner, Std.ExtTreeSet.mem_insert.mpr (.inr hmem)⟩

lemma unspentValue_append_le (nfs : OrderedSet H) (notes : List (Note H)) (n : Note H) :
    unspentValue nfs (notes ++ [n]) ≤ unspentValue nfs notes + n.value := by
  classical
  simp only [unspentValue, List.map_append, List.map_cons, List.map_nil, List.sum_append,
    List.sum_cons, List.sum_nil]
  split_ifs <;> omega

/-- Recording a nullifier only lowers the unspent value. -/
lemma unspentValue_insert_le (nfs : OrderedSet H) (notes : List (Note H)) (nf : H) :
    unspentValue (nfs.insert nf) notes ≤ unspentValue nfs notes := by
  classical
  refine List.sum_le_sum fun n _ => ?_
  by_cases h : n.Spent nfs
  · rw [if_pos h, if_pos (h.insert nf)]
  · rw [if_neg h]
    split_ifs <;> omega

/-- Recording the nullifier of an unspent note takes at least the note's value. -/
lemma unspentValue_insert_add_le {nfs : OrderedSet H} {notes : List (Note H)} {nf : H} {n : Note H}
    (hmem : n ∈ notes) (hbefore : ¬ n.Spent nfs) (hafter : n.Spent (nfs.insert nf)) :
    unspentValue (nfs.insert nf) notes + n.value ≤ unspentValue nfs notes := by
  classical
  induction notes with
  | nil => cases hmem
  | cons m notes ih =>
    have hhead : (if m.Spent (nfs.insert nf) then 0 else m.value) ≤
        if m.Spent nfs then 0 else m.value := by
      by_cases h : m.Spent nfs
      · rw [if_pos h, if_pos (h.insert nf)]
      · rw [if_neg h]
        split_ifs <;> omega
    have hrest := unspentValue_insert_le nfs notes nf
    simp only [unspentValue, List.map_cons, List.sum_cons] at ih hrest ⊢
    rcases List.mem_cons.mp hmem with rfl | hmem
    · rw [if_pos hafter, if_neg hbefore]
      omega
    · have htail := ih hmem
      omega

/-! ## One pool -/

/-- The notes of a pool: the commitments its tree was built from, with what the accounting relates
to them. -/
structure PoolState.Holds (p : PoolState H) (notes : List (Note H)) : Prop where
  tree : p.tree = .ofLeaves (notes.map commitNote)
  room : notes.length < 2 ^ TREE_DEPTH
  range : ∀ n ∈ notes, n.value ≤ u64Max
  /-- Every anchor is the root of a tree the pool once had. -/
  anchors : ∀ r ∈ p.anchors, ∃ cms, cms <+: notes.map commitNote ∧
    r = (IncrementalTree.ofLeaves cms).root
  unspent : unspentValue p.nullifiers notes ≤ p.totalShielded
  total : p.totalShielded ≤ u64Max * notes.length

namespace PoolState

variable {p : PoolState H} {notes : List (Note H)}

lemma holds_default : (default : PoolState H).Holds [] where
  tree := rfl
  room := by simp [TREE_DEPTH]
  range := by simp
  anchors := by simp [default]
  unspent := le_of_eq rfl
  total := le_of_eq rfl

/-- The notes of a pool do not depend on its version or asset. -/
lemma Holds.congr {p' : PoolState H} (h : p.Holds notes) (htree : p'.tree = p.tree)
    (hnfs : p'.nullifiers = p.nullifiers) (htotal : p'.totalShielded = p.totalShielded)
    (hanchors : ∀ r ∈ p'.anchors, r ∈ p.anchors ∨ r = p.tree.root) : p'.Holds notes where
  tree := htree.trans h.tree
  room := h.room
  range := h.range
  anchors r hr := by
    rcases hanchors r hr with hr | rfl
    · exact h.anchors r hr
    · exact ⟨_, List.prefix_rfl, by rw [h.tree]⟩
  unspent := by rw [hnfs, htotal]; exact h.unspent
  total := by rw [htotal]; exact h.total

lemma Holds.sealAnchor (h : p.Holds notes) : p.sealAnchor.Holds notes := by
  refine h.congr (by simp) (by simp) (by simp) fun r hr => ?_
  simp only [PoolState.sealAnchor] at hr
  split_ifs at hr
  · exact .inl hr
  · rcases List.mem_append.mp (List.mem_of_mem_tail hr) with hr | hr
    · exact .inl hr
    · exact .inr (List.mem_singleton.mp hr)
  · rcases List.mem_append.mp hr with hr | hr
    · exact .inl hr
    · exact .inr (List.mem_singleton.mp hr)

/-- A shield adds the note whose commitment it appends. -/
lemma Holds.minted (h : p.Holds notes) (hroom : p.tree.hasCapacity 1) {n : Note H}
    (hrange : n.value ≤ u64Max) (asset : H) :
    (p.minted asset (commitNote n) n.value).Holds (notes ++ [n]) := by
  have hcap := IncrementalTree.nextIndex_add_lt_of_hasCapacity hroom
  rw [h.tree, IncrementalTree.nextIndex_ofLeaves, List.length_map] at hcap
  have htotal := h.total
  have hlen := h.room
  -- the total stays far below `u128`: one `u64` per leaf
  have hsat : satAdd u128Max p.totalShielded n.value = p.totalShielded + n.value := by
    apply satAdd_of_le
    simp only [u64Max, u128Max, TREE_DEPTH] at *
    omega
  refine ⟨?_, by simpa using hcap, ?_, ?_, ?_, ?_⟩
  · rw [List.map_append, List.map_singleton, IncrementalTree.ofLeaves_append, ← h.tree]
    rfl
  · intro m hm
    rcases List.mem_append.mp hm with hm | hm
    · exact h.range m hm
    · rw [List.mem_singleton.mp hm]
      exact hrange
  · intro r hr
    obtain ⟨cms, hpre, rfl⟩ := h.anchors r hr
    exact ⟨cms, hpre.trans (by simp), rfl⟩
  · have happ := unspentValue_append_le p.nullifiers notes n
    have hun := h.unspent
    change unspentValue p.nullifiers _ ≤ satAdd u128Max p.totalShielded n.value
    omega
  · change satAdd u128Max p.totalShielded n.value ≤ _
    rw [hsat, List.length_append, List.length_singleton, Nat.mul_add, Nat.mul_one]
    omega

/-- The anchor pins the input of an accepted spend to a note of the pool. -/
lemma Holds.inNote_mem (hash : DomainSeparated H) (h : p.Holds notes) {w : SpendWitness H}
    {pub : SpendPublic H} (hw : Accepts w pub) (hanchor : pub.merkleRoot ∈ p.anchors) :
    w.inNote ∈ notes := by
  obtain ⟨cms, hpre, hcms⟩ := h.anchors _ hanchor
  have hlt : cms.length < 2 ^ TREE_DEPTH := by
    have hle := hpre.length_le
    rw [List.length_map] at hle
    exact hle.trans_lt h.room
  have hfold := hw.root.symm.trans hcms
  rcases IncrementalTree.mem_of_foldPath_eq_root hash.node hlt hw.depth hfold with hmem | hempty
  · obtain ⟨n, hn, heq⟩ := List.mem_map.mp (hpre.subset hmem)
    rwa [← hash.commit n w.inNote (h.range n hn) hw.bound heq]
  · exact absurd hempty (hash.leaf _)

/-- **A spend is covered.**  A spend under an anchor of the pool, attested by a witness, with a
fresh nullifier: the pool holds the fee, and afterwards holds the two outputs too. -/
lemma Holds.spent (hash : DomainSeparated H) (h : p.Holds notes) {anchor nf out out2 : H} {fee : ℕ}
    (hanchor : anchor ∈ p.anchors) (hfresh : nf ∉ p.nullifiers) (hroom : p.tree.hasCapacity 2)
    {w : SpendWitness H} {pub : SpendPublic H} (hw : Accepts w pub)
    (hroot : pub.merkleRoot = anchor)
    (hnf : pub.nullifier = nf) (hout : pub.outCommitment = out) (hout2 : pub.out2Commitment = out2)
    (hfee : pub.fee = fee) :
    fee ≤ p.totalShielded ∧
      (p.spent nf out out2 fee).Holds (notes ++ [w.outNote] ++ [w.out2Note]) := by
  subst hroot hnf hout hout2 hfee
  have hcap := IncrementalTree.nextIndex_add_lt_of_hasCapacity hroom
  rw [h.tree, IncrementalTree.nextIndex_ofLeaves, List.length_map] at hcap
  have hin := h.inNote_mem hash hw hanchor
  obtain ⟨spendRoot, howner⟩ := hw.owner
  have hbefore : ¬ w.inNote.Spent p.nullifiers := by
    rintro ⟨spendRoot', nk', howner', hmem⟩
    rw [← hash.address _ _ _ _ (howner.trans howner'.symm), ← hw.nullifier] at hmem
    exact hfresh hmem
  have hafter : w.inNote.Spent (p.nullifiers.insert pub.nullifier) := by
    refine ⟨spendRoot, w.nk, howner, ?_⟩
    rw [← hw.nullifier]
    exact Std.ExtTreeSet.mem_insert_self
  have hdrop := unspentValue_insert_add_le hin hbefore hafter
  have hun := h.unspent
  have hvalue := hw.value
  have hbound := hw.bound
  refine ⟨by omega, ?_, ?_, ?_, ?_, ?_, ?_⟩
  · rw [List.map_append, List.map_append, List.map_singleton, List.map_singleton,
      IncrementalTree.ofLeaves_append, IncrementalTree.ofLeaves_append, ← h.tree, ← hw.out,
      ← hw.out2]
    rfl
  · simp only [List.length_append, List.length_singleton]
    omega
  · intro m hm
    simp only [List.mem_append, List.mem_singleton] at hm
    rcases hm with (hm | rfl) | rfl
    · exact h.range m hm
    · omega
    · omega
  · intro r hr
    obtain ⟨cms, hpre, rfl⟩ := h.anchors r hr
    exact ⟨cms, hpre.trans (by simp), rfl⟩
  · have happ := unspentValue_append_le (p.nullifiers.insert pub.nullifier) notes w.outNote
    have happ2 := unspentValue_append_le (p.nullifiers.insert pub.nullifier)
      (notes ++ [w.outNote]) w.out2Note
    change unspentValue (p.nullifiers.insert pub.nullifier) _ ≤ p.totalShielded - pub.fee
    omega
  · have htotal := h.total
    change p.totalShielded - pub.fee ≤ _
    simp only [List.length_append, List.length_singleton, Nat.mul_add, Nat.mul_one]
    omega

end PoolState

/-! ## The verifier and the aggregates -/

/-- A sound verifier accepts only public values that some witness produces. -/
structure ProofVerifier.Sound (v : ProofVerifier H) : Prop where
  spend : ∀ proof pub, v.verifySpend proof pub = true → ∃ w, run w = .ok pub
  mint : ∀ proof pub, v.verifyMint proof pub = true → ∃ w, runMint w = pub

/-- A sound coverage only covers statements that some witness produces. -/
structure CoverSound (keys : OrderedSet H) : Prop where
  spend : ∀ pub : SpendPublic H, coverKey KIND_SPEND pub.encode ∈ keys → ∃ w, run w = .ok pub
  mint : ∀ pub : MintPublic H, coverKey KIND_MINT pub.encode ∈ keys → ∃ w, runMint w = pub

lemma coverSound_empty : CoverSound (∅ : OrderedSet H) where
  spend _ h := absurd h Std.ExtTreeSet.not_mem_empty
  mint _ h := absurd h Std.ExtTreeSet.not_mem_empty

namespace State

/-- Every pool holds its notes, and what the state accepts as proved is proved. -/
structure PoolsSolvent (s : State H) : Prop where
  legacy : ∃ notes, s.pool.Holds notes
  pools : ∀ (a : H) p, s.pools[a]? = some p → ∃ notes, p.Holds notes
  verifier : s.verifier.Sound
  cover : CoverSound s.aggCover

lemma PoolsSolvent.holds {s : State H} (hs : PoolsSolvent s) {key : PoolKey H} {pool : PoolState H}
    (h : s.poolRef key = some pool) : ∃ notes, pool.Holds notes := by
  cases key with
  | legacy =>
    cases h
    exact hs.legacy
  | asset a => exact hs.pools a pool h

/-- Solvency is a matter of the pools behind the keys and of the frame. -/
lemma PoolsSolvent.of_poolRef {s s' : State H} (hs : PoolsSolvent s) (hframe : s'.frame = s.frame)
    (h : ∀ key pool, s'.poolRef key = some pool → ∃ notes, pool.Holds notes) : PoolsSolvent s' where
  legacy := h .legacy _ rfl
  pools a p hp := h (.asset a) p hp
  verifier := by
    have hv : s'.verifier = s.verifier := congrArg Frame.verifier hframe
    rw [hv]
    exact hs.verifier
  cover := by
    have hc : s'.aggCover = s.aggCover := congrArg Frame.aggCover hframe
    rw [hc]
    exact hs.cover

/-- One pool is written, with notes of its own. -/
lemma PoolsSolvent.of_setPool {s s' : State H} (hs : PoolsSolvent s) (hframe : s'.frame = s.frame)
    {key : PoolKey H} {p : PoolState H}
    (hset : ∀ key', s'.poolRef key' = (s.setPool key p).poolRef key')
    (h : ∃ notes, p.Holds notes) : PoolsSolvent s' := by
  refine hs.of_poolRef hframe fun key' pool hpool => ?_
  rw [hset, poolRef_setPool] at hpool
  split_ifs at hpool
  · cases hpool
    exact h
  · exact hs.holds hpool

lemma exists_witness_of_spendProved {s : State H} (hs : PoolsSolvent s) {proof : List UInt8}
    {pub : SpendPublic H} (h : s.spendProved proof pub = true) : ∃ w, run w = .ok pub := by
  unfold spendProved at h
  split_ifs at h
  · exact hs.cover.spend pub (by simpa using h)
  · exact hs.verifier.spend proof pub h

lemma exists_witness_of_mintProved {s : State H} (hs : PoolsSolvent s) {proof : List UInt8}
    {pub : MintPublic H} (h : s.mintProved proof pub = true) : ∃ w, runMint w = pub := by
  unfold mintProved at h
  split_ifs at h
  · exact hs.cover.mint pub (by simpa using h)
  · exact hs.verifier.mint proof pub h

/-- The pool a shield acts on holds its notes, also when the shield creates it. -/
lemma PoolsSolvent.poolForMint {s : State H} (hs : PoolsSolvent s) (key : PoolKey H) :
    ∃ notes, (s.poolForMint key).Holds notes := by
  cases key with
  | legacy => exact hs.legacy
  | asset a =>
    simp only [State.poolForMint]
    cases h : s.pools[a]? with
    | some p => exact hs.pools a p h
    | none =>
      rw [Option.getD_none]
      refine ⟨[], PoolState.Holds.sealAnchor ?_⟩
      exact PoolState.holds_default.congr rfl rfl rfl fun _ hr => .inl hr

/-- An accepted spend is covered by its pool. -/
lemma PoolsSolvent.unshields (hash : DomainSeparated H) {s : State H} (hs : PoolsSolvent s)
    {sender anchor nf out out2 : H} {fee : ℕ} {creditTo mandate : Option H} {proof : List UInt8}
    {key : PoolKey H} {pool : PoolState H} {t : MandateTree H}
    (h : Unshields s sender anchor nf out out2 fee creditTo mandate proof key pool t) :
    fee ≤ pool.totalShielded ∧ ∃ notes, (pool.spent nf out out2 fee).Holds notes := by
  obtain ⟨notes, hnotes⟩ := hs.holds h.poolAt
  obtain ⟨w, hw⟩ := exists_witness_of_spendProved hs h.proved
  have hanchor := mem_anchors_of_poolKeyOfAnchor h.anchorKey h.poolAt
  obtain ⟨hle, hspent⟩ := hnotes.spent hash hanchor h.fresh h.room (accepts_of_run hw) rfl rfl rfl
    rfl rfl
  exact ⟨hle, _, hspent⟩

/-! ## Runs -/

omit [HashSuite H] in
lemma UnshieldCovered.of_unshield_none {s : State H} {tx : Tx H} (h : tx.unshield = none) :
    UnshieldCovered s tx := by
  intro anchor fee key pool hu
  rw [h] at hu
  cases hu

omit [LinearOrder H] [HashSuite H] in
lemma unshield_of_outputs {tx : Tx H} (h : tx.outputs = []) : tx.unshield = none := by
  cases tx <;> simp_all [Tx.outputs, Tx.unshield]

/-- A transaction body keeps the pools solvent, and its unshield is covered. -/
lemma PoolsSolvent.dispatch (hash : DomainSeparated H) {s s' : State H} {sender : H} {tx : Tx H}
    {evs : List (Event H)} (hs : PoolsSolvent s) (h : dispatch sender tx s = (.ok evs, s')) :
    UnshieldCovered s tx ∧ PoolsSolvent s' := by
  have hframe := frame_dispatch h
  cases poolMove_dispatch h with
  | idle htx hpool hpools =>
    refine ⟨.of_unshield_none (unshield_of_outputs htx), hs.of_poolRef hframe fun key pool hp => ?_⟩
    rw [poolRef_congr hpool hpools] at hp
    exact hs.holds hp
  | @minted asset commitment value proof ct key _ hkey hrange hproved hroom hset =>
    obtain ⟨notes, hnotes⟩ := hs.poolForMint key
    obtain ⟨w, hw⟩ := exists_witness_of_mintProved hs hproved
    obtain ⟨rfl, rfl⟩ : commitNote w.note = commitment ∧ w.note.value = value := by
      simpa [runMint, expectedMintPublic] using hw
    exact ⟨.of_unshield_none rfl,
      hs.of_setPool hframe hset ⟨_, hnotes.minted hroom hrange asset⟩⟩
  | @spent anchor nf out out2 fee creditTo mandate proof ct ct2 key pool t _ hun hset =>
    obtain ⟨hle, hspent⟩ := hs.unshields hash hun
    refine ⟨?_, hs.of_setPool hframe hset hspent⟩
    intro anchor' fee' key' pool' hu hkey' hpool'
    cases hu
    obtain rfl : key = key' := by simpa [hun.anchorKey] using hkey'
    obtain rfl : pool = pool' := by simpa [hun.poolAt] using hpool'
    exact hle

lemma PoolsSolvent.feeCharged {s : State H} (hs : PoolsSolvent s) (sender : H) :
    PoolsSolvent (s.feeCharged sender) := by
  rw [feeCharged_eq]
  exact hs.of_poolRef rfl fun _ _ h => hs.holds h

variable [TxCodec H]

lemma PoolsSolvent.applyTxAt (hash : DomainSeparated H) {s s' : State H} {stx : SignedTx H}
    {preSig : Option Bool} {evs : List (Event H)} (hs : PoolsSolvent s)
    (h : applyTxAt stx preSig s = (.ok evs, s')) :
    UnshieldCovered s stx.payload ∧ PoolsSolvent s' := by
  obtain ⟨s₁, henv⟩ := applyTxAt_eq_ok h
  obtain ⟨acc, -, -, rfl⟩ := henv.ratchet
  obtain ⟨hcov, hs₁⟩ := (hs.feeCharged stx.sender).dispatch hash henv.body
  rw [feeCharged_eq] at hcov
  exact ⟨hcov, ⟨hs₁.legacy, hs₁.pools, hs₁.verifier, hs₁.cover⟩⟩

omit [TxCodec H] in
lemma PoolsSolvent.sealBlock {s : State H} (hs : PoolsSolvent s) : PoolsSolvent s.sealBlock := by
  refine ⟨?_, fun a p hp => ?_, hs.verifier, coverSound_empty⟩
  · obtain ⟨notes, hnotes⟩ := hs.legacy
    exact ⟨notes, hnotes.sealAnchor⟩
  · simp only [State.sealBlock, Std.ExtTreeMap.getElem?_map] at hp
    obtain ⟨q, hq, rfl⟩ := Option.map_eq_some_iff.mp hp
    obtain ⟨notes, hnotes⟩ := hs.pools a q hq
    exact ⟨notes, hnotes.sealAnchor⟩

/-- Every elementary step keeps the pools solvent, if the coverage it installs is sound. -/
lemma PoolsSolvent.elemStep (hash : DomainSeparated H) {s s' : State H} {l : Elementary H}
    (hs : PoolsSolvent s) (hcover : ∀ keys, l = .cover keys → CoverSound keys)
    (h : ElemStep s l s') :
    (∀ tx, l.payload = some tx → UnshieldCovered s tx) ∧ PoolsSolvent s' := by
  cases h with
  | openBlock => exact ⟨fun _ ht => (by cases ht), ⟨hs.legacy, hs.pools, hs.verifier, hs.cover⟩⟩
  | tx h =>
    obtain ⟨hcov, hs'⟩ := hs.applyTxAt hash h
    refine ⟨fun tx ht => ?_, hs'⟩
    cases ht
    exact hcov
  | closeBlock => exact ⟨fun _ ht => (by cases ht), hs.sealBlock⟩
  | cover keys =>
    exact ⟨fun _ ht => (by cases ht), ⟨hs.legacy, hs.pools, hs.verifier, hcover keys rfl⟩⟩

omit [TxCodec H] in
lemma Fresh.poolsSolvent {s : State H} (hf : Fresh s) (hsound : s.verifier.Sound) :
    PoolsSolvent s where
  legacy := ⟨[], by rw [hf.pool]; exact PoolState.holds_default.sealAnchor⟩
  pools a p hp := by
    rw [hf.pools] at hp
    simp at hp
  verifier := hsound
  cover := by
    rw [hf.aggCover]
    exact coverSound_empty

/-- Every pool has its notes, and those whose nullifier is not recorded are worth at most the total
it records. -/
def Solvent (s : State H) : Prop :=
  ∀ key pool, s.poolRef key = some pool → ∃ notes : List (Note H),
    pool.tree = .ofLeaves (notes.map commitNote) ∧
      unspentValue pool.nullifiers notes ≤ pool.totalShielded

omit [TxCodec H] in
lemma PoolsSolvent.solvent {s : State H} (hs : PoolsSolvent s) : Solvent s := by
  intro key pool hpool
  obtain ⟨notes, hnotes⟩ := hs.holds hpool
  exact ⟨notes, hnotes.tree, hnotes.unspent⟩

/-- **Solvency.**  With domain-separated hashes, a sound verifier and sound coverage, along every
run of blocks the pools are solvent and every accepted unshield is covered by what its pool holds:
the saturating subtraction never clamps. -/
theorem unshieldCovered_of_run (hash : DomainSeparated H) {g : Genesis H} {s₀ s : State H}
    {steps : List (List (Elementary H))} (hinit : Initial g s₀) (hsound : s₀.verifier.Sound)
    (hpath : Path BlockStep s₀ steps s)
    (hcover : ∀ keys, .cover keys ∈ steps.flatten → CoverSound keys) :
    (Path.Along ElemStep s₀ steps.flatten fun s l =>
      Solvent s ∧ ∀ tx, l.payload = some tx → UnshieldCovered s tx) ∧ Solvent s := by
  have helem := elemPath hinit.fresh.fits hpath
  have hstart := hinit.fresh.poolsSolvent hsound
  have hstep : ∀ s l s', PoolsSolvent s → l ∈ steps.flatten → ElemStep s l s' →
      (Solvent s ∧ ∀ tx, l.payload = some tx → UnshieldCovered s tx) ∧ PoolsSolvent s' := by
    intro s l s' hs hl h
    obtain ⟨hcov, hs'⟩ := hs.elemStep hash (fun keys hk => hcover keys (hk ▸ hl)) h
    exact ⟨⟨hs.solvent, hcov⟩, hs'⟩
  refine ⟨helem.along_of_invariant elemStep_deterministic Path.along_mem hstart hstep, ?_⟩
  have hend : PoolsSolvent s :=
    helem.invariant hstart fun s l s' hl hs h => (hstep s l s' hs hl h).2
  exact hend.solvent

end State

namespace Concrete

open State

lemma listCode_injective : Function.Injective listCode := by
  intro xs
  induction xs with
  | nil =>
    intro ys h
    cases ys with
    | nil => rfl
    | cons y ys => simp [listCode] at h
  | cons x xs ih =>
    intro ys h
    cases ys with
    | nil => simp [listCode] at h
    | cons y ys =>
      obtain ⟨rfl, hrest⟩ := Nat.pair_eq_pair.mp (Nat.succ.inj h)
      rw [ih hrest]

/-- The code of a hash input determines the codes of its pieces. -/
lemma map_pieceTag_eq {ps qs : List (Piece ℕ)} (h : sha ps = sha qs) :
    ps.map pieceTag = qs.map pieceTag :=
  listCode_injective (Nat.add_right_cancel h)

lemma domainSeparated : DomainSeparated ℕ where
  commit n n' _ _ h := by
    have hcodes := map_pieceTag_eq h
    cases n
    cases n'
    simp only [List.map_cons, List.map_nil, pieceTag, List.cons.injEq, and_true] at hcodes
    simp only [Note.mk.injEq]
    omega
  node l l' r r' h := by
    have hcodes := map_pieceTag_eq h
    simp only [List.map_cons, List.map_nil, pieceTag, List.cons.injEq, and_true] at hcodes
    omega
  address spendRoot spendRoot' nk nk' h := by
    have hcodes := map_pieceTag_eq h
    simp only [List.map_cons, List.map_nil, pieceTag, List.cons.injEq, and_true] at hcodes
    have hnk : sha [.byte DOM_NK, .digest nk] = sha [.byte DOM_NK, .digest nk'] := by omega
    have hcodes' := map_pieceTag_eq hnk
    simp only [List.map_cons, List.map_nil, pieceTag, List.cons.injEq, and_true] at hcodes'
    omega
  leaf n h := by
    change listCode _ + 256 = 0 at h
    omega

/-! ### A deposit and its withdrawal -/

/-- The address that a one-time signature of zeros opens for a withdrawal by `dst`. -/
def openedBy (dst : H) (fee : ℕ) : H :=
  addressTag (Merkle.foldPath otsNode (List.replicate SPEND_TREE_DEPTH (fill 0)) 0
    ((wotsRecoverOwner (List.replicate WOTS_CHAINS (fill 0)) (txBindingFor dst fee)).getD
      (fill 0))) (fill 9)

/-- A note of five units for that address. -/
def deposit (dst : H) : Note H := ⟨5, openedBy dst 3, fill 2, fill 3⟩

/-- The withdrawal of three units of the deposit; the other two go to a note of the same address. -/
def withdrawal (dst : H) : SpendWitness H where
  inNote := deposit dst
  path := ⟨Merkle.siblings merkleNode (leafAt [commitNote (deposit dst)]) TREE_DEPTH 0 0, 0⟩
  sig := List.replicate WOTS_CHAINS (fill 0)
  otsPath := ⟨List.replicate SPEND_TREE_DEPTH (fill 0), 0⟩
  nk := fill 9
  outNote := ⟨2, openedBy dst 3, fill 4, fill 3⟩
  out2Note := ⟨0, openedBy dst 3, fill 5, fill 3⟩
  fee := 3
  txBinding := txBindingFor dst 3

lemma run_withdrawal (dst : H) : run (withdrawal dst) = .ok (withdrawal dst).publics := by
  have hleaf : wotsRecoverOwner (List.replicate WOTS_CHAINS (fill 0)) (txBindingFor dst 3) =
      some ((wotsRecoverOwner (List.replicate WOTS_CHAINS (fill 0)) (txBindingFor dst 3)).getD
        (fill 0)) := by
    simp [wotsRecoverOwner]
  exact run_eq_ok_iff.mpr ⟨Merkle.length_siblings _ _ _ _ _, List.length_replicate,
    ⟨_, hleaf, rfl⟩, rfl, by simp [withdrawal, deposit, u64Max], rfl⟩

omit [LinearOrder H] in
/-- The withdrawal names the root of the tree that holds the deposit alone. -/
lemma merkleRoot_withdrawal (dst : H) : (withdrawal dst).publics.merkleRoot =
    (IncrementalTree.ofLeaves [commitNote (deposit dst)]).root := by
  have hstart : Merkle.subRoot merkleNode (leafAt [commitNote (deposit dst)]) 0 0 =
      commitNote (deposit dst) := rfl
  have hfold := Merkle.foldPath_siblings merkleNode (leafAt [commitNote (deposit dst)]) TREE_DEPTH
    0 0
  rw [hstart, Nat.zero_add, Nat.zero_div] at hfold
  rw [IncrementalTree.root_ofLeaves (by simp [TREE_DEPTH])]
  simp only [SpendWitness.publics, withdrawal]
  exact hfold

/-- A verifier that accepts the deposit and its withdrawal. -/
def depositVerifier (dst : H) : ProofVerifier H where
  verifySpend _ pub := pub = (withdrawal dst).publics
  verifyMint _ pub := pub = runMint ⟨deposit dst⟩

lemma depositVerifier_sound (dst : H) : (depositVerifier dst).Sound where
  spend _ _ h := ⟨withdrawal dst, by rw [of_decide_eq_true h, run_withdrawal]⟩
  mint _ _ h := ⟨⟨deposit dst⟩, (of_decide_eq_true h).symm⟩

/-- Shield the deposit. -/
def depositTx (dst asset : H) : Tx H := .mintToPool asset 5 (commitNote (deposit dst)) [1] []

/-- Withdraw from it. -/
def withdrawTx (dst : H) : Tx H :=
  .shieldedSpend (withdrawal dst).publics.merkleRoot (withdrawal dst).publics.nullifier
    (withdrawal dst).publics.outCommitment (withdrawal dst).publics.out2Commitment 3 (some dst) none
    [1] [] []

/-- The steps of a block with the shield alone, at height one. -/
def depositSteps (time : ℕ) (dst : H) (stx : SignedTx H) : List (Elementary H) :=
  blockSteps ⟨1, time, [stx], none⟩ [⟨0, .ok [.poolMinted (commitNote (deposit dst)) 5]⟩]

/-- The steps of a block with the withdrawal alone, at height two. -/
def withdrawSteps (time : ℕ) (dst : H) (stx : SignedTx H) : List (Elementary H) :=
  blockSteps ⟨2, time, [stx], none⟩ [⟨0, .ok [.poolSpent (withdrawal dst).publics.nullifier
    (withdrawal dst).publics.outCommitment (withdrawal dst).publics.out2Commitment 3 (some dst)]⟩]

/-- The state before the block with the shield is sealed. -/
def deposited (s : State H) (dst asset auth : H) : State H :=
  (((s.openedAt 1 s.time).debited dst asset 5).setPool .legacy
    (s.pool.minted asset (commitNote (deposit dst)) 5)).setAccount dst ⟨auth, 1⟩

section Deposit

variable [TxCodec H] [Inhabited H] {s : State H} {dst asset : H} {seed : List UInt8}
  {stx : SignedTx H}

/-- On a fresh chain the deposit goes into the legacy pool. -/
lemma blockStep_deposit (hf : Fresh s) (hverifier : s.verifier = depositVerifier dst)
    (hacc : s.accounts[dst]? = some ⟨commitAt seed 0, 0⟩) (hbalance : 5 ≤ s.balance dst asset)
    (hasset : s.assets[asset]? = none) (hfree : s.feeMicro = 0)
    (hsigned : signAt seed dst 0 (depositTx dst asset) = some stx) :
    BlockStep s (depositSteps s.time dst stx)
      (deposited s dst asset (commitAt seed 1)).sealBlock := by
  have hpool : (s.openedAt 1 s.time).pool = PoolState.default.sealAnchor := hf.pool
  have hlegacy : (s.openedAt 1 s.time).poolKeyOfAsset asset = .ok .legacy := by
    rw [poolKeyOfAsset, hpool, PoolState.sealAnchor_asset]
    rfl
  have hroom : (s.openedAt 1 s.time).pool.tree.hasCapacity 1 := by
    rw [hpool, PoolState.sealAnchor_tree]
    simp [IncrementalTree.hasCapacity, PoolState.default, IncrementalTree.new, satAdd, u64Max,
      TREE_DEPTH]
  have hproved : (s.openedAt 1 s.time).mintProved [1]
      (expectedMintPublic (commitNote (deposit dst)) 5) = true := by
    change s.verifier.verifyMint [1] _ = true
    rw [hverifier]
    exact decide_eq_true rfl
  have hbody := doMintToPool_of_mintProved (s := s.openedAt 1 s.time) (by decide) (by decide)
    hasset hlegacy hroom hproved hbalance
  exact blockStep_singleton (by rw [hf.height]) (by decide) le_rfl
    (applyTxAt_of_signAt (s := s.openedAt 1 s.time) hsigned hacc (by decide) hfree hbody rfl)

omit [TxCodec H] [Inhabited H] in
/-- The tree of the legacy pool then holds the deposit alone. -/
lemma tree_deposited (hf : Fresh s) (auth : H) : (deposited s dst asset auth).pool.tree =
    .ofLeaves [commitNote (deposit dst)] := by
  change s.pool.tree.appended (commitNote (deposit dst)) = _
  rw [hf.pool, PoolState.sealAnchor_tree]
  rfl

/-- In the next block the withdrawal is paid. -/
lemma blockStep_withdrawal (hf : Fresh s) (hverifier : s.verifier = depositVerifier dst)
    (hasset : s.assets[asset]? = none) (hfree : s.feeMicro = 0)
    (hsigned : signAt seed dst 1 (withdrawTx dst) = some stx) :
    ∃ s', BlockStep (deposited s dst asset (commitAt seed 1)).sealBlock
      (withdrawSteps s.time dst stx) s' := by
  let t := (deposited s dst asset (commitAt seed 1)).sealBlock.openedAt 2 s.time
  have htree : (deposited s dst asset (commitAt seed 1)).pool.tree =
      .ofLeaves [commitNote (deposit dst)] := tree_deposited hf _
  have hanchor : t.poolKeyOfAnchor (withdrawal dst).publics.merkleRoot = some .legacy := by
    rw [merkleRoot_withdrawal, ← htree]
    exact if_pos (PoolState.root_mem_sealAnchor _)
  have hfresh : (withdrawal dst).publics.nullifier ∉ t.pool.nullifiers := by
    have hnone : t.pool.nullifiers = ∅ := by
      apply (PoolState.sealAnchor_nullifiers _).trans
      change s.pool.nullifiers = ∅
      rw [hf.pool, PoolState.sealAnchor_nullifiers]
      rfl
    rw [hnone]
    exact Std.ExtTreeSet.not_mem_empty
  have hroom : t.pool.tree.hasCapacity 2 := by
    rw [show t.pool.tree = _ from (PoolState.sealAnchor_tree _).trans htree]
    simp [IncrementalTree.hasCapacity, IncrementalTree.nextIndex_ofLeaves, satAdd, u64Max,
      TREE_DEPTH]
  have hpoolAsset : t.poolAsset .legacy = some asset := by
    apply (PoolState.sealAnchor_asset _).trans
    change some (s.pool.asset.getD asset) = _
    rw [hf.pool, PoolState.sealAnchor_asset]
    rfl
  have hunregistered : t.assets[asset]? = none := hasset
  have hopen : t.assetGate asset none (some dst) = .ok () := by
    simp only [assetGate, hunregistered]
  have hproved : t.spendProved [1] (expectedSpendPublic (withdrawal dst).publics.merkleRoot
      (withdrawal dst).publics.nullifier (withdrawal dst).publics.outCommitment
      (withdrawal dst).publics.out2Commitment 3 (some dst)) = true := by
    change s.verifier.verifySpend [1] _ = true
    rw [hverifier]
    exact decide_eq_true rfl
  have hacc : t.accounts[dst]? = some ⟨commitAt seed 1, 1⟩ :=
    Std.ExtTreeMap.getElem?_insert_self
  have hbody : dispatch dst (withdrawTx dst) t = _ :=
    doShieldedSpend_withdraw (by decide) (by decide) hanchor rfl hfresh hroom hpoolAsset hopen
      hproved
  exact ⟨_, blockStep_singleton rfl (by decide) le_rfl
    (applyTxAt_of_signAt (s := t) hsigned hacc (by decide) hfree hbody rfl)⟩

end Deposit

/-- Ten units of an asset to shield from. -/
def poolGenesis : Genesis ℕ where
  time := 0
  accounts := [account 1]
  alloc := [⟨1, 7, 10⟩]
  fee := none
  assets := []

lemma verifier_start {g : Genesis ℕ} {c : NodeConfig ℕ} (h : Initial g (start g c)) :
    (start g c).verifier = c.verifier := by
  obtain ⟨s₀, c', hg, -⟩ := h
  simp only [start, hg]
  rfl

def poolStart : State ℕ :=
  start poolGenesis { (config : NodeConfig ℕ) with verifier := depositVerifier 1 }

lemma poolStart_facts : poolStart.time = 0 ∧ poolStart.feeMicro = 0 ∧
    (poolStart.accounts[1]?.any fun acc => acc.authCommit = commitAt [1] 0 ∧ acc.nonce = 0) =
      true ∧ 5 ≤ poolStart.balance 1 7 ∧ poolStart.assets[7]?.isNone = true := by
  decide +kernel

/-- The run of the two blocks. -/
def depositRun : List (List (Elementary ℕ)) :=
  [depositSteps 0 1 (signed [1] 1 0 (depositTx 1 7)),
    withdrawSteps 0 1 (signed [1] 1 1 (withdrawTx 1))]

/-- Five units are shielded, and three of them withdrawn in the next block. -/
theorem poolBlock_solvent : ∃ s, Path BlockStep poolStart depositRun s ∧
    (Path.Along ElemStep poolStart depositRun.flatten fun s l =>
      Solvent s ∧ ∀ tx, l.payload = some tx → UnshieldCovered s tx) ∧ Solvent s := by
  have hinit : Initial poolGenesis poolStart := initial_start _ (by decide +kernel)
  have hverifier : poolStart.verifier = depositVerifier 1 := verifier_start hinit
  obtain ⟨htime, hfree, hany, hbalance, hnone⟩ := poolStart_facts
  have hacc : poolStart.accounts[1]? = some ⟨commitAt [1] 0, 0⟩ := by
    obtain ⟨acc, hacc, haccount⟩ := (Option.any_eq_true _ _).mp hany
    have hspec := of_decide_eq_true haccount
    rw [hacc, ← hspec.1, ← hspec.2]
  have hasset := Option.isNone_iff_eq_none.mp hnone
  have hdeposit := blockStep_deposit hinit.fresh hverifier hacc hbalance hasset hfree
    (signAt_eq_signed [1] 1 0 (depositTx 1 7))
  obtain ⟨s, hwithdraw⟩ := blockStep_withdrawal hinit.fresh hverifier hasset hfree
    (signAt_eq_signed [1] 1 1 (withdrawTx 1))
  rw [htime] at hdeposit hwithdraw
  have hpath : Path BlockStep poolStart depositRun s := .snoc (.single hdeposit) hwithdraw
  refine ⟨s, hpath, unshieldCovered_of_run domainSeparated hinit ?_ hpath ?_⟩
  · rw [hverifier]
    exact depositVerifier_sound 1
  · intro keys hkeys
    simp only [depositRun, List.flatten_cons, List.flatten_nil, List.append_nil,
      List.mem_append] at hkeys
    rcases hkeys with hkeys | hkeys
    · exact absurd hkeys (cover_notMem_blockSteps _ _ _)
    · exact absurd hkeys (cover_notMem_blockSteps _ _ _)

end Concrete

end HashKinetics
