import HashKinetics.State.Spends

/-!
# An honest spend on the chain

The wallet plans a spend of a note it found, the circuit gives the public values, and the chain
derives them again from the transaction.  All three agree, so the chain accepts the spend exactly
when the pool that it looks up by the anchor takes it.  That pool is the first one with the anchor
in its window: the pool of the note, unless another pool repeats its commitments.
-/

namespace HashKinetics

open Foundations Circuit

variable {H : Type} [LinearOrder H] [HashSuite H]

namespace State

/-- What a spend without a mandate needs of the pool it acts on: a fresh nullifier, room for two
outputs, and for a withdrawal an asset whose gate lets the credit pass. -/
def PoolTakes (s : State H) (key : PoolKey H) (nf : H) (fee : ℕ) (creditTo : Option H) : Prop :=
  ∃ pool, s.poolRef key = some pool ∧ nf ∉ pool.nullifiers ∧ pool.tree.hasCapacity 2 ∧
    (0 < fee → ∃ a, s.poolAsset key = some a ∧ s.assetGate a none creditTo = .ok ())

/-- A proved spend without a mandate is accepted exactly when the pool found by its anchor takes
it. -/
lemma doShieldedSpend_ok_iff {s : State H} {sender anchor nf out out2 : H} {fee : ℕ}
    {creditTo : Option H} {proof : List UInt8} (hrange : fee ≤ u64Max)
    (hcredit : 0 < fee → creditTo ≠ none)
    (hproved : s.spendProved proof (expectedSpendPublic anchor nf out out2 fee creditTo) = true) :
    (∃ evs s', doShieldedSpend sender anchor nf out out2 fee creditTo none proof s = (.ok evs,
      s')) ↔
      ∃ key, s.poolKeyOfAnchor anchor = some key ∧ s.PoolTakes key nf fee creditTo := by
  constructor
  · rintro ⟨evs, s', h⟩
    obtain ⟨key, pool, t, hun, -, hpaid⟩ := doShieldedSpend_eq_ok h
    refine ⟨key, hun.anchorKey, pool, hun.poolAt, hun.fresh, hun.room, fun hpos => ?_⟩
    obtain ⟨hzero, -⟩ | ⟨-, dst, asset, rfl, hasset, hgate, -⟩ := hpaid
    · omega
    · exact ⟨asset, hasset, hgate⟩
  · rintro ⟨key, hkey, pool, hpool, hfresh, hroom, hgate⟩
    rcases Nat.eq_zero_or_pos fee with rfl | hpos
    · have hspend := PoolState.spend_of_hasCapacity hroom nf out out2 0
      refine ⟨[.poolSpent nf out out2 0 creditTo], s.setPool key (pool.spent nf out out2 0), ?_⟩
      simp [doShieldedSpend, checkSpendMandate, checkSpendMandateAsset, spendMandate, hkey, hpool,
        hfresh, hroom, hproved, hspend]
    · obtain ⟨a, hasset, hopen⟩ := hgate hpos
      obtain ⟨dst, rfl⟩ := Option.ne_none_iff_exists'.mp (hcredit hpos)
      exact ⟨_, _, doShieldedSpend_withdraw hpos hrange hkey hpool hfresh hroom hasset hopen
        hproved⟩

variable [NoteCrypto H]

/-- A spend of a note the wallet found in a pool, to the last unit and with one of its keys, is
planned, with the same plan from the path of the leaf alone.  Where the pool still has the anchor in
its window and takes the spend, the chain accepts the transaction of the plan exactly when the pool
that it finds by the anchor takes the spend. -/
theorem honestSpend_accepted_iff (keys : WalletKeys) (epoch : ℕ) (leaves : List H)
    (hlen : leaves.length ≤ 2 ^ TREE_DEPTH) (entries : List (ℕ × H × List UInt8))
    (hentries : ∀ e ∈ entries, leaves[e.1]? = some e.2.1) (d : Discovered H)
    (hd : d ∈ scanAt keys epoch entries) (otsIndex : ℕ) (hots : otsIndex < 2 ^ keys.h)
    (outNote out2Note : Note H) (fee : ℕ)
    (hvalue : d.note.value = outNote.value + out2Note.value + fee)
    (hle : outNote.value + out2Note.value + fee ≤ u64Max) (creditTo : Option H)
    (hcredit : 0 < fee → creditTo ≠ none) :
    ∃ siblings root plan, fullTreePath leaves d.leafIndex = some (siblings, root) ∧
      buildSpend leaves d.leafIndex d.note keys otsIndex outNote out2Note fee
        (creditTo.getD (fill 0)) = some (.ok plan) ∧
      buildSpendWithPath siblings root d.leafIndex d.note keys otsIndex outNote out2Note fee
        (creditTo.getD (fill 0)) = some (.ok plan) ∧
      ∀ (s : State H) (sender : H) (proof : List UInt8) (key : PoolKey H) (pool : PoolState H),
        s.spendProved proof plan.publics = true → s.poolRef key = some pool →
        pool.isRecentAnchor plan.publics.merkleRoot →
        s.PoolTakes key plan.publics.nullifier fee creditTo →
        ((∃ evs s', doShieldedSpend sender plan.publics.merkleRoot plan.publics.nullifier
            plan.publics.outCommitment plan.publics.out2Commitment plan.publics.fee creditTo none
            proof s = (.ok evs, s')) ↔
          ∃ first, s.poolKeyOfAnchor plan.publics.merkleRoot = some first ∧
            s.PoolTakes first plan.publics.nullifier fee creditTo) := by
  obtain ⟨howner, hcm, ct, hmem⟩ := discovered_spec hd
  have hleaf : leaves[d.leafIndex]? = some (commitNote d.note) := by
    rw [hcm]
    exact hentries _ hmem
  obtain ⟨siblings, plan, hpath, hplan, hplan', -, -, -, hpublics⟩ :=
    buildSpend_ok keys otsIndex outNote out2Note fee (creditTo.getD (fill 0)) hlen hleaf howner hots
      hvalue hle
  refine ⟨siblings, _, plan, hpath, hplan, hplan', ?_⟩
  intro s sender proof key pool hproved _ _ _
  have hrange : fee ≤ u64Max := by omega
  rw [hpublics] at hproved ⊢
  exact doShieldedSpend_ok_iff hrange hcredit hproved

end State

namespace Concrete

open State

/-- A cipher without a secret: behind the encapsulation and the tag stands the plain note. -/
instance : NoteCrypto ℕ where
  Shared := Unit
  decapsulate _ _ _ := some ()
  noteKey _ _ := 0
  openSealed _ _ ct := some (ct.drop TAG_LEN)
  ofBytes bs := ofLeBytes bs

/-- The plain text of five units with zero seed and randomness. -/
def paidPlain : List UInt8 := 5 :: List.replicate 71 0

/-- The commitment of five units to the receiver, with its ciphertext. -/
def paidEntry : ℕ × ℕ × List UInt8 :=
  (0, commitNote (received 0 0), List.replicate CT_LEN 0 ++ (List.replicate TAG_LEN 0 ++ paidPlain))

/-- The note that stands in the entry. -/
def paidNote : Discovered ℕ := ⟨received 0 0, commitNote (received 0 0), 0, []⟩

/-- The receiver finds the note. -/
lemma paidNote_mem : paidNote ∈ scanAt receiver 0 [paidEntry] := by
  have hpt : decodeNotePt (H := ℕ) paidPlain = some (5, 0, 0, []) := by
    decide +kernel
  refine List.mem_filterMap.mpr ⟨paidEntry, List.mem_singleton_self _, ?_⟩
  refine scanEntry_eq_some () ?_ rfl ?_ hpt rfl
  · simp
  · simp [NoteCrypto.openSealed]

lemma paidEntry_leaf : ∀ e ∈ [paidEntry],
    [commitNote (received 0 0)][e.1]? = some e.2.1 := by
  intro e he
  obtain rfl := List.mem_singleton.mp he
  rfl

/-- A pool of one asset with the given leaves, one anchor and some spent nullifiers. -/
def poolOf (asset anchor : ℕ) (leaves : List ℕ) (nfs : OrderedSet ℕ) : PoolState ℕ :=
  { (PoolState.default : PoolState ℕ) with
    asset := some asset
    tree := .ofLeaves leaves
    nullifiers := nfs
    anchors := [anchor] }

/-- A chain that accepts proofs of one spend. -/
def chainOf (pool : PoolState ℕ) (pools : OrderedMap ℕ (PoolState ℕ)) (p : SpendPublic ℕ) :
    State ℕ :=
  { (State.default : State ℕ) with
    pool := pool
    pools := pools
    verifier := { verifySpend := fun _ q => q = p, verifyMint := fun _ _ => false } }

lemma poolTakes_poolOf {s : State ℕ} {key : PoolKey ℕ} {asset anchor nf : ℕ} {leaves : List ℕ}
    {nfs : OrderedSet ℕ} (h : s.poolRef key = some (poolOf asset anchor leaves nfs))
    (hlen : leaves.length < 2) :
    s.PoolTakes key nf 0 none ↔ nf ∉ nfs := by
  have hroom : (poolOf asset anchor leaves nfs).tree.hasCapacity 2 := by
    simp only [poolOf, IncrementalTree.hasCapacity, IncrementalTree.nextIndex_ofLeaves, satAdd,
      TREE_DEPTH, u64Max]
    omega
  constructor
  · rintro ⟨pool, hpool, hfresh, -, -⟩
    rw [h] at hpool
    cases hpool
    exact hfresh
  · intro hfresh
    exact ⟨_, h, hfresh, hroom, fun hpos => absurd hpos (lt_irrefl 0)⟩

/-- With one pool, the receiver's spend is accepted. -/
theorem paidNote_accepted : ∃ plan s,
    buildSpend [commitNote (received 0 0)] 0 (received 0 0) receiver
      0 wholeChange noChange 0 (fill 0) = some (.ok plan) ∧
    ∃ evs s', doShieldedSpend 1 plan.publics.merkleRoot plan.publics.nullifier
      plan.publics.outCommitment plan.publics.out2Commitment plan.publics.fee none none [1] s =
        (.ok evs, s') := by
  obtain ⟨_, _, plan, -, hplan, -, hchain⟩ := honestSpend_accepted_iff receiver 0
    [commitNote (received 0 0)] (by decide) [paidEntry] paidEntry_leaf paidNote paidNote_mem 0
    (by decide) wholeChange noChange 0 rfl (by decide) none (fun h => absurd h (lt_irrefl 0))
  let pool := poolOf 7 plan.publics.merkleRoot [commitNote (received 0 0)] ∅
  let s := chainOf pool ∅ plan.publics
  have hkey : s.poolKeyOfAnchor plan.publics.merkleRoot = some .legacy :=
    if_pos (List.mem_singleton_self _)
  have htakes : s.PoolTakes .legacy plan.publics.nullifier 0 none :=
    (poolTakes_poolOf (s := s) rfl (by decide)).mpr Std.ExtTreeSet.not_mem_empty
  have hproved : s.spendProved [1] plan.publics = true := decide_eq_true rfl
  exact ⟨plan, s, hplan, (hchain s 1 [1] .legacy pool hproved rfl (List.mem_singleton_self _)
    htakes).mpr ⟨.legacy, hkey, htakes⟩⟩

/-- Two pools over one commitment: after the spend from the legacy pool, the note of the other pool
has an unspent nullifier, a recent anchor and room, and its spend is refused. -/
theorem twinNote_refused : ∃ plan s pool, paidNote ∈ scanAt receiver 0 [paidEntry] ∧
    buildSpend [commitNote (received 0 0)] 0 (received 0 0) receiver 0 wholeChange noChange 0
      (fill 0) = some (.ok plan) ∧
    s.spendProved [1] plan.publics = true ∧ s.poolRef (.asset 8) = some pool ∧
    pool.tree = .ofLeaves [commitNote (received 0 0)] ∧
    pool.isRecentAnchor plan.publics.merkleRoot ∧
    s.PoolTakes (.asset 8) plan.publics.nullifier 0 none ∧
    ¬ ∃ evs s', doShieldedSpend 1 plan.publics.merkleRoot plan.publics.nullifier
      plan.publics.outCommitment plan.publics.out2Commitment plan.publics.fee none none [1] s =
        (.ok evs, s') := by
  have hleaf : [commitNote (received 0 0)][0]? = some (commitNote (received 0 0)) := rfl
  obtain ⟨_, plan, -, hplan, -, -, -, -, hpublics⟩ :=
    buildSpend_ok receiver 0 wholeChange noChange 0
    (fill 0) (by decide) hleaf rfl (by decide) rfl (by decide)
  have hexpected : expectedSpendPublic plan.publics.merkleRoot plan.publics.nullifier
      plan.publics.outCommitment plan.publics.out2Commitment 0 none = plan.publics := by
    rw [hpublics]
    rfl
  have hfee : plan.publics.fee = 0 := by
    rw [hpublics]
  let spentPool := poolOf 7 plan.publics.merkleRoot [commitNote (received 0 0)]
    (Std.ExtTreeSet.insert ∅ plan.publics.nullifier)
  let pool := poolOf 8 plan.publics.merkleRoot [commitNote (received 0 0)] ∅
  let s := chainOf spentPool (Std.ExtTreeMap.insert ∅ 8 pool) plan.publics
  have hpool : s.poolRef (.asset 8) = some pool := Std.ExtTreeMap.getElem?_insert_self
  have htakes : s.PoolTakes (.asset 8) plan.publics.nullifier 0 none :=
    (poolTakes_poolOf hpool (by decide)).mpr Std.ExtTreeSet.not_mem_empty
  have hproved : s.spendProved [1] plan.publics = true := decide_eq_true rfl
  refine ⟨plan, s, pool, paidNote_mem, hplan, hproved, hpool, rfl, List.mem_singleton_self _,
    htakes, fun hok => ?_⟩
  rw [hfee] at hok
  have hcredit : 0 < 0 → (none : Option ℕ) ≠ none := fun h => absurd h (lt_irrefl 0)
  obtain ⟨first, hfirst, hfirstTakes⟩ :=
    (doShieldedSpend_ok_iff (Nat.zero_le _) hcredit (by rw [hexpected]; exact hproved)).mp hok
  have hlegacy : s.poolKeyOfAnchor plan.publics.merkleRoot = some .legacy :=
    if_pos (List.mem_singleton_self _)
  rw [hlegacy] at hfirst
  cases hfirst
  have hpoolLegacy : s.poolRef .legacy = some spentPool := rfl
  exact (poolTakes_poolOf hpoolLegacy (by decide)).mp hfirstTakes Std.ExtTreeSet.mem_insert_self

end Concrete

end HashKinetics
