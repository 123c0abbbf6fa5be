import HashKinetics.Foundations.Indexing
import HashKinetics.Foundations.Transition
import HashKinetics.Node.Mempool

/-!
# The indexes of the mempool

The id set, the slots and the nullifiers are those of the queued transactions, each carried by one
of them, whatever the order of admissions, prunes and restarts.
-/

namespace HashKinetics

open Foundations

namespace Mempool

variable {H : Type} [LinearOrder H] [HashSuite H] [NodeCodec H]
  {p : Mempool H} {tx : SignedTx H}

/-- The indexes describe the queue, and the queue is within its capacity. -/
structure Indexed (p : Mempool H) : Prop where
  ids : IndexedBy (fun tx => some (txid tx)) (· ∈ p.ids) p.q
  keys : IndexedBy (fun tx => some tx.slot) (· ∈ p.keys) p.q
  nullifiers : IndexedBy (fun tx => tx.payload.nullifier) (· ∈ p.nullifiers) p.q
  nextAuth : ∀ tx ∈ p.q, p.keys[tx.slot]? = some tx.nextAuth
  cap : p.q.length ≤ p.cap

lemma indexed_new (cap : ℕ) : (new cap : Mempool H).Indexed :=
  ⟨.nil fun _ => by simp [new], .nil fun _ => by simp [new], .nil fun _ => by simp [new],
    fun _ h => (by cases h), Nat.zero_le _⟩

/-! ## One operation -/

/-- A transaction with a new id, slot and nullifier goes to the end. -/
lemma Indexed.push (h : p.Indexed) (hroom : p.q.length < p.cap) (hid : txid tx ∉ p.ids)
    (hslot : tx.slot ∉ p.keys) (hnf : ∀ nf, tx.payload.nullifier = some nf → nf ∉ p.nullifiers) :
    ((p.index tx (txid tx)).pushBack tx).Indexed := by
  refine ⟨h.ids.push ?_ ?_, h.keys.push ?_ ?_, h.nullifiers.push hnf ?_, ?_, ?_⟩
  · rintro _ ⟨⟩
    exact hid
  · intro id
    simp [index, pushBack, Std.ExtTreeSet.mem_insert, or_comm]
  · rintro _ ⟨⟩
    exact hslot
  · intro k
    simp [index, pushBack, Std.ExtTreeMap.mem_insert, compare_eq_iff_eq, or_comm]
  · intro nf
    cases hn : tx.payload.nullifier with
    | none => simp [index, pushBack, hn]
    | some nf' => simp [index, pushBack, hn, Std.ExtTreeSet.mem_insert, or_comm]
  · intro t ht
    simp only [index, pushBack, OrderedMap.get_insert]
    rcases List.mem_append.mp ht with ht | ht
    · have hne : tx.slot ≠ t.slot := by
        intro heq
        exact hslot ((h.keys.mem_iff _).mpr ⟨t, ht, congrArg some heq.symm⟩)
      rw [if_neg hne]
      exact h.nextAuth t ht
    · obtain rfl := List.mem_singleton.mp ht
      rw [if_pos rfl]
  · simpa [index, pushBack] using hroom

/-- A transaction leaves the middle of the queue and the indexes. -/
lemma Indexed.unindex {a b : List (SignedTx H)}
    (h : ({ p with q := a ++ tx :: b } : Mempool H).Indexed) :
    ({ p.unindex tx with q := a ++ b } : Mempool H).Indexed := by
  have hleft : ∀ k, k ∈ (p.unindex tx).keys ↔ k ∈ p.keys ∧ some tx.slot ≠ some k := by
    intro k
    simp [Mempool.unindex, Std.ExtTreeMap.mem_erase, compare_eq_iff_eq, and_comm]
  have hkeys := h.keys.drop hleft
  refine ⟨h.ids.drop ?_, hkeys, h.nullifiers.drop ?_, ?_, ?_⟩
  · intro id
    simp [Mempool.unindex, Std.ExtTreeSet.mem_erase, and_comm]
  · intro nf
    cases hn : tx.payload.nullifier with
    | none => simp [Mempool.unindex, hn]
    | some nf' => simp [Mempool.unindex, hn, Std.ExtTreeSet.mem_erase, and_comm]
  · intro t ht
    have hmem : t ∈ a ++ tx :: b := by
      simp only [List.mem_append, List.mem_cons] at ht ⊢
      tauto
    have hne : tx.slot ≠ t.slot := by
      have hin := (hkeys.mem_iff t.slot).mpr ⟨t, ht, rfl⟩
      exact fun heq => ((hleft t.slot).mp hin).2 (congrArg some heq)
    have hget := h.nextAuth t hmem
    simpa [Mempool.unindex, Std.ExtTreeMap.getElem?_erase, compare_eq_iff_eq, hne] using hget
  · have hcap := h.cap
    simp only [List.length_append, List.length_cons] at hcap ⊢
    have hsame : (p.unindex tx).cap = p.cap := rfl
    rw [hsame]
    omega

omit [HashSuite H] [NodeCodec H] in
/-- The nullifier of a spend that passed the door is not pending. -/
lemma notMem_nullifiers_of_spendDoor {chain : State H}
    (h : p.spendDoor chain tx.payload = .ok ()) {nf : H} (hnf : tx.payload.nullifier = some nf) :
    nf ∉ p.nullifiers := by
  cases hpayload : tx.payload with
  | shieldedSpend anchor nf' out out2 fee credit mandate proof ct ct2 =>
    rw [hpayload] at h hnf
    cases hnf
    simp only [spendDoor] at h
    split at h
    · cases h
    · split at h
      · cases h
      · split at h
        · cases h
        · next hpending => exact hpending
  | _ =>
    rw [hpayload] at hnf
    cases hnf

lemma Indexed.admitted (h : p.Indexed) {p' : Mempool H} {chain : State H}
    {verdict : EnvelopeVerdict H} (ha : Admitted tx chain verdict p p') : p'.Indexed := by
  rw [ha.result]
  exact h.push ha.room ha.fresh ha.slot fun nf => notMem_nullifiers_of_spendDoor ha.spend

lemma Indexed.tryAdmitVerified (h : p.Indexed) (window : ℕ) (tx : SignedTx H) (chain : State H)
    (verdict : EnvelopeVerdict H) : (tryAdmitVerified window tx chain verdict p).2.Indexed := by
  rcases tryAdmitVerified_cases window tx chain verdict p with ha | hsame
  · exact h.admitted ha
  · rwa [hsame]

/-- What a prune leaves in the queue. -/
def kept (included : List (H × ℕ)) (q : List (SignedTx H)) : List (SignedTx H) :=
  q.filter fun tx => (tx.sender, tx.nonce) ∉ included

/-- The loop of a prune over the rest of the queue: what it has kept so far and the rest are indexed
throughout. -/
lemma Indexed.pruneLoop (included : List (H × ℕ)) (rest : List (SignedTx H)) (m : Mempool H)
    (h : ({ m with q := m.q ++ rest } : Mempool H).Indexed) :
    (rest.foldl (fun m tx => if (tx.sender, tx.nonce) ∈ included then m.unindex tx
      else m.pushBack tx) m).Indexed := by
  induction rest generalizing m with
  | nil =>
    rw [List.append_nil] at h
    exact h
  | cons tx rest ih =>
    rw [List.foldl_cons]
    apply ih _
    split
    · exact h.unindex
    · simpa [pushBack] using h

lemma q_pruneLoop (included : List (H × ℕ)) (rest : List (SignedTx H)) (m : Mempool H) :
    (rest.foldl (fun m tx => if (tx.sender, tx.nonce) ∈ included then m.unindex tx
      else m.pushBack tx) m).q = m.q ++ kept included rest := by
  induction rest generalizing m with
  | nil => simp [kept]
  | cons tx rest ih =>
    rw [List.foldl_cons, ih]
    by_cases hin : (tx.sender, tx.nonce) ∈ included
    · simp [hin, kept, unindex]
    · simp [hin, kept, pushBack]

lemma Indexed.removeIncluded (h : p.Indexed) (included : List (H × ℕ)) :
    (p.removeIncluded included).2.Indexed := by
  unfold Mempool.removeIncluded
  split
  · exact h
  · exact Indexed.pruneLoop included p.q _ (by simpa using h)

@[simp] lemma q_removeIncluded (p : Mempool H) (included : List (H × ℕ)) :
    (p.removeIncluded included).2.q = kept included p.q := by
  unfold Mempool.removeIncluded
  split
  · next hempty => simp [kept, List.isEmpty_iff.mp hempty]
  · exact (q_pruneLoop included p.q _).trans (List.nil_append _)

/-! ## Restarts -/

/-- The ids, slots and nullifiers of a saved queue are each carried by one transaction. -/
def Distinct (q : List (SignedTx H)) : Prop :=
  (q.map txid).Nodup ∧ (q.map SignedTx.slot).Nodup ∧
    (q.filterMap fun tx => tx.payload.nullifier).Nodup

lemma Indexed.distinct (h : p.Indexed) : Distinct p.q := by
  have hids := h.ids.nodup
  have hkeys := h.keys.nodup
  rw [List.filterMap_eq_map'] at hids hkeys
  exact ⟨hids, hkeys, h.nullifiers.nodup⟩

omit [LinearOrder H] in
lemma Distinct.sublist {q q' : List (SignedTx H)} (h : Distinct q) (hsub : q'.Sublist q) :
    Distinct q' :=
  ⟨h.1.sublist (hsub.map _), h.2.1.sublist (hsub.map _), h.2.2.sublist (hsub.filterMap _)⟩

/-- Re-inserting a saved queue: the transactions that are in and those still to come are
distinct. -/
lemma Indexed.insertAll (l : List (SignedTx H)) (p : Mempool H) (h : p.Indexed)
    (hd : Distinct (p.q ++ l)) : (l.foldl (fun m tx => (m.insertUnchecked tx).2) p).Indexed := by
  induction l generalizing p with
  | nil => exact h
  | cons tx l ih =>
    rw [List.foldl_cons]
    unfold insertUnchecked
    split
    · exact ih p h (hd.sublist ((List.Sublist.refl _).append (List.sublist_cons_self tx l)))
    next hnew =>
    rw [not_or, not_le] at hnew
    have hslot : tx.slot ∉ p.keys := by
      intro hin
      obtain ⟨t, ht, heq⟩ := (h.keys.mem_iff _).mp hin
      have hnodup := hd.2.1
      rw [List.map_append, List.nodup_append] at hnodup
      exact hnodup.2.2 t.slot (List.mem_map_of_mem ht) tx.slot (by simp) (Option.some.inj heq)
    have hnf : ∀ nf, tx.payload.nullifier = some nf → nf ∉ p.nullifiers := by
      intro nf htx hin
      obtain ⟨t, ht, heq⟩ := (h.nullifiers.mem_iff _).mp hin
      have hnodup := hd.2.2
      rw [List.filterMap_append, List.nodup_append] at hnodup
      refine hnodup.2.2 nf (List.mem_filterMap.mpr ⟨t, ht, heq⟩) nf ?_ rfl
      exact List.mem_filterMap.mpr ⟨tx, List.mem_cons_self .., htx⟩
    apply ih _ (h.push hnew.2 hnew.1 hslot hnf)
    simpa [index, pushBack] using hd

end Mempool

/-- The pool of a node and the queue in its last snapshot. -/
structure SavedPool (H : Type) [LinearOrder H] where
  pool : Mempool H
  saved : List (SignedTx H)

/-- What happens to the pool of a node.  The chain and the nonce window are whatever they are when a
transaction reaches the door. -/
inductive PoolOp (H : Type) [LinearOrder H] where
  | tryAdmit (window : ℕ) (tx : SignedTx H) (chain : State H)
  | admitVerified (window : ℕ) (tx : SignedTx H) (chain : State H) (verdict : EnvelopeVerdict H)
  | remove (included : List (H × ℕ))
  | snapshot
  /-- A restart with another capacity: the saved queue, the replayed blocks, the write-ahead log. -/
  | restart (cap window : ℕ) (replayed : List (List (H × ℕ))) (wal : List (SignedTx H))
      (chain : State H)

namespace SavedPool

variable {H : Type} [LinearOrder H] [HashSuite H] [NodeCodec H] [TxCodec H]

/-- An empty pool, and no snapshot yet. -/
def start (cap : ℕ) : SavedPool H := ⟨.new cap, []⟩

/-- The pool a restart ends with. -/
def restored (saved : List (SignedTx H)) (cap window : ℕ) (replayed : List (List (H × ℕ)))
    (wal : List (SignedTx H)) (chain : State H) : Mempool H :=
  let reloaded := saved.foldl (fun m tx => (m.insertUnchecked tx).2) (Mempool.new cap)
  let pruned := replayed.foldl (fun m included => (m.removeIncluded included).2) reloaded
  wal.foldl (fun m tx => (Mempool.tryAdmit window tx chain m).2) pruned

def step (n : SavedPool H) : PoolOp H → SavedPool H
  | .tryAdmit window tx chain => { n with pool := (Mempool.tryAdmit window tx chain n.pool).2 }
  | .admitVerified window tx chain verdict =>
    { n with pool := (Mempool.tryAdmitVerified window tx chain verdict n.pool).2 }
  | .remove included => { n with pool := (n.pool.removeIncluded included).2 }
  | .snapshot => { n with saved := n.pool.q }
  | .restart cap window replayed wal chain =>
    { n with pool := restored n.saved cap window replayed wal chain }

/-- The pool is indexed, and a restart from what is saved would find it so. -/
structure Sound (n : SavedPool H) : Prop where
  pool : n.pool.Indexed
  saved : Mempool.Distinct n.saved

lemma Sound.step {n : SavedPool H} (h : n.Sound) (op : PoolOp H) : (n.step op).Sound := by
  cases op with
  | tryAdmit window tx chain => exact ⟨h.pool.tryAdmitVerified window tx chain _, h.saved⟩
  | admitVerified window tx chain verdict =>
    exact ⟨h.pool.tryAdmitVerified window tx chain verdict, h.saved⟩
  | remove included => exact ⟨h.pool.removeIncluded included, h.saved⟩
  | snapshot => exact ⟨h.pool, h.pool.distinct⟩
  | restart cap window replayed wal chain =>
    refine ⟨?_, h.saved⟩
    refine invariant_of_foldl (fun m tx hm => hm.tryAdmitVerified window tx chain _) wal ?_
    refine invariant_of_foldl (fun m included hm => hm.removeIncluded included) replayed ?_
    exact Mempool.Indexed.insertAll n.saved _ (Mempool.indexed_new cap)
      (by simpa [Mempool.new] using h.saved)

/-- After any sequence of admissions, prunes, snapshots and restarts the three indexes hold exactly
the ids, slots and nullifiers of the queue, no two queued transactions share one, and the queue is
within its capacity. -/
theorem indexes_eq_queue (cap : ℕ) (ops : List (PoolOp H)) :
    let p := (ops.foldl step (start cap)).pool
    (∀ id, id ∈ p.ids ↔ ∃ tx ∈ p.q, txid tx = id) ∧
      (∀ sender nonce next, p.keys[toLex (sender, nonce)]? = some next ↔
        ∃ tx ∈ p.q, tx.sender = sender ∧ tx.nonce = nonce ∧ tx.nextAuth = next) ∧
      (∀ nf, nf ∈ p.nullifiers ↔ ∃ tx ∈ p.q, tx.payload.nullifier = some nf) ∧
      (p.q.map txid).Nodup ∧ (p.q.map fun tx => (tx.sender, tx.nonce)).Nodup ∧
      (p.q.filterMap fun tx => tx.payload.nullifier).Nodup ∧ p.q.length ≤ p.cap := by
  intro p
  have hstart : (start cap : SavedPool H).Sound :=
    ⟨Mempool.indexed_new cap, (Mempool.indexed_new cap).distinct⟩
  have hsound : (ops.foldl step (start cap : SavedPool H)).Sound :=
    invariant_of_foldl (I := Sound) (fun _ op hn => hn.step op) ops hstart
  have h : p.Indexed := hsound.pool
  obtain ⟨hids, hslots, hnfs⟩ := h.distinct
  refine ⟨fun id => ?_, fun sender nonce next => ?_, h.nullifiers.mem_iff, hids, hslots, hnfs,
    h.cap⟩
  · rw [h.ids.mem_iff id]
    simp only [Option.some.injEq]
  · constructor
    · intro hget
      have hin : toLex (sender, nonce) ∈ p.keys := by
        rw [Std.ExtTreeMap.mem_iff_isSome_getElem?, hget]
        rfl
      obtain ⟨tx, htx, hslot⟩ := (h.keys.mem_iff _).mp hin
      obtain ⟨hsender, hnonce⟩ : tx.sender = sender ∧ tx.nonce = nonce := by
        simpa [SignedTx.slot] using hslot
      have hauth := h.nextAuth tx htx
      rw [Option.some.inj hslot, hget] at hauth
      exact ⟨tx, htx, hsender, hnonce, (Option.some.inj hauth).symm⟩
    · rintro ⟨tx, htx, rfl, rfl, rfl⟩
      exact h.nextAuth tx htx

end SavedPool

end HashKinetics
