import HashKinetics.Foundations.Transition
import HashKinetics.Node.Batch

/-!
# The search index

A node keeps, for its explorer, where each transaction stands and which transactions touch an
account.  Every block indexes itself when it is applied; what lies below the snapshot of a restart
is read in behind it by a background pass, above what the index file on disk covers.  Blocks are
indexed in whatever order these three meet, so the result is that of the chain only when no
transaction id stands in two blocks.
-/

namespace HashKinetics

open Foundations

/-! ## The index -/

/-- An entry of an account's history. -/
structure AcctEntry (H : Type) where
  id : H
  height : ℕ
  kind : String
  deriving DecidableEq

/-- Where each transaction stands, and the history of each account. -/
structure SearchIndex (H : Type) [LinearOrder H] where
  tx : OrderedMap H (ℕ × ℕ)
  acct : OrderedMap H (List (AcctEntry H))

def txKind {H : Type} : Tx H → String
  | .transfer .. => "transfer"
  | .mandateCreate .. => "mandate_create"
  | .mandateSpend .. => "mandate_spend"
  | .mandateRevoke .. => "mandate_revoke"
  | .channelOpen .. => "channel_open"
  | .channelSettle .. => "channel_settle"
  | .channelRefund .. => "channel_refund"
  | .mintToPool .. => "shield"
  | .shieldedSpend .. => "shielded_spend"
  | .accountCreate .. => "account_create"
  | .assetRegister .. => "asset_register"
  | .assetMint .. => "asset_mint"
  | .assetBurn .. => "asset_burn"
  | .assetFreeze .. => "asset_freeze"
  | .assetPause .. => "asset_pause"

/-- The other account that a transaction is listed under. -/
def txCounterparty {H : Type} : Tx H → Option H
  | .transfer dst _ _ => some dst
  | .mandateSpend _ dst _ => some dst
  | .channelOpen _ _ payee _ _ _ _ _ => some payee
  | .accountCreate id _ _ _ => some id
  | .shieldedSpend _ _ _ _ _ credit _ _ _ _ => credit
  | .assetMint _ dst _ => some dst
  | .assetFreeze _ account _ => some account
  | _ => none

/-- The kinds that an index file may name. -/
def KINDS : List String :=
  ["transfer", "mandate_create", "mandate_spend", "mandate_revoke", "channel_open",
    "channel_settle", "channel_refund", "shield", "shielded_spend", "account_create",
    "asset_register", "asset_mint", "asset_burn", "asset_freeze", "asset_pause"]

/-- The kind of a name that was read back. -/
def kindStatic (s : String) : String := (KINDS.find? (· = s)).getD "unknown"

lemma kindStatic_txKind {H : Type} (payload : Tx H) :
    kindStatic (txKind payload) = txKind payload := by
  cases payload <;> rfl

/-- The index as it is written to disk. -/
structure PersistedIndex (H : Type) where
  throughHeight : ℕ
  tx : List (H × ℕ × ℕ)
  acct : List (H × List (AcctEntry H))

namespace SearchIndex

variable {H : Type} [LinearOrder H]

def empty : SearchIndex H := ⟨∅, ∅⟩

/-- The history of an account. -/
def history (ix : SearchIndex H) (a : H) : List (AcctEntry H) := (ix.acct[a]?).getD []

/-- Add entries to the history of an account, which is made if there is none. -/
def extend (ix : SearchIndex H) (a : H) (l : List (AcctEntry H)) : SearchIndex H :=
  { ix with acct := ix.acct.insert a (ix.history a ++ l) }

@[simp] lemma tx_extend (ix : SearchIndex H) (a : H) (l : List (AcctEntry H)) :
    (ix.extend a l).tx = ix.tx := rfl

@[simp] lemma history_extend (ix : SearchIndex H) (a b : H) (l : List (AcctEntry H)) :
    (ix.extend a l).history b = ix.history b ++ if a = b then l else [] := by
  unfold history extend
  rw [OrderedMap.get_insert]
  split
  next h =>
    subst h
    rfl
  next => rw [List.append_nil]

/-- The image that covers the heights up to `through`. -/
def persisted (ix : SearchIndex H) (through : ℕ) : PersistedIndex H where
  throughHeight := through
  tx := (ix.tx.toList.filter fun e => e.2.1 ≤ through).map fun e => (e.1, e.2.1, e.2.2)
  acct := ix.acct.toList.map fun e => (e.1, e.2.filter fun x => x.height ≤ through)

/-- What is read back from an image, up to a height. -/
def restore (ix : SearchIndex H) (p : PersistedIndex H) (through : ℕ) : SearchIndex H :=
  let located := p.tx.foldl (fun ix e =>
    if e.2.1 ≤ through then { ix with tx := ix.tx.insert e.1 (e.2.1, e.2.2) } else ix) ix
  p.acct.foldl (fun ix e => ix.extend e.1
    ((e.2.filter fun x => x.height ≤ through).map fun x => { x with kind := kindStatic x.kind }))
      located

variable [HashSuite H] [NodeCodec H]

/-- Index transaction `i` of a block; a transaction that is known already only moves. -/
def indexTx (height : ℕ) (ix : SearchIndex H) (i : ℕ) (tx : SignedTx H) : SearchIndex H :=
  let id := txid tx
  let moved := { ix with tx := ix.tx.insert id (height, i % 2 ^ 32) }
  if ix.tx.contains id then moved
  else
    let e : AcctEntry H := ⟨id, height, txKind tx.payload⟩
    let sent := moved.extend tx.sender [e]
    match txCounterparty tx.payload with
    | some cp => if cp ≠ tx.sender then sent.extend cp [e] else sent
    | none => sent

/-- Index the transactions of a block. -/
def indexTxsInto (ix : SearchIndex H) (height : ℕ) (txs : List (SignedTx H)) : SearchIndex H :=
  txs.zipIdx.foldl (fun ix p => indexTx height ix p.2 p.1) ix

end SearchIndex

/-! ## A node that indexes -/

/-- The background pass: none, the heights still to be read, or a height that is indexed and not yet
counted. -/
inductive IndexPass where
  | idle
  | next (todo : List ℕ)
  | indexed (height : ℕ) (todo : List ℕ)

/-- What bears on the index: on disk the blocks up to the tip, the height of the snapshot and the
index file, and in memory the index, the floor, which is `none` once the pass is done, the pass and
a coverage that was read for a write that is under way. -/
structure Indexer (H : Type) [LinearOrder H] where
  tip : ℕ
  snapshot : ℕ
  saved : Option (PersistedIndex H)
  index : SearchIndex H
  floor : Option ℕ
  pass : IndexPass
  reading : Option ℕ

/-- What can happen. -/
inductive IndexAct where
  /-- The next block is applied and saved. -/
  | commit
  /-- A snapshot is taken at the tip. -/
  | takeSnapshot
  /-- The index is to be written: its coverage is read. -/
  | readFloor
  /-- The index is written, or the write fails. -/
  | saveIndex (ok : Bool)
  /-- The pass indexes its next height. -/
  | passIndex
  /-- The pass counts the height it has indexed. -/
  | passAdvance
  /-- The pass is done. -/
  | passFinish
  /-- The node stops, wherever it is, and starts again, with or without the pass. -/
  | restart (indexHistory : Bool)

namespace Indexer

variable {H : Type} [LinearOrder H] [HashSuite H] [NodeCodec H]

/-- A node without a chain. -/
def fresh : Indexer H := ⟨0, 0, none, .empty, none, .idle, none⟩

/-- The index of the blocks of some heights, in this order. -/
def indexed (blocks : ℕ → List (SignedTx H)) (ix : SearchIndex H)
    (heights : List ℕ) : SearchIndex H :=
  heights.foldl (fun ix h => ix.indexTxsInto h (blocks h)) ix

/-- Start from what is on disk: replay the blocks above the snapshot, read the index file up to the
snapshot, and leave the heights between to the pass. -/
def restarted (blocks : ℕ → List (SignedTx H)) (s : Indexer H) (indexHistory : Bool) : Indexer H :=
  let replayed := indexed blocks .empty (List.range' (s.snapshot + 1) (s.tip - s.snapshot))
  let through := match s.saved with
    | some p => min p.throughHeight s.snapshot
    | none => 0
  let index := match s.saved with
    | some p => replayed.restore p through
    | none => replayed
  let todo := List.range' (through + 1) (s.snapshot - through)
  if indexHistory ∧ todo ≠ [] then
    { s with index, floor := some through, pass := .next todo, reading := none }
  else
    { s with index, floor := if indexHistory then none else some through, pass := .idle,
             reading := none }

/-- One step, over the blocks that consensus decides; a step that cannot happen is `none`. -/
def step (blocks : ℕ → List (SignedTx H)) (s : Indexer H) : IndexAct → Option (Indexer H)
  | .commit =>
    if s.reading = none then
      some { s with tip := s.tip + 1
                    index := s.index.indexTxsInto (s.tip + 1) (blocks (s.tip + 1)) }
    else none
  | .takeSnapshot => if s.reading = none then some { s with snapshot := s.tip } else none
  | .readFloor =>
    let through := s.floor.getD s.tip
    if s.reading = none then
      some (if through = 0 then s else { s with reading := some through })
    else none
  | .saveIndex ok =>
    match s.reading with
    | some through =>
      some { s with reading := none
                    saved := if ok then some (s.index.persisted through) else s.saved }
    | none => none
  | .passIndex =>
    match s.pass with
    | .next (h :: todo) =>
      some { s with index := s.index.indexTxsInto h (blocks h), pass := .indexed h todo }
    | _ => none
  | .passAdvance =>
    match s.pass with
    | .indexed h todo => some { s with floor := some h, pass := .next todo }
    | _ => none
  | .passFinish =>
    match s.pass with
    | .next [] => some { s with floor := none, pass := .idle }
    | _ => none
  | .restart indexHistory => some (s.restarted blocks indexHistory)

/-- The index of the chain: its blocks indexed in order. -/
def ofChain (blocks : ℕ → List (SignedTx H)) (tip : ℕ) : SearchIndex H :=
  indexed blocks .empty (List.range' 1 tip)

end Indexer

/-! ## One block -/

namespace SearchIndex

variable {H : Type} [LinearOrder H] [HashSuite H] [NodeCodec H] {ix base j : SearchIndex H}
  {height : ℕ}

/-- What a transaction that is not known adds to the history of an account. -/
def newEntries (height : ℕ) (tx : SignedTx H) (a : H) : List (AcctEntry H) :=
  let e : AcctEntry H := ⟨txid tx, height, txKind tx.payload⟩
  (if tx.sender = a then [e] else []) ++
    match txCounterparty tx.payload with
    | some cp => if cp ≠ tx.sender ∧ cp = a then [e] else []
    | none => []

@[simp] lemma tx_indexTx (ix : SearchIndex H) (i : ℕ) (tx : SignedTx H) :
    (indexTx height ix i tx).tx = ix.tx.insert (txid tx) (height, i % 2 ^ 32) := by
  unfold indexTx
  dsimp only
  split
  · rfl
  · split
    · split <;> rfl
    · rfl

lemma history_indexTx (ix : SearchIndex H) (i : ℕ) (tx : SignedTx H) (a : H) :
    (indexTx height ix i tx).history a =
      ix.history a ++ if ix.tx.contains (txid tx) then [] else newEntries height tx a := by
  have hmoved : ∀ m, (⟨m, ix.acct⟩ : SearchIndex H).history a = ix.history a := fun _ => rfl
  unfold indexTx newEntries
  dsimp only
  split
  · rw [List.append_nil]
    rfl
  · split
    next cp hcp =>
      split
      next hne => simp [hne, hmoved]
      next heq => simp [heq, hmoved]
    next => simp [hmoved]

/-- An entry that is added names the transaction, at most once. -/
lemma newEntries_spec (height : ℕ) (tx : SignedTx H) (a : H) :
    (∀ e ∈ newEntries height tx a, e = ⟨txid tx, height, txKind tx.payload⟩) ∧
      (newEntries height tx a).length ≤ 1 := by
  unfold newEntries
  dsimp only
  refine ⟨?_, ?_⟩
  · intro e he
    rcases List.mem_append.mp he with he | he
    · split at he <;> simp_all
    · split at he
      · split at he <;> simp_all
      · simp at he
  · split
    next hs =>
      split
      next cp hcp =>
        have hno : ¬ (cp ≠ tx.sender ∧ cp = a) := fun h => h.1 (h.2.trans hs.symm)
        simp [hno]
      next => simp
    next =>
      split
      next => split <;> simp
      next => simp

/-- The index of one block. -/
def ofBlock (height : ℕ) (txs : List (SignedTx H)) : SearchIndex H :=
  (empty : SearchIndex H).indexTxsInto height txs

/-- One index put over another. -/
structure Over (base j ix : SearchIndex H) : Prop where
  tx : ∀ id : H, ix.tx[id]? = (j.tx[id]?).or (base.tx[id]?)
  acct : ∀ a, ix.history a = base.history a ++ j.history a

omit [HashSuite H] [NodeCodec H] in
lemma Over.refl (base : SearchIndex H) : Over base empty base where
  tx id := by simp [empty]
  acct a := by simp [empty, history]

/-- A transaction that the base does not know is indexed as it is over nothing. -/
lemma Over.indexTx (h : Over base j ix) {tx : SignedTx H} (hnew : base.tx[txid tx]? = none)
    (i : ℕ) :
    Over base (indexTx height j i tx) (SearchIndex.indexTx height ix i tx) where
  tx id := by
    rw [tx_indexTx, tx_indexTx, OrderedMap.get_insert, OrderedMap.get_insert]
    split
    · rfl
    · exact h.tx id
  acct a := by
    have hknown : ix.tx.contains (txid tx) = j.tx.contains (txid tx) := by
      simp only [Std.ExtTreeMap.contains_eq_isSome_getElem?, h.tx, hnew, Option.or_none]
    rw [history_indexTx, history_indexTx, h.acct, hknown, List.append_assoc]

lemma over_indexTxsInto {txs : List (SignedTx H)} (hnew : ∀ tx ∈ txs, base.tx[txid tx]? = none) :
    Over base (ofBlock height txs) (base.indexTxsInto height txs) := by
  have hrun : ∀ l : List (SignedTx H × ℕ), (∀ p ∈ l, base.tx[txid p.1]? = none) →
      Over base (l.foldl (fun ix p => indexTx height ix p.2 p.1) empty)
        (l.foldl (fun ix p => indexTx height ix p.2 p.1) base) := by
    intro l
    induction l using List.reverseRecOn with
    | nil => exact fun _ => .refl base
    | append_singleton l p ih =>
      intro hl
      rw [List.foldl_append, List.foldl_append]
      exact (ih fun q hq => hl q (by simp [hq])).indexTx (hl p (by simp)) p.2
  exact hrun _ fun p hp => hnew p.1 (List.fst_mem_of_mem_zipIdx hp)

/-- What is in the index of one block. -/
structure OfOne (height : ℕ) (seen : List H) (j : SearchIndex H) : Prop where
  known : ∀ id, j.tx.contains id = true ↔ id ∈ seen
  placed : ∀ (id : H) p, j.tx[id]? = some p → p.1 = height
  entries : ∀ a, ∀ e ∈ j.history a, e.height = height ∧ e.id ∈ seen ∧ kindStatic e.kind = e.kind
  nodup : ∀ a, ((j.history a).map (·.id)).Nodup

lemma OfOne.indexTx {seen : List H} (h : OfOne height seen j) (i : ℕ) (tx : SignedTx H) :
    OfOne height (seen ++ [txid tx]) (SearchIndex.indexTx height j i tx) where
  known id := by
    rw [tx_indexTx, Std.ExtTreeMap.contains_insert, Bool.or_eq_true, h.known, List.mem_append,
      List.mem_singleton, beq_iff_eq, compare_eq_iff_eq, eq_comm, or_comm]
  placed id p hp := by
    rw [tx_indexTx, OrderedMap.get_insert] at hp
    split at hp
    · cases hp
      rfl
    · exact h.placed id p hp
  entries a e he := by
    rw [history_indexTx] at he
    rcases List.mem_append.mp he with he | he
    · obtain ⟨hheight, hid, hkind⟩ := h.entries a e he
      exact ⟨hheight, List.mem_append_left _ hid, hkind⟩
    · split at he
      · cases he
      · rw [(newEntries_spec height tx a).1 e he]
        exact ⟨rfl, by simp, kindStatic_txKind _⟩
  nodup a := by
    obtain ⟨hnew, hlen⟩ := newEntries_spec height tx a
    rw [history_indexTx]
    split
    · rw [List.append_nil]
      exact h.nodup a
    next hknown =>
      have hfresh : txid tx ∉ seen := by rwa [← h.known]
      rw [List.map_append, List.nodup_append]
      refine ⟨h.nodup a, ?_, ?_⟩
      · rcases hl : newEntries height tx a with _ | ⟨e, _ | ⟨e', l⟩⟩
        · simp
        · simp
        · rw [hl] at hlen
          simp at hlen
      · rintro _ hold _ hadded rfl
        obtain ⟨e, he, hid⟩ := List.mem_map.mp hold
        obtain ⟨e', he', hid'⟩ := List.mem_map.mp hadded
        rw [hnew e' he'] at hid'
        apply hfresh
        rw [show txid tx = e.id from hid'.trans hid.symm]
        exact (h.entries a e he).2.1

omit [LinearOrder H] in
lemma map_txid_zipIdx (txs : List (SignedTx H)) :
    txs.map txid = txs.zipIdx.map fun p => txid p.1 := by
  have hfst : txs.zipIdx.map Prod.fst = txs := List.zipIdx_map_fst 0 txs
  conv_lhs => rw [← hfst, List.map_map]
  rfl

lemma ofOne_ofBlock (height : ℕ) (txs : List (SignedTx H)) :
    OfOne height (txs.map txid) (ofBlock height txs) := by
  have hrun : ∀ l : List (SignedTx H × ℕ), OfOne height (l.map fun p => txid p.1)
      (l.foldl (fun ix p => SearchIndex.indexTx height ix p.2 p.1) empty) := by
    intro l
    induction l using List.reverseRecOn with
    | nil =>
      exact ⟨by simp [empty], by simp [empty], by simp [empty, history], by simp [empty, history]⟩
    | append_singleton l p ih =>
      rw [List.foldl_append, List.map_append]
      exact ih.indexTx p.2 p.1
  rw [map_txid_zipIdx]
  exact hrun _

end SearchIndex

/-! ## Several blocks -/

/-- No transaction id stands in two blocks. -/
def NoRepeats {H : Type} [HashSuite H] [NodeCodec H] (blocks : ℕ → List (SignedTx H)) : Prop :=
  ∀ h h' : ℕ, 1 ≤ h → 1 ≤ h' → ∀ id, id ∈ (blocks h).map txid → id ∈ (blocks h').map txid → h = h'

/-- The entries that an image lists for an account. -/
def PersistedIndex.history {H : Type} [DecidableEq H] (p : PersistedIndex H) (a : H) :
    List (AcctEntry H) :=
  (p.acct.filter fun e => e.1 = a).flatMap Prod.snd

namespace SearchIndex

variable {H : Type} [LinearOrder H] [HashSuite H] [NodeCodec H] {ix : SearchIndex H}
  {blocks : ℕ → List (SignedTx H)} {S : Finset ℕ}

/-- The index holds the entries of the blocks of some heights. -/
structure Holds (blocks : ℕ → List (SignedTx H)) (S : Finset ℕ) (ix : SearchIndex H) : Prop where
  tx : ∀ (id : H) (p : ℕ × ℕ), ix.tx[id]? = some p ↔
    ∃ h ∈ S, (ofBlock h (blocks h)).tx[id]? = some p
  acct : ∀ a, (ix.history a : Multiset (AcctEntry H)) =
    ∑ h ∈ S, ((ofBlock h (blocks h)).history a : Multiset (AcctEntry H))

lemma holds_empty (blocks : ℕ → List (SignedTx H)) : Holds blocks ∅ empty where
  tx id p := by simp [empty]
  acct a := by simp [empty, history]

/-- A located transaction stands in the block of its height. -/
lemma mem_of_located {h : ℕ} {txs : List (SignedTx H)} {id : H} {p : ℕ × ℕ}
    (hp : (ofBlock h txs).tx[id]? = some p) : id ∈ txs.map txid := by
  rw [← (ofOne_ofBlock h txs).known, Std.ExtTreeMap.contains_eq_isSome_getElem?, hp]
  rfl

/-- One block more. -/
lemma Holds.insert (hix : Holds blocks S ix) (hno : NoRepeats blocks) (hpos : ∀ k ∈ S, 1 ≤ k)
    {h : ℕ}
    (hh : 1 ≤ h) (hnew : h ∉ S) : Holds blocks (insert h S) (ix.indexTxsInto h (blocks h)) := by
  have hapart : ∀ k ∈ S, ∀ id, id ∈ (blocks k).map txid → id ∉ (blocks h).map txid := by
    intro k hk id hid hid'
    exact hnew (hno k h (hpos k hk) hh id hid hid' ▸ hk)
  have hover : Over ix (ofBlock h (blocks h)) (ix.indexTxsInto h (blocks h)) := by
    refine over_indexTxsInto fun tx htx => ?_
    by_contra hknown
    obtain ⟨p, hp⟩ := Option.ne_none_iff_exists'.mp hknown
    obtain ⟨k, hk, hblock⟩ := (hix.tx _ p).mp hp
    exact hapart k hk _ (mem_of_located hblock) (List.mem_map_of_mem htx)
  refine ⟨fun id p => ?_, fun a => ?_⟩
  · rw [hover.tx, Finset.exists_mem_insert, Option.or_eq_some_iff]
    constructor
    · rintro (hblock | ⟨-, hold⟩)
      · exact .inl hblock
      · exact .inr ((hix.tx id p).mp hold)
    · rintro (hblock | ⟨k, hk, hblock⟩)
      · exact .inl hblock
      · refine .inr ⟨?_, (hix.tx id p).mpr ⟨k, hk, hblock⟩⟩
        by_contra hknown
        obtain ⟨p', hp'⟩ := Option.ne_none_iff_exists'.mp hknown
        exact hapart k hk id (mem_of_located hblock) (mem_of_located hp')
  · rw [hover.acct, ← Multiset.coe_add, hix.acct, Finset.sum_insert hnew, add_comm]

/-- Some blocks more, in whatever order. -/
lemma Holds.indexed (hix : Holds blocks S ix) (hno : NoRepeats blocks) (hpos : ∀ k ∈ S, 1 ≤ k)
    {heights : List ℕ} (hnodup : heights.Nodup) (hheights : ∀ h ∈ heights, 1 ≤ h ∧ h ∉ S) :
    Holds blocks (S ∪ heights.toFinset) (Indexer.indexed blocks ix heights) := by
  induction heights generalizing S ix with
  | nil => simpa [Indexer.indexed] using hix
  | cons h heights ih =>
    obtain ⟨hnot, hnodup⟩ := List.nodup_cons.mp hnodup
    obtain ⟨hh, hnew⟩ := hheights h (by simp)
    have hnext := ih (hix.insert hno hpos hh hnew) (by
      intro k hk
      rcases Finset.mem_insert.mp hk with rfl | hk
      · exact hh
      · exact hpos k hk) hnodup (by
      intro k hk
      obtain ⟨hk₁, hk₂⟩ := hheights k (by simp [hk])
      refine ⟨hk₁, fun hmem => ?_⟩
      rcases Finset.mem_insert.mp hmem with rfl | hmem
      · exact hnot hk
      · exact hk₂ hmem)
    rw [List.toFinset_cons, Finset.union_insert, ← Finset.insert_union]
    exact hnext

/-- Two indexes of the same blocks locate the same transactions and list the same entries. -/
lemma Holds.same {ix' : SearchIndex H} (h : Holds blocks S ix) (h' : Holds blocks S ix') :
    ix.tx = ix'.tx ∧ ∀ a, (ix.history a).Perm (ix'.history a) := by
  refine ⟨Std.ExtTreeMap.ext_getElem? fun {id} => ?_, fun a => ?_⟩
  · refine Option.ext fun p => ?_
    exact (h.tx id p).trans (h'.tx id p).symm
  · exact Multiset.coe_eq_coe.mp ((h.acct a).trans (h'.acct a).symm)

/-- Over blocks without repeats, the history of an account lists a transaction once. -/
lemma Holds.nodup (h : Holds blocks S ix) (hno : NoRepeats blocks) (hpos : ∀ k ∈ S, 1 ≤ k) (a : H) :
    ((ix.history a).map (·.id)).Nodup := by
  rw [← Multiset.coe_nodup, ← Multiset.map_coe, h.acct]
  have hbind : (∑ k ∈ S, ((ofBlock k (blocks k)).history a : Multiset (AcctEntry H))) =
      S.val.bind fun k => ((ofBlock k (blocks k)).history a : Multiset (AcctEntry H)) := rfl
  rw [hbind, Multiset.map_bind, Multiset.nodup_bind]
  refine ⟨fun k _ => ?_, Multiset.Nodup.pairwise ?_ S.nodup⟩
  · rw [Multiset.map_coe, Multiset.coe_nodup]
    exact (ofOne_ofBlock k (blocks k)).nodup a
  · intro k hk k' hk' hne
    refine Multiset.disjoint_left.mpr fun {id} hid hid' => ?_
    have hin : ∀ k'', id ∈ Multiset.map (·.id)
        ((ofBlock k'' (blocks k'')).history a : Multiset (AcctEntry H)) →
        id ∈ (blocks k'').map txid := by
      intro k'' hmem
      obtain ⟨e, he, rfl⟩ := Multiset.mem_map.mp hmem
      exact ((ofOne_ofBlock k'' (blocks k'')).entries a e he).2.1
    exact hne (hno k k' (hpos k hk) (hpos k' hk') id (hin k hid) (hin k' hid'))

/-! ## The index file -/

omit [HashSuite H] [NodeCodec H] in
/-- The entries of an image are those up to its height. -/
lemma history_persisted (ix : SearchIndex H) (t : ℕ) (a : H) :
    (ix.persisted t).history a = (ix.history a).filter fun e => e.height ≤ t := by
  have hkeys : ((ix.persisted t).acct.filter fun e => e.1 = a) =
      (ix.acct.toList.filter fun e => e.1 = a).map
        fun e => (e.1, e.2.filter fun x => x.height ≤ t) := by
    rw [persisted, List.filter_map]
    rfl
  rw [PersistedIndex.history, hkeys, OrderedMap.filter_key_toList, history]
  cases ix.acct[a]? <;> simp

end SearchIndex

/-- The image holds the entries of the blocks of some heights. -/
structure PersistedIndex.Holds {H : Type} [LinearOrder H] [HashSuite H] [NodeCodec H]
    (blocks : ℕ → List (SignedTx H)) (S : Finset ℕ) (p : PersistedIndex H) : Prop where
  tx : ∀ e, e ∈ p.tx ↔ ∃ h ∈ S, (SearchIndex.ofBlock h (blocks h)).tx[e.1]? = some e.2
  acct : ∀ a, (p.history a : Multiset (AcctEntry H)) =
    ∑ h ∈ S, ((SearchIndex.ofBlock h (blocks h)).history a : Multiset (AcctEntry H))

namespace SearchIndex

variable {H : Type} [LinearOrder H] [HashSuite H] [NodeCodec H] {ix : SearchIndex H}
  {blocks : ℕ → List (SignedTx H)} {S S' : Finset ℕ} {p : PersistedIndex H}

/-- The entries up to a height, of blocks of some heights. -/
lemma filter_sum_history (blocks : ℕ → List (SignedTx H)) (S : Finset ℕ) (t : ℕ) (a : H) :
    (∑ h ∈ S, ((ofBlock h (blocks h)).history a : Multiset (AcctEntry H))).filter
        (fun e => e.height ≤ t) =
      ∑ h ∈ S.filter (· ≤ t), ((ofBlock h (blocks h)).history a : Multiset (AcctEntry H)) := by
  induction S using Finset.induction_on with
  | empty => rfl
  | insert h S hnew ih =>
    have hheights : ∀ e ∈ ((ofBlock h (blocks h)).history a : Multiset (AcctEntry H)),
        e.height = h := fun e he => ((ofOne_ofBlock h (blocks h)).entries a e he).1
    rw [Finset.sum_insert hnew, Multiset.filter_add, ih, Finset.filter_insert]
    split
    next hle =>
      rw [Finset.sum_insert (by simp [hnew]), Multiset.filter_eq_self.mpr]
      exact fun e he => (hheights e he).trans_le hle
    next hgt =>
      rw [Multiset.filter_eq_nil.mpr, zero_add]
      exact fun e he hle => hgt ((hheights e he).symm.trans_le hle)

/-- What is written holds the blocks up to its height. -/
lemma Holds.persisted (h : Holds blocks S ix) (t : ℕ) :
    (ix.persisted t).Holds blocks (S.filter (· ≤ t)) where
  tx := by
    rintro ⟨id, q⟩
    have hmem : (id, q) ∈ (ix.persisted t).tx ↔ ix.tx[id]? = some q ∧ q.1 ≤ t := by
      simp only [SearchIndex.persisted, List.mem_map, List.mem_filter, decide_eq_true_eq]
      constructor
      · rintro ⟨⟨id', q'⟩, ⟨hin, hle⟩, heq⟩
        obtain ⟨rfl, rfl⟩ := Prod.mk.inj heq
        exact ⟨OrderedMap.mem_toList.mp hin, hle⟩
      · rintro ⟨hget, hle⟩
        exact ⟨(id, q), ⟨OrderedMap.mem_toList.mpr hget, hle⟩, rfl⟩
    rw [hmem, h.tx]
    constructor
    · rintro ⟨⟨k, hk, hblock⟩, hle⟩
      have hplace := (ofOne_ofBlock k (blocks k)).placed id q hblock
      exact ⟨k, Finset.mem_filter.mpr ⟨hk, hplace ▸ hle⟩, hblock⟩
    · rintro ⟨k, hk, hblock⟩
      obtain ⟨hk, hle⟩ := Finset.mem_filter.mp hk
      have hplace := (ofOne_ofBlock k (blocks k)).placed id q hblock
      exact ⟨⟨k, hk, hblock⟩, hplace ▸ hle⟩
  acct a := by
    rw [history_persisted, ← Multiset.filter_coe, h.acct, filter_sum_history]

omit [HashSuite H] [NodeCodec H] in
/-- Where a transaction stands after an image was read that has one place for it at most. -/
lemma tx_restore (ix : SearchIndex H) (p : PersistedIndex H) (t : ℕ) {id : H} {q : ℕ × ℕ}
    (hone : ∀ e ∈ p.tx, e.1 = id → e.2 = q) :
    (ix.restore p t).tx[id]? =
      if (id, q) ∈ p.tx ∧ q.1 ≤ t then some q else ix.tx[id]? := by
  have hacct : ∀ (l : List (H × List (AcctEntry H)))
      (f : H × List (AcctEntry H) → List (AcctEntry H)) (ix : SearchIndex H),
      (l.foldl (fun ix e => ix.extend e.1 (f e)) ix).tx = ix.tx := by
    intro l f
    induction l with
    | nil => exact fun _ => rfl
    | cons e l ih => exact fun ix => (ih _).trans (tx_extend ix e.1 _)
  have htx : ∀ (l : List (H × ℕ × ℕ)) (ix : SearchIndex H), (∀ e ∈ l, e.1 = id → e.2 = q) →
      (l.foldl (fun ix e => if e.2.1 ≤ t then
        { ix with tx := ix.tx.insert e.1 (e.2.1, e.2.2) } else ix) ix).tx[id]? =
      if (id, q) ∈ l ∧ q.1 ≤ t then some q else ix.tx[id]? := by
    intro l
    induction l with
    | nil => intro ix _; simp
    | cons e l ih =>
      intro ix hl
      obtain ⟨id', q'⟩ := e
      rw [List.foldl_cons, ih _ fun e he => hl e (by simp [he])]
      by_cases hid : id' = id
      · subst hid
        obtain rfl : q' = q := hl (id', q') (by simp) rfl
        by_cases hle : q'.1 ≤ t
        · simp [hle]
        · simp [hle]
      · have hne : (id, q) ≠ (id', q') := fun h => hid (Prod.mk.inj h).1.symm
        have hkeep : (if q'.1 ≤ t then
            ({ ix with tx := ix.tx.insert id' (q'.1, q'.2) } : SearchIndex H) else ix).tx[id]? =
            ix.tx[id]? := by
          split
          · exact (OrderedMap.get_insert _ _ _ _).trans (if_neg hid)
          · rfl
        simp only [List.mem_cons, hne, false_or, hkeep]
  rw [restore, hacct, htx _ _ hone]

omit [HashSuite H] [NodeCodec H] in
/-- The history of an account after an image was read. -/
lemma history_restore (ix : SearchIndex H) (p : PersistedIndex H) (t : ℕ) (a : H) :
    (ix.restore p t).history a = ix.history a ++ ((p.history a).filter fun e => e.height ≤ t).map
      fun e => { e with kind := kindStatic e.kind } := by
  have htx : ∀ (l : List (H × ℕ × ℕ)) (ix : SearchIndex H), (l.foldl (fun ix e =>
      if e.2.1 ≤ t then { ix with tx := ix.tx.insert e.1 (e.2.1, e.2.2) } else ix) ix).history a =
      ix.history a := by
    intro l
    induction l with
    | nil => exact fun _ => rfl
    | cons e l ih =>
      intro ix
      rw [List.foldl_cons, ih]
      split <;> rfl
  have hacct : ∀ (l : List (H × List (AcctEntry H))) (ix : SearchIndex H),
      (l.foldl (fun ix e => ix.extend e.1 ((e.2.filter fun x => x.height ≤ t).map
        fun x => { x with kind := kindStatic x.kind })) ix).history a =
      ix.history a ++ (((l.filter fun e => e.1 = a).flatMap Prod.snd).filter
        fun e => e.height ≤ t).map fun e => { e with kind := kindStatic e.kind } := by
    intro l
    induction l with
    | nil => intro ix; simp
    | cons e l ih =>
      intro ix
      rw [List.foldl_cons, ih, history_extend]
      by_cases he : e.1 = a
      · simp [he, List.filter_append]
      · simp [he]
  rw [restore, hacct, htx]
  rfl

/-- What is read back holds the blocks of the image up to a height, besides those it is read
over. -/
lemma Holds.restore (h : Holds blocks S ix) (hp : p.Holds blocks S') (hno : NoRepeats blocks)
    (hpos : ∀ k ∈ S, 1 ≤ k) (hpos' : ∀ k ∈ S', 1 ≤ k) (t : ℕ)
    (hdisj : Disjoint S (S'.filter (· ≤ t))) :
    Holds blocks (S ∪ S'.filter (· ≤ t)) (ix.restore p t) where
  tx id q := by
    -- a transaction of the image has one place, in its one block
    have hone : ∀ q', (id, q') ∈ p.tx → ∀ e ∈ p.tx, e.1 = id → e.2 = q' := by
      rintro q' hq' ⟨id', q''⟩ hq'' rfl
      obtain ⟨k, hk, hblock⟩ := (hp.tx _).mp hq'
      obtain ⟨k', hk', hblock'⟩ := (hp.tx _).mp hq''
      obtain rfl := hno k k' (hpos' k hk) (hpos' k' hk') _ (mem_of_located hblock)
        (mem_of_located hblock')
      exact Option.some.inj (hblock'.symm.trans hblock)
    have himage : (∃ k ∈ S'.filter (· ≤ t), (ofBlock k (blocks k)).tx[id]? = some q) ↔
        (id, q) ∈ p.tx ∧ q.1 ≤ t := by
      rw [hp.tx]
      constructor
      · rintro ⟨k, hk, hblock⟩
        obtain ⟨hk, hle⟩ := Finset.mem_filter.mp hk
        have hplace := (ofOne_ofBlock k (blocks k)).placed id q hblock
        exact ⟨⟨k, hk, hblock⟩, hplace ▸ hle⟩
      · rintro ⟨⟨k, hk, hblock⟩, hle⟩
        have hplace := (ofOne_ofBlock k (blocks k)).placed id q hblock
        exact ⟨k, Finset.mem_filter.mpr ⟨hk, hplace ▸ hle⟩, hblock⟩
    have hsplit : (∃ k ∈ S ∪ S'.filter (· ≤ t), (ofBlock k (blocks k)).tx[id]? = some q) ↔
        ix.tx[id]? = some q ∨ (id, q) ∈ p.tx ∧ q.1 ≤ t := by
      rw [h.tx, ← himage]
      constructor
      · rintro ⟨k, hk, hblock⟩
        rcases Finset.mem_union.mp hk with hk | hk
        · exact .inl ⟨k, hk, hblock⟩
        · exact .inr ⟨k, hk, hblock⟩
      · rintro (⟨k, hk, hblock⟩ | ⟨k, hk, hblock⟩)
        · exact ⟨k, Finset.mem_union_left _ hk, hblock⟩
        · exact ⟨k, Finset.mem_union_right _ hk, hblock⟩
    rw [hsplit]
    by_cases hknown : ∃ q', (id, q') ∈ p.tx
    · obtain ⟨q', hq'⟩ := hknown
      rw [tx_restore ix p t (hone q' hq')]
      split
      next hin =>
        constructor
        · intro heq
          obtain rfl := Option.some.inj heq
          exact .inr hin
        · rintro (hold | ⟨hq, -⟩)
          · -- the same block would be read over itself
            obtain ⟨k, hk, hblock⟩ := (h.tx id q).mp hold
            obtain ⟨k', hk', hblock'⟩ := (hp.tx _).mp hin.1
            obtain rfl := hno k k' (hpos k hk) (hpos' k' hk') _ (mem_of_located hblock)
              (mem_of_located hblock')
            have hplace := (ofOne_ofBlock k (blocks k)).placed id q' hblock'
            exact absurd (Finset.mem_filter.mpr ⟨hk', hplace ▸ hin.2⟩)
              (Finset.disjoint_left.mp hdisj hk)
          · exact congrArg some (hone q' hq' (id, q) hq rfl).symm
      next hout =>
        refine ⟨.inl, ?_⟩
        rintro (hold | hin)
        · exact hold
        · obtain rfl := hone q' hq' (id, q) hin.1 rfl
          exact absurd hin hout
    · have hnone : (id, q) ∉ p.tx := fun hq => hknown ⟨q, hq⟩
      have hone' : ∀ e ∈ p.tx, e.1 = id → e.2 = q := by
        rintro ⟨id', q'⟩ he rfl
        exact absurd ⟨q', he⟩ hknown
      rw [tx_restore ix p t hone']
      simp [hnone]
  acct a := by
    have hkinds : ((p.history a).filter fun e => e.height ≤ t).map
        (fun e => { e with kind := kindStatic e.kind }) =
        (p.history a).filter fun e => e.height ≤ t := by
      refine (List.map_congr_left fun e he => ?_).trans (List.map_id _)
      have hin : e ∈ (p.history a : Multiset (AcctEntry H)) := (List.mem_filter.mp he).1
      rw [hp.acct, Multiset.mem_sum] at hin
      obtain ⟨k, -, hk⟩ := hin
      exact congrArg (AcctEntry.mk e.id e.height) ((ofOne_ofBlock k (blocks k)).entries a e hk).2.2
    rw [history_restore, hkinds, ← Multiset.coe_add, h.acct, ← Multiset.filter_coe, hp.acct,
      filter_sum_history, Finset.sum_union hdisj]

end SearchIndex

end HashKinetics
