import HashKinetics.Node.Streams
import HashKinetics.State.Run

/-!
# Applying a decided batch

`HkApp` is the application side of a node: the chain, the validator set, the receipts and note feeds
it serves to wallets, and the values that consensus is voting on.  `applyBatchToChain` applies one
decided batch; a live commit verifies the batch's aggregate, a replay after a restart installs the
verdict that the block log recorded.
-/

namespace HashKinetics

open Foundations

/-! ## Receipts -/

/-- The bounded log of receipts, oldest first, by transaction id. -/
structure ReceiptLog (H : Type) [LinearOrder H] where
  map : OrderedMap H String
  order : List H
  cap : ℕ

namespace ReceiptLog

variable {H : Type} [LinearOrder H]

def new (cap : ℕ) : ReceiptLog H := ⟨∅, [], cap⟩

/-- Record a receipt; a new id may push out the oldest one. -/
def insert (log : ReceiptLog H) (id : H) (detail : String) : ReceiptLog H :=
  let map := log.map.insert id detail
  if log.map.contains id then { log with map := map }
  else
    let order := log.order ++ [id]
    if log.cap < order.length then
      match order with
      | old :: rest => { log with map := map.erase old, order := rest }
      | [] => { log with map := map, order := order }
    else { log with map := map, order := order }

/-- Export in insertion order. -/
def entries (log : ReceiptLog H) : List (H × String) :=
  log.order.filterMap fun id => log.map[id]?.map fun detail => (id, detail)

/-- Refill from an export. -/
def restore (log : ReceiptLog H) (entries : List (H × String)) : ReceiptLog H :=
  entries.foldl (fun log e => log.insert e.1 e.2) log

end ReceiptLog

/-- The text of a receipt. -/
def Receipt.detail {H : Type} (r : Receipt H) : String :=
  match r.result with
  | .ok events => s!"ok: {events.length} event(s)"
  | .error e => "rejected: " ++ e

/-! ## The application -/

/-- A value someone proposed for a height and a round. -/
structure ProposedValue (H : Type) where
  height : ℕ
  round : Round
  validRound : Round
  proposer : HkAddress H
  value : HkValue H
  valid : Bool

/-- A decided value with its certificate. -/
structure DecidedEntry (H : Type) where
  value : HkValue H
  certificate : CommitCertificate H

/-- A commitment with its stealth payload, as wallets read it. -/
abbrev PoolNote (H : Type) := H × List UInt8

/-- What a node's configuration and genesis fix for its whole life. -/
structure NodeParams (H : Type) where
  address : HkAddress H
  chainStartTime : ℕ
  agg : Option (AggVerifier H)
  rules : SetRules
  /-- How many decided heights stay in memory; zero for all of them. -/
  decidedWindow : ℕ
  snapshotEvery : ℕ
  /-- How many heights of the block log are kept; zero for all of them. -/
  retainBlocks : ℕ

/-- The application side of a node. -/
structure HkApp (H : Type) [LinearOrder H] where
  chain : State H
  validators : HkValidatorSet H
  /-- The sets with the heights they are in force from, in the order they were recorded. -/
  setHistory : List (ℕ × HkValidatorSet H)
  receipts : ReceiptLog H
  /-- The note feed of the legacy pool. -/
  poolNotes : List (PoolNote H)
  /-- The note feeds of the other pools. -/
  poolNotesByAsset : OrderedMap H (List (PoolNote H))
  /-- The commitment after the last block, if it is known. -/
  lastAppHash : Option H
  streams : PartStreamsMap H
  /-- The values under vote, by height and round. -/
  undecided : OrderedMap (ℕ ×ₗ ℤ) (List (ProposedValue H))
  decided : OrderedMap ℕ (DecidedEntry H)
  /-- The lowest height from which the block log has no gap up to the tip; zero before it has
  any. -/
  historyMin : ℕ
  currentHeight : ℕ

/-- Why the application refuses. -/
inductive NodeError (H : Type) where
  | divergence (height : ℕ) (parent ours : H)
  | applyBlock (e : StateError)
  | notFound (valueId : H) (height : ℕ)
  | snapshotIntegrity (height : ℕ) (got recorded : H)
  | corruptHistory (height : ℕ)
  deriving DecidableEq

/-- The state with the coverage of a batch installed, if there is any. -/
def State.coveredBy {H : Type} [LinearOrder H] (s : State H) : Option (OrderedSet H) → State H
  | some cover => s.setBlockCoverage cover
  | none => s

/-- Installing coverage does not move the clock. -/
lemma State.height_coveredBy {H : Type} [LinearOrder H] (s : State H)
    (cover : Option (OrderedSet H)) : (s.coveredBy cover).height = s.height := by
  cases cover <;> rfl

namespace HkApp

variable {H : Type} [LinearOrder H]

/-- Add notes to the feed of a pool. -/
def pushNotes (a : HkApp H) (key : PoolKey H) (notes : List (PoolNote H)) : HkApp H :=
  match key with
  | .legacy => { a with poolNotes := a.poolNotes ++ notes }
  | .asset asset => { a with
      poolNotesByAsset := a.poolNotesByAsset.insert asset
        (a.poolNotesByAsset[asset]?.getD [] ++ notes) }

/-- The feed of a pool. -/
def feed (a : HkApp H) : PoolKey H → List (PoolNote H)
  | .legacy => a.poolNotes
  | .asset asset => a.poolNotesByAsset[asset]?.getD []

variable [HashSuite H]

/-- The application with the coverage of a batch installed, if there is any. -/
def covered (a : HkApp H) (cover : Option (OrderedSet H)) : HkApp H :=
  { a with chain := a.chain.coveredBy cover }

/-- The feed a shield goes to: by its asset. -/
def feedOfAsset (s : State H) (asset : H) : PoolKey H :=
  match s.poolKeyOfAsset asset with
  | .ok (.asset a) => .asset a
  | _ => .legacy

/-- The feed the outputs of a spend go to: by its anchor. -/
def feedOfAnchor (s : State H) (anchor : H) : PoolKey H :=
  match s.poolKeyOfAnchor anchor with
  | some (.asset a) => .asset a
  | _ => .legacy

/-- File the commitments of one accepted transaction; the chain is the one after the block. -/
def routeNotes (a : HkApp H) (e : SignedTx H × Receipt H) : HkApp H :=
  if e.2.accepted then
    match e.1.payload with
    | .mintToPool asset _ commitment _ stealthCt =>
      a.pushNotes (feedOfAsset a.chain asset) [(commitment, stealthCt)]
    | .shieldedSpend anchor _ out out2 _ _ _ _ stealthCt stealthCt2 =>
      a.pushNotes (feedOfAnchor a.chain anchor) [(out, stealthCt), (out2, stealthCt2)]
    | _ => a
  else a

variable [NodeCodec H]

/-- Record the receipts of a block. -/
def recordReceipts (a : HkApp H) (txs : List (SignedTx H)) (receipts : List (Receipt H)) :
    HkApp H :=
  { a with
    receipts := (txs.zip receipts).foldl (fun log e => log.insert (txid e.1) e.2.detail)
      a.receipts }

/-- The transactions of a batch; bytes that do not decode carry none. -/
def txsOf : Option (Batch H) → List (SignedTx H)
  | some b => b.txs
  | none => []

/-- Which coverage a batch installs: its aggregate verified in the live case, the recorded verdict
in a replay. -/
def coverageOf (P : NodeParams H) (liveAgg recorded : Bool) :
    Option (Batch H) → Option (OrderedSet H)
  | none => none
  | some b =>
    if b.aggProof.isEmpty ∨ b.uncovered.isEmpty then none
    else if liveAgg then
      match P.agg with
      | some v => if v.accepts b.aggProof b.uncovered then some (coversOf b.uncovered) else none
      | none => none
    else if recorded then some (coversOf b.uncovered)
    else none

/-- The clock of the chain: `u64` arithmetic. -/
def blockTime (P : NodeParams H) (height : ℕ) : ℕ := (P.chainStartTime + height) % 2 ^ 64

variable [TxCodec H] [StateCodec H]

/-- The commitment a batch must have been built on. -/
def ourHash (a : HkApp H) : H := a.lastAppHash.getD a.chain.stateCommitment

/-- The batch was built on another state than ours. -/
def Diverges (a : HkApp H) (batch : Option (Batch H)) : Prop :=
  ∃ b ∈ batch, b.parentAppHash ≠ a.ourHash

instance (a : HkApp H) (batch : Option (Batch H)) : Decidable (a.Diverges batch) :=
  inferInstanceAs (Decidable (∃ b ∈ batch, _))

/-- Run the state machine inside the application. -/
def onChain {α : Type} (x : Exec (State H) StateError α) : Exec (HkApp H) (NodeError H) α :=
  Exec.zoom HkApp.chain (fun a s => { a with chain := s }) .applyBlock x

/-- The application after an applied block: receipts recorded, notes filed, commitment cached. -/
def recorded (a : HkApp H) (txs : List (SignedTx H)) (receipts : List (Receipt H)) : HkApp H :=
  let a := (txs.zip receipts).foldl routeNotes (a.recordReceipts txs receipts)
  { a with lastAppHash := some a.chain.stateCommitment }

/-- Apply one decided batch; the value says whether an aggregate's coverage was installed. -/
def applyBatchToChain (P : NodeParams H) (height : ℕ) (batch : Option (Batch H))
    (liveAgg recordedAggValid : Bool) : Exec (HkApp H) (NodeError H) Bool := do
  let txs := txsOf batch
  let sigVerdicts := txs.map State.verifyEnvelope
  let a ← Exec.get
  -- the cached hash is taken: every error path below leaves none behind
  Exec.modify fun a => { a with lastAppHash := none }
  Exec.rejectIf (a.Diverges batch)
    (.divergence height ((batch.map Batch.parentAppHash).getD a.ourHash) a.ourHash)
  Exec.modify fun a => a.covered (coverageOf P liveAgg recordedAggValid batch)
  let receipts ← onChain
    (State.applyBlockVerified height (blockTime P height) txs (some sigVerdicts))
  Exec.modify fun a => a.recorded txs receipts
  pure (coverageOf P liveAgg recordedAggValid batch).isSome

/-! ## What an application does -/

variable {P : NodeParams H} {height : ℕ} {batch : Option (Batch H)} {live rec : Bool}
  {a a' : HkApp H}

/-- The application once the state machine has applied a block. -/
def finished (a : HkApp H) (s : State H) (txs : List (SignedTx H)) (receipts : List (Receipt H)) :
    HkApp H :=
  recorded { a with lastAppHash := none, chain := s } txs receipts

omit [HashSuite H] [NodeCodec H] [TxCodec H] [StateCodec H] in
/-- Filing notes writes the feeds and nothing else. -/
lemma foldl_routeNotes_eq (es : List (SignedTx H × Receipt H)) (a : HkApp H) :
    es.foldl routeNotes a = { a with
      poolNotes := (es.foldl routeNotes a).poolNotes
      poolNotesByAsset := (es.foldl routeNotes a).poolNotesByAsset } := by
  induction es generalizing a with
  | nil => rfl
  | cons e es ih =>
    have hroute : routeNotes a e = { a with
        poolNotes := (routeNotes a e).poolNotes
        poolNotesByAsset := (routeNotes a e).poolNotesByAsset } := by
      have hpush : ∀ key notes, a.pushNotes key notes = { a with
          poolNotes := (a.pushNotes key notes).poolNotes
          poolNotesByAsset := (a.pushNotes key notes).poolNotesByAsset } := by
        intro key notes
        cases key <;> rfl
      unfold routeNotes
      split
      · split
        · exact hpush _ _
        · exact hpush _ _
        · rfl
      · rfl
    rw [List.foldl_cons, ih, hroute]

section Finished

variable (a : HkApp H) (s : State H) (txs : List (SignedTx H)) (receipts : List (Receipt H))

omit [TxCodec H] in
@[simp] lemma finished_chain : (a.finished s txs receipts).chain = s := by
  rw [finished, recorded, foldl_routeNotes_eq]
  rfl

omit [TxCodec H] in
@[simp] lemma finished_validators : (a.finished s txs receipts).validators = a.validators := by
  rw [finished, recorded, foldl_routeNotes_eq]
  rfl

omit [TxCodec H] in
@[simp] lemma finished_setHistory : (a.finished s txs receipts).setHistory = a.setHistory := by
  rw [finished, recorded, foldl_routeNotes_eq]
  rfl

omit [TxCodec H] in
@[simp] lemma finished_historyMin : (a.finished s txs receipts).historyMin = a.historyMin := by
  rw [finished, recorded, foldl_routeNotes_eq]
  rfl

omit [TxCodec H] in
@[simp] lemma finished_undecided : (a.finished s txs receipts).undecided = a.undecided := by
  rw [finished, recorded, foldl_routeNotes_eq]
  rfl

omit [TxCodec H] in
@[simp] lemma finished_decided : (a.finished s txs receipts).decided = a.decided := by
  rw [finished, recorded, foldl_routeNotes_eq]
  rfl

omit [TxCodec H] in
@[simp] lemma finished_lastAppHash :
    (a.finished s txs receipts).lastAppHash = some s.stateCommitment := by
  rw [finished, recorded, foldl_routeNotes_eq]
  rfl

end Finished

/-- What the state machine is asked to do for a batch. -/
def blockOf (P : NodeParams H) (height : ℕ) (batch : Option (Batch H)) :
    Exec (State H) StateError (List (Receipt H)) :=
  State.applyBlock height (blockTime P height) (txsOf batch)

omit [NodeCodec H] [TxCodec H] [StateCodec H] in
/-- Without a verifier of aggregates a live node covers nothing. -/
lemma coverageOf_of_agg (h : P.agg = none) (recorded : Bool) (batch : Option (Batch H)) :
    coverageOf P true recorded batch = none := by
  cases batch with
  | none => rfl
  | some b =>
    simp only [coverageOf, h]
    split
    · rfl
    · rfl

omit [NodeCodec H] [StateCodec H] in
/-- Transactions that verify may be applied with their verdicts at hand. -/
lemma blockOf_of_verified {b : Batch H}
    (h : b.txs.map State.verifyEnvelope = b.txs.map fun _ => true) :
    blockOf P height (some b) = State.applyBlockVerified height (blockTime P height) b.txs
      (some (b.txs.map fun _ => true)) := by
  rw [← h]
  exact (State.applyBlockVerified_verdicts _ _ _).symm

omit [NodeCodec H] [StateCodec H] in
/-- A block that the state machine refuses changes nothing. -/
lemma atomic_blockOf (P : NodeParams H) (height : ℕ) (batch : Option (Batch H)) :
    (blockOf P height batch).Atomic :=
  State.atomic_applyBlockVerified _ _ _ _

/-- An application refuses a batch that was built on another state, and otherwise runs the state
machine under the batch's own coverage or, when the batch brings none, under whatever coverage the
chain still has.  What it installed stays when the state machine refuses. -/
lemma applyBatchToChain_eq (P : NodeParams H) (height : ℕ) (batch : Option (Batch H))
    (live rec : Bool) (a : HkApp H) :
    applyBatchToChain P height batch live rec a =
      if a.Diverges batch then
        (.err (.divergence height ((batch.map Batch.parentAppHash).getD a.ourHash) a.ourHash),
          { a with lastAppHash := none })
      else
        match blockOf P height batch (a.chain.coveredBy (coverageOf P live rec batch)) with
        | (.ok receipts, s) =>
          (.ok (coverageOf P live rec batch).isSome, a.finished s (txsOf batch) receipts)
        | (.err e, s) => (.err (.applyBlock e), { a with lastAppHash := none, chain := s })
        | (.fault, s) => (.fault, { a with lastAppHash := none, chain := s }) := by
  by_cases hdiv : a.Diverges batch
  · simp [applyBatchToChain, hdiv, bind, Exec.bind, Exec.get, Exec.modify, Exec.rejectIf]
  · simp only [applyBatchToChain, State.applyBlockVerified_verdicts, bind, Exec.bind, Exec.get,
      Exec.modify, Exec.rejectIf, hdiv, if_false, onChain, Exec.zoom, covered, blockOf]
    rcases State.applyBlock height (blockTime P height) (txsOf batch)
      (a.chain.coveredBy (coverageOf P live rec batch)) with ⟨_ | _ | _, s⟩
    · rfl
    · rfl
    · rfl

/-- Everything about an application that succeeds. -/
lemma applyBatchToChain_eq_ok {v : Bool} :
    applyBatchToChain P height batch live rec a = (.ok v, a') ↔
      ¬ a.Diverges batch ∧ (coverageOf P live rec batch).isSome = v ∧
      ∃ receipts s, blockOf P height batch (a.chain.coveredBy (coverageOf P live rec batch))
          = (.ok receipts, s) ∧ a.finished s (txsOf batch) receipts = a' := by
  rw [applyBatchToChain_eq]
  split_ifs with hdiv
  · simp [hdiv]
  · rcases blockOf P height batch (a.chain.coveredBy (coverageOf P live rec batch))
      with ⟨_ | _ | _, s⟩ <;> simp [hdiv]

/-- An application that fails forgets the cached hash and changes nothing else but the coverage. -/
lemma applyBatchToChain_eq_err {e : NodeError H}
    (h : applyBatchToChain P height batch live rec a = (.err e, a')) :
    a.Diverges batch ∧ a' = { a with lastAppHash := none } ∨
      ¬ a.Diverges batch ∧
      (∃ e', (blockOf P height batch (a.chain.coveredBy (coverageOf P live rec batch))).1
        = .err e') ∧
      a' = { a with
        lastAppHash := none, chain := a.chain.coveredBy (coverageOf P live rec batch) } := by
  rw [applyBatchToChain_eq] at h
  split_ifs at h with hdiv
  · cases h
    exact .inl ⟨hdiv, rfl⟩
  · rcases hblock : blockOf P height batch (a.chain.coveredBy (coverageOf P live rec batch))
      with ⟨_ | e', s⟩
    · simp [hblock] at h
    · have hsame := atomic_blockOf P height batch _ _ (congrArg Prod.fst hblock)
      rw [hblock] at hsame h
      cases h
      cases hsame
      exact .inr ⟨hdiv, ⟨e', rfl⟩, rfl⟩
    · simp [hblock] at h

/-- A block that is applied is the next one, sets the clock and the rest of the settings as every
block does, and leaves no coverage behind. -/
lemma settings_applyBatchToChain {v : Bool}
    (h : applyBatchToChain P height batch live rec a = (.ok v, a')) :
    height = a.chain.height + 1 ∧ a'.chain.settings = { a.chain.settings with
      height := height, time := blockTime P height, aggCover := ∅ } := by
  obtain ⟨-, -, receipts, s, hblock, rfl⟩ := applyBatchToChain_eq_ok.mp h
  obtain ⟨hheight, -⟩ := State.applyBlockVerified_eq_ok hblock
  have hsettings := State.settings_applyBlockVerified hblock
  have hcovered : ∀ cover, (a.chain.coveredBy cover).height = a.chain.height ∧
      { (a.chain.coveredBy cover).settings with aggCover := ∅ } =
        { a.chain.settings with aggCover := ∅ } := by
    intro cover
    cases cover <;> exact ⟨rfl, rfl⟩
  rw [(hcovered _).1] at hheight
  refine ⟨hheight, ?_⟩
  rw [finished_chain, hsettings]
  exact congrArg (fun f : State.Frame H => { f with
    height := height, time := blockTime P height }) (hcovered _).2

/-- The height of the chain after an applied block. -/
lemma height_applyBatchToChain {v : Bool}
    (h : applyBatchToChain P height batch live rec a = (.ok v, a')) :
    height = a.chain.height + 1 ∧ a'.chain.height = height := by
  obtain ⟨hheight, hsettings⟩ := settings_applyBatchToChain h
  exact ⟨hheight, congrArg State.Frame.height hsettings⟩

end HkApp

end HashKinetics
