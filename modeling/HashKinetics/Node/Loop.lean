import HashKinetics.Node.Apply
import HashKinetics.Node.BlockLog
import HashKinetics.Consensus.Seats

/-!
# The application loop

A node handles the messages of the consensus engine one at a time: values enter the set under vote
by its own proposals, by streamed parts and by value sync, and a decided certificate commits one of
them.  A commit writes the block to the log and, at every so many heights, an image of the node,
after which old segments of the log may go.  A started node loads the newest image and replays the
log above it.  Only nodes that persist are modelled here, and the log is the map that its files and
segments together hold.
-/

namespace HashKinetics

open Foundations

/-- The persistent image of a node. -/
structure NodeSnapshot (H : Type) [LinearOrder H] where
  appHash : H
  height : ℕ
  state : StateSnapshot H
  poolNotes : List (PoolNote H)
  poolNotesByAsset : OrderedMap H (List (PoolNote H))
  receipts : List (H × String)
  validators : List (ValidatorDto H)

/-- What a node keeps on disk: the block log, its image, and the images that earlier releases left
in their own formats. -/
structure NodeStore (H : Type) [LinearOrder H] where
  blocks : OrderedMap ℕ (StoredBlock H)
  snapshot : Option (NodeSnapshot H)
  olderSnapshots : List (NodeSnapshot H)

namespace NodeStore

variable {H : Type} [LinearOrder H]

def new : NodeStore H := ⟨∅, none, []⟩

/-- The image with the highest height, whatever its format; the last one among equals. -/
def loadSnapshot (s : NodeStore H) : Option (NodeSnapshot H) :=
  (s.snapshot.toList ++ s.olderSnapshots).foldl (fun best c =>
    match best with
    | some b => if b.height ≤ c.height then some c else some b
    | none => some c) none

/-- The stored heights, ascending. -/
def blockHeights (s : NodeStore H) : List ℕ := s.blocks.keys

/-- Write a block to the log. -/
def saveBlock (s : NodeStore H) (sb : StoredBlock H) : NodeStore H :=
  { s with blocks := s.blocks.insert sb.height sb }

end NodeStore

/-- How the disk answers during one commit. -/
structure DiskIo where
  saveBlock : Bool
  saveSnapshot : Bool
  /-- The segments that a retention pass finds and gets to delete, if they are old enough. -/
  segments : List ℕ
  /-- The heights that still have a file of their own. -/
  filed : List ℕ
  /-- The pass ends with an error, after what it deleted. -/
  pruneFails : Bool

/-- Delete the segments that lie wholly below the retained heights, and return the first height of
the first segment kept if any went.  A height goes with its segment unless it has a file of its
own. -/
def NodeStore.pruneBelow {H : Type} [LinearOrder H] (s : NodeStore H) (tip retain : ℕ)
    (io : DiskIo) : Except Unit (Option ℕ) × NodeStore H :=
  if retain = 0 ∨ tip ≤ retain then (.ok none, s)
  else
    let keepSeg := (tip - retain) / SEGMENT_SPAN
    let deleted := io.segments.filter (· < keepSeg)
    let s := { s with
      blocks := s.blocks.filter fun h _ => ¬ (h / SEGMENT_SPAN ∈ deleted ∧ h ∉ io.filed) }
    (if io.pruneFails then .error ()
      else .ok (if deleted = [] then none else some (keepSeg * SEGMENT_SPAN)), s)

/-- Extend a run of heights downwards as long as there is no gap. -/
def extendSuffix (min : ℕ) : List ℕ → ℕ
  | [] => min
  | h :: hs => if h + 1 = min then extendSuffix h hs else min

/-- The lowest height of the gap-free run that ends at the highest of the given heights. -/
def contiguousSuffixMin (heightsAscending : List ℕ) : Option ℕ :=
  match heightsAscending.reverse with
  | [] => none
  | min :: hs => some (extendSuffix min hs)

/-- The messages of the engine that change the application. -/
inductive AppMsg (H : Type) where
  | startedRound (height : ℕ) (round : Round)
  /-- The engine asks for a value; the payload is the batch the node would build. -/
  | getValue (height : ℕ) (round : Round) (payload : List UInt8)
  | receivedProposalPart (peer : ℕ) (part : StreamMessage H)
  | processSyncedValue (height : ℕ) (round : Round) (proposer : HkAddress H)
      (valueBytes : List UInt8)
  | decided (certificate : CommitCertificate H) (io : DiskIo)
  /-- The process ends, and a new one resumes from disk. -/
  | restart

namespace HkApp

variable {H : Type} [LinearOrder H]

/-- The key of a height and a round among the values under vote. -/
def undecidedKey (height : ℕ) (round : Round) : ℕ ×ₗ ℤ := toLex (height, round.asI64)

/-- Keep a proposed value; one value per id and proposer. -/
def storeUndecided (a : HkApp H) (v : ProposedValue H) : HkApp H :=
  let key := undecidedKey v.height v.round
  let entry := a.undecided[key]?.getD []
  { a with
    undecided := a.undecided.insert key
      (if entry.any fun e => e.value.id = v.value.id ∧ e.proposer = v.proposer then entry
        else entry ++ [v]) }

/-- The value a certificate names: the first of its height, in the order of rounds. -/
def undecidedValue (a : HkApp H) (cert : CommitCertificate H) : Option (HkValue H) :=
  ((a.undecided.toList.filter fun e => (ofLex e.1).1 = cert.height).flatMap Prod.snd).find?
    (fun v => v.value.id = cert.valueId) |>.map ProposedValue.value

/-- The newest decided heights that stay in memory. -/
def trimDecided (window : ℕ) (m : OrderedMap ℕ (DecidedEntry H)) : OrderedMap ℕ (DecidedEntry H) :=
  if window = 0 then m
  else (m.toList.take (m.size - window)).foldl (fun m e => m.erase e.1) m

/-- The certificates of a batch; bytes that do not decode carry none. -/
def certsOf : Option (Batch H) → CertBatch
  | some b => b.toCertBatch
  | none => ⟨[], []⟩

variable [HashSuite H]

/-- The value this node built for a height and a round, as it looks it up: the first one under its
own address. -/
def previouslyBuilt (P : NodeParams H) (a : HkApp H) (height : ℕ) (round : Round) :
    Option (HkValue H) :=
  ((a.undecided[undecidedKey height round]?.getD []).find? fun v => v.proposer = P.address).map
    ProposedValue.value

/-- Propose a new value. -/
def proposeValue (P : NodeParams H) (a : HkApp H) (height : ℕ) (round : Round)
    (payload : List UInt8) : HkApp H :=
  a.storeUndecided ⟨height, round, none, P.address, .new payload, true⟩

/-- Answer with the value built earlier for this height and round, or propose a new one. -/
def getValue (P : NodeParams H) (a : HkApp H) (height : ℕ) (round : Round)
    (payload : List UInt8) : HkApp H :=
  match a.previouslyBuilt P height round with
  | some _ => a
  | none => a.proposeValue P height round payload

/-- Take in a streamed part; a complete stream becomes a value made from its content. -/
def receivedProposalPart (a : HkApp H) (peer : ℕ) (part : StreamMessage H) : HkApp H :=
  let (parts?, streams) := a.streams.insertPart peer part
  let a := { a with streams := streams }
  match parts? with
  | some parts =>
    let value : HkValue H := .new parts.batch
    a.storeUndecided ⟨parts.height, parts.round, parts.polRound, parts.proposer, value,
      parts.fin = some value.id⟩
  | none => a

variable [NodeCodec H]

/-- Take in a synced value as it decodes. -/
def processSyncedValue (a : HkApp H) (height : ℕ) (round : Round) (proposer : HkAddress H)
    (valueBytes : List UInt8) : HkApp H :=
  match NodeCodec.decodeValue valueBytes with
  | some value => a.storeUndecided ⟨height, round, none, proposer, value, true⟩
  | none => a

variable [RootScheme]

/-- Put a set in force from the next height on; only a set that changed is recorded. -/
def withSet (a : HkApp H) (height : ℕ) (anyApplied : Bool) (set : HkValidatorSet H) : HkApp H :=
  { a with
    validators := set
    setHistory := if anyApplied then a.setHistory ++ [(height + 1, set)] else a.setHistory }

/-- Apply the rotations of a batch. -/
def applyRotations (P : NodeParams H) (a : HkApp H) (height : ℕ) (batch : Option (Batch H)) :
    HkApp H :=
  a.withSet height
    (HkValidatorSet.rotatesAny P.rules height (certsOf batch).rotations a.validators)
    (HkValidatorSet.applyRotations P.rules height (certsOf batch) a.validators)

/-- Apply the set changes of a batch, and the bootstrap re-weight at its height. -/
def applySetChanges (P : NodeParams H) (a : HkApp H) (height : ℕ) (batch : Option (Batch H)) :
    HkApp H :=
  a.withSet height
    (HkValidatorSet.changesAny P.rules height (certsOf batch).setChanges a.validators ||
      HkValidatorSet.reweightsAt P.rules height
        ((certsOf batch).setChanges.foldl (HkValidatorSet.change P.rules height) a.validators))
    (HkValidatorSet.applySetChanges P.rules height (certsOf batch) a.validators)

/-- The application after the certificates of a batch. -/
def withCerts (P : NodeParams H) (a : HkApp H) (height : ℕ) (batch : Option (Batch H)) : HkApp H :=
  (a.applyRotations P height batch).applySetChanges P height batch

/-- The set whose signatures count at a height: the last one recorded from that height or below. -/
def validatorSetAt (a : HkApp H) (height : ℕ) : Option (HkValidatorSet H) :=
  (a.setHistory.reverse.find? fun e => e.1 ≤ height).map Prod.snd

/-- The application once a value is decided. -/
def settled (P : NodeParams H) (a : HkApp H) (cert : CommitCertificate H) (value : HkValue H) :
    HkApp H :=
  { a with
    decided := trimDecided P.decidedWindow (a.decided.insert cert.height ⟨value, cert⟩)
    undecided := a.undecided.filter fun k _ => cert.height < (ofLex k).1
    currentHeight := cert.height + 1 }

variable [TxCodec H] [StateCodec H]

/-- Commit a decided certificate; the result is the block for the log. -/
def commit (P : NodeParams H) (cert : CommitCertificate H) :
    Exec (HkApp H) (NodeError H) (StoredBlock H) := do
  let a ← Exec.get
  let value ← Exec.okOr (a.undecidedValue cert) (.notFound cert.valueId cert.height)
  let batch := NodeCodec.decodeBatch value.txs
  let aggValid ← applyBatchToChain P cert.height batch true false
  Exec.modify fun a => (a.withCerts P cert.height batch).settled P cert value
  pure ⟨cert.height, value.txs, cert, aggValid⟩

/-! ## Images and restart -/

def makeSnapshot (a : HkApp H) : NodeSnapshot H where
  appHash := a.chain.stateCommitment
  height := a.chain.height
  state := a.chain.toSnapshot
  poolNotes := a.poolNotes
  poolNotesByAsset := a.poolNotesByAsset
  receipts := a.receipts.entries
  validators := a.validators.toSnapshot

/-- The chain state of an image under the configuration of the running node. -/
def restoredChain (a : HkApp H) (snap : NodeSnapshot H) : State H :=
  (State.fromSnapshot snap.state).withConfigOf a.chain

/-- Load an image; one whose commitment is not the recorded one is refused. -/
def loadImage (a : HkApp H) (snap : NodeSnapshot H) : Except (NodeError H) (HkApp H) :=
  if (a.restoredChain snap).stateCommitment ≠ snap.appHash then
    .error (.snapshotIntegrity snap.height (a.restoredChain snap).stateCommitment snap.appHash)
  else .ok { a with
    chain := a.restoredChain snap
    poolNotes := snap.poolNotes
    poolNotesByAsset := snap.poolNotesByAsset
    receipts := a.receipts.restore snap.receipts
    validators := a.validators.restore snap.validators
    -- the history restarts at the image, whose set is in force from the next height on
    setHistory := [(snap.height + 1, a.validators.restore snap.validators)] }

/-- The application once a block is replayed. -/
def replayed (P : NodeParams H) (a : HkApp H) (height : ℕ) (sb : StoredBlock H) : HkApp H :=
  { a.withCerts P height (NodeCodec.decodeBatch sb.valueBytes) with
    decided := a.decided.insert height ⟨.new sb.valueBytes, sb.certificate⟩ }

/-- Replay one stored block; its certificate must certify its bytes. -/
def replayBlock (P : NodeParams H) (height : ℕ) (sb : StoredBlock H) :
    Exec (HkApp H) (NodeError H) Unit := do
  Exec.rejectIf (sb.certificate.valueId ≠ (HkValue.new sb.valueBytes : HkValue H).id)
    (.corruptHistory height)
  let _ ← applyBatchToChain P height (NodeCodec.decodeBatch sb.valueBytes) false sb.aggValid
  Exec.modify fun a => a.replayed P height sb

/-- Replay what the log holds at a height, if anything. -/
def replayStored (P : NodeParams H) (height : ℕ) :
    Option (StoredBlock H) → Exec (HkApp H) (NodeError H) Unit
  | some sb => replayBlock P height sb
  | none => pure ()

/-- Replay the heights in order, up to the first gap. -/
def replay (P : NodeParams H) (s : NodeStore H) : List ℕ → Exec (HkApp H) (NodeError H) Unit
  | [] => pure ()
  | h :: hs => do
    let a ← Exec.get
    if h ≠ a.chain.height + 1 then pure ()
    else do
      replayStored P h s.blocks[h]?
      replay P s hs

/-- Load the newest image, if there is one. -/
def restoreImage : Option (NodeSnapshot H) → Exec (HkApp H) (NodeError H) Unit
  | some snap => do
    let a ← Exec.get
    let a' ← Exec.ofExcept id (a.loadImage snap)
    Exec.modify fun _ => a'
  | none => pure ()

/-- The lowest height that a log with the given heights serves without a gap up to the tip: only a
run that reaches the tip counts. -/
def servableFrom (heights : List ℕ) (tip : ℕ) : ℕ :=
  match contiguousSuffixMin heights with
  | some min => if heights.getLast?.getD 0 = tip then min else tip + 1
  | none => tip + 1

/-- Resume from disk. -/
def restoreFromStore (P : NodeParams H) (s : NodeStore H) :
    Exec (HkApp H) (NodeError H) Unit := do
  restoreImage s.loadSnapshot
  let a ← Exec.get
  replay P s (s.blockHeights.filter fun h => a.chain.height < h)
  Exec.modify fun a => { a with
    currentHeight := a.chain.height + 1
    historyMin := servableFrom s.blockHeights a.chain.height }

/-- The application of a node that was just started, from its genesis. -/
def fresh (chain : State H) (validators : HkValidatorSet H) : HkApp H where
  chain := chain
  validators := validators
  setHistory := [(1, validators)]
  receipts := .new 4096
  poolNotes := []
  poolNotesByAsset := ∅
  lastAppHash := none
  streams := ∅
  undecided := ∅
  decided := ∅
  historyMin := 0
  currentHeight := 1

/-- The lowest height the node offers to peers. -/
def earliestHeight (a : HkApp H) : ℕ :=
  let ramMin := a.decided.keys.head?
  let diskMin := if 0 < a.historyMin then some a.historyMin else none
  match ramMin, diskMin with
  | some r, some d => min r d
  | some r, none => r
  | none, some d => d
  | none, none => 1

end HkApp

/-! ## The node -/

/-- A running node: its application and its disk. -/
structure HkNode (H : Type) [LinearOrder H] where
  app : HkApp H
  store : NodeStore H

variable {H : Type} [LinearOrder H] [HashSuite H] [NodeCodec H] [RootScheme] [TxCodec H]
  [StateCodec H]

namespace HkNode

/-- Write a committed block to the log; without it the servable run starts past its height. -/
def saveBlock (io : DiskIo) (sb : StoredBlock H) (n : HkNode H) : HkNode H :=
  if io.saveBlock then
    { app := { n.app with
        historyMin := if n.app.historyMin = 0 then sb.height else n.app.historyMin }
      store := n.store.saveBlock sb }
  else { n with app := { n.app with historyMin := sb.height + 1 } }

/-- Write an image of the node. -/
def saveSnapshot (n : HkNode H) : HkNode H :=
  { n with store := { n.store with snapshot := some n.app.makeSnapshot } }

/-- The servable floor after a retention pass: it moves up when the pass deleted something, and
stays when the pass failed. -/
def prunedFloor (historyMin : ℕ) : Except Unit (Option ℕ) → ℕ
  | .ok (some min) => if historyMin < min then min else historyMin
  | .ok none => historyMin
  | .error _ => historyMin

/-- Let old segments go. -/
def pruneLog (P : NodeParams H) (io : DiskIo) (height : ℕ) (n : HkNode H) : HkNode H :=
  let pruned := n.store.pruneBelow height P.retainBlocks io
  ⟨{ n.app with historyMin := prunedFloor n.app.historyMin pruned.1 }, pruned.2⟩

/-- Persist a committed block, and an image of the node at every so many heights. -/
def persist (P : NodeParams H) (io : DiskIo) (sb : StoredBlock H) (n : HkNode H) : HkNode H :=
  let n := n.saveBlock io sb
  if sb.height % P.snapshotEvery = 0 ∧ io.saveSnapshot then n.saveSnapshot.pruneLog P io sb.height
  else n

/-- What the node answers to a peer that asks for a height: from memory, or from the log after a
look at the certificate. -/
def decidedValue (n : HkNode H) (height : ℕ) : Option (DecidedEntry H) :=
  match n.app.decided[height]? with
  | some entry => some entry
  | none =>
    match n.store.blocks[height]? with
    | none => none
    | some sb =>
      let value : HkValue H := .new sb.valueBytes
      if sb.certificate.valueId ≠ value.id then none else some ⟨value, sb.certificate⟩

/-- Handle one message; `boot` is the application as it is constructed at a start, and nothing
follows when the process stops. -/
def step (P : NodeParams H) (boot : HkApp H) (n : HkNode H) : AppMsg H → Option (HkNode H)
  | .startedRound height _ => some { n with app := { n.app with currentHeight := height } }
  | .getValue height round payload =>
    some { n with app := n.app.getValue P height round payload }
  | .receivedProposalPart peer part => some { n with app := n.app.receivedProposalPart peer part }
  | .processSyncedValue height round proposer valueBytes =>
    some { n with app := n.app.processSyncedValue height round proposer valueBytes }
  | .decided cert io =>
    match HkApp.commit P cert n.app with
    | (.ok sb, a) => some (persist P io sb ⟨a, n.store⟩)
    | (.err _, a) => some { n with app := a }
    | (.fault, _) => none
  | .restart =>
    match HkApp.restoreFromStore P n.store boot with
    | (.ok _, a) => some { n with app := a }
    | _ => none

/-- A node at its first start: nothing is on disk. -/
def start (P : NodeParams H) (boot : HkApp H) : HkNode H :=
  ⟨(HkApp.restoreFromStore P .new boot).2, .new⟩

/-- A run of a node from its first start. -/
abbrev Run (P : NodeParams H) (boot : HkApp H) : List (AppMsg H) → HkNode H → Prop :=
  Path (StepOf (step P boot)) (start P boot)

end HkNode

/-! ## What a commit does -/

namespace HkApp

variable {P : NodeParams H} {a a' : HkApp H} {cert : CommitCertificate H} {sb : StoredBlock H}

/-- A commit applies the bytes of the value it found, and hands the same bytes to the log. -/
lemma commit_eq_ok : commit P cert a = (.ok sb, a') ↔
    ∃ value a₁, a.undecidedValue cert = some value ∧
      applyBatchToChain P cert.height (NodeCodec.decodeBatch value.txs) true false a
        = (.ok sb.aggValid, a₁) ∧
      sb = ⟨cert.height, value.txs, cert, sb.aggValid⟩ ∧
      (a₁.withCerts P cert.height (NodeCodec.decodeBatch value.txs)).settled P cert value = a' := by
  simp only [commit, Exec.get_bind_eq_ok, Exec.okOr_bind_eq_ok, Exec.modify_bind_eq_ok,
    Exec.bind_eq_ok (x := applyBatchToChain _ _ _ _ _), Exec.pure_eq_ok]
  constructor
  · rintro ⟨value, hvalue, v, a₁, happly, rfl, rfl⟩
    exact ⟨value, a₁, hvalue, happly, rfl, rfl⟩
  · rintro ⟨value, a₁, hvalue, happly, hsb, rfl⟩
    exact ⟨value, hvalue, sb.aggValid, a₁, happly, hsb.symm, rfl⟩

/-- A commit that fails found no value, or is an application that failed. -/
lemma commit_eq_err {e : NodeError H} (h : commit P cert a = (.err e, a')) :
    a' = a ∧ a.undecidedValue cert = none ∨ ∃ value, a.undecidedValue cert = some value ∧
      applyBatchToChain P cert.height (NodeCodec.decodeBatch value.txs) true false a
        = (.err e, a') := by
  simp only [commit, bind, Exec.bind, Exec.get, Exec.okOr] at h
  cases hvalue : a.undecidedValue cert with
  | none =>
    simp only [hvalue, Prod.mk.injEq] at h
    exact .inl ⟨h.2.symm, rfl⟩
  | some value =>
    simp only [hvalue] at h
    rcases happly : applyBatchToChain P cert.height (NodeCodec.decodeBatch value.txs) true false a
      with ⟨v | e' | _, a₁⟩
    · simp [happly, Exec.modify, pure] at h
    · simp only [happly, Prod.mk.injEq, Outcome.err.injEq] at h
      obtain ⟨rfl, rfl⟩ := h
      exact .inr ⟨value, rfl, happly⟩
    · simp [happly] at h

/-! ## What a restore does -/

/-- A block is replayed if its certificate names its bytes and its batch applies. -/
lemma replayBlock_eq_ok {height : ℕ} : replayBlock P height sb a = (.ok (), a') ↔
    sb.certificate.valueId = (HkValue.new sb.valueBytes : HkValue H).id ∧
      ∃ v a₁, applyBatchToChain P height (NodeCodec.decodeBatch sb.valueBytes) false sb.aggValid a
        = (.ok v, a₁) ∧ a₁.replayed P height sb = a' := by
  simp only [replayBlock, Exec.rejectIf_bind_eq_ok, not_not,
    Exec.bind_eq_ok (x := applyBatchToChain _ _ _ _ _), Exec.modify_eq_ok]

/-- What every replayed block keeps holds after the replay. -/
lemma replay_invariant {I : HkApp H → Prop} {s : NodeStore H} {hs : List ℕ}
    (hstep : ∀ height sb a a', s.blocks[height]? = some sb → height = a.chain.height + 1 → I a →
      replayBlock P height sb a = (.ok (), a') → I a')
    (h : replay P s hs a = (.ok (), a')) (h₀ : I a) : I a' := by
  induction hs generalizing a with
  | nil =>
    cases h
    exact h₀
  | cons height hs ih =>
    simp only [replay, Exec.get_bind_eq_ok] at h
    split at h
    · cases h
      exact h₀
    · next hheight =>
      obtain ⟨_, a₁, hblock, hrest⟩ := Exec.bind_eq_ok.mp h
      apply ih hrest
      cases hsb : s.blocks[height]? with
      | some sb =>
        rw [hsb] at hblock
        exact hstep height sb a a₁ hsb (not_not.mp hheight) h₀ hblock
      | none =>
        rw [hsb] at hblock
        cases hblock
        exact h₀

omit [NodeCodec H] [RootScheme] [TxCodec H] in
/-- Loading an image replaces what it holds, after a look at its commitment. -/
lemma loadImage_eq_ok {snap : NodeSnapshot H} : a.loadImage snap = .ok a' ↔
    (a.restoredChain snap).stateCommitment = snap.appHash ∧ { a with
      chain := a.restoredChain snap
      poolNotes := snap.poolNotes
      poolNotesByAsset := snap.poolNotesByAsset
      receipts := a.receipts.restore snap.receipts
      validators := a.validators.restore snap.validators
      setHistory := [(snap.height + 1, a.validators.restore snap.validators)] } = a' := by
  unfold loadImage
  split_ifs with h
  · simp [h]
  · simp [not_not.mp h]

omit [NodeCodec H] [RootScheme] [TxCodec H] in
/-- A restored node has no image or one that loads. -/
lemma restoreImage_eq_ok {o : Option (NodeSnapshot H)} :
    restoreImage o a = (.ok (), a') ↔ o = none ∧ a = a' ∨
      ∃ snap, o = some snap ∧ a.loadImage snap = .ok a' := by
  cases o with
  | none => simp [restoreImage]
  | some snap =>
    simp [restoreImage]

/-- A restore loads the image, replays the log above it, and takes the floor from the log. -/
lemma restoreFromStore_eq_ok {s : NodeStore H} : restoreFromStore P s a = (.ok (), a') ↔
    ∃ a₁ a₂, restoreImage s.loadSnapshot a = (.ok (), a₁) ∧
      replay P s (s.blockHeights.filter fun h => a₁.chain.height < h) a₁ = (.ok (), a₂) ∧
      { a₂ with
        currentHeight := a₂.chain.height + 1
        historyMin := servableFrom s.blockHeights a₂.chain.height } = a' := by
  simp [restoreFromStore, Unique.exists_iff]

end HkApp

namespace HkNode

variable {P : NodeParams H} {boot : HkApp H} {n n' : HkNode H}

/-- A decided certificate is committed and persisted, or refused by the application. -/
lemma step_decided {cert : CommitCertificate H} {io : DiskIo}
    (h : step P boot n (.decided cert io) = some n') :
    (∃ sb a, HkApp.commit P cert n.app = (.ok sb, a) ∧ n' = persist P io sb ⟨a, n.store⟩) ∨
      ∃ e a, HkApp.commit P cert n.app = (.err e, a) ∧ n' = { n with app := a } := by
  simp only [step] at h
  rcases hc : HkApp.commit P cert n.app with ⟨sb | e | _, a⟩ <;> rw [hc] at h
  · cases h
    exact .inl ⟨sb, a, rfl, rfl⟩
  · cases h
    exact .inr ⟨e, a, rfl, rfl⟩
  · cases h

/-- At the first start nothing is restored. -/
lemma start_eq (P : NodeParams H) (boot : HkApp H) :
    start P boot = ⟨{ boot with
      currentHeight := boot.chain.height + 1, historyMin := boot.chain.height + 1 }, .new⟩ := by
  have hkeys : (NodeStore.new : NodeStore H).blockHeights = [] := by
    simp [NodeStore.new, NodeStore.blockHeights]
  have hsnap : (NodeStore.new : NodeStore H).loadSnapshot = none := rfl
  simp [start, HkApp.restoreFromStore, hkeys, hsnap, HkApp.restoreImage, HkApp.replay, bind,
    Exec.bind, pure, Exec.get, Exec.modify, HkApp.servableFrom, contiguousSuffixMin]

/-- A restarted node runs on what the restore returned. -/
lemma step_restart (h : step P boot n .restart = some n') :
    ∃ a, HkApp.restoreFromStore P n.store boot = (.ok (), a) ∧ n' = { n with app := a } := by
  simp only [step] at h
  rcases hr : HkApp.restoreFromStore P n.store boot with ⟨_ | _ | _, a⟩ <;> rw [hr] at h
  · cases h
    exact ⟨a, rfl, rfl⟩
  · cases h
  · cases h

/-- Everything a message can do: it only moves values under vote, a commit succeeds and is
persisted, an application fails, or the node starts again. -/
inductive Effect (P : NodeParams H) (boot : HkApp H) (n : HkNode H) : AppMsg H → HkNode H → Prop
  | quiet {msg : AppMsg H} {n' : HkNode H} (hstart : msg ≠ .restart)
      (hcommit : ∀ cert io, msg = .decided cert io → n.app.undecidedValue cert = none)
      (hstore : n'.store = n.store)
      (happ : n'.app = { n.app with
        streams := n'.app.streams
        undecided := n'.app.undecided
        currentHeight := n'.app.currentHeight }) : Effect P boot n msg n'
  | committed {cert : CommitCertificate H} {io : DiskIo} {sb : StoredBlock H} {a : HkApp H}
      (hcommit : HkApp.commit P cert n.app = (.ok sb, a)) :
      Effect P boot n (.decided cert io) (persist P io sb ⟨a, n.store⟩)
  | failed {cert : CommitCertificate H} {io : DiskIo} {value : HkValue H} {e : NodeError H}
      {a : HkApp H} (hcommit : HkApp.commit P cert n.app = (.err e, a))
      (hvalue : n.app.undecidedValue cert = some value)
      (happly : HkApp.applyBatchToChain P cert.height (NodeCodec.decodeBatch value.txs) true false
        n.app = (.err e, a)) :
      Effect P boot n (.decided cert io) { n with app := a }
  | restarted {a : HkApp H} (hrestore : HkApp.restoreFromStore P n.store boot = (.ok (), a)) :
      Effect P boot n .restart { n with app := a }

lemma effect_of_step {msg : AppMsg H} (h : step P boot n msg = some n') :
    Effect P boot n msg n' := by
  cases msg with
  | startedRound height round =>
    cases h
    exact .quiet nofun nofun rfl rfl
  | getValue height round payload =>
    cases h
    refine .quiet nofun nofun rfl ?_
    dsimp only
    unfold HkApp.getValue
    split
    · rfl
    · rfl
  | receivedProposalPart peer part =>
    cases h
    refine .quiet nofun nofun rfl ?_
    dsimp only
    simp only [HkApp.receivedProposalPart]
    rcases n.app.streams.insertPart peer part with ⟨_ | parts, m⟩
    · rfl
    · rfl
  | processSyncedValue height round proposer valueBytes =>
    cases h
    refine .quiet nofun nofun rfl ?_
    dsimp only
    unfold HkApp.processSyncedValue
    split
    · rfl
    · rfl
  | decided cert io =>
    obtain ⟨sb, a, hcommit, rfl⟩ | ⟨e, a, hcommit, rfl⟩ := step_decided h
    · exact .committed hcommit
    · obtain ⟨rfl, hnone⟩ | ⟨value, hvalue, happly⟩ := HkApp.commit_eq_err hcommit
      · refine .quiet nofun (fun cert' io' hmsg => ?_) rfl rfl
        cases hmsg
        exact hnone
      · exact .failed hcommit hvalue happly
  | restart =>
    obtain ⟨a, hrestore, rfl⟩ := step_restart h
    exact .restarted hrestore

/-! ### What persisting does -/

section Persist

variable {io : DiskIo} {sb : StoredBlock H}

omit [HashSuite H] [NodeCodec H] [RootScheme] [TxCodec H] [StateCodec H] in
/-- A retention pass deletes blocks of the log and nothing else. -/
lemma pruneBelow_eq (s : NodeStore H) (tip retain : ℕ) (io : DiskIo) :
    (s.pruneBelow tip retain io).2 =
      { s with blocks := (s.pruneBelow tip retain io).2.blocks } := by
  unfold NodeStore.pruneBelow
  split
  · rfl
  · rfl

omit [HashSuite H] [NodeCodec H] [RootScheme] [TxCodec H] [StateCodec H] in
lemma get_pruneBelow {s : NodeStore H} {tip retain h : ℕ} {b : StoredBlock H}
    (hb : (s.pruneBelow tip retain io).2.blocks[h]? = some b) : s.blocks[h]? = some b := by
  unfold NodeStore.pruneBelow at hb
  split at hb
  · exact hb
  · simp only [OrderedMap.get_filter, Option.filter_eq_some_iff] at hb
    exact hb.1

omit [NodeCodec H] [RootScheme] [TxCodec H] in
/-- Persisting changes the servable floor of the application and nothing else. -/
lemma persist_app (P : NodeParams H) (io : DiskIo) (sb : StoredBlock H) (n : HkNode H) :
    (persist P io sb n).app = { n.app with historyMin := (persist P io sb n).app.historyMin } := by
  have hsave : (n.saveBlock io sb).app =
      { n.app with historyMin := (n.saveBlock io sb).app.historyMin } := by
    unfold saveBlock
    split
    · rfl
    · rfl
  unfold persist
  dsimp only
  split
  · rw [pruneLog, saveSnapshot, hsave]
  · exact hsave

omit [NodeCodec H] [RootScheme] [TxCodec H] in
/-- Persisting writes blocks and, when it is due and the disk takes it, an image of the node. -/
lemma persist_store (P : NodeParams H) (io : DiskIo) (sb : StoredBlock H) (n : HkNode H) :
    (persist P io sb n).store = { n.store with
      blocks := (persist P io sb n).store.blocks
      snapshot := if sb.height % P.snapshotEvery = 0 ∧ io.saveSnapshot then
        some n.app.makeSnapshot else n.store.snapshot } := by
  have hsave : (n.saveBlock io sb).store =
        { n.store with blocks := (n.saveBlock io sb).store.blocks } ∧
      (n.saveBlock io sb).app.makeSnapshot = n.app.makeSnapshot := by
    unfold saveBlock
    split
    · exact ⟨rfl, rfl⟩
    · exact ⟨rfl, rfl⟩
  unfold persist
  dsimp only
  split
  · rw [pruneLog]
    dsimp only
    rw [pruneBelow_eq, saveSnapshot, hsave.2, hsave.1]
  · exact hsave.1

omit [NodeCodec H] [RootScheme] [TxCodec H] in
/-- The log holds what it held before or the block that is persisted. -/
lemma get_persist {n : HkNode H} {h : ℕ} {b : StoredBlock H}
    (hb : (persist P io sb n).store.blocks[h]? = some b) :
    h = sb.height ∧ b = sb ∨ n.store.blocks[h]? = some b := by
  have hsave : (n.saveBlock io sb).store.blocks[h]? = some b →
      h = sb.height ∧ b = sb ∨ n.store.blocks[h]? = some b := by
    intro hb
    unfold saveBlock at hb
    split at hb
    · simp only [NodeStore.saveBlock, OrderedMap.get_insert] at hb
      split at hb
      · next heq => exact .inl ⟨heq.symm, (Option.some.inj hb).symm⟩
      · exact .inr hb
    · exact .inr hb
  unfold persist at hb
  dsimp only at hb
  split at hb
  · exact hsave (get_pruneBelow (s := (n.saveBlock io sb).saveSnapshot.store) hb)
  · exact hsave hb

end Persist

end HkNode

end HashKinetics
