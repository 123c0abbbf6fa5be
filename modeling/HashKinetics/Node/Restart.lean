import HashKinetics.Node.SetHistory
import HashKinetics.Node.Receipts
import HashKinetics.Node.Aggregates

/-!
# A restarted node is the live one

A node that starts again loads its image and replays the log above it.  The live commit verified
aggregates, the replay installs the recorded verdicts; the live node kept its commitment at hand,
the replay computes it.  As long as every block is written, carries the bytes that its certificate
names and no failed commit leaves coverage behind, the node is at every moment the one that a
restart would bring back: the same chain, validator set, receipts and feeds.
-/

namespace HashKinetics

open Foundations

section

variable {H : Type} [LinearOrder H] [HashSuite H] [NodeCodec H] [RootScheme] [TxCodec H]
  [StateCodec H]

/-- The part of an application that images keep. -/
structure Kept (H : Type) [LinearOrder H] where
  chain : State H
  validators : HkValidatorSet H
  receipts : ReceiptLog H
  poolNotes : List (PoolNote H)
  poolNotesByAsset : OrderedMap H (List (PoolNote H))

namespace HkApp

variable {P : NodeParams H} {a b a' : HkApp H} {height : ℕ} {batch : Option (Batch H)}

def kept (a : HkApp H) : Kept H :=
  ⟨a.chain, a.validators, a.receipts, a.poolNotes, a.poolNotesByAsset⟩

/-- The cached commitment, if there is one, is that of the chain. -/
def HashTrue (a : HkApp H) : Prop := ∀ h ∈ a.lastAppHash, h = a.chain.stateCommitment

omit [NodeCodec H] [RootScheme] [TxCodec H] in
lemma HashTrue.ourHash_eq (h : a.HashTrue) : a.ourHash = a.chain.stateCommitment := by
  unfold ourHash
  cases hlast : a.lastAppHash with
  | none => rfl
  | some x => exact h x hlast

omit [HashSuite H] [NodeCodec H] [RootScheme] [TxCodec H] [StateCodec H] in
lemma kept_routeNotes (h : a.kept = b.kept) (e : SignedTx H × Receipt H) :
    (a.routeNotes e).kept = (b.routeNotes e).kept := by
  have hchain : a.chain = b.chain := congrArg Kept.chain h
  have hpush : ∀ key notes, (a.pushNotes key notes).kept = (b.pushNotes key notes).kept := by
    intro key notes
    cases a
    cases b
    simp only [kept, Kept.mk.injEq] at h
    obtain ⟨rfl, rfl, rfl, rfl, rfl⟩ := h
    cases key <;> rfl
  unfold routeNotes
  rw [hchain]
  split
  · split
    · exact hpush _ _
    · exact hpush _ _
    · exact h
  · exact h

omit [RootScheme] [TxCodec H] in
lemma kept_finished (h : a.kept = b.kept) (s : State H) (txs : List (SignedTx H))
    (receipts : List (Receipt H)) :
    (a.finished s txs receipts).kept = (b.finished s txs receipts).kept := by
  have hfold : ∀ (es : List (SignedTx H × Receipt H)) (a b : HkApp H), a.kept = b.kept →
      (es.foldl routeNotes a).kept = (es.foldl routeNotes b).kept := by
    intro es
    induction es with
    | nil => exact fun a b h => h
    | cons e es ih => exact fun a b h => ih _ _ (kept_routeNotes h e)
  apply hfold _ _ _
  cases a
  cases b
  simp only [kept, Kept.mk.injEq] at h
  obtain ⟨rfl, rfl, rfl, rfl, rfl⟩ := h
  rfl

omit [NodeCodec H] [TxCodec H] [StateCodec H] in
lemma kept_withCerts (h : a.kept = b.kept) (height : ℕ) (batch : Option (Batch H)) :
    (a.withCerts P height batch).kept = (b.withCerts P height batch).kept := by
  cases a
  cases b
  simp only [kept, Kept.mk.injEq] at h
  obtain ⟨rfl, rfl, rfl, rfl, rfl⟩ := h
  rfl

omit [NodeCodec H] [RootScheme] [TxCodec H] [StateCodec H] in
/-- The recorded verdict installs what the verification installed. -/
lemma coverageOf_recorded (P : NodeParams H) (batch : Option (Batch H)) (rec : Bool) :
    coverageOf P false (coverageOf P true rec batch).isSome batch =
      coverageOf P true rec batch := by
  cases batch with
  | none => rfl
  | some bt =>
    simp only [coverageOf, if_true, Bool.false_eq_true, if_false]
    by_cases hnone : bt.aggProof.isEmpty = true ∨ bt.uncovered.isEmpty = true
    · rw [if_pos hnone, if_pos hnone]
    · rw [if_neg hnone, if_neg hnone]
      cases P.agg with
      | none => rfl
      | some v =>
        by_cases haccept : v.accepts bt.aggProof bt.uncovered = true
        · simp [haccept]
        · simp [haccept]

omit [RootScheme] in
/-- A replayed block does what the live commit did. -/
lemma replay_of_live (hkept : a.kept = b.kept) (ha : a.HashTrue) (hb : b.HashTrue) {v : Bool}
    (h : applyBatchToChain P height batch true false a = (.ok v, a')) :
    ∃ b', applyBatchToChain P height batch false v b = (.ok v, b') ∧ a'.kept = b'.kept ∧
      a'.HashTrue ∧ b'.HashTrue := by
  obtain ⟨hdiv, rfl, receipts, s, hblock, rfl⟩ := applyBatchToChain_eq_ok.mp h
  have hchain : a.chain = b.chain := congrArg Kept.chain hkept
  refine ⟨b.finished s (txsOf batch) receipts, applyBatchToChain_eq_ok.mpr ⟨?_, ?_, receipts, s, ?_,
    rfl⟩, kept_finished hkept _ _ _, ?_, ?_⟩
  · rintro ⟨bt, hbt, hne⟩
    refine hdiv ⟨bt, hbt, ?_⟩
    rw [ha.ourHash_eq, hchain, ← hb.ourHash_eq]
    exact hne
  · rw [coverageOf_recorded]
  · rw [coverageOf_recorded, ← hchain]
    exact hblock
  · intro x hx
    rw [finished_lastAppHash, Option.mem_some_iff] at hx
    rw [finished_chain, hx]
  · intro x hx
    rw [finished_lastAppHash, Option.mem_some_iff] at hx
    rw [finished_chain, hx]

/-! ## Replaying one block more -/

variable {s s' : NodeStore H} {hs : List ℕ}

/-- The replay reads the log at the listed heights only. -/
lemma replay_congr (h : ∀ k ∈ hs, s.blocks[k]? = s'.blocks[k]?) :
    replay P s hs a = replay P s' hs a := by
  induction hs generalizing a with
  | nil => rfl
  | cons k hs ih =>
    have hrest : replay P s hs = replay P s' hs :=
      funext fun b => ih fun k' hk' => h k' (List.mem_cons_of_mem _ hk')
    simp only [replay, h k List.mem_cons_self, hrest]

lemma height_replayStored {o : Option (StoredBlock H)}
    (h : replayStored P height o a = (.ok (), a')) : a'.chain.height ≤ a.chain.height + 1 := by
  cases o with
  | none =>
    cases h
    exact Nat.le_succ _
  | some sb =>
    obtain ⟨-, v, a₁, happly, rfl⟩ := replayBlock_eq_ok.mp h
    obtain ⟨hnext, hheight⟩ := height_applyBatchToChain happly
    exact (hheight.trans hnext).le

lemma height_replay_le (h : replay P s hs a = (.ok (), a')) :
    a'.chain.height ≤ a.chain.height + hs.length := by
  induction hs generalizing a with
  | nil =>
    cases h
    exact le_rfl
  | cons k hs ih =>
    simp only [replay, Exec.get_bind_eq_ok] at h
    split at h
    · cases h
      exact Nat.le_add_right _ _
    · obtain ⟨_, a₁, hblock, hrest⟩ := Exec.bind_eq_ok.mp h
      have h₁ := height_replayStored hblock
      have h₂ := ih hrest
      rw [List.length_cons]
      omega

/-- A replay that went through all its heights goes on with the next one. -/
lemma replay_snoc (h : replay P s hs a = (.ok (), a'))
    (hall : a'.chain.height = a.chain.height + hs.length) {k : ℕ} (hk : k = a'.chain.height + 1) :
    replay P s (hs ++ [k]) a = replayStored P k s.blocks[k]? a' := by
  induction hs generalizing a with
  | nil =>
    cases h
    have hnext : ¬ k ≠ a'.chain.height + 1 := not_not.mpr hk
    change (if k ≠ a'.chain.height + 1 then (pure () : Exec (HkApp H) (NodeError H) Unit) else
      (replayStored P k s.blocks[k]? >>= fun _ => pure ())) a' = _
    rw [if_neg hnext]
    simp only [bind, Exec.bind, pure]
    rcases replayStored P k s.blocks[k]? a' with ⟨_ | _ | _, _⟩ <;> rfl
  | cons x hs ih =>
    simp only [replay, Exec.get_bind_eq_ok] at h
    split at h
    · cases h
      rw [List.length_cons] at hall
      omega
    · next hx =>
      obtain ⟨_, a₁, hblock, hrest⟩ := Exec.bind_eq_ok.mp h
      have h₁ := height_replayStored hblock
      have h₂ := height_replay_le hrest
      rw [List.length_cons] at hall
      have hgo := ih hrest (by omega)
      simp only [List.cons_append, replay, bind, Exec.bind, Exec.get, hx, if_false, hblock, hgo]

end HkApp

/-! ## The invariant -/

/-- A commit of the message reaches neither the log nor the image. -/
def AppMsg.Unsaved (P : NodeParams H) : AppMsg H → Prop
  | .decided cert io =>
    io.saveBlock = false ∧ ¬ (cert.height % P.snapshotEvery = 0 ∧ io.saveSnapshot = true)
  | _ => True

omit [HashSuite H] [NodeCodec H] [RootScheme] [TxCodec H] [StateCodec H] in
lemma State.SameConfig.of_settings {s t c : State H} (h : s.SameConfig c)
    (hset : ∃ height time cover, t.settings =
      { s.settings with height := height, time := time, aggCover := cover }) : t.SameConfig c := by
  obtain ⟨height, time, cover, hset⟩ := hset
  simp only [State.settings, State.frame, State.Frame.mk.injEq] at hset
  obtain ⟨-, -, hv, -, hmicro, hfrom, -, hasset, hpool, hmandate, hpay⟩ := hset
  exact ⟨hv.trans h.verifier, hmicro.trans h.feeMicro, hfrom.trans h.feeFrom,
    hasset.trans h.feeAsset, hpool.trans h.multiPoolFrom, hmandate.trans h.mandateAssetFrom,
    hpay.trans h.paywordCapFrom⟩

omit [NodeCodec H] [RootScheme] [TxCodec H] in
lemma HkApp.height_restoreImage {s : NodeStore H} {boot a : HkApp H}
    (h : HkApp.restoreImage s.loadSnapshot boot = (.ok (), a)) :
    a.chain.height = s.imageHeight boot := by
  rw [NodeStore.imageHeight]
  obtain ⟨hnone, rfl⟩ | ⟨snap, hsnap, hload⟩ := HkApp.restoreImage_eq_ok.mp h
  · rw [hnone]
    rfl
  · obtain ⟨-, rfl⟩ := HkApp.loadImage_eq_ok.mp hload
    rw [hsnap]
    rfl

namespace HkNode

variable {P : NodeParams H} {boot : HkApp H} {n n' : HkNode H} {a : HkApp H}
  {cert : CommitCertificate H} {sb : StoredBlock H}

/-- A restart would bring back what the node has: above the image the log holds every height up to
the tip and no other, and image and log lead to the same chain, set, receipts and feeds. -/
structure Resumes (P : NodeParams H) (boot : HkApp H) (n : HkNode H) : Prop where
  older : n.store.olderSnapshots = []
  le : n.store.imageHeight boot ≤ n.app.chain.height
  log : ∀ h, n.store.imageHeight boot < h →
    ((∃ sb, n.store.blocks[h]? = some sb) ↔ h ≤ n.app.chain.height)
  restored : ∃ a, HkApp.restoreFromStore P n.store boot = (.ok (), a) ∧ a.kept = n.app.kept ∧
    a.HashTrue
  hash : n.app.HashTrue
  config : n.app.chain.SameConfig boot.chain
  receipts : n.app.receipts.WellFormed
  cap : n.app.receipts.cap = boot.receipts.cap

omit [HashSuite H] [NodeCodec H] [RootScheme] [TxCodec H] [StateCodec H] in
/-- The heights a restart replays. -/
lemma heights_eq {s : NodeStore H} {base tip : ℕ}
    (hlog : ∀ h, base < h → ((∃ sb, s.blocks[h]? = some sb) ↔ h ≤ tip)) :
    (s.blockHeights.filter fun h => base < h) = List.range' (base + 1) (tip - base) := by
  refine OrderedMap.eq_range'_of_sorted ((OrderedMap.sorted_keys s.blocks).filter _) fun k => ?_
  rw [List.mem_filter, NodeStore.blockHeights, OrderedMap.mem_keys, decide_eq_true_eq]
  constructor
  · rintro ⟨hk, hlt⟩
    exact ⟨hlt, (hlog k hlt).mp hk⟩
  · rintro ⟨hlt, hk⟩
    exact ⟨(hlog k hlt).mpr hk, hlt⟩

/-- What a commit adds to the part that images keep. -/
lemma commit_kept (h : n.Resumes P boot) (hcommit : HkApp.commit P cert n.app = (.ok sb, a)) :
    sb.height = n.app.chain.height + 1 ∧ a.chain.height = sb.height ∧ a.HashTrue ∧
      a.chain.SameConfig boot.chain ∧ a.chain.aggCover = ∅ ∧ a.receipts.WellFormed ∧
      a.receipts.cap = boot.receipts.cap ∧
      ∀ b : HkApp H, b.kept = n.app.kept → b.HashTrue → sb.Bound →
        ∃ b', HkApp.replayBlock P sb.height sb b = (.ok (), b') ∧ b'.kept = a.kept ∧
          b'.HashTrue := by
  obtain ⟨value, a₁, -, happly, hsb, rfl⟩ := HkApp.commit_eq_ok.mp hcommit
  obtain ⟨hnext, hsettings⟩ := HkApp.settings_applyBatchToChain happly
  have hheight := congrArg State.Frame.height hsettings
  have hcover := congrArg State.Frame.aggCover hsettings
  have hsbh : sb.height = cert.height := congrArg StoredBlock.height hsb
  have hbytes : sb.valueBytes = value.txs := congrArg StoredBlock.valueBytes hsb
  obtain ⟨-, -, receipts, s, -, hfin⟩ := HkApp.applyBatchToChain_eq_ok.mp happly
  have hlog : a₁.receipts.WellFormed ∧ a₁.receipts.cap = n.app.receipts.cap := by
    rw [← hfin, HkApp.finished, HkApp.recorded, HkApp.foldl_routeNotes_eq]
    exact h.receipts.foldl_insert (fun e : SignedTx H × Receipt H => (txid e.1, e.2.detail)) _
  obtain ⟨-, -, -, hash₁, -⟩ := HkApp.replay_of_live (b := n.app) rfl h.hash h.hash happly
  refine ⟨hsbh.trans hnext, hheight.trans hsbh.symm, hash₁,
    h.config.of_settings ⟨_, _, _, hsettings⟩,
    hcover, hlog.1, hlog.2.trans h.cap, fun b hb hhash hbound => ?_⟩
  obtain ⟨b', hb', hkept, -, hash'⟩ := HkApp.replay_of_live hb.symm h.hash hhash happly
  refine ⟨b'.replayed P sb.height sb, HkApp.replayBlock_eq_ok.mpr ⟨hbound.symm, sb.aggValid, b', ?_,
    rfl⟩, ?_, hash'⟩
  · rw [hsbh, hbytes]
    exact hb'
  · have hcerts := HkApp.kept_withCerts (P := P) hkept.symm cert.height
      (NodeCodec.decodeBatch value.txs)
    rw [← hsbh, ← hbytes] at hcerts
    rw [← hsbh, ← hbytes]
    exact hcerts

omit [NodeCodec H] [RootScheme] [TxCodec H] in
/-- The log above an image holds the block that is persisted and what it held before. -/
lemma get_persist_above {io : DiskIo} (hsave : io.saveBlock = true) (hdue : ¬ (sb.height %
    P.snapshotEvery = 0 ∧ io.saveSnapshot)) (m : HkNode H) (h : ℕ) :
    (persist P io sb m).store.blocks[h]? = if sb.height =
      h then some sb else m.store.blocks[h]? := by
  simp only [persist, saveBlock, hsave, if_true, hdue, if_false, NodeStore.saveBlock,
    OrderedMap.get_insert]

/-- A restart reads the image and the listed heights of the log. -/
lemma restored_of_image {s s' : NodeStore H} {b b₁ b₂ : HkApp H} {hs : List ℕ}
    (himage : HkApp.restoreImage s.loadSnapshot b = (.ok (), b₁))
    (hsnap : s'.loadSnapshot = s.loadSnapshot)
    (hheights : (s'.blockHeights.filter fun h => b₁.chain.height < h) = hs)
    (hreplay : HkApp.replay P s' hs b₁ = (.ok (), b₂)) :
    ∃ a, HkApp.restoreFromStore P s' b = (.ok (), a) ∧ a.kept = b₂.kept ∧
      (b₂.HashTrue → a.HashTrue) := by
  refine ⟨_, HkApp.restoreFromStore_eq_ok.mpr ⟨b₁, b₂, hsnap ▸ himage, hheights ▸ hreplay, rfl⟩,
    rfl, fun h => h⟩

/-- A commit that writes its block and no image: a restart replays one block more. -/
lemma Resumes.committed (h : n.Resumes P boot) (hcommit : HkApp.commit P cert n.app = (.ok sb, a))
    (hbound : sb.Bound) {io : DiskIo} (hsave : io.saveBlock = true)
    (hdue : ¬ (sb.height % P.snapshotEvery = 0 ∧ io.saveSnapshot)) :
    (persist P io sb ⟨a, n.store⟩).Resumes P boot := by
  obtain ⟨hnext, hheight, hash, hconfig, -, hreceipts, hcap, hagain⟩ := commit_kept h hcommit
  have hstore := persist_store P io sb ⟨a, n.store⟩
  rw [if_neg hdue] at hstore
  have hget := get_persist_above hsave hdue ⟨a, n.store⟩
  have happ := persist_app P io sb ⟨a, n.store⟩
  generalize persist P io sb ⟨a, n.store⟩ = n' at hstore hget happ
  have holder : n'.store.olderSnapshots = [] := by rw [hstore]; exact h.older
  have hload : n'.store.loadSnapshot = n.store.loadSnapshot := by
    rw [NodeStore.loadSnapshot_of_older holder, NodeStore.loadSnapshot_of_older h.older, hstore]
  have himg : n'.store.imageHeight boot = n.store.imageHeight boot := by
    rw [NodeStore.imageHeight, hload, NodeStore.imageHeight]
  have htip : n'.app.chain.height = n.app.chain.height + 1 := by
    rw [happ]
    exact hheight.trans hnext
  have hkept : n'.app.kept = a.kept := by rw [happ]; rfl
  have hle := h.le
  have hlog : ∀ k, n'.store.imageHeight boot < k →
      ((∃ b, n'.store.blocks[k]? = some b) ↔ k ≤ n'.app.chain.height) := by
    intro k hk
    rw [hget k, htip]
    split_ifs with heq
    · simp only [Option.some.injEq, exists_eq', true_iff]
      omega
    · rw [h.log k (himg ▸ hk)]
      omega
  refine ⟨holder, by omega, hlog, ?_, ?_, ?_, ?_, ?_⟩
  · obtain ⟨r, hr, hrkept, hrhash⟩ := h.restored
    obtain ⟨b₁, b₂, himage, hreplay, rfl⟩ := HkApp.restoreFromStore_eq_ok.mp hr
    have hbase := HkApp.height_restoreImage himage
    rw [hbase, heights_eq h.log] at hreplay
    have hb₂ : b₂.chain.height = n.app.chain.height :=
      congrArg (fun k : Kept H => k.chain.height) hrkept
    -- one height more
    have hheights : (n'.store.blockHeights.filter fun k => b₁.chain.height < k) =
        List.range' (n.store.imageHeight boot + 1)
          (n.app.chain.height - n.store.imageHeight boot) ++ [sb.height] := by
      have hmore : n'.app.chain.height - n'.store.imageHeight boot =
          n.app.chain.height - n.store.imageHeight boot + 1 := by omega
      have hlast : n.store.imageHeight boot + 1 + 1 *
          (n.app.chain.height - n.store.imageHeight boot) = sb.height := by omega
      rw [hbase, ← himg, heights_eq hlog, hmore, himg, List.range'_concat, hlast]
    have hsame : HkApp.replay P n'.store (List.range' (n.store.imageHeight boot + 1)
        (n.app.chain.height - n.store.imageHeight boot)) b₁ = (.ok (), b₂) := by
      rw [← hreplay]
      refine HkApp.replay_congr fun k hk => ?_
      rw [List.mem_range'_1] at hk
      rw [hget k, if_neg (by omega)]
    obtain ⟨b₃, hb₃, hkept₃, hhash₃⟩ := hagain b₂ hrkept hrhash hbound
    have hfull : HkApp.replay P n'.store (List.range' (n.store.imageHeight boot + 1)
        (n.app.chain.height - n.store.imageHeight boot) ++ [sb.height]) b₁ = (.ok (), b₃) := by
      rw [HkApp.replay_snoc hsame (by rw [hbase, List.length_range']; omega) (by omega), hget,
        if_pos rfl]
      exact hb₃
    obtain ⟨r', hr', hrkept', hrhash'⟩ := restored_of_image himage hload hheights hfull
    exact ⟨r', hr', hrkept'.trans (hkept₃.trans hkept.symm), hrhash' hhash₃⟩
  · rw [happ]; exact hash
  · rw [happ]; exact hconfig
  · rw [happ]; exact hreceipts
  · rw [happ]; exact hcap

omit [NodeCodec H] [RootScheme] [TxCodec H] in
/-- An image loads back to the part of the application that it keeps. -/
lemma restoreImage_makeSnapshot {chain : State H} (validators : HkValidatorSet H)
    (hcover : a.chain.aggCover = ∅) (hconfig : a.chain.SameConfig chain)
    (hreceipts : a.receipts.WellFormed) (hcap : a.receipts.cap = 4096) :
    ∃ r, HkApp.restoreImage (some a.makeSnapshot) (.fresh chain validators) = (.ok (), r) ∧
      r.kept = a.kept ∧ r.HashTrue := by
  have hchain : (HkApp.fresh chain validators).restoredChain a.makeSnapshot = a.chain :=
    State.fromSnapshot_toSnapshot hcover hconfig
  have hlog : (HkApp.fresh chain validators).receipts.restore a.makeSnapshot.receipts =
      a.receipts := by
    have hback := ReceiptLog.restore_entries hreceipts
    rw [hcap] at hback
    exact hback
  have hset : (HkApp.fresh chain validators).validators.restore a.makeSnapshot.validators =
      a.validators := HkValidatorSet.restore_toSnapshot _ _
  refine ⟨_, HkApp.restoreImage_eq_ok.mpr (.inr ⟨_, rfl, HkApp.loadImage_eq_ok.mpr ⟨?_, rfl⟩⟩), ?_,
    nofun⟩
  · rw [hchain]
    rfl
  · simp only [HkApp.kept, hchain, hlog, hset]
    rfl

/-- A commit that writes an image: a restart loads it and finds nothing above it. -/
lemma Resumes.imaged {chain : State H} {validators : HkValidatorSet H}
    (h : n.Resumes P (.fresh chain validators))
    (hcommit : HkApp.commit P cert n.app = (.ok sb, a)) {io : DiskIo}
    (hdue : sb.height % P.snapshotEvery = 0 ∧ io.saveSnapshot) :
    (persist P io sb ⟨a, n.store⟩).Resumes P (.fresh chain validators) := by
  obtain ⟨hnext, hheight, hash, hconfig, hcover, hreceipts, hcap, -⟩ := commit_kept h hcommit
  have hstore := persist_store P io sb ⟨a, n.store⟩
  rw [if_pos hdue] at hstore
  have hget : ∀ k b, (persist P io sb ⟨a, n.store⟩).store.blocks[k]? = some b →
      k = sb.height ∧ b = sb ∨ n.store.blocks[k]? = some b := fun k b hb =>
    get_persist (n := ⟨a, n.store⟩) hb
  have happ := persist_app P io sb ⟨a, n.store⟩
  generalize persist P io sb ⟨a, n.store⟩ = n' at hstore hget happ
  have holder : n'.store.olderSnapshots = [] := by rw [hstore]; exact h.older
  have hload : n'.store.loadSnapshot = some a.makeSnapshot := by
    rw [NodeStore.loadSnapshot_of_older holder, hstore]
  have himg : n'.store.imageHeight (.fresh chain validators) = a.chain.height := by
    rw [NodeStore.imageHeight, hload]
    rfl
  have htip : n'.app.chain.height = a.chain.height := by rw [happ]
  have hlog : ∀ k, n'.store.imageHeight (.fresh chain validators) < k →
      ((∃ b, n'.store.blocks[k]? = some b) ↔ k ≤ n'.app.chain.height) := by
    intro k hk
    have hle := h.le
    constructor
    · rintro ⟨b, hb⟩
      obtain ⟨rfl, -⟩ | hold := hget k b hb
      · omega
      · have := (h.log k (by omega)).mp ⟨b, hold⟩
        omega
    · intro hk'
      omega
  refine ⟨holder, by omega, hlog, ?_, ?_, ?_, ?_, ?_⟩
  · obtain ⟨r, hr, hkept, hhash⟩ :=
      restoreImage_makeSnapshot validators hcover hconfig hreceipts hcap
    have hbase : r.chain.height = a.chain.height :=
      congrArg (fun k : Kept H => k.chain.height) hkept
    have hnone : (n'.store.blockHeights.filter fun k => r.chain.height < k) = [] := by
      have hlen : n'.app.chain.height - n'.store.imageHeight (.fresh chain validators) =
        0 := by omega
      rw [hbase, ← himg, heights_eq hlog, hlen, List.range'_zero]
    obtain ⟨r', hr', hkept', hhash'⟩ := restored_of_image (P := P) (s := n'.store)
      (hload ▸ hr) rfl hnone rfl
    refine ⟨r', hr', hkept'.trans (hkept.trans ?_), hhash' hhash⟩
    rw [happ]
    rfl
  · rw [happ]; exact hash
  · rw [happ]; exact hconfig
  · rw [happ]; exact hreceipts
  · rw [happ]; exact hcap

/-! ## Steps and runs -/

/-- What a step must not do for a restart to bring the node back: a synced value has the id of its
content, a committed block is written, and an aggregate that is accepted belongs to a batch for the
next height at a time that is not past. -/
structure Faithful (P : NodeParams H) (n : HkNode H) (msg : AppMsg H) : Prop where
  sync : msg.SyncBound
  saved : ∀ cert io sb a, msg = .decided cert io → HkApp.commit P cert n.app = (.ok sb, a) →
    io.saveBlock = true
  covered : n.CoversInOrder P msg

/-- The invariant reads the disk, the kept part and the cached commitment. -/
lemma Resumes.congr (h : n.Resumes P boot) (hstore : n'.store = n.store)
    (hkept : n'.app.kept = n.app.kept) (hhash : n'.app.HashTrue) : n'.Resumes P boot := by
  have hchain : n'.app.chain = n.app.chain := congrArg Kept.chain hkept
  have hreceipts : n'.app.receipts = n.app.receipts := congrArg Kept.receipts hkept
  refine ⟨?_, ?_, ?_, ?_, hhash, ?_, ?_, ?_⟩
  · rw [hstore]; exact h.older
  · rw [hstore, hchain]; exact h.le
  · rw [hstore, hchain]; exact h.log
  · rw [hstore, hkept]; exact h.restored
  · rw [hchain]; exact h.config
  · rw [hreceipts]; exact h.receipts
  · rw [hreceipts]; exact h.cap

lemma Resumes.step {chain : State H} {validators : HkValidatorSet H} {msg : AppMsg H}
    (h : n.Resumes P (.fresh chain validators)) (hbound : n.ContentBound) (hmsg : n.Faithful P msg)
    (hstep : step P (.fresh chain validators) n msg = some n') :
    n'.Resumes P (.fresh chain validators) := by
  cases effect_of_step hstep with
  | quiet _ _ hstore happ =>
    have hkept : n'.app.kept = n.app.kept := by
      rw [happ]
      rfl
    apply h.congr hstore hkept
    rw [happ]
    exact h.hash
  | @committed cert io sb a hcommit =>
    obtain ⟨hsb, -⟩ := bound_of_commit hbound.undecided hcommit
    by_cases hdue : sb.height % P.snapshotEvery = 0 ∧ io.saveSnapshot
    · exact h.imaged hcommit hdue
    · exact h.committed hcommit hsb (hmsg.saved cert io sb a rfl hcommit) hdue
  | @failed cert io value e a hcommit hvalue happly =>
    obtain rfl := HkApp.chain_of_failed (hmsg.covered cert io value rfl hvalue) happly
    exact h.congr rfl rfl nofun
  | restarted hrestore =>
    obtain ⟨r, hr, hkept, hhash⟩ := h.restored
    rw [hrestore] at hr
    cases hr
    exact h.congr rfl hkept hhash

lemma resumes_start (P : NodeParams H) (chain : State H) (validators : HkValidatorSet H) :
    (start P (.fresh chain validators)).Resumes P (.fresh chain validators) := by
  have hrestored : HkApp.restoreFromStore P .new (.fresh chain validators) =
      (.ok (), (start P (.fresh chain validators)).app) := by
    have hkeys : (NodeStore.new : NodeStore H).blockHeights = [] := by
      simp [NodeStore.new, NodeStore.blockHeights]
    refine HkApp.restoreFromStore_eq_ok.mpr ⟨.fresh chain validators, .fresh chain validators, rfl,
      ?_, ?_⟩
    · rw [hkeys]
      rfl
    · rw [start_eq]
      simp [hkeys, HkApp.servableFrom, contiguousSuffixMin]
  rw [start_eq] at hrestored ⊢
  refine ⟨rfl, le_rfl, fun k hk => ?_, ⟨_, hrestored, rfl, fun _ h => (by cases h)⟩,
    fun _ h => (by cases h), ⟨rfl, rfl, rfl, rfl, rfl, rfl, rfl⟩, ReceiptLog.wellFormed_new _, rfl⟩
  have hk' : chain.height < k := hk
  simp only [NodeStore.new, HkApp.fresh, Std.ExtTreeMap.getElem?_empty, reduceCtorEq, exists_false,
    false_iff, not_le]
  exact hk'

lemma store_of_unsaved {msg : AppMsg H} (hmsg : msg.Unsaved P)
    (hstep : step P boot n msg = some n') : n'.store = n.store := by
  cases effect_of_step hstep with
  | quiet _ _ hstore _ => exact hstore
  | @committed cert io sb a hcommit =>
    obtain ⟨value, a₁, -, -, hsb, -⟩ := HkApp.commit_eq_ok.mp hcommit
    have hheight : sb.height = cert.height := congrArg StoredBlock.height hsb
    simp only [persist, saveBlock, hmsg.1, Bool.false_eq_true, if_false]
    rw [if_neg (hheight ▸ hmsg.2)]
  | failed => rfl
  | restarted => rfl

/-- **A restart equals the live node.**  Take any run of a node in which every synced value comes
with the id of its content, every committed block is written and every accepted aggregate belongs to
a batch for the next height at a time that is not past; after it, let commits come that reach
neither the log nor the image.  Then resuming from disk gives what the live node had after the last
written block: the same chain and commitment, validator set, tip, receipts and feeds.  And the block
that is committed next gets the same receipts when it is replayed. -/
theorem restoreFromStore_eq_live (P : NodeParams H) (chain : State H)
    (validators : HkValidatorSet H)
    {msgs more : List (AppMsg H)} {n n' : HkNode H} (hrun : Run P (.fresh chain validators) msgs n)
    (hcond : Path.Along (StepOf (HkNode.step P (.fresh chain validators)))
      (start P (.fresh chain validators)) msgs (Faithful P))
    (hmore : Path (StepOf (HkNode.step P (.fresh chain validators))) n more n')
    (hlost : ∀ msg ∈ more, msg.Unsaved P) :
    ∃ a, HkApp.restoreFromStore P n'.store (.fresh chain validators) = (.ok (), a) ∧
      a.chain = n.app.chain ∧ a.chain.stateCommitment = n.app.chain.stateCommitment ∧
      a.validators = n.app.validators ∧ a.currentHeight = n.app.chain.height + 1 ∧
      a.receipts = n.app.receipts ∧ a.feed = n.app.feed ∧
      ∀ cert sb live, HkApp.commit P cert n.app = (.ok sb, live) →
        ∃ receipts, HkApp.blockOf P cert.height (NodeCodec.decodeBatch sb.valueBytes)
            (n.app.chain.coveredBy
              (HkApp.coverageOf P true false (NodeCodec.decodeBatch sb.valueBytes)))
              = (.ok receipts, live.chain) ∧
          HkApp.blockOf P cert.height (NodeCodec.decodeBatch sb.valueBytes)
            (a.chain.coveredBy
              (HkApp.coverageOf P false sb.aggValid (NodeCodec.decodeBatch sb.valueBytes)))
              = (.ok receipts, live.chain) := by
  obtain ⟨-, hres⟩ := hrun.invariant_along
    (I := fun _ n => n.ContentBound ∧ n.Resumes P (.fresh chain validators)) hcond
    ⟨contentBound_start P chain validators, resumes_start P chain validators⟩
    fun _ msg s s' hs hmsg hstep =>
      ⟨hs.1.step (undecidedBound_fresh chain validators) hmsg.sync hstep,
        hs.2.step hs.1 hmsg hstep⟩
  have hstore : n'.store = n.store :=
    hmore.invariant (I := fun m => m.store = n.store) rfl fun s msg s' hmsg hs hstep =>
      (store_of_unsaved (hlost msg hmsg) hstep).trans hs
  obtain ⟨a, ha, hkept, -⟩ := hres.restored
  have hchain : a.chain = n.app.chain := congrArg Kept.chain hkept
  refine ⟨a, hstore ▸ ha, hchain, congrArg State.stateCommitment hchain,
    congrArg Kept.validators hkept, ?_, congrArg Kept.receipts hkept, ?_, ?_⟩
  · obtain ⟨a₁, a₂, -, -, rfl⟩ := HkApp.restoreFromStore_eq_ok.mp ha
    exact congrArg (fun s : State H => s.height + 1) hchain
  · have hlegacy : a.poolNotes = n.app.poolNotes := congrArg Kept.poolNotes hkept
    have hasset : a.poolNotesByAsset = n.app.poolNotesByAsset :=
      congrArg Kept.poolNotesByAsset hkept
    funext key
    cases key with
    | legacy => exact hlegacy
    | asset x => simp only [HkApp.feed, hasset]
  · intro cert sb live hcommit
    obtain ⟨value, a₁, -, happly, hsb, rfl⟩ := HkApp.commit_eq_ok.mp hcommit
    have hbytes : sb.valueBytes = value.txs := congrArg StoredBlock.valueBytes hsb
    obtain ⟨-, hvalid, receipts, s, hblock, hfin⟩ := HkApp.applyBatchToChain_eq_ok.mp happly
    have hlive : ((a₁.withCerts P cert.height (NodeCodec.decodeBatch value.txs)).settled P cert
        value).chain = s := by
      rw [← hfin]
      exact HkApp.finished_chain ..
    rw [hbytes, hlive, hchain]
    refine ⟨receipts, hblock, ?_⟩
    rw [← hvalid, HkApp.coverageOf_recorded]
    exact hblock

/-- A decided batch of verified transactions that continues the chain is applied with its verdicts
at hand, where no aggregates are verified. -/
lemma step_decided_of_verified {P : NodeParams H} (boot : HkApp H) {n : HkNode H}
    {cert : CommitCertificate H} {value : HkValue H} {b : Batch H} (io : DiskIo)
    (hagg : P.agg = none) (hvalue : n.app.undecidedValue cert = some value)
    (hbatch : NodeCodec.decodeBatch value.txs = some b) (hagrees : ¬ n.app.Diverges (some b))
    (hverified : b.txs.map State.verifyEnvelope = b.txs.map fun _ => true)
    (hok : (State.applyBlockVerified cert.height (HkApp.blockTime P cert.height) b.txs
      (some (b.txs.map fun _ => true)) n.app.chain).1.okAnd (fun _ => true) = true) :
    ∃ n', step P boot n (.decided cert io) = some n' ∧
      n'.app.chain = (State.applyBlockVerified cert.height (HkApp.blockTime P cert.height) b.txs
        (some (b.txs.map fun _ => true)) n.app.chain).2 ∧
      (io.saveSnapshot = false → n'.store.snapshot = n.store.snapshot) := by
  obtain ⟨receipts, -, hblock⟩ := Exec.exists_of_okAnd hok
  have happly : HkApp.applyBatchToChain P cert.height (NodeCodec.decodeBatch value.txs) true false
      n.app = (.ok false, n.app.finished (State.applyBlockVerified cert.height
        (HkApp.blockTime P cert.height) b.txs (some (b.txs.map fun _ => true)) n.app.chain).2
          b.txs receipts) := by
    rw [hbatch]
    refine HkApp.applyBatchToChain_eq_ok.mpr ⟨hagrees, ?_, receipts, _, ?_, rfl⟩
    · rw [HkApp.coverageOf_of_agg hagg]
      rfl
    · rw [HkApp.coverageOf_of_agg hagg, HkApp.blockOf_of_verified hverified]
      exact hblock
  obtain ⟨a, hchain, hcommit⟩ : ∃ a, a.chain = (State.applyBlockVerified cert.height
      (HkApp.blockTime P cert.height) b.txs (some (b.txs.map fun _ => true)) n.app.chain).2 ∧
        HkApp.commit P cert n.app = (.ok ⟨cert.height, value.txs, cert, false⟩, a) :=
    ⟨_, HkApp.finished_chain .., HkApp.commit_eq_ok.mpr ⟨value, _, hvalue, happly, rfl, rfl⟩⟩
  refine ⟨persist P io ⟨cert.height, value.txs, cert, false⟩ ⟨a, n.store⟩, ?_, ?_, fun hnone => ?_⟩
  · simp only [step, hcommit]
  · rw [persist_app]
    exact hchain
  · rw [persist_store]
    exact if_neg (by simp [hnone])

end HkNode

end

/-! ## A block that no restart replays -/

namespace Concrete

/-- A block whose bytes are not those of its certificate is committed and written; the next start
refuses it. -/
theorem firstBlock_otherBatch_lost : ∃ n,
    HkNode.Run nodeParams nodeBoot (firstBlock otherBatch) n ∧ n.app.chain.height = 1 ∧
      (∀ msg ∈ firstBlock otherBatch, ∀ cert io, msg = .decided cert io → io.saveBlock = true) ∧
      ∀ a, HkApp.restoreFromStore nodeParams n.store nodeBoot ≠ (.ok (), a) := by
  obtain ⟨n, hn, hprop⟩ := (Option.any_eq_true _ _).mp
    (show (nodeAfter (firstBlock otherBatch)).any (fun n => n.app.chain.height = 1 ∧
      (HkApp.restoreFromStore nodeParams n.store nodeBoot).1 =
        .err (.corruptHistory 1)) = true by decide +kernel)
  obtain ⟨hheight, hrestore⟩ := of_decide_eq_true hprop
  refine ⟨n, path_of_foldlM hn, hheight, ?_, fun a ha => ?_⟩
  · intro msg hmsg cert io heq
    simp only [firstBlock, List.mem_cons, List.not_mem_nil, or_false] at hmsg
    obtain rfl | rfl := hmsg
    · cases heq
    · cases heq
      rfl
  · rw [ha] at hrestore
    cases hrestore

/-- The node takes an image after every block that it is told to. -/
def imageParams : NodeParams Digest := { nodeParams with snapshotEvery := 1 }

/-- The state after an empty block. -/
def afterEmpty : State Digest :=
  (State.applyBlockVerified 1 (HkApp.blockTime imageParams 1) [] (some []) shieldChain).2

/-- A transfer on that state. -/
def transferBatch : Batch Digest :=
  ⟨⟨[], []⟩, afterEmpty.stateCommitment, [signedDigest [1] 1 0 (.transfer 2 7 4)], []⟩

/-- Byte strings are the batches of the transfer, but zero is the empty batch on the genesis state. -/
local instance transferCodec : NodeCodec Digest where
  decodeBatch bytes :=
    some (if bytes = [0] then ⟨⟨[], []⟩, shieldChain.stateCommitment, [], []⟩ else transferBatch)
  decodeValue _ := none
  txJson tx := (digestTxCode tx.payload ++ [tx.sender.val, tx.nonce]).flatMap leBytes

/-- The node builds a value for a height, and the engine decides on it; the block is written, and an
image perhaps. -/
def ownBlock (height : ℕ) (payload : List UInt8) (image : Bool) : List (AppMsg Digest) :=
  [.getValue height (some 0) payload,
    .decided ⟨height, some 0, (HkValue.new payload : HkValue Digest).id⟩
      ⟨true, image, [], [], false⟩]

/-- An empty block, of which an image is taken, and a block with the transfer. -/
def imagedRun : List (AppMsg Digest) := ownBlock 1 [0] true ++ ownBlock 2 [1] false

/-- What evaluation shows of the first block: an image of it is taken, and the transfer is accepted
on it. -/
lemma imagedRun_runs : ((ownBlock 1 [0] true).foldlM
    (HkNode.step imageParams (.fresh shieldChain nodeSet))
    (.start imageParams (.fresh shieldChain nodeSet))).any (fun n =>
      n.store.snapshot.map (·.height) = some 1 ∧
      (n.app.getValue imageParams 2 (some 0) [1]).undecidedValue
        ⟨2, some 0, (HkValue.new [1] : HkValue Digest).id⟩ = some (.new [1]) ∧
      ¬ (n.app.getValue imageParams 2 (some 0) [1]).Diverges (some transferBatch) ∧
      (State.applyBlockVerified 2 (HkApp.blockTime imageParams 2) transferBatch.txs (some [true])
        n.app.chain).1.okAnd (fun _ => true) = true ∧
      (State.applyBlockVerified 2 (HkApp.blockTime imageParams 2) transferBatch.txs (some [true])
        n.app.chain).2.height = 2 ∧
      (State.applyBlockVerified 2 (HkApp.blockTime imageParams 2) transferBatch.txs (some [true])
        n.app.chain).2.balance 2 7 = 4) = true := by
  decide +kernel

/-- The transfer comes back from the image of the first block and the replay of the second. -/
theorem firstBlock_restored : ∃ n a,
    HkNode.Run imageParams (.fresh shieldChain nodeSet) imagedRun n ∧
      n.store.snapshot.map (·.height) = some 1 ∧ n.app.chain.height = 2 ∧
      n.app.chain.balance 2 7 = 4 ∧
      HkApp.restoreFromStore imageParams n.store (.fresh shieldChain nodeSet) = (.ok (), a) ∧
      a.chain = n.app.chain ∧ a.currentHeight = 3 := by
  obtain ⟨n₁, hn₁, hprop⟩ := (Option.any_eq_true _ _).mp imagedRun_runs
  obtain ⟨himage, hvalue, hagrees, hok, hheight, hbalance⟩ := of_decide_eq_true hprop
  have hverified : transferBatch.txs.map State.verifyEnvelope =
      transferBatch.txs.map fun _ => true := by
    simp only [transferBatch, List.map_cons, List.map_nil, verifyEnvelope_signedDigest]
  have hbuilt : HkNode.step imageParams (.fresh shieldChain nodeSet) n₁ (.getValue 2 (some 0) [1]) =
      some { n₁ with app := n₁.app.getValue imageParams 2 (some 0) [1] } := rfl
  have hchain : (n₁.app.getValue imageParams 2 (some 0) [1]).chain = n₁.app.chain := by
    unfold HkApp.getValue
    split
    · rfl
    · rfl
  have hdecode : NodeCodec.decodeBatch (HkValue.new [1] : HkValue Digest).txs =
      some transferBatch := rfl
  rw [← hchain] at hok
  obtain ⟨n, hdecided, hn, hstore⟩ := HkNode.step_decided_of_verified (P := imageParams)
    (n := { n₁ with app := n₁.app.getValue imageParams 2 (some 0) [1] })
    (.fresh shieldChain nodeSet) ⟨true, false, [], [], false⟩ rfl hvalue hdecode hagrees hverified
    hok
  have hrun : HkNode.Run imageParams (.fresh shieldChain nodeSet) imagedRun n :=
    (path_of_foldlM hn₁).append (.cons hbuilt (.single hdecided))
  have hcond : Path.Along (StepOf (HkNode.step imageParams (.fresh shieldChain nodeSet)))
      (.start imageParams (.fresh shieldChain nodeSet)) imagedRun
      (HkNode.Faithful imageParams) := by
    refine Path.Along.of_forall_mem fun msg hmsg s => ?_
    have hcovers : s.CoversInOrder imageParams msg := by
      intro cert io value _ _ _ hcover
      rw [HkApp.coverageOf_of_agg (P := imageParams) rfl] at hcover
      cases hcover
    simp only [imagedRun, ownBlock, List.cons_append, List.nil_append, List.mem_cons,
      List.not_mem_nil, or_false] at hmsg
    obtain rfl | rfl | rfl | rfl := hmsg
    · exact ⟨trivial, fun _ _ _ _ heq => (by cases heq), hcovers⟩
    · exact ⟨trivial, fun _ _ _ _ heq _ => (by cases heq; rfl), hcovers⟩
    · exact ⟨trivial, fun _ _ _ _ heq => (by cases heq), hcovers⟩
    · exact ⟨trivial, fun _ _ _ _ heq _ => (by cases heq; rfl), hcovers⟩
  obtain ⟨a, ha, hlive, -, -, htip, -⟩ :=
    HkNode.restoreFromStore_eq_live imageParams shieldChain nodeSet hrun hcond .nil
      fun _ hmem => (by cases hmem)
  rw [hchain] at hn
  have hheight' : n.app.chain.height = 2 := by
    rw [hn]
    exact hheight
  refine ⟨n, a, hrun, ?_, hheight', ?_, ha, hlive, by omega⟩
  · rw [hstore rfl]
    exact himage
  · rw [hn]
    exact hbalance

end Concrete

end HashKinetics
