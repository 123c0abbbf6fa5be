import HashKinetics.Node.Serving

/-!
# The history of the validator set

Certificates of old heights are verified against the set that signed them.  A node keeps the sets
with the heights they are in force from: the genesis set or the set of the image it started from,
and one entry whenever the certificates of a block changed the set.  Here a run carries along the
blocks that the chain of the node is made of, and the set at a height is the genesis set folded
through the certificates of the blocks below it.
-/

namespace HashKinetics

open Foundations

section

variable {H : Type} [LinearOrder H] [HashSuite H] [NodeCodec H] [RootScheme] [TxCodec H]
  [StateCodec H]

/-! ## The lookup -/

namespace HkApp

variable {P : NodeParams H} {a a' : HkApp H} {height : ℕ}

/-- The first height the history knows the set of. -/
def historyBase (a : HkApp H) : ℕ := (a.setHistory.head?.map Prod.fst).getD 0

omit [HashSuite H] [NodeCodec H] [RootScheme] [TxCodec H] [StateCodec H] in
lemma validatorSetAt_withSet (a : HkApp H) (height h : ℕ) (anyApplied : Bool)
    (set : HkValidatorSet H) :
    (a.withSet height anyApplied set).validatorSetAt h =
      if anyApplied = true ∧ height < h then some set else a.validatorSetAt h := by
  unfold validatorSetAt withSet
  cases anyApplied with
  | false => simp
  | true =>
    simp only [if_true, List.reverse_append, List.reverse_singleton, List.singleton_append,
      List.find?_cons, true_and]
    by_cases hle : height + 1 ≤ h
    · simp [hle, Nat.lt_of_succ_le hle]
    · have hlt : ¬ height < h := hle
      simp [hle, hlt]

/-- From the given height on, the history answers with the current set. -/
def CurrentAbove (a : HkApp H) (height : ℕ) : Prop :=
  ∀ h, height < h → a.validatorSetAt h = some a.validators

omit [HashSuite H] [NodeCodec H] [RootScheme] [TxCodec H] [StateCodec H] in
lemma CurrentAbove.withSet (h : a.CurrentAbove height) {anyApplied : Bool} {set : HkValidatorSet H}
    (hsame : anyApplied = false → set = a.validators) :
    (a.withSet height anyApplied set).CurrentAbove height := by
  intro k hk
  rw [validatorSetAt_withSet]
  split_ifs with hany
  · rfl
  · have hno : anyApplied = false := by
      simpa [hk] using hany
    rw [h k hk]
    exact congrArg some (hsame hno).symm

omit [NodeCodec H] [TxCodec H] [StateCodec H] in
lemma CurrentAbove.withCerts (h : a.CurrentAbove height) (batch : Option (Batch H)) :
    (a.withCerts P height batch).CurrentAbove height := by
  have hrot : (a.applyRotations P height batch).CurrentAbove height :=
    h.withSet fun hno => HkValidatorSet.rotate_eq_self hno
  refine hrot.withSet fun hno => ?_
  obtain ⟨hchange, hboot⟩ := Bool.or_eq_false_iff.mp hno
  have hfold := HkValidatorSet.change_eq_self hchange
  rw [hfold] at hboot
  rw [HkValidatorSet.applySetChanges, hfold, HkValidatorSet.bootstrapAt_eq_self hboot]

omit [NodeCodec H] [TxCodec H] [StateCodec H] in
/-- The certificates of a block leave the sets of its height and below alone. -/
lemma validatorSetAt_withCerts (batch : Option (Batch H)) {h : ℕ} (hle : h ≤ height) :
    (a.withCerts P height batch).validatorSetAt h = a.validatorSetAt h := by
  have hno : ∀ {b : Bool}, ¬ (b = true ∧ height < h) := fun hb => absurd hb.2 (by omega)
  rw [withCerts, applySetChanges, validatorSetAt_withSet, if_neg hno, applyRotations,
    validatorSetAt_withSet, if_neg hno]

omit [NodeCodec H] [TxCodec H] [StateCodec H] in
lemma historyBase_withCerts (height : ℕ) (batch : Option (Batch H)) (hne : a.setHistory ≠ []) :
    (a.withCerts P height batch).historyBase = a.historyBase ∧
      (a.withCerts P height batch).setHistory ≠ [] := by
  have hset : ∀ (a : HkApp H) any set, a.setHistory ≠ [] →
      (a.withSet height any set).historyBase = a.historyBase ∧
        (a.withSet height any set).setHistory ≠ [] := by
    intro a any set hne
    obtain ⟨e, rest, he⟩ := List.exists_cons_of_ne_nil hne
    unfold historyBase withSet
    cases any <;> simp [he]
  obtain ⟨h₁, hne₁⟩ := hset a _ _ hne
  obtain ⟨h₂, hne₂⟩ := hset (a.applyRotations P height batch) _ _ hne₁
  exact ⟨h₂.trans h₁, hne₂⟩

end HkApp

/-! ## The blocks of the chain -/

/-- The certificates that a stored block carries at a height. -/
def StoredBlock.certsAt (sb : StoredBlock H) (height : ℕ) : ℕ × CertBatch :=
  (height, HkApp.certsOf (NodeCodec.decodeBatch sb.valueBytes : Option (Batch H)))

/-- The certificates of the log above one height and up to another. -/
def NodeStore.certsBetween (s : NodeStore H) (base tip : ℕ) : List (ℕ × CertBatch) :=
  (List.range' (base + 1) (tip - base)).filterMap fun h => s.blocks[h]?.map (·.certsAt h)

/-- The height a restart begins at: that of the image, or that of the genesis state. -/
def NodeStore.imageHeight (s : NodeStore H) (boot : HkApp H) : ℕ :=
  (s.loadSnapshot.map fun snap => snap.state.height).getD boot.chain.height

/-- A node with the certificates of the blocks that its chain is made of, and of those that its
image is made of. -/
structure Traced (H : Type) [LinearOrder H] where
  node : HkNode H
  blocks : List (ℕ × CertBatch)
  imaged : List (ℕ × CertBatch)

namespace Traced

/-- The blocks once a message has led to the given node: a commit adds its block, and an image keeps
the blocks so far; a restarted chain is the image and the log above it. -/
def record (P : NodeParams H) (boot : HkApp H) (t : Traced H) (n : HkNode H) : AppMsg H → Traced H
  | .decided cert io =>
    match HkApp.commit P cert t.node.app with
    | (.ok sb, _) =>
      let blocks := t.blocks ++ [sb.certsAt sb.height]
      ⟨n, blocks, if sb.height % P.snapshotEvery = 0 ∧ io.saveSnapshot then blocks else t.imaged⟩
    | _ => { t with node := n }
  | .restart =>
    ⟨n, t.imaged ++ t.node.store.certsBetween (t.node.store.imageHeight boot)
      n.app.chain.height, t.imaged⟩
  | _ => { t with node := n }

def step (P : NodeParams H) (boot : HkApp H) (t : Traced H) (msg : AppMsg H) : Option (Traced H) :=
  (HkNode.step P boot t.node msg).map fun n => t.record P boot n msg

def start (P : NodeParams H) (boot : HkApp H) : Traced H := ⟨HkNode.start P boot, [], []⟩

/-- A run that carries its blocks along. -/
abbrev Run (P : NodeParams H) (boot : HkApp H) : List (AppMsg H) → Traced H → Prop :=
  Path (StepOf (step P boot)) (start P boot)

end Traced

/-! ## What the history tells -/

namespace HkApp

variable {P : NodeParams H} {genesis : HkValidatorSet H} {origin height : ℕ} {a a' : HkApp H}
  {blocks : List (ℕ × CertBatch)}

/-- The chain is made of the given blocks, one for every height above its origin, and the history
answers with the genesis set folded through the blocks below a height. -/
structure Tells (P : NodeParams H) (genesis : HkValidatorSet H) (origin : ℕ) (a : HkApp H)
    (blocks : List (ℕ × CertBatch)) : Prop where
  le : origin ≤ a.chain.height
  heights : blocks.map Prod.fst = List.range' (origin + 1) (a.chain.height - origin)
  current : a.validators = HkValidatorSet.runBlocks P.rules genesis blocks
  base : a.historyBase ≤ a.chain.height + 1
  recorded : a.setHistory ≠ []
  history : ∀ h, a.historyBase ≤ h → a.validatorSetAt h =
    some (HkValidatorSet.runBlocks P.rules genesis (blocks.filter fun b => b.1 < h))

namespace Tells

omit [NodeCodec H] [TxCodec H] [StateCodec H] in
lemma congr (h : a.Tells P genesis origin blocks) (hheight : a'.chain.height = a.chain.height)
    (hset : a'.validators = a.validators) (hhist : a'.setHistory = a.setHistory) :
    a'.Tells P genesis origin blocks := by
  have hbase : a'.historyBase = a.historyBase := by rw [historyBase, hhist, historyBase]
  have hat : ∀ k, a'.validatorSetAt k = a.validatorSetAt k := fun k => by
    rw [validatorSetAt, hhist, validatorSetAt]
  refine ⟨hheight ▸ h.le, hheight ▸ h.heights, hset.trans h.current, ?_, hhist ▸ h.recorded, ?_⟩
  · rw [hbase, hheight]
    exact h.base
  · intro k hk
    rw [hat]
    exact h.history k (hbase ▸ hk)

omit [NodeCodec H] [TxCodec H] [StateCodec H] in
lemma le_of_mem (h : a.Tells P genesis origin blocks) {b : ℕ × CertBatch} (hb : b ∈ blocks) :
    b.1 ≤ a.chain.height := by
  have hmem := List.mem_map_of_mem (f := Prod.fst) hb
  rw [h.heights, List.mem_range'_1] at hmem
  have hle := h.le
  omega

omit [NodeCodec H] [TxCodec H] [StateCodec H] in
/-- Above the tip every block counts. -/
lemma filter_eq (h : a.Tells P genesis origin blocks) {k : ℕ} (hk : a.chain.height < k) :
    (blocks.filter fun b => b.1 < k) = blocks := by
  refine List.filter_eq_self.mpr fun b hb => ?_
  have := h.le_of_mem hb
  exact decide_eq_true (by omega)

omit [NodeCodec H] [TxCodec H] [StateCodec H] in
lemma currentAbove (h : a.Tells P genesis origin blocks) : a.CurrentAbove a.chain.height := by
  intro k hk
  have hbase := h.base
  rw [h.history k (by omega), h.filter_eq hk, h.current]

/-- One more block, applied and then asked for its certificates. -/
lemma block (h : a.Tells P genesis origin blocks) {batch : Option (Batch H)} {live rec v : Bool}
    {a₁ : HkApp H} (happly : applyBatchToChain P height batch live rec a = (.ok v, a₁)) :
    (a₁.withCerts P height batch).Tells P genesis origin (blocks ++ [(height, certsOf batch)]) := by
  obtain ⟨hnext, hheight⟩ := height_applyBatchToChain happly
  obtain ⟨-, -, receipts, s, -, hfin⟩ := applyBatchToChain_eq_ok.mp happly
  have hset : a₁.validators = a.validators := by rw [← hfin, finished_validators]
  have hhist : a₁.setHistory = a.setHistory := by rw [← hfin, finished_setHistory]
  have hbase₁ : a₁.historyBase = a.historyBase := by rw [historyBase, hhist, historyBase]
  have hat₁ : ∀ k, a₁.validatorSetAt k = a.validatorSetAt k := fun k => by
    rw [validatorSetAt, hhist, validatorSetAt]
  have hcur : a₁.CurrentAbove height := by
    intro k hk
    rw [hat₁, hset]
    exact h.currentAbove k (by omega)
  obtain ⟨hbase, hne⟩ :=
    historyBase_withCerts (P := P) height batch (hhist ▸ h.recorded : a₁.setHistory ≠ [])
  have hle := h.le
  have htip : (a₁.withCerts P height batch).chain.height = height := hheight
  have hrun : HkValidatorSet.runBlocks P.rules genesis (blocks ++ [(height, certsOf batch)]) =
      (a₁.withCerts P height batch).validators := by
    rw [HkValidatorSet.runBlocks, List.foldl_append, List.foldl_cons, List.foldl_nil,
      ← HkValidatorSet.runBlocks, ← h.current, ← hset]
    rfl
  refine ⟨by omega, ?_, hrun.symm, ?_, hne, fun k hk => ?_⟩
  · obtain ⟨n, hn⟩ : ∃ n, height - origin = n + 1 := ⟨height - origin - 1, by omega⟩
    rw [htip, List.map_append, h.heights, hn, List.range'_concat]
    have hn' : a.chain.height - origin = n := by omega
    rw [hn', List.map_singleton]
    congr 2
    simp only
    omega
  · rw [hbase, hbase₁, htip]
    have := h.base
    omega
  · rw [hbase, hbase₁] at hk
    rcases Nat.lt_or_ge height k with hlt | hge
    · have hall : ((blocks ++ [(height, certsOf batch)]).filter fun b => b.1 < k) =
          blocks ++ [(height, certsOf batch)] := by
        rw [List.filter_append, h.filter_eq (by omega)]
        simp [hlt]
      rw [hall, hrun]
      exact hcur.withCerts batch k hlt
    · have hold : ((blocks ++ [(height, certsOf batch)]).filter fun b => b.1 < k) =
          blocks.filter fun b => b.1 < k := by
        rw [List.filter_append]
        simp [Nat.not_lt.mpr hge]
      rw [validatorSetAt_withCerts batch hge, hold, hat₁]
      exact h.history k hk

end Tells

end HkApp

/-! ## Images and restarts -/

/-- The image, if there is one, holds the set that the given blocks lead to. -/
structure NodeStore.ImageTells (P : NodeParams H) (genesis : HkValidatorSet H) (origin : ℕ)
    (s : NodeStore H) (imaged : List (ℕ × CertBatch)) : Prop where
  older : s.olderSnapshots = []
  none : s.snapshot = none → imaged = []
  some : ∀ snap, s.snapshot = some snap → snap.height = snap.state.height ∧
    origin ≤ snap.height ∧ imaged.map Prod.fst = List.range' (origin + 1) (snap.height - origin) ∧
    snap.validators = (HkValidatorSet.runBlocks P.rules genesis imaged).toSnapshot

omit [HashSuite H] [NodeCodec H] [RootScheme] [TxCodec H] [StateCodec H] in
lemma NodeStore.loadSnapshot_of_older {s : NodeStore H} (h : s.olderSnapshots = []) :
    s.loadSnapshot = s.snapshot := by
  rw [loadSnapshot, h, List.append_nil]
  cases s.snapshot <;> rfl

namespace HkApp

variable {P : NodeParams H} {genesis : HkValidatorSet H} {origin : ℕ} {a : HkApp H}
  {chain : State H} {imaged : List (ℕ × CertBatch)} {s : NodeStore H}

omit [NodeCodec H] [TxCodec H] [StateCodec H] in
/-- A node that was just constructed is on its genesis set. -/
lemma Tells.fresh (P : NodeParams H) (chain : State H) (genesis : HkValidatorSet H) :
    (HkApp.fresh chain genesis).Tells P genesis chain.height [] := by
  refine ⟨le_rfl, ?_, rfl, ?_, ?_, fun h hh => ?_⟩
  · simp [HkApp.fresh]
  · simp [HkApp.fresh, historyBase]
  · simp [HkApp.fresh]
  · simp only [HkApp.fresh, historyBase, List.head?_cons, Option.map_some, Option.getD_some] at hh
    simp [HkApp.fresh, validatorSetAt, hh, HkValidatorSet.runBlocks]

omit [NodeCodec H] [TxCodec H] in
/-- The image is where the replay starts. -/
lemma Tells.image (himage : s.ImageTells P genesis chain.height imaged)
    (h : restoreImage s.loadSnapshot (.fresh chain genesis) = (.ok (), a)) :
    a.Tells P genesis chain.height imaged ∧
      a.chain.height = s.imageHeight (.fresh chain genesis) := by
  rw [NodeStore.loadSnapshot_of_older himage.older] at h
  rw [NodeStore.imageHeight, NodeStore.loadSnapshot_of_older himage.older]
  obtain ⟨hnone, rfl⟩ | ⟨snap, hsnap, hload⟩ := restoreImage_eq_ok.mp h
  · rw [himage.none hnone, hnone]
    exact ⟨.fresh P chain genesis, rfl⟩
  · obtain ⟨-, rfl⟩ := loadImage_eq_ok.mp hload
    obtain ⟨hheight, hle, hheights, hset⟩ := himage.some snap hsnap
    have hrestored : HkValidatorSet.restore (HkApp.fresh chain genesis).validators snap.validators =
        HkValidatorSet.runBlocks P.rules genesis imaged := by
      rw [hset, HkValidatorSet.restore_toSnapshot]
    refine ⟨⟨?_, ?_, hrestored, ?_, ?_, fun h hh => ?_⟩, ?_⟩
    · exact hheight ▸ hle
    · rw [hheights, hheight]
      rfl
    · simp only [historyBase, List.head?_cons, Option.map_some, Option.getD_some, hheight]
      exact le_rfl
    · simp
    · simp only [historyBase, List.head?_cons, Option.map_some, Option.getD_some] at hh
      have hall : (imaged.filter fun b => b.1 < h) = imaged := by
        refine List.filter_eq_self.mpr fun b hb => ?_
        have hmem := List.mem_map_of_mem (f := Prod.fst) hb
        rw [hheights, List.mem_range'_1] at hmem
        exact decide_eq_true (by omega)
      simp only [validatorSetAt, List.reverse_singleton, List.find?_singleton, decide_eq_true hh,
        if_true, Option.map_some, hrestored, hall]
    · rw [hsnap]
      rfl

/-- A restarted chain is the image and the log above it. -/
lemma Tells.restore (himage : s.ImageTells P genesis chain.height imaged)
    (h : restoreFromStore P s (.fresh chain genesis) = (.ok (), a)) :
    a.Tells P genesis chain.height
      (imaged ++ s.certsBetween (s.imageHeight (.fresh chain genesis)) a.chain.height) := by
  obtain ⟨a₁, a₂, hload, hreplay, rfl⟩ := restoreFromStore_eq_ok.mp h
  obtain ⟨h₁, hbase⟩ := Tells.image himage hload
  have h₂ : s.imageHeight (.fresh chain genesis) ≤ a₂.chain.height ∧
      a₂.Tells P genesis chain.height
        (imaged ++ s.certsBetween (s.imageHeight (.fresh chain genesis)) a₂.chain.height) := by
    refine replay_invariant (I := fun b => s.imageHeight (.fresh chain genesis) ≤ b.chain.height ∧
      b.Tells P genesis chain.height
        (imaged ++ s.certsBetween (s.imageHeight (.fresh chain genesis)) b.chain.height)) ?_ hreplay
      ⟨hbase.ge, ?_⟩
    · rintro height sb b b' hsb hnext ⟨hle, hb⟩ hblock
      obtain ⟨-, v, b₁, happly, rfl⟩ := replayBlock_eq_ok.mp hblock
      obtain ⟨-, hheight⟩ := height_applyBatchToChain happly
      have htip : (b₁.replayed P height sb).chain.height = height := hheight
      have hmore : s.certsBetween (s.imageHeight (.fresh chain genesis)) height =
          s.certsBetween (s.imageHeight (.fresh chain genesis)) b.chain.height ++
            [sb.certsAt height] := by
        generalize s.imageHeight (.fresh chain genesis) = base at hle ⊢
        obtain ⟨n, hn⟩ : ∃ n, height - base = n + 1 := ⟨height - base - 1, by omega⟩
        have hlast : base + 1 + 1 * n = height := by omega
        have hprev : b.chain.height - base = n := by omega
        rw [NodeStore.certsBetween, NodeStore.certsBetween, hn, hprev, List.range'_concat,
          List.filterMap_append, hlast]
        simp [hsb]
      rw [htip, hmore, ← List.append_assoc]
      exact ⟨by omega, (hb.block happly).congr rfl rfl rfl⟩
    · rw [hbase, NodeStore.certsBetween, Nat.sub_self, List.range'_zero, List.filterMap_nil,
        List.append_nil]
      exact h₁
  exact h₂.2.congr rfl rfl rfl

end HkApp

namespace Traced

variable {P : NodeParams H} {chain : State H} {genesis : HkValidatorSet H} {t t' : Traced H}

/-- The history of a traced node tells the truth, and so does its image. -/
structure Truthful (P : NodeParams H) (chain : State H) (genesis : HkValidatorSet H)
    (t : Traced H) : Prop where
  tells : t.node.app.Tells P genesis chain.height t.blocks
  image : t.node.store.ImageTells P genesis chain.height t.imaged

/-- A message that commits nothing and starts nothing adds no block. -/
lemma record_of_quiet {boot : HkApp H} {n : HkNode H} {msg : AppMsg H} (hstart : msg ≠ .restart)
    (hcommit : ∀ cert io, msg = .decided cert io →
      ∀ sb a, HkApp.commit P cert t.node.app ≠ (.ok sb, a)) :
    t.record P boot n msg = ⟨n, t.blocks, t.imaged⟩ := by
  cases msg with
  | decided cert io =>
    simp only [record]
    rcases hc : HkApp.commit P cert t.node.app with ⟨sb | _ | _, a⟩
    · exact absurd hc (hcommit cert io rfl sb a)
    · rfl
    · rfl
  | restart => exact absurd rfl hstart
  | _ => rfl

omit [NodeCodec H] [TxCodec H] in
/-- An image that is written holds the set of the node, which the blocks so far lead to. -/
lemma Truthful.persist (h : t.Truthful P chain genesis) {io : DiskIo}
    {sb : StoredBlock H} {a : HkApp H} {blocks : List (ℕ × CertBatch)}
    (hblocks : a.Tells P genesis chain.height blocks) :
    (HkNode.persist P io sb ⟨a, t.node.store⟩).store.ImageTells P genesis chain.height
      (if sb.height % P.snapshotEvery = 0 ∧ io.saveSnapshot then blocks else t.imaged) := by
  rw [HkNode.persist_store]
  split_ifs with hdue
  · refine ⟨h.image.older, nofun, fun snap hsnap => ?_⟩
    cases hsnap
    exact ⟨rfl, hblocks.le, hblocks.heights, congrArg HkValidatorSet.toSnapshot hblocks.current⟩
  · exact ⟨h.image.older, h.image.none, h.image.some⟩

lemma Truthful.step (h : t.Truthful P chain genesis) {msg : AppMsg H}
    (hstep : step P (.fresh chain genesis) t msg = some t') : t'.Truthful P chain genesis := by
  obtain ⟨n, hn, rfl⟩ := Option.map_eq_some_iff.mp hstep
  cases HkNode.effect_of_step hn with
  | quiet hstart hnone hstore happ =>
    rw [record_of_quiet hstart]
    · refine ⟨h.tells.congr ?_ ?_ ?_, ?_⟩
      · rw [happ]
      · rw [happ]
      · rw [happ]
      · rw [hstore]
        exact h.image
    · intro cert io hmsg sb a hok
      obtain ⟨value, a₁, hvalue, -⟩ := HkApp.commit_eq_ok.mp hok
      rw [hnone cert io hmsg] at hvalue
      cases hvalue
  | @committed cert io sb a hcommit =>
    have hrecord : t.record P (.fresh chain genesis)
        (HkNode.persist P io sb ⟨a, t.node.store⟩) (.decided cert io) =
        ⟨HkNode.persist P io sb ⟨a, t.node.store⟩, t.blocks ++ [sb.certsAt sb.height],
          if sb.height % P.snapshotEvery = 0 ∧ io.saveSnapshot then
            t.blocks ++ [sb.certsAt sb.height] else t.imaged⟩ := by
      simp only [record, hcommit]
    obtain ⟨value, a₁, -, happly, hsb, ha⟩ := HkApp.commit_eq_ok.mp hcommit
    have hcerts : sb.certsAt sb.height =
        (cert.height, HkApp.certsOf (NodeCodec.decodeBatch value.txs : Option (Batch H))) := by
      rw [hsb]
      rfl
    have htells : a.Tells P genesis chain.height (t.blocks ++ [sb.certsAt sb.height]) := by
      rw [hcerts, ← ha]
      exact (h.tells.block happly).congr rfl rfl rfl
    rw [hrecord]
    refine ⟨?_, h.persist htells⟩
    rw [HkNode.persist_app]
    exact htells.congr rfl rfl rfl
  | @failed cert io value e a hcommit _ happly =>
    rw [record_of_quiet (by nofun)]
    · refine ⟨?_, h.image⟩
      obtain ⟨-, rfl⟩ | ⟨-, -, rfl⟩ := HkApp.applyBatchToChain_eq_err happly
      · exact h.tells.congr rfl rfl rfl
      · exact h.tells.congr (State.height_coveredBy _ _) rfl rfl
    · intro cert' io' hmsg sb a' hok
      cases hmsg
      rw [hcommit] at hok
      cases hok
  | restarted hrestore =>
    exact ⟨HkApp.Tells.restore h.image hrestore, h.image⟩

end Traced

end

namespace Concrete

/-- Byte strings are the batches that seat the newcomer on the genesis state. -/
local instance admissionCodec : NodeCodec Digest where
  decodeBatch bytes := some ⟨⟨[], [admission]⟩, nodeChain.stateCommitment, [], bytes⟩
  decodeValue _ := none
  txJson tx := (digestTxCode tx.payload ++ [tx.sender.val, tx.nonce]).flatMap leBytes

end Concrete

end HashKinetics
