import HashKinetics.Node.OwnValues

/-!
# The heights a node offers to its peers

A node advertises the lowest height from which it can serve every decided block up to its tip: the
newest ones from memory, the others from the block log.  The floor moves when a block cannot be
written, when old segments go, and at a restart.  Up to its tip the node serves what it advertises,
unless a retention pass fails half-way or the log holds a block whose certificate names other bytes,
which is then refused for good.
-/

namespace HashKinetics

open Foundations

/-! ## The gap-free run of a log -/

lemma mem_of_extendSuffix {l : List ℕ} {top h : ℕ} (hlo : extendSuffix top l ≤ h) (hhi : h ≤ top) :
    h = top ∨ h ∈ l := by
  induction l generalizing top with
  | nil =>
    rw [extendSuffix] at hlo
    exact .inl (le_antisymm hhi hlo)
  | cons x l ih =>
    rw [extendSuffix] at hlo
    split_ifs at hlo with hx
    · rcases Nat.lt_or_ge x h with hlt | hge
      · exact .inl (by omega)
      · right
        rcases ih hlo hge with rfl | hmem
        · exact List.mem_cons_self
        · exact List.mem_cons_of_mem _ hmem
    · exact .inl (le_antisymm hhi hlo)

lemma extendSuffix_mem (l : List ℕ) (top : ℕ) : extendSuffix top l = top ∨
    extendSuffix top l ∈ l := by
  induction l generalizing top with
  | nil => exact .inl rfl
  | cons x l ih =>
    rw [extendSuffix]
    split_ifs
    · right
      rcases ih x with heq | hmem
      · rw [heq]
        exact List.mem_cons_self
      · exact List.mem_cons_of_mem _ hmem
    · exact .inl rfl

/-- Every height of the gap-free run is listed. -/
lemma mem_of_contiguousSuffixMin {hs : List ℕ} {min h : ℕ}
    (hmin : contiguousSuffixMin hs = some min)
    (hlo : min ≤ h) (hhi : h ≤ hs.getLast?.getD 0) : h ∈ hs := by
  unfold contiguousSuffixMin at hmin
  split at hmin
  · cases hmin
  · next top l hrev =>
    cases hmin
    have hlast : hs.getLast? = some top := by
      rw [← List.head?_reverse, hrev, List.head?_cons]
    rw [hlast, Option.getD_some] at hhi
    rw [← List.mem_reverse, hrev]
    exact List.mem_cons.mpr (mem_of_extendSuffix hlo hhi)

lemma contiguousSuffixMin_mem {hs : List ℕ} {min : ℕ} (hmin : contiguousSuffixMin hs = some min) :
    min ∈ hs := by
  unfold contiguousSuffixMin at hmin
  split at hmin
  · cases hmin
  · next top l hrev =>
    cases hmin
    rw [← List.mem_reverse, hrev]
    exact List.mem_cons.mpr (extendSuffix_mem l top)

section

variable {H : Type} [LinearOrder H] [HashSuite H] [NodeCodec H] [RootScheme] [TxCodec H]
  [StateCodec H]

/-! ## Retention -/

/-- The retention pass of a commit deletes the last copy of a height. -/
def DiskIo.Deletes (io : DiskIo) (tip retain h : ℕ) : Prop :=
  ¬ (retain = 0 ∨ tip ≤ retain) ∧ h / SEGMENT_SPAN ∈ io.segments ∧
    h / SEGMENT_SPAN < (tip - retain) / SEGMENT_SPAN ∧ h ∉ io.filed

instance (io : DiskIo) (tip retain h : ℕ) : Decidable (io.Deletes tip retain h) :=
  inferInstanceAs (Decidable (_ ∧ _))

omit [HashSuite H] [NodeCodec H] [RootScheme] [TxCodec H] [StateCodec H] in
lemma get_pruneBelow_eq (s : NodeStore H) (tip retain : ℕ) (io : DiskIo) (h : ℕ) :
    (s.pruneBelow tip retain io).2.blocks[h]? =
      if io.Deletes tip retain h then none else s.blocks[h]? := by
  by_cases hidle : retain = 0 ∨ tip ≤ retain
  · have hkeep : ¬ io.Deletes tip retain h := fun hdel => hdel.1 hidle
    rw [if_neg hkeep, NodeStore.pruneBelow, if_pos hidle]
  · have hiff : io.Deletes tip retain h ↔
        h / SEGMENT_SPAN ∈ io.segments.filter (· < (tip - retain) / SEGMENT_SPAN) ∧
          h ∉ io.filed := by
      simp only [DiskIo.Deletes, hidle, not_false_eq_true, true_and, List.mem_filter,
        decide_eq_true_eq, and_assoc]
    rw [NodeStore.pruneBelow, if_neg hidle]
    simp only [OrderedMap.get_filter, ← hiff]
    cases s.blocks[h]? with
    | none => simp
    | some b => by_cases hdel : io.Deletes tip retain h <;> simp [hdel]

omit [RootScheme] in
/-- The newest heights stay. -/
lemma DiskIo.not_deletes_tip (io : DiskIo) (tip retain : ℕ) : ¬ io.Deletes tip retain tip := by
  rintro ⟨-, -, hlt, -⟩
  have hle : (tip - retain) / SEGMENT_SPAN ≤ tip / SEGMENT_SPAN :=
    Nat.div_le_div_right (Nat.sub_le _ _)
  omega

omit [HashSuite H] [NodeCodec H] [RootScheme] [TxCodec H] [StateCodec H] in
/-- What a pass that ends well deletes lies below the floor it reports. -/
lemma not_deletes_of_prunedFloor {s : NodeStore H} {tip retain floor h : ℕ} {io : DiskIo}
    (hok : io.pruneFails = false)
    (hle : HkNode.prunedFloor floor (s.pruneBelow tip retain io).1 ≤ h) :
    ¬ io.Deletes tip retain h := by
  rintro ⟨hactive, hseg, hlt, -⟩
  have hdeleted : io.segments.filter (· < (tip - retain) / SEGMENT_SPAN) ≠ [] :=
    List.ne_nil_of_mem (List.mem_filter.mpr ⟨hseg, by simpa using hlt⟩)
  have hfloor : (tip - retain) / SEGMENT_SPAN * SEGMENT_SPAN ≤ h := by
    simp only [NodeStore.pruneBelow, hactive, if_false, hok, Bool.false_eq_true, hdeleted,
      HkNode.prunedFloor] at hle
    split_ifs at hle with hraise
    · exact hle
    · omega
  have hge : (tip - retain) / SEGMENT_SPAN ≤ h / SEGMENT_SPAN :=
    (Nat.le_div_iff_mul_le (by decide)).mpr hfloor
  omega

namespace HkApp

variable {P : NodeParams H} {a a' : HkApp H}

omit [LinearOrder H] [HashSuite H] [NodeCodec H] [RootScheme] [TxCodec H] [StateCodec H] in
/-- Trimming keeps the newest heights. -/
lemma spans_trimDecided {m : OrderedMap ℕ (DecidedEntry H)} {base tip : ℕ} (h : m.Spans base tip)
    (hle : base ≤ tip) (window : ℕ) :
    ∃ base' ≤ tip, OrderedMap.Spans (trimDecided window m) base' tip := by
  unfold trimDecided
  split_ifs with hw
  · exact ⟨base, hle, h⟩
  · refine ⟨_, ?_, h.eraseFirst _⟩
    rw [h.size_eq]
    omega

omit [RootScheme] in
lemma decided_applyBatchToChain {height : ℕ} {batch : Option (Batch H)} {live rec v : Bool}
    (h : applyBatchToChain P height batch live rec a = (.ok v, a')) :
    a'.decided = a.decided ∧ a'.historyMin = a.historyMin := by
  obtain ⟨-, -, receipts, s, -, rfl⟩ := applyBatchToChain_eq_ok.mp h
  exact ⟨finished_decided .., finished_historyMin ..⟩

/-- Memory holds the decided heights from some height up to the tip. -/
def RamSpans (a : HkApp H) : Prop :=
  ∃ base ≤ a.chain.height, a.decided.Spans base a.chain.height

omit [HashSuite H] [NodeCodec H] [RootScheme] [TxCodec H] [StateCodec H] in
/-- One more block at the tip. -/
lemma RamSpans.insert (h : a.RamSpans) (entry : DecidedEntry H) :
    ∃ base ≤ a.chain.height + 1, OrderedMap.Spans
      (a.decided.insert (a.chain.height + 1) entry) base (a.chain.height + 1) := by
  obtain ⟨base, hle, hspans⟩ := h
  exact ⟨base, by omega, hspans.insert hle entry⟩

lemma RamSpans.commit (h : a.RamSpans) {cert : CommitCertificate H} {sb : StoredBlock H}
    (hcommit : commit P cert a = (.ok sb, a')) :
    a'.RamSpans ∧ sb.height = a.chain.height + 1 ∧ a'.chain.height = sb.height ∧
      a'.historyMin = a.historyMin := by
  obtain ⟨value, a₁, -, happly, hsb, rfl⟩ := commit_eq_ok.mp hcommit
  obtain ⟨hnext, hheight⟩ := height_applyBatchToChain happly
  obtain ⟨hdecided, hmin⟩ := decided_applyBatchToChain happly
  have hsbh : sb.height = cert.height := congrArg StoredBlock.height hsb
  refine ⟨?_, hsbh.trans hnext, hheight.trans hsbh.symm, hmin⟩
  obtain ⟨base, hle, hspans⟩ := h.insert ⟨value, cert⟩
  rw [← hnext, ← hdecided] at hspans
  rw [← hnext] at hle
  have htip : (settled P (a₁.withCerts P cert.height (NodeCodec.decodeBatch value.txs)) cert
      value).chain.height = cert.height := hheight
  rw [RamSpans, htip]
  exact spans_trimDecided hspans hle P.decidedWindow

lemma RamSpans.restore {s : NodeStore H} {boot : HkApp H} (hboot : boot.decided = ∅)
    (h : restoreFromStore P s boot = (.ok (), a)) :
    a.RamSpans ∧ a.historyMin = servableFrom s.blockHeights a.chain.height := by
  obtain ⟨a₁, a₂, himage, hreplay, rfl⟩ := restoreFromStore_eq_ok.mp h
  refine ⟨?_, rfl⟩
  have h₁ : a₁.RamSpans := by
    have hempty : a₁.decided = ∅ := by
      obtain ⟨-, rfl⟩ | ⟨snap, -, hload⟩ := restoreImage_eq_ok.mp himage
      · exact hboot
      · obtain ⟨-, rfl⟩ := loadImage_eq_ok.mp hload
        exact hboot
    refine ⟨_, le_rfl, ?_⟩
    rw [hempty]
    exact OrderedMap.Spans.empty _
  have h₂ : a₂.RamSpans := by
    refine replay_invariant (I := RamSpans) ?_ hreplay h₁
    intro height sb b b' _ hnext hb hblock
    obtain ⟨-, v, b₁, happly, rfl⟩ := replayBlock_eq_ok.mp hblock
    obtain ⟨-, hheight⟩ := height_applyBatchToChain happly
    obtain ⟨hdecided, -⟩ := decided_applyBatchToChain happly
    obtain ⟨base, hle, hspans⟩ := hb.insert ⟨.new sb.valueBytes, sb.certificate⟩
    rw [← hnext, ← hdecided] at hspans
    rw [← hnext] at hle
    have htip : (b₁.replayed P height sb).chain.height = height := hheight
    rw [RamSpans, htip]
    exact ⟨base, hle, hspans⟩
  exact h₂

end HkApp

namespace HkNode

variable {P : NodeParams H} {boot : HkApp H} {n n' : HkNode H} {io : DiskIo} {sb : StoredBlock H}

/-- The log holds every height from the floor up to the given one. -/
def DiskCovers (n : HkNode H) (tip : ℕ) : Prop :=
  ∀ h, n.app.historyMin ≤ h → h ≤ tip → ∃ b, n.store.blocks[h]? = some b

omit [HashSuite H] [NodeCodec H] [RootScheme] [TxCodec H] [StateCodec H] in
lemma DiskCovers.saveBlock (tip : ℕ) (h : n.DiskCovers tip) (hpos : 0 < n.app.historyMin)
    (hnext : sb.height = tip + 1) : (n.saveBlock io sb).DiskCovers sb.height := by
  unfold HkNode.saveBlock
  split
  · intro k hlo hhi
    simp only [hpos.ne', if_false] at hlo
    simp only [NodeStore.saveBlock, OrderedMap.get_insert]
    split_ifs with hk
    · exact ⟨sb, rfl⟩
    · exact h k hlo (by omega)
  · intro k hlo hhi
    simp only at hlo
    omega

omit [HashSuite H] [NodeCodec H] [RootScheme] [TxCodec H] [StateCodec H] in
lemma historyMin_saveBlock_pos (hpos : 0 < n.app.historyMin) (io : DiskIo) (sb : StoredBlock H) :
    0 < (n.saveBlock io sb).app.historyMin := by
  unfold saveBlock
  split
  · simp [hpos.ne', hpos]
  · simp

omit [HashSuite H] [NodeCodec H] [RootScheme] [TxCodec H] [StateCodec H] in
/-- Above the floor that a saved block leaves, the log held the height before or it is the new
one. -/
lemma stored_of_saveBlock (hpos : 0 < n.app.historyMin) {k : ℕ} {b : StoredBlock H}
    (hlo : (n.saveBlock io sb).app.historyMin ≤ k) (hhi : k ≤ sb.height)
    (hb : (n.saveBlock io sb).store.blocks[k]? = some b) :
    k = sb.height ∨ n.app.historyMin ≤ k ∧ n.store.blocks[k]? = some b := by
  unfold saveBlock at hlo hb
  split at hlo
  · next hsave =>
    simp only [hpos.ne', if_false] at hlo
    simp only [hsave, if_true, NodeStore.saveBlock, OrderedMap.get_insert] at hb
    split at hb
    · next hk => exact .inl hk.symm
    · exact .inr ⟨hlo, hb⟩
  · simp only at hlo
    omega

/-- A retention pass in this commit that fails has deleted no height of the log at or above the
servable floor. -/
def PruneKeeps (P : NodeParams H) (n : HkNode H) : AppMsg H → Prop
  | .decided cert io =>
    cert.height % P.snapshotEvery = 0 → io.saveSnapshot = true → io.pruneFails = true →
      ∀ h b, n.app.historyMin ≤ h → n.store.blocks[h]? = some b →
        (n.store.pruneBelow cert.height P.retainBlocks io).2.blocks[h]? = some b
  | _ => True

omit [HashSuite H] [NodeCodec H] [RootScheme] [TxCodec H] [StateCodec H] in
lemma historyMin_le_pruneLog (P : NodeParams H) (n : HkNode H) (io : DiskIo) (tip : ℕ) :
    n.app.historyMin ≤ (n.pruneLog P io tip).app.historyMin := by
  change _ ≤ prunedFloor n.app.historyMin (n.store.pruneBelow tip P.retainBlocks io).1
  unfold prunedFloor
  split
  · split_ifs
    · omega
    · exact le_rfl
  · exact le_rfl
  · exact le_rfl

omit [HashSuite H] [NodeCodec H] [RootScheme] [TxCodec H] [StateCodec H] in
lemma DiskCovers.pruneLog {tip : ℕ} (h : n.DiskCovers tip)
    (hkeep : io.pruneFails = true → ∀ k, n.app.historyMin ≤ k → k ≤ tip →
      ¬ io.Deletes tip P.retainBlocks k) : (n.pruneLog P io tip).DiskCovers tip := by
  intro k hlo hhi
  change prunedFloor n.app.historyMin (n.store.pruneBelow tip P.retainBlocks io).1 ≤ k at hlo
  change ∃ b, (n.store.pruneBelow tip P.retainBlocks io).2.blocks[k]? = some b
  have hfloor : n.app.historyMin ≤ k := (historyMin_le_pruneLog P n io tip).trans hlo
  have hdel : ¬ io.Deletes tip P.retainBlocks k := by
    cases hfail : io.pruneFails with
    | true => exact hkeep hfail k hfloor hhi
    | false => exact not_deletes_of_prunedFloor hfail hlo
  rw [get_pruneBelow_eq, if_neg hdel]
  exact h k hfloor hhi

/-- What makes a node serve every height it advertises. -/
structure Servable (n : HkNode H) : Prop where
  ram : n.app.RamSpans
  disk : n.DiskCovers n.app.chain.height
  floor : 0 < n.app.historyMin
  heights : ∀ (h : ℕ) (b : StoredBlock H), n.store.blocks[h]? = some b → 0 < h

lemma Servable.persist (h : n.Servable) {cert : CommitCertificate H} {a : HkApp H}
    (hcommit : HkApp.commit P cert n.app = (.ok sb, a))
    (hkeep : n.PruneKeeps P (.decided cert io)) : (persist P io sb ⟨a, n.store⟩).Servable := by
  obtain ⟨hram, hnext, htip, hmin⟩ := h.ram.commit hcommit
  have hcert : sb.height = cert.height := by
    obtain ⟨value, a₁, -, -, hsb, -⟩ := HkApp.commit_eq_ok.mp hcommit
    exact congrArg StoredBlock.height hsb
  have hpos : 0 < (⟨a, n.store⟩ : HkNode H).app.historyMin := by
    rw [show (⟨a, n.store⟩ : HkNode H).app.historyMin = n.app.historyMin from hmin]
    exact h.floor
  have hsaved : (HkNode.saveBlock io sb ⟨a, n.store⟩).DiskCovers sb.height := by
    refine DiskCovers.saveBlock n.app.chain.height (fun k hlo hhi => ?_) hpos hnext
    exact h.disk k (hmin ▸ hlo) hhi
  refine ⟨?_, ?_, ?_, fun k b hb => ?_⟩
  · rw [persist_app]
    exact hram
  · rw [persist_app]
    change DiskCovers _ a.chain.height
    rw [htip]
    unfold HkNode.persist
    dsimp only
    split
    · next himage =>
      refine DiskCovers.pruneLog (fun k hlo hhi => hsaved k hlo hhi) fun hfail k hlo hhi => ?_
      obtain ⟨b, hb⟩ := hsaved k hlo hhi
      obtain rfl | ⟨hfloor, hold⟩ := stored_of_saveBlock hpos hlo hhi hb
      · exact io.not_deletes_tip _ _
      · rw [hcert] at himage
        have hkept := hkeep himage.1 himage.2 hfail k b (hmin ▸ hfloor) hold
        intro hdel
        rw [get_pruneBelow_eq, if_pos (hcert ▸ hdel)] at hkept
        cases hkept
    · exact hsaved
  · have hsavedPos := historyMin_saveBlock_pos hpos io sb
    unfold HkNode.persist
    dsimp only
    split
    · exact hsavedPos.trans_le (historyMin_le_pruneLog P (saveSnapshot _) io sb.height)
    · exact hsavedPos
  · obtain ⟨rfl, -⟩ | hold := get_persist hb
    · omega
    · exact h.heights k b hold

lemma Servable.restore (h : n.Servable) (hboot : boot.decided = ∅) {a : HkApp H}
    (hrestore : HkApp.restoreFromStore P n.store boot = (.ok (), a)) :
    ({ n with app := a } : HkNode H).Servable := by
  obtain ⟨hram, hmin⟩ := HkApp.RamSpans.restore hboot hrestore
  have hstored : ∀ k ∈ n.store.blockHeights, ∃ b, n.store.blocks[k]? = some b :=
    fun k hk => OrderedMap.mem_keys.mp hk
  refine ⟨hram, fun k hlo hhi => ?_, ?_, h.heights⟩
  · change a.historyMin ≤ k at hlo
    rw [hmin, HkApp.servableFrom] at hlo
    split at hlo
    · next min hsuffix =>
      split_ifs at hlo with htip
      · exact hstored k (mem_of_contiguousSuffixMin hsuffix hlo (htip ▸ hhi))
      · exact absurd hhi (by simp only; omega)
    · exact absurd hhi (by simp only; omega)
  · change 0 < a.historyMin
    rw [hmin, HkApp.servableFrom]
    split
    · next min hsuffix =>
      split_ifs
      · obtain ⟨b, hb⟩ := hstored min (contiguousSuffixMin_mem hsuffix)
        exact h.heights min b hb
      · omega
    · omega

omit [HashSuite H] [NodeCodec H] [RootScheme] [TxCodec H] [StateCodec H] in
/-- Messages that leave the chain, the floor and memory alone. -/
lemma Servable.congr (h : n.Servable) (hstore : n'.store = n.store)
    (hheight : n'.app.chain.height = n.app.chain.height)
    (hdecided : n'.app.decided = n.app.decided)
    (hmin : n'.app.historyMin = n.app.historyMin) : n'.Servable := by
  refine ⟨?_, ?_, hmin ▸ h.floor, hstore ▸ h.heights⟩
  · rw [HkApp.RamSpans, hheight, hdecided]
    exact h.ram
  · intro k hlo hhi
    rw [hstore]
    exact h.disk k (hmin ▸ hlo) (hheight ▸ hhi)

lemma Servable.step (h : n.Servable) (hboot : boot.decided = ∅) {msg : AppMsg H}
    (hkeep : n.PruneKeeps P msg) (hstep : step P boot n msg = some n') : n'.Servable := by
  cases effect_of_step hstep with
  | quiet _ _ hstore happ =>
    refine h.congr hstore ?_ ?_ ?_ <;> rw [happ]
  | committed hcommit => exact h.persist hcommit hkeep
  | failed _ _ happly =>
    obtain ⟨-, rfl⟩ | ⟨-, -, rfl⟩ := HkApp.applyBatchToChain_eq_err happly
    · exact h.congr rfl rfl rfl rfl
    · refine h.congr rfl ?_ rfl rfl
      exact State.height_coveredBy _ _
  | restarted hrestore => exact h.restore hboot hrestore

omit [NodeCodec H] [RootScheme] [TxCodec H] [StateCodec H] in
/-- The heights from the advertised one up to the tip are served. -/
lemma Servable.decidedValue (h : n.Servable) (hbound : n.ContentBound) {height : ℕ}
    (hlo : n.app.earliestHeight ≤ height) (hhi : height ≤ n.app.chain.height) :
    (n.decidedValue height).isSome = true := by
  unfold HkNode.decidedValue
  cases hram : n.app.decided[height]? with
  | some entry => rfl
  | none =>
    obtain ⟨base, hle, hspans⟩ := h.ram
    have hbelow : height ≤ base := by
      by_contra hlt
      obtain ⟨v, hv⟩ := (hspans height).mpr ⟨not_le.mp hlt, hhi⟩
      rw [hram] at hv
      cases hv
    have hfloor : n.app.historyMin ≤ height := by
      simp only [HkApp.earliestHeight, hspans.head_keys, h.floor, if_true] at hlo
      split_ifs at hlo with htip
      · simp only at hlo
        omega
      · exact hlo
    obtain ⟨b, hb⟩ := h.disk height hfloor hhi
    have hnamed : (HkValue.new b.valueBytes : HkValue H).id = b.certificate.valueId :=
      hbound.stored height b hb
    simp [hb, hnamed]

/-- **The serving floor is honest.**  In every run of a node in which every synced value comes with
the id of its content and no retention pass fails after deleting a height at or above the floor,
every height from the advertised one up to the tip is served. -/
theorem decidedValue_of_earliestHeight_le (P : NodeParams H) (chain : State H)
    (validators : HkValidatorSet H) {msgs : List (AppMsg H)} {n : HkNode H}
    (hrun : Run P (.fresh chain validators) msgs n)
    (hcond : Path.Along (StepOf (HkNode.step P (.fresh chain validators)))
      (start P (.fresh chain validators)) msgs fun n msg => msg.SyncBound ∧ n.PruneKeeps P msg)
    {height : ℕ} (hlo : n.app.earliestHeight ≤ height) (hhi : height ≤ n.app.chain.height) :
    (n.decidedValue height).isSome = true := by
  have hinit : (start P (HkApp.fresh chain validators)).ContentBound ∧
      (start P (HkApp.fresh chain validators)).Servable := by
    refine ⟨contentBound_start P chain validators, ?_⟩
    rw [start_eq]
    refine ⟨⟨_, le_rfl, OrderedMap.Spans.empty _⟩, fun k hk hk' => ?_, Nat.succ_pos _,
      fun k b hb => ?_⟩
    · simp only at hk hk'
      omega
    · simp [NodeStore.new] at hb
  obtain ⟨hbound, hserv⟩ := hrun.invariant_along (I := fun _ n => n.ContentBound ∧ n.Servable)
    hcond hinit fun _ msg s s' hs hmsg hstep =>
      ⟨hs.1.step (undecidedBound_fresh chain validators) hmsg.1 hstep, hs.2.step rfl hmsg.2 hstep⟩
  exact hserv.decidedValue hbound hlo hhi

end HkNode

end

/-! ## A block that is refused once it left memory -/

namespace Concrete

/-- The disk takes the block; no image is due. -/
def savedIo : DiskIo := ⟨true, false, [], [], false⟩

/-- The first block: a sync response with some content under the id of the empty batch is
decided. -/
def firstBlock (content : List UInt8) : List (AppMsg Digest) :=
  [syncUnder content, .decided emptyCert savedIo]

/-- An empty batch on the state after the first block. -/
def secondBatch (content : List UInt8) : List UInt8 :=
  leBytes (((nodeAfter (firstBlock content)).map fun n =>
    n.app.chain.stateCommitment.val).getD 0)

/-- The first block, and then one that the node has built itself. -/
def twoBlocks (content : List UInt8) : List (AppMsg Digest) :=
  firstBlock content ++ [.getValue 2 (some 0) (secondBatch content),
    .decided ⟨2, some 0, (HkValue.new (secondBatch content) : HkValue Digest).id⟩ savedIo]

/-- The node commits the empty batch's certificate with other bytes, and then a block of its own. -/
def blockOutOfMemory : List (AppMsg Digest) := twoBlocks otherBatch

/-- Height one is advertised and not served. -/
theorem blockOutOfMemory_unserved : ∃ n, HkNode.Run nodeParams nodeBoot blockOutOfMemory n ∧
    n.app.earliestHeight ≤ 1 ∧ 1 ≤ n.app.chain.height ∧ (n.decidedValue 1).isSome = false := by
  obtain ⟨n, hn, hprop⟩ := (Option.any_eq_true _ _).mp (show (nodeAfter blockOutOfMemory).any
    (fun n => n.app.earliestHeight ≤ 1 ∧ 1 ≤ n.app.chain.height ∧
      (n.decidedValue 1).isSome = false) = true by decide +kernel)
  exact ⟨n, path_of_foldlM hn, of_decide_eq_true hprop⟩

/-- With the empty batch itself height one is served, from the disk, once the second block has taken
its place in memory, and so is height two. -/
theorem firstBlock_served : ∃ n, HkNode.Run nodeParams nodeBoot (twoBlocks emptyBatch) n ∧
    n.app.earliestHeight ≤ 1 ∧ n.app.chain.height = 2 ∧ n.app.decided[1]? = none ∧
    (n.decidedValue 1).isSome = true ∧ (n.decidedValue 2).isSome = true := by
  obtain ⟨n, hn, hprop⟩ := (Option.any_eq_true _ _).mp
    (show (nodeAfter (twoBlocks emptyBatch)).any (fun n => n.app.earliestHeight ≤ 1 ∧
      n.app.chain.height = 2 ∧ n.app.decided[1]?.isNone = true) = true by decide +kernel)
  obtain ⟨hlo, htip, hmemory⟩ := of_decide_eq_true hprop
  have hrun : HkNode.Run nodeParams nodeBoot (twoBlocks emptyBatch) n := path_of_foldlM hn
  have hserved : ∀ k, n.app.earliestHeight ≤ k → k ≤ n.app.chain.height →
      (n.decidedValue k).isSome = true := by
    intro k
    refine HkNode.decidedValue_of_earliestHeight_le nodeParams nodeChain nodeSet hrun
      (Path.Along.of_forall_mem fun msg hmsg s => ?_)
    simp only [twoBlocks, firstBlock, List.cons_append, List.nil_append, List.mem_cons,
      List.not_mem_nil, or_false] at hmsg
    obtain rfl | rfl | rfl | rfl := hmsg
    · exact ⟨syncBound_emptyBatch, trivial⟩
    · exact ⟨trivial, fun _ himage => by cases himage⟩
    · exact ⟨trivial, trivial⟩
    · exact ⟨trivial, fun _ himage => by cases himage⟩
  exact ⟨n, hrun, hlo, htip, Option.isNone_iff_eq_none.mp hmemory, hserved 1 hlo (by omega),
    hserved 2 (by omega) (by omega)⟩

end Concrete

end HashKinetics
