import HashKinetics.Node.Mempool
import HashKinetics.Node.SearchIndex

/-!
# The search index along a run

Commits, the background pass, writes of the index file and restarts in any order.  When no
transaction id stands in two blocks, the index holds at every moment the blocks of some heights,
with none twice, and once the pass is done these are all of them.  When an id does stand in two
blocks, a restart between them leaves the index with the place of the earlier one.
-/

namespace HashKinetics

open Foundations

namespace Indexer

variable {H : Type} [LinearOrder H] [HashSuite H] [NodeCodec H]
  {blocks : ℕ → List (SignedTx H)} {s s' : Indexer H} {S : Finset ℕ}

/-! ## The heights that are indexed -/

/-- What the pass has still to read: heights in order, of which none is indexed, and with them all
heights are. -/
structure Remaining (tip : ℕ) (S : Finset ℕ) (todo : List ℕ) : Prop where
  sorted : todo.Pairwise (· < ·)
  range : ∀ h ∈ todo, 1 ≤ h ∧ h ≤ tip
  new : ∀ h ∈ todo, h ∉ S
  rest : ∀ h, 1 ≤ h → h ≤ tip → h ∈ S ∨ h ∈ todo

/-- The heights of `S` are indexed, and the floor, the pass and the file know which. -/
structure Indexes (blocks : ℕ → List (SignedTx H)) (S : Finset ℕ) (s : Indexer H) : Prop where
  holds : SearchIndex.Holds blocks S s.index
  range : ∀ h ∈ S, 1 ≤ h ∧ h ≤ s.tip
  snapshot : s.snapshot ≤ s.tip
  done : s.floor = none → ∀ h, 1 ≤ h → h ≤ s.tip → h ∈ S
  floor : ∀ f, s.floor = some f → f ≤ s.tip ∧ ∀ h, 1 ≤ h → h ≤ f → h ∈ S
  next : ∀ todo, s.pass = .next todo → Remaining s.tip S todo
  indexed : ∀ h todo, s.pass = .indexed h todo → Remaining s.tip S todo ∧ h ≤ s.tip ∧
    ∀ k ∈ todo, h < k
  reading : ∀ t, s.reading = some t → t ≤ s.tip ∧ ∀ h, 1 ≤ h → h ≤ t → h ∈ S
  saved : ∀ p, s.saved = some p → p.throughHeight ≤ s.tip ∧
    p.Holds blocks (Finset.Icc 1 p.throughHeight)

lemma indexes_fresh (blocks : ℕ → List (SignedTx H)) : Indexes blocks ∅ (fresh : Indexer H) where
  holds := SearchIndex.holds_empty blocks
  range h hh := by simp at hh
  snapshot := le_rfl
  done _ h h₁ h₂ := absurd (h₁.trans h₂) (by simp [fresh])
  floor f hf := by cases hf
  next todo hp := by cases hp
  indexed h todo hp := by cases hp
  reading t ht := by cases ht
  saved p hp := by cases hp

/-- The heights of one more block that the pass does not read. -/
lemma Remaining.grow {tip : ℕ} {todo : List ℕ} (h : Remaining tip S todo) :
    Remaining (tip + 1) (insert (tip + 1) S) todo where
  sorted := h.sorted
  range k hk := ⟨(h.range k hk).1, (h.range k hk).2.trans (Nat.le_succ tip)⟩
  new k hk hmem := by
    have hle := (h.range k hk).2
    rcases Finset.mem_insert.mp hmem with rfl | hmem
    · omega
    · exact h.new k hk hmem
  rest k h₁ h₂ := by
    rcases Nat.lt_or_ge k (tip + 1) with hlt | hge
    · rcases h.rest k h₁ (by omega) with hk | hk
      · exact .inl (Finset.mem_insert_of_mem hk)
      · exact .inr hk
    · obtain rfl : k = tip + 1 := le_antisymm h₂ hge
      exact .inl (Finset.mem_insert_self _ _)

/-- A commit. -/
lemma Indexes.commit (h : Indexes blocks S s) (hno : NoRepeats blocks) (hread : s.reading = none) :
    Indexes blocks (insert (s.tip + 1) S)
      { s with tip := s.tip + 1
               index := s.index.indexTxsInto (s.tip + 1) (blocks (s.tip + 1)) } where
  holds := by
    refine h.holds.insert hno (fun k hk => (h.range k hk).1) (by omega) fun hmem => ?_
    have := (h.range _ hmem).2
    omega
  range k hk := by
    rcases Finset.mem_insert.mp hk with rfl | hk
    · exact ⟨by omega, le_rfl⟩
    · exact ⟨(h.range k hk).1, (h.range k hk).2.trans (Nat.le_succ _)⟩
  snapshot := h.snapshot.trans (Nat.le_succ _)
  done hf k h₁ h₂ := by
    rcases Nat.lt_or_ge k (s.tip + 1) with hlt | hge
    · exact Finset.mem_insert_of_mem (h.done hf k h₁ (by omega))
    · obtain rfl : k = s.tip + 1 := le_antisymm h₂ hge
      exact Finset.mem_insert_self _ _
  floor f hf := ⟨(h.floor f hf).1.trans (Nat.le_succ _), fun k h₁ h₂ =>
    Finset.mem_insert_of_mem ((h.floor f hf).2 k h₁ h₂)⟩
  next todo hp := (h.next todo hp).grow
  indexed k todo hp := by
    obtain ⟨hrem, hle, hlt⟩ := h.indexed k todo hp
    exact ⟨hrem.grow, hle.trans (Nat.le_succ _), hlt⟩
  reading t ht := by
    rw [show s.reading = some t from ht] at hread
    cases hread
  saved p hp := ⟨(h.saved p hp).1.trans (Nat.le_succ _), (h.saved p hp).2⟩

/-- The coverage that is read for a write. -/
lemma Indexes.readFloor (h : Indexes blocks S s) :
    Indexes blocks S { s with reading := some (s.floor.getD s.tip) } where
  holds := h.holds
  range := h.range
  snapshot := h.snapshot
  done := h.done
  floor := h.floor
  next := h.next
  indexed := h.indexed
  saved := h.saved
  reading t ht := by
    obtain rfl : s.floor.getD s.tip = t := Option.some.inj ht
    cases hf : s.floor with
    | none => exact ⟨le_rfl, h.done hf⟩
    | some f => exact h.floor f hf

/-- A write covers the heights up to the coverage that was read. -/
lemma Indexes.saveIndex (h : Indexes blocks S s) {t : ℕ} (hread : s.reading = some t) (ok : Bool) :
    Indexes blocks S { s with reading := none
                              saved := if ok then some (s.index.persisted t) else s.saved } where
  holds := h.holds
  range := h.range
  snapshot := h.snapshot
  done := h.done
  floor := h.floor
  next := h.next
  indexed := h.indexed
  reading t' ht' := by cases ht'
  saved p hp := by
    cases ok with
    | false => exact h.saved p hp
    | true =>
      obtain rfl : s.index.persisted t = p := Option.some.inj hp
      obtain ⟨hle, hall⟩ := h.reading t hread
      have hcover : S.filter (· ≤ t) = Finset.Icc 1 t := by
        ext k
        rw [Finset.mem_filter, Finset.mem_Icc]
        exact ⟨fun hk => ⟨(h.range k hk.1).1, hk.2⟩, fun hk => ⟨hall k hk.1 hk.2, hk.2⟩⟩
      have hholds := h.holds.persisted t
      rw [hcover] at hholds
      exact ⟨hle, hholds⟩

/-- The pass indexes its next height. -/
lemma Indexes.passIndex (h : Indexes blocks S s) (hno : NoRepeats blocks) {k : ℕ} {todo : List ℕ}
    (hp : s.pass = .next (k :: todo)) :
    Indexes blocks (insert k S)
      { s with index := s.index.indexTxsInto k (blocks k), pass := .indexed k todo } := by
  have hrem := h.next _ hp
  obtain ⟨hlt, hsorted⟩ := List.pairwise_cons.mp hrem.sorted
  obtain ⟨hk₁, hk₂⟩ := hrem.range k (by simp)
  refine ⟨h.holds.insert hno (fun k hk => (h.range k hk).1) hk₁ (hrem.new k (by simp)), ?_,
    h.snapshot, fun hf j h₁ h₂ => Finset.mem_insert_of_mem (h.done hf j h₁ h₂),
    fun f hf => ⟨(h.floor f hf).1, fun j h₁ h₂ =>
      Finset.mem_insert_of_mem ((h.floor f hf).2 j h₁ h₂)⟩, by rintro _ ⟨⟩, ?_,
    fun t ht => ⟨(h.reading t ht).1, fun j h₁ h₂ =>
      Finset.mem_insert_of_mem ((h.reading t ht).2 j h₁ h₂)⟩, h.saved⟩
  · intro j hj
    rcases Finset.mem_insert.mp hj with rfl | hj
    · exact ⟨hk₁, hk₂⟩
    · exact h.range j hj
  · rintro k' todo' heq
    obtain ⟨rfl, rfl⟩ := IndexPass.indexed.inj heq
    refine ⟨⟨hsorted, fun j hj => hrem.range j (by simp [hj]), fun j hj hmem => ?_,
      fun j h₁ h₂ => ?_⟩, hk₂, hlt⟩
    · rcases Finset.mem_insert.mp hmem with rfl | hmem
      · exact lt_irrefl _ (hlt _ hj)
      · exact hrem.new j (by simp [hj]) hmem
    · rcases hrem.rest j h₁ h₂ with hj | hj
      · exact .inl (Finset.mem_insert_of_mem hj)
      · rcases List.mem_cons.mp hj with rfl | hj
        · exact .inl (Finset.mem_insert_self _ _)
        · exact .inr hj

/-- The pass counts the height it has indexed. -/
lemma Indexes.passAdvance (h : Indexes blocks S s) {k : ℕ} {todo : List ℕ}
    (hp : s.pass = .indexed k todo) :
    Indexes blocks S { s with floor := some k, pass := .next todo } := by
  obtain ⟨hrem, hle, hlt⟩ := h.indexed k todo hp
  refine ⟨h.holds, h.range, h.snapshot, (by rintro ⟨⟩), ?_, ?_, (by rintro _ _ ⟨⟩), h.reading,
    h.saved⟩
  · intro f hf
    obtain rfl : k = f := Option.some.inj hf
    refine ⟨hle, fun j h₁ h₂ => ?_⟩
    rcases hrem.rest j h₁ (h₂.trans hle) with hj | hj
    · exact hj
    · exact absurd (hlt j hj) (not_lt.mpr h₂)
  · intro todo' heq
    obtain rfl := IndexPass.next.inj heq
    exact hrem

/-- The pass is done. -/
lemma Indexes.passFinish (h : Indexes blocks S s) (hp : s.pass = .next []) :
    Indexes blocks S { s with floor := none, pass := .idle } := by
  have hrem := h.next [] hp
  refine ⟨h.holds, h.range, h.snapshot, fun _ k h₁ h₂ => ?_, (by rintro _ ⟨⟩), (by rintro _ ⟨⟩),
    (by rintro _ _ ⟨⟩), h.reading, h.saved⟩
  rcases hrem.rest k h₁ h₂ with hk | hk
  · exact hk
  · simp at hk

/-- A restart from an index that covers the heights up to `through` and those above the snapshot. -/
lemma Indexes.restarted_over (h : Indexes blocks S s) {index : SearchIndex H} {through : ℕ}
    (hle : through ≤ s.snapshot)
    (hindex : SearchIndex.Holds blocks (Finset.Ioc s.snapshot s.tip ∪ Finset.Icc 1 through) index)
    (indexHistory : Bool) :
    Indexes blocks (Finset.Ioc s.snapshot s.tip ∪ Finset.Icc 1 through)
      (if indexHistory ∧ List.range' (through + 1) (s.snapshot - through) ≠ [] then
        { s with index, floor := some through,
                 pass := .next (List.range' (through + 1) (s.snapshot - through)), reading := none }
      else
        { s with index, floor := if indexHistory then none else some through, pass := .idle,
                 reading := none }) := by
  have hsnap := h.snapshot
  have hmem : ∀ k, k ∈ Finset.Ioc s.snapshot s.tip ∪ Finset.Icc 1 through ↔
      s.snapshot < k ∧ k ≤ s.tip ∨ 1 ≤ k ∧ k ≤ through := by
    intro k
    rw [Finset.mem_union, Finset.mem_Ioc, Finset.mem_Icc]
  have hrange : ∀ k ∈ Finset.Ioc s.snapshot s.tip ∪ Finset.Icc 1 through, 1 ≤ k ∧ k ≤ s.tip := by
    intro k hk
    rw [hmem] at hk
    omega
  have hcovered : ∀ f, some through = some f →
      f ≤ s.tip ∧ ∀ k, 1 ≤ k → k ≤ f → k ∈ Finset.Ioc s.snapshot s.tip ∪ Finset.Icc 1 through := by
    intro f hf
    obtain rfl := Option.some.inj hf
    refine ⟨hle.trans hsnap, fun k h₁ h₂ => ?_⟩
    rw [hmem]
    omega
  split
  next hpass =>
    refine ⟨hindex, hrange, hsnap, by rintro ⟨⟩, hcovered, ?_, by rintro _ _ ⟨⟩, by rintro _ ⟨⟩,
      h.saved⟩
    intro todo heq
    obtain rfl := IndexPass.next.inj heq
    refine ⟨List.pairwise_lt_range', fun k hk => ?_, fun k hk hin => ?_, fun k h₁ h₂ => ?_⟩
    · rw [List.mem_range'_1] at hk
      dsimp only
      omega
    · rw [List.mem_range'_1] at hk
      rw [hmem] at hin
      omega
    · dsimp only at h₂
      rw [hmem, List.mem_range'_1]
      omega
  next hidle =>
    refine ⟨hindex, hrange, hsnap, ?_,
      ?_, by rintro _ ⟨⟩, by rintro _ _ ⟨⟩, by rintro _ ⟨⟩, h.saved⟩
    · -- nothing lies between the file and the snapshot
      intro hfloor k h₁ h₂
      dsimp only at hfloor h₂
      split at hfloor
      next hhistory =>
        have htodo : List.range' (through + 1) (s.snapshot - through) = [] := by
          by_contra hne
          exact hidle ⟨hhistory, hne⟩
        rw [List.range'_eq_nil_iff] at htodo
        rw [hmem]
        omega
      next => cases hfloor
    · intro f hf
      dsimp only at hf
      split at hf
      · cases hf
      · exact hcovered f hf

lemma nodup_heights (k n : ℕ) : (List.range' k n).Nodup := by
  have hsorted : (List.range' k n).Pairwise (· < ·) := List.pairwise_lt_range'
  exact hsorted.imp fun h => h.ne

/-- A restart. -/
lemma Indexes.restarted (h : Indexes blocks S s) (hno : NoRepeats blocks) (indexHistory : Bool) :
    ∃ S', Indexes blocks S' (s.restarted blocks indexHistory) := by
  have hreplay : SearchIndex.Holds blocks (Finset.Ioc s.snapshot s.tip)
    (Indexer.indexed blocks .empty
      (List.range' (s.snapshot + 1) (s.tip - s.snapshot))) := by
    have hholds := (SearchIndex.holds_empty blocks).indexed hno (by simp)
      (nodup_heights (s.snapshot + 1) (s.tip - s.snapshot)) (by
        intro k hk
        rw [List.mem_range'_1] at hk
        exact ⟨by omega, by simp⟩)
    have hset : ∅ ∪ (List.range' (s.snapshot + 1) (s.tip - s.snapshot)).toFinset =
        Finset.Ioc s.snapshot s.tip := by
      ext k
      rw [Finset.empty_union, List.mem_toFinset, List.mem_range'_1, Finset.mem_Ioc]
      omega
    rwa [hset] at hholds
  unfold Indexer.restarted
  cases hsaved : s.saved with
  | none =>
    have hindex : SearchIndex.Holds blocks (Finset.Ioc s.snapshot s.tip ∪ Finset.Icc 1 0)
        (Indexer.indexed blocks .empty (List.range' (s.snapshot + 1) (s.tip - s.snapshot))) := by
      simpa using hreplay
    have hover := h.restarted_over (Nat.zero_le _) hindex indexHistory
    simp only [hsaved] at hover
    exact ⟨_, hover⟩
  | some p =>
    obtain ⟨-, hp⟩ := h.saved p hsaved
    have hcut : (Finset.Icc 1 p.throughHeight).filter (· ≤ min p.throughHeight s.snapshot) =
        Finset.Icc 1 (min p.throughHeight s.snapshot) := by
      ext k
      rw [Finset.mem_filter, Finset.mem_Icc, Finset.mem_Icc]
      omega
    have hdisj : Disjoint (Finset.Ioc s.snapshot s.tip)
        ((Finset.Icc 1 p.throughHeight).filter (· ≤ min p.throughHeight s.snapshot)) := by
      refine Finset.disjoint_left.mpr fun k hk hk' => ?_
      rw [hcut, Finset.mem_Icc] at hk'
      rw [Finset.mem_Ioc] at hk
      omega
    have hback := hreplay.restore hp hno (fun k hk => by rw [Finset.mem_Ioc] at hk; omega)
      (fun k hk => (Finset.mem_Icc.mp hk).1) (min p.throughHeight s.snapshot) hdisj
    rw [hcut] at hback
    have hover := h.restarted_over (min_le_right _ _) hback indexHistory
    simp only [hsaved] at hover
    exact ⟨_, hover⟩

/-- Whatever happens, the blocks of some heights are indexed. -/
lemma Indexes.step (h : Indexes blocks S s) (hno : NoRepeats blocks) {act : IndexAct}
    (hstep : s.step blocks act = some s') : ∃ S', Indexes blocks S' s' := by
  cases act with
  | commit =>
    simp only [Indexer.step] at hstep
    split at hstep
    next hread =>
      cases hstep
      exact ⟨_, h.commit hno hread⟩
    next => cases hstep
  | takeSnapshot =>
    simp only [Indexer.step] at hstep
    split at hstep
    · cases hstep
      exact ⟨S, { h with snapshot := le_rfl }⟩
    · cases hstep
  | readFloor =>
    simp only [Indexer.step] at hstep
    split at hstep
    · cases hstep
      split
      · exact ⟨S, h⟩
      · exact ⟨S, h.readFloor⟩
    · cases hstep
  | saveIndex ok =>
    simp only [Indexer.step] at hstep
    split at hstep
    next t hread =>
      cases hstep
      exact ⟨S, h.saveIndex hread ok⟩
    next => cases hstep
  | passIndex =>
    simp only [Indexer.step] at hstep
    split at hstep
    next k todo hp =>
      cases hstep
      exact ⟨_, h.passIndex hno hp⟩
    next => cases hstep
  | passAdvance =>
    simp only [Indexer.step] at hstep
    split at hstep
    next k todo hp =>
      cases hstep
      exact ⟨S, h.passAdvance hp⟩
    next => cases hstep
  | passFinish =>
    simp only [Indexer.step] at hstep
    split at hstep
    next hp =>
      cases hstep
      exact ⟨S, h.passFinish hp⟩
    next => cases hstep
  | restart indexHistory =>
    cases hstep
    exact h.restarted hno indexHistory

/-- The index of the chain holds all its blocks. -/
lemma holds_ofChain (hno : NoRepeats blocks) (tip : ℕ) :
    SearchIndex.Holds blocks (Finset.Icc 1 tip) (ofChain blocks tip) := by
  have hholds := (SearchIndex.holds_empty blocks).indexed hno (by simp) (nodup_heights 1 tip) (by
    intro k hk
    rw [List.mem_range'_1] at hk
    exact ⟨hk.1, by simp⟩)
  have hset : ∅ ∪ (List.range' 1 tip).toFinset = Finset.Icc 1 tip := by
    ext k
    rw [Finset.empty_union, List.mem_toFinset, List.mem_range'_1, Finset.mem_Icc]
    omega
  rwa [hset] at hholds

/-- The index is that of the chain: each account lists a transaction once, the transactions stand
where the blocks in order put them, and the histories have the same entries. -/
def MatchesChain (blocks : ℕ → List (SignedTx H)) (s : Indexer H) : Prop :=
  (∀ a, ((s.index.history a).map (·.id)).Nodup) ∧ s.index.tx = (ofChain blocks s.tip).tx ∧
    ∀ a, (s.index.history a).Perm ((ofChain blocks s.tip).history a)

/-- Once the pass is done, the index is that of the chain, when no transaction id repeats. -/
lemma matchesChain_of_noRepeats (hno : NoRepeats blocks) {acts : List IndexAct}
    (hrun : Path (StepOf (step blocks)) fresh acts s) (hdone : s.floor = none) :
    s.MatchesChain blocks := by
  obtain ⟨S, h⟩ : ∃ S, Indexes blocks S s := by
    refine hrun.invariant (I := fun s => ∃ S, Indexes blocks S s) ⟨∅, indexes_fresh blocks⟩ ?_
    rintro _ _ _ - ⟨S, h⟩ hstep
    exact h.step hno hstep
  have hall : S = Finset.Icc 1 s.tip := by
    ext k
    rw [Finset.mem_Icc]
    exact ⟨h.range k, fun hk => h.done hdone k hk.1 hk.2⟩
  obtain ⟨htx, hacct⟩ := h.holds.same (hall ▸ holds_ofChain hno s.tip)
  exact ⟨h.holds.nodup hno fun k hk => (h.range k hk).1, htx, hacct⟩

/-! ## A transaction id in two blocks -/

/-- The transactions of a block stand in it, and the others where they stood. -/
lemma get_indexTxsInto (ix : SearchIndex H) (h : ℕ) (txs : List (SignedTx H)) (id : H) :
    (id ∈ txs.map txid → ∃ i, (ix.indexTxsInto h txs).tx[id]? = some (h, i)) ∧
      (id ∉ txs.map txid → (ix.indexTxsInto h txs).tx[id]? = ix.tx[id]?) := by
  have hrun : ∀ l : List (SignedTx H × ℕ),
      (id ∈ l.map (fun p => txid p.1) → ∃ i, (l.foldl (fun ix p =>
        SearchIndex.indexTx h ix p.2 p.1) ix).tx[id]? = some (h, i)) ∧
      (id ∉ l.map (fun p => txid p.1) → (l.foldl (fun ix p =>
        SearchIndex.indexTx h ix p.2 p.1) ix).tx[id]? = ix.tx[id]?) := by
    intro l
    induction l using List.reverseRecOn with
    | nil => simp
    | append_singleton l p ih =>
      rw [List.foldl_append, List.foldl_cons, List.foldl_nil, SearchIndex.tx_indexTx,
        OrderedMap.get_insert, List.map_append, List.mem_append, List.map_singleton,
        List.mem_singleton]
      by_cases hid : txid p.1 = id
      · rw [if_pos hid]
        exact ⟨fun _ => ⟨_, rfl⟩, fun hno => absurd (.inr hid.symm) hno⟩
      · rw [if_neg hid]
        exact ⟨fun hin => ih.1 (hin.resolve_right fun h => hid h.symm),
          fun hno => ih.2 fun hin => hno (.inl hin)⟩
  rw [SearchIndex.map_txid_zipIdx]
  exact hrun _

/-- A transaction of one of the indexed blocks stands in one of them. -/
lemma get_indexed (ix : SearchIndex H) {heights : List ℕ} {id : H}
    (hin : ∃ h ∈ heights, id ∈ (blocks h).map txid) :
    ∃ h i, h ∈ heights ∧ (indexed blocks ix heights).tx[id]? = some (h, i) := by
  induction heights using List.reverseRecOn with
  | nil => simp at hin
  | append_singleton heights k ih =>
    rw [indexed, List.foldl_append]
    obtain ⟨hpos, hneg⟩ := get_indexTxsInto (indexed blocks ix heights) k (blocks k) id
    by_cases hk : id ∈ (blocks k).map txid
    · obtain ⟨i, hi⟩ := hpos hk
      exact ⟨k, i, by simp, hi⟩
    · obtain ⟨h, hh, hmem⟩ := hin
      rcases List.mem_append.mp hh with hh | hh
      · obtain ⟨h', i, hh', hget⟩ := ih ⟨h, hh, hmem⟩
        exact ⟨h', i, by simp [hh'], (hneg hk).trans hget⟩
      · rw [List.mem_singleton.mp hh] at hmem
        exact absurd hmem hk

lemma ofChain_succ (blocks : ℕ → List (SignedTx H)) (n : ℕ) :
    ofChain blocks (n + 1) = (ofChain blocks n).indexTxsInto (n + 1) (blocks (n + 1)) := by
  rw [ofChain, List.range'_concat, indexed, List.foldl_append, mul_comm, mul_one, add_comm 1 n]
  rfl

/-- A run of commits. -/
lemma path_commits (blocks : ℕ → List (SignedTx H)) (n : ℕ) :
    Path (StepOf (step blocks)) fresh (List.replicate n .commit)
      ⟨n, 0, none, ofChain blocks n, none, .idle, none⟩ := by
  induction n with
  | zero => exact .nil
  | succ n ih =>
    rw [List.replicate_succ']
    apply ih.snoc
    rw [ofChain_succ]
    rfl

/-- A run of the pass to its end. -/
lemma path_pass (blocks : ℕ → List (SignedTx H)) (todo : List ℕ) (s : Indexer H)
    (hp : s.pass = .next todo) :
    ∃ acts, Path (StepOf (step blocks)) s acts
      { s with index := indexed blocks s.index todo, floor := none, pass := .idle } := by
  induction todo generalizing s with
  | nil =>
    refine ⟨[.passFinish], .single ?_⟩
    simp only [StepOf, step, hp]
    rfl
  | cons h todo ih =>
    have hindex : StepOf (step blocks) s .passIndex
        { s with index := s.index.indexTxsInto h (blocks h), pass := .indexed h todo } := by
      simp only [StepOf, step, hp]
    have hadvance : StepOf (step blocks)
        { s with index := s.index.indexTxsInto h (blocks h), pass := .indexed h todo } .passAdvance
        { s with
          index := s.index.indexTxsInto h (blocks h)
          floor := some h
          pass := .next todo } :=
      rfl
    obtain ⟨acts, hrest⟩ := ih { s with
      index := s.index.indexTxsInto h (blocks h)
      floor := some h
      pass := .next todo } rfl
    exact ⟨_, ((Path.single hindex).snoc hadvance).append hrest⟩

/-- A transaction id in two blocks: the node restarts between them, replays the later one, and the
pass then puts the transaction back into an earlier one. -/
lemma not_matchesChain_of_repeat {h n : ℕ} (hh : 1 ≤ h) (hle : h ≤ n) {id : H}
    (hearly : id ∈ (blocks h).map txid) (hlate : id ∈ (blocks (n + 1)).map txid) :
    ∃ acts s, Path (StepOf (step blocks)) fresh acts s ∧ s.floor = none ∧
      ¬ s.MatchesChain blocks := by
  have hcommits := path_commits blocks n
  have hsnapshot := hcommits.snoc (show StepOf (step blocks)
    ⟨n, 0, none, ofChain blocks n, none, .idle, none⟩ .takeSnapshot
    ⟨n, n, none, ofChain blocks n, none, .idle, none⟩ from rfl)
  have hcommit := hsnapshot.snoc (show StepOf (step blocks)
    ⟨n, n, none, ofChain blocks n, none, .idle, none⟩ .commit
    ⟨n + 1, n, none, (ofChain blocks n).indexTxsInto (n + 1) (blocks (n + 1)), none, .idle, none⟩
      from rfl)
  have hrestart : StepOf (step blocks)
      ⟨n + 1, n, none, (ofChain blocks n).indexTxsInto (n + 1) (blocks (n + 1)), none, .idle, none⟩
      (.restart true)
      ⟨n + 1, n, none, SearchIndex.ofBlock (n + 1) (blocks (n + 1)), some 0,
        .next (List.range' 1 n), none⟩ := by
    have htodo : List.range' (0 + 1) (n - 0) ≠ [] := by
      rw [Ne, List.range'_eq_nil_iff]
      omega
    simp only [StepOf, step, restarted, ne_eq, htodo, not_false_eq_true, and_self, if_true]
    rw [show n + 1 - n = 1 by omega]
    rfl
  obtain ⟨acts, hpass⟩ := path_pass blocks (List.range' 1 n) ⟨n + 1, n, none,
    SearchIndex.ofBlock (n + 1) (blocks (n + 1)), some 0, .next (List.range' 1 n), none⟩ rfl
  refine ⟨_, _, (hcommit.snoc hrestart).append hpass, rfl, ?_⟩
  rintro ⟨-, htx, -⟩
  have hin : ∃ k ∈ List.range' 1 n, id ∈ (blocks k).map txid := by
    refine ⟨h, ?_, hearly⟩
    rw [List.mem_range'_1]
    omega
  obtain ⟨k, i, hk, hget⟩ := get_indexed (SearchIndex.ofBlock (n + 1) (blocks (n + 1))) hin
  obtain ⟨i', hlast⟩ := (get_indexTxsInto (ofChain blocks n) (n + 1) (blocks (n + 1)) id).1 hlate
  rw [← ofChain_succ] at hlast
  dsimp only at htx
  rw [htx, hlast] at hget
  obtain ⟨rfl, -⟩ := Prod.mk.inj (Option.some.inj hget)
  rw [List.mem_range'_1] at hk
  omega

/-- Along every run over the blocks, each account lists a transaction once and the index has the
entries of the blocks indexed in order whenever the pass is done, if and only if no transaction id
stands in two blocks. -/
theorem matchesChain_iff_noRepeats (blocks : ℕ → List (SignedTx H)) :
    (∀ acts s, Path (StepOf (step blocks)) fresh acts s → s.floor = none → s.MatchesChain blocks) ↔
      NoRepeats blocks := by
  constructor
  · intro hall h h' hh hh' id hid hid'
    have horder : ∀ k k', 1 ≤ k → k < k' → id ∈ (blocks k).map txid →
        id ∉ (blocks k').map txid := by
      intro k k' hk hlt hin hin'
      obtain ⟨n, rfl⟩ : ∃ n, k' = n + 1 := ⟨k' - 1, by omega⟩
      obtain ⟨acts, s, hrun, hdone, hbad⟩ :=
        not_matchesChain_of_repeat hk (Nat.lt_succ_iff.mp hlt) hin hin'
      exact hbad (hall acts s hrun hdone)
    rcases Nat.lt_trichotomy h h' with hlt | heq | hgt
    · exact absurd hid' (horder h h' hh hlt hid)
    · exact heq
    · exact absurd hid (horder h' h hh' hgt hid')
  · intro hno acts s hrun hdone
    exact matchesChain_of_noRepeats hno hrun hdone

/-- The sender of a transaction that is not known gets one entry. -/
lemma newEntries_sender (height : ℕ) (tx : SignedTx H) :
    SearchIndex.newEntries height tx tx.sender = [⟨txid tx, height, txKind tx.payload⟩] := by
  have hno : ∀ cp, ¬ (cp ≠ tx.sender ∧ cp = tx.sender) := fun cp h => h.1 h.2
  unfold SearchIndex.newEntries
  cases txCounterparty tx.payload <;> simp [hno]

/-- A transaction of the third and the fourth block: the index is written at the fourth height while
the snapshot is at the third, and the restart drops its place, keeps its entry and lists it again. -/
lemma listed_twice {tx : SignedTx H} (h₁ : blocks 1 = []) (h₂ : blocks 2 = []) (h₃ : blocks 3 = [tx])
    (h₄ : blocks 4 = [tx]) :
    ∃ s, Path (StepOf (step blocks)) fresh
        [.commit, .commit, .commit, .takeSnapshot, .commit, .readFloor, .saveIndex true,
          .restart true] s ∧
      s.floor = none ∧ ¬ ((s.index.history tx.sender).map (·.id)).Nodup := by
  let once := SearchIndex.indexTx 3 (.empty : SearchIndex H) 0 tx
  let live := SearchIndex.indexTx 4 once 0 tx
  have honce : once.history tx.sender = [⟨txid tx, 3, txKind tx.payload⟩] := by
    rw [SearchIndex.history_indexTx, newEntries_sender]
    simp [SearchIndex.empty, SearchIndex.history]
  have hreplayed : (SearchIndex.indexTx 4 (.empty : SearchIndex H) 0 tx).history tx.sender =
      [⟨txid tx, 4, txKind tx.payload⟩] := by
    rw [SearchIndex.history_indexTx, newEntries_sender]
    simp [SearchIndex.empty, SearchIndex.history]
  -- the fourth block finds the transaction known
  have hlive : live.history tx.sender = [⟨txid tx, 3, txKind tx.payload⟩] := by
    rw [SearchIndex.history_indexTx, honce]
    simp [once]
  have hlast : (⟨4, 3, some (live.persisted 4), live, none, .idle, none⟩ : Indexer H).restarted
      blocks true = ⟨4, 3, some (live.persisted 4), (SearchIndex.indexTx 4 (.empty : SearchIndex H)
        0 tx).restore (live.persisted 4) 3, none, .idle, none⟩ := by
    have hreplay : indexed blocks .empty (List.range' (3 + 1) (4 - 3)) =
        SearchIndex.indexTx 4 (.empty : SearchIndex H) 0 tx := by
      change SearchIndex.indexTxsInto .empty 4 (blocks 4) = _
      rw [h₄]
      rfl
    simp only [restarted, hreplay]
    rfl
  have hfirst : StepOf (step blocks) fresh .commit ⟨1, 0, none, .empty, none, .idle, none⟩ := by
    change some _ = some _
    rw [show fresh.tip + 1 = 1 from rfl, h₁]
    rfl
  have hsecond : StepOf (step blocks) ⟨1, 0, none, .empty, none, .idle, none⟩ .commit
      ⟨2, 0, none, .empty, none, .idle, none⟩ := by
    change some _ = some _
    rw [h₂]
    rfl
  have hthird : StepOf (step blocks) ⟨2, 0, none, .empty, none, .idle, none⟩ .commit
      ⟨3, 0, none, once, none, .idle, none⟩ := by
    change some _ = some _
    rw [h₃]
    rfl
  have hsnapshot : StepOf (step blocks) ⟨3, 0, none, once, none, .idle, none⟩ .takeSnapshot
      ⟨3, 3, none, once, none, .idle, none⟩ := rfl
  have hfourth : StepOf (step blocks) ⟨3, 3, none, once, none, .idle, none⟩ .commit
      ⟨4, 3, none, live, none, .idle, none⟩ := by
    change some _ = some _
    rw [h₄]
    rfl
  have hread : StepOf (step blocks) ⟨4, 3, none, live, none, .idle, none⟩ .readFloor
      ⟨4, 3, none, live, none, .idle, some 4⟩ := rfl
  have hsave : StepOf (step blocks) ⟨4, 3, none, live, none, .idle, some 4⟩ (.saveIndex true)
      ⟨4, 3, some (live.persisted 4), live, none, .idle, none⟩ := rfl
  have hrestart : StepOf (step blocks) ⟨4, 3, some (live.persisted 4), live, none, .idle, none⟩
      (.restart true) _ := rfl
  refine ⟨_, .cons hfirst (.cons hsecond (.cons hthird (.cons hsnapshot (.cons hfourth
    (.cons hread (.cons hsave (.single hrestart))))))), ?_, ?_⟩
  · rw [hlast]
  · rw [hlast]
    dsimp only
    rw [SearchIndex.history_restore, hreplayed, SearchIndex.history_persisted, hlive]
    simp

end Indexer

namespace Concrete

/-- A transfer that stands in the third block and in the fourth. -/
def repeatedTx : SignedTx ℕ := signed [1] 1 0 (.transfer 2 7 5)

def repeatedBlocks (h : ℕ) : List (SignedTx ℕ) := if h = 3 ∨ h = 4 then [repeatedTx] else []

/-- The snapshot is taken at the third height, the index is written at the fourth, and the node
restarts: the place of the transfer is above the snapshot and is dropped, its entry below is kept,
and the replay of the fourth block lists it again. -/
theorem repeatedTx_listed_twice : ∃ s,
    Path (StepOf (Indexer.step repeatedBlocks)) .fresh
      [.commit, .commit, .commit, .takeSnapshot, .commit, .readFloor, .saveIndex true,
        .restart true] s ∧
    s.floor = none ∧ ¬ ((s.index.history 1).map (·.id)).Nodup :=
  Indexer.listed_twice rfl rfl (show repeatedBlocks 3 = [repeatedTx] from rfl) rfl

end Concrete

end HashKinetics
