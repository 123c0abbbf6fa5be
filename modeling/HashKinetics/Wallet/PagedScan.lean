import HashKinetics.Foundations.Rounds
import HashKinetics.Wallet.HonestSpend

/-!
# Paged scanning

The node cuts a page out of the feed of a pool for each call, and the feed may grow between two
calls.  The client asks for pages until there is no next one, and keeps the size of the feed at the
last call as the cursor of its next scan.  Of what it fetched it keeps, epoch by epoch, every note
whose position it has not seen, so the notes of several scans are those of one scan of the whole
feed.
-/

namespace HashKinetics

open Foundations Circuit

/-! ## The pages of the node -/

/-- The commitments of a pool with their ciphertexts, in tree order. -/
abbrev PoolFeed (H : Type) := List (H × List UInt8)

/-- An entry of a pool for a scanner: position, commitment and ciphertext. -/
abbrev Entry (H : Type) := ℕ × H × List UInt8

/-- Every entry of a feed with its position. -/
def indexed {H : Type} (feed : PoolFeed H) : List (Entry H) := feed.mapIdx fun i e => (i, e.1, e.2)

section Feed

variable {H : Type}

@[simp] lemma length_indexed (feed : PoolFeed H) : (indexed feed).length = feed.length := by
  simp [indexed]

@[simp] lemma getElem_indexed {feed : PoolFeed H} {i : ℕ} (h : i < (indexed feed).length) :
    (indexed feed)[i] =
      (i, (feed.get ⟨i, by simpa using h⟩).1, (feed.get ⟨i, by simpa using h⟩).2) := by
  simp [indexed]

/-- The entries of an earlier feed are the first ones of a later feed. -/
lemma indexed_of_grown {feed later : PoolFeed H} (h : feed <+: later) :
    indexed feed = (indexed later).take feed.length := by
  obtain ⟨rest, rfl⟩ := h
  refine List.ext_getElem (by simp) fun i h₁ h₂ => ?_
  have hi : i < feed.length := by simpa using h₁
  simp [List.getElem_append_left hi]

/-- The positions of the entries are distinct. -/
lemma nodup_indexed (feed : PoolFeed H) : ((indexed feed).map Prod.fst).Nodup := by
  have hfst : (indexed feed).map Prod.fst = List.range feed.length := by
    refine List.ext_getElem (by simp) fun i _ _ => ?_
    simp
  rw [hfst]
  exact List.nodup_range

end Feed

/-! ## The pages of the client -/

section Paging

variable {H : Type}

/-- The entries from a position on have no smaller position. -/
lemma le_of_mem_drop_indexed {feed : PoolFeed H} {c : ℕ} {e : Entry H} {n : ℕ}
    (h : e ∈ ((indexed feed).take n).drop c) : c ≤ e.1 := by
  obtain ⟨i, hi, rfl⟩ := List.getElem_of_mem h
  rw [List.getElem_drop, List.getElem_take, getElem_indexed]
  exact Nat.le_add_right _ _

end Paging

/-! ## The notes of a wallet -/

/-- The length of an epoch in blocks. -/
def EPOCH_BLOCKS : ℕ := 1000

/-- The epoch of a height. -/
def epochOf (height : ℕ) : ℕ := height / EPOCH_BLOCKS

/-- A note as the wallet stores it. -/
structure StoredNote (H : Type) where
  leafIndex : ℕ
  commitment : H
  value : ℕ
  rho : H
  rcm : H
  memo : List UInt8
  spent : Bool

namespace StoredNote

variable {H : Type}

def fromDiscovered (d : Discovered H) : StoredNote H :=
  { leafIndex := d.leafIndex, commitment := d.commitment, value := d.note.value, rho := d.note.rho
    rcm := d.note.rcm, memo := d.memo, spent := false }

def toDiscovered (owner : H) (n : StoredNote H) : Discovered H :=
  { note := ⟨n.value, owner, n.rho, n.rcm⟩, commitment := n.commitment, leafIndex := n.leafIndex
    memo := n.memo }

end StoredNote

/-- The scan cursor and the notes found in one pool. -/
structure ScanCache (H : Type) where
  chainId : String
  scannedThrough : ℕ
  notes : List (StoredNote H)

/-- A cache that has scanned nothing. -/
def ScanCache.empty {H : Type} (chainId : String) : ScanCache H := ⟨chainId, 0, []⟩

/-- What becomes of the file: it is written, it is not, or it is and the call fails all the same. -/
inductive SaveOutcome where
  | done
  | lost (e : String)
  | unsynced (e : String)

/-- What the node and the disk answer during one scan. -/
structure ScanCalls (H : Type) where
  chainInfo : Except String String
  /-- The feed that each call of the paging loop sees. -/
  pages : ℕ → Except String (PoolFeed H)
  /-- The same for the loop that starts over. -/
  pagesAgain : ℕ → Except String (PoolFeed H)
  height : Except String ℕ
  nullifierSpent : H → Bool
  save : SaveOutcome

section MyNotes

variable {H : Type} [DecidableEq H] [HashSuite H] [NoteCrypto H]

/-- Add what the epochs up to the current one discover among the entries. -/
def collectNotes (keys : WalletKeys) (cur : ℕ) (entries : List (Entry H))
    (notes : List (StoredNote H)) : List (StoredNote H) :=
  (List.range (cur + 1)).foldl (fun notes e =>
    ((scanAt keys e entries).map StoredNote.fromDiscovered).foldl (keepNew StoredNote.leafIndex)
      notes)
    notes

/-- The notes after a fetch; the height is asked for only when there is something to scan. -/
def collectFetched (keys : WalletKeys) (cache : ScanCache H) (calls : ScanCalls H)
    (entries : List (Entry H)) : Except String (List (StoredNote H)) :=
  if entries.isEmpty then .ok cache.notes
  else
    match calls.height with
    | .error e => .error e
    | .ok height => .ok (collectNotes keys (epochOf height) entries cache.notes)

/-- The node has seen the nullifier of a note that is not marked yet. -/
def newlySpent (keys : WalletKeys) (calls : ScanCalls H) (n : StoredNote H) : Bool :=
  !n.spent && calls.nullifierSpent (nullifier keys.nk n.rho)

/-- Mark what is spent. -/
def markSpent (keys : WalletKeys) (calls : ScanCalls H) (notes : List (StoredNote H)) :
    List (StoredNote H) :=
  notes.map fun n => if newlySpent keys calls n then { n with spent := true } else n

/-- The end of a scan: collect, move the cursor, mark what is spent, and save what changed.  The
file is what the next scan starts from. -/
def finishScan (keys : WalletKeys) (file cache : ScanCache H) (changed : Bool) (calls : ScanCalls H)
    (entries : List (Entry H)) (total : ℕ) :
    Except String (List (Discovered H × Bool)) × ScanCache H :=
  match collectFetched keys cache calls entries with
  | .error e => (.error e, file)
  | .ok notes =>
    let marked := markSpent keys calls notes
    let cache' : ScanCache H :=
      { chainId := cache.chainId, scannedThrough := max cache.scannedThrough total,
        notes := marked }
    let out := marked.map fun n => (n.toDiscovered keys.ownerTag, n.spent)
    if changed || cache.notes.length < notes.length || cache.scannedThrough < total ||
        notes.any (newlySpent keys calls) then
      match calls.save with
      | .done => (.ok out, cache')
      | .lost e => (.error e, file)
      | .unsynced e => (.error e, cache')
    else (.ok out, file)

/-- The chain the node is on; a node that does not answer is on no chain. -/
def ScanCalls.chainId (calls : ScanCalls H) : String :=
  match calls.chainInfo with
  | .ok id => id
  | .error _ => ""

/-- What a scan starts from: a file of another chain is forgotten. -/
def ScanCache.onChain (file : ScanCache H) (chainId : String) : ScanCache H :=
  if file.chainId ≠ chainId then .empty chainId else file

/-- What the wallet finds in an entry by some epoch: the discovery of the first epoch that has
one. -/
def foundBy (keys : WalletKeys) (cur : ℕ) (entry : Entry H) : Option (Discovered H) :=
  firstHit (scanEntry keys) (List.range (cur + 1)) entry

/-- What an epoch finds in an entry is a note of the wallet at the position of the entry. -/
lemma scanEntry_spec {keys : WalletKeys} {epoch : ℕ} {entry : Entry H} {d : Discovered H}
    (h : scanEntry keys epoch entry = some d) :
    d.leafIndex = entry.1 ∧ (StoredNote.fromDiscovered d).toDiscovered keys.ownerTag = d := by
  obtain ⟨leafIndex, commitment, ct⟩ := entry
  simp only [scanEntry, Option.bind_eq_bind] at h
  split_ifs at h with hshort
  simp only [Option.bind_eq_some_iff] at h
  obtain ⟨shared, -, pt, -, ⟨value, rho, rcm, memo⟩, -, hnote⟩ := h
  split_ifs at hnote with hcm
  cases hnote
  exact ⟨rfl, rfl⟩

lemma foundBy_spec {keys : WalletKeys} {cur : ℕ} {entry : Entry H} {d : Discovered H}
    (h : foundBy keys cur entry = some d) :
    d.leafIndex = entry.1 ∧ (StoredNote.fromDiscovered d).toDiscovered keys.ownerTag = d := by
  obtain ⟨e, -, he⟩ := exists_of_firstHit h
  exact scanEntry_spec he

/-- An entry that any epoch finds something in was sealed for one up to the given epoch. -/
def SealedBy (keys : WalletKeys) (cur : ℕ) (entry : Entry H) : Prop :=
  ∀ e, scanEntry keys e entry ≠ none → ∃ e' ≤ cur, scanEntry keys e' entry ≠ none

/-- Epochs later than the one an entry was sealed for may be left out. -/
lemma SealedBy.foundBy_eq {keys : WalletKeys} {cur last : ℕ} {entry : Entry H}
    (h : SealedBy keys cur entry) (hle : cur ≤ last) :
    foundBy keys cur entry = foundBy keys last entry := by
  obtain ⟨k, rfl⟩ := Nat.exists_eq_add_of_le hle
  have hsplit : List.range (cur + k + 1) =
      List.range (cur + 1) ++ (List.range k).map (cur + 1 + ·) := by
    rw [← List.range_add]
    congr 1
    omega
  rw [foundBy, foundBy, hsplit]
  refine (firstHit_append fun e _ hne => ?_).symm
  obtain ⟨e', he', hne'⟩ := h e hne
  exact ⟨e', List.mem_range.mpr (by omega), hne'⟩

lemma collectNotes_eq (keys : WalletKeys) (cur : ℕ) (entries : List (Entry H))
    (notes : List (StoredNote H)) :
    collectNotes keys cur entries notes = collectRounds StoredNote.leafIndex
      (fun e entry => (scanEntry keys e entry).map StoredNote.fromDiscovered) (List.range (cur + 1))
      entries notes := by
  simp only [collectNotes, collectRounds, collectRound, scanAt, List.map_filterMap]

/-- What a file has of a feed whose last epoch is known: the discoveries among the entries up to its
cursor. -/
structure Collected (keys : WalletKeys) (feed : PoolFeed H) (last : ℕ)
    (file : ScanCache H) : Prop where
  cursor_le : file.scannedThrough ≤ feed.length
  notes_perm : (file.notes.map (StoredNote.toDiscovered keys.ownerTag)).Perm
    (((indexed feed).take file.scannedThrough).filterMap (foundBy keys last))

lemma Collected.empty (keys : WalletKeys) (feed : PoolFeed H) (last : ℕ) (chainId : String) :
    Collected keys feed last (.empty chainId) :=
  ⟨Nat.zero_le _, by simp [ScanCache.empty]⟩

/-- A position beyond the cursor is not among the notes. -/
lemma Collected.fresh {keys : WalletKeys} {feed : PoolFeed H} {last : ℕ} {file : ScanCache H}
    (h : Collected keys feed last file) {i : ℕ} (hi : file.scannedThrough ≤ i) :
    i ∉ file.notes.map StoredNote.leafIndex := by
  intro hmem
  obtain ⟨n, hn, rfl⟩ := List.mem_map.mp hmem
  have hd := h.notes_perm.subset (List.mem_map_of_mem hn)
  obtain ⟨entry, hentry, hfound⟩ := List.mem_filterMap.mp hd
  have hindex : n.leafIndex = entry.1 := (foundBy_spec hfound).1
  obtain ⟨j, hj, rfl⟩ := List.getElem_of_mem hentry
  rw [List.getElem_take, getElem_indexed] at hindex
  rw [List.length_take] at hj
  change n.leafIndex = j at hindex
  omega

/-- Collecting what a later feed adds: the notes are then the discoveries in that feed. -/
lemma Collected.collect {keys : WalletKeys} {feed seen : PoolFeed H} {last height : ℕ}
    {file : ScanCache H} (h : Collected keys feed last file) (hseen : seen <+: feed)
    (hcursor : file.scannedThrough ≤ seen.length) (hle : epochOf height ≤ last)
    (hsealed : ∀ entry ∈ indexed seen, SealedBy keys (epochOf height) entry) :
    ((collectNotes keys (epochOf height) ((indexed seen).drop file.scannedThrough) file.notes).map
      (StoredNote.toDiscovered keys.ownerTag)).Perm
        ((indexed seen).filterMap (foundBy keys last)) := by
  have hnodup : (((indexed seen).drop file.scannedThrough).map Prod.fst).Nodup := by
    rw [List.map_drop]
    exact (nodup_indexed seen).sublist (List.drop_sublist _ _)
  have hhit : ∀ (e : ℕ) (entry : Entry H) (n : StoredNote H),
      (scanEntry keys e entry).map StoredNote.fromDiscovered = some n → n.leafIndex = entry.1 := by
    intro e entry n hn
    obtain ⟨d, hd, rfl⟩ := Option.map_eq_some_iff.mp hn
    exact (scanEntry_spec hd).1
  have hperm := collectRounds_perm hhit (List.range (epochOf height + 1)) hnodup file.notes
  rw [← collectNotes_eq] at hperm
  -- nothing that is fetched was there before, and the last epoch finds no more than the current one
  have hfetched : ((indexed seen).drop file.scannedThrough).filterMap
      (freshHit StoredNote.leafIndex Prod.fst file.notes (firstHit
        (fun e entry => (scanEntry keys e entry).map StoredNote.fromDiscovered)
        (List.range (epochOf height + 1)))) =
      ((indexed seen).drop file.scannedThrough).filterMap fun entry =>
        (foundBy keys last entry).map StoredNote.fromDiscovered := by
    refine List.filterMap_congr fun entry hentry => ?_
    have hnew : entry.1 ∉ file.notes.map StoredNote.leafIndex := by
      have hmem : entry ∈ ((indexed seen).take seen.length).drop file.scannedThrough := by
        rwa [List.take_of_length_le (by simp)]
      exact h.fresh (le_of_mem_drop_indexed hmem)
    have hmem : entry ∈ indexed seen := List.mem_of_mem_drop hentry
    rw [freshHit, if_neg hnew, firstHit_map, ← (hsealed entry hmem).foundBy_eq hle]
    rfl
  have hback : ∀ entries : List (Entry H),
      (entries.filterMap fun entry => (foundBy keys last entry).map StoredNote.fromDiscovered).map
        (StoredNote.toDiscovered keys.ownerTag) = entries.filterMap (foundBy keys last) := by
    intro entries
    rw [List.map_filterMap]
    refine List.filterMap_congr fun entry _ => ?_
    cases hfound : foundBy keys last entry with
    | none => rfl
    | some d => exact congrArg some (foundBy_spec hfound).2
  have hsplit : indexed seen = (indexed feed).take file.scannedThrough ++
      (indexed seen).drop file.scannedThrough := by
    conv_lhs => rw [← List.take_append_drop file.scannedThrough (indexed seen)]
    rw [indexed_of_grown hseen, List.take_take, min_eq_left hcursor]
  rw [hfetched] at hperm
  have hmapped := hperm.map (StoredNote.toDiscovered keys.ownerTag)
  rw [List.map_append, hback] at hmapped
  apply hmapped.trans
  conv_rhs => rw [hsplit, List.filterMap_append]
  exact h.notes_perm.append_right _

/-- The notes after a fetch are the discoveries in the feed that was seen. -/
lemma Collected.fetched {keys : WalletKeys} {feed seen : PoolFeed H} {last : ℕ}
    {cache : ScanCache H}
    (h : Collected keys feed last cache) (hseen : seen <+: feed)
    (hcursor : cache.scannedThrough ≤ seen.length) {calls : ScanCalls H}
    (hheight : ∀ height, calls.height = .ok height → epochOf height ≤ last ∧
      ∀ entry ∈ indexed seen, SealedBy keys (epochOf height) entry)
    {notes : List (StoredNote H)}
    (hnotes : collectFetched keys cache calls ((indexed seen).drop cache.scannedThrough) =
      .ok notes) :
    (notes.map (StoredNote.toDiscovered keys.ownerTag)).Perm
      ((indexed seen).filterMap (foundBy keys last)) := by
  unfold collectFetched at hnotes
  split_ifs at hnotes with hnone
  · have hend : seen.length ≤ cache.scannedThrough := by
      have hnil := List.isEmpty_iff.mp hnone
      rwa [List.drop_eq_nil_iff, length_indexed] at hnil
    obtain rfl : cache.notes = notes := Except.ok.inj hnotes
    have hperm := h.notes_perm
    rwa [le_antisymm hcursor hend, ← indexed_of_grown hseen] at hperm
  · split at hnotes
    · cases hnotes
    · rename_i height hok
      obtain rfl := Except.ok.inj hnotes
      obtain ⟨hle, hsealed⟩ := hheight height hok
      exact h.collect hseen hcursor hle hsealed

omit [DecidableEq H] [NoteCrypto H] in
/-- Marking does not change what a note is. -/
lemma map_toDiscovered_markSpent (keys : WalletKeys) (calls : ScanCalls H)
    (notes : List (StoredNote H)) :
    (markSpent keys calls notes).map (StoredNote.toDiscovered keys.ownerTag) =
      notes.map (StoredNote.toDiscovered keys.ownerTag) := by
  rw [markSpent, List.map_map]
  refine List.map_congr_left fun n _ => ?_
  simp only [Function.comp_apply]
  split_ifs <;> rfl

/-- The end of a scan of a feed from the cursor on: the file keeps its sense, and what is returned
are the discoveries in that feed, up to the new cursor. -/
lemma Collected.finish {keys : WalletKeys} {feed seen : PoolFeed H} {last : ℕ}
    {file cache : ScanCache H} (hfile : Collected keys feed last file)
    (h : Collected keys feed last cache) (hseen : seen <+: feed)
    (hcursor : cache.scannedThrough ≤ seen.length) (changed : Bool)
    (hsame : changed = false → file = cache) {calls : ScanCalls H}
    (hheight : ∀ height, calls.height = .ok height → epochOf height ≤ last ∧
      ∀ entry ∈ indexed seen, SealedBy keys (epochOf height) entry)
    {r : Except String (List (Discovered H × Bool))} {file' : ScanCache H}
    (hrun : finishScan keys file cache changed calls ((indexed seen).drop cache.scannedThrough)
      seen.length = (r, file')) :
    Collected keys feed last file' ∧
      ∀ out, r = .ok out → file'.scannedThrough = seen.length ∧
        (out.map Prod.fst).Perm ((indexed seen).filterMap (foundBy keys last)) := by
  unfold finishScan at hrun
  cases hnotes : collectFetched keys cache calls ((indexed seen).drop cache.scannedThrough) with
  | error e =>
    simp only [hnotes, Prod.mk.injEq] at hrun
    obtain ⟨rfl, rfl⟩ := hrun
    exact ⟨hfile, fun out hout => by cases hout⟩
  | ok notes =>
    have hperm : ((markSpent keys calls notes).map (StoredNote.toDiscovered keys.ownerTag)).Perm
        ((indexed seen).filterMap (foundBy keys last)) := by
      rw [map_toDiscovered_markSpent]
      exact h.fetched hseen hcursor hheight hnotes
    have hout : (((markSpent keys calls notes).map fun n =>
        (n.toDiscovered keys.ownerTag, n.spent)).map Prod.fst).Perm
        ((indexed seen).filterMap (foundBy keys last)) := by
      rw [List.map_map]
      exact hperm
    have hsaved : Collected keys feed last
        ⟨cache.chainId, max cache.scannedThrough seen.length, markSpent keys calls notes⟩ := by
      rw [max_eq_right hcursor]
      refine ⟨hseen.length_le, ?_⟩
      rw [← indexed_of_grown hseen]
      exact hperm
    simp only [hnotes] at hrun
    split_ifs at hrun with hchanged
    · cases hsave : calls.save with
      | done =>
        simp only [hsave, Prod.mk.injEq] at hrun
        obtain ⟨rfl, rfl⟩ := hrun
        exact ⟨hsaved, fun out h => ⟨max_eq_right hcursor, Except.ok.inj h ▸ hout⟩⟩
      | lost e =>
        simp only [hsave, Prod.mk.injEq] at hrun
        obtain ⟨rfl, rfl⟩ := hrun
        exact ⟨hfile, fun out h => by cases h⟩
      | unsynced e =>
        simp only [hsave, Prod.mk.injEq] at hrun
        obtain ⟨rfl, rfl⟩ := hrun
        exact ⟨hsaved, fun out h => by cases h⟩
    · simp only [Prod.mk.injEq] at hrun
      obtain ⟨rfl, rfl⟩ := hrun
      simp only [Bool.or_eq_true, decide_eq_true_eq, not_or, not_lt, Bool.not_eq_true] at hchanged
      obtain ⟨⟨⟨hfresh, -⟩, hbehind⟩, -⟩ := hchanged
      obtain rfl := hsame hfresh
      exact ⟨hfile, fun out h => ⟨le_antisymm hcursor hbehind, Except.ok.inj h ▸ hout⟩⟩

lemma Collected.onChain {keys : WalletKeys} {feed : PoolFeed H} {last : ℕ} {file : ScanCache H}
    (h : Collected keys feed last file) (chainId : String) :
    Collected keys feed last (file.onChain chainId) := by
  unfold ScanCache.onChain
  split_ifs
  · exact .empty keys feed last chainId
  · exact h

end MyNotes

namespace Concrete

end Concrete

end HashKinetics
