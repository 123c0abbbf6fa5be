import HashKinetics.Bridge.Attestor

/-!
# Mints against the final chain

The scan records events up to the head of the provider's chain and never reads a block again, while
the mints wait for the safe head.  As long as no reorganisation changes the events of a block that
was already read, every mint is the one of an event behind the safe head, and every event behind the
safe head and the cursor has its record.

An id is a nonce of the contract, so a reorganisation may put a different lock under the id of a
recorded one.  The record stays as it is, and the mint follows the record.
-/

namespace HashKinetics.Attest

open Foundations

variable {H : Type} [LinearOrder H] {cfg : Cfg H}

/-! ## Ledgers that agree with a chain -/

/-- The content of a record is that of an event of the chain with its id, in the block it names. -/
def Record.Matches (r : Record H) {deployed : ℕ} (eth : EthChain H deployed) (kind : Kind)
    (id : H) :
    Prop :=
  ∃ e ∈ eth.events kind r.seenAt, e.id = id ∧ r.amount = e.amount ∧ r.dst = .account e.hkAccount

/-- Every record of the ledger is that of an event in a block that was read, and every event up to
the cursor has a record. -/
structure Ledger.Agrees (cfg : Cfg H) (eth : EthChain H cfg.fromBlock) (fetched : ℕ)
    (l : Ledger H) :
    Prop where
  records : ∀ kind id r, l.get kind id = some r → r.Matches eth kind id ∧ r.seenAt ≤ fetched
  cursor : l.ethCursor ≤ max fetched (cfg.fromBlock - 1)
  complete : ∀ kind b e, cfg.asset kind ≠ none → b ≤ l.ethCursor → e ∈ eth.events kind b →
    l.has kind e.id = true

/-- A line that keeps a ledger in agreement: a new state for a record that is there, the content of
an event that was read, or a cursor up to which every event is recorded. -/
def Line.Agrees (cfg : Cfg H) (eth : EthChain H cfg.fromBlock) (fetched : ℕ) (l : Ledger H) :
    Line H → Prop
  | .ethCursor n => n ≤ fetched ∧ ∀ kind b e, cfg.asset kind ≠ none → b ≤ n →
      e ∈ eth.events kind b → l.has kind e.id = true
  | .hkCursor _ => True
  | .entry kind id _ f =>
    (f.amount = none ∧ f.dst = none ∧ f.seenAt = none ∧ l.has kind id = true) ∨
      ∃ e ∈ eth.events kind e.block, e.block ≤ fetched ∧ id = e.id ∧ f.amount = some e.amount ∧
        f.dst = some (.account e.hkAccount) ∧ f.seenAt = some e.block

/-- Every record of one ledger is also in another. -/
def Ledger.Within (l l' : Ledger H) : Prop := ∀ kind id, l.has kind id = true →
    l'.has kind id = true

namespace Ledger

variable {eth eth' : EthChain H cfg.fromBlock} {fetched fetched' : ℕ} {l l' : Ledger H}
    {line : Line H}

lemma has_iff {kind : Kind} {id : H} : l.has kind id = true ↔ ∃ r, l.get kind id = some r :=
  Option.isSome_iff_exists

/-- No line removes a record. -/
lemma within_fold (l : Ledger H) (line : Line H) : l.Within (l.fold line) := by
  intro kind id h
  obtain ⟨r, hr⟩ := has_iff.mp h
  cases line with
  | ethCursor n => exact h
  | hkCursor n => exact h
  | entry kind' id' state f =>
    rw [has_iff, get_fold_entry]
    split_ifs
    · exact ⟨_, rfl⟩
    · exact ⟨r, hr⟩

lemma Within.fold (h : l.Within l') (line : Line H) : (l.fold line).Within (l'.fold line) := by
  intro kind id hhas
  obtain ⟨r, hr⟩ := has_iff.mp hhas
  cases line with
  | ethCursor n => exact h kind id hhas
  | hkCursor n => exact h kind id hhas
  | entry kind' id' state f =>
    rw [get_fold_entry] at hr
    rw [has_iff, get_fold_entry]
    split_ifs at hr ⊢
    · exact ⟨_, rfl⟩
    · exact has_iff.mp (h kind id (has_iff.mpr ⟨r, hr⟩))

end Ledger

lemma Line.Agrees.mono {eth : EthChain H cfg.fromBlock} {fetched : ℕ} {l l' : Ledger H}
    {line : Line H}
    (h : line.Agrees cfg eth fetched l) (hwithin : l.Within l') :
    line.Agrees cfg eth fetched l' := by
  cases line with
  | ethCursor n => exact ⟨h.1, fun kind b e ha hb he => hwithin kind e.id (h.2 kind b e ha hb he)⟩
  | hkCursor n => trivial
  | entry kind id state f =>
    rcases h with ⟨hamount, hdst, hseen, hhas⟩ | hevent
    · exact .inl ⟨hamount, hdst, hseen, hwithin kind id hhas⟩
    · exact .inr hevent

namespace Ledger

variable {eth eth' : EthChain H cfg.fromBlock} {fetched fetched' : ℕ} {l l' : Ledger H}
    {line : Line H}

lemma agrees_init (cfg : Cfg H) (eth : EthChain H cfg.fromBlock) (fetched : ℕ) :
    (init cfg.fromBlock cfg.fromHeight : Ledger H).Agrees cfg eth fetched := by
  refine ⟨?_, le_max_right _ _, ?_⟩
  · intro kind id r hr
    simp [get, init] at hr
  · intro kind b e _ hb he
    rw [eth.quiet hb] at he
    cases he

lemma Agrees.fold (h : l.Agrees cfg eth fetched) (hline : line.Agrees cfg eth fetched l) :
    (l.fold line).Agrees cfg eth fetched := by
  cases line with
  | ethCursor n => exact ⟨h.records, hline.1.trans (le_max_left _ _), hline.2⟩
  | hkCursor n => exact ⟨h.records, h.cursor, h.complete⟩
  | entry kind id state f =>
    refine ⟨?_, h.cursor, fun kind' b e ha hb he => ?_⟩
    · intro kind' id' r hr
      rw [get_fold_entry] at hr
      split_ifs at hr with heq
      · obtain ⟨rfl, rfl⟩ := heq
        cases hr
        rcases hline with ⟨hamount, hdst, hseen, hhas⟩ | ⟨e, he, hread, rfl, hamount, hdst, hseen⟩
        · -- a line without content leaves the content of the record
          obtain ⟨r, hr⟩ := has_iff.mp hhas
          have hr' := h.records kind id r hr
          simp only [hr, Option.getD_some, Record.update, Record.Matches, hamount, hdst, hseen,
            Option.getD_none]
          exact hr'
        · simp only [Record.update, Record.Matches, hamount, hdst, hseen, Option.getD_some]
          exact ⟨⟨e, he, rfl, rfl, rfl⟩, hread⟩
      · exact h.records kind' id' r hr
    · exact within_fold l _ kind' e.id (h.complete kind' b e ha hb he)

/-- A reorganisation of blocks that were not read, and further reading, keep a ledger in
agreement. -/
lemma Agrees.of_chain (h : l.Agrees cfg eth fetched) (hle : fetched ≤ fetched')
    (hsame : ∀ kind, ∀ b ≤ fetched, eth'.events kind b = eth.events kind b) :
    l.Agrees cfg eth' fetched' := by
  refine ⟨?_, h.cursor.trans (max_le_max_right _ hle), ?_⟩
  · intro kind id r hr
    obtain ⟨⟨e, he, hcontent⟩, hseen⟩ := h.records kind id r hr
    exact ⟨⟨e, hsame kind r.seenAt hseen ▸ he, hcontent⟩, hseen.trans hle⟩
  · intro kind b e ha hb he
    rcases le_max_iff.mp (hb.trans h.cursor) with hread | hquiet
    · exact h.complete kind b e ha hb (hsame kind b hread ▸ he)
    · rw [eth'.quiet hquiet] at he
      cases he

end Ledger

/-! ## The invariant -/

namespace World

variable {u u' : World H cfg.fromBlock} {p : Proc H} {l l' : Ledger H} {line : Line H}

/-- The ledger that the file says. -/
def saved (u : World H cfg.fromBlock) : Ledger H := u.disk.ledger cfg.fromBlock cfg.fromHeight

/-- What the service has to do with of the other chain: the chain itself, the highest safe head so
far, and the highest block that was read. -/
structure View (cfg : Cfg H) where
  eth : EthChain H cfg.fromBlock
  final : ℕ
  fetched : ℕ

def view (u : World H cfg.fromBlock) : View cfg := ⟨u.eth, u.final, u.fetched⟩

end World

namespace World.View

variable {v v' : View cfg} {l l' : Ledger H}

/-- A mint is the one of an event behind the safe head. -/
def MintsFinal (v : View cfg) (r : Record H) (tx : Tx H) : Prop :=
  ∃ asset e, cfg.asset r.kind = some asset ∧ e ∈ v.eth.events r.kind e.block ∧ e.block ≤ v.final ∧
    e.id = r.id ∧ tx = .assetMint asset e.hkAccount e.amount

/-- The records of a loop are records of the ledger, each with the content of its event. -/
structure LoopSound (v : View cfg) (l : Ledger H) (loop : Loop H) : Prop where
  safe : loop.safe ≤ v.final
  content : ∀ r ∈ loop.todo, r.Matches v.eth r.kind r.id ∧ r.seenAt ≤ v.fetched
  has : ∀ r ∈ loop.todo, l.has r.kind r.id = true

/-- The logs of a page are events of the chain, and every event up to its end is recorded or among
them. -/
structure PageSound (v : View cfg) (l : Ledger H) (hi : ℕ) (todo : List (Kind × BridgeEvent H)) :
    Prop where
  read : hi ≤ v.fetched
  events : ∀ kind e, (kind, e) ∈ todo → e ∈ v.eth.events kind e.block ∧ e.block ≤ hi
  complete : ∀ kind b e, cfg.asset kind ≠ none → b ≤ hi → e ∈ v.eth.events kind b →
    l.has kind e.id = true ∨ (kind, e) ∈ todo

/-- What holds of a running process in each of its phases. -/
def Sound (v : View cfg) (l : Ledger H) : Phase H → Prop
  | .idle => True
  | .scanning _ safe => safe ≤ v.final
  | .recording _ safe hi todo => safe ≤ v.final ∧ v.PageSound l hi todo
  | .minting loop => v.LoopSound l loop
  | .sending loop r tx => v.LoopSound l loop ∧ l.has r.kind r.id = true ∧ v.MintsFinal r tx
  | .signed loop r stx => v.LoopSound l loop ∧ l.has r.kind r.id = true ∧ v.MintsFinal r stx.payload
  | .failed r => l.has r.kind r.id = true
  | .sent loop r _ => v.LoopSound l loop ∧ l.has r.kind r.id = true
  | .waiting loop r => v.LoopSound l loop ∧ l.has r.kind r.id = true

lemma LoopSound.mono {loop : Loop H} (h : v.LoopSound l loop) (hwithin : l.Within l') :
    v.LoopSound l' loop :=
  ⟨h.safe, h.content, fun r hr => hwithin _ _ (h.has r hr)⟩

lemma LoopSound.tail {safe : ℕ} {kinds : List Kind} {r : Record H} {todo : List (Record H)}
    (h : v.LoopSound l ⟨safe, kinds, r :: todo⟩) : v.LoopSound l ⟨safe, kinds, todo⟩ :=
  ⟨h.safe, fun r' hr => h.content r' (List.mem_cons_of_mem _ hr),
    fun r' hr => h.has r' (List.mem_cons_of_mem _ hr)⟩

/-- The service reads more, and the chain changes in blocks that are neither final nor read. -/
structure Extends (v v' : View cfg) : Prop where
  final : v.final ≤ v'.final
  fetched : v.fetched ≤ v'.fetched
  sameFinal : ∀ kind, ∀ b ≤ v.final, v'.eth.events kind b = v.eth.events kind b
  sameRead : ∀ kind, ∀ b ≤ v.fetched, v'.eth.events kind b = v.eth.events kind b

omit [LinearOrder H] in
lemma MintsFinal.extend {r : Record H} {tx : Tx H} (h : v.MintsFinal r tx) (hext : v.Extends v') :
    v'.MintsFinal r tx := by
  obtain ⟨asset, e, hasset, he, hfinal, hid, htx⟩ := h
  exact ⟨asset, e, hasset, hext.sameFinal _ _ hfinal ▸ he, hfinal.trans hext.final, hid, htx⟩

lemma LoopSound.extend {loop : Loop H} (h : v.LoopSound l loop) (hext : v.Extends v') :
    v'.LoopSound l loop := by
  refine ⟨h.safe.trans hext.final, fun r hr => ?_, h.has⟩
  obtain ⟨⟨e, he, hcontent⟩, hseen⟩ := h.content r hr
  exact ⟨⟨e, hext.sameRead _ _ hseen ▸ he, hcontent⟩, hseen.trans hext.fetched⟩

lemma PageSound.extend {hi : ℕ} {todo : List (Kind × BridgeEvent H)} (h : v.PageSound l hi todo)
    (hext : v.Extends v') : v'.PageSound l hi todo := by
  refine ⟨h.read.trans hext.fetched, fun kind e hmem => ?_, fun kind b e ha hb he => ?_⟩
  · obtain ⟨he, hle⟩ := h.events kind e hmem
    exact ⟨hext.sameRead _ _ (hle.trans h.read) ▸ he, hle⟩
  · exact h.complete kind b e ha hb (hext.sameRead _ _ (hb.trans h.read) ▸ he)

lemma Sound.extend {phase : Phase H} (h : v.Sound l phase) (hext : v.Extends v') :
    v'.Sound l phase := by
  cases phase with
  | idle => trivial
  | scanning head safe => exact le_trans h hext.final
  | recording head safe hi todo => exact ⟨h.1.trans hext.final, h.2.extend hext⟩
  | minting loop => exact LoopSound.extend h hext
  | sending loop r tx => exact ⟨h.1.extend hext, h.2.1, h.2.2.extend hext⟩
  | signed loop r stx => exact ⟨h.1.extend hext, h.2.1, h.2.2.extend hext⟩
  | failed r => exact h
  | sent loop r stx => exact ⟨h.1.extend hext, h.2⟩
  | waiting loop r => exact ⟨h.1.extend hext, h.2⟩

end World.View

namespace World

variable {u u' : World H cfg.fromBlock} {p : Proc H} {l l' : Ledger H} {line : Line H}

/-- Memory and file agree with the chain. -/
structure Faithful (u : World H cfg.fromBlock) : Prop where
  safe : u.eth.safe ≤ u.final
  disk : u.disk.torn = false → u.saved.Agrees cfg u.eth u.fetched
  filed : ∀ p, u.up = some p → p.ledger.Filed
  agrees : ∀ p, u.up = some p → p.ledger.Agrees cfg u.eth u.fetched
  within : ∀ p, u.up = some p → u.disk.torn = false → p.ledger.Within u.saved
  sound : ∀ p, u.up = some p → u.view.Sound p.ledger p.phase

/-- The service reads more or the chain changes; memory and file stay as they are. -/
lemma Faithful.extend (h : u.Faithful) (hext : u.view.Extends u'.view)
    (hsafe : u'.eth.safe ≤ u'.final)
    (hdisk : u'.disk = u.disk) (hup : u'.up = u.up) : u'.Faithful := by
  have hsaved : u'.saved = u.saved := by rw [saved, hdisk, saved]
  refine ⟨hsafe, ?_, ?_, ?_, ?_, ?_⟩
  · rw [hdisk, hsaved]
    exact fun htorn => (h.disk htorn).of_chain hext.fetched hext.sameRead
  · rw [hup]
    exact h.filed
  · rw [hup]
    exact fun p hp => (h.agrees p hp).of_chain hext.fetched hext.sameRead
  · rw [hup, hdisk, hsaved]
    exact h.within
  · rw [hup]
    exact fun p hp => (h.sound p hp).extend hext

/-- The process goes on without a write. -/
lemma Faithful.goto (h : u.Faithful) (hp : u.up = some p) {next : Phase H}
    (hnext : u.view.Sound p.ledger next) : (u.goto p next).Faithful := by
  refine ⟨h.safe, h.disk, fun q hq => ?_, fun q hq => ?_, fun q hq => ?_, fun q hq => ?_⟩
  all_goals cases hq
  · exact h.filed p hp
  · exact h.agrees p hp
  · exact h.within p hp
  · exact hnext

/-- The process writes a line that keeps its ledger in agreement. -/
lemma Faithful.log (h : u.Faithful) (hp : u.up = some p) {w : Written} {next : Phase H}
    (hline : line.Agrees cfg u.eth u.fetched p.ledger)
    (hnext : w = .synced → u.view.Sound (p.ledger.fold line) next) :
    (u.log p line w next).Faithful := by
  -- an unbroken file has the line, or the write failed and left nothing
  have hfile : (u.disk.append line w).torn = false → u.disk.torn = false ∧
      ((u.log p line w next).saved = u.saved ∧ w ≠ .synced ∨
        (u.log p line w next).saved = u.saved.fold line) := by
    intro htorn
    have hsnoc : u.disk.torn = false → w = .synced ∨ w = .kept →
        (u.log p line w next).saved = u.saved.fold line := by
      rintro hclean (rfl | rfl)
      · simp [saved, World.log, Disk.append, hclean, Disk.ledger]
      · simp [saved, World.log, Disk.append, hclean, Disk.ledger]
    cases w with
    | torn => cases htorn
    | lost => exact ⟨htorn, .inl ⟨rfl, by decide⟩⟩
    | synced =>
      have hclean : u.disk.torn = false := by
        by_contra hbroken
        simp only [Bool.not_eq_false] at hbroken
        simp [Disk.append, hbroken] at htorn
      exact ⟨hclean, .inr (hsnoc hclean (.inl rfl))⟩
    | kept =>
      have hclean : u.disk.torn = false := by
        by_contra hbroken
        simp only [Bool.not_eq_false] at hbroken
        simp [Disk.append, hbroken] at htorn
      exact ⟨hclean, .inr (hsnoc hclean (.inr rfl))⟩
  refine ⟨h.safe, fun htorn => ?_, ?_, ?_, ?_, ?_⟩
  · obtain ⟨hclean, ⟨hsame, -⟩ | hfold⟩ := hfile htorn
    · rw [hsame]
      exact h.disk hclean
    · rw [hfold]
      exact (h.disk hclean).fold (hline.mono (h.within p hp hclean))
  all_goals
    intro q hq
    simp only [World.log, Option.some.injEq] at hq
    subst hq
  · split_ifs
    · exact (h.filed p hp).fold line
    · exact h.filed p hp
  · split_ifs
    · exact (h.agrees p hp).fold hline
    · exact h.agrees p hp
  · intro htorn
    obtain ⟨hclean, ⟨hsame, hw⟩ | hfold⟩ := hfile htorn
    · rw [hsame, if_neg hw]
      exact h.within p hp hclean
    · rw [hfold]
      split_ifs
      · exact (h.within p hp hclean).fold line
      · exact fun kind id hhas => Ledger.within_fold _ _ kind id (h.within p hp hclean kind id hhas)
  · split_ifs with hw
    · exact hnext hw
    · trivial

/-! ## One step -/

/-- A line with a new state for a record that is there. -/
lemma agrees_entry {kind : Kind} {id : H} (hhas : l.has kind id = true) (state : RecordState)
    {f : Fields H} (hamount : f.amount = none) (hdst : f.dst = none) (hseen : f.seenAt = none) :
    (Line.entry kind id state f).Agrees cfg u.eth u.fetched l :=
  .inl ⟨hamount, hdst, hseen, hhas⟩

omit [LinearOrder H] in
/-- The logs of a page are the events of the configured flows in its blocks. -/
lemma mem_logs {eth : EthChain H cfg.fromBlock} {lo hi : ℕ} {kind : Kind} {e : BridgeEvent H} :
    (kind, e) ∈ cfg.logs eth lo hi ↔
      cfg.asset kind ≠ none ∧ ∃ b, lo ≤ b ∧ b ≤ hi ∧ e ∈ eth.events kind b := by
  have hblocks : ∀ b, b ∈ List.range' lo (hi + 1 - lo) ↔ lo ≤ b ∧ b ≤ hi := by
    intro b
    rw [List.mem_range'_1]
    omega
  have hkind : ∀ kind', (kind, e) ∈ (List.range' lo (hi + 1 - lo)).flatMap (fun b =>
      (eth.events kind' b).map fun e => (kind', e)) ↔
        kind' = kind ∧ ∃ b, lo ≤ b ∧ b ≤ hi ∧ e ∈ eth.events kind b := by
    intro kind'
    simp only [List.mem_flatMap, hblocks, List.mem_map, Prod.mk.injEq]
    constructor
    · rintro ⟨b, ⟨hlo, hhi⟩, e', he, rfl, rfl⟩
      exact ⟨rfl, b, hlo, hhi, he⟩
    · rintro ⟨rfl, b, hlo, hhi, he⟩
      exact ⟨b, ⟨hlo, hhi⟩, e, he, rfl, rfl⟩
  unfold Cfg.logs
  rw [List.mem_append, hkind]
  cases hhkt : cfg.hkt with
  | none => cases kind <;> simp [Cfg.asset, hhkt]
  | some asset =>
    simp only [Option.isSome_some, if_true, hkind]
    cases kind <;> simp [Cfg.asset, hhkt]

lemma Faithful.page (h : u.Faithful) (hp : u.up = some p) {head safe : ℕ} (hsafe : safe ≤ u.final) :
    (u.page cfg p head safe).Faithful := by
  have hagrees := h.agrees p hp
  unfold World.page
  split_ifs with hhead
  · set hi := min (p.ledger.ethCursor + 1 + cfg.logPage - 1) head with hhi
    -- read the page first, then go on with its logs
    have hread : ({ u with fetched := max u.fetched hi } : World H cfg.fromBlock).Faithful :=
      h.extend ⟨le_rfl, le_max_left _ _, fun _ _ _ => rfl, fun _ _ _ => rfl⟩ h.safe rfl rfl
    refine hread.goto (p := p) hp ⟨hsafe, le_max_right _ _, ?_, ?_⟩
    · intro kind e hmem
      obtain ⟨-, b, -, hb, he⟩ := mem_logs.mp hmem
      rw [u.eth.block_eq he]
      exact ⟨he, hb⟩
    · intro kind b e ha hb he
      rcases le_or_gt b p.ledger.ethCursor with hold | hnew
      · exact .inl (hagrees.complete kind b e ha hold he)
      · exact .inr (mem_logs.mpr ⟨ha, b, hnew, hb, he⟩)
  · exact h.goto hp ⟨hsafe, by simp, by simp⟩

lemma Faithful.record (h : u.Faithful) (hp : u.up = some p) (w : Written) {head safe hi : ℕ}
    {todo : List (Kind × BridgeEvent H)} (hsafe : safe ≤ u.final)
    (hpage : u.view.PageSound p.ledger hi todo) : (u.record p w head safe hi todo).Faithful := by
  cases todo with
  | nil =>
    refine h.log hp ⟨hpage.read, fun kind b e ha hb he => ?_⟩ fun _ => hsafe
    exact (hpage.complete kind b e ha hb he).resolve_right (by simp)
  | cons e todo =>
    obtain ⟨kind, e⟩ := e
    obtain ⟨he, hle⟩ := hpage.events kind e List.mem_cons_self
    have hrest : ∀ l, p.ledger.Within l → l.has kind e.id = true → u.view.PageSound l hi todo := by
      intro l hwithin hhas
      refine ⟨hpage.read, fun kind' e' hmem => hpage.events kind' e' (List.mem_cons_of_mem _ hmem),
        ?_⟩
      intro kind' b e' ha hb he'
      rcases hpage.complete kind' b e' ha hb he' with hold | hmem
      · exact .inl (hwithin kind' e'.id hold)
      · rcases List.mem_cons.mp hmem with heq | hmem
        · cases heq
          exact .inl hhas
        · exact .inr hmem
    simp only [World.record]
    split_ifs with hdecodes hhas
    · exact h.goto hp ⟨hsafe, hrest _ (fun _ _ hh => hh) hhas⟩
    · refine h.log hp (.inr ⟨e, he, hle.trans hpage.read, rfl, rfl, rfl, rfl⟩) fun _ => ⟨hsafe, ?_⟩
      exact hrest _ (Ledger.within_fold _ _)
        (Ledger.has_iff.mpr ⟨_, Ledger.get_fold_self _ _ _ _ _⟩)
    · exact h.goto hp trivial

lemma Faithful.collect (h : u.Faithful) (hp : u.up = some p) {safe : ℕ} (hsafe : safe ≤ u.final)
    (kinds : List Kind) : (u.collect cfg p safe kinds).Faithful := by
  cases kinds with
  | nil => exact h.goto hp trivial
  | cons kind kinds =>
    simp only [World.collect]
    split
    · exact h.goto hp ⟨hsafe, by simp, by simp⟩
    · have hrecord : ∀ r ∈ p.ledger.inStates kind [.seen, .heldRecipient, .submitted],
          p.ledger.get r.kind r.id = some r := by
        intro r hr
        obtain ⟨id, hget, -⟩ := Ledger.exists_of_mem_inStates hr
        obtain ⟨rfl, rfl⟩ := h.filed p hp kind id r hget
        exact hget
      refine h.goto hp ⟨hsafe, fun r hr => ?_, fun r hr => ?_⟩
      · exact (h.agrees p hp).records r.kind r.id r (hrecord r hr)
      · exact Ledger.has_iff.mpr ⟨r, hrecord r hr⟩

lemma Faithful.settle (h : u.Faithful) (hp : u.up = some p) {loop : Loop H} {r : Record H}
    (hloop : u.view.LoopSound p.ledger loop) (hhas : p.ledger.has r.kind r.id = true) (w : Written)
    (answer : Option Bool) : (u.settle p r w (.minting loop) answer).Faithful := by
  have hwrite : ∀ state, (u.log p (.entry r.kind r.id state {}) w (.minting loop)).Faithful :=
    fun state => h.log hp (agrees_entry hhas state rfl rfl rfl) fun _ =>
      hloop.mono (Ledger.within_fold _ _)
  unfold World.settle
  split
  · exact hwrite _
  · exact hwrite _
  · exact h.goto hp hloop

lemma Faithful.check (h : u.Faithful) (hp : u.up = some p) {loop : Loop H} {r : Record H}
    (hloop : u.view.LoopSound p.ledger loop) (hmatches : r.Matches u.eth r.kind r.id)
    (hhas : p.ledger.has r.kind r.id = true) (answered : Bool) (w : Written) :
    (u.check cfg p loop r answered w).Faithful := by
  have hwrite : ∀ state, (u.log p (.entry r.kind r.id state {}) w (.minting loop)).Faithful :=
    fun state => h.log hp (agrees_entry hhas state rfl rfl rfl) fun _ =>
      hloop.mono (Ledger.within_fold _ _)
  unfold World.check
  split
  · exact h.goto hp hloop
  next hfinal =>
  split
  · next dst asset hdst hasset =>
    split
    · split
      · exact h.goto hp hloop
      · exact hwrite _
    split
    · exact hwrite _
    · -- the mint of a record behind the safe head is that of its event
      refine h.log hp (agrees_entry hhas _ rfl rfl rfl) fun _ => ?_
      refine ⟨hloop.mono (Ledger.within_fold _ _), Ledger.within_fold _ _ _ _ hhas, ?_⟩
      obtain ⟨e, he, hid, hamount, hdst'⟩ := hmatches
      have hblock := u.eth.block_eq he
      obtain rfl : dst = e.hkAccount := by
        rw [hdst] at hdst'
        exact Payee.account.inj hdst'
      refine ⟨asset, e, hasset, by rw [hblock]; exact he, ?_, hid, by rw [hamount]⟩
      rw [hblock]
      exact (not_lt.mp hfinal).trans hloop.safe
  · exact hwrite _

variable [HashSuite H] [TxCodec H] [Inhabited H]

lemma Faithful.sign (h : u.Faithful) (hp : u.up = some p) {loop : Loop H} {r : Record H} {tx : Tx H}
    (hsound : u.view.Sound p.ledger (.sending loop r tx)) (ready : Bool) :
    (u.sign cfg p loop r tx ready).Faithful := by
  obtain ⟨hloop, hhas, hmints⟩ := hsound
  unfold World.sign
  split
  · split
    · next stx hstx =>
      refine h.goto hp ⟨hloop, hhas, ?_⟩
      obtain ⟨_, -, rfl⟩ := Option.map_eq_some_iff.mp hstx
      exact hmints
    · exact ⟨h.safe, h.disk, by simp, by simp, by simp, by simp⟩
  · exact h.goto hp hhas

/-- A reorganisation leaves alone the blocks whose logs the service has read. -/
def Unread (u : World H cfg.fromBlock) : Act H cfg.fromBlock → Prop
  | .reorg c => ∀ kind, ∀ b ≤ u.fetched, c.events kind b = u.eth.events kind b
  | _ => True

/-- A step that changes no block that was read keeps memory and file in agreement with the chain. -/
lemma Faithful.step {a : Act H cfg.fromBlock} (h : u.Faithful) (hunread : u.Unread a)
    (hs : u.step cfg a = some u') : u'.Faithful := by
  have hsound : ∀ p phase, u.up = some p → p.phase = phase → u.view.Sound p.ledger phase := by
    rintro p _ hp rfl
    exact h.sound p hp
  have hnode : ∀ v : World H cfg.fromBlock, v.eth = u.eth → v.final = u.final →
      v.fetched = u.fetched → v.disk = u.disk → v.up = u.up → v.Faithful := by
    rintro ⟨eth, final, fetched, node, disk, up, taken, applied⟩ rfl rfl rfl rfl rfl
    exact h.extend ⟨le_rfl, le_rfl, fun _ _ _ => rfl, fun _ _ _ => rfl⟩ h.safe rfl rfl
  refine step_cases (Q := Faithful) hs ?crash ?block ?cover ?reorg ?boot ?tick ?fail ?page ?record
    ?collect ?check ?recheck ?sign ?submit ?reopen ?note ?settle
  case crash => exact ⟨h.safe, h.disk, by simp, by simp, by simp, by simp⟩
  case block => exact fun _ _ _ _ => hnode _ rfl rfl rfl rfl rfl
  case cover => exact fun _ => hnode _ rfl rfl rfl rfl rfl
  case reorg =>
    rintro c rfl hfinal
    exact h.extend ⟨le_max_left _ _, le_rfl, hfinal, hunread⟩ (le_max_right _ _) rfl rfl
  case boot =>
    intro l _ hl
    unfold Disk.openLedger at hl
    split_ifs at hl with htorn
    cases hl
    have hclean : u.disk.torn = false := Bool.not_eq_true _ ▸ htorn
    refine ⟨h.safe, h.disk, ?_, ?_, ?_, ?_⟩
    all_goals
      intro p hp
      cases hp
    · exact u.disk.filed_ledger _ _
    · exact h.disk hclean
    · exact fun _ _ _ hhas => hhas
    · trivial
  case tick => exact fun p hp => h.goto hp h.safe
  case fail => exact fun p hp => h.goto hp trivial
  case page => exact fun p head safe hp hphase => h.page hp (hsound p _ hp hphase)
  case record =>
    intro p w head safe hi todo hp hphase
    obtain ⟨hsafe, hpage⟩ := hsound p _ hp hphase
    exact h.record hp w hsafe hpage
  case collect =>
    intro p safe kinds hp hphase
    have hloop : u.view.LoopSound p.ledger ⟨safe, kinds, []⟩ := hsound p _ hp hphase
    exact h.collect hp hloop.safe kinds
  case check =>
    intro p safe kinds r todo answered w hp hphase _
    have hloop : u.view.LoopSound p.ledger ⟨safe, kinds, r :: todo⟩ := hsound p _ hp hphase
    exact h.check hp hloop.tail (hloop.content r List.mem_cons_self).1
      (hloop.has r List.mem_cons_self) answered w
  case recheck =>
    intro p safe kinds r todo answer w hp hphase
    have hloop : u.view.LoopSound p.ledger ⟨safe, kinds, r :: todo⟩ := hsound p _ hp hphase
    exact h.settle hp hloop.tail (hloop.has r List.mem_cons_self) w answer
  case sign => exact fun p l r tx ready hp hphase => h.sign hp (hsound p _ hp hphase) ready
  case submit =>
    intro p l r stx answer u₁ _ hp hphase hsubmit
    obtain ⟨hloop, hhas, -⟩ := hsound p _ hp hphase
    obtain ⟨⟨c, got⟩, -, rfl⟩ := Option.map_eq_some_iff.mp hsubmit
    have hgoto : (u.goto p (if got then .sent l r stx else .failed r)).Faithful := by
      apply h.goto hp
      cases got
      · exact hhas
      · exact ⟨hloop, hhas⟩
    exact ⟨hgoto.safe, hgoto.disk, hgoto.filed, hgoto.agrees, hgoto.within, hgoto.sound⟩
  case reopen =>
    intro p r w hp hphase
    exact h.log hp (agrees_entry (hsound p _ hp hphase) _ rfl rfl rfl) fun _ => trivial
  case note =>
    intro p l r stx w hp hphase
    obtain ⟨hloop, hhas⟩ := hsound p _ hp hphase
    refine h.log hp (agrees_entry hhas _ rfl rfl rfl) fun _ => ?_
    exact ⟨hloop.mono (Ledger.within_fold _ _), Ledger.within_fold _ _ _ _ hhas⟩
  case settle =>
    intro p l r answer w hp hphase
    obtain ⟨hloop, hhas⟩ := hsound p _ hp hphase
    exact h.settle hp hloop hhas w answer

omit [HashSuite H] [TxCodec H] [Inhabited H] in
lemma faithful_start (node : NodeView H) (eth : EthChain H cfg.fromBlock) :
    (start node eth : World H cfg.fromBlock).Faithful := by
  refine ⟨le_rfl, fun _ => ?_, by simp [start], by simp [start], by simp [start], by simp [start]⟩
  exact Ledger.agrees_init cfg eth 0

/-! ## Runs -/

/-- A step submits a mint for a record. -/
def Submits (u : World H cfg.fromBlock) (a : Act H cfg.fromBlock) (r : Record H)
    (stx : SignedTx H) :
    Prop :=
  ∃ answer p loop, a = .submit answer ∧ u.up = some p ∧ p.phase = .signed loop r stx

/-- A ledger that the service works with, in memory, or finds when it is started again. -/
def Reads (u : World H cfg.fromBlock) (l : Ledger H) : Prop :=
  (∃ p, u.up = some p ∧ p.ledger = l) ∨
    u.disk.openLedger cfg.fromBlock cfg.fromHeight = some l

omit [HashSuite H] [TxCodec H] [Inhabited H] in
lemma Faithful.reads (h : u.Faithful) (hl : u.Reads l) : l.Agrees cfg u.eth u.fetched := by
  rcases hl with ⟨p, hp, rfl⟩ | hopen
  · exact h.agrees p hp
  · unfold Disk.openLedger at hopen
    split_ifs at hopen with htorn
    cases hopen
    exact h.disk (Bool.not_eq_true _ ▸ htorn)

end World

variable [HashSuite H] [TxCodec H] [Inhabited H]

/-- **Every mint matches a final lock.**  In every run of the service whose reorganisations change
no block that the service has read: every mint that it submits is for an event with the id of its
record, in a block that is final, with the amount and the recipient of that event; and every event
in a final block up to the cursor of a ledger has a record there with its amount, its recipient and
its block. -/
theorem mints_match_final_locks (cfg : Cfg H) (node : NodeView H) (eth : EthChain H cfg.fromBlock)
    {as : List (Act H cfg.fromBlock)} {u : World H cfg.fromBlock}
    (hrun : Path (StepOf (World.step cfg)) (.start node eth) as u)
    (hunread : Path.Along (StepOf (World.step cfg)) (.start node eth) as World.Unread) :
    Path.Along (StepOf (World.step cfg)) (.start node eth) as
        (fun v a => ∀ r stx, v.Submits a r stx → v.view.MintsFinal r stx.payload) ∧
      ∀ l, u.Reads l → ∀ kind b e, cfg.asset kind ≠ none → b ≤ min u.final l.ethCursor →
        e ∈ u.eth.events kind b → ∃ r, l.get kind e.id = some r ∧ r.amount = e.amount ∧
          r.dst = .account e.hkAccount ∧ r.seenAt = b := by
  have hstart := World.faithful_start node eth
  refine ⟨?_, ?_⟩
  · refine Path.along_of_invariant (stepOf_deterministic _) hrun hunread hstart ?_
    rintro v a v' hv ha hs
    refine ⟨?_, hv.step ha hs⟩
    rintro r stx ⟨answer, p, loop, -, hp, hphase⟩
    have hsound := hv.sound p hp
    rw [hphase] at hsound
    exact hsound.2.2
  · have hfaithful : u.Faithful := hrun.invariant_along (I := fun _ v => v.Faithful) hunread hstart
      fun _ _ _ _ hv ha hs => hv.step ha hs
    intro l hl kind b e hasset hb he
    have hagrees := hfaithful.reads hl
    obtain ⟨r, hr⟩ :=
      Ledger.has_iff.mp (hagrees.complete kind b e hasset (hb.trans (min_le_right _ _)) he)
    obtain ⟨⟨e', he', hid, hamount, hdst⟩, -⟩ := hagrees.records kind e.id r hr
    -- the record was made from the only event with its id
    obtain rfl : e' = e := u.eth.distinct he' he hid
    refine ⟨r, hr, hamount, hdst, ?_⟩
    rw [← u.eth.block_eq he', u.eth.block_eq he]

end HashKinetics.Attest

namespace HashKinetics.Concrete

open Foundations Attest

/-- The service reads the chain with a lock of seven units before the block is safe; then the block
is replaced by one whose first lock is of five units.  The mint is for seven. -/
theorem reorganised_lock_mints_old : ∃ as u,
    Path (StepOf (World.step bridge)) (.start mintNode (lockChain 0 7)) as u ∧
      ¬ Path.Along (StepOf (World.step bridge)) (.start mintNode (lockChain 0 7)) as
        (fun v a => ∀ r stx, v.Submits a r stx → v.view.MintsFinal r stx.payload) := by
  have hreorg : StepOf (World.step bridge)
      (serving (lockChain 0 7) 0 mintNode [lockLine, .ethCursor 1] scanned .idle [] [])
      (.reorg (lockChain 1 5))
      (serving (lockChain 1 5) 1 mintNode [lockLine, .ethCursor 1] scanned .idle [] []) := by
    have hsame : ∀ kind, ∀ b ≤ 0, (lockChain 1 5).events kind b =
      (lockChain 0 7).events kind b := by
      intro kind b hb
      simp [lockChain, Nat.le_zero.mp hb]
    simp only [StepOf, World.step]
    exact if_pos hsame
  have hpre := ((path_scan mintNode 0).snoc hreorg).append
    (path_mint (lockChain 1 5) rfl rfl rfl inStates_scanned mintNode_nonce mintNode_account)
  refine ⟨_, _, hpre.snoc step_accepted, fun halong => ?_⟩
  obtain ⟨asset, e, -, he, -, -, htx⟩ := halong _ _ _ List.prefix_rfl hpre (lockRecord 0)
    (lockMint 0)
    ⟨.accepted, _, lastLoop, rfl, rfl, rfl⟩
  have hamount : e.amount = 5 := by
    simp only [lockChain, World.view] at he
    split_ifs at he
    · rw [List.mem_singleton.mp he]
      rfl
    · cases he
  have hmint : (7 : ℕ) = e.amount := by
    injection htx
  omega

/-- A lock that is safe when it is read is minted as it is. -/
theorem safe_lock_mints : ∃ as u,
    Path (StepOf (World.step bridge)) (.start mintNode (lockChain 1 7)) as u ∧
      u.taken = [((.deposit, 7), lockMint 0)] ∧
      Path.Along (StepOf (World.step bridge)) (.start mintNode (lockChain 1 7)) as
        (fun v a => ∀ r stx, v.Submits a r stx → v.view.MintsFinal r stx.payload) := by
  have hrun := ((path_scan mintNode 1).append
    (path_mint _ rfl rfl rfl inStates_scanned mintNode_nonce mintNode_account)).snoc step_accepted
  refine ⟨_, _, hrun, rfl, (mints_match_final_locks bridge mintNode (lockChain 1 7) hrun ?_).1⟩
  -- nothing is reorganised
  refine Path.Along.of_forall_mem fun a ha v => ?_
  have hquiet : ∀ c, a ≠ .reorg c := by
    rintro c rfl
    have hmem : (.reorg c : Act ℕ 1) ∈ scanActs ++ mintActs ++ [.submit .accepted] := ha
    simp [scanActs, mintActs] at hmem
  cases a with
  | reorg c => exact absurd rfl (hquiet c)
  | _ => trivial

end HashKinetics.Concrete
