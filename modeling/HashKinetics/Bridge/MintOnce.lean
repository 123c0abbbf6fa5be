import HashKinetics.Bridge.Attestor
import HashKinetics.State.Conservation

/-!
# One mint for every event

A record that may have led to a mint is never minted for again: it is `submitting` on disk before
the mint leaves the process, and only a failed submission takes it back.  As long as the node has
not taken in a transaction whose submission failed, every event leads to at most one transaction on
the node, and a transaction succeeds at most once.

A submission whose answer is lost is taken for one that never arrived.  The record goes back to
`seen`, and once the first mint has moved the nonce of the issuer the next tick mints again.
-/

namespace HashKinetics.Attest

open Foundations

variable {H : Type} [LinearOrder H]

/-! ## Records that are never minted for again -/

/-- The flow and the id of a record. -/
def Record.key (r : Record H) : Kind × H := (r.kind, r.id)

/-- The states in which a mint for the record may be on its way. -/
def RecordState.closed : RecordState → Bool
  | .submitting => true
  | .submitted => true
  | .confirmed => true
  | .rejected => true
  | _ => false

/-- The ledger has closed the record of an event. -/
def Ledger.Closed (l : Ledger H) (k : Kind × H) : Prop :=
  ∃ r, l.get k.1 k.2 = some r ∧ r.state.closed = true

/-- A line that takes a record out of the closed states. -/
def Line.Reopens (k : Kind × H) : Line H → Prop
  | .entry kind id state _ => (kind, id) = k ∧ state.closed = false
  | _ => False

/-- The records that a loop still has to go through are those of the ledger. -/
structure Ledger.Pending (l : Ledger H) (todo : List (Record H)) : Prop where
  nodup : (todo.map Record.key).Nodup
  current : ∀ r ∈ todo, l.get r.kind r.id = some r
  mintable : ∀ r ∈ todo, r.state ∈ [RecordState.seen, .heldRecipient, .submitted]

namespace Ledger

variable {l : Ledger H} {k : Kind × H} {line : Line H} {r : Record H} {todo : List (Record H)}

lemma Closed.fold (h : l.Closed k) (hline : ¬ line.Reopens k) : (l.fold line).Closed k := by
  obtain ⟨r, hr, hclosed⟩ := h
  cases line with
  | ethCursor n => exact ⟨r, hr, hclosed⟩
  | hkCursor n => exact ⟨r, hr, hclosed⟩
  | entry kind id state f =>
    by_cases hk : (kind, id) = k
    · subst hk
      refine ⟨_, get_fold_self l kind id state f, ?_⟩
      by_contra hopen
      exact hline ⟨rfl, by simpa [Record.update] using hopen⟩
    · have hne : ¬ (kind = k.1 ∧ id = k.2) := fun heq => hk (Prod.ext heq.1 heq.2)
      refine ⟨r, ?_, hclosed⟩
      rw [get_fold_entry, if_neg hne, hr]

/-- An entry with a closed state closes its record. -/
lemma closed_fold_entry (l : Ledger H) (r : Record H) {state : RecordState} (f : Fields H)
    (h : state.closed = true) : (l.fold (.entry r.kind r.id state f)).Closed r.key :=
  ⟨_, get_fold_self l r.kind r.id state f, h⟩

lemma Pending.tail (h : l.Pending (r :: todo)) : l.Pending todo :=
  ⟨(List.nodup_cons.mp h.nodup).2, fun r' hr => h.current r' (List.mem_cons_of_mem _ hr),
    fun r' hr => h.mintable r' (List.mem_cons_of_mem _ hr)⟩

lemma Pending.key_notMem (h : l.Pending (r :: todo)) : r.key ∉ todo.map Record.key :=
  (List.nodup_cons.mp h.nodup).1

/-- A line about a record that the loop has left behind. -/
lemma Pending.fold (h : l.Pending todo) {key : Kind × H} (hkey : key ∉ todo.map Record.key)
    (state : RecordState) (f : Fields H) : (l.fold (.entry key.1 key.2 state f)).Pending todo := by
  refine ⟨h.nodup, fun r hr => ?_, h.mintable⟩
  rw [get_fold_entry, if_neg, h.current r hr]
  rintro ⟨hkind, hid⟩
  exact hkey (List.mem_map.mpr ⟨r, hr, Prod.ext hkind.symm hid.symm⟩)

/-- What `process_eth_events` collects is pending. -/
lemma Filed.pending (h : l.Filed) (kind : Kind) :
    l.Pending (l.inStates kind [.seen, .heldRecipient, .submitted]) := by
  have hfiled : ∀ r ∈ l.inStates kind [.seen, .heldRecipient, .submitted],
      l.get kind r.id = some r ∧ r.kind = kind := by
    intro r hr
    obtain ⟨id, hget, -⟩ := exists_of_mem_inStates hr
    obtain ⟨hkind, rfl⟩ := h kind id r hget
    exact ⟨hget, hkind⟩
  refine ⟨?_, fun r hr => ?_, fun r hr => ?_⟩
  · apply List.Nodup.of_map Prod.snd
    rw [List.map_map]
    exact h.nodup_inStates kind _
  · obtain ⟨hget, hkind⟩ := hfiled r hr
    rw [hkind]
    exact hget
  · exact (exists_of_mem_inStates hr).choose_spec.2

/-- A pending record that is not submitted is not closed. -/
lemma Pending.not_closed (h : l.Pending (r :: todo)) (hstate : r.state ≠ .submitted) :
    ¬ l.Closed r.key := by
  rintro ⟨r', hr', hclosed⟩
  have hcurrent := h.current r List.mem_cons_self
  obtain rfl : r = r' := Option.some.inj (hcurrent.symm.trans hr')
  have hmem := h.mintable r List.mem_cons_self
  simp only [List.mem_cons, List.not_mem_nil, or_false] at hmem
  rcases hmem with hs | hs | hs
  · rw [hs] at hclosed
    cases hclosed
  · rw [hs] at hclosed
    cases hclosed
  · exact hstate hs

end Ledger

/-! ## The invariant -/

namespace World

variable {cfg : Cfg H} {u u' : World H cfg.fromBlock} {p : Proc H}

/-- The events whose mints the node took in. -/
def keys (u : World H cfg.fromBlock) : List (Kind × H) := u.taken.map Prod.fst

/-- A file that can be opened again closes the record. -/
def ClosedOnDisk (u : World H cfg.fromBlock) (k : Kind × H) : Prop :=
  u.disk.torn = false → (u.disk.ledger cfg.fromBlock cfg.fromHeight).Closed k

/-- No mint was taken in for the record, and its write-ahead line is in memory and on disk. -/
def Armed (u : World H cfg.fromBlock) (l : Ledger H) (r : Record H) : Prop :=
  r.key ∉ u.keys ∧ l.Closed r.key ∧ u.ClosedOnDisk r.key

/-- The loop goes on with records other than the current one. -/
def Resumes (l : Ledger H) (loop : Loop H) (r : Record H) : Prop :=
  l.Pending loop.todo ∧ r.key ∉ loop.todo.map Record.key

/-- What holds of a running process in each of its phases. -/
def Guarded (u : World H cfg.fromBlock) (l : Ledger H) : Phase H → Prop
  | .minting loop => l.Pending loop.todo
  | .sending loop r _ => Resumes l loop r ∧ u.Armed l r
  | .signed loop r _ => Resumes l loop r ∧ u.Armed l r
  | .failed r => r.key ∉ u.keys
  | .sent loop r _ => Resumes l loop r
  | .waiting loop r => Resumes l loop r
  | _ => True

/-- The node took in at most one mint for every event, and those records are closed wherever the
process may read them. -/
structure Once (u : World H cfg.fromBlock) : Prop where
  nodup : u.keys.Nodup
  disk : ∀ k ∈ u.keys, u.ClosedOnDisk k
  filed : ∀ p, u.up = some p → p.ledger.Filed
  closed : ∀ p, u.up = some p → ∀ k ∈ u.keys, p.ledger.Closed k
  guarded : ∀ p, u.up = some p → u.Guarded p.ledger p.phase

/-- The process goes on without a write. -/
lemma Once.goto (h : u.Once) (hp : u.up = some p) {next : Phase H}
    (hnext : u.Guarded p.ledger next) : (u.goto p next).Once := by
  refine ⟨h.nodup, h.disk, fun q hq => ?_, fun q hq => ?_, fun q hq => ?_⟩
  all_goals cases hq
  · exact h.filed p hp
  · exact h.closed p hp
  · cases next <;> exact hnext

/-- A line that reopens no record of the event keeps it closed on disk. -/
lemma ClosedOnDisk.log {k : Kind × H} {line : Line H} (h : u.ClosedOnDisk k)
    (hline : ¬ line.Reopens k) (w : Written) (next : Phase H) :
    (u.log p line w next).ClosedOnDisk k := by
  intro htorn
  rcases u.disk.append_cases line w with hsame | hbroken | hsnoc
  · change ((u.disk.append line w).ledger _ _).Closed k
    change (u.disk.append line w).torn = false at htorn
    rw [hsame] at htorn ⊢
    exact h htorn
  · change (u.disk.append line w).torn = false at htorn
    rw [hbroken] at htorn
    cases htorn
  · change ((u.disk.append line w).ledger _ _).Closed k
    change (u.disk.append line w).torn = false at htorn
    rw [hsnoc] at htorn ⊢
    rw [Disk.ledger_snoc]
    exact (h htorn).fold hline

/-- The process writes a line that reopens no record of a mint. -/
lemma Once.log (h : u.Once) (hp : u.up = some p) {line : Line H} {w : Written} {next : Phase H}
    (hline : ∀ k ∈ u.keys, ¬ line.Reopens k)
    (hnext : w = .synced → (u.log p line w next).Guarded (p.ledger.fold line) next) :
    (u.log p line w next).Once := by
  refine ⟨h.nodup, fun k hk => (h.disk k hk).log (hline k hk) w next, ?_, ?_, ?_⟩
  all_goals
    intro q hq
    simp only [World.log, Option.some.injEq] at hq
    subst hq
    split_ifs with hw
  · exact (h.filed p hp).fold line
  · exact h.filed p hp
  · exact fun k hk => (h.closed p hp k hk).fold (hline k hk)
  · exact h.closed p hp
  · exact hnext hw
  · trivial

/-- An entry about an event without a mint reopens nothing. -/
lemma not_reopens {key : Kind × H} (hkey : key ∉ u.keys) (state : RecordState) (f : Fields H) :
    ∀ k ∈ u.keys, ¬ (Line.entry key.1 key.2 state f).Reopens k := by
  rintro k hk ⟨rfl, -⟩
  exact hkey hk

/-- An entry with a closed state reopens nothing. -/
lemma not_reopens_of_closed {kind : Kind} {id : H} {state : RecordState}
    (hstate : state.closed = true)
    (f : Fields H) : ∀ k ∈ u.keys, ¬ (Line.entry kind id state f).Reopens k := by
  rintro k - ⟨-, hopen⟩
  rw [hstate] at hopen
  cases hopen

/-! ## One step -/

lemma Once.page (h : u.Once) (hp : u.up = some p) (head safe : ℕ) :
    (u.page cfg p head safe).Once := by
  unfold World.page
  split_ifs
  · have hgoto : (u.goto p (.recording head safe
        (min (p.ledger.ethCursor + 1 + cfg.logPage - 1) head)
        (cfg.logs u.eth (p.ledger.ethCursor + 1)
          (min (p.ledger.ethCursor + 1 + cfg.logPage - 1) head)))).Once := h.goto hp trivial
    exact ⟨hgoto.nodup, hgoto.disk, hgoto.filed, hgoto.closed, hgoto.guarded⟩
  · exact h.goto hp ⟨List.nodup_nil, by simp, by simp⟩

lemma Once.record (h : u.Once) (hp : u.up = some p) (w : Written) (head safe hi : ℕ)
    (todo : List (Kind × BridgeEvent H)) : (u.record p w head safe hi todo).Once := by
  cases todo with
  | nil => exact h.log hp (fun _ _ hr => hr) fun _ => trivial
  | cons e todo =>
    obtain ⟨kind, e⟩ := e
    simp only [World.record]
    split_ifs with hdecodes hhas
    · exact h.goto hp trivial
    · -- an event without a record has no mint
      suffices hnew : (kind, e.id) ∉ u.keys from h.log hp (not_reopens hnew _ _) fun _ => trivial
      intro hmem
      obtain ⟨r, hr, -⟩ := h.closed p hp _ hmem
      simp [Ledger.has, hr] at hhas
    · exact h.goto hp trivial

lemma Once.collect (h : u.Once) (hp : u.up = some p) (safe : ℕ) (kinds : List Kind) :
    (u.collect cfg p safe kinds).Once := by
  cases kinds with
  | nil => exact h.goto hp trivial
  | cons kind kinds =>
    simp only [World.collect]
    split
    · exact h.goto hp ⟨List.nodup_nil, by simp, by simp⟩
    · exact h.goto hp ((h.filed p hp).pending kind)

lemma Once.settle (h : u.Once) (hp : u.up = some p) {loop : Loop H} {r : Record H}
    (hloop : Resumes p.ledger loop r) (w : Written) (answer : Option Bool) :
    (u.settle p r w (.minting loop) answer).Once := by
  cases answer with
  | none => exact h.goto hp hloop.1
  | some applied =>
    cases applied with
    | true => exact h.log hp (not_reopens_of_closed rfl _) fun _ => hloop.1.fold hloop.2 _ _
    | false => exact h.log hp (not_reopens_of_closed rfl _) fun _ => hloop.1.fold hloop.2 _ _

lemma Once.check (h : u.Once) (hp : u.up = some p) {l : Loop H} {r : Record H}
    (hpending : p.ledger.Pending (r :: l.todo)) (hstate : r.state ≠ .submitted) (answered : Bool)
    (w : Written) : (u.check cfg p l r answered w).Once := by
  have hloop : Resumes p.ledger l r := ⟨hpending.tail, hpending.key_notMem⟩
  have hfree : r.key ∉ u.keys := fun hmem => hpending.not_closed hstate (h.closed p hp _ hmem)
  -- a line that does not close the record leaves the loop as it is
  have hwrite : ∀ state f, (u.log p (.entry r.kind r.id state f) w (.minting l)).Once :=
    fun state f =>
    h.log hp (not_reopens hfree state f) fun _ => hloop.1.fold hloop.2 state f
  unfold World.check
  split
  · exact h.goto hp hloop.1
  · split
    · split
      · split
        · exact h.goto hp hloop.1
        · exact hwrite _ _
      split
      · exact hwrite _ _
      · apply h.log hp (not_reopens_of_closed rfl _)
        rintro rfl
        refine ⟨⟨hloop.1.fold hloop.2 _ _, hloop.2⟩, hfree, ?_, ?_⟩
        · exact p.ledger.closed_fold_entry r _ rfl
        · -- the write-ahead line is on disk
          intro htorn
          change (u.disk.append _ .synced).torn = false at htorn
          have hclean : u.disk.torn = false := by
            by_contra hbroken
            simp only [Bool.not_eq_false] at hbroken
            simp [Disk.append, hbroken] at htorn
          change ((u.disk.append _ .synced).ledger _ _).Closed r.key
          rw [Disk.append_synced _ hclean, Disk.ledger_snoc]
          exact Ledger.closed_fold_entry _ r _ rfl
    · exact hwrite _ _

variable [HashSuite H] [TxCodec H] [Inhabited H]

lemma Once.sign (h : u.Once) (hp : u.up = some p) {l : Loop H} {r : Record H}
    (hloop : Resumes p.ledger l r) (harmed : u.Armed p.ledger r) (tx : Tx H) (ready : Bool) :
    (u.sign cfg p l r tx ready).Once := by
  unfold World.sign
  split
  · split
    · exact h.goto hp ⟨hloop, harmed⟩
    · exact ⟨h.nodup, h.disk, by simp, by simp, by simp⟩
  · exact h.goto hp harmed.1

omit [HashSuite H] [TxCodec H] [Inhabited H] in
/-- A submission that fails leaves nothing on the node, unless its answer was lost. -/
lemma Once.submit (h : u.Once) (hp : u.up = some p) {l : Loop H} {r : Record H} {stx : SignedTx H}
    (hloop : Resumes p.ledger l r) (harmed : u.Armed p.ledger r) {answer : Answer}
    (hanswer : answer ≠ .lost) (hs : u.submit p l r stx answer = some u') : u'.Once := by
  obtain ⟨⟨c, got⟩, hsubmit, rfl⟩ := Option.map_eq_some_iff.mp hs
  have hfailed : got = false → Answer.taken answer = false →
      ({ u.goto p (if got then .sent l r stx else .failed r) with
        node := c
        taken := if Answer.taken answer then u.taken ++ [(r.key, stx)] else u.taken } :
          World H cfg.fromBlock).Once := by
    rintro rfl htaken
    have hgoto : (u.goto p (.failed r)).Once := h.goto hp harmed.1
    simp only [htaken, Bool.false_eq_true, if_false]
    exact ⟨hgoto.nodup, hgoto.disk, hgoto.filed, hgoto.closed, hgoto.guarded⟩
  cases answer with
  | lost => exact absurd rfl hanswer
  | turnedAway =>
    cases hsubmit
    exact hfailed rfl rfl
  | undelivered =>
    cases hsubmit
    exact hfailed rfl rfl
  | accepted =>
    cases hsubmit
    obtain ⟨hfree, hclosed, hdisk⟩ := harmed
    have hkeys : (u.taken ++ [((r.kind, r.id), stx)]).map Prod.fst = u.keys ++ [r.key] := by
      simp [keys, Record.key]
    refine ⟨?_, ?_, ?_, ?_, ?_⟩
    · change ((u.taken ++ [((r.kind, r.id), stx)]).map Prod.fst).Nodup
      rw [hkeys, List.nodup_append_comm, List.singleton_append, List.nodup_cons]
      exact ⟨hfree, h.nodup⟩
    · intro k hk
      change k ∈ (u.taken ++ [((r.kind, r.id), stx)]).map Prod.fst at hk
      rw [hkeys, List.mem_append, List.mem_singleton] at hk
      rcases hk with hk | rfl
      · exact h.disk k hk
      · exact hdisk
    all_goals
      intro q hq
      cases hq
    · exact h.filed p hp
    · intro k hk
      change k ∈ (u.taken ++ [((r.kind, r.id), stx)]).map Prod.fst at hk
      rw [hkeys, List.mem_append, List.mem_singleton] at hk
      rcases hk with hk | rfl
      · exact h.closed p hp k hk
      · exact hclosed
    · exact hloop

omit [HashSuite H] [TxCodec H] [Inhabited H] in
/-- What happens around the process leaves its records alone. -/
lemma Once.of_eq (h : u.Once) (htaken : u'.taken = u.taken) (hdisk : u'.disk = u.disk)
    (hup : u'.up = u.up) : u'.Once := by
  obtain ⟨eth, final, fetched, node, disk, up, taken, applied⟩ := u'
  cases htaken
  cases hdisk
  cases hup
  refine ⟨h.nodup, h.disk, h.filed, h.closed, fun p hp => ?_⟩
  have hguarded := h.guarded p hp
  cases hphase : p.phase <;> (rw [hphase] at hguarded; exact hguarded)

/-- A step whose answer is not lost keeps one mint for every event. -/
lemma Once.step {a : Act H cfg.fromBlock} (h : u.Once) (hlost : a ≠ .submit .lost)
    (hs : u.step cfg a = some u') : u'.Once := by
  have hguarded : ∀ p phase, u.up = some p → p.phase = phase → u.Guarded p.ledger phase := by
    rintro p _ hp rfl
    exact h.guarded p hp
  refine step_cases (Q := Once) hs ?crash ?block ?cover ?reorg ?boot ?tick ?fail ?page ?record
    ?collect
    ?check ?recheck ?sign ?submit ?reopen ?note ?settle
  case crash => exact ⟨h.nodup, h.disk, by simp, by simp, by simp⟩
  case block => exact fun _ _ _ _ => h.of_eq rfl rfl rfl
  case cover => exact fun _ => h.of_eq rfl rfl rfl
  case reorg => exact fun _ _ _ => h.of_eq rfl rfl rfl
  case boot =>
    intro l _ hl
    unfold Disk.openLedger at hl
    split_ifs at hl with htorn
    cases hl
    refine ⟨h.nodup, h.disk, ?_, ?_, ?_⟩
    all_goals
      intro p hp
      cases hp
    · exact u.disk.filed_ledger _ _
    · exact fun k hk => h.disk k hk (Bool.not_eq_true _ ▸ htorn)
    · trivial
  case tick => exact fun p hp => h.goto hp trivial
  case fail => exact fun p hp => h.goto hp trivial
  case page => exact fun p head safe hp _ => h.page hp head safe
  case record => exact fun p w head safe hi todo hp _ => h.record hp w head safe hi todo
  case collect => exact fun p safe kinds hp _ => h.collect hp safe kinds
  case check =>
    intro p safe kinds r todo answered w hp hphase hstate
    exact h.check (l := ⟨safe, kinds, todo⟩) hp (hguarded p _ hp hphase) hstate answered w
  case recheck =>
    intro p safe kinds r todo answer w hp hphase
    have hpending : p.ledger.Pending (r :: todo) := hguarded p _ hp hphase
    exact h.settle hp ⟨hpending.tail, hpending.key_notMem⟩ w answer
  case sign =>
    intro p l r tx ready hp hphase
    obtain ⟨hloop, harmed⟩ := hguarded p _ hp hphase
    exact h.sign hp hloop harmed tx ready
  case submit =>
    rintro p l r stx answer u₁ rfl hp hphase hsubmit
    obtain ⟨hloop, harmed⟩ := hguarded p _ hp hphase
    exact h.submit hp hloop harmed (fun heq => hlost (heq ▸ rfl)) hsubmit
  case reopen =>
    intro p r w hp hphase
    exact h.log hp (not_reopens (hguarded p _ hp hphase) _ _) fun _ => trivial
  case note =>
    intro p l r stx w hp hphase
    have hloop : Resumes p.ledger l r := hguarded p _ hp hphase
    exact h.log hp (not_reopens_of_closed rfl _) fun _ => ⟨hloop.1.fold hloop.2 _ _, hloop.2⟩
  case settle =>
    intro p l r answer w hp hphase
    exact h.settle hp (hguarded p _ hp hphase) w answer

omit [HashSuite H] [TxCodec H] [Inhabited H] in
lemma once_start (node : NodeView H) (eth : EthChain H cfg.fromBlock) :
    (start node eth : World H cfg.fromBlock).Once :=
  ⟨List.nodup_nil, by simp [keys, start], by simp [start], by simp [start], by simp [start]⟩

/-! ## The chain -/

/-- The nonces of the chain count the transactions that succeeded. -/
def Counts (u : World H cfg.fromBlock) : Prop :=
  ∃ ls, State.Counted ls u.node.state ∧ u.node.state.Fits ∧ State.succeeded ls = u.applied

omit [HashSuite H] [TxCodec H] [Inhabited H] in
lemma Counts.of_eq (h : u.Counts) (hnode : u'.node.state = u.node.state)
    (happlied : u'.applied = u.applied) : u'.Counts := by
  obtain ⟨ls, hcounted, hfits, hls⟩ := h
  refine ⟨ls, ?_, ?_, hls.trans happlied.symm⟩
  · rwa [hnode]
  · rwa [hnode]

omit [Inhabited H] in
/-- The chain goes on. -/
lemma Counts.of_path (h : u.Counts) {ls : List (Elementary H)}
    (hpath : Path State.ElemStep u.node.state ls u'.node.state)
    (happlied : u'.applied = u.applied ++ State.succeeded ls) : u'.Counts := by
  obtain ⟨ls₀, hcounted, hfits, hls₀⟩ := h
  have hend := hpath.invariant_along
    (I := fun pre s => State.Counted (ls₀ ++ pre) s ∧ s.Fits) Path.along_mem
    ⟨by simpa using hcounted, hfits⟩ fun pre l s s' hI _ hs => by
      rw [← List.append_assoc]
      exact ⟨hI.1.elemStep hs, hI.2.elemStep hs⟩
  refine ⟨ls₀ ++ ls, hend.1, hend.2, ?_⟩
  rw [State.succeeded_append, hls₀, happlied]

lemma Counts.step {a : Act H cfg.fromBlock} (h : u.Counts) (hs : u.step cfg a = some u') :
    u'.Counts := by
  have hlog : ∀ p line w next, (u.log p line w next).Counts := fun _ _ _ _ => h.of_eq rfl rfl
  have hgoto : ∀ p next, (u.goto p next).Counts := fun _ _ => h.of_eq rfl rfl
  have hsettle : ∀ p r w next answer, (u.settle p r w next answer).Counts := by
    intro p r w next answer
    unfold World.settle
    split
    · exact hlog _ _ _ _
    · exact hlog _ _ _ _
    · exact hgoto _ _
  refine step_cases (Q := Counts) hs (h.of_eq rfl rfl) ?block ?cover (fun _ _ _ => h.of_eq rfl rfl)
    (fun _ _ _ => h.of_eq rfl rfl) (fun p _ => hgoto p _)
      (fun p _ => hgoto p _) ?page ?record ?collect
    ?check ?recheck ?sign ?submit (fun p _ w _ _ => hlog p _ w _)
      (fun p _ _ _ w _ _ => hlog p _ w _)
    ?settle
  case block =>
    intro b c _ hc
    obtain ⟨ls, -, hfits, -⟩ := id h
    unfold NodeView.applyBlock at hc
    split at hc
    · next receipts s' happly =>
      cases hc
      apply h.of_path (State.path_of_blockStep hfits (.applied happly))
      simp only [succeedingIn, happly]
    · cases hc
  case cover =>
    intro keys
    apply h.of_path (.single (.cover keys))
    simp [State.succeeded, Elementary.signed]
  case page =>
    intro p head safe _ _
    unfold World.page
    split_ifs
    · exact h.of_eq rfl rfl
    · exact hgoto _ _
  case record =>
    intro p w head safe hi todo _ _
    cases todo with
    | nil => exact hlog _ _ _ _
    | cons e todo =>
      simp only [World.record]
      split_ifs
      · exact hgoto _ _
      · exact hlog _ _ _ _
      · exact hgoto _ _
  case collect =>
    intro p safe kinds _ _
    cases kinds with
    | nil => exact hgoto _ _
    | cons kind kinds =>
      simp only [World.collect]
      split <;> exact hgoto _ _
  case check =>
    intro p safe kinds r todo answered w _ _ _
    unfold World.check
    repeat' split
    all_goals first | exact hgoto _ _ | exact hlog _ _ _ _
  case recheck =>
    intro p safe kinds r todo answer w _ _
    exact hsettle _ _ _ _ _
  case sign =>
    intro p l r tx ready _ _
    unfold World.sign
    repeat' split
    all_goals exact h.of_eq rfl rfl
  case submit =>
    intro p l r stx answer u₁ _ _ _ hsubmit
    obtain ⟨⟨c, got⟩, hc, rfl⟩ := Option.map_eq_some_iff.mp hsubmit
    exact h.of_eq (NodeView.state_submit hc) rfl
  case settle => exact fun p l r answer w _ _ => hsettle _ _ _ _ _

end World

variable [HashSuite H] [TxCodec H] [Inhabited H]

/-- **One mint for every event.**  In every run of the service, with the process killed and started
again at any moment, ledger writes that fail, submissions that are refused or never arrive, and
whatever the two chains do: as long as no answer to a submission that the node took in is lost, at
most one of the mints that the node took in for an event succeeds. -/
theorem mint_succeeds_at_most_once {g : Genesis H} {s₀ : State H} (hinit : State.Initial g s₀)
    (cfg : Cfg H) (mempool refused : List (SignedTx H)) (eth : EthChain H cfg.fromBlock)
    {as : List (Act H cfg.fromBlock)} {u : World H cfg.fromBlock}
    (hrun : Path (StepOf (World.step cfg)) (.start ⟨s₀, mempool, refused⟩ eth) as u)
    (hlost : .submit .lost ∉ as) (kind : Kind) (id : H) :
    (u.applied.filter fun stx => ((kind, id), stx) ∈ u.taken).length ≤ 1 := by
  have hstart : (World.start ⟨s₀, mempool, refused⟩ eth : World H cfg.fromBlock).Counts := by
    refine ⟨[], ⟨List.nodup_nil, by simp [State.succeeded], ?_, fun _ _ => rfl⟩, hinit.fresh.fits,
      rfl⟩
    intro id acc hacc
    rw [hinit.nonce_eq_zero hacc]
    rfl
  obtain ⟨honce, ls, hcounted, -, hls⟩ : u.Once ∧ u.Counts := by
    refine hrun.invariant (I := fun v => v.Once ∧ v.Counts) ⟨World.once_start _ _, hstart⟩ ?_
    rintro v a v' ha ⟨honce, hcounts⟩ hs
    exact ⟨honce.step (fun heq => hlost (heq ▸ ha)) hs, hcounts.step hs⟩
  -- the event has at most one mint on the node, and that one succeeds at most once
  have hone : ∀ stx stx', ((kind, id), stx) ∈ u.taken → ((kind, id), stx') ∈ u.taken → stx = stx' :=
    fun stx stx' h h' => congrArg Prod.snd (List.inj_on_of_nodup_map honce.nodup h h' rfl)
  have hnodup : (u.applied.filter fun stx => ((kind, id), stx) ∈ u.taken).Nodup :=
    (hls ▸ hcounted.nodup).filter _
  rcases hmints : u.applied.filter fun stx => ((kind, id), stx) ∈ u.taken with
    _ | ⟨stx, _ | ⟨stx', rest⟩⟩
  · exact Nat.zero_le _
  · exact le_rfl
  · have hmem : ∀ t ∈ stx :: stx' :: rest, ((kind, id), t) ∈ u.taken := by
      intro t ht
      rw [← hmints, List.mem_filter] at ht
      exact of_decide_eq_true ht.2
    have heq := hone stx stx' (hmem stx (by simp)) (hmem stx' (by simp))
    rw [hmints, heq] at hnodup
    simp at hnodup

end HashKinetics.Attest

namespace HashKinetics.Concrete

open Foundations Attest State

/-- The block of one transaction. -/
def blockOf (height : ℕ) (stx : SignedTx ℕ) : Block ℕ := ⟨height, 0, [stx], none⟩

/-- The chain after the block of one transaction with a valid signature. -/
def afterBlock (height : ℕ) (stx : SignedTx ℕ) (s : State ℕ) : State ℕ :=
  (applyBlockVerified height 0 [stx] (some [true]) s).2

lemma applyBlock_blockOf {c : NodeView ℕ} (height : ℕ) {stx : SignedTx ℕ}
    (hverified : verifyEnvelope stx = true)
    (hok : (applyBlockVerified height 0 [stx] (some [true]) c.state).1.okAnd
      (fun receipts => receipts.length = 1 ∧ receipts.all Receipt.accepted) = true) :
    ∃ c', c.applyBlock (blockOf height stx) = some c' ∧
      c'.state = afterBlock height stx c.state ∧
        World.succeedingIn c (blockOf height stx) = [stx] := by
  obtain ⟨receipts, hreceipts, happly⟩ := Exec.exists_of_okAnd hok
  have hblock : applyBlockVerified height 0 [stx] none c.state =
      (.ok receipts, afterBlock height stx c.state) := by
    change applyBlock height 0 [stx] c.state = _
    rw [← applyBlockVerified_verdicts, List.map_singleton, hverified]
    exact happly
  obtain ⟨hlen, haccepted⟩ := of_decide_eq_true hreceipts
  obtain ⟨receipt, rfl⟩ := List.length_eq_one_iff.mp hlen
  refine ⟨⟨_, _, _⟩, by simp only [NodeView.applyBlock, blockOf, hblock]; rfl, rfl, ?_⟩
  simp only [World.succeedingIn, blockOf, hblock]
  obtain ⟨index, result⟩ := receipt
  cases result with
  | ok evs => rfl
  | error e => simp [Receipt.accepted, Except.isOk, Except.toBool] at haccepted

/-- The line that a failed submission writes. -/
def reopenLine : Line ℕ := .entry .deposit 7 .seen {}

/-- The service scans the lock and signs the first mint for it. -/
lemma path_firstMint :
    Path (StepOf (World.step bridge)) (.start mintNode (lockChain 1 7)) (scanActs ++ mintActs)
      (serving (lockChain 1 7) 1 mintNode [lockLine, .ethCursor 1, submittingLine]
        (scanned.fold submittingLine) (.signed lastLoop (lockRecord 0) (lockMint 0)) [] []) :=
  (path_scan mintNode 1).append
    (path_mint _ rfl rfl rfl inStates_scanned mintNode_nonce mintNode_account)

lemma verified_lockMint (nonce : ℕ) : verifyEnvelope (lockMint nonce) = true :=
  verifyEnvelope_signed [1] 1 nonce _

section Steps

variable {node node' : NodeView ℕ} {lines : List (Line ℕ)} {l : Ledger ℕ} {phase : Phase ℕ}
  {loop : Loop ℕ} {r : Record ℕ} {stx : SignedTx ℕ} {taken : List ((Kind × ℕ) × SignedTx ℕ)}
  {applied : List (SignedTx ℕ)} {height attempts : ℕ}

/-- The node takes a mint in, and the answer is lost. -/
lemma step_lost : StepOf (World.step bridge)
    (serving (lockChain 1 7) 1 node lines l (.signed loop r stx) taken applied) (.submit .lost)
    (serving (lockChain 1 7) 1 ⟨node.state, node.mempool ++ [stx], node.refused⟩ lines l (.failed r)
      (taken ++ [((r.kind, r.id), stx)]) applied) := rfl

/-- The record of a failed submission goes back to `seen`. -/
lemma step_reopen : StepOf (World.step bridge)
    (serving (lockChain 1 7) 1 node lines l (.failed (lockRecord attempts)) taken applied)
    (.note .synced)
    (serving (lockChain 1 7) 1 node (lines ++ [reopenLine]) (l.fold reopenLine) .idle taken
      applied) :=
  rfl

/-- The chain applies the block of one transaction. -/
lemma step_block (hblock : node.applyBlock (blockOf height stx) = some node')
    (happlied : World.succeedingIn node (blockOf height stx) = [stx]) :
    StepOf (World.step bridge) (serving (lockChain 1 7) 1 node lines l phase taken applied)
      (.block (blockOf height stx))
      (serving (lockChain 1 7) 1 node' lines l phase taken (applied ++ [stx])) := by
  simp only [StepOf, World.step, hblock, happlied, Option.map_some]

end Steps

/-- The service scans a lock of seven units and mints for it.  The answer is lost, the block with
the mint is applied, the next tick mints again, and the block with the second mint is applied
too. -/
theorem lostAnswer_mints_twice : ∃ as u,
    Path (StepOf (World.step bridge)) (.start mintNode (lockChain 1 7)) as u ∧
      ¬ (u.applied.filter fun stx => ((.deposit, 7), stx) ∈ u.taken).length ≤ 1 := by
  -- the block with the first mint, and what the next tick finds after it
  obtain ⟨c₁, hc₁, hstate₁, happlied₁⟩ := applyBlock_blockOf 1
    (c := ⟨mintNode.state, [lockMint 0], []⟩) (verified_lockMint 0) (by decide +kernel)
  have hnonce₁ : c₁.accountNonce 1 = some 1 := by
    rw [NodeView.accountNonce, hstate₁]
    decide +kernel
  have haccount₁ : 2 ∈ c₁.state.accounts := by
    rw [hstate₁]
    decide +kernel
  have hreopened : ((scanned.fold submittingLine).fold reopenLine).inStates .deposit
      [.seen, .heldRecipient, .submitted] = [lockRecord 1] := by
    decide +kernel
  -- the block with the second mint
  obtain ⟨c₂, hc₂, -, happlied₂⟩ := applyBlock_blockOf 2
    (c := ⟨c₁.state, c₁.mempool ++ [lockMint 1], c₁.refused⟩) (verified_lockMint 1) (by
      rw [hstate₁]
      decide +kernel)
  have hfirst := ((path_firstMint.snoc step_lost).snoc step_reopen).snoc (step_block hc₁ happlied₁)
  have hsecond := hfirst.append (path_mint _ rfl rfl rfl hreopened hnonce₁ haccount₁)
  refine ⟨_, _, (hsecond.snoc step_accepted).snoc (step_block hc₂ happlied₂), ?_⟩
  simp [lockRecord]

/-- Without a lost answer the lock of seven units is minted once. -/
theorem accepted_mints_once : ∃ as u,
    Path (StepOf (World.step bridge)) (.start mintNode (lockChain 1 7)) as u ∧
      lockMint 0 ∈ u.applied ∧
        (u.applied.filter fun stx => ((.deposit, 7), stx) ∈ u.taken).length ≤ 1 := by
  have hinit : Initial mintGenesis (start mintGenesis config) :=
    initial_start config (by decide +kernel)
  obtain ⟨c₁, hc₁, -, happlied₁⟩ := applyBlock_blockOf 1
    (c := ⟨mintNode.state, [lockMint 0], []⟩) (verified_lockMint 0) (by decide +kernel)
  have hrun := (path_firstMint.snoc step_accepted).snoc (step_block hc₁ happlied₁)
  refine ⟨_, _, hrun, by simp, ?_⟩
  have hlost : (.submit .lost : Act ℕ 1) ∉
      scanActs ++ mintActs ++ [.submit .accepted] ++ [.block (blockOf 1 (lockMint 0))] := by
    simp [scanActs, mintActs]
  exact mint_succeeds_at_most_once hinit bridge [] [] (lockChain 1 7) hrun hlost .deposit 7

end HashKinetics.Concrete
