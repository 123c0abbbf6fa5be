import HashKinetics.Foundations.Loops
import HashKinetics.Bridge.Ledger
import HashKinetics.Bridge.ContractSafety

/-!
# The attestation service: from burns to releases

One pass goes through the burns and then through the burns of the wrapped asset, each in the order
of their ids, and sends a release for every record that is due.  What is due is decided by the pause
switch and the daily allowance of the vault, read once, for both contracts.  Several events of a
single record end the whole pass: a ledger line that cannot be written, a receipt that is not
answered, a destination that is no address, and a send that the provider refuses.  The provider
estimates the gas of a call before it takes it, so it refuses every call that the contract would
revert.
-/

namespace HashKinetics.Attest

open Foundations Foundations.Checked Bridge

variable {H : Type} [LinearOrder H]

/-! ## What the scan records -/

/-- A committed burn as `hk_burns_at` reports it; not `known` when the node has no receipt for
it. -/
structure HkBurn (H : Type) where
  txid : H
  amount : ℕ
  destination : List UInt8
  height : ℕ
  known : Bool

/-- The line that `record_hk_burn` writes about a burn it has not seen before. -/
def HkBurn.line (kind : Kind) (b : HkBurn H) : Line H :=
  let state : RecordState :=
    if b.known = false then .needsReview
    else if b.destination.length = 20 then .seen
    else .unbridgeable
  .entry kind b.txid state
    { amount := some b.amount, dst := some (.address b.destination), seenAt := some b.height }

/-- `record_hk_burn` on the ledger in memory. -/
def Ledger.recordHkBurn (l : Ledger H) (kind : Kind) (b : HkBurn H) : Ledger H :=
  if l.has kind b.txid then l else l.fold (b.line kind)

/-! ## The pass -/

/-- `Address::parse`: twenty bytes, read as a number. -/
def Payee.parse : Payee H → Option Address
  | .address bytes =>
    if bytes.length = 20 then
      some (Fin.ofNat _ (Nat.ofDigits 256 (bytes.reverse.map UInt8.toNat)))
    else none
  | _ => none

/-- The contracts of the service, and whether the reverse leg is configured. -/
structure Sites (H : Type) where
  vault : Deployment
  wrapped : Deployment
  reverse : Bool
  /-- The 32 bytes of an id, as the contracts read them. -/
  word : H → Bytes32

/-- How everything around the service answers during one pass. -/
structure Tick (H : Type) where
  /-- The day and the contracts when the pass begins. -/
  day : ℕ
  vault : HKVault
  wrapped : HKWrapped
  /-- `processed` of the contract of a flow, when a record is looked at. -/
  processed : Kind → H → Bool
  /-- The receipt of a record that was sent before: not answered, pending, or a status. -/
  receipt : Kind → H → Option (Option Bool)
  /-- The signatures collected for a release, unless the service's own signing fails. -/
  attest : Kind → H → Option (List (List UInt8))
  /-- The contracts when a release is estimated, and the call that carries it. -/
  vaultAt : H → HKVault × Erc20
  wrappedAt : H → HKWrapped
  msgAt : Kind → H → Msg
  /-- The other requests of `send_call` are answered: the nonce, the fees, the raw transaction. -/
  requests : Kind → H → Bool
  /-- The receipt of a release, poll by poll. -/
  polls : Kind → H → ℕ → Option (Option Bool)
  /-- The ledger line with a new state is written. -/
  written : Kind → H → RecordState → Bool

/-- The contract of a flow when the pass begins. -/
def Tick.gate (t : Tick H) : Kind → Gate
  | .wlock => t.wrapped.toGate
  | _ => t.vault.toGate

/-- Why a pass ends early. -/
inductive PassError where
  | undecodable
  | unwritten
  | unanswered
  | badAddress
  | unsigned
  | refused
  deriving DecidableEq

/-- What a pass works on: the ledger in memory, and the records for which it began a send, each with
whether the provider took it. -/
structure Pass (H : Type) [LinearOrder H] where
  ledger : Ledger H
  attempts : List (Record H × Bool)

namespace Tick

/-- `Ledger::write` of a new state for a record. -/
def write (t : Tick H) (r : Record H) (state : RecordState) (f : Fields H) :
    Exec (Pass H) PassError Unit := do
  Exec.rejectIf (t.written r.kind r.id state = false) .unwritten
  Exec.modify fun p => { p with ledger := p.ledger.fold (.entry r.kind r.id state f) }

/-- A new state for a record that is not in it yet. -/
def queue (t : Tick H) (r : Record H) (state : RecordState) : Exec (Pass H) PassError Unit :=
  if r.state = state then pure () else t.write r state {}

/-- Wait for the receipt of a release, through the given answers. -/
def await (t : Tick H) (r : Record H) : List (Option (Option Bool)) → Exec (Pass H) PassError Unit
  | [] => pure ()
  | none :: _ => Exec.reject .unanswered
  | some none :: answers => t.await r answers
  | some (some true) :: _ => t.write r .confirmed {}
  | some (some false) :: _ => t.write r .reverted {}

/-- The answers to the twenty polls after a release was sent. -/
def answers (t : Tick H) (r : Record H) : List (Option (Option Bool)) :=
  (List.range 20).map (t.polls r.kind r.id)

section Contracts

variable [EvmSuite]

/-- `eth_estimateGas` executes the call that carries a release. -/
def estimate (c : Sites H) (t : Tick H) (r : Record H) (dst : Address) (sigs : List (List UInt8)) :
    Except Revert Unit :=
  match r.kind with
  | .wlock => (fun _ => ()) <$>
      (t.wrappedAt r.id).mint c.wrapped (t.msgAt r.kind r.id) dst r.amount (c.word r.id) sigs
  | _ => (fun _ => ()) <$> (t.vaultAt r.id).1.unlock c.vault (t.msgAt r.kind r.id) dst r.amount
      (c.word r.id) sigs (t.vaultAt r.id).2

/-- `send_call`: the provider takes the transaction. -/
def sendCall (c : Sites H) (t : Tick H) (r : Record H) (dst : Address) (sigs : List (List UInt8)) :
    Bool :=
  (t.estimate c r dst sigs).toBool && t.requests r.kind r.id

/-- The send of a release, and what follows it. -/
def send (t : Tick H) (r : Record H) (taken : Bool) : Exec (Pass H) PassError Unit := do
  Exec.modify fun p => { p with attempts := p.attempts ++ [(r, taken)] }
  if taken then do
    t.write r .submitted {}
    t.await r (t.answers r)
  else do
    t.write r .seen {}
    Exec.reject .refused

/-- The body of the loop of `process_hk_burns`. -/
def release (c : Sites H) (t : Tick H) (r : Record H) : Exec (Pass H) PassError Unit :=
  if t.processed r.kind r.id then t.queue r .confirmed
  else if r.state = .submitted then
    match t.receipt r.kind r.id with
    | none => Exec.reject .unanswered
    | some (some false) => t.write r .reverted {}
    | some _ => pure ()
  else if t.vault.paused then t.queue r .queuedPaused
  else if t.vault.remainingToday t.day < r.amount then t.queue r .queuedCap
  else
    match r.dst.parse with
    | none => Exec.reject .badAddress
    | some dst =>
      match t.attest r.kind r.id with
      | none => Exec.reject .unsigned
      | some sigs => do
        -- nothing leaves this process before this line is on disk
        t.write r .submitting { attempt := true }
        t.send r (t.sendCall c r dst sigs)

end Contracts

end Tick

/-- The states that a pass looks at. -/
def waiting : List RecordState := [.seen, .queuedCap, .queuedPaused, .submitted]

variable [EvmSuite]

/-- `process_hk_burns`. -/
def processHkBurns (c : Sites H) (t : Tick H) : Exec (Pass H) PassError Unit := do
  Exec.rejectIf (u128Max < t.vault.remainingToday t.day) .undecodable
  let p ← Exec.get
  Exec.each (t.release c) (p.ledger.inStates .burn waiting)
  Exec.when (c.reverse = true) do
    let p ← Exec.get
    Exec.each (t.release c) (p.ledger.inStates .wlock waiting)

/-! ## What a pass does with a record -/

/-- The receipt of a release does not end the pass. -/
def Tick.awaited (t : Tick H) (r : Record H) : List (Option (Option Bool)) → Bool
  | [] => true
  | none :: _ => false
  | some none :: answers => t.awaited r answers
  | some (some true) :: _ => t.written r.kind r.id .confirmed
  | some (some false) :: _ => t.written r.kind r.id .reverted

/-- A new state is written, or need not be. -/
def Tick.queued (t : Tick H) (r : Record H) (state : RecordState) : Bool :=
  r.state = state || t.written r.kind r.id state

/-- The pass would send a release for the record: it is neither processed nor submitted, and the
vault is open and has the amount left. -/
def Tick.due (t : Tick H) (r : Record H) : Bool :=
  !t.processed r.kind r.id && r.state ≠ .submitted && !t.vault.paused &&
    r.amount ≤ t.vault.remainingToday t.day

/-- Whether the provider takes the release, if the pass comes to sending one. -/
def Tick.sends (c : Sites H) (t : Tick H) (r : Record H) : Option Bool :=
  if t.due r then
    r.dst.parse.bind fun dst => (t.attest r.kind r.id).bind fun sigs =>
      if t.written r.kind r.id .submitting then some (t.sendCall c r dst sigs) else none
  else none

/-- The pass goes on after the record. -/
def Tick.passes (c : Sites H) (t : Tick H) (r : Record H) : Bool :=
  if t.processed r.kind r.id then t.queued r .confirmed
  else if r.state = .submitted then
    match t.receipt r.kind r.id with
    | none => false
    | some (some false) => t.written r.kind r.id .reverted
    | some _ => true
  else if t.vault.paused then t.queued r .queuedPaused
  else if t.vault.remainingToday t.day < r.amount then t.queued r .queuedCap
  else t.sends c r = some true && t.written r.kind r.id .submitted && t.awaited r (t.answers r)

/-- The send that the pass begins for a record. -/
def Tick.attempts (c : Sites H) (t : Tick H) (r : Record H) : List (Record H × Bool) :=
  (t.sends c r).toList.map (r, ·)

section Release

variable {c : Sites H} {t : Tick H} {r : Record H}

omit [EvmSuite] in
lemma logs_write (t : Tick H) (r : Record H) (state : RecordState) (f : Fields H) :
    Exec.Logs Pass.attempts (t.write r state f) (t.written r.kind r.id state) [] := by
  have hfold : Exec.Logs Pass.attempts
      (Exec.modify fun p : Pass H =>
        { p with ledger := p.ledger.fold (.entry r.kind r.id state f) } :
        Exec (Pass H) PassError Unit) true [] := Exec.logs_modify fun _ => (List.append_nil _).symm
  have h := (Exec.logs_rejectIf Pass.attempts (t.written r.kind r.id state = false)
    PassError.unwritten).bind hfold
  cases hw : t.written r.kind r.id state <;> simpa [Tick.write, hw] using h

omit [EvmSuite] in
lemma logs_queue (t : Tick H) (r : Record H) (state : RecordState) :
    Exec.Logs Pass.attempts (t.queue r state) (t.queued r state) [] := by
  unfold Tick.queue Tick.queued
  by_cases h : r.state = state
  · simpa [h] using Exec.logs_pure (ε := PassError) (Pass.attempts (H := H))
  · simpa [h] using logs_write t r state {}

omit [EvmSuite] in
lemma logs_await (t : Tick H) (r : Record H) (answers : List (Option (Option Bool))) :
    Exec.Logs Pass.attempts (t.await r answers) (t.awaited r answers) [] := by
  induction answers with
  | nil => exact Exec.logs_pure _
  | cons answer answers ih =>
    rcases answer with _ | _ | _ | _
    · exact Exec.logs_reject _ _
    · exact ih
    · exact logs_write t r .reverted {}
    · exact logs_write t r .confirmed {}

omit [EvmSuite] in
lemma logs_send (t : Tick H) (r : Record H) (taken : Bool) :
    Exec.Logs Pass.attempts (t.send r taken)
      (taken && t.written r.kind r.id .submitted && t.awaited r (t.answers r)) [(r, taken)] := by
  have hbegin : Exec.Logs Pass.attempts
      (Exec.modify fun p : Pass H => { p with attempts := p.attempts ++ [(r, taken)] } :
        Exec (Pass H) PassError Unit) true [(r, taken)] := Exec.logs_modify fun _ => rfl
  cases taken with
  | true =>
    have h := hbegin.bind ((logs_write t r .submitted {}).bind (logs_await t r (t.answers r)))
    simpa [Tick.send] using h
  | false =>
    have h := hbegin.bind ((logs_write t r .seen {}).bind
      (Exec.logs_reject Pass.attempts PassError.refused))
    simpa [Tick.send] using h

/-- What the body of the loop does: it goes on after the records that pass, and begins the send of a
record that is due. -/
lemma logs_release (c : Sites H) (t : Tick H) (r : Record H) :
    Exec.Logs Pass.attempts (t.release c r) (t.passes c r) (t.attempts c r) := by
  unfold Tick.release Tick.passes Tick.attempts Tick.sends Tick.due
  cases hprocessed : t.processed r.kind r.id with
  | true => simpa using logs_queue t r .confirmed
  | false =>
    by_cases hsubmitted : r.state = .submitted
    · rcases hreceipt : t.receipt r.kind r.id with _ | _ | _ | _
      · simpa [hsubmitted, hreceipt] using Exec.logs_reject Pass.attempts PassError.unanswered
      · simpa [hsubmitted, hreceipt] using
          Exec.logs_pure (ε := PassError) (Pass.attempts (H := H))
      · simpa [hsubmitted, hreceipt] using logs_write t r .reverted {}
      · simpa [hsubmitted, hreceipt] using
          Exec.logs_pure (ε := PassError) (Pass.attempts (H := H))
    · cases hpaused : t.vault.paused with
      | true => simpa [hsubmitted] using logs_queue t r .queuedPaused
      | false =>
        by_cases hcap : t.vault.remainingToday t.day < r.amount
        · simpa [hsubmitted, hcap, Nat.not_le.mpr hcap] using logs_queue t r .queuedCap
        · have hle : r.amount ≤ t.vault.remainingToday t.day := Nat.not_lt.mp hcap
          cases hdst : r.dst.parse with
          | none =>
            simpa [hsubmitted, hcap, hle] using
              Exec.logs_reject Pass.attempts PassError.badAddress
          | some dst =>
            cases hsigs : t.attest r.kind r.id with
            | none =>
              simpa [hsubmitted, hcap, hle] using
                Exec.logs_reject Pass.attempts PassError.unsigned
            | some sigs =>
              have h := (logs_write t r .submitting { attempt := true }).bind
                (logs_send t r (t.sendCall c r dst sigs))
              cases hwritten : t.written r.kind r.id .submitting
              all_goals
                rw [hwritten] at h
                simpa [hsubmitted, hcap, hle] using h

omit [LinearOrder H] in
lemma mem_attempts {taken : Bool} {r' : Record H} :
    (r', taken) ∈ t.attempts c r ↔ r' = r ∧ t.sends c r = some taken := by
  unfold Tick.attempts
  cases t.sends c r with
  | none => simp
  | some b =>
    simp only [Option.toList_some, List.map_cons, List.map_nil, List.mem_singleton, Prod.mk.injEq,
      Option.some.injEq]
    exact and_congr_right fun _ => eq_comm

end Release

/-! ## The whole pass -/

/-- The records that a pass looks at, in its order. -/
def candidates (c : Sites H) (l : Ledger H) : List (Record H) :=
  l.inStates .burn waiting ++ if c.reverse then l.inStates .wlock waiting else []

/-- The records that come before a record in a pass. -/
def earlier (c : Sites H) (l : Ledger H) (r : Record H) : List (Record H) :=
  (candidates c l).takeWhile (· ≠ r)

omit [EvmSuite] in
/-- A line about a record leaves the records of the other flows alone. -/
lemma keeps_write (t : Tick H) (r : Record H) (state : RecordState) (f : Fields H) {kind : Kind}
    (h : r.kind ≠ kind) : Exec.Keeps (fun p => p.ledger.records kind) (t.write r state f) := by
  unfold Tick.write
  refine (Exec.reads_rejectIf _ _).keeps.bind fun _ => Exec.keeps_modify fun p => ?_
  simp [Ledger.fold, Function.update_of_ne h.symm]

omit [EvmSuite] in
lemma keeps_queue (t : Tick H) (r : Record H) (state : RecordState) {kind : Kind}
    (h : r.kind ≠ kind) : Exec.Keeps (fun p => p.ledger.records kind) (t.queue r state) := by
  unfold Tick.queue
  split_ifs
  · exact (Exec.reads_pure ()).keeps
  · exact keeps_write t r state {} h

omit [EvmSuite] in
lemma keeps_await (t : Tick H) (r : Record H) (answers : List (Option (Option Bool))) {kind : Kind}
    (h : r.kind ≠ kind) : Exec.Keeps (fun p => p.ledger.records kind) (t.await r answers) := by
  induction answers with
  | nil => exact (Exec.reads_pure ()).keeps
  | cons answer answers ih =>
    rcases answer with _ | _ | _ | _
    · exact (Exec.reads_reject _).keeps
    · exact ih
    · exact keeps_write t r .reverted {} h
    · exact keeps_write t r .confirmed {} h

omit [EvmSuite] in
lemma keeps_send (t : Tick H) (r : Record H) (taken : Bool) {kind : Kind} (h : r.kind ≠ kind) :
    Exec.Keeps (fun p => p.ledger.records kind) (t.send r taken) := by
  have hbegin : Exec.Keeps (fun p => p.ledger.records kind)
      (Exec.modify fun p : Pass H => { p with attempts := p.attempts ++ [(r, taken)] } :
        Exec (Pass H) PassError Unit) := Exec.keeps_modify fun _ => rfl
  unfold Tick.send
  refine hbegin.bind fun _ => ?_
  split_ifs
  · exact (keeps_write t r .submitted {} h).bind fun _ => keeps_await t r _ h
  · exact (keeps_write t r .seen {} h).bind fun _ => (Exec.reads_reject _).keeps

lemma keeps_release (c : Sites H) (t : Tick H) (r : Record H) {kind : Kind} (h : r.kind ≠ kind) :
    Exec.Keeps (fun p => p.ledger.records kind) (t.release c r) := by
  unfold Tick.release
  split_ifs
  · exact keeps_queue t r .confirmed h
  · split
    · exact (Exec.reads_reject _).keeps
    · exact keeps_write t r .reverted {} h
    · exact (Exec.reads_pure ()).keeps
  · exact keeps_queue t r .queuedPaused h
  · exact keeps_queue t r .queuedCap h
  · split
    · exact (Exec.reads_reject _).keeps
    · split
      · exact (Exec.reads_reject _).keeps
      · exact (keeps_write t r .submitting _ h).bind fun _ => keeps_send t r _ h

omit [EvmSuite] in
lemma Ledger.Filed.kind_of_mem {l : Ledger H} (h : l.Filed) {kind : Kind}
    {states : List RecordState}
    {r : Record H} (hr : r ∈ l.inStates kind states) : r.kind = kind := by
  obtain ⟨id, hget, -⟩ := Ledger.exists_of_mem_inStates hr
  exact (h kind id r hget).1

omit [EvmSuite] in
lemma Ledger.Filed.recordHkBurn {l : Ledger H} (h : l.Filed) (kind : Kind) (b : HkBurn H) :
    (l.recordHkBurn kind b).Filed := by
  unfold Ledger.recordHkBurn
  split_ifs
  · exact h
  · exact h.fold (b.line kind)

/-- A pass whose allowance can be read releases the burns and then, if it is on, the locks. -/
lemma processHkBurns_pass (c : Sites H) (t : Tick H) (l : Ledger H)
    (hdecodes : t.vault.remainingToday t.day ≤ u128Max) :
    processHkBurns c t ⟨l, []⟩ =
      match Exec.each (t.release c) (l.inStates .burn waiting) ⟨l, []⟩ with
      | (.ok _, p) => Exec.when (c.reverse = true)
          (Exec.each (t.release c) (p.ledger.inStates .wlock waiting)) p
      | r => r := by
  change Exec.bind _ _ _ = _
  unfold Exec.bind
  rw [Exec.rejectIf, if_neg (Nat.not_lt.mpr hdecodes)]
  change Exec.bind _ _ _ = _
  unfold Exec.bind
  rw [Exec.get]
  change Exec.bind _ _ _ = _
  unfold Exec.bind
  rcases Exec.each (t.release c) (l.inStates .burn waiting) ⟨l, []⟩ with ⟨_ | _ | _, p⟩
  · rfl
  · rfl
  · rfl

/-- A pass whose allowance can be read is one loop over its records. -/
lemma processHkBurns_eq (c : Sites H) (t : Tick H) {l : Ledger H} (hl : l.Filed)
    (hdecodes : t.vault.remainingToday t.day ≤ u128Max) :
    processHkBurns c t ⟨l, []⟩ = Exec.each (t.release c) (candidates c l) ⟨l, []⟩ := by
  have hburns : Exec.Keeps (fun p : Pass H => p.ledger.records .wlock)
      (Exec.each (t.release c) (l.inStates .burn waiting)) :=
    Exec.Keeps.each fun r hr => keeps_release c t r (by simp [hl.kind_of_mem hr])
  rw [processHkBurns_pass c t l hdecodes, candidates, Exec.each_append_apply]
  rcases h : Exec.each (t.release c) (l.inStates .burn waiting) ⟨l, []⟩ with ⟨_ | _ | _, p⟩
  · have hsame : p.ledger.inStates .wlock waiting = l.inStates .wlock waiting := by
      unfold Ledger.inStates
      rw [hburns.eq_of_ok h]
    simp only [Exec.when, hsame]
    split_ifs <;> rfl
  · rfl
  · rfl

/-- The pass begins the send of a record, whether or not the provider takes it. -/
def Attempted (c : Sites H) (t : Tick H) (l : Ledger H) (r : Record H) : Prop :=
  ∃ taken, (r, taken) ∈ (processHkBurns c t ⟨l, []⟩).2.attempts

/-- The amounts of a flow that the pass has sent before it comes to a record. -/
def sentBefore (c : Sites H) (t : Tick H) (l : Ledger H) (r : Record H) : ℕ :=
  let sends := (Exec.each (t.release c) (earlier c l r) ⟨l, []⟩).2.attempts
  ((sends.filter fun a => a.2 ∧ a.1.kind = r.kind).map fun a => a.1.amount).sum

/-- A record that waits for its release and can have it: its own contract is open, has the amount
left after what the pass has sent before, and pays a valid address. -/
structure Sendable (c : Sites H) (t : Tick H) (l : Ledger H) (r : Record H) : Prop where
  mem : r ∈ candidates c l
  unsent : r.state ≠ .submitted
  unprocessed : t.processed r.kind r.id = false
  isOpen : (t.gate r.kind).paused = false
  allowed : sentBefore c t l r + r.amount ≤ (t.gate r.kind).remainingToday t.day
  valid : ∃ dst, r.dst.parse = some dst ∧ dst ≠ 0

/-- Nothing stands in the way of a record: the allowance of the vault can be read, the vault is open
and has the amount left, every record before it lets the pass go on, and its own release is signed
and logged. -/
structure Unhindered (c : Sites H) (t : Tick H) (l : Ledger H) (r : Record H) : Prop where
  decodes : t.vault.remainingToday t.day ≤ u128Max
  passed : ∀ r' ∈ earlier c l r, t.passes c r' = true
  vaultOpen : t.vault.paused = false
  vaultAllows : r.amount ≤ t.vault.remainingToday t.day
  signed : (t.attest r.kind r.id).isSome = true
  logged : t.written r.kind r.id .submitting = true

omit [EvmSuite] in
/-- The records before a record and those after it. -/
lemma earlier_split {c : Sites H} {l : Ledger H} {r : Record H} (hr : r ∈ candidates c l) :
    r ∉ earlier c l r ∧ ∃ later, candidates c l = earlier c l r ++ r :: later := by
  obtain ⟨before, later, hsplit, hnot⟩ := List.eq_append_cons_of_mem hr
  have hbefore : earlier c l r = before := by
    unfold earlier
    rw [hsplit, List.takeWhile_append_of_pos fun r' hr' => by
      simpa using fun heq : r' = r => hnot (heq ▸ hr')]
    simp
  rw [hbefore]
  exact ⟨hnot, later, hsplit⟩

/-- The sends that a pass begins are those of the records it reaches. -/
lemma attempted_iff {c : Sites H} {t : Tick H} {l : Ledger H} {r : Record H} (hl : l.Filed)
    (hdecodes : t.vault.remainingToday t.day ≤ u128Max) : Attempted c t l r ↔
      r ∈ Exec.reached (t.passes c) (candidates c l) ∧ (t.sends c r).isSome = true := by
  have hlog := (Exec.Logs.each (logs_release c t) (candidates c l)).log_eq ⟨l, []⟩
  unfold Attempted
  rw [processHkBurns_eq c t hl hdecodes, hlog]
  simp only [List.nil_append, List.mem_flatMap, mem_attempts, Option.isSome_iff_exists]
  constructor
  · rintro ⟨taken, r', hr', rfl, hsends⟩
    exact ⟨hr', taken, hsends⟩
  · rintro ⟨hr, taken, hsends⟩
    exact ⟨taken, r, hr, rfl, hsends⟩

omit [LinearOrder H] in
/-- A release is sent when it is due, its destination is an address, and it is signed and logged. -/
lemma isSome_sends_iff {c : Sites H} {t : Tick H} {r : Record H} :
    (t.sends c r).isSome = true ↔ t.due r = true ∧ r.dst.parse.isSome = true ∧
      (t.attest r.kind r.id).isSome = true ∧ t.written r.kind r.id .submitting = true := by
  unfold Tick.sends
  cases t.due r <;> cases r.dst.parse <;> cases t.attest r.kind r.id <;>
    cases t.written r.kind r.id .submitting <;> simp

/-- A sendable record is attempted exactly when nothing stands in its way. -/
lemma Sendable.attempted_iff {c : Sites H} {t : Tick H} {l : Ledger H} {r : Record H} (hl : l.Filed)
    (h : Sendable c t l r) : Attempted c t l r ↔ Unhindered c t l r := by
  obtain ⟨hnot, later, hsplit⟩ := earlier_split h.mem
  obtain ⟨dst, hdst, -⟩ := h.valid
  have hdue : t.due r = true ↔ t.vault.paused = false ∧
    r.amount ≤ t.vault.remainingToday t.day := by
    simp [Tick.due, h.unprocessed, h.unsent]
  by_cases hdecodes : t.vault.remainingToday t.day ≤ u128Max
  · rw [Attest.attempted_iff hl hdecodes, hsplit, Exec.mem_reached_iff hnot, isSome_sends_iff, hdue]
    constructor
    · rintro ⟨hpassed, ⟨hopen, hallows⟩, -, hsigned, hlogged⟩
      exact ⟨hdecodes, hpassed, hopen, hallows, hsigned, hlogged⟩
    · intro hfree
      exact ⟨hfree.passed, ⟨hfree.vaultOpen, hfree.vaultAllows⟩, by rw [hdst]; rfl, hfree.signed,
        hfree.logged⟩
  · refine iff_of_false ?_ fun hfree => hdecodes hfree.decodes
    rintro ⟨taken, hmem⟩
    have hpass : processHkBurns c t ⟨l, []⟩ = (.err .undecodable, ⟨l, []⟩) := by
      change Exec.bind _ _ _ = _
      unfold Exec.bind
      rw [Exec.rejectIf, if_pos (Nat.not_le.mp hdecodes)]
    rw [hpass] at hmem
    simp at hmem

omit [LinearOrder H] in
/-- A release to the zero address reverts in both contracts, so the provider does not take it. -/
lemma Tick.sendCall_zeroAddress (c : Sites H) (t : Tick H) (r : Record H)
    (sigs : List (List UInt8)) :
    t.sendCall c r 0 sigs = false := by
  have hrevert : ∀ u, t.estimate c r 0 sigs ≠ .ok u := by
    intro u h
    unfold Tick.estimate at h
    split at h
    · simp [HKWrapped.mint] at h
    · simp [HKVault.unlock] at h
  unfold Tick.sendCall
  cases h : t.estimate c r 0 sigs with
  | ok u => exact absurd h (hrevert u)
  | error e => rfl

omit [LinearOrder H] in
/-- No pass goes on after a due record that pays the zero address. -/
lemma Tick.not_passes_of_zeroAddress {c : Sites H} {t : Tick H} {r : Record H}
    (hdue : t.due r = true)
    (hdst : r.dst.parse = some 0) : t.passes c r = false := by
  have hsends : t.sends c r ≠ some true := by
    unfold Tick.sends
    rw [if_pos hdue, hdst]
    cases t.attest r.kind r.id <;> simp [Tick.sendCall_zeroAddress]
  simp only [Tick.due, Bool.and_eq_true, Bool.not_eq_true', decide_eq_true_eq] at hdue
  obtain ⟨⟨⟨hprocessed, hsubmitted⟩, hpaused⟩, hle⟩ := hdue
  simp [Tick.passes, hprocessed, hsubmitted, hpaused, Nat.not_lt.mpr hle, hsends]

/-- Every sendable record is attempted, whatever comes before it, exactly when nothing stands in the
way of a sendable record. -/
theorem sendable_attempted_iff (c : Sites H) (t : Tick H) (d : Disk H) (ethFrom hkFrom : ℕ) :
    (∀ r, Sendable c t (d.ledger ethFrom hkFrom) r → Attempted c t (d.ledger ethFrom hkFrom) r) ↔
      ∀ r, Sendable c t (d.ledger ethFrom hkFrom) r → Unhindered c t (d.ledger ethFrom hkFrom) r :=
  forall₂_congr fun _ hr => hr.attempted_iff (d.filed_ledger ethFrom hkFrom)

end HashKinetics.Attest

namespace HashKinetics.Concrete

open Foundations Attest Bridge

/-- The contracts of a service with a reverse leg; the ids are numbers. -/
def sites : Sites ℕ := ⟨site, ⟨43, 11155111, 4⟩, true, fun n => Fin.ofNat _ n⟩

/-- A burn to the zero address. -/
def zeroBurn : HkBurn ℕ := ⟨1, 4, List.replicate 20 0, 1, true⟩

/-- A burn to address 8. -/
def plainBurn : HkBurn ℕ := ⟨2, 4, List.replicate 19 0 ++ [8], 1, true⟩

/-- The ledger of a service that has scanned both burns. -/
def scannedBurns : Ledger ℕ :=
  ((Ledger.init 1 1).recordHkBurn .burn zeroBurn).recordHkBurn .burn plainBurn

/-- The vault holds ten units and is open, every call is answered, and every line is written. -/
def calmTick : Tick ℕ where
  day := 0
  vault := locking.1.1.1
  wrapped := ⟨locking.1.1.1.toGate, locking.1.1.2, 0⟩
  processed := fun _ _ => false
  receipt := fun _ _ => some none
  attest := fun _ id => some [[5, UInt8.ofNat (AttestorSet.typedDigest site.domainSeparator
    (HKVault.unlockStructHash (if id = 1 then 0 else 8) 4 (Fin.ofNat _ id)))]]
  vaultAt := fun _ => locking.1.1
  wrappedAt := fun _ => ⟨locking.1.1.1.toGate, locking.1.1.2, 0⟩
  msgAt := fun _ _ => ⟨5, 2000⟩
  requests := fun _ _ => true
  polls := fun _ _ _ => some none
  written := fun _ _ _ => true

lemma scannedBurns_filed : scannedBurns.Filed :=
  ((Ledger.filed_init 1 1).recordHkBurn .burn zeroBurn).recordHkBurn .burn plainBurn

/-- The records of the two burns. -/
def zeroRecord : Record ℕ := ⟨.burn, 1, .seen, 4, .address (List.replicate 20 0), 1, none, 0⟩

def plainRecord : Record ℕ :=
  ⟨.burn, 2, .seen, 4, .address (List.replicate 19 0 ++ [8]), 1, none, 0⟩

lemma scannedBurns_candidates :
    candidates sites scannedBurns = [zeroRecord, plainRecord] := by
  decide +kernel

lemma scannedBurns_earlier : earlier sites scannedBurns plainRecord = [zeroRecord] := by
  unfold earlier
  rw [scannedBurns_candidates]
  decide

lemma zeroRecord_due : calmTick.due zeroRecord = true := by
  decide +kernel

lemma zeroRecord_parse : zeroRecord.dst.parse = some 0 := by
  decide +kernel

lemma zeroRecord_refused : calmTick.sends sites zeroRecord = some false := by
  unfold Tick.sends
  rw [if_pos zeroRecord_due, zeroRecord_parse]
  exact congrArg some (Tick.sendCall_zeroAddress sites calmTick zeroRecord _)

lemma zeroRecord_stops : calmTick.passes sites zeroRecord = false :=
  Tick.not_passes_of_zeroAddress zeroRecord_due zeroRecord_parse

lemma plainRecord_sendable : Sendable sites calmTick scannedBurns plainRecord where
  mem := by simp [scannedBurns_candidates]
  unsent := by decide
  unprocessed := rfl
  isOpen := by decide +kernel
  allowed := by
    have hsends := (Exec.Logs.each (logs_release sites calmTick) [zeroRecord]).log_eq
      ⟨scannedBurns, []⟩
    have hrefused : calmTick.attempts sites zeroRecord = [(zeroRecord, false)] := by
      rw [Tick.attempts, zeroRecord_refused]
      rfl
    unfold sentBefore
    rw [scannedBurns_earlier, hsends]
    simp only [Exec.reached, zeroRecord_stops, List.flatMap_cons, hrefused]
    decide +kernel
  valid := ⟨8, by decide +kernel, by decide⟩

/-- A burn to the zero address comes first: the burn after it could be released, and the pass does
not even try. -/
theorem zeroBurn_blocks : ¬ ∀ r, Sendable sites calmTick scannedBurns r →
    Attempted sites calmTick scannedBurns r := by
  intro hall
  have hfree := (plainRecord_sendable.attempted_iff scannedBurns_filed).mp
    (hall plainRecord plainRecord_sendable)
  have hpass := hfree.passed zeroRecord (by simp [scannedBurns_earlier])
  rw [zeroRecord_stops] at hpass
  cases hpass

end HashKinetics.Concrete
