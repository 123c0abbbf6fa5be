import HashKinetics.Bridge.Ledger
import HashKinetics.Wallet.NodeView
import HashKinetics.State.Conservation
import HashKinetics.State.Accounts

/-!
# The attestation service: from Ethereum events to mints

One tick scans the events of the bridge contracts up to the head that the provider reports, page by
page, and records every event whose id is new; it then goes through the records whose block is
behind the safe head and mints for each of them on the chain.  Before a mint leaves the process its
record is `submitting` on disk; afterwards it is `submitted`, or back to `seen` when the submission
failed.

The process may be killed between any two steps and started again from its ledger.  The provider's
chain may be reorganised above the safe head, and the HashKinetics chain goes on applying blocks.
-/

namespace HashKinetics.Attest

open Foundations

variable {H : Type} [LinearOrder H]

/-- A `Locked` event of the vault or a `Burned` event of the wrapped token. -/
structure BridgeEvent (H : Type) where
  id : H
  hkAccount : H
  amount : ℕ
  nonce : ℕ
  block : ℕ
  deriving DecidableEq

/-- `decode_bridge_event` reads amounts and nonces as `u128`. -/
def BridgeEvent.decodes (e : BridgeEvent H) : Bool := e.amount ≤ u128Max && e.nonce ≤ u128Max

/-- A chain as the provider answers for it: its head, the head that counts as safe, and the events
of each contract in each block.  Nothing is emitted before the contracts are deployed, and the nonce
of a contract gives each of its events on a chain an id of its own. -/
structure EthChain (H : Type) (deployed : ℕ) where
  head : ℕ
  safe : ℕ
  events : Kind → ℕ → List (BridgeEvent H)
  block_eq : ∀ {kind b e}, e ∈ events kind b → e.block = b
  quiet : ∀ {kind b}, b ≤ deployed - 1 → events kind b = []
  distinct : ∀ {kind b b' e e'}, e ∈ events kind b → e' ∈ events kind b' → e.id = e'.id → e = e'

/-- The configuration of the service. -/
structure Cfg (H : Type) where
  usdc : H
  /-- The asset wrapped on the other side, if the reverse leg is configured. -/
  hkt : Option H
  fromBlock : ℕ
  fromHeight : ℕ
  logPage : ℕ
  issuerSeed : List UInt8
  issuer : H

/-- The asset that an event of a flow mints. -/
def Cfg.asset (cfg : Cfg H) : Kind → Option H
  | .deposit => some cfg.usdc
  | .wburn => cfg.hkt
  | _ => none

/-- The logs of a page: those of the vault, then those of the wrapped token if there is one. -/
def Cfg.logs (cfg : Cfg H) {deployed : ℕ} (c : EthChain H deployed) (lo hi : ℕ) :
    List (Kind × BridgeEvent H) :=
  let blocks := List.range' lo (hi + 1 - lo)
  let ofKind := fun kind => blocks.flatMap fun b => (c.events kind b).map fun e => (kind, e)
  ofKind .deposit ++ if cfg.hkt.isSome then ofKind .wburn else []

/-- What is left of `process_eth_events`: the safe head it uses, the flows it has not begun, and the
records of the current flow. -/
structure Loop (H : Type) where
  safe : ℕ
  kinds : List Kind
  todo : List (Record H)

/-- Where a running process is. -/
inductive Phase (H : Type) where
  | idle
  | scanning (head safe : ℕ)
  | recording (head safe hi : ℕ) (todo : List (Kind × BridgeEvent H))
  | minting (l : Loop H)
  /-- `hk_submit` has begun. -/
  | sending (l : Loop H) (r : Record H) (tx : Tx H)
  | signed (l : Loop H) (r : Record H) (stx : SignedTx H)
  /-- `hk_submit` has returned an error. -/
  | failed (r : Record H)
  /-- `hk_submit` has returned an id. -/
  | sent (l : Loop H) (r : Record H) (stx : SignedTx H)
  | waiting (l : Loop H) (r : Record H)

/-- A running process: the ledger in memory, and where it is. -/
structure Proc (H : Type) [LinearOrder H] where
  ledger : Ledger H
  phase : Phase H

/-- The service with everything around it. -/
structure World (H : Type) [LinearOrder H] (deployed : ℕ) where
  eth : EthChain H deployed
  /-- The highest safe head so far: blocks up to it never change. -/
  final : ℕ
  /-- The highest block whose logs the service has read. -/
  fetched : ℕ
  node : NodeView H
  disk : Disk H
  up : Option (Proc H)
  /-- The mints that the node took in, each with the event it was made for. -/
  taken : List ((Kind × H) × SignedTx H)
  /-- The transactions that succeeded on the chain. -/
  applied : List (SignedTx H)

/-- What the service does next, how its calls end, and what happens around it. -/
inductive Act (H : Type) [LinearOrder H] (deployed : ℕ) where
  | boot
  | crash
  | tick
  /-- A call to the provider fails, and the tick with it. -/
  | fail
  | page
  | record (w : Written)
  | collect
  | check (answered : Bool) (w : Written)
  | receipt (answer : Option Bool) (w : Written)
  /-- Read the nonce, sign and save the account file; not `ready` when one of these fails. -/
  | sign (ready : Bool)
  | submit (answer : Answer)
  | note (w : Written)
  | block (b : Block H)
  | cover (keys : OrderedSet H)
  | reorg (c : EthChain H deployed)

/-- The node has the transaction, whatever it answered. -/
def Answer.taken : Answer → Bool
  | .accepted => true
  | .lost => true
  | _ => false

namespace World

variable {deployed : ℕ}

/-- Before the service is started for the first time. -/
def start (node : NodeView H) (eth : EthChain H deployed) : World H deployed :=
  ⟨eth, eth.safe, 0, node, ⟨[], false⟩, none, [], []⟩

/-- The process goes on to another phase. -/
def goto (u : World H deployed) (p : Proc H) (next : Phase H) : World H deployed :=
  { u with up := some ⟨p.ledger, next⟩ }

/-- `Ledger::write`: the tick goes on when the line is on disk and in memory, and fails
otherwise. -/
def log (u : World H deployed) (p : Proc H) (line : Line H) (w : Written) (next : Phase H) :
    World H deployed :=
  { u with
    disk := u.disk.append line w
    up := some (if w = .synced then ⟨p.ledger.fold line, next⟩ else ⟨p.ledger, .idle⟩) }

/-- One page of `scan_eth`; the processing of records follows the last one. -/
def page (cfg : Cfg H) (u : World H deployed) (p : Proc H) (head safe : ℕ) : World H deployed :=
  if p.ledger.ethCursor < head then
    let lo := p.ledger.ethCursor + 1
    let hi := min (lo + cfg.logPage - 1) head
    { u.goto p (.recording head safe hi (cfg.logs u.eth lo hi)) with fetched := max u.fetched hi }
  else u.goto p (.minting ⟨safe, [.deposit, .wburn], []⟩)

/-- `record_eth_event` for the next log of a page, and the cursor after the last one. -/
def record (u : World H deployed) (p : Proc H) (w : Written) (head safe hi : ℕ) :
    List (Kind × BridgeEvent H) → World H deployed
  | [] => u.log p (.ethCursor hi) w (.scanning head safe)
  | (kind, e) :: todo =>
    if e.decodes then
      if p.ledger.has kind e.id then u.goto p (.recording head safe hi todo)
      else
        let fields : Fields H :=
          { amount := some e.amount, dst := some (.account e.hkAccount), seenAt := some e.block }
        u.log p (.entry kind e.id .seen fields) w (.recording head safe hi todo)
    else u.goto p .idle

/-- The next flow of `process_eth_events`. -/
def collect (cfg : Cfg H) (u : World H deployed) (p : Proc H) (safe : ℕ) :
    List Kind → World H deployed
  | [] => u.goto p .idle
  | kind :: kinds =>
    match cfg.asset kind with
    | none => u.goto p (.minting ⟨safe, kinds, []⟩)
    | some _ => u.goto p (.minting
        ⟨safe, kinds, p.ledger.inStates kind [.seen, .heldRecipient, .submitted]⟩)

/-- The receipt of a submitted mint, if the node has one. -/
def settle (u : World H deployed) (p : Proc H) (r : Record H) (w : Written) (next : Phase H) :
    Option Bool → World H deployed
  | some true => u.log p (.entry r.kind r.id .confirmed {}) w next
  | some false => u.log p (.entry r.kind r.id .rejected {}) w next
  | none => u.goto p next

/-- `process_eth_events` on a record that is not submitted yet, up to the write-ahead line. -/
def check (cfg : Cfg H) (u : World H deployed) (p : Proc H) (l : Loop H) (r : Record H)
    (answered : Bool) (w : Written) : World H deployed :=
  if l.safe < r.seenAt then u.goto p (.minting l)
  else
    match r.dst, cfg.asset r.kind with
    | .account dst, some asset =>
      if answered = false ∨ u.node.state.accounts[dst]? = none then
        if r.state = .heldRecipient then u.goto p (.minting l)
        else u.log p (.entry r.kind r.id .heldRecipient {}) w (.minting l)
      else if r.amount = 0 then u.log p (.entry r.kind r.id .needsReview {}) w (.minting l)
      else u.log p (.entry r.kind r.id .submitting { attempt := true }) w
        (.sending l r (.assetMint asset dst r.amount))
    | _, _ => u.log p (.entry r.kind r.id .needsReview {}) w (.minting l)

variable [HashSuite H] [TxCodec H] [Inhabited H]

/-- The transactions of a block that succeed on the chain of a node. -/
def succeedingIn (c : NodeView H) (b : Block H) : List (SignedTx H) :=
  match State.applyBlockVerified b.height b.time b.txs b.verdicts c.state with
  | (.ok receipts, _) => State.succeeded (State.blockSteps b receipts)
  | _ => []

/-- `hk_submit` up to the saved account file.  A payload that cannot be encoded kills the
process. -/
def sign (cfg : Cfg H) (u : World H deployed) (p : Proc H) (l : Loop H) (r : Record H) (tx : Tx H)
    (ready : Bool) : World H deployed :=
  match u.node.accountNonce cfg.issuer, ready with
  | some nonce, true =>
    match signAt cfg.issuerSeed cfg.issuer nonce tx with
    | some stx => u.goto p (.signed l r stx)
    | none => { u with up := none }
  | _, _ => u.goto p (.failed r)

/-- The submission itself. -/
def submit (u : World H deployed) (p : Proc H) (l : Loop H) (r : Record H) (stx : SignedTx H)
    (answer : Answer) : Option (World H deployed) :=
  (u.node.submit stx answer).map fun c =>
    { u.goto p (if c.2 then .sent l r stx else .failed r) with
      node := c.1
      taken := if Answer.taken answer then u.taken ++ [((r.kind, r.id), stx)] else u.taken }

/-- One step of a running process. -/
def advance (cfg : Cfg H) (u : World H cfg.fromBlock) (p : Proc H) (a : Act H cfg.fromBlock) :
    Option (World H cfg.fromBlock) :=
  match a, p.phase with
  | .tick, .idle => some (u.goto p (.scanning u.eth.head u.eth.safe))
  | .fail, .scanning _ _ => some (u.goto p .idle)
  | .fail, .recording _ _ _ _ => some (u.goto p .idle)
  | .page, .scanning head safe => some (u.page cfg p head safe)
  | .record w, .recording head safe hi todo => some (u.record p w head safe hi todo)
  | .collect, .minting ⟨safe, kinds, []⟩ => some (u.collect cfg p safe kinds)
  | .check answered w, .minting ⟨safe, kinds, r :: todo⟩ =>
    if r.state = .submitted then none
    else some (u.check cfg p ⟨safe, kinds, todo⟩ r answered w)
  | .receipt answer w, .minting ⟨safe, kinds, r :: todo⟩ =>
    if r.state = .submitted then
      some (u.settle p r w (.minting ⟨safe, kinds, todo⟩) (r.hkTxid.bind fun _ => answer))
    else none
  | .sign ready, .sending l r tx => some (u.sign cfg p l r tx ready)
  | .submit answer, .signed l r stx => u.submit p l r stx answer
  -- the tick fails after this line
  | .note w, .failed r => some (u.log p (.entry r.kind r.id .seen {}) w .idle)
  | .note w, .sent l r stx =>
    some (u.log p (.entry r.kind r.id .submitted { hkTxid := some stx }) w (.waiting l r))
  | .receipt answer w, .waiting l r => some (u.settle p r w (.minting l) answer)
  | _, _ => none

/-- One step of the service, or of what happens around it. -/
def step (cfg : Cfg H) (u : World H cfg.fromBlock) (a : Act H cfg.fromBlock) :
    Option (World H cfg.fromBlock) :=
  match a with
  | .crash => some { u with up := none }
  | .block b => (u.node.applyBlock b).map fun c =>
      { u with node := c, applied := u.applied ++ succeedingIn u.node b }
  | .cover keys =>
    some { u with node := { u.node with state := u.node.state.setBlockCoverage keys } }
  | .reorg c =>
    if ∀ kind, ∀ b ≤ u.final, c.events kind b = u.eth.events kind b then
      some { u with eth := c, final := max u.final c.safe }
    else none
  | .boot =>
    match u.up with
    | none => (u.disk.openLedger cfg.fromBlock cfg.fromHeight).map fun l =>
        { u with up := some ⟨l, .idle⟩ }
    | some _ => none
  | a => u.up.bind fun p => u.advance cfg p a

/-- What a step can do, operation by operation. -/
lemma step_cases {cfg : Cfg H} {u u' : World H cfg.fromBlock} {a : Act H cfg.fromBlock}
    {Q : World H cfg.fromBlock → Prop} (hs : u.step cfg a = some u')
    (crash : Q { u with up := none })
    (block : ∀ b c, a = .block b → u.node.applyBlock b = some c →
      Q { u with node := c, applied := u.applied ++ succeedingIn u.node b })
    (cover : ∀ keys,
      Q { u with node := { u.node with state := u.node.state.setBlockCoverage keys } })
    (reorg : ∀ c, a = .reorg c →
      (∀ kind, ∀ b ≤ u.final, c.events kind b = u.eth.events kind b) →
        Q { u with eth := c, final := max u.final c.safe })
    (boot : ∀ l, u.up = none → u.disk.openLedger cfg.fromBlock cfg.fromHeight = some l →
      Q { u with up := some ⟨l, .idle⟩ })
    (tick : ∀ p, u.up = some p → Q (u.goto p (.scanning u.eth.head u.eth.safe)))
    (fail : ∀ p, u.up = some p → Q (u.goto p .idle))
    (page : ∀ p head safe, u.up = some p → p.phase = .scanning head safe →
      Q (u.page cfg p head safe))
    (record : ∀ p w head safe hi todo, u.up = some p → p.phase = .recording head safe hi todo →
      Q (u.record p w head safe hi todo))
    (collect : ∀ p safe kinds, u.up = some p → p.phase = .minting ⟨safe, kinds, []⟩ →
      Q (u.collect cfg p safe kinds))
    (check : ∀ p safe kinds r todo answered w, u.up = some p →
      p.phase = .minting ⟨safe, kinds, r :: todo⟩ → r.state ≠ .submitted →
        Q (u.check cfg p ⟨safe, kinds, todo⟩ r answered w))
    (recheck : ∀ p safe kinds r todo answer w, u.up = some p →
      p.phase = .minting ⟨safe, kinds, r :: todo⟩ →
        Q (u.settle p r w (.minting ⟨safe, kinds, todo⟩) answer))
    (sign : ∀ p l r tx ready, u.up = some p → p.phase = .sending l r tx →
      Q (u.sign cfg p l r tx ready))
    (submit : ∀ p l r stx answer u', a = .submit answer → u.up = some p →
      p.phase = .signed l r stx →
      u.submit p l r stx answer = some u' → Q u')
    (reopen : ∀ p r w, u.up = some p → p.phase = .failed r →
      Q (u.log p (.entry r.kind r.id .seen {}) w .idle))
    (note : ∀ p l r stx w, u.up = some p → p.phase = .sent l r stx →
      Q (u.log p (.entry r.kind r.id .submitted { hkTxid := some stx }) w (.waiting l r)))
    (settle : ∀ p l r answer w, u.up = some p → p.phase = .waiting l r →
      Q (u.settle p r w (.minting l) answer)) : Q u' := by
  have hadvance : ∀ p, u.up = some p → u.advance cfg p a = some u' → Q u' := by
    intro p hup h
    unfold advance at h
    split at h
    case h_1 => cases h; exact tick p hup
    case h_2 => cases h; exact fail p hup
    case h_3 => cases h; exact fail p hup
    case h_4 hphase => cases h; exact page p _ _ hup hphase
    case h_5 hphase => cases h; exact record p _ _ _ _ _ hup hphase
    case h_6 hphase => cases h; exact collect p _ _ hup hphase
    case h_7 hphase =>
      split_ifs at h with hstate
      cases h
      exact check p _ _ _ _ _ _ hup hphase hstate
    case h_8 hphase =>
      split_ifs at h
      cases h
      exact recheck p _ _ _ _ _ _ hup hphase
    case h_9 hphase => cases h; exact sign p _ _ _ _ hup hphase
    case h_10 hphase => exact submit p _ _ _ _ _ rfl hup hphase h
    case h_11 hphase => cases h; exact reopen p _ _ hup hphase
    case h_12 hphase => cases h; exact note p _ _ _ _ hup hphase
    case h_13 hphase => cases h; exact settle p _ _ _ _ hup hphase
    case h_14 => cases h
  cases a with
  | crash =>
    cases hs
    exact crash
  | block b =>
    obtain ⟨c, hc, rfl⟩ := Option.map_eq_some_iff.mp hs
    exact block b c rfl hc
  | cover keys =>
    cases hs
    exact cover keys
  | reorg c =>
    simp only [step] at hs
    split_ifs at hs with hfinal
    cases hs
    exact reorg c rfl hfinal
  | boot =>
    simp only [step] at hs
    split at hs
    · next hup =>
      obtain ⟨l, hl, rfl⟩ := Option.map_eq_some_iff.mp hs
      exact boot l hup hl
    · cases hs
  | _ =>
    obtain ⟨p, hup, hp⟩ := Option.bind_eq_some_iff.mp hs
    exact hadvance p hup hp

end World

end HashKinetics.Attest

/-! ## A concrete service -/

namespace HashKinetics.Concrete

open Foundations Attest

/-- The service of account one, which issues asset five. -/
def bridge : Cfg ℕ where
  usdc := 5
  hkt := none
  fromBlock := 1
  fromHeight := 1
  logPage := 2000
  issuerSeed := [1]
  issuer := 1

/-- The first lock of the vault, for account two. -/
def firstLock (amount : ℕ) : BridgeEvent ℕ := ⟨7, 2, amount, 1, 1⟩

/-- A chain of one block with the first lock of the vault. -/
def lockChain (safe amount : ℕ) : EthChain ℕ 1 where
  head := 1
  safe := safe
  events kind b := if kind = .deposit ∧ b = 1 then [firstLock amount] else []
  block_eq := by
    intro kind b e he
    split_ifs at he with hb
    · rw [List.mem_singleton.mp he]
      exact hb.2.symm
    · cases he
  quiet := by
    intro kind b hb
    rw [if_neg]
    rintro ⟨-, rfl⟩
    omega
  distinct := by
    intro kind b b' e e' he he' _
    split_ifs at he with hb
    · split_ifs at he' with hb'
      · rw [List.mem_singleton.mp he, List.mem_singleton.mp he']
      · cases he'
    · cases he

/-- The line that a scan writes for a lock of seven units. -/
def lockLine : Line ℕ :=
  .entry .deposit 7 .seen { amount := some 7, dst := some (.account 2), seenAt := some 1 }

/-- The write-ahead line. -/
def submittingLine : Line ℕ := .entry .deposit 7 .submitting { attempt := true }

/-- The ledger after the scan. -/
def scanned : Ledger ℕ := ((Ledger.init 1 1).fold lockLine).fold (.ethCursor 1)

/-- The record of the lock. -/
def lockRecord (attempts : ℕ) : Record ℕ := ⟨.deposit, 7, .seen, 7, .account 2, 1, none, attempts⟩

/-- What the process does in a scan that finds the lock; its tick ends after it. -/
def scanActs : List (Act ℕ 1) := [.boot, .tick, .page, .record .synced, .record .synced, .fail]

/-- What the process does for the record up to its submission. -/
def mintActs : List (Act ℕ 1) := [.tick, .page, .collect, .check true .synced, .sign true]

/-- The mint for the lock. -/
def lockMint (nonce : ℕ) : SignedTx ℕ := signed [1] 1 nonce (.assetMint 5 2 7)

/-- The loop after the only record of its first flow. -/
def lastLoop : Loop ℕ := ⟨1, [.wburn], []⟩

/-- A running process that has read the logs of the block. -/
abbrev serving (eth : EthChain ℕ 1) (final : ℕ) (node : NodeView ℕ) (lines : List (Line ℕ))
    (l : Ledger ℕ)
    (phase : Phase ℕ) (taken : List ((Kind × ℕ) × SignedTx ℕ)) (applied : List (SignedTx ℕ)) :
    World ℕ bridge.fromBlock :=
  ⟨eth, final, 1, node, ⟨lines, false⟩, some ⟨l, phase⟩, taken, applied⟩

lemma path_scan (node : NodeView ℕ) (safe : ℕ) :
    Path (StepOf (World.step bridge)) (.start node (lockChain safe 7)) scanActs
      (serving (lockChain safe 7) safe node [lockLine, .ethCursor 1] scanned .idle [] []) := by
  have hrecord : StepOf (World.step bridge)
      (serving (lockChain safe 7) safe node [] (.init 1 1)
        (.recording 1 safe 1 [(.deposit, firstLock 7)]) [] []) (.record .synced)
      (serving (lockChain safe 7) safe node [lockLine] ((Ledger.init 1 1).fold lockLine)
        (.recording 1 safe 1 []) [] []) := by
    rfl
  exact .cons rfl (.cons rfl (.cons rfl (.cons hrecord (.cons rfl (.single rfl)))))

/-- The process mints for the record at the nonce of the chain. -/
lemma path_mint (eth : EthChain ℕ 1) (hhead : eth.head = 1) (hsafe : eth.safe = 1) {final nonce : ℕ}
    {node : NodeView ℕ} {lines : List (Line ℕ)} {l : Ledger ℕ} {attempts : ℕ}
    {taken : List ((Kind × ℕ) × SignedTx ℕ)} {applied : List (SignedTx ℕ)}
    (hcursor : l.ethCursor = 1)
    (hrecord : l.inStates .deposit [.seen, .heldRecipient, .submitted] = [lockRecord attempts])
    (hnonce : node.accountNonce 1 = some nonce) (haccount : 2 ∈ node.state.accounts) :
    Path (StepOf (World.step bridge)) (serving eth final node lines l .idle taken applied) mintActs
      (serving eth final node (lines ++ [submittingLine]) (l.fold submittingLine)
        (.signed lastLoop (lockRecord attempts) (lockMint nonce)) taken applied) := by
  have htick : StepOf (World.step bridge) (serving eth final node lines l .idle taken applied) .tick
      (serving eth final node lines l (.scanning 1 1) taken applied) := by
    simp [StepOf, World.step, World.advance, World.goto, hhead, hsafe]
  have hpage : StepOf (World.step bridge)
      (serving eth final node lines l (.scanning 1 1) taken applied) .page
      (serving eth final node lines l (.minting ⟨1, [.deposit, .wburn], []⟩) taken applied) := by
    simp [StepOf, World.step, World.advance, World.page, World.goto, hcursor]
  have hcollect : StepOf (World.step bridge)
      (serving eth final node lines l (.minting ⟨1, [.deposit, .wburn], []⟩) taken applied) .collect
      (serving eth final node lines l (.minting ⟨1, [.wburn],
        [lockRecord attempts]⟩) taken applied) := by
    simp [StepOf, World.step, World.advance, World.collect, World.goto, Cfg.asset, hrecord]
  have hcheck : StepOf (World.step bridge)
      (serving eth final node lines l (.minting ⟨1, [.wburn], [lockRecord attempts]⟩) taken applied)
      (.check true .synced)
      (serving eth final node (lines ++ [submittingLine]) (l.fold submittingLine)
        (.sending lastLoop (lockRecord attempts) (.assetMint 5 2 7)) taken applied) := by
    simp [StepOf, World.step, World.advance, World.check, World.log, Disk.append, Cfg.asset,
      lockRecord, haccount, submittingLine, lastLoop, bridge, serving]
  have hsign : StepOf (World.step bridge)
      (serving eth final node (lines ++ [submittingLine]) (l.fold submittingLine)
        (.sending lastLoop (lockRecord attempts) (.assetMint 5 2 7)) taken applied) (.sign true)
      (serving eth final node (lines ++ [submittingLine]) (l.fold submittingLine)
        (.signed lastLoop (lockRecord attempts) (lockMint nonce)) taken applied) := by
    simp [StepOf, World.step, World.advance, World.sign, World.goto, bridge, hnonce,
      signAt_eq_signed, lockMint, serving]
  exact .cons htick (.cons hpage (.cons hcollect (.cons hcheck (.single hsign))))

/-- A node on the chain of `mintGenesis`. -/
def mintNode : NodeView ℕ := ⟨start mintGenesis config, [], []⟩

lemma inStates_scanned :
    scanned.inStates .deposit [.seen, .heldRecipient, .submitted] = [lockRecord 0] := by
  decide +kernel

lemma mintNode_nonce : mintNode.accountNonce 1 = some 0 := by
  decide +kernel

lemma mintNode_account : 2 ∈ mintNode.state.accounts := by
  decide +kernel

/-- The node takes a mint in and says so. -/
lemma step_accepted {eth : EthChain ℕ 1} {final : ℕ} {node : NodeView ℕ} {lines : List (Line ℕ)}
    {l : Ledger ℕ} {loop : Loop ℕ} {r : Record ℕ} {stx : SignedTx ℕ}
    {taken : List ((Kind × ℕ) × SignedTx ℕ)} {applied : List (SignedTx ℕ)} :
    StepOf (World.step bridge) (serving eth final node lines l (.signed loop r stx) taken applied)
      (.submit .accepted)
      (serving eth final ⟨node.state, node.mempool ++ [stx],
        node.refused⟩ lines l (.sent loop r stx)
        (taken ++ [((r.kind, r.id), stx)]) applied) := rfl

end HashKinetics.Concrete
