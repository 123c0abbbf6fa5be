import HashKinetics.Wallet.NodeView
import HashKinetics.Concrete

/-!
# The senders of account transactions

Four programs sign with the one-time keys of an account: the command line (`sign_submit`), the
bridge attestor (`hk_submit`), the wallet (`send_payload`) and the faucet (`drip`).  The first three
take the index to sign with from the chain at every send; the faucet takes it once, when it starts,
and keeps its own count.  All of them write the advanced index to the account file before they
submit, and roll it back when the submission fails or its receipt is a rejection.

An index signs only one transaction unless the chain has refused the first, that is, rejected it in
a block it applied.  The first three keep to that exactly as long as nothing they signed is still
open when they read the chain's nonce; the faucet as long as this holds when it starts and every
roll-back follows a refusal.
-/

namespace HashKinetics

open Foundations

variable {H : Type} [LinearOrder H] [HashSuite H] [TxCodec H] [Inhabited H]

/-- The digest that the key of a transaction signed. -/
def SignedTx.digest (stx : SignedTx H) : Option H :=
  signingDigest stx.payload stx.sender stx.nonce stx.nextAuth

/-- Every transaction signed so far has an index below `n`, or the chain has refused it. -/
def Settled (signed refused : List (SignedTx H)) (n : ℕ) : Prop :=
  ∀ t ∈ signed, t.nonce < n ∨ t ∈ refused

omit [LinearOrder H] [HashSuite H] [TxCodec H] [Inhabited H] in
lemma Settled.mono {signed refused refused' : List (SignedTx H)} {n : ℕ}
    (h : Settled signed refused n) (hsub : refused ⊆ refused') : Settled signed refused' n :=
  fun t ht => (h t ht).imp id fun hr => hsub hr

omit [LinearOrder H] in
lemma nonce_signAt {seed : List UInt8} {id : H} {nonce : ℕ} {payload : Tx H} {stx : SignedTx H}
    (h : signAt seed id nonce payload = some stx) : stx.nonce = nonce := by
  obtain ⟨_, -, rfl⟩ := Option.map_eq_some_iff.mp h
  rfl

/-- What a step does to the signatures: it makes none, or one at an index where everything before is
settled. -/
def SignsSettled {σ : Type} (signed refused : σ → List (SignedTx H)) (u u' : σ) : Prop :=
  signed u' = signed u ∨
    ∃ stx, signed u' = signed u ++ [stx] ∧ Settled (signed u) (refused u) stx.nonce

/-- The three senders that read the nonce at every send. -/
inductive SenderKind where
  | cli
  | attestor
  | wallet
  deriving DecidableEq

/-- How far a send has come: the nonce is read; it is reserved in the file before signing (wallet),
or the transaction is signed before its nonce is saved (command line, attestor); both are done; the
submission has returned an id. -/
inductive Phase (H : Type) where
  | idle
  | read (nonce : ℕ) (payload : Tx H)
  | reserved (nonce : ℕ) (payload : Tx H)
  | signed (stx : SignedTx H)
  | ready (stx : SignedTx H)
  | waiting (stx : SignedTx H)

/-- What the sender does next, what the node answers, and what happens around it. -/
inductive SendAction (H : Type) where
  | read (payload : Tx H)
  | reserve (written : Bool)
  | sign
  | save (written : Bool)
  | submit (answer : Answer)
  /-- The receipt says that the transaction was applied (`some true`) or rejected (`some false`), or
  there is none in time. -/
  | receipt (applied : Option Bool)
  | crash
  | block (b : Block H)

/-- A sender, the file of its account, the node it talks to, and everything it has signed. -/
structure SendState (H : Type) [LinearOrder H] where
  node : NodeView H
  fileNonce : ℕ
  phase : Phase H
  signed : List (SignedTx H)

namespace SendState

/-- Before the first send. -/
def start (node : NodeView H) (fileNonce : ℕ) : SendState H := ⟨node, fileNonce, .idle, []⟩

/-- Sign with the key of the index. -/
def signWith (seed : List UInt8) (id : H) (u : SendState H) (nonce : ℕ) (payload : Tx H)
    (next : SignedTx H → Phase H) : Option (SendState H) :=
  (signAt seed id nonce payload).map fun stx =>
    { u with phase := next stx, signed := u.signed ++ [stx] }

/-- The index that a roll-back leaves in the file. -/
def rolledBack (u : SendState H) (stx : SignedTx H) : SenderKind → ℕ
  | .cli => u.fileNonce - 1
  | .attestor => u.fileNonce - 1
  | .wallet => stx.nonce

/-- One step of a send, or of what happens around it. -/
def step (seed : List UInt8) (id : H) (kind : SenderKind) (u : SendState H) :
    SendAction H → Option (SendState H)
  | .read payload =>
    match u.phase with
    | .idle => (u.node.accountNonce id).map fun n => { u with phase := .read n payload }
    | _ => none
  | .reserve written =>
    match kind, u.phase with
    | .wallet, .read n payload =>
      if written then some { u with fileNonce := n + 1, phase := .reserved n payload }
      else some { u with phase := .idle }
    | _, _ => none
  | .sign =>
    match kind, u.phase with
    | .wallet, .reserved n payload => u.signWith seed id n payload .ready
    | .cli, .read n payload => u.signWith seed id n payload .signed
    | .attestor, .read n payload => u.signWith seed id n payload .signed
    | _, _ => none
  | .save written =>
    match u.phase with
    | .signed stx =>
      if written then some { u with fileNonce := stx.nonce + 1, phase := .ready stx }
      else some { u with phase := .idle }
    | _ => none
  | .submit answer =>
    match u.phase with
    | .ready stx =>
      (u.node.submit stx answer).map fun r =>
        if r.2 then { u with node := r.1, phase := .waiting stx }
        else { u with node := r.1, fileNonce := u.rolledBack stx kind, phase := .idle }
    | _ => none
  | .receipt applied =>
    match u.phase with
    | .waiting stx =>
      if applied = some false then
        -- the attestor leaves a rejected mint to its operator
        if stx ∈ u.node.refused then
          if kind = .attestor then some { u with phase := .idle }
          else some { u with fileNonce := u.rolledBack stx kind, phase := .idle }
        else none
      else some { u with phase := .idle }
    | _ => none
  | .crash => some { u with phase := .idle }
  | .block b => (u.node.applyBlock b).map fun c => { u with node := c }

/-- When a send reads the chain's nonce, everything the account signed before is settled at it. -/
def Clear (id : H) (u : SendState H) : SendAction H → Prop
  | .read _ => ∀ n, u.node.accountNonce id = some n → Settled u.signed u.node.refused n
  | _ => True

/-- The transactions that the chain has refused. -/
def refused (u : SendState H) : List (SignedTx H) := u.node.refused

/-- An index that a send has read and not yet signed with is free. -/
def Free (u : SendState H) : Prop :=
  match u.phase with
  | .read n _ => Settled u.signed u.node.refused n
  | .reserved n _ => Settled u.signed u.node.refused n
  | _ => True

variable {seed : List UInt8} {id : H} {kind : SenderKind} {u u' : SendState H} {a : SendAction H}

/-- A step keeps the index it holds free, and signs at the free index it holds. -/
lemma step_cases (hfree : u.Free) (hclear : u.Clear id a) (h : u.step seed id kind a = some u') :
    u'.Free ∧ SignsSettled SendState.signed refused u u' := by
  have hsign : ∀ n payload (next : SignedTx H → Phase H), (∀ stx, ∀ m p, next stx ≠ .read m p) →
      (∀ stx, ∀ m p, next stx ≠ .reserved m p) → Settled u.signed u.node.refused n →
        u.signWith seed id n payload next = some u' →
          u'.Free ∧ SignsSettled SendState.signed refused u u' := by
    intro n payload next hread hreserved hsettled hs
    obtain ⟨stx, hstx, rfl⟩ := Option.map_eq_some_iff.mp hs
    refine ⟨?_, .inr ⟨stx, rfl, nonce_signAt hstx ▸ hsettled⟩⟩
    cases hnext : next stx with
    | read m p => exact absurd hnext (hread stx m p)
    | reserved m p => exact absurd hnext (hreserved stx m p)
    | _ => simp [Free]
  cases a with
  | read payload =>
    simp only [step] at h
    split at h
    · obtain ⟨n, hn, rfl⟩ := Option.map_eq_some_iff.mp h
      exact ⟨hclear n hn, .inl rfl⟩
    · cases h
  | reserve written =>
    simp only [step] at h
    split at h
    · next n payload hphase =>
      split at h
      · cases h
        rw [Free, hphase] at hfree
        exact ⟨hfree, .inl rfl⟩
      · cases h
        exact ⟨trivial, .inl rfl⟩
    · cases h
  | sign =>
    simp only [step] at h
    split at h
    all_goals try rw [Free, ‹u.phase = _›] at hfree
    · exact hsign _ _ _ (by simp) (by simp) hfree h
    · exact hsign _ _ _ (by simp) (by simp) hfree h
    · exact hsign _ _ _ (by simp) (by simp) hfree h
    · cases h
  | save written =>
    simp only [step] at h
    split at h
    · split at h
      all_goals
        cases h
        exact ⟨trivial, .inl rfl⟩
    · cases h
  | submit answer =>
    simp only [step] at h
    split at h
    · obtain ⟨⟨c, got⟩, -, rfl⟩ := Option.map_eq_some_iff.mp h
      cases got <;> exact ⟨trivial, .inl rfl⟩
    · cases h
  | receipt applied =>
    simp only [step] at h
    split at h
    · split at h
      · split at h
        · split at h
          all_goals
            cases h
            exact ⟨trivial, .inl rfl⟩
        · cases h
      · cases h
        exact ⟨trivial, .inl rfl⟩
    · cases h
  | crash =>
    cases h
    exact ⟨trivial, .inl rfl⟩
  | block b =>
    simp only [step] at h
    obtain ⟨c, hc, rfl⟩ := Option.map_eq_some_iff.mp h
    have hsub := NodeView.refused_subset_applyBlock hc
    refine ⟨?_, .inl rfl⟩
    unfold Free at hfree ⊢
    cases hphase : u.phase with
    | read n p =>
      rw [hphase] at hfree
      exact hfree.mono hsub
    | reserved n p =>
      rw [hphase] at hfree
      exact hfree.mono hsub
    | _ => trivial

end SendState

/-! ## The faucet -/

/-- What the faucet does next, what the node answers, and what happens around it.  Signing, saving
and submitting happen under one lock; the receipts of several drips are awaited at the same time. -/
inductive DripAction (H : Type) where
  | boot
  | sign (payload : Tx H)
  | save (written : Bool)
  | submit (answer : Answer)
  | receipt (stx : SignedTx H) (applied : Option Bool)
  | crash
  | block (b : Block H)

/-- The faucet: the next index of the running process, the file of its account, the transaction
under the lock and whether its nonce is saved, and the transactions whose receipts are awaited. -/
structure DripState (H : Type) [LinearOrder H] where
  node : NodeView H
  nextNonce : Option ℕ
  fileNonce : ℕ
  locked : Option (SignedTx H × Bool)
  waiting : List (SignedTx H)
  signed : List (SignedTx H)

namespace DripState

/-- Before the faucet is started for the first time. -/
def start (node : NodeView H) (fileNonce : ℕ) : DripState H := ⟨node, none, fileNonce, none, [], []⟩

/-- `Wallet::rollback`, with the file following unless its write fails. -/
def rollback (u : DripState H) : DripState H :=
  { u with nextNonce := u.nextNonce.map (· - 1), locked := none }

/-- One step of the faucet, or of what happens around it. -/
def step (seed : List UInt8) (id : H) (u : DripState H) : DripAction H → Option (DripState H)
  | .boot =>
    match u.nextNonce with
    | none => (u.node.accountNonce id).map fun n => { u with nextNonce := some n }
    | some _ => none
  | .sign payload =>
    match u.nextNonce, u.locked with
    | some k, none =>
      (signAt seed id k payload).map fun stx =>
        { u with
          nextNonce := some (k + 1)
          locked := some (stx, false)
          signed := u.signed ++ [stx] }
    | _, _ => none
  | .save written =>
    match u.locked with
    | some (stx, false) =>
      if written then some { u with fileNonce := stx.nonce + 1, locked := some (stx, true) }
      else some u.rollback
    | _ => none
  | .submit answer =>
    match u.locked with
    | some (stx, true) =>
      (u.node.submit stx answer).map fun r =>
        if r.2 then { u with node := r.1, locked := none, waiting := u.waiting ++ [stx] }
        else { u with node := r.1, fileNonce := stx.nonce }.rollback
    | _ => none
  | .receipt stx applied =>
    if stx ∈ u.waiting ∧ u.locked = none then
      if applied = some false then
        if stx ∈ u.node.refused then
          some { u with waiting := u.waiting.erase stx, fileNonce := u.fileNonce - 1 }.rollback
        else none
      else some { u with waiting := u.waiting.erase stx }
    else none
  | .crash => some { u with nextNonce := none, locked := none, waiting := [] }
  | .block b => (u.node.applyBlock b).map fun c => { u with node := c }

/-- The index that a roll-back would give back belongs to refused transactions only. -/
def LastRefused (u : DripState H) (refused : List (SignedTx H)) : Prop :=
  ∀ k, u.nextNonce = some k → ∀ t ∈ u.signed, t.nonce + 1 = k → t ∈ refused

/-- The faucet starts only when everything it signed before is settled, and it rolls back only an
index whose transactions the chain has refused. -/
def Clear (id : H) (u : DripState H) : DripAction H → Prop
  | .boot => ∀ n, u.node.accountNonce id = some n → Settled u.signed u.node.refused n
  | .save written => written = false → u.LastRefused u.node.refused
  | .submit answer => ∀ stx c, u.locked = some (stx, true) →
      u.node.submit stx answer = some (c, false) → u.LastRefused c.refused
  | .receipt _ applied => applied = some false → u.LastRefused u.node.refused
  | _ => True

/-- The transactions that the chain has refused. -/
def refused (u : DripState H) : List (SignedTx H) := u.node.refused

/-- The next index of a running faucet is free. -/
def Free (u : DripState H) : Prop :=
  ∀ k, u.nextNonce = some k → Settled u.signed u.node.refused k

variable {seed : List UInt8} {id : H} {u u' : DripState H} {a : DripAction H}

omit [HashSuite H] [TxCodec H] [Inhabited H] in
lemma Free.mono {node : NodeView H} (h : u.Free) (hsub : u.node.refused ⊆ node.refused) :
    ({ u with node := node } : DripState H).Free :=
  fun k hk => (h k hk).mono hsub

omit [HashSuite H] [TxCodec H] [Inhabited H] in
/-- A roll-back over refused transactions leaves a free index. -/
lemma Free.rollback (h : u.Free) (hlast : u.LastRefused u.node.refused) : u.rollback.Free := by
  intro k' hk' t ht
  obtain ⟨k, hk, rfl⟩ := Option.map_eq_some_iff.mp hk'
  rcases h k hk t ht with hlt | hrefused
  · by_cases hlast' : t.nonce + 1 = k
    · exact .inr (hlast k hk t ht hlast')
    · exact .inl (by omega)
  · exact .inr hrefused

/-- A step keeps the next index free, and signs at the free index. -/
lemma step_cases (hfree : u.Free) (hclear : u.Clear id a) (h : u.step seed id a = some u') :
    u'.Free ∧ SignsSettled DripState.signed refused u u' := by
  cases a with
  | boot =>
    simp only [step] at h
    split at h
    · obtain ⟨n, hn, rfl⟩ := Option.map_eq_some_iff.mp h
      refine ⟨fun k hk => ?_, .inl rfl⟩
      cases hk
      exact hclear n hn
    · cases h
  | sign payload =>
    simp only [step] at h
    split at h
    · next k hnext _ =>
      obtain ⟨stx, hstx, rfl⟩ := Option.map_eq_some_iff.mp h
      have hnonce := nonce_signAt hstx
      refine ⟨fun k' hk' t ht => ?_, .inr ⟨stx, rfl, hnonce ▸ hfree k hnext⟩⟩
      cases hk'
      rcases List.mem_append.mp ht with ht | ht
      · exact (hfree k hnext t ht).imp Nat.lt_succ_of_lt fun hr => hr
      · rw [List.mem_singleton.mp ht, hnonce]
        exact .inl (Nat.lt_succ_self k)
    · cases h
  | save written =>
    simp only [step] at h
    split at h
    · split at h
      · cases h
        exact ⟨hfree, .inl rfl⟩
      · next hwritten =>
        cases h
        exact ⟨hfree.rollback (hclear (Bool.not_eq_true _ ▸ hwritten)), .inl rfl⟩
    · cases h
  | submit answer =>
    simp only [step] at h
    split at h
    · next stx hlocked =>
      obtain ⟨⟨c, got⟩, hsubmit, rfl⟩ := Option.map_eq_some_iff.mp h
      have hsub : u.node.refused ⊆ c.refused := by
        rw [NodeView.refused_submit hsubmit]
        exact List.Subset.refl _
      cases got with
      | true => exact ⟨hfree.mono hsub, .inl rfl⟩
      | false =>
        have hlast := hclear stx c hlocked hsubmit
        refine ⟨Free.rollback (u := { u with node := c, fileNonce := stx.nonce }) ?_ hlast,
          .inl rfl⟩
        exact hfree.mono hsub
    · cases h
  | receipt stx applied =>
    simp only [step] at h
    split at h
    · split at h
      · next happlied =>
        split at h
        · cases h
          refine ⟨Free.rollback (u := { u with
            waiting := u.waiting.erase stx, fileNonce := u.fileNonce - 1 }) ?_ ?_, .inl rfl⟩
          · exact hfree
          · exact hclear happlied
        · cases h
      · cases h
        exact ⟨hfree, .inl rfl⟩
    · cases h
  | crash =>
    cases h
    exact ⟨fun k hk => (by cases hk), .inl rfl⟩
  | block b =>
    simp only [step] at h
    obtain ⟨c, hc, rfl⟩ := Option.map_eq_some_iff.mp h
    exact ⟨hfree.mono (NodeView.refused_subset_applyBlock hc), .inl rfl⟩

end DripState

namespace Concrete

section Steps

variable {node : NodeView ℕ} {fileNonce n : ℕ} {old : List (SignedTx ℕ)} {payload : Tx ℕ}

end Steps

end Concrete

end HashKinetics
