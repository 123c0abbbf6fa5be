import HashKinetics.State.Accounts
import HashKinetics.State.Refusals
import HashKinetics.Node.MempoolIndex

/-!
# What the door foresees

The door judges a transaction against the chain and the pending transactions of its sender.  Applied
in the order of the queue, what it let in passes its envelope, unless an earlier transaction of the
same sender was refused after its own envelope had passed: the account then stays where it was.
-/

namespace HashKinetics

open Foundations

/-! ## A list of transactions, one after the other -/

namespace State

variable {H : Type} [LinearOrder H] [HashSuite H] [TxCodec H] {s s' : State H}
  {q : List (SignedTx H)} {i : ℕ} {tx : SignedTx H}

/-- The state after the first `i` transactions of a list. -/
def stateAt (s : State H) (q : List (SignedTx H)) (i : ℕ) : Option (State H) :=
  match applyTxs 0 (withVerdicts (q.take i) none) s with
  | (.ok _, s') => some s'
  | _ => none

/-- How transaction `i` of a list ends when the list is applied in order. -/
def outcomeAt (s : State H) (q : List (SignedTx H)) (i : ℕ) :
    Option (Outcome StateError (List (Event H))) :=
  (s.stateAt q i).bind fun s' => q[i]?.map fun tx => (applyTx tx s').1

/-- A list is applied part by part. -/
lemma applyTxs_append {n : ℕ} {a b : List (SignedTx H × Option Bool)}
    {receipts : List (Receipt H)} :
    applyTxs n (a ++ b) s = (.ok receipts, s') ↔
      ∃ ra s₁ rb, applyTxs n a s = (.ok ra, s₁) ∧ applyTxs (n + a.length) b s₁ = (.ok rb, s') ∧
        receipts = ra ++ rb := by
  induction a generalizing n s receipts with
  | nil => simp [applyTxs]
  | cons p a ih =>
    obtain ⟨stx, preSig⟩ := p
    simp only [List.cons_append, applyTxs, Exec.bind_eq_ok, Exec.pure_eq_ok]
    constructor
    · rintro ⟨r, s₁, htry, rest, _, hrest, rfl, rfl⟩
      obtain ⟨ra, s₂, rb, ha, hb, rfl⟩ := ih.mp hrest
      refine ⟨_, s₂, rb, ⟨r, s₁, htry, ra, _, ha, rfl, rfl⟩, ?_, rfl⟩
      rwa [List.length_cons, Nat.add_comm a.length, ← Nat.add_assoc]
    · rintro ⟨_, _, rb, ⟨r, s₁, htry, ra, s₂, ha, rfl, rfl⟩, hb, rfl⟩
      refine ⟨r, s₁, htry, ra ++ rb, s', ih.mpr ⟨ra, s₂, rb, ha, ?_, rfl⟩, rfl, rfl⟩
      rwa [List.length_cons, Nat.add_comm a.length, ← Nat.add_assoc] at hb

@[simp] lemma stateAt_zero (s : State H) (q : List (SignedTx H)) : s.stateAt q 0 = some s := rfl

/-- One transaction further: an accepted one moves the state, a refused one keeps what it left. -/
lemma stateAt_succ (htx : q[i]? = some tx) {s₂ : State H}
    (h : s.stateAt q (i + 1) = some s₂) :
    ∃ s₁, s.stateAt q i = some s₁ ∧
      ((∃ evs, applyTx tx s₁ = (.ok evs, s₂)) ∨ ∃ e, applyTx tx s₁ = (.err e, s₂)) := by
  have htake : q.take (i + 1) = q.take i ++ [tx] := by
    rw [List.take_add_one, htx]
    rfl
  unfold stateAt at h
  split at h
  next receipts s' hrun =>
    cases h
    rw [htake] at hrun
    simp only [withVerdicts, List.map_append] at hrun
    obtain ⟨ra, s₁, rb, ha, hb, -⟩ := applyTxs_append.mp hrun
    refine ⟨s₁, ?_, ?_⟩
    · unfold stateAt
      simp only [withVerdicts, ha]
    · simp only [List.map_cons, List.map_nil, applyTxs, Exec.bind_eq_ok, Exec.pure_eq_ok] at hb
      obtain ⟨r, s₂, htry, _, _, ⟨-, rfl⟩, -, rfl⟩ := hb
      rcases Exec.attempt_eq_ok.mp htry with ⟨evs, -, hok⟩ | ⟨e, -, herr⟩
      · exact .inl ⟨evs, hok⟩
      · exact .inr ⟨e, herr⟩
  next => cases h

/-- The state behind a transaction that was accepted or refused. -/
lemma stateAt_succ_of_attempt (htx : q[i]? = some tx) {s₁ s₂ : State H}
    (hs₁ : s.stateAt q i = some s₁) {r : Except StateError (List (Event H))}
    (h : Exec.attempt (ε := StateError) (applyTx tx) s₁ = (.ok r, s₂)) :
    s.stateAt q (i + 1) = some s₂ := by
  have htake : q.take (i + 1) = q.take i ++ [tx] := by
    rw [List.take_add_one, htx]
    rfl
  unfold stateAt at hs₁ ⊢
  split at hs₁
  next receipts s' hrun =>
    cases hs₁
    have hlast : ∀ n, applyTxs n (withVerdicts [tx] none) s₁ =
        (.ok [⟨n, r.mapError StateError.message⟩], s₂) := by
      intro n
      simp only [withVerdicts, List.map_cons, List.map_nil, applyTxs, Exec.bind_eq_ok,
        Exec.pure_eq_ok]
      exact ⟨r, s₂, h, [], s₂, ⟨rfl, rfl⟩, rfl, rfl⟩
    have hall := applyTxs_append.mpr ⟨receipts, s₁, _, hrun, hlast _, rfl⟩
    simp only [withVerdicts, ← List.map_append, ← htake] at hall
    simp only [withVerdicts, hall]
  next => cases hs₁

/-- The state behind a refused transaction. -/
lemma stateAt_succ_of_err (htx : q[i]? = some tx) {s₁ s₂ : State H}
    (hs₁ : s.stateAt q i = some s₁) {e : StateError} (h : applyTx tx s₁ = (.err e, s₂)) :
    s.stateAt q (i + 1) = some s₂ :=
  stateAt_succ_of_attempt htx hs₁ (Exec.attempt_eq_ok.mpr (.inr ⟨e, rfl, h⟩))

/-- The outcome of a transaction, from the state it meets. -/
lemma outcomeAt_eq {o : Outcome StateError (List (Event H))} (h : s.outcomeAt q i = some o) :
    ∃ s₁ tx, s.stateAt q i = some s₁ ∧ q[i]? = some tx ∧ (applyTx tx s₁).1 = o := by
  obtain ⟨s₁, hs₁, hmap⟩ := Option.bind_eq_some_iff.mp h
  obtain ⟨tx, htx, ho⟩ := Option.map_eq_some_iff.mp hmap
  exact ⟨s₁, tx, hs₁, htx, ho⟩

lemma outcomeAt_of_err (htx : q[i]? = some tx) {s₁ s₂ : State H} (hs₁ : s.stateAt q i = some s₁)
    {e : StateError} (h : applyTx tx s₁ = (.err e, s₂)) : s.outcomeAt q i = some (.err e) := by
  simp [outcomeAt, hs₁, htx, h]

/-- A refused transaction leaves the state as it was. -/
lemma refused_keeps (hf : s.Fits) {s₂ : State H} {e : StateError}
    (h : applyTx tx s = (.err e, s₂)) : s₂ = s := by
  have hrestored := applyTxAt_restores hf tx none e
  rw [← applyTx, h] at hrestored
  exact hrestored rfl

lemma Fits.stateAt (hf : s.Fits) : ∀ {i : ℕ} {s₁ : State H}, i ≤ q.length →
    s.stateAt q i = some s₁ → s₁.Fits := by
  intro i
  induction i with
  | zero =>
    intro s₁ _ h
    cases h
    exact hf
  | succ i ih =>
    intro s₂ hi h
    obtain ⟨tx, htx⟩ : ∃ tx, q[i]? = some tx := ⟨q[i], List.getElem?_eq_getElem hi⟩
    obtain ⟨s₁, hs₁, ⟨evs, hok⟩ | ⟨e, herr⟩⟩ := stateAt_succ htx h
    · exact (ih (Nat.le_of_succ_le hi) hs₁).applyTxAt hok
    · have hf₁ := ih (Nat.le_of_succ_le hi) hs₁
      rwa [refused_keeps hf₁ herr]

end State

/-! ## Accounts as the queue would leave them -/

section Ahead

variable {H : Type} [LinearOrder H]

/-- The accounts as a transaction leaves them when it is accepted. -/
def ahead (accounts : H → Option (Account H)) (tx : SignedTx H) : H → Option (Account H) :=
    fun id =>
  if id = tx.sender then (accounts id).map fun acc => ⟨tx.nextAuth, acc.nonce + 1⟩ else accounts id

/-- The accounts as a list of transactions leaves them when all are accepted. -/
def aheadAll (accounts : H → Option (Account H)) (q : List (SignedTx H)) : H → Option (Account H) :=
  q.foldl ahead accounts

lemma aheadAll_append_singleton (accounts : H → Option (Account H)) (q : List (SignedTx H))
    (tx : SignedTx H) : aheadAll accounts (q ++ [tx]) = ahead (aheadAll accounts q) tx := by
  simp [aheadAll]

variable [HashSuite H] [TxCodec H]

/-- The envelope of a transaction is in order for an account. -/
structure Opens (acc : Account H) (tx : SignedTx H) : Prop where
  nonce : tx.nonce = acc.nonce
  auth : Lamport.pkCommit tx.lamportPk = acc.authCommit
  signature : State.verifyEnvelope tx = true

/-- Every transaction of the list is in order for its account as the ones before it leave it. -/
def Foreseen (accounts : H → Option (Account H)) (q : List (SignedTx H)) : Prop :=
  ∀ i tx, q[i]? = some tx → ∃ acc, aheadAll accounts (q.take i) tx.sender = some acc ∧ Opens acc tx

lemma Foreseen.snoc {accounts : H → Option (Account H)} {q : List (SignedTx H)} {tx : SignedTx H}
    {acc : Account H} (h : Foreseen accounts q) (hacc : aheadAll accounts q tx.sender = some acc)
    (hopens : Opens acc tx) : Foreseen accounts (q ++ [tx]) := by
  intro i t ht
  rcases Nat.lt_or_ge i q.length with hi | hi
  · rw [List.getElem?_append_left hi] at ht
    rw [List.take_append_of_le_length hi.le]
    exact h i t ht
  · rw [List.getElem?_append_right hi, List.getElem?_singleton] at ht
    split at ht
    next hzero =>
      cases ht
      obtain rfl : i = q.length := by omega
      rw [List.take_left]
      exact ⟨acc, hacc, hopens⟩
    next => cases ht

end Ahead

/-! ## A pool filled on one chain -/

namespace Mempool

variable {H : Type} [LinearOrder H] [HashSuite H] [NodeCodec H] [TxCodec H]
  {chain : State H} {p p' : Mempool H} {tx : SignedTx H}

/-- The pool after some transactions were brought to the door of one chain. -/
def filled (window : ℕ) (chain : State H) (cap : ℕ) (txs : List (SignedTx H)) : Mempool H :=
  txs.foldl (fun p tx => (tryAdmit window tx chain p).2) (new cap)

/-- What the slots say about an account that the queue leads from `acc` to `next`: the nonces in
between are pending, and the last of them holds the commitment that is next. -/
structure Leads (p : Mempool H) (id : H) (acc next : Account H) : Prop where
  le : acc.nonce ≤ next.nonce
  pending : ∀ n, acc.nonce ≤ n → (toLex (id, n) ∈ p.keys ↔ n < next.nonce)
  still : next.nonce = acc.nonce → next = acc
  auth : acc.nonce < next.nonce → p.keys[toLex (id, next.nonce - 1)]? = some next.authCommit

/-- What holds of a pool that was filled on a chain. -/
structure FilledOn (chain : State H) (p : Mempool H) : Prop where
  indexed : p.Indexed
  account : ∀ tx ∈ p.q, ∃ acc, chain.accounts[tx.sender]? = some acc ∧ acc.nonce ≤ tx.nonce
  foreseen : Foreseen (chain.accounts[·]?) p.q
  leads : ∀ (id : H) (acc : Account H), chain.accounts[id]? = some acc →
    ∃ next, aheadAll (chain.accounts[·]?) p.q id = some next ∧ p.Leads id acc next

lemma filledOn_new (chain : State H) (cap : ℕ) : FilledOn chain (new cap) := by
  refine ⟨indexed_new cap, fun _ h => (by cases h), fun i tx h => (by simp [new] at h), ?_⟩
  intro id acc hacc
  refine ⟨acc, hacc, le_rfl, fun n hn => ?_, fun _ => rfl, fun h => absurd h (lt_irrefl _)⟩
  simp [new, hn]

omit [TxCodec H] in
/-- A key that is let in opens the account as the queue leaves it. -/
lemma Leads.opens {acc next : Account H} (hleads : p.Leads tx.sender acc next)
    {verdict : EnvelopeVerdict H} (ha : Admitted tx chain verdict p p')
    (hacc : chain.accounts[tx.sender]? = some acc) :
    tx.nonce = next.nonce ∧ verdict.pkCommit = some next.authCommit := by
  obtain ⟨acc', hacc', hle, auth, hauth, hpk⟩ := ha.account
  obtain rfl : acc = acc' := Option.some.inj (hacc.symm.trans hacc')
  -- the slot is free, so the nonce is not behind the queue
  have hge : next.nonce ≤ tx.nonce := by
    by_contra hlt
    exact ha.slot ((hleads.pending tx.nonce hle).mpr (not_le.mp hlt))
  unfold expectedAuth at hauth
  split at hauth
  next heq =>
    cases hauth
    have hsame : next.nonce = acc.nonce := le_antisymm (hge.trans_eq heq) hleads.le
    rw [hleads.still hsame]
    exact ⟨heq, hpk⟩
  next hne =>
    split at hauth
    next nextAuth hkey =>
      cases hauth
      have hin : toLex (tx.sender, tx.nonce - 1) ∈ p.keys := by
        rw [Std.ExtTreeMap.mem_iff_isSome_getElem?, hkey]
        rfl
      have hlt : tx.nonce - 1 < next.nonce := (hleads.pending _ (by omega)).mp hin
      have heq : tx.nonce = next.nonce := by omega
      have hlast := hleads.auth (by omega)
      rw [← heq, hkey] at hlast
      exact ⟨heq, hpk.trans hlast⟩
    next => cases hauth

omit [TxCodec H] in
/-- The pending slots after an admission. -/
lemma Leads.admitted {verdict : EnvelopeVerdict H} (ha : Admitted tx chain verdict p p') {id : H}
    {acc next : Account H} (h : p.Leads id acc next)
    (hnonce : id = tx.sender → tx.nonce = next.nonce) :
    p'.Leads id acc (if id = tx.sender then ⟨tx.nextAuth, next.nonce + 1⟩ else next) := by
  have hkeys : p'.keys = p.keys.insert tx.slot tx.nextAuth := by
    rw [ha.result]
    rfl
  split
  next hid =>
    subst hid
    have hn := hnonce rfl
    have hle := h.le
    refine ⟨?_, fun n hlo => ?_, fun hsame => ?_, fun _ => ?_⟩
    · simp only
      omega
    · simp only [hkeys, Std.ExtTreeMap.mem_insert, compare_eq_iff_eq, SignedTx.slot,
        EmbeddingLike.apply_eq_iff_eq, Prod.mk.injEq, true_and, h.pending n hlo]
      omega
    · simp only at hsame
      omega
    · simp only [Nat.add_sub_cancel, hkeys, OrderedMap.get_insert, SignedTx.slot, hn, if_true]
  next hid =>
    have hslot : ∀ n, tx.slot ≠ toLex (id, n) := by
      intro n heq
      have hpair : (tx.sender, tx.nonce) = (id, n) := heq
      exact hid (Prod.mk.inj hpair).1.symm
    refine ⟨h.le, fun n hlo => ?_, h.still, fun hlt => ?_⟩
    · rw [hkeys, Std.ExtTreeMap.mem_insert, compare_eq_iff_eq, h.pending n hlo]
      exact or_iff_right (hslot n)
    · rw [hkeys, OrderedMap.get_insert, if_neg (hslot _)]
      exact h.auth hlt

omit [NodeCodec H] in
/-- The verdict of an admitted envelope: its key is hashed and its signature verifies. -/
lemma of_envelopeVerdict_ok {auth : H} (hpk : (envelopeVerdict tx).pkCommit = some auth)
    (hsig : (envelopeVerdict tx).signature = .ok ()) :
    Lamport.pkCommit tx.lamportPk = auth ∧ State.verifyEnvelope tx = true := by
  unfold envelopeVerdict at hpk hsig
  split at hpk
  · cases hpk
  next hlen =>
    rw [if_neg hlen] at hsig
    split at hpk
    · cases hpk
    next hcap =>
      simp only [hcap] at hsig
      split at hsig
      next hverify => exact ⟨Option.some.inj hpk, hverify⟩
      next =>
        split at hsig
        · cases hsig
        · cases hsig

lemma FilledOn.admitted (h : FilledOn chain p)
    (ha : Admitted tx chain (envelopeVerdict tx) p p') : FilledOn chain p' := by
  obtain ⟨acc, hacc, hle, -⟩ := ha.account
  obtain ⟨next, hnext, hleads⟩ := h.leads tx.sender acc hacc
  obtain ⟨hnonce, hpk⟩ := hleads.opens ha hacc
  obtain ⟨hauth, hsig⟩ := of_envelopeVerdict_ok hpk ha.signature
  have hq : p'.q = p.q ++ [tx] := by
    rw [ha.result]
    rfl
  refine ⟨h.indexed.admitted ha, ?_, ?_, ?_⟩
  · rw [hq]
    intro t ht
    rcases List.mem_append.mp ht with ht | ht
    · exact h.account t ht
    · obtain rfl := List.mem_singleton.mp ht
      exact ⟨acc, hacc, hle⟩
  · rw [hq]
    exact h.foreseen.snoc hnext ⟨hnonce, hauth, hsig⟩
  · intro id a ha'
    obtain ⟨next', hnext', hleads'⟩ := h.leads id a ha'
    refine ⟨_, ?_, hleads'.admitted ha fun hid => ?_⟩
    · rw [hq, aheadAll_append_singleton, ahead, hnext']
      split <;> rfl
    · subst hid
      rw [hnext] at hnext'
      cases hnext'
      exact hnonce

lemma filledOn_filled (window : ℕ) (chain : State H) (cap : ℕ) (txs : List (SignedTx H)) :
    FilledOn chain (filled window chain cap txs) := by
  refine invariant_of_foldl (fun p tx hp => ?_) txs (filledOn_new chain cap)
  rw [tryAdmit_eq]
  rcases tryAdmitVerified_cases window tx chain (envelopeVerdict tx) p with ha | hsame
  · exact hp.admitted ha
  · rwa [hsame]

end Mempool

/-! ## The queue meets the accounts it foresaw -/

namespace State

variable {H : Type} [LinearOrder H] [HashSuite H] [TxCodec H] {s : State H}
  {q : List (SignedTx H)} {i : ℕ}

/-- No transaction of the account among the first `i` was refused. -/
def NoneRefused (s : State H) (q : List (SignedTx H)) (i : ℕ) (id : H) : Prop :=
  ∀ j < i, ∀ tx e, q[j]? = some tx → tx.sender = id → s.outcomeAt q j ≠ some (.err e)

/-- An account none of whose transactions was refused is where the queue leads it, whatever happened
to the transactions of the others. -/
lemma accounts_stateAt (hf : s.Fits) {id : H} {next : Account H} : ∀ {i : ℕ}
    {s₁ : State H}, i ≤ q.length → s.stateAt q i = some s₁ →
    s.NoneRefused q i id → aheadAll (s.accounts[·]?) (q.take i) id = some next →
    s₁.accounts[id]? = some next := by
  intro i
  induction i generalizing next with
  | zero =>
    intro s₁ _ hs₁ _ hnext
    cases hs₁
    exact hnext
  | succ i ih =>
    intro s₂ hi hs₂ hnone hnext
    have hlt : i < q.length := hi
    obtain ⟨tx, htx⟩ : ∃ tx, q[i]? = some tx := ⟨q[i], List.getElem?_eq_getElem hlt⟩
    obtain ⟨s₁, hs₁, hrun⟩ := stateAt_succ htx hs₂
    have hnone' : s.NoneRefused q i id := fun j hj => hnone j (Nat.lt_succ_of_lt hj)
    have htake : q.take (i + 1) = q.take i ++ [tx] := by
      rw [List.take_add_one, htx]
      rfl
    rw [htake, aheadAll_append_singleton, ahead] at hnext
    rcases hrun with ⟨evs, hok⟩ | ⟨e, herr⟩
    · have hr := ratchets_of_applyTxAt hok
      split at hnext
      next hid =>
        -- the account moved as foreseen
        obtain ⟨acc, hacc, rfl⟩ := Option.map_eq_some_iff.mp hnext
        have hacc₁ := ih hlt.le hs₁ hnone' hacc
        obtain ⟨acc', hacc', -, -, hnew⟩ := hr.sender
        subst hid
        obtain rfl : acc = acc' := Option.some.inj (hacc₁.symm.trans hacc')
        exact hnew
      next hid => exact hr.others id next hid (ih hlt.le hs₁ hnone' hnext)
    · split at hnext
      next hid =>
        exact absurd (outcomeAt_of_err htx hs₁ herr)
          (hnone i (Nat.lt_succ_self i) tx e htx hid.symm)
      next hid =>
        rw [refused_keeps (hf.stateAt hlt.le hs₁) herr]
        exact ih hlt.le hs₁ hnone' hnext

/-- A foreseen transaction is refused by its envelope only behind a refused one of the same
sender. -/
lemma exists_refused_of_envelope (hf : s.Fits) (hforeseen : Foreseen (s.accounts[·]?) q)
    {tx : SignedTx H} (htx : q[i]? = some tx) {e : StateError}
    (h : s.outcomeAt q i = some (.err e)) (henv : e.isEnvelope = true) :
    ¬ s.NoneRefused q i tx.sender := by
  intro hnone
  obtain ⟨s₁, tx', hs₁, htx', hout⟩ := outcomeAt_eq h
  obtain rfl : tx = tx' := Option.some.inj (htx.symm.trans htx')
  have hi : i < q.length := (List.getElem?_eq_some_iff.mp htx).1
  obtain ⟨acc, hacc, hopens⟩ := hforeseen i tx htx
  have hget := accounts_stateAt hf hi.le hs₁ hnone hacc
  have hbody := refuses_applyTx hget hopens.nonce hopens.auth hopens.signature e hout
  rw [OfBody, henv] at hbody
  cases hbody

end State

namespace Mempool

variable {H : Type} [LinearOrder H] [HashSuite H] [NodeCodec H] [TxCodec H]

/-- The transactions of a pool that was filled at the door of a chain, applied in the order of the
queue on that chain, at whatever height and time: one that is refused by its envelope stands behind
one of the same sender that passed its envelope and was refused for the fee or by its body. -/
theorem envelope_passes (window cap : ℕ) {chain : State H} (hfits : chain.Fits)
    (txs : List (SignedTx H)) (height time : ℕ) {q : List (SignedTx H)}
    (hq : q = (filled window chain cap txs).q) {i : ℕ} {tx : SignedTx H} {e : StateError}
    (htx : q[i]? = some tx) (h : (chain.openedAt height time).outcomeAt q i = some (.err e))
    (henv : e.isEnvelope = true) :
    ∃ j < i, ∃ tx' e', q[j]? = some tx' ∧ tx'.sender = tx.sender ∧ e'.isEnvelope = false ∧
      (chain.openedAt height time).outcomeAt q j = some (.err e') := by
  subst hq
  have hf : (chain.openedAt height time).Fits := hfits.of_balances _ rfl
  have hforeseen : Foreseen ((chain.openedAt height time).accounts[·]?)
    (filled window chain cap txs).q :=
    (filledOn_filled window chain cap txs).foreseen
  -- the first refused transaction of the sender
  classical
  have hex := State.exists_refused_of_envelope hf hforeseen htx h henv
  simp only [State.NoneRefused, not_forall, not_not] at hex
  obtain ⟨j, hj, tx', e', htx', hsender, hout⟩ := hex
  induction j using Nat.strong_induction_on generalizing tx' e' with
  | _ j ih =>
    by_cases hbody : e'.isEnvelope = false
    · exact ⟨j, hj, tx', e', htx', hsender, hbody, hout⟩
    · have hagain := State.exists_refused_of_envelope hf hforeseen htx' hout (by simpa using hbody)
      simp only [State.NoneRefused, not_forall, not_not] at hagain
      obtain ⟨k, hk, tx'', e'', htx'', hsender', hout'⟩ := hagain
      exact ih k hk (hk.trans hj) tx'' e'' htx'' (hsender'.trans hsender) hout'

end Mempool

/-! ## A fee that is not there -/

namespace Concrete

open State

/-- One account with five coins, none of them of the fee asset, on a chain with a fee. -/
def feelessGenesis : Genesis ℕ := ⟨0, [account 1], [⟨1, 7, 5⟩], some ⟨1, 0, none⟩, []⟩

def feelessChain : State ℕ := start feelessGenesis config

/-- The payment of one coin at a nonce. -/
def coin (nonce : ℕ) : SignedTx ℕ := signed [1] 1 nonce (.transfer 2 7 1)

lemma tryAdmit_coin (nonce : ℕ) (chain : State ℕ) :
    Mempool.tryAdmit 64 (coin nonce) chain =
      Mempool.tryAdmitVerified 64 (coin nonce) chain ⟨some (commitAt [1] nonce), .ok ()⟩ := by
  have hcap : Mempool.channelOpenCap (signed [1] 1 nonce (.transfer 2 7 1)) = .ok () := by
    simp only [Mempool.channelOpenCap, payload_signed]
  rw [Mempool.tryAdmit_eq, coin, envelopeVerdict_signed _ _ _ hcap]

/-- The queue behind an admission. -/
lemma q_tryAdmit_coin {nonce : ℕ} {chain : State ℕ} {p : Mempool ℕ}
    (h : (Mempool.tryAdmitVerified 64 (coin nonce) chain ⟨some (commitAt [1] nonce), .ok ()⟩
      p).1.okAnd (fun _ => true) = true) :
    (Mempool.tryAdmit 64 (coin nonce) chain p).2.q = p.q ++ [coin nonce] := by
  obtain ⟨id, -, hok⟩ := Exec.exists_of_okAnd h
  rw [tryAdmit_coin, (Mempool.admitted_of_tryAdmitVerified hok).result]
  rfl

/-- The pool after the first payment. -/
def oneCoin : Mempool ℕ := (Mempool.tryAdmit 64 (coin 0) feelessChain (.new 8)).2

/-- The door admits both payments; the chain refuses the first for the fee and the second for the
nonce. -/
lemma coin_runs :
    (Mempool.tryAdmitVerified 64 (coin 0) feelessChain
      ⟨some (commitAt [1] 0), .ok ()⟩ (.new 8)).1.okAnd (fun _ => true) = true ∧
    (Mempool.tryAdmitVerified 64 (coin 1) feelessChain
      ⟨some (commitAt [1] 1), .ok ()⟩ (Mempool.tryAdmitVerified 64 (coin 0) feelessChain
        ⟨some (commitAt [1] 0), .ok ()⟩ (.new 8)).2).1.okAnd (fun _ => true) = true ∧
    (applyTxAt (coin 0) (some true) (feelessChain.openedAt 1 0)).1 = .err (.insufficientFee 0 1) ∧
    (applyTxAt (coin 1) (some true) (feelessChain.openedAt 1 0)).1 = .err (.badNonce 0 1) := by
  decide +kernel

lemma admitted_coin_one : (Mempool.tryAdmitVerified 64 (coin 1) feelessChain
    ⟨some (commitAt [1] 1), .ok ()⟩ oneCoin).1.okAnd (fun _ => true) = true := by
  rw [oneCoin, tryAdmit_coin]
  exact coin_runs.2.1

lemma filled_pair (chain : State ℕ) (a b : SignedTx ℕ) :
    Mempool.filled 64 chain 8 [a, b] =
      (Mempool.tryAdmit 64 b chain (Mempool.tryAdmit 64 a chain (.new 8)).2).2 := rfl

lemma feeless_queue : (Mempool.filled 64 feelessChain 8 [coin 0, coin 1]).q = [coin 0, coin 1] := by
  have hfirst := q_tryAdmit_coin coin_runs.1
  have hsecond := q_tryAdmit_coin admitted_coin_one
  rw [oneCoin] at hsecond
  rw [filled_pair, hsecond, hfirst]
  simp only [Mempool.new, List.nil_append, List.cons_append]

lemma applyTx_coin (nonce : ℕ) : applyTx (coin nonce) = applyTxAt (coin nonce) (some true) := by
  rw [← verifyEnvelope_signed [1] 1 nonce (.transfer 2 7 1)]
  exact (applyTxAt_verdict (coin nonce)).symm

lemma feeless_fits : feelessChain.Fits := by
  have hinit : Initial feelessGenesis feelessChain := initial_start config (by decide +kernel)
  exact hinit.fresh.fits

lemma feeless_outcomes :
    (feelessChain.openedAt 1 0).outcomeAt [coin 0, coin 1] 0 = some (.err (.insufficientFee 0 1)) ∧
      (feelessChain.openedAt 1 0).outcomeAt [coin 0, coin 1] 1 = some (.err (.badNonce 0 1)) := by
  have hfits : (feelessChain.openedAt 1 0).Fits := feeless_fits.of_balances _ rfl
  have hfirst : (applyTx (coin 0) (feelessChain.openedAt 1 0)).1 = .err (.insufficientFee 0 1) := by
    rw [applyTx_coin]
    exact coin_runs.2.2.1
  have hsecond : (applyTx (coin 1) (feelessChain.openedAt 1 0)).1 = .err (.badNonce 0 1) := by
    rw [applyTx_coin]
    exact coin_runs.2.2.2
  have hrun := Exec.eq_of_outcome hfirst
  rw [refused_keeps hfits hrun] at hrun
  have hstate : (feelessChain.openedAt 1 0).stateAt [coin 0, coin 1] 1 =
      some (feelessChain.openedAt 1 0) := stateAt_succ_of_err (by simp) (stateAt_zero _ _) hrun
  refine ⟨outcomeAt_of_err (by simp) (stateAt_zero _ _) hrun, ?_⟩
  exact outcomeAt_of_err (by simp) hstate (Exec.eq_of_outcome hsecond)

/-- Both payments pass the door; the first is refused for the fee before its body runs, and the
second fails its envelope on the nonce. -/
theorem second_coin_badNonce :
    (Mempool.filled 64 feelessChain 8 [coin 0, coin 1]).q = [coin 0, coin 1] ∧
      (coin 0).sender = 1 ∧ (coin 1).sender = 1 ∧
      (feelessChain.openedAt 1 0).outcomeAt [coin 0, coin 1] 0 =
        some (.err (.insufficientFee 0 1)) ∧
      (feelessChain.openedAt 1 0).outcomeAt [coin 0, coin 1] 1 = some (.err (.badNonce 0 1)) :=
  ⟨feeless_queue, rfl, rfl, feeless_outcomes.1, feeless_outcomes.2⟩

/-- The transaction that the second payment stands behind. -/
theorem second_coin_behind : ∃ j < 1, ∃ tx' e', ([coin 0, coin 1] : List (SignedTx ℕ))[j]? =
    some tx' ∧
    tx'.sender = (coin 1).sender ∧ e'.isEnvelope = false ∧
      (feelessChain.openedAt 1 0).outcomeAt [coin 0, coin 1] j = some (.err e') :=
  Mempool.envelope_passes 64 8 feeless_fits [coin 0, coin 1] 1 0 feeless_queue.symm (by simp)
    feeless_outcomes.2 rfl

end Concrete

end HashKinetics
