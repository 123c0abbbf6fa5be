import HashKinetics.Node.Feeds
import HashKinetics.Node.Receipts

/-!
# What the receipts say

The log has one line per transaction id, and every inclusion of a transaction writes it.  A
transaction that succeeded and stands in a block once more is refused there, and the line that said
so is gone.  The lines are true as long as no transaction is included after it succeeded.
-/

namespace HashKinetics

open Foundations

/-! ## Lines -/

/-- A line of the log that starts with `ok`, as the clients ask. -/
def SaysOk (detail : String) : Prop := "ok".toList <+: detail.toList

/-- The line of a receipt says whether the transaction was accepted. -/
lemma saysOk_detail {H : Type} (r : Receipt H) : SaysOk r.detail ↔ r.accepted = true := by
  unfold SaysOk Receipt.detail Receipt.accepted
  cases r.result with
  | ok events =>
    simp only [Except.isOk, Except.toBool, iff_true]
    rw [show ("ok: " : String) = "ok" ++ ": " from rfl]
    simp only [String.append_assoc, String.toList_append]
    exact List.prefix_append _ _
  | error e =>
    simp only [Except.isOk, Except.toBool, Bool.false_eq_true, iff_false, String.toList_append]
    intro hstart
    have hhead := (List.cons_prefix_cons.mp (show 'o' :: ['k'] <+: 'r' :: _ from hstart)).1
    exact absurd hhead (by decide)

namespace ReceiptLog

variable {H : Type} [LinearOrder H] {log : ReceiptLog H} {history : List (H × Receipt H)}

/-- What the log says about a transaction. -/
def get (log : ReceiptLog H) (id : H) : Option String := log.map[id]?

/-- After an insertion the log has the new line and some of the others. -/
lemma get_insert_eq_some {id k : H} {detail line : String}
    (h : (log.insert id detail).get k = some line) :
    k = id ∧ line = detail ∨ k ≠ id ∧ log.get k = some line := by
  have hmap : (log.map.insert id detail)[k]? = some line := by
    unfold get insert at h
    dsimp only at h
    split at h
    · exact h
    · split at h
      · split at h
        · rw [Std.ExtTreeMap.getElem?_erase] at h
          split at h
          · cases h
          · exact h
        · exact h
      · exact h
  rw [OrderedMap.get_insert] at hmap
  split at hmap
  next hid =>
    cases hmap
    exact .inl ⟨hid.symm, rfl⟩
  next hid => exact .inr ⟨Ne.symm hid, hmap⟩

/-- A transaction with the id succeeded. -/
def Succeeded (history : List (H × Receipt H)) (id : H) : Prop :=
  ∃ r, (id, r) ∈ history ∧ r.accepted = true

/-- Every line says whether a transaction of its id succeeded. -/
def Truthful (history : List (H × Receipt H)) (log : ReceiptLog H) : Prop :=
  ∀ id line, log.get id = some line → (SaysOk line ↔ Succeeded history id)

omit [LinearOrder H] in
lemma succeeded_append_singleton (id k : H) (r : Receipt H) :
    Succeeded (history ++ [(id, r)]) k ↔ Succeeded history k ∨ k = id ∧ r.accepted = true := by
  simp only [Succeeded, List.mem_append, List.mem_singleton, Prod.mk.injEq]
  constructor
  · rintro ⟨r', hmem | ⟨rfl, rfl⟩, hr⟩
    · exact .inl ⟨r', hmem, hr⟩
    · exact .inr ⟨rfl, hr⟩
  · rintro (⟨r', hmem, hr⟩ | ⟨rfl, hr⟩)
    · exact ⟨r', .inl hmem, hr⟩
    · exact ⟨r, .inr ⟨rfl, rfl⟩, hr⟩

/-- One more line, for a transaction that has not succeeded yet. -/
lemma Truthful.insert (h : Truthful history log) {id : H} (hnew : ¬ Succeeded history id)
    (r : Receipt H) : Truthful (history ++ [(id, r)]) (log.insert id r.detail) := by
  intro k line hk
  rw [succeeded_append_singleton]
  rcases get_insert_eq_some hk with ⟨rfl, rfl⟩ | ⟨hne, hk⟩
  · rw [saysOk_detail]
    simp [hnew]
  · rw [h k line hk]
    simp [hne]

/-- No transaction of the list comes after it succeeded, in the history or earlier in the list. -/
def NoneAgain (history : List (H × Receipt H)) : List (H × Receipt H) → Prop
  | [] => True
  | e :: es => ¬ Succeeded history e.1 ∧ NoneAgain (history ++ [e]) es

/-- The lines of one block. -/
lemma Truthful.foldl_insert {es : List (H × Receipt H)} (h : Truthful history log)
    (hnone : NoneAgain history es) :
    Truthful (history ++ es) (es.foldl (fun log e => log.insert e.1 e.2.detail) log) := by
  induction es generalizing history log with
  | nil => rwa [List.append_nil]
  | cons e es ih =>
    rw [List.foldl_cons, List.append_cons]
    exact ih (h.insert hnone.1 e.2) hnone.2

end ReceiptLog

/-! ## Runs -/

namespace HkApp

variable {H : Type} [LinearOrder H] [HashSuite H] [NodeCodec H] [TxCodec H] [StateCodec H]
  {P : NodeParams H} {a a' : HkApp H} {c : BatchCall H}

/-- The transactions of a block that is committed, with their receipts; a block that is not
committed has none. -/
def included (P : NodeParams H) (a : HkApp H) (c : BatchCall H) : List (H × Receipt H) :=
  if a.Diverges c.batch then []
  else
    match blockOf P c.height c.batch
        (a.chain.coveredBy (coverageOf P c.liveAgg c.recordedAggValid c.batch)) with
    | (.ok receipts, _) => ((txsOf c.batch).zip receipts).map fun e => (txid e.1, e.2)
    | _ => []

omit [TxCodec H] in
lemma finished_receipts (a : HkApp H) (s : State H) (txs : List (SignedTx H))
    (receipts : List (Receipt H)) : (a.finished s txs receipts).receipts =
      ((txs.zip receipts).map fun e => (txid e.1, e.2)).foldl
        (fun log e => log.insert e.1 e.2.detail) a.receipts := by
  rw [finished, recorded, foldl_routeNotes_eq, List.foldl_map]
  rfl

/-- A call writes the lines of the transactions it commits. -/
lemma receipts_call (h : a.call P c = some a') :
    a'.receipts = (a.included P c).foldl (fun log e => log.insert e.1 e.2.detail) a.receipts := by
  unfold call at h
  rw [applyBatchToChain_eq] at h
  unfold included
  split_ifs at h ⊢ with hdiv
  · cases h
    rfl
  · rcases hblock : blockOf P c.height c.batch
        (a.chain.coveredBy (coverageOf P c.liveAgg c.recordedAggValid c.batch)) with ⟨_ | _ | _, s⟩
    · rw [hblock] at h
      cases h
      exact finished_receipts a s _ _
    · rw [hblock] at h
      cases h
      rfl
    · rw [hblock] at h
      cases h

/-- An application with everything that its blocks included so far. -/
structure Witnessed (H : Type) [LinearOrder H] where
  app : HkApp H
  history : List (H × Receipt H)

/-- Apply a batch and keep what it included. -/
def Witnessed.call (P : NodeParams H) (w : Witnessed H) (c : BatchCall H) : Option (Witnessed H) :=
  (w.app.call P c).map fun a => ⟨a, w.history ++ w.app.included P c⟩

/-- The block brings no transaction that succeeded before, in an earlier block or earlier in
itself. -/
def Witnessed.BringsNew (P : NodeParams H) (w : Witnessed H) (c : BatchCall H) : Prop :=
  ReceiptLog.NoneAgain w.history (w.app.included P c)

/-- In every run of blocks of which none includes a transaction again after it succeeded, a line
that is in the log starts with `ok` exactly when a transaction of its id succeeded in one of the
blocks. -/
theorem receipts_truthful (P : NodeParams H) (chain : State H) (validators : HkValidatorSet H)
    {calls : List (BatchCall H)} {w : Witnessed H}
    (hrun : Path (StepOf (Witnessed.call P)) ⟨.fresh chain validators, []⟩ calls w)
    (hnew : Path.Along (StepOf (Witnessed.call P)) ⟨.fresh chain validators, []⟩ calls
      (Witnessed.BringsNew P)) (id : H) (line : String) (hline :
        w.app.receipts.get id = some line) :
    SaysOk line ↔ ∃ r, (id, r) ∈ w.history ∧ r.accepted = true := by
  have htruth : w.app.receipts.Truthful w.history := by
    refine hrun.invariant_along (I := fun _ w => w.app.receipts.Truthful w.history) hnew ?_ ?_
    · intro id line hline
      simp [ReceiptLog.get, fresh, ReceiptLog.new] at hline
    · intro _ c w w' hw hbrings hcall
      obtain ⟨a', ha', rfl⟩ := Option.map_eq_some_iff.mp hcall
      rw [receipts_call ha']
      exact hw.foldl_insert hbrings
  exact htruth id line hline

end HkApp

/-! ## A payment that is included again -/

namespace Concrete

open State

/-- A block with one payment of one coin at a nonce. -/
def payment (nonce : ℕ) : List (SignedTx Digest) := feedTxs nonce [.transfer 2 7 1]

/-- The id of the payment. -/
def paymentId (nonce : ℕ) : Digest := txid (signedDigest [1] 1 nonce (.transfer 2 7 1))

/-- What a block of a payment includes. -/
lemma included_payment {height nonce : ℕ} {a : HkApp Digest} {accepted : Bool}
    (hok : (feedBlock height (payment nonce) a).1.okAnd
      (fun rs => rs.map Receipt.accepted = [accepted]) = true) :
    ∃ r, a.included nodeParams (feedCall height (payment nonce) a) = [(paymentId nonce, r)] ∧
      r.accepted = accepted := by
  obtain ⟨receipts, hreceipts, hblock⟩ := Exec.exists_of_okAnd hok
  obtain ⟨r, rfl, hr⟩ := List.map_eq_singleton_iff.mp (of_decide_eq_true hreceipts)
  refine ⟨r, ?_, hr⟩
  have hsame : ¬ a.Diverges (some ⟨⟨[], []⟩, a.ourHash, payment nonce, []⟩) := by
    rintro ⟨b, hb, hne⟩
    cases hb
    exact hne rfl
  have hrun : HkApp.blockOf nodeParams height (some ⟨⟨[], []⟩, a.ourHash, payment nonce,
    []⟩) a.chain =
      (.ok [r], (feedBlock height (payment nonce) a).2) := by
    rw [HkApp.blockOf_of_verified (verified_feedTxs nonce _)]
    exact hblock
  have hcover : a.chain.coveredBy (HkApp.coverageOf nodeParams true false
      (some ⟨⟨[], []⟩, a.ourHash, payment nonce, []⟩)) = a.chain := rfl
  simp only [HkApp.included, feedCall, if_neg hsame, hcover, hrun]
  rfl

/-- The step of a block of a payment. -/
lemma call_payment {height nonce : ℕ} {a : HkApp Digest} {accepted : Bool}
    (hok : (feedBlock height (payment nonce) a).1.okAnd
      (fun rs => rs.map Receipt.accepted = [accepted]) = true) (history :
        List (Digest × Receipt Digest)) :
    ∃ r, r.accepted = accepted ∧
      a.included nodeParams (feedCall height (payment nonce) a) = [(paymentId nonce, r)] ∧
      HkApp.Witnessed.call nodeParams ⟨a, history⟩ (feedCall height (payment nonce) a) =
        some ⟨feedAfter height (payment nonce) a, history ++ [(paymentId nonce, r)]⟩ := by
  obtain ⟨r, hincluded, hr⟩ := included_payment hok
  refine ⟨r, hr, hincluded, ?_⟩
  obtain ⟨receipts, -, hblock⟩ := Exec.exists_of_okAnd hok
  have hcall := call_feedCall height nonce [.transfer 2 7 1] a
    (show (feedBlock height (payment nonce) a).1.okAnd _ = true by rw [hblock]; rfl)
  have hcall' : a.call nodeParams (feedCall height (payment nonce) a) =
      some (feedAfter height (payment nonce) a) := hcall
  simp only [HkApp.Witnessed.call, hcall', hincluded, Option.map_some]

/-- The application after the payment. -/
def paidNode : HkApp Digest := feedAfter 1 (payment 0) feedBoot

/-- The payment is accepted and logged; a second time it is refused, and the log keeps a line of
it. -/
lemma payment_runs :
    (feedBlock 1 (payment 0) feedBoot).1.okAnd (fun rs => rs.map Receipt.accepted = [true]) = true ∧
    (paidNode.receipts.get (paymentId 0)).isSome = true ∧
    (feedBlock 2 (payment 0) paidNode).1.okAnd (fun rs => rs.map Receipt.accepted = [false]) =
      true ∧
    ((feedAfter 2 (payment 0) paidNode).receipts.get (paymentId 0)).isSome = true := by
  decide +kernel

/-- The payment succeeds in the first block and is refused in the second, and the log, which still
has its line, calls it refused. -/
theorem paidAgain_says_rejected : ∃ w line,
    Path (StepOf (HkApp.Witnessed.call nodeParams)) ⟨feedBoot, []⟩
      [feedCall 1 (payment 0) feedBoot, feedCall 2 (payment 0) paidNode] w ∧
    w.app.receipts.get (paymentId 0) = some line ∧ ¬ SaysOk line ∧
    ∃ r, (paymentId 0, r) ∈ w.history ∧ r.accepted = true := by
  obtain ⟨haccepted, -, hrefused, hlogged⟩ := payment_runs
  obtain ⟨r, hr, -, hfirst⟩ := call_payment haccepted []
  obtain ⟨r', hr', hincluded, hsecond⟩ := call_payment hrefused ([] ++ [(paymentId 0, r)])
  obtain ⟨line, hline⟩ := Option.isSome_iff_exists.mp hlogged
  refine ⟨_, line, .cons hfirst (.single hsecond), hline, ?_, r, by simp, hr⟩
  obtain ⟨a', ha', happ⟩ := Option.map_eq_some_iff.mp hsecond
  have hlog := HkApp.receipts_call ha'
  obtain rfl : a' = feedAfter 2 (payment 0) paidNode := congrArg HkApp.Witnessed.app happ
  simp only [hincluded, List.foldl_cons, List.foldl_nil] at hlog
  rw [hlog] at hline
  rcases ReceiptLog.get_insert_eq_some hline with ⟨-, rfl⟩ | ⟨hne, -⟩
  · rw [saysOk_detail, hr']
    simp
  · exact absurd rfl hne

/-- One payment in one block: its line says that it succeeded. -/
theorem paid_says_ok : ∃ line, paidNode.receipts.get (paymentId 0) = some line ∧ SaysOk line := by
  obtain ⟨haccepted, hlogged, -, -⟩ := payment_runs
  obtain ⟨r, hr, hincluded, hfirst⟩ := call_payment haccepted []
  obtain ⟨line, hline⟩ := Option.isSome_iff_exists.mp hlogged
  have hrun : Path (StepOf (HkApp.Witnessed.call nodeParams)) ⟨feedBoot, []⟩
      [feedCall 1 (payment 0) feedBoot] ⟨paidNode, [] ++ [(paymentId 0, r)]⟩ := .single hfirst
  have hnew : Path.Along (StepOf (HkApp.Witnessed.call nodeParams)) ⟨feedBoot, []⟩
      [feedCall 1 (payment 0) feedBoot] (HkApp.Witnessed.BringsNew nodeParams) := by
    refine Path.Along.cons (stepOf_deterministic _) hfirst ?_ fun pre l s hpre => ?_
    · rw [HkApp.Witnessed.BringsNew, hincluded]
      exact ⟨by simp [ReceiptLog.Succeeded], trivial⟩
    · simp at hpre
  exact ⟨line, hline, (HkApp.receipts_truthful nodeParams _ nodeSet hrun hnew _ line hline).mpr
    ⟨r, by simp, hr⟩⟩

end Concrete

end HashKinetics
