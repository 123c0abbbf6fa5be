import HashKinetics.Foundations.Framing
import HashKinetics.Foundations.Transition
import HashKinetics.Concrete

/-!
# The write-ahead log of the mempool

An admitted transaction is appended to a file, as a length and a frame, before its sender is told
that it was accepted.  A crash may cut the record that is being appended; the loader stops there,
but the file is not shortened, so the records that a restarted node appends end up behind the cut
one.
-/

namespace HashKinetics

open Foundations

/-- The serialisation of a transaction in the log. -/
class WalCodec (H : Type) where
  encodeTx : SignedTx H → List UInt8
  decodeTx : List UInt8 → Option (SignedTx H)

/-- Serialisation of the transaction is lossless, and its frame fits a 32-bit length. -/
def WalCodec.Lossless {H : Type} [WalCodec H] (tx : SignedTx H) : Prop :=
  WalCodec.decodeTx (WalCodec.encodeTx tx) = some tx ∧
    (WalCodec.encodeTx tx : List UInt8).length < 2 ^ 32

/-- The log file, with the transactions that were acknowledged since it was last rewritten. -/
structure Wal (H : Type) where
  file : List UInt8
  acked : List (SignedTx H)

/-- What can happen to the log. -/
inductive WalOp (H : Type) where
  /-- An append that returns. -/
  | append (tx : SignedTx H)
  /-- An append that is cut after so many bytes of its record; the process ends. -/
  | crash (tx : SignedTx H) (written : ℕ)
  /-- The file is replaced in one step. -/
  | reset (txs : List (SignedTx H))
  /-- The log is read at a start. -/
  | load

/-- The transactions an operation writes. -/
def WalOp.txs {H : Type} : WalOp H → List (SignedTx H)
  | append tx => [tx]
  | crash tx _ => [tx]
  | reset txs => txs
  | load => []

namespace Wal

variable {H : Type} [WalCodec H]

/-- One record of the log. -/
def record (tx : SignedTx H) : List UInt8 := frame (WalCodec.encodeTx tx)

/-- The log of exactly the given transactions. -/
def recordsOf (txs : List (SignedTx H)) : List UInt8 := txs.flatMap record

def new : Wal H := ⟨[], []⟩

def walAppend (w : Wal H) (tx : SignedTx H) : Wal H := ⟨w.file ++ record tx, w.acked ++ [tx]⟩

/-- Every intact record; a cut one ends the list. -/
def walLoad (w : Wal H) : List (SignedTx H) := loadFrames WalCodec.decodeTx w.file

def walReset (txs : List (SignedTx H)) : Wal H := ⟨recordsOf txs, []⟩

def step (w : Wal H) : WalOp H → Wal H
  | .append tx => w.walAppend tx
  | .crash tx written => ⟨w.file ++ (record tx).take written, w.acked⟩
  | .reset txs => walReset txs
  | .load => w

/-- Whether a record was cut since the file was last rewritten. -/
def cutAfter (cut : Bool) : WalOp H → Bool
  | .crash tx written => cut || (0 < written && written < (record tx).length)
  | .reset _ => false
  | _ => cut

/-- Nothing is appended behind a record that was cut since the file was last rewritten. -/
def Uncut : Bool → List (WalOp H) → Prop
  | _, [] => True
  | cut, op :: ops => (∀ tx, op = .append tx → cut = false) ∧ Uncut (cutAfter cut op) ops

/-- The log after a sequence of operations. -/
def run (w : Wal H) (ops : List (WalOp H)) : Wal H := ops.foldl step w

/-- Whole records at the front of the file are all returned, in order. -/
lemma loadFrames_recordsOf {txs : List (SignedTx H)} (h : ∀ tx ∈ txs, WalCodec.Lossless tx)
    (tail : List UInt8) :
    loadFrames WalCodec.decodeTx (recordsOf txs ++ tail) =
      txs ++ (loadFrames WalCodec.decodeTx tail : List (SignedTx H)) := by
  induction txs with
  | nil => rfl
  | cons tx txs ih =>
    obtain ⟨⟨hdecode, hlen⟩, hrest⟩ := List.forall_mem_cons.mp h
    rw [recordsOf, List.flatMap_cons, List.append_assoc, record,
      loadFrames_frame_append _ hlen hdecode]
    exact congrArg (tx :: ·) (ih hrest)

/-- The acknowledged transactions are among whole records at the front of the file, and these are
the whole file as long as no record was cut. -/
def Kept (w : Wal H) (cut : Bool) : Prop :=
  ∃ txs tail, (∀ tx ∈ txs, WalCodec.Lossless tx) ∧ w.file = recordsOf txs ++ tail ∧
    w.acked.Sublist txs ∧ (cut = false → tail = [])

lemma Kept.sublist_walLoad {w : Wal H} {cut : Bool} (h : w.Kept cut) :
    w.acked.Sublist w.walLoad := by
  obtain ⟨txs, tail, hcodec, hfile, hsub, -⟩ := h
  rw [walLoad, hfile, loadFrames_recordsOf hcodec]
  exact hsub.trans (List.sublist_append_left _ _)

/-- A record written in full joins the whole records. -/
lemma forall_lossless_snoc {txs : List (SignedTx H)} {tx : SignedTx H}
    (htxs : ∀ t ∈ txs, WalCodec.Lossless t) (htx : WalCodec.Lossless tx) :
    ∀ t ∈ txs ++ [tx], WalCodec.Lossless t := by
  intro t ht
  rcases List.mem_append.mp ht with ht | ht
  · exact htxs t ht
  · rw [List.mem_singleton.mp ht]
    exact htx

/-- An append behind whole records keeps what was acknowledged and adds to it. -/
lemma Kept.append {w : Wal H} (h : w.Kept false) {tx : SignedTx H} (htx : WalCodec.Lossless tx) :
    (w.walAppend tx).Kept false := by
  obtain ⟨txs, tail, htxs, hfile, hsub, htail⟩ := h
  rw [htail rfl, List.append_nil] at hfile
  refine ⟨txs ++ [tx], [], forall_lossless_snoc htxs htx, ?_, hsub.append_right [tx], fun _ => rfl⟩
  simp [walAppend, hfile, recordsOf]

/-- A crash leaves nothing, the whole record, or a cut one behind. -/
lemma Kept.crash {w : Wal H} {cut : Bool} (h : w.Kept cut) {tx : SignedTx H}
    (htx : WalCodec.Lossless tx) (written : ℕ) :
    (w.step (.crash tx written)).Kept (cutAfter cut (.crash tx written)) := by
  obtain ⟨txs, tail, htxs, hfile, hsub, htail⟩ := h
  by_cases hwhole : cut = false ∧ (record tx).length ≤ written
  · -- the record is complete although nobody was told
    obtain ⟨rfl, hlen⟩ := hwhole
    rw [htail rfl, List.append_nil] at hfile
    refine ⟨txs ++ [tx], [], forall_lossless_snoc htxs htx, ?_,
      hsub.trans (List.sublist_append_left _ _), fun _ => rfl⟩
    simp [step, hfile, recordsOf, List.take_of_length_le hlen]
  · refine ⟨txs, tail ++ (record tx).take written, htxs, by simp [step, hfile], hsub, ?_⟩
    intro hcut
    simp only [cutAfter, Bool.or_eq_false_iff, Bool.and_eq_false_iff, decide_eq_false_iff_not,
      not_lt] at hcut
    obtain ⟨rfl, hzero | hlen⟩ := hcut
    · simp [htail rfl, Nat.le_zero.mp hzero]
    · exact absurd ⟨rfl, hlen⟩ hwhole

lemma Kept.step {w : Wal H} {cut : Bool} (h : w.Kept cut) {op : WalOp H}
    (hop : ∀ tx, op = .append tx → cut = false)
    (hcodec : ∀ tx ∈ op.txs, WalCodec.Lossless tx) : (w.step op).Kept (cutAfter cut op) := by
  cases op with
  | append tx =>
    obtain rfl := hop tx rfl
    exact h.append (hcodec tx (by simp [WalOp.txs]))
  | crash tx written => exact h.crash (hcodec tx (by simp [WalOp.txs])) written
  | reset txs =>
    exact ⟨txs, [], hcodec, by simp [Wal.step, walReset], List.nil_sublist _, fun _ => rfl⟩
  | load => exact h

lemma Kept.run {w : Wal H} {cut : Bool} (h : w.Kept cut) {ops : List (WalOp H)}
    (huncut : Uncut cut ops) (hcodec : ∀ op ∈ ops, ∀ tx ∈ op.txs, WalCodec.Lossless tx) :
    ∃ cut', (w.run ops).Kept cut' := by
  induction ops generalizing w cut with
  | nil => exact ⟨cut, h⟩
  | cons op ops ih =>
    obtain ⟨hop, hrest⟩ := huncut
    obtain ⟨hcodecOp, hcodecs⟩ := List.forall_mem_cons.mp hcodec
    exact ih (h.step hop hcodecOp) hrest hcodecs

/-- **Durability of the log.**  Over every sequence of appends, crashes, rewrites and loads in which
nothing is appended behind a record that a crash has cut since the last rewrite, the next load
returns every transaction whose append returned since then, in append order. -/
theorem acked_sublist_walLoad (ops : List (WalOp H)) (huncut : Uncut false ops)
    (hcodec : ∀ op ∈ ops, ∀ tx ∈ op.txs, WalCodec.Lossless tx) :
    (new.run ops).acked.Sublist (new.run ops).walLoad := by
  have hnew : (new : Wal H).Kept false :=
    ⟨[], [], by simp, rfl, List.nil_sublist _, fun _ => rfl⟩
  obtain ⟨cut, hkept⟩ := hnew.run huncut hcodec
  exact hkept.sublist_walLoad

end Wal

namespace Concrete

/-- The log's form of a payment: its sender and its nonce. -/
instance : WalCodec ℕ where
  encodeTx tx := [UInt8.ofNat tx.sender, UInt8.ofNat tx.nonce]
  decodeTx bytes :=
    match bytes with
    | [sender, nonce] => some (signed [sender] sender.toNat nonce.toNat (.transfer 2 9 10))
    | _ => none

/-- The payment of an account. -/
def loggedPayment (sender nonce : UInt8) : SignedTx ℕ :=
  signed [sender] sender.toNat nonce.toNat (.transfer 2 9 10)

lemma lossless_loggedPayment (sender nonce : UInt8) :
    WalCodec.Lossless (loggedPayment sender nonce) := by
  have hencode : WalCodec.encodeTx (loggedPayment sender nonce) = [sender, nonce] := by
    change [UInt8.ofNat sender.toNat, UInt8.ofNat nonce.toNat] = [sender, nonce]
    rw [UInt8.ofNat_toNat, UInt8.ofNat_toNat]
  rw [WalCodec.Lossless, hencode]
  exact ⟨rfl, by simp⟩

/-- Two payments are admitted, and a crash cuts a third one. -/
def oneCrash : List (WalOp ℕ) :=
  [.append (loggedPayment 1 0), .append (loggedPayment 1 1), .crash (loggedPayment 1 2) 3]

theorem oneCrash_loads_both :
    (Wal.new.run oneCrash).acked = [loggedPayment 1 0, loggedPayment 1 1] ∧
      (Wal.new.run oneCrash).acked.Sublist (Wal.new.run oneCrash).walLoad := by
  refine ⟨rfl, Wal.acked_sublist_walLoad oneCrash ?_ ?_⟩
  · simp [oneCrash, Wal.Uncut, Wal.cutAfter]
  · simp [oneCrash, WalOp.txs, lossless_loggedPayment]

/-- After a crash that cut a record the node restarts and admits another payment. -/
def appendAfterCrash : List (WalOp ℕ) :=
  [.append (loggedPayment 1 0), .crash (loggedPayment 1 1) 3, .load, .append (loggedPayment 1 2)]

/-- The payment admitted after the restart is acknowledged and lost. -/
theorem appendAfterCrash_loses :
    (Wal.new.run appendAfterCrash).acked = [loggedPayment 1 0, loggedPayment 1 2] ∧
      ¬ (Wal.new.run appendAfterCrash).acked.Sublist (Wal.new.run appendAfterCrash).walLoad := by
  have hload : (Wal.new.run appendAfterCrash).walLoad = [loggedPayment 1 0] := by rfl
  have hacked : (Wal.new.run appendAfterCrash).acked = [loggedPayment 1 0,
    loggedPayment 1 2] := by rfl
  refine ⟨hacked, fun hsub => ?_⟩
  rw [hload, hacked] at hsub
  simpa using hsub.length_le

end Concrete

end HashKinetics
