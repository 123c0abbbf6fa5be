import HashKinetics.Circuit.SpendTree
import HashKinetics.State.TreePath

/-!
# The shielded wallet

The client side of a shielded note: the keys of a wallet, the scanner that finds the notes addressed
to it among the commitments of a pool, and the plan of a spend.  A plan carries the witness and the
public values that the circuit gives for it, so a plan exists only for a witness the circuit
accepts.
-/

namespace HashKinetics

open Foundations Circuit

/-- The length of a key encapsulation. -/
def CT_LEN : ℕ := 1088

/-- The length of the tag of a sealed note. -/
def TAG_LEN : ℕ := 32

/-- The encryption of notes: the encapsulation of a shared secret and the sealing under it. -/
class NoteCrypto (H : Type) where
  Shared : Type
  /-- Decapsulate with the receiving key of a master seed at an epoch. -/
  decapsulate : List UInt8 → ℕ → List UInt8 → Option Shared
  /-- The key of one note, from the shared secret and its commitment. -/
  noteKey : Shared → H → H
  /-- Open a sealed note under its key, with its commitment as nonce. -/
  openSealed : H → H → List UInt8 → Option (List UInt8)
  /-- The digest with the given 32 bytes. -/
  ofBytes : List UInt8 → H

/-- The keys of a wallet: one master seed, and an address with `2 ^ h` one-time spends. -/
structure WalletKeys where
  master : List UInt8
  h : ℕ
  cap : h ≤ SPEND_TREE_DEPTH

namespace WalletKeys

variable {H : Type} [HashSuite H]

/-- The secret nullifier key. -/
def nk (keys : WalletKeys) : H := deriveNk keys.master

/-- The owner tag that senders put into notes for the wallet. -/
def ownerTag (keys : WalletKeys) : H := addressTag (spendRoot keys.master keys.h) keys.nk

/-- Authorize a message with a key of the spend tree. -/
def authorize (keys : WalletKeys) (otsIndex : ℕ) (msg : H) : Option (List H × MerklePath H) :=
  spendAuth keys.master keys.h otsIndex msg

end WalletKeys

/-! ## Scanning -/

section Scan

variable {H : Type} [DecidableEq H] [HashSuite H] [NoteCrypto H]

/-- The plaintext of a note: value, seed, randomness and memo. -/
def decodeNotePt (pt : List UInt8) : Option (ℕ × H × H × List UInt8) :=
  if pt.length < 72 then none
  else some (ofLeBytes (pt.take 8), NoteCrypto.ofBytes ((pt.drop 8).take 32),
    NoteCrypto.ofBytes ((pt.drop 40).take 32), pt.drop 72)

/-- A note the scanner found for the wallet. -/
structure Discovered (H : Type) where
  note : Note H
  commitment : H
  /-- The position in the commitment tree of the pool. -/
  leafIndex : ℕ
  memo : List UInt8

/-- One entry of the scan: the note is ours when its ciphertext opens, and it is kept when it
commits to the entry's commitment under our tag. -/
def scanEntry (keys : WalletKeys) (epoch : ℕ) (entry : ℕ × H × List UInt8) :
    Option (Discovered H) :=
  let (leafIndex, commitment, stealthCt) := entry
  if stealthCt.length < CT_LEN + TAG_LEN then none
  else do
    let shared ← NoteCrypto.decapsulate (H := H) keys.master epoch (stealthCt.take CT_LEN)
    let key := NoteCrypto.noteKey shared commitment
    let pt ← NoteCrypto.openSealed key commitment (stealthCt.drop CT_LEN)
    let (value, rho, rcm, memo) ← decodeNotePt pt
    let note : Note H := ⟨value, keys.ownerTag, rho, rcm⟩
    if commitNote note ≠ commitment then none
    else some ⟨note, commitment, leafIndex, memo⟩

/-- Scan the entries of a pool at an epoch: leaf index, commitment and ciphertext of each. -/
def scanAt (keys : WalletKeys) (epoch : ℕ) (entries : List (ℕ × H × List UInt8)) :
    List (Discovered H) :=
  entries.filterMap (scanEntry keys epoch)

/-- A discovered note is the wallet's own and commits to the entry it was found in. -/
lemma discovered_spec {keys : WalletKeys} {epoch : ℕ} {entries : List (ℕ × H × List UInt8)}
    {d : Discovered H} (h : d ∈ scanAt keys epoch entries) :
    d.note.owner = keys.ownerTag ∧ commitNote d.note = d.commitment ∧
      ∃ ct, (d.leafIndex, d.commitment, ct) ∈ entries := by
  obtain ⟨⟨leafIndex, commitment, ct⟩, hmem, hentry⟩ := List.mem_filterMap.mp h
  simp only [scanEntry, Option.bind_eq_bind] at hentry
  split_ifs at hentry with hshort
  simp only [Option.bind_eq_some_iff] at hentry
  obtain ⟨shared, -, pt, -, ⟨value, rho, rcm, memo⟩, -, hnote⟩ := hentry
  split_ifs at hnote with hcm
  cases hnote
  exact ⟨rfl, not_not.mp hcm, ct, hmem⟩

/-- An entry whose ciphertext opens to a note that commits to it is found. -/
lemma scanEntry_eq_some {keys : WalletKeys} {epoch leafIndex value : ℕ} {commitment rho rcm : H}
    {ct pt memo : List UInt8} (shared : NoteCrypto.Shared H) (hlen : ¬ ct.length < CT_LEN + TAG_LEN)
    (hshared : NoteCrypto.decapsulate (H := H) keys.master epoch (ct.take CT_LEN) = some shared)
    (hopen : NoteCrypto.openSealed (NoteCrypto.noteKey shared commitment) commitment
      (ct.drop CT_LEN) = some pt)
    (hpt : decodeNotePt pt = some (value, rho, rcm, memo))
    (hcm : commitNote ⟨value, keys.ownerTag, rho, rcm⟩ = commitment) :
    scanEntry keys epoch (leafIndex, commitment, ct) =
      some ⟨⟨value, keys.ownerTag, rho, rcm⟩, commitment, leafIndex, memo⟩ := by
  simp [scanEntry, hlen, hshared, hopen, hpt, hcm]

end Scan

/-! ## Spending -/

/-- Why a witness is rejected, in words. -/
def Circuit.SpendError.debug : SpendError → String
  | .badPathLength => "BadPathLength"
  | .badOtsPath => "BadOtsPath"
  | .badSpendSig => "BadSpendSig"
  | .ownerMismatch => "OwnerMismatch"
  | .valueConservation => "ValueConservation"

/-- A checked spend, ready to prove. -/
structure SpendPlan (H : Type) where
  witness : SpendWitness H
  publics : SpendPublic H

section Plan

variable {H : Type} [DecidableEq H] [HashSuite H]

/-- Plan a spend from one authentication path.  Nothing stands for the panic of an index beyond the
keys of the wallet. -/
def buildSpendWithPath (siblings : List H) (root : H) (leafIndex : ℕ) (inNote : Note H)
    (keys : WalletKeys) (otsIndex : ℕ) (outNote out2Note : Note H) (fee : ℕ) (credit : H) :
    Option (Except String (SpendPlan H)) :=
  let cm := commitNote inNote
  let count := siblings.length
  if siblings.length ≠ TREE_DEPTH then
    some (.error s!"path has {count} siblings, expected {TREE_DEPTH}")
  else if Merkle.foldPath merkleNode siblings leafIndex cm ≠ root then
    some (.error s!"leaf {leafIndex}: the path does not fold to the stated root")
  else do
    let txBinding := txBindingFor credit fee
    let (sig, otsPath) ← keys.authorize otsIndex txBinding
    let witness : SpendWitness H :=
      { inNote := inNote, path := ⟨siblings, leafIndex⟩, sig := sig, otsPath := otsPath,
        nk := keys.nk, outNote := outNote, out2Note := out2Note, fee := fee,
        txBinding := txBinding }
    match run witness with
    | .ok publics => some (.ok ⟨witness, publics⟩)
    | .error e =>
      let reason := e.debug
      some (.error s!"witness fails the statement: {reason}")

/-- Plan a spend from all commitments of the pool. -/
def buildSpend (leaves : List H) (leafIndex : ℕ) (inNote : Note H) (keys : WalletKeys)
    (otsIndex : ℕ) (outNote out2Note : Note H) (fee : ℕ) (credit : H) :
    Option (Except String (SpendPlan H)) :=
  if leaves[leafIndex]? ≠ some (commitNote inNote) then
    some (.error s!"leaf {leafIndex} is not this note's commitment")
  else do
    let (siblings, root) ← fullTreePath leaves leafIndex
    buildSpendWithPath siblings root leafIndex inNote keys otsIndex outNote out2Note fee credit

/-- The plan of a path that folds to its root, for a note of the wallet whose value is spent to the
last unit: the circuit accepts it. -/
lemma buildSpendWithPath_ok {siblings : List H} {root : H} {leafIndex : ℕ} {inNote : Note H}
    {keys : WalletKeys} {otsIndex : ℕ} {outNote out2Note : Note H} {fee : ℕ} (credit : H)
    (hlen : siblings.length = TREE_DEPTH)
    (hfold : Merkle.foldPath merkleNode siblings leafIndex (commitNote inNote) = root)
    (howner : inNote.owner = keys.ownerTag) (hots : otsIndex < 2 ^ keys.h)
    (hvalue : inNote.value = outNote.value + out2Note.value + fee)
    (hle : outNote.value + out2Note.value + fee ≤ u64Max) :
    ∃ plan, buildSpendWithPath siblings root leafIndex inNote keys otsIndex outNote out2Note fee
        credit = some (.ok plan) ∧ run plan.witness = .ok plan.publics ∧
      plan.witness.inNote = inNote ∧ plan.witness.path.index = leafIndex ∧
      plan.publics = ⟨root, nullifier keys.nk inNote.rho, commitNote outNote, commitNote out2Note,
        fee, txBindingFor credit fee⟩ := by
  obtain ⟨sig, otsPath, leaf, hauth, hdepth, hrecover, hroot⟩ :=
    spendAuth_spec keys.master keys.cap hots (txBindingFor credit fee)
  let witness : SpendWitness H :=
    { inNote := inNote, path := ⟨siblings, leafIndex⟩, sig := sig, otsPath := otsPath,
      nk := keys.nk, outNote := outNote, out2Note := out2Note, fee := fee,
      txBinding := txBindingFor credit fee }
  have hopens : witness.Opens := by
    refine ⟨leaf, hrecover, ?_⟩
    change addressTag (Merkle.foldPath otsNode otsPath.siblings otsPath.index leaf) keys.nk = _
    rw [hroot, howner]
    rfl
  have hrun : run witness = .ok witness.publics :=
    run_eq_ok_iff.mpr ⟨hlen, hdepth, hopens, hvalue, hvalue ▸ hle, rfl⟩
  refine ⟨⟨witness, witness.publics⟩, ?_, hrun, rfl, rfl, ?_⟩
  · have hauth' : keys.authorize otsIndex (txBindingFor credit fee) = some (sig, otsPath) := hauth
    simp only [buildSpendWithPath, hlen, hfold, hauth', ne_eq, not_true_eq_false, if_false,
      Option.bind_eq_bind, Option.bind_some]
    rw [show run _ = .ok witness.publics from hrun]
  · simp only [SpendWitness.publics, witness, hfold]

/-- A spend of a note of the wallet at its leaf, to the last unit, is planned, and the path of the
leaf alone gives the same plan. -/
lemma buildSpend_ok {leaves : List H} {leafIndex : ℕ} {inNote : Note H} (keys : WalletKeys)
    (otsIndex : ℕ) (outNote out2Note : Note H) (fee : ℕ) (credit : H)
    (hlen : leaves.length ≤ 2 ^ TREE_DEPTH)
    (hleaf : leaves[leafIndex]? = some (commitNote inNote))
    (howner : inNote.owner = keys.ownerTag) (hots : otsIndex < 2 ^ keys.h)
    (hvalue : inNote.value = outNote.value + out2Note.value + fee)
    (hle : outNote.value + out2Note.value + fee ≤ u64Max) :
    ∃ siblings plan,
      fullTreePath leaves leafIndex =
        some (siblings, Merkle.subRoot merkleNode (leafAt leaves) TREE_DEPTH 0) ∧
      buildSpend leaves leafIndex inNote keys otsIndex outNote out2Note fee credit =
        some (.ok plan) ∧
      buildSpendWithPath siblings (Merkle.subRoot merkleNode (leafAt leaves) TREE_DEPTH 0) leafIndex
        inNote keys otsIndex outNote out2Note fee credit = some (.ok plan) ∧
      run plan.witness = .ok plan.publics ∧
      plan.witness.inNote = inNote ∧ plan.witness.path.index = leafIndex ∧
      plan.publics = ⟨Merkle.subRoot merkleNode (leafAt leaves) TREE_DEPTH 0,
        nullifier keys.nk inNote.rho, commitNote outNote, commitNote out2Note, fee,
        txBindingFor credit fee⟩ := by
  obtain ⟨hidx, hget⟩ := List.getElem?_eq_some_iff.mp hleaf
  have hpath := fullTreePath_eq hidx
  have hfold := Merkle.foldPath_siblings merkleNode (leafAt leaves) TREE_DEPTH 0 leafIndex
  have hstart : Merkle.subRoot merkleNode (leafAt leaves) 0 leafIndex = commitNote inNote := by
    simp [Merkle.subRoot, leafAt, hleaf]
  rw [hstart, Nat.zero_add, Nat.div_eq_of_lt (hidx.trans_le hlen)] at hfold
  obtain ⟨plan, hplan, hrun, hspec⟩ := buildSpendWithPath_ok credit
    (Merkle.length_siblings _ _ _ _ _) hfold howner hots hvalue hle
  refine ⟨_, plan, hpath, ?_, hplan, hrun, hspec⟩
  simp only [buildSpend, hleaf, ne_eq, not_true_eq_false, if_false, hpath, Option.bind_eq_bind,
    Option.bind_some]
  exact hplan

end Plan

end HashKinetics
