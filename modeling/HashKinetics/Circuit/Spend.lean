import HashKinetics.Primitives
import HashKinetics.Foundations.MerkleTree

/-!
# The shielded-spend statement

The statements a shielded proof attests: `run` evaluates the spend circuit on a private witness and
`runMint` the mint circuit.  The commitment tree of the chain hashes with the functions defined
here.
-/

namespace HashKinetics.Circuit

open Foundations

variable {H : Type} [HashSuite H]

/-- The depth of the commitment tree. -/
def TREE_DEPTH : ℕ := 32

/-- The depth of the tree of one-time spend keys below an address. -/
def SPEND_TREE_DEPTH : ℕ := 10

def WOTS_MSG_DIGITS : ℕ := 64
def WOTS_CHAINS : ℕ := 67
def WOTS_W : ℕ := 16

def DOM_CM : UInt8 := 1
def DOM_NODE : UInt8 := 2
def DOM_PKD : UInt8 := 3
def DOM_NF : UInt8 := 4
def DOM_OTS : UInt8 := 5
def DOM_TXBIND : UInt8 := 7
def DOM_OTS_NODE : UInt8 := 8
def DOM_ADDR : UInt8 := 9
def DOM_NK : UInt8 := 10

/-- A shielded note. -/
structure Note (H : Type) where
  value : ℕ
  /-- The address tag of whoever may spend the note. -/
  owner : H
  /-- The nullifier seed. -/
  rho : H
  /-- The commitment randomness. -/
  rcm : H

/-- An authentication path; bit `l` of the index selects the side at level `l`. -/
structure MerklePath (H : Type) where
  siblings : List H
  index : ℕ

/-- Everything private the prover of a spend knows. -/
structure SpendWitness (H : Type) where
  inNote : Note H
  path : MerklePath H
  /-- The one-time signature over `txBinding`, one chain value per digit. -/
  sig : List H
  /-- The path from the one-time key's digest to the root of the address's spend tree. -/
  otsPath : MerklePath H
  /-- The secret nullifier key of the address. -/
  nk : H
  outNote : Note H
  out2Note : Note H
  fee : ℕ
  txBinding : H

/-- What a spend proof reveals. -/
structure SpendPublic (H : Type) where
  merkleRoot : H
  nullifier : H
  outCommitment : H
  out2Commitment : H
  fee : ℕ
  txBinding : H
  deriving DecidableEq

/-- Why a witness is rejected. -/
inductive SpendError where
  | badPathLength
  | badOtsPath
  | badSpendSig
  | ownerMismatch
  | valueConservation
  deriving DecidableEq

/-! ## Hashes of the statement -/

/-- The commitment of a note: a leaf of the chain's tree. -/
def commitNote (n : Note H) : H :=
  sha [.byte DOM_CM, .u64 n.value, .digest n.owner, .digest n.rho, .digest n.rcm]

/-- An inner node of the commitment tree. -/
def merkleNode (left right : H) : H :=
  sha [.byte DOM_NODE, .digest left, .digest right]

/-- The nullifier of a note under a secret nullifier key. -/
def nullifier (nk rho : H) : H :=
  sha [.byte DOM_NF, .digest nk, .digest rho]

/-- An inner node of a spend tree. -/
def otsNode (left right : H) : H :=
  sha [.byte DOM_OTS_NODE, .digest left, .digest right]

/-- The address tag a sender uses as the owner of a note. -/
def addressTag (spendRoot nk : H) : H :=
  let nkCommit : H := sha [.byte DOM_NK, .digest nk]
  sha [.byte DOM_ADDR, .digest spendRoot, .digest nkCommit]

/-- The empty leaf of the commitment tree. -/
def emptyLeaf : H := fill 0

/-- The empty-subtree ladder of the commitment tree. -/
def emptyRoots (l : ℕ) : H := Merkle.emptyRoot merkleNode emptyLeaf l

/-- The binding of a spend to its transparent effects. -/
def txBindingFor (creditAccount : H) (fee : ℕ) : H :=
  sha [.byte DOM_TXBIND, .digest creditAccount, .u64 fee]

/-! ## One-time signatures -/

/-- One chain step, with the chain index bound into the hash. -/
def wotsStep (chain : ℕ) (x : H) : H :=
  sha [.byte DOM_OTS, .byte (UInt8.ofNat chain), .digest x]

/-- `n` chain steps. -/
def wotsChain (chain : ℕ) (x : H) (n : ℕ) : H := (wotsStep chain)^[n] x

/-- Nibble `i` of a message, high half first. -/
def messageDigit (msg : H) (i : ℕ) : ℕ :=
  if i % 2 = 0 then (byteAt msg (i / 2)).toNat / 16 else (byteAt msg (i / 2)).toNat % 16

/-- The checksum of the message digits. -/
def checksum (msg : H) : ℕ :=
  ((List.range WOTS_MSG_DIGITS).map fun i => WOTS_W - 1 - messageDigit msg i).sum

/-- The message digits followed by three base-16 checksum digits. -/
def wotsDigits (msg : H) (i : ℕ) : ℕ :=
  if i < WOTS_MSG_DIGITS then messageDigit msg i
  else if i = WOTS_MSG_DIGITS then checksum msg / 256 % 16
  else if i = WOTS_MSG_DIGITS + 1 then checksum msg / 16 % 16
  else checksum msg % 16

/-- The digest of a one-time public key. -/
def pkDigest (pk : List H) : H := sha (.byte DOM_PKD :: pk.map .digest)

/-- Complete every chain from the signature values and digest the recomputed public key. -/
def wotsRecoverOwner (sig : List H) (msg : H) : Option H :=
  if sig.length = WOTS_CHAINS then
    some (pkDigest (sig.mapIdx fun i x => wotsChain i x (WOTS_W - 1 - wotsDigits msg i)))
  else none

/-! ## The statements -/

/-- The shielded-spend statement: the public outputs of a valid witness. -/
def run [DecidableEq H] (w : SpendWitness H) : Except SpendError (SpendPublic H) :=
  if w.path.siblings.length ≠ TREE_DEPTH then .error .badPathLength
  else if w.otsPath.siblings.length ≠ SPEND_TREE_DEPTH then .error .badOtsPath
  else
    let merkleRoot :=
      Merkle.foldPath merkleNode w.path.siblings w.path.index (commitNote w.inNote)
    match wotsRecoverOwner w.sig w.txBinding with
    | none => .error .badSpendSig
    | some leaf =>
      let recoveredRoot := Merkle.foldPath otsNode w.otsPath.siblings w.otsPath.index leaf
      if addressTag recoveredRoot w.nk ≠ w.inNote.owner then .error .ownerMismatch
      else
        -- value conservation over two outputs, overflow-safe in `u64`
        match checkedAdd u64Max w.outNote.value w.out2Note.value with
        | none => .error .valueConservation
        | some outs =>
          match checkedAdd u64Max outs w.fee with
          | none => .error .valueConservation
          | some total =>
            if w.inNote.value ≠ total then .error .valueConservation
            else .ok {
              merkleRoot := merkleRoot
              nullifier := nullifier w.nk w.inNote.rho
              outCommitment := commitNote w.outNote
              out2Commitment := commitNote w.out2Note
              fee := w.fee
              txBinding := w.txBinding }

/-- The private input of a mint. -/
structure MintWitness (H : Type) where
  note : Note H

/-- What a mint proof reveals. -/
structure MintPublic (H : Type) where
  commitment : H
  value : ℕ
  deriving DecidableEq

/-- The mint statement. -/
def runMint (w : MintWitness H) : MintPublic H :=
  { commitment := commitNote w.note, value := w.note.value }

/-- The facts an accepted spend witness establishes about its public values. -/
structure Accepts (w : SpendWitness H) (p : SpendPublic H) : Prop where
  /-- The authentication path has the depth of the tree. -/
  depth : w.path.siblings.length = TREE_DEPTH
  /-- The public root is the fold of the input note's commitment. -/
  root : p.merkleRoot =
    Merkle.foldPath merkleNode w.path.siblings w.path.index (commitNote w.inNote)
  /-- The owner of the input note is an address tag under the witnessed nullifier key. -/
  owner : ∃ spendRoot, addressTag spendRoot w.nk = w.inNote.owner
  /-- The public nullifier is the input note's. -/
  nullifier : p.nullifier = Circuit.nullifier w.nk w.inNote.rho
  /-- The outputs and the fee add up to the input, within `u64`. -/
  value : w.inNote.value = w.outNote.value + w.out2Note.value + p.fee
  bound : w.inNote.value ≤ u64Max
  out : p.outCommitment = commitNote w.outNote
  out2 : p.out2Commitment = commitNote w.out2Note

/-- The public values of a witness. -/
def SpendWitness.publics (w : SpendWitness H) : SpendPublic H where
  merkleRoot := Merkle.foldPath merkleNode w.path.siblings w.path.index (commitNote w.inNote)
  nullifier := Circuit.nullifier w.nk w.inNote.rho
  outCommitment := commitNote w.outNote
  out2Commitment := commitNote w.out2Note
  fee := w.fee
  txBinding := w.txBinding

/-- The signature completes to a one-time key below the address that owns the input note, under the
witnessed nullifier key. -/
def SpendWitness.Opens (w : SpendWitness H) : Prop :=
  ∃ leaf, wotsRecoverOwner w.sig w.txBinding = some leaf ∧
    addressTag (Merkle.foldPath otsNode w.otsPath.siblings w.otsPath.index leaf) w.nk =
      w.inNote.owner

/-- What `run` checks: the two depths, the spend authority and the value equation. -/
lemma run_eq_ok_iff [DecidableEq H] {w : SpendWitness H} {p : SpendPublic H} :
    run w = .ok p ↔
      w.path.siblings.length = TREE_DEPTH ∧ w.otsPath.siblings.length = SPEND_TREE_DEPTH ∧
      w.Opens ∧ w.inNote.value = w.outNote.value + w.out2Note.value + w.fee ∧
      w.inNote.value ≤ u64Max ∧ w.publics = p := by
  constructor
  · intro h
    simp only [run] at h
    split at h
    · cases h
    next hdepth =>
    split at h
    · cases h
    next hots =>
    split at h
    · cases h
    next leaf hleaf =>
    split at h
    · cases h
    next howner =>
    split at h
    · cases h
    next outs houts =>
    split at h
    · cases h
    next total htotal =>
    split at h
    · cases h
    next hvalue =>
    cases h
    rw [checkedAdd_eq_some] at houts htotal
    rw [not_not] at hdepth hots howner hvalue
    obtain ⟨-, rfl⟩ := houts
    obtain ⟨hle, rfl⟩ := htotal
    exact ⟨hdepth, hots, ⟨leaf, hleaf, howner⟩, hvalue, hvalue ▸ hle, rfl⟩
  · rintro ⟨hdepth, hots, ⟨leaf, hleaf, howner⟩, hvalue, hle, rfl⟩
    have houts : checkedAdd u64Max w.outNote.value w.out2Note.value =
        some (w.outNote.value + w.out2Note.value) :=
      checkedAdd_eq_some.mpr ⟨by omega, rfl⟩
    have htotal : checkedAdd u64Max (w.outNote.value + w.out2Note.value) w.fee =
        some w.inNote.value :=
      checkedAdd_eq_some.mpr ⟨by omega, hvalue⟩
    simp only [run, hdepth, hots, hleaf, howner, houts, htotal, ne_eq, not_true_eq_false, if_false]
    rfl

/-- What an accepted witness establishes. -/
lemma accepts_of_run [DecidableEq H] {w : SpendWitness H} {p : SpendPublic H}
    (h : run w = .ok p) : Accepts w p := by
  obtain ⟨hdepth, -, ⟨leaf, -, howner⟩, hvalue, hle, rfl⟩ := run_eq_ok_iff.mp h
  exact ⟨hdepth, rfl, ⟨_, howner⟩, rfl, hvalue, hle, rfl, rfl⟩

end HashKinetics.Circuit
