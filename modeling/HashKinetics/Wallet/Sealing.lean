import HashKinetics.Foundations.EncryptThenMac
import HashKinetics.Foundations.Text
import HashKinetics.State.Spends

/-!
# Sealed notes

The sender's side of a payment and the keys it is sealed to.  A wallet has one receiving key for
every epoch, derived from its master seed, and an address of an epoch carries the public part of
that key next to the owner tag, which never changes.  A sender encapsulates a secret to the key,
derives the key of the note from the secret and the commitment, and seals value, seed, randomness
and memo under it.  The receiver's scan of the epoch undoes this step by step.
-/

namespace HashKinetics

open Foundations Circuit

/-- The length of an encapsulation key. -/
def EK_LEN : ℕ := 1184

def DOM_MLKEM_SEED : String := "hk/v1/mlkem-note-seed"
def DOM_NOTE_KEY : String := "hk/v1/note-key"
def DOM_NOTE_MAC : String := "hk/v1/note-mac"
def DOM_WALLET_RHO : String := "hk/wallet/rho/v2"
def DOM_WALLET_RCM : String := "hk/wallet/rcm/v2"

/-- The key encapsulation and the streams of SHAKE-256 that seal notes. -/
class StealthSuite (H : Type) where
  /-- A decapsulation key. -/
  DecapKey : Type
  /-- The decapsulation key of a seed of 64 bytes. -/
  fromSeed : List UInt8 → DecapKey
  /-- The bytes of the encapsulation key that belongs to it. -/
  encapsulationKey : DecapKey → List UInt8
  /-- The secret in a ciphertext of the right length; a foreign one gives some other secret. -/
  decapsulateCt : DecapKey → List UInt8 → List UInt8
  /-- A ciphertext and its secret, from the bytes of a key and the coin; an invalid key has none. -/
  encapsulateDeterministic : List UInt8 → List UInt8 → Option (List UInt8 × List UInt8)
  /-- Domain-separated SHAKE-256 as a stream; every part is length-prefixed before it is
  absorbed. -/
  shakeStream : String → List (List (Piece H)) → ℕ → UInt8
  /-- The key stream of a key and a nonce, which are absorbed without lengths. -/
  encStream : H → H → ℕ → UInt8
  /-- The digest with the given 32 bytes. -/
  ofBytes : List UInt8 → H

section Keys

variable {H : Type} [HashSuite H] [StealthSuite H]

/-- The thirty-two bytes of a digest. -/
def digestBytes (h : H) : List UInt8 := (List.range 32).map (byteAt h)

omit [StealthSuite H] in
@[simp] lemma length_digestBytes (h : H) : (digestBytes h).length = 32 := by
  simp [digestBytes]

/-- A digest is read back from its bytes.  Digests are abstract; those of the protocol all are. -/
def ReadsBack (h : H) : Prop := StealthSuite.ofBytes (digestBytes h) = h

/-- The first `n` bytes of a SHAKE-256 stream. -/
def shake256_n (domain : String) (parts : List (List (Piece H))) (n : ℕ) : List UInt8 :=
  (List.range n).map (StealthSuite.shakeStream domain parts)

/-! ## Authenticated encryption -/

/-- The tag of a ciphertext. -/
def noteMac (key nonce : H) (ct : List UInt8) : List UInt8 :=
  digestBytes (shake256_32 DOM_NOTE_MAC [[.digest key], [.digest nonce], [.bytes ct]] : H)

/-- Encrypt and authenticate: the ciphertext, then its tag. -/
def noteencSeal (key nonce : H) (plaintext : List UInt8) : List UInt8 :=
  sealThenMac (StealthSuite.encStream key nonce) (noteMac key nonce) plaintext

/-- Verify and decrypt. -/
def noteencOpen (key nonce : H) (sealed : List UInt8) : Option (List UInt8) :=
  openChecked TAG_LEN (StealthSuite.encStream key nonce) (noteMac key nonce) sealed

@[simp] lemma noteencOpen_noteencSeal (key nonce : H) (plaintext : List UInt8) :
    noteencOpen key nonce (noteencSeal key nonce plaintext) = some plaintext :=
  openChecked_sealThenMac _ (fun _ => length_digestBytes _) plaintext

lemma length_noteencSeal (key nonce : H) (plaintext : List UInt8) :
    (noteencSeal key nonce plaintext).length = plaintext.length + TAG_LEN := by
  simp [noteencSeal, sealThenMac, noteMac, TAG_LEN]

/-! ## Receiving keys -/

/-- A wallet's receiving key. -/
structure NoteKem (H : Type) [StealthSuite H] where
  dk : StealthSuite.DecapKey H

namespace NoteKem

/-- Rebuild a key from its exported seed. -/
def fromSeedBytes (bytes : List UInt8) : Option (NoteKem H) :=
  if bytes.length = 64 then some ⟨StealthSuite.fromSeed bytes⟩ else none

/-- Deterministic key generation.  Nothing stands for the panic of a seed of the wrong length. -/
def fromMaster (master tag : List UInt8) : Option (NoteKem H) :=
  fromSeedBytes (shake256_n (H := H) DOM_MLKEM_SEED [[.bytes master], [.bytes tag]] 64)

/-- The public component of the key. -/
def pubBytes (kem : NoteKem H) : List UInt8 := StealthSuite.encapsulationKey kem.dk

/-- Decapsulation; nothing for a ciphertext of the wrong length. -/
def decapsulate (kem : NoteKem H) (ct : List UInt8) : Option (List UInt8) :=
  if ct.length = CT_LEN then some (StealthSuite.decapsulateCt kem.dk ct) else none

end NoteKem

/-- Encapsulate to a public component. -/
def encapsulate (H : Type) [StealthSuite H] (recipientEk coin : List UInt8) :
    Option (List UInt8 × List UInt8) :=
  if recipientEk.length = EK_LEN then StealthSuite.encapsulateDeterministic H recipientEk coin
  else none

/-- The key of a note, from the shared secret and the commitment. -/
def noteKey (shared : List UInt8) (context : H) : H :=
  shake256_32 DOM_NOTE_KEY [[.bytes shared], [.digest context]]

/-- The domain of an epoch's receiving key. -/
def epochKemTag (epoch : ℕ) : List UInt8 := utf8 (s!"note-kem/{epoch}").toList

/-- The encryption of notes that the scanner works with. -/
instance (priority := low) : NoteCrypto H where
  Shared := List UInt8
  decapsulate master epoch ct :=
    (NoteKem.fromMaster (H := H) master (epochKemTag epoch)).bind fun kem => kem.decapsulate ct
  noteKey := noteKey
  openSealed := noteencOpen
  ofBytes := StealthSuite.ofBytes

/-- A public address: who may spend, and the key to seal to. -/
structure Address (H : Type) where
  tag : H
  kemPk : List UInt8

/-- The viewing key of one epoch. -/
structure Ivk (H : Type) where
  epoch : ℕ
  tag : H
  kemSeed : List UInt8

namespace WalletKeys

/-- The receiving key of an epoch. -/
def kemAt (keys : WalletKeys) (epoch : ℕ) : Option (NoteKem H) :=
  NoteKem.fromMaster keys.master (epochKemTag epoch)

/-- The address of an epoch. -/
def addressAt (keys : WalletKeys) (epoch : ℕ) : Option (Address H) :=
  (keys.kemAt epoch).map fun kem : NoteKem H => ⟨keys.ownerTag, kem.pubBytes⟩

/-- The viewing key of an epoch. -/
def ivk (keys : WalletKeys) (epoch : ℕ) : Ivk H :=
  { epoch := epoch, tag := keys.ownerTag
    kemSeed :=
      shake256_n (H := H) DOM_MLKEM_SEED [[.bytes keys.master], [.bytes (epochKemTag epoch)]] 64 }

/-- A seed of the stream has the length that key generation wants. -/
lemma exists_kemAt (keys : WalletKeys) (epoch : ℕ) : ∃ kem : NoteKem H,
    keys.kemAt epoch = some kem := by
  have hlen : (shake256_n (H := H) DOM_MLKEM_SEED
      [[.bytes keys.master], [.bytes (epochKemTag epoch)]] 64).length = 64 := by
    simp [shake256_n]
  refine ⟨⟨StealthSuite.fromSeed (keys.ivk (H := H) epoch).kemSeed⟩, ?_⟩
  rw [kemAt, NoteKem.fromMaster, NoteKem.fromSeedBytes, if_pos hlen]
  rfl

end WalletKeys

/-! ## Sealed outputs -/

/-- The plaintext of a note: value, seed, randomness and memo. -/
def encodeNotePt (value : ℕ) (rho rcm : H) (memo : List UInt8) : List UInt8 :=
  leBytes value ++ digestBytes rho ++ digestBytes rcm ++ memo

/-- What a sender keeps of an output: the key opens exactly its ciphertext. -/
structure SealedOutput (H : Type) where
  note : Note H
  commitment : H
  stealthCt : List UInt8
  noteKey : H

/-- Seal a note for the scanner of an address: the ciphertext of the secret, then the sealed
plaintext. -/
def sealNote (note : Note H) (dest : Address H) (coin memo : List UInt8) :
    Option (List UInt8 × H) := do
  let commitment := commitNote note
  let (kemCt, ss) ← encapsulate H dest.kemPk coin
  let key := noteKey ss commitment
  let sealed := noteencSeal key commitment (encodeNotePt note.value note.rho note.rcm memo)
  return (kemCt ++ sealed, key)

/-- Build an output for an address, with seed and randomness of the note from fresh entropy. -/
def buildOutput (dest : Address H) (value : ℕ) (coin entropy memo : List UInt8) :
    Option (SealedOutput H) := do
  let rho : H := shake256_32 DOM_WALLET_RHO [[.bytes entropy], [.bytes [111, 117, 116]]]
  let rcm : H := shake256_32 DOM_WALLET_RCM [[.bytes entropy], [.bytes [111, 117, 116]]]
  let note : Note H := ⟨value, dest.tag, rho, rcm⟩
  let commitment := commitNote note
  let (stealthCt, noteKey) ← sealNote note dest coin memo
  return ⟨note, commitment, stealthCt, noteKey⟩

/-- What the wallet relies on: decapsulation undoes encapsulation, and a hash is read back from its
bytes. -/
structure StealthLaws (H : Type) [HashSuite H] [StealthSuite H] : Prop where
  length_public : ∀ kem : NoteKem H, kem.pubBytes.length = EK_LEN
  decapsulate_encapsulate : ∀ (kem : NoteKem H) (coin : List UInt8), coin.length = 32 →
    ∃ ct ss, StealthSuite.encapsulateDeterministic H kem.pubBytes coin = some (ct, ss) ∧
      ct.length = CT_LEN ∧ StealthSuite.decapsulateCt kem.dk ct = ss
  readsBack_shake : ∀ (domain : String) (part : List (Piece H)) (parts : List (List (Piece H))),
    ReadsBack (shake256_32 domain (part :: parts) : H)

/-- The plaintext of a note is read back. -/
lemma decodeNotePt_encodeNotePt {value : ℕ} {rho rcm : H} (hvalue : value ≤ u64Max)
    (hrho : ReadsBack rho) (hrcm : ReadsBack rcm) (memo : List UInt8) :
    decodeNotePt (encodeNotePt value rho rcm memo) = some (value, rho, rcm, memo) := by
  have hlong : ¬ (encodeNotePt value rho rcm memo).length < 72 := by
    simp [encodeNotePt]
    omega
  have hshape : encodeNotePt value rho rcm memo =
      leBytes value ++ (digestBytes rho ++ (digestBytes rcm ++ memo)) := by
    simp [encodeNotePt]
  have hseed : (encodeNotePt value rho rcm memo).drop 8 =
      digestBytes rho ++ (digestBytes rcm ++ memo) := by
    rw [hshape, List.drop_left' (length_leBytes value)]
  have hrand : (encodeNotePt value rho rcm memo).drop 40 = digestBytes rcm ++ memo := by
    rw [show 40 = 8 + 32 from rfl, ← List.drop_drop, hseed,
      List.drop_left' (length_digestBytes rho)]
  have hmemo : (encodeNotePt value rho rcm memo).drop 72 = memo := by
    rw [show 72 = 40 + 32 from rfl, ← List.drop_drop, hrand,
      List.drop_left' (length_digestBytes rcm)]
  have hfirst : (encodeNotePt value rho rcm memo).take 8 = leBytes value := by
    rw [hshape, List.take_left' (length_leBytes value)]
  have hwide : value < 2 ^ 64 := by
    simp only [u64Max] at hvalue
    omega
  rw [decodeNotePt, if_neg hlong, hfirst, hseed, hrand, hmemo,
    List.take_left' (length_digestBytes rho), List.take_left' (length_digestBytes rcm),
    ofLeBytes_leBytes hwide]
  exact congrArg some (Prod.ext rfl (Prod.ext hrho (Prod.ext hrcm rfl)))

omit [HashSuite H] [StealthSuite H] in
/-- A value of eight bytes is a `u64`. -/
lemma decodeNotePt_value_le [NoteCrypto H] {pt memo : List UInt8} {value : ℕ} {rho rcm : H}
    (h : decodeNotePt pt = some (value, rho, rcm, memo)) : value ≤ u64Max := by
  rw [decodeNotePt] at h
  split_ifs at h with hlong
  obtain ⟨rfl, -⟩ := Prod.mk.inj (Option.some.inj h)
  have hlen : (pt.take 8).length = 8 := by
    rw [List.length_take]
    omega
  have hlt : ofLeBytes (pt.take 8) < 256 ^ (pt.take 8).length := ofLeDigits_lt (pt.take 8)
  rw [hlen] at hlt
  simp only [u64Max]
  omega

/-- Sealing to the public part of a key succeeds; the ciphertext is split where the receiver splits
it, and the receiver's secret gives the key it was sealed under. -/
lemma StealthLaws.sealNote_eq (laws : StealthLaws H) (kem : NoteKem H) {coin : List UInt8}
    (hcoin : coin.length = 32) (note : Note H) (dest : Address H)
    (hdest : dest.kemPk = kem.pubBytes)
    (memo : List UInt8) :
    ∃ ct ss, sealNote note dest coin memo = some (ct, noteKey ss (commitNote note)) ∧
      ¬ ct.length < CT_LEN + TAG_LEN ∧ kem.decapsulate (ct.take CT_LEN) = some ss ∧
      noteencOpen (noteKey ss (commitNote note)) (commitNote note) (ct.drop CT_LEN) =
        some (encodeNotePt note.value note.rho note.rcm memo) := by
  obtain ⟨kemCt, ss, henc, hlen, hdec⟩ := laws.decapsulate_encapsulate kem coin hcoin
  have hboth : encapsulate H dest.kemPk coin = some (kemCt, ss) := by
    rw [encapsulate, hdest, if_pos (laws.length_public kem), henc]
  let key := noteKey ss (commitNote note)
  let sealed := noteencSeal key (commitNote note) (encodeNotePt note.value note.rho note.rcm memo)
  refine ⟨kemCt ++ sealed, ss, ?_, ?_, ?_, ?_⟩
  · simp only [sealNote, hboth, Option.bind_eq_bind, Option.bind_some]
    rfl
  · simp only [List.length_append, sealed, length_noteencSeal, hlen]
    omega
  · rw [List.take_left' hlen, NoteKem.decapsulate, if_pos hlen, hdec]
  · rw [List.drop_left' hlen, noteencOpen_noteencSeal]

end Keys

/-! ## The scanner over one receiving key -/

section ScanCore

variable {H : Type} [DecidableEq H] [HashSuite H] [StealthSuite H]

/-- One entry of the scan under a receiving key. -/
def scanCoreEntry (kem : NoteKem H) (myTag : H) (entry : ℕ × H × List UInt8) :
    Option (Discovered H) :=
  let (leafIndex, commitment, stealthCt) := entry
  if stealthCt.length < CT_LEN + TAG_LEN then none
  else do
    let ss ← kem.decapsulate (stealthCt.take CT_LEN)
    let key := noteKey ss commitment
    let pt ← noteencOpen key commitment (stealthCt.drop CT_LEN)
    let (value, rho, rcm, memo) ← decodeNotePt pt
    let note : Note H := ⟨value, myTag, rho, rcm⟩
    if commitNote note ≠ commitment then none
    else some ⟨note, commitment, leafIndex, memo⟩

/-- Scan the entries of a pool under a receiving key. -/
def scanCore (kem : NoteKem H) (myTag : H) (entries : List (ℕ × H × List UInt8)) :
    List (Discovered H) :=
  entries.filterMap (scanCoreEntry kem myTag)

/-- Scan with a viewing key only. -/
def scanWithIvk (ivk : Ivk H) (entries : List (ℕ × H × List UInt8)) : List (Discovered H) :=
  match NoteKem.fromSeedBytes ivk.kemSeed with
  | some kem => scanCore kem ivk.tag entries
  | none => []

lemma scanAt_eq_scanCore {keys : WalletKeys} {epoch : ℕ} {kem : NoteKem H}
    (hkem : keys.kemAt epoch = some kem) (entries : List (ℕ × H × List UInt8)) :
    scanAt keys epoch entries = scanCore kem keys.ownerTag entries := by
  have hfrom : NoteKem.fromMaster (H := H) keys.master (epochKemTag epoch) = some kem := hkem
  refine List.filterMap_congr fun ⟨leafIndex, commitment, ct⟩ _ => ?_
  simp only [scanEntry, scanCoreEntry, NoteCrypto.decapsulate, NoteCrypto.noteKey,
    NoteCrypto.openSealed, hfrom, Option.bind_some]
  rfl

/-- The viewing key of an epoch sees what the wallet sees there. -/
lemma scanWithIvk_ivk (keys : WalletKeys) (epoch : ℕ) (entries : List (ℕ × H × List UInt8)) :
    scanWithIvk (keys.ivk epoch) entries = scanAt keys epoch entries := by
  obtain ⟨kem, hkem⟩ := keys.exists_kemAt (H := H) epoch
  have hseed : NoteKem.fromSeedBytes (keys.ivk (H := H) epoch).kemSeed = some kem := hkem
  rw [scanAt_eq_scanCore hkem, scanWithIvk, hseed]
  rfl

/-- An entry whose commitment is that of a sealed note is found, whoever the sender is. -/
lemma scanEntry_sealed {keys : WalletKeys} {epoch : ℕ} (leafIndex : ℕ) {kem : NoteKem H}
    (hkem : keys.kemAt epoch = some kem) {note : Note H} (howner : note.owner = keys.ownerTag)
    (hvalue : note.value ≤ u64Max) (hrho : ReadsBack note.rho) (hrcm : ReadsBack note.rcm)
    {ct ss memo : List UInt8} (hlong : ¬ ct.length < CT_LEN + TAG_LEN)
    (hss : kem.decapsulate (ct.take CT_LEN) = some ss)
    (hopen : noteencOpen (noteKey ss (commitNote note)) (commitNote note) (ct.drop CT_LEN) =
      some (encodeNotePt note.value note.rho note.rcm memo)) :
    scanEntry keys epoch (leafIndex, commitNote note, ct) =
      some ⟨note, commitNote note, leafIndex, memo⟩ := by
  have hfrom : NoteKem.fromMaster (H := H) keys.master (epochKemTag epoch) = some kem := hkem
  have hshared : NoteCrypto.decapsulate (H := H) keys.master epoch (ct.take CT_LEN) = some ss := by
    simp only [NoteCrypto.decapsulate, hfrom, Option.bind_some]
    exact hss
  obtain ⟨value, owner, rho, rcm⟩ := note
  obtain rfl : owner = keys.ownerTag := howner
  exact scanEntry_eq_some ss hlong hshared hopen (decodeNotePt_encodeNotePt hvalue hrho hrcm memo)
    rfl

/-- With binding commitments, an entry that commits to somebody else's note is never found. -/
lemma scanEntry_foreign {note : Note H} (hvalue : note.value ≤ u64Max)
    (hcommit : ∀ n n' : Note H, n.value ≤ u64Max → n'.value ≤ u64Max →
      commitNote n = commitNote n' → n = n')
    {keys : WalletKeys} (howner : note.owner ≠ keys.ownerTag) (epoch leafIndex : ℕ)
    (ct : List UInt8) :
    scanEntry keys epoch (leafIndex, commitNote note, ct) = none := by
  rw [Option.eq_none_iff_forall_ne_some]
  intro d hd
  simp only [scanEntry, Option.bind_eq_bind] at hd
  split_ifs at hd with hshort
  simp only [Option.bind_eq_some_iff] at hd
  obtain ⟨shared, -, pt, -, ⟨value, rho, rcm, memo⟩, hpt, hnote⟩ := hd
  split_ifs at hnote with hcm
  apply howner
  have hbound : value ≤ u64Max := decodeNotePt_value_le hpt
  rw [← hcommit _ _ hbound hvalue (not_not.mp hcm)]

/-- Seal and scan are inverse. -/
theorem seal_scan_inverse (laws : StealthLaws H)
    (hcommit : ∀ n n' : Note H, n.value ≤ u64Max → n'.value ≤ u64Max →
      commitNote n = commitNote n' → n = n')
    (keys : WalletKeys) (epoch : ℕ) :
    (∃ dest : Address H, keys.addressAt epoch = some dest ∧ dest.tag = keys.ownerTag ∧
      (∀ (note : Note H) (memo coin : List UInt8), note.owner = dest.tag → note.value ≤ u64Max →
        ReadsBack note.rho → ReadsBack note.rcm → coin.length = 32 →
        ∃ ct key, sealNote note dest coin memo = some (ct, key) ∧ ∀ leafIndex pre post,
          scanAt keys epoch (pre ++ (leafIndex, commitNote note, ct) :: post) =
            scanAt keys epoch pre ++
              ⟨note, commitNote note, leafIndex, memo⟩ :: scanAt keys epoch post) ∧
      (∀ (value : ℕ) (coin entropy memo : List UInt8), value ≤ u64Max → coin.length = 32 →
        ∃ out, buildOutput dest value coin entropy memo = some out ∧ out.note.value = value ∧
          out.note.owner = dest.tag ∧ ∀ leafIndex pre post,
            scanAt keys epoch (pre ++ (leafIndex, out.commitment, out.stealthCt) :: post) =
              scanAt keys epoch pre ++
                ⟨out.note, out.commitment, leafIndex, memo⟩ :: scanAt keys epoch post)) ∧
    (∀ (entries : List (ℕ × H × List UInt8)), ∀ d ∈ scanAt keys epoch entries,
      commitNote d.note = d.commitment ∧
      ∃ ct, (d.leafIndex, d.commitment, ct) ∈ entries) ∧
    (∀ (note : Note H) (ct : List UInt8), note.value ≤ u64Max → note.owner ≠ keys.ownerTag →
      ∀ leafIndex pre post, scanAt keys epoch (pre ++ (leafIndex, commitNote note, ct) :: post) =
        scanAt keys epoch pre ++ scanAt keys epoch post) ∧
    ∀ entries : List (ℕ × H × List UInt8),
      scanWithIvk (keys.ivk epoch) entries = scanAt keys epoch entries := by
  obtain ⟨kem, hkem⟩ := keys.exists_kemAt (H := H) epoch
  have haddr : keys.addressAt (H := H) epoch = some ⟨keys.ownerTag, kem.pubBytes⟩ := by
    rw [WalletKeys.addressAt, hkem]
    rfl
  let dest : Address H := ⟨keys.ownerTag, kem.pubBytes⟩
  have hsealed : ∀ (note : Note H) (memo coin : List UInt8), note.owner = dest.tag →
      note.value ≤ u64Max → ReadsBack note.rho → ReadsBack note.rcm → coin.length = 32 →
      ∃ ct key, sealNote note dest coin memo = some (ct, key) ∧ ∀ leafIndex pre post,
        scanAt keys epoch (pre ++ (leafIndex, commitNote note, ct) :: post) =
          scanAt keys epoch pre ++
            ⟨note, commitNote note, leafIndex, memo⟩ :: scanAt keys epoch post := by
    intro note memo coin howner hvalue hrho hrcm hcoin
    obtain ⟨ct, ss, hseal, hlong, hss, hopen⟩ := laws.sealNote_eq kem hcoin note dest rfl memo
    refine ⟨ct, _, hseal, fun leafIndex pre post => ?_⟩
    have hfound := scanEntry_sealed leafIndex hkem howner hvalue hrho hrcm hlong hss hopen
    simp [scanAt, hfound]
  refine ⟨⟨dest, haddr, rfl, hsealed, ?_⟩, ?_, ?_, scanWithIvk_ivk keys epoch⟩
  · intro value coin entropy memo hvalue hcoin
    let note : Note H :=
      { value := value, owner := dest.tag
        rho := shake256_32 DOM_WALLET_RHO [[.bytes entropy], [.bytes [111, 117, 116]]]
        rcm := shake256_32 DOM_WALLET_RCM [[.bytes entropy], [.bytes [111, 117, 116]]] }
    obtain ⟨ct, key, hseal, hfound⟩ := hsealed note memo coin rfl hvalue
      (laws.readsBack_shake _ _ _) (laws.readsBack_shake _ _ _) hcoin
    have hbuild : buildOutput dest value coin entropy memo =
        (sealNote note dest coin memo).bind fun p => some ⟨note, commitNote note, p.1, p.2⟩ := rfl
    exact ⟨⟨note, commitNote note, ct,
      key⟩, by rw [hbuild, hseal, Option.bind_some], rfl, rfl, hfound⟩
  · intro entries d hd
    obtain ⟨-, hcm, hmem⟩ := discovered_spec hd
    exact ⟨hcm, hmem⟩
  · intro note ct hvalue howner leafIndex pre post
    have hnone := scanEntry_foreign hvalue hcommit howner epoch leafIndex ct
    simp [scanAt, hnone]

end ScanCore

namespace Concrete

/-- The digests of the injective code, with an encryption of notes. -/
def Parcel : Type := ℕ
  deriving DecidableEq

instance : HashSuite Parcel := inferInstanceAs (HashSuite ℕ)

/-- The digest of a number. -/
def Parcel.ofNat (n : ℕ) : Parcel := n

/-- The number of a digest. -/
def Parcel.toNat (h : Parcel) : ℕ := h

/-- The coin, covered with a key byte and filled up to the length of a ciphertext. -/
def coverCoin (k : UInt8) (coin : List UInt8) : List UInt8 :=
  coin.map (k ^^^ ·) ++ List.replicate (CT_LEN - 32) 0

/-- Uncover the coin in a ciphertext. -/
def uncoverCoin (k : UInt8) (ct : List UInt8) : List UInt8 := (ct.take 32).map (k ^^^ ·)

lemma uncoverCoin_coverCoin (k : UInt8) {coin : List UInt8} (hcoin : coin.length = 32) :
    uncoverCoin k (coverCoin k coin) = coin := by
  have hlen : (coin.map (k ^^^ ·)).length = 32 := by rw [List.length_map, hcoin]
  rw [uncoverCoin, coverCoin, List.take_left' hlen, List.map_map]
  conv_rhs => rw [← List.map_id coin]
  refine List.map_congr_left fun b _ => ?_
  simp

/-- A key encapsulation whose key is one byte, the first of the seed. -/
instance : StealthSuite Parcel where
  DecapKey := UInt8
  fromSeed seed := seed.headD 0
  encapsulationKey k := List.replicate EK_LEN k
  decapsulateCt := uncoverCoin
  encapsulateDeterministic ek coin := some (coverCoin (ek.headD 0) coin, coin)
  shakeStream domain parts i :=
    UInt8.ofNat ((shake256_32 domain parts : Parcel).toNat / 256 ^ i)
  encStream key nonce i := UInt8.ofNat (key.toNat + nonce.toNat + i)
  ofBytes bs := .ofNat (ofLeBytes bs)

lemma parcel_domainSeparated : DomainSeparated Parcel := domainSeparated

lemma parcel_readsBack {h : Parcel} (hwide : h.toNat < 256 ^ 32) : ReadsBack h := by
  have hdigits : ofLeDigits (leDigits 32 h.toNat) = h.toNat := ofLeDigits_leDigits hwide
  exact hdigits

/-- A hash of at least one part ends with a round of the mixing hash. -/
lemma parcel_shake_lt (domain : String) (part : List (Piece Parcel))
    (parts : List (List (Piece Parcel))) :
    (shake256_32 domain (part :: parts) : Parcel).toNat < 256 ^ 32 := by
  have hround : ∀ acc x : ℕ, mixRound acc x < 2 ^ 61 := fun acc x => Nat.mod_lt _ (by norm_num)
  have hpieces : ∀ (xs : List ℕ) (acc : ℕ), acc < 2 ^ 61 → xs.foldl mixRound acc < 2 ^ 61 := by
    intro xs
    induction xs with
    | nil => exact fun acc h => h
    | cons x xs ih =>
      intro acc _
      rw [List.foldl_cons]
      exact ih _ (hround acc x)
  have hparts : ∀ (ps : List (List (Piece ℕ))) (acc : ℕ), acc < 2 ^ 61 →
      ps.foldl (fun acc p => (p.flatMap pieceCode).foldl mixRound (mixRound acc p.length)) acc <
        2 ^ 61 := by
    intro ps
    induction ps with
    | nil => exact fun acc h => h
    | cons p ps ih =>
      intro acc _
      rw [List.foldl_cons]
      exact ih _ (hpieces _ _ (hround acc p.length))
  have hlt := hparts parts _ (hpieces (part.flatMap pieceCode) _ (hround domain.length part.length))
  exact hlt.trans (by norm_num)

lemma parcel_stealthLaws : StealthLaws Parcel where
  length_public kem := List.length_replicate
  decapsulate_encapsulate kem coin hcoin := by
    refine ⟨_, _, rfl, ?_, uncoverCoin_coverCoin _ hcoin⟩
    rw [coverCoin, List.length_append, List.length_map, hcoin, List.length_replicate]
    rfl
  readsBack_shake domain part parts := parcel_readsBack (parcel_shake_lt domain part parts)

/-- An output of five units to the receiver's address of epoch three is found there, and its viewing
key finds it too. -/
theorem sealed_output_found : ∃ dest : Address Parcel, receiver.addressAt 3 = some dest ∧
    ∃ out, buildOutput dest 5 (List.replicate 32 7) [1, 2, 3] [104, 105] = some out ∧
      out.note.value = 5 ∧
      scanAt receiver 3 [(4, out.commitment, out.stealthCt)] =
        [⟨out.note, out.commitment, 4, [104, 105]⟩] ∧
      scanWithIvk (receiver.ivk 3) [(4, out.commitment, out.stealthCt)] =
        [⟨out.note, out.commitment, 4, [104, 105]⟩] := by
  obtain ⟨⟨dest, hdest, -, -, houtput⟩, -, -, hivk⟩ :=
    seal_scan_inverse parcel_stealthLaws parcel_domainSeparated.commit receiver 3
  obtain ⟨out, hout, hvalue, -, hfound⟩ :=
    houtput 5 (List.replicate 32 7) [1, 2, 3] [104, 105] (by decide) List.length_replicate
  have hscan := hfound 4 [] []
  rw [List.nil_append] at hscan
  exact ⟨dest, hdest, out, hout, hvalue, hscan, (hivk _).trans hscan⟩

end Concrete

end HashKinetics
