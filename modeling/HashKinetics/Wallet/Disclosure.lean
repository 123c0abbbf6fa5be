import HashKinetics.Wallet.Sealing

/-!
# Disclosure packages

A self-contained proof of one payment: the sealed note with the key that opens it, and the path of
its commitment in the tree of a pool.  The verifier trusts the anchor alone.  What an accepted
package discloses opens its commitment, and the commitment is a leaf of the tree; the path has one
bit for each level, so the stated position is that leaf's exactly when it fits the tree.
-/

namespace HashKinetics

open Foundations Circuit

/-- A package for the verifier of one payment. -/
structure DisclosurePackage (H : Type) where
  version : ℕ
  chainId : String
  commitment : H
  ownerTag : H
  leafIndex : ℕ
  /-- The root that the path folds to. -/
  anchor : H
  siblings : List H
  stealthCt : List UInt8
  noteKey : H

/-- What a verified package discloses. -/
structure DisclosedPayment (H : Type) where
  value : ℕ
  ownerTag : H
  rho : H
  rcm : H
  memo : List UInt8
  commitment : H
  leafIndex : ℕ
  anchor : H

/-- The note whose fields are disclosed. -/
def DisclosedPayment.note {H : Type} (d : DisclosedPayment H) : Note H :=
  ⟨d.value, d.ownerTag, d.rho, d.rcm⟩

variable {H : Type} [DecidableEq H] [HashSuite H]

/-- Assemble a package from one path; nothing when the path does not fold to the anchor. -/
def buildDisclosureWithPath (chainId : String) (commitment : H) (siblings : List H) (anchor : H)
    (leafIndex : ℕ) (ownerTag : H) (stealthCt : List UInt8) (noteKey : H) :
    Option (DisclosurePackage H) :=
  if siblings.length ≠ TREE_DEPTH ∨
      Merkle.foldPath merkleNode siblings leafIndex commitment ≠ anchor then none
  else some
    { version := 1, chainId := chainId, commitment := commitment, ownerTag := ownerTag
      leafIndex := leafIndex, anchor := anchor, siblings := siblings, stealthCt := stealthCt
      noteKey := noteKey }

/-- Assemble a package from all commitments of the pool. -/
def buildDisclosure (chainId : String) (leaves : List H) (leafIndex : ℕ) (ownerTag : H)
    (stealthCt : List UInt8) (noteKey : H) : Option (DisclosurePackage H) := do
  let commitment ← leaves[leafIndex]?
  let (siblings, anchor) ← fullTreePath leaves leafIndex
  buildDisclosureWithPath chainId commitment siblings anchor leafIndex ownerTag stealthCt noteKey

/-- A package whose path folds to the root of the leaves is built from them, and from the path
alone. -/
lemma buildDisclosure_eq (chainId : String) {leaves : List H} {leafIndex : ℕ} {commitment : H}
    (hlen : leaves.length ≤ 2 ^ TREE_DEPTH) (hleaf : leaves[leafIndex]? = some commitment)
    (ownerTag : H) (stealthCt : List UInt8) (noteKey : H) :
    ∃ p siblings root, root = Merkle.subRoot merkleNode (leafAt leaves) TREE_DEPTH 0 ∧
      fullTreePath leaves leafIndex = some (siblings, root) ∧
      buildDisclosure chainId leaves leafIndex ownerTag stealthCt noteKey = some p ∧
      buildDisclosureWithPath chainId commitment siblings root leafIndex ownerTag stealthCt
        noteKey =
        some p ∧
      siblings.length = TREE_DEPTH ∧
      Merkle.foldPath merkleNode siblings leafIndex commitment = root ∧
      p = ⟨1, chainId, commitment, ownerTag, leafIndex, root, siblings, stealthCt, noteKey⟩ := by
  obtain ⟨hidx, -⟩ := List.getElem?_eq_some_iff.mp hleaf
  have hpath := fullTreePath_eq hidx
  have hfold := Merkle.foldPath_siblings merkleNode (leafAt leaves) TREE_DEPTH 0 leafIndex
  have hstart : Merkle.subRoot merkleNode (leafAt leaves) 0 leafIndex = commitment := by
    simp [Merkle.subRoot, leafAt, hleaf]
  rw [hstart, Nat.zero_add, Nat.div_eq_of_lt (hidx.trans_le hlen)] at hfold
  have hsiblings := Merkle.length_siblings merkleNode (leafAt leaves) TREE_DEPTH 0 leafIndex
  have hwith : ∀ chainId,
    buildDisclosureWithPath chainId commitment _ _ leafIndex ownerTag stealthCt
      noteKey = some ⟨1, chainId, commitment, ownerTag, leafIndex, _, _, stealthCt, noteKey⟩ :=
    fun _ => if_neg (not_or.mpr ⟨not_not.mpr hsiblings, not_not.mpr hfold⟩)
  refine ⟨_, _, _, rfl, hpath, ?_, hwith chainId, hsiblings, hfold, rfl⟩
  simp only [buildDisclosure, hleaf, hpath, Option.bind_eq_bind, Option.bind_some]
  exact hwith chainId

variable [StealthSuite H]

/-- The key of a note, as its recipient recovers it. -/
def noteKeyAsRecipient (keys : WalletKeys) (epoch : ℕ) (commitment : H) (stealthCt : List UInt8) :
    Option H :=
  if stealthCt.length < CT_LEN then none
  else do
    let kem : NoteKem H ← keys.kemAt epoch
    let ss ← kem.decapsulate (stealthCt.take CT_LEN)
    return noteKey ss commitment

/-- Verify a package offline: the ciphertext opens under the one-time key, the decoded note commits
to the stated commitment, and the path folds to the stated anchor. -/
def verifyDisclosure (p : DisclosurePackage H) : Except String (DisclosedPayment H) :=
  let version := p.version
  if version ≠ 1 then .error s!"unsupported package version {version}"
  else if p.stealthCt.length < CT_LEN + TAG_LEN then .error "stealth_ct too short"
  else
    match noteencOpen p.noteKey p.commitment (p.stealthCt.drop CT_LEN) with
    | none => .error "AEAD rejects: wrong key or tampered ciphertext"
    | some pt =>
      match decodeNotePt pt with
      | none => .error "note plaintext malformed"
      | some (value, rho, rcm, memo) =>
        if commitNote ⟨value, p.ownerTag, rho, rcm⟩ ≠ p.commitment then
          .error "decoded note does not re-commit to the stated commitment"
        else if p.siblings.length ≠ TREE_DEPTH then .error "bad path length"
        else if Merkle.foldPath merkleNode p.siblings p.leafIndex p.commitment ≠ p.anchor then
          .error "inclusion path does not fold to the stated anchor"
        else .ok
          { value := value, ownerTag := p.ownerTag, rho := rho, rcm := rcm, memo := memo
            commitment := p.commitment, leafIndex := p.leafIndex, anchor := p.anchor }

/-- What acceptance of a package means, and what is then disclosed. -/
lemma verifyDisclosure_eq_ok_iff {p : DisclosurePackage H} {d : DisclosedPayment H} :
    verifyDisclosure p = .ok d ↔
      p.version = 1 ∧ ¬ p.stealthCt.length < CT_LEN + TAG_LEN ∧
      (∃ pt, noteencOpen p.noteKey p.commitment (p.stealthCt.drop CT_LEN) = some pt ∧
        decodeNotePt pt = some (d.value, d.rho, d.rcm, d.memo)) ∧
      commitNote d.note = p.commitment ∧ p.siblings.length = TREE_DEPTH ∧
      Merkle.foldPath merkleNode p.siblings p.leafIndex p.commitment = p.anchor ∧
      d.ownerTag = p.ownerTag ∧ d.commitment = p.commitment ∧ d.leafIndex = p.leafIndex ∧
      d.anchor = p.anchor := by
  constructor
  · intro h
    by_cases hversion : p.version = 1
    swap
    · simp [verifyDisclosure, hversion] at h
    by_cases hshort : p.stealthCt.length < CT_LEN + TAG_LEN
    · simp [verifyDisclosure, hversion, hshort] at h
    cases hopen : noteencOpen p.noteKey p.commitment (p.stealthCt.drop CT_LEN) with
    | none => simp [verifyDisclosure, hversion, hshort, hopen] at h
    | some pt =>
      cases hpt : decodeNotePt (H := H) pt with
      | none => simp [verifyDisclosure, hversion, hshort, hopen, hpt] at h
      | some fields =>
        obtain ⟨value, rho, rcm, memo⟩ := fields
        simp only [verifyDisclosure, hversion, hshort, hopen, hpt, ne_eq, not_true_eq_false,
          if_false, ite_not] at h
        split_ifs at h with hcm hlen hfold
        obtain rfl := Except.ok.inj h
        exact ⟨hversion, hshort, ⟨pt, rfl, hpt⟩, hcm, hlen, hfold, rfl, rfl, rfl, rfl⟩
  · rintro ⟨hversion, hshort, ⟨pt, hopen, hpt⟩, hcm, hlen, hfold, howner, hcommitment, hindex,
      hanchor⟩
    rw [DisclosedPayment.note, howner] at hcm
    simp only [verifyDisclosure, hversion, hshort, hopen, hpt, hcm, hlen, hfold, ne_eq,
      not_true_eq_false, if_false]
    rw [← howner, ← hcommitment, ← hindex, ← hanchor]

/-- The leaf of an accepted package, wherever its position points. -/
lemma leaf_of_verifyDisclosure (hash : DomainSeparated H) {p : DisclosurePackage H}
    {d : DisclosedPayment H} {leaves : List H}
    (hanchor : p.anchor = Merkle.subRoot merkleNode (leafAt leaves) TREE_DEPTH 0)
    (h : verifyDisclosure p = .ok d) :
    leaves[p.leafIndex % 2 ^ TREE_DEPTH]? = some p.commitment := by
  obtain ⟨-, -, -, hcm, hlen, hfold, -⟩ := verifyDisclosure_eq_ok_iff.mp h
  rw [← hcm] at hfold ⊢
  exact leaf_of_foldPath hash hlen (hfold.trans hanchor)

/-- Only the bits of the position that lie in the tree are read. -/
lemma verifyDisclosure_at {p : DisclosurePackage H} {d : DisclosedPayment H}
    (h : verifyDisclosure p = .ok d) {i : ℕ}
    (hi : i % 2 ^ TREE_DEPTH = p.leafIndex % 2 ^ TREE_DEPTH) :
    verifyDisclosure { p with leafIndex := i } = .ok { d with leafIndex := i } := by
  obtain ⟨hversion, hshort, hopen, hcm, hlen, hfold, howner, hcommitment, -, hanchor⟩ :=
    verifyDisclosure_eq_ok_iff.mp h
  have hfold' : Merkle.foldPath merkleNode p.siblings i p.commitment = p.anchor := by
    rw [← Merkle.foldPath_mod, hlen, hi, ← hlen, Merkle.foldPath_mod, hfold]
  exact verifyDisclosure_eq_ok_iff.mpr
    ⟨hversion, hshort, hopen, hcm, hlen, hfold', howner, hcommitment, rfl, hanchor⟩

omit [DecidableEq H] in
/-- What a sealed note looks like to the wallet it was sealed to. -/
lemma opened_of_sealNote (laws : StealthLaws H) {keys : WalletKeys} {epoch : ℕ} {dest : Address H}
    (hdest : keys.addressAt epoch = some dest) {note : Note H} {coin memo ct : List UInt8} {key : H}
    (hcoin : coin.length = 32) (hseal : sealNote note dest coin memo = some (ct, key)) :
    ∃ (kem : NoteKem H) (ss : List UInt8), keys.kemAt epoch = some kem ∧
      key = noteKey ss (commitNote note) ∧ ¬ ct.length < CT_LEN + TAG_LEN ∧
      kem.decapsulate (ct.take CT_LEN) = some ss ∧
      noteencOpen key (commitNote note) (ct.drop CT_LEN) =
        some (encodeNotePt note.value note.rho note.rcm memo) := by
  obtain ⟨kem, hkem⟩ := keys.exists_kemAt (H := H) epoch
  have haddr : dest = ⟨keys.ownerTag, kem.pubBytes⟩ := by
    rw [WalletKeys.addressAt, hkem] at hdest
    exact (Option.some.inj hdest).symm
  obtain ⟨ct', ss, hseal', hlong, hss, hopen⟩ :=
    laws.sealNote_eq kem hcoin note dest (by rw [haddr]) memo
  obtain ⟨rfl, rfl⟩ := Prod.mk.inj (Option.some.inj (hseal.symm.trans hseal'))
  exact ⟨kem, ss, hkem, rfl, hlong, hss, hopen⟩

omit [DecidableEq H] in
/-- The recipient recovers the key the sender kept. -/
lemma noteKeyAsRecipient_sealed (laws : StealthLaws H) {keys : WalletKeys} {epoch : ℕ}
    {dest : Address H} (hdest : keys.addressAt epoch = some dest) {note : Note H}
    {coin memo ct : List UInt8} {key : H} (hcoin : coin.length = 32)
    (hseal : sealNote note dest coin memo = some (ct, key)) :
    noteKeyAsRecipient keys epoch (commitNote note) ct = some key := by
  obtain ⟨kem, ss, hkem, rfl, hlong, hss, -⟩ := opened_of_sealNote laws hdest hcoin hseal
  have hfits : ¬ ct.length < CT_LEN := by omega
  simp only [noteKeyAsRecipient, hfits, if_false, hkem, hss, Option.bind_eq_bind, Option.bind_some]
  rfl

/-- A package for an honestly sealed note is built, and it is accepted with the fields of the
note. -/
lemma verifyDisclosure_built (laws : StealthLaws H) {keys : WalletKeys} {epoch : ℕ}
    {dest : Address H}
    (hdest : keys.addressAt epoch = some dest) {note : Note H} {coin memo ct : List UInt8} {key : H}
    (hvalue : note.value ≤ u64Max) (hrho : ReadsBack note.rho) (hrcm : ReadsBack note.rcm)
    (hcoin : coin.length = 32) (hseal : sealNote note dest coin memo = some (ct, key))
    (chainId : String) {leaves : List H} {leafIndex : ℕ} (hlen : leaves.length ≤ 2 ^ TREE_DEPTH)
    (hleaf : leaves[leafIndex]? = some (commitNote note)) :
    ∃ p siblings root, root = Merkle.subRoot merkleNode (leafAt leaves) TREE_DEPTH 0 ∧
      fullTreePath leaves leafIndex = some (siblings, root) ∧
      buildDisclosure chainId leaves leafIndex note.owner ct key = some p ∧
      buildDisclosureWithPath chainId (commitNote note) siblings root leafIndex note.owner ct key =
        some p ∧
      verifyDisclosure p =
        .ok ⟨note.value, note.owner, note.rho, note.rcm, memo, commitNote note, leafIndex,
          root⟩ := by
  obtain ⟨kem, ss, -, -, hlong, -, hopen⟩ := opened_of_sealNote laws hdest hcoin hseal
  obtain ⟨p, siblings, root, hroot, hpath, hbuild, hwith, hsiblings, hfold, rfl⟩ :=
    buildDisclosure_eq chainId hlen hleaf note.owner ct key
  refine ⟨_, siblings, root, hroot, hpath, hbuild, hwith, ?_⟩
  exact verifyDisclosure_eq_ok_iff.mpr ⟨rfl, hlong,
    ⟨_, hopen, decodeNotePt_encodeNotePt hvalue hrho hrcm memo⟩, rfl, hsiblings, hfold, rfl, rfl,
    rfl, rfl⟩

/-- What an accepted package discloses opens its commitment, which is the leaf at the stated
position exactly when that position lies in the tree.  A package for an honestly sealed note is
built from the leaves or from the path alone, with the sender's key or the recipient's, and it is
accepted. -/
theorem verifyDisclosure_exact_iff (hash : DomainSeparated H) (laws : StealthLaws H) :
    (∀ (p : DisclosurePackage H) (leaves : List H) (d : DisclosedPayment H),
      leaves.length ≤ 2 ^ TREE_DEPTH →
      p.anchor = Merkle.subRoot merkleNode (leafAt leaves) TREE_DEPTH 0 →
      verifyDisclosure p = .ok d →
      commitNote d.note = p.commitment ∧ d.commitment = p.commitment ∧ d.leafIndex = p.leafIndex ∧
        (leaves[p.leafIndex]? = some p.commitment ↔ p.leafIndex < 2 ^ TREE_DEPTH)) ∧
    ∀ (keys : WalletKeys) (epoch : ℕ) (dest : Address H), keys.addressAt epoch = some dest →
      ∀ (note : Note H) (coin memo ct : List UInt8) (key : H), note.value ≤ u64Max →
      ReadsBack note.rho → ReadsBack note.rcm → coin.length = 32 →
      sealNote note dest coin memo = some (ct, key) →
      noteKeyAsRecipient keys epoch (commitNote note) ct = some key ∧
      ∀ (chainId : String) (leaves : List H) (leafIndex : ℕ), leaves.length ≤ 2 ^ TREE_DEPTH →
      leaves[leafIndex]? = some (commitNote note) →
      ∃ p siblings root, root = Merkle.subRoot merkleNode (leafAt leaves) TREE_DEPTH 0 ∧
        fullTreePath leaves leafIndex = some (siblings, root) ∧
        buildDisclosure chainId leaves leafIndex note.owner ct key = some p ∧
        buildDisclosureWithPath chainId (commitNote note) siblings root leafIndex note.owner ct
          key =
          some p ∧
        verifyDisclosure p =
          .ok ⟨note.value, note.owner, note.rho, note.rcm, memo, commitNote note, leafIndex,
            root⟩ := by
  constructor
  · intro p leaves d hlen hanchor h
    obtain ⟨-, -, -, hcm, -, -, -, hcommitment, hindex, -⟩ := verifyDisclosure_eq_ok_iff.mp h
    refine ⟨hcm, hcommitment, hindex, fun hleaf => ?_, fun hlt => ?_⟩
    · obtain ⟨hidx, -⟩ := List.getElem?_eq_some_iff.mp hleaf
      exact hidx.trans_le hlen
    · have hleaf := leaf_of_verifyDisclosure hash hanchor h
      rwa [Nat.mod_eq_of_lt hlt] at hleaf
  · intro keys epoch dest hdest note coin memo ct key hvalue hrho hrcm hcoin hseal
    exact ⟨noteKeyAsRecipient_sealed laws hdest hcoin hseal,
      fun chainId leaves leafIndex hlen hleaf =>
        verifyDisclosure_built laws hdest hvalue hrho hrcm hcoin hseal chainId hlen hleaf⟩

namespace Concrete

/-- Five units for the receiver. -/
def parcelNote : Note Parcel := ⟨5, receiver.ownerTag, .ofNat 2, .ofNat 3⟩

lemma parcelNote_readsBack : ReadsBack parcelNote.rho ∧ ReadsBack parcelNote.rcm :=
  ⟨parcel_readsBack (by change 2 < 256 ^ 32; norm_num),
    parcel_readsBack (by change 3 < 256 ^ 32; norm_num)⟩

/-- The note is sealed to the receiver. -/
lemma parcelNote_sealed : ∃ (dest : Address Parcel) (ct : List UInt8) (key : Parcel),
    receiver.addressAt 0 = some dest ∧
      sealNote parcelNote dest (List.replicate 32 7) [104, 105] = some (ct, key) := by
  obtain ⟨kem, hkem⟩ := receiver.exists_kemAt (H := Parcel) 0
  have hdest : receiver.addressAt (H := Parcel) 0 = some ⟨receiver.ownerTag, kem.pubBytes⟩ := by
    rw [WalletKeys.addressAt, hkem]
    rfl
  have hcoin : (List.replicate 32 (7 : UInt8)).length = 32 := List.length_replicate
  obtain ⟨ct, ss, hseal, -⟩ := parcel_stealthLaws.sealNote_eq kem hcoin parcelNote
    ⟨receiver.ownerTag, kem.pubBytes⟩ rfl [104, 105]
  exact ⟨_, ct, _, hdest, hseal⟩

/-- The leaves of a pool, the note among them. -/
def parcelLeaves : List Parcel := [.ofNat 8, .ofNat 9, commitNote parcelNote, .ofNat 10]

/-- The package of the note is accepted, and its position is that of the leaf. -/
theorem parcelNote_disclosed : ∃ (p : DisclosurePackage Parcel) (d : DisclosedPayment Parcel),
    p.leafIndex = 2 ∧ verifyDisclosure p = .ok d ∧ d.note = parcelNote ∧ d.memo = [104, 105] ∧
      parcelLeaves[p.leafIndex]? = some p.commitment := by
  obtain ⟨dest, ct, key, hdest, hseal⟩ := parcelNote_sealed
  obtain ⟨hsound, hbuilt⟩ := verifyDisclosure_exact_iff parcel_domainSeparated parcel_stealthLaws
  obtain ⟨-, hbuilt⟩ := hbuilt receiver 0 dest hdest parcelNote _ _ ct key (by decide)
    parcelNote_readsBack.1 parcelNote_readsBack.2 List.length_replicate hseal
  obtain ⟨p, siblings, root, hroot, -, -, -, hok⟩ :=
    hbuilt "hk" parcelLeaves 2 (by simp [parcelLeaves, TREE_DEPTH]) rfl
  obtain ⟨-, -, -, -, -, -, -, -, hindex, hanchor⟩ := verifyDisclosure_eq_ok_iff.mp hok
  refine ⟨p, _, hindex.symm, hok, rfl, rfl, ?_⟩
  refine (hsound p parcelLeaves _ (by simp [parcelLeaves, TREE_DEPTH]) (hanchor.symm.trans hroot)
    hok).2.2.2.mpr ?_
  rw [← hindex]
  change 2 < 2 ^ TREE_DEPTH
  decide

/-- The same package with a position beyond the tree is accepted too. -/
theorem misplaced_accepted : ∃ (p : DisclosurePackage Parcel) (d : DisclosedPayment Parcel),
    p.leafIndex = 4294967296 ∧
      p.anchor = Merkle.subRoot merkleNode (leafAt [commitNote parcelNote]) TREE_DEPTH 0 ∧
      verifyDisclosure p = .ok d ∧ d.leafIndex = 4294967296 ∧
      [commitNote parcelNote][p.leafIndex]? ≠ some p.commitment := by
  have honly : [commitNote parcelNote].length ≤ 2 ^ TREE_DEPTH := by decide
  have hleaf : [commitNote parcelNote][0]? = some (commitNote parcelNote) := rfl
  obtain ⟨dest, ct, key, hdest, hseal⟩ := parcelNote_sealed
  obtain ⟨p, siblings, root, hroot, -, -, -, hok⟩ := verifyDisclosure_built parcel_stealthLaws hdest
    (by decide) parcelNote_readsBack.1 parcelNote_readsBack.2 List.length_replicate hseal "hk"
    honly hleaf
  obtain ⟨-, -, -, -, -, -, -, -, hindex, hanchor⟩ := verifyDisclosure_eq_ok_iff.mp hok
  refine ⟨{ p with leafIndex := 4294967296 }, _, rfl, hanchor.symm.trans hroot,
    verifyDisclosure_at hok ?_, rfl, ?_⟩
  · rw [← hindex]
    change 4294967296 % 2 ^ TREE_DEPTH = 0 % 2 ^ TREE_DEPTH
    decide
  · simp

end Concrete

end HashKinetics
