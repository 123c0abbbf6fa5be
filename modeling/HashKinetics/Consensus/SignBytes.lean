import HashKinetics.Foundations.Decoding
import HashKinetics.Node.Streams

/-!
# The bytes that validators sign

Set changes, rotation certificates, votes, proposals and proposal parts are signed as a domain tag,
a zero byte and their fields.  A decoder reads each of them back, so no two of them share their
bytes.  A vote extension is signed as it is, without a tag: it is confused with another message
exactly when its bytes are those of one.
-/

namespace HashKinetics

open Foundations

/-- The domain of votes. -/
def DOM_SIGN_VOTE : String := "hk/v1/consensus-vote"

/-- The domain of proposals. -/
def DOM_SIGN_PROPOSAL : String := "hk/v1/consensus-proposal"

/-- The domain of proposal parts. -/
def DOM_SIGN_PART : String := "hk/v1/consensus-proposal-part"

/-! ## What is signed -/

/-- The id of a value: thirty-two bytes. -/
abbrev HkValueId := Vector UInt8 32

/-- The two rounds of voting. -/
inductive VoteType where
  | prevote
  | precommit
  deriving DecidableEq

/-- A vote; `none` as value is a vote for nil. -/
structure HkVote where
  typ : VoteType
  height : ℕ
  round : Round
  value : Option HkValueId
  validatorAddress : HkAddress HkValueId
  /-- The signed extension: its bytes and their signature. -/
  extension : Option (List UInt8 × List UInt8)

/-- A proposal: the value, the round of its last polka, and the proposer. -/
structure HkProposal where
  height : ℕ
  round : Round
  value : HkValue HkValueId
  polRound : Round
  validatorAddress : HkAddress HkValueId

/-- The twenty bytes of an address. -/
def HkAddress.asBytes {H : Type} (a : HkAddress H) : List UInt8 := (leDigits 20 a.value).reverse

/-- The `i64` little-endian encoding of a round, in two's complement. -/
def Round.leBytes (r : Round) : List UInt8 := HashKinetics.leBytes (r.asI64 % 2 ^ 64).toNat

/-- The extension is not part of the bytes: it carries its own signature. -/
def HkVote.toSignBytes (v : HkVote) : List UInt8 :=
  DOM_SIGN_VOTE.toUTF8.toList ++ [0] ++
  [match v.typ with
    | .prevote => (0 : UInt8)
    | .precommit => 1] ++
  leBytes v.height ++ v.round.leBytes ++
  (match v.value with
    | none => [0]
    | some id => [1] ++ id.toList) ++
  v.validatorAddress.asBytes

/-- A proposal is signed with its whole value, the length of the batch before the batch. -/
def HkProposal.toSignBytes (p : HkProposal) : List UInt8 :=
  DOM_SIGN_PROPOSAL.toUTF8.toList ++ [0] ++ leBytes p.height ++ p.round.leBytes ++
  p.polRound.leBytes ++ p.value.id.toList ++ leBytes p.value.txs.length ++ p.value.txs ++
  p.validatorAddress.asBytes

/-- A part is signed with a byte for its kind; the bytes of a batch with their length before
them. -/
def HkProposalPart.toSignBytes (part : HkProposalPart HkValueId) : List UInt8 :=
  DOM_SIGN_PART.toUTF8.toList ++ [0] ++
  match part with
  | .init info =>
    [0] ++ leBytes info.height ++ info.round.leBytes ++ info.polRound.leBytes ++
      info.proposer.asBytes
  | .txBatch data => [1] ++ leBytes data.length ++ data
  | .fin valueId => [2] ++ valueId.toList

/-- A message whose bytes start with a domain tag. -/
inductive TaggedMessage where
  | setChange (body : SetChangeBody)
  | rotation (domain : RotationDomain) (chainId : String) (rootPk newOpPk : List UInt8)
      (epoch validFromHeight : ℕ)
  | vote (v : HkVote)
  | proposal (p : HkProposal)
  | part (p : HkProposalPart HkValueId)

/-- What a validator signs: a message with a tag, or the bytes of a vote extension. -/
inductive SignedMessage where
  | tagged (m : TaggedMessage)
  | voteExtension (extension : List UInt8)

namespace TaggedMessage

/-- The bytes of a message with a tag. -/
def signBytes : TaggedMessage → List UInt8
  | setChange body => body.signingBytes
  | rotation domain chainId rootPk newOpPk epoch validFromHeight =>
    RotationCert.signingBytes domain chainId rootPk newOpPk epoch validFromHeight
  | vote v => v.toSignBytes
  | proposal p => p.toSignBytes
  | part p => p.toSignBytes

/-- What of a message is signed: a vote without its extension, and a rotation of the older domain
without the chain. -/
def signedContent : TaggedMessage → TaggedMessage
  | rotation .v1 _ rootPk newOpPk epoch validFromHeight =>
    rotation .v1 "" rootPk newOpPk epoch validFromHeight
  | vote v => vote { v with extension := none }
  | m => m

end TaggedMessage

namespace SignedMessage

/-- The bytes that are signed; an extension is signed as it is. -/
def signBytes : SignedMessage → List UInt8
  | tagged m => m.signBytes
  | voteExtension extension => extension

/-- What of a message is signed; an extension is signed as a whole. -/
def signedContent : SignedMessage → SignedMessage
  | tagged m => tagged m.signedContent
  | voteExtension extension => voteExtension extension

end SignedMessage

/-! ## Values of the types of the source -/

/-- A list whose length is a `u64`. -/
def ShortList (l : List UInt8) : Prop := l.length < 2 ^ 64

/-- A string whose length in bytes is a `u64`. -/
def ShortString (s : String) : Prop := ShortList s.toUTF8.toList

/-- A round is a `u32`. -/
def Round.Fits (r : Round) : Prop := ∀ n ∈ r, n < 2 ^ 32

/-- An address is twenty bytes. -/
def HkAddress.Fits {H : Type} (a : HkAddress H) : Prop := a.value < 256 ^ 20

/-- Keys are short lists and a voting power is a `u64`. -/
def SetChange.Fits : SetChange → Prop
  | .admitSeat rootPk publicKey votingPower =>
    ShortList rootPk ∧ ShortList publicKey ∧ votingPower < 2 ^ 64
  | .remove rootPk => ShortList rootPk
  | .setPower rootPk votingPower => ShortList rootPk ∧ votingPower < 2 ^ 64

/-- The window of a set change is two `u64`. -/
def SetChangeBody.Fits (body : SetChangeBody) : Prop :=
  ShortString body.chainId ∧ body.change.Fits ∧ body.notBefore < 2 ^ 64 ∧ body.notAfter < 2 ^ 64

/-- The height of a vote is a `u64`. -/
def HkVote.Fits (v : HkVote) : Prop :=
  v.height < 2 ^ 64 ∧ v.round.Fits ∧ v.validatorAddress.Fits

/-- The height of a proposal is a `u64`, and its batch a short list. -/
def HkProposal.Fits (p : HkProposal) : Prop :=
  p.height < 2 ^ 64 ∧ p.round.Fits ∧ p.polRound.Fits ∧ ShortList p.value.txs ∧
    p.validatorAddress.Fits

/-- The numbers of a part are in the ranges of their types. -/
def HkProposalPart.Fits : HkProposalPart HkValueId → Prop
  | .init info =>
    info.height < 2 ^ 64 ∧ info.round.Fits ∧ info.polRound.Fits ∧ info.proposer.Fits
  | .txBatch data => ShortList data
  | .fin _ => True

/-- The numbers of a message are in the ranges of their types. -/
def TaggedMessage.Fits : TaggedMessage → Prop
  | setChange body => body.Fits
  | rotation _ chainId rootPk newOpPk epoch validFromHeight =>
    ShortString chainId ∧ ShortList rootPk ∧ ShortList newOpPk ∧ epoch < 2 ^ 64 ∧
      validFromHeight < 2 ^ 64
  | vote v => v.Fits
  | proposal p => p.Fits
  | part p => p.Fits

/-- The numbers of a message are in the ranges of their types, and if it is an extension then one of
those that are given. -/
def SignedMessage.From (extensions : Set (List UInt8)) : SignedMessage → Prop
  | tagged m => m.Fits
  | voteExtension extension => extension ∈ extensions

/-! ## Decoders of the fields -/

/-- Eight bytes, little-endian. -/
def u64Decoder : Decoder ℕ UInt8 := Decoder.image ofLeDigits (Decoder.exact 8)

/-- A `u64` is read back. -/
lemma decodes_u64 : Decodes (· < 2 ^ 64) leBytes u64Decoder :=
  (decodes_leDigits 8).congr (fun n => by norm_num) fun _ _ => rfl

/-- Bytes behind their length. -/
def bytesDecoder : Decoder (List UInt8) UInt8 :=
  Decoder.image Prod.snd (u64Decoder.seq Decoder.exact)

/-- A short list is read back from its length and its bytes. -/
lemma decodes_bytes : Decodes ShortList putBytes bytesDecoder := by
  have hput : ∀ p : ℕ × List UInt8, p.1 < 2 ^ 64 ∧ p.2.length = p.1 →
      putBytes p.2 = leBytes p.1 ++ id p.2 := by
    rintro ⟨n, l⟩ ⟨-, hlen⟩
    obtain rfl : l.length = n := hlen
    rfl
  refine ((decodes_u64.seq fun n _ => Decodes.exact n).image Prod.snd putBytes hput).congr
    (fun l => ?_) fun _ _ => rfl
  constructor
  · rintro ⟨⟨n, l'⟩, ⟨hn, hlen⟩, rfl⟩
    exact lt_of_eq_of_lt hlen hn
  · intro hl
    exact ⟨(l.length, l), ⟨hl, rfl⟩, rfl⟩

/-- A string is read as its bytes. -/
def stringDecoder : Decoder String UInt8 :=
  Decoder.image ofUTF8
    (Decoder.restrict (fun l => ByteArray.IsValidUTF8 ⟨l.toArray⟩) bytesDecoder)

/-- A short string is read back. -/
lemma decodes_string :
    Decodes ShortString (fun s => putBytes s.toUTF8.toList) stringDecoder := by
  have hback : ∀ l : List UInt8, ShortList l ∧ ByteArray.IsValidUTF8 ⟨l.toArray⟩ →
      putBytes (ofUTF8 l).toUTF8.toList = putBytes l := by
    rintro l ⟨-, hvalid⟩
    rw [toUTF8_ofUTF8 hvalid]
  refine (decodes_bytes.restrict.image ofUTF8 _ hback).congr (fun s => ?_) fun _ _ => rfl
  constructor
  · rintro ⟨l, ⟨hl, hvalid⟩, rfl⟩
    rw [ShortString, toUTF8_ofUTF8 hvalid]
    exact hl
  · intro hs
    obtain ⟨hvalid, hsame⟩ := ofUTF8_toUTF8 s
    exact ⟨s.toUTF8.toList, ⟨hs, hvalid⟩, hsame⟩

/-- Thirty-two bytes as a value id. -/
def toValueId (l : List UInt8) : HkValueId :=
  if h : l.length = 32 then ⟨l.toArray, by simpa using h⟩ else Vector.replicate 32 0

/-- A value id is thirty-two bytes. -/
def valueIdDecoder : Decoder HkValueId UInt8 := Decoder.image toValueId (Decoder.exact 32)

/-- A value id is read back. -/
lemma decodes_valueId : Decodes (fun _ => True) Vector.toList valueIdDecoder := by
  have hback : ∀ l : List UInt8, l.length = 32 → (toValueId l).toList = id l := by
    intro l hl
    rw [toValueId, dif_pos hl]
    rfl
  refine ((Decodes.exact 32).image toValueId _ hback).congr (fun id => ?_) fun _ _ => rfl
  refine iff_of_true ⟨id.toList, by simp, ?_⟩ trivial
  rw [toValueId, dif_pos (by simp)]
  exact Vector.toArray_inj.mp Array.toArray_toList

/-- An address is twenty bytes, most significant first. -/
def addressDecoder : Decoder (HkAddress HkValueId) UInt8 :=
  Decoder.image (fun l => ⟨ofLeDigits l.reverse⟩) (Decoder.exact 20)

/-- An address is read back. -/
lemma decodes_address : Decodes HkAddress.Fits HkAddress.asBytes addressDecoder := by
  have hback : ∀ l : List UInt8, l.length = 20 →
      (⟨ofLeDigits l.reverse⟩ : HkAddress HkValueId).asBytes = id l := by
    intro l hl
    have hdigits := leDigits_ofLeDigits l.reverse
    rw [List.length_reverse, hl] at hdigits
    rw [HkAddress.asBytes, hdigits, List.reverse_reverse]
    rfl
  refine ((Decodes.exact 20).image _ HkAddress.asBytes hback).congr (fun a => ?_) fun _ _ => rfl
  constructor
  · rintro ⟨l, hl, rfl⟩
    have hlt := ofLeDigits_lt l.reverse
    rwa [List.length_reverse, hl] at hlt
  · intro ha
    refine ⟨(leDigits 20 a.value).reverse, by simp, ?_⟩
    rw [List.reverse_reverse, ofLeDigits_leDigits ha]

/-- A number as a round; minus one is none. -/
def toRound (n : ℕ) : Round := if n = 2 ^ 64 - 1 then none else some n

/-- A round is eight bytes, of which the largest number stands for no round. -/
def roundDecoder : Decoder Round UInt8 :=
  Decoder.image toRound (Decoder.restrict (fun n => n = 2 ^ 64 - 1 ∨ n < 2 ^ 32) u64Decoder)

/-- A round is written as a `u64`: its number, or the largest one for none. -/
lemma leBytes_round {r : Round} (h : r.Fits) :
    ∃ n, (n = 2 ^ 64 - 1 ∨ n < 2 ^ 32) ∧ toRound n = r ∧ r.leBytes = leBytes n := by
  cases r with
  | none => exact ⟨2 ^ 64 - 1, .inl rfl, if_pos rfl, rfl⟩
  | some n =>
    have hn : n < 2 ^ 32 := h n rfl
    refine ⟨n, .inr hn, if_neg (by omega), ?_⟩
    have hmod : ((n : ℤ) % 2 ^ 64).toNat = n := by omega
    exact congrArg leBytes hmod

/-- A round is read back. -/
lemma decodes_round : Decodes Round.Fits Round.leBytes roundDecoder := by
  have hfits : ∀ n, n = 2 ^ 64 - 1 ∨ n < 2 ^ 32 → (toRound n).Fits := by
    rintro n (rfl | hn) m hm
    · simp [toRound] at hm
    · rw [toRound, if_neg (by omega)] at hm
      obtain rfl := Option.some.inj hm
      exact hn
  have hback : ∀ n, n < 2 ^ 64 ∧ (n = 2 ^ 64 - 1 ∨ n < 2 ^ 32) →
      (toRound n).leBytes = leBytes n := by
    rintro n ⟨-, rfl | hn⟩
    · rfl
    · rw [toRound, if_neg (by omega)]
      have hmod : ((n : ℤ) % 2 ^ 64).toNat = n := by omega
      exact congrArg leBytes hmod
  refine (decodes_u64.restrict.image toRound Round.leBytes hback).congr (fun r => ?_) fun _ _ => rfl
  constructor
  · rintro ⟨n, ⟨-, hn⟩, rfl⟩
    exact hfits n hn
  · intro hr
    obtain ⟨n, hn, hround, -⟩ := leBytes_round hr
    exact ⟨n, ⟨by omega, hn⟩, hround⟩

/-- A byte for the kind of a vote. -/
def voteTypeDecoder : Decoder VoteType UInt8 :=
  Decoder.image (fun l => if l = [0] then .prevote else .precommit)
    (Decoder.restrict (fun l => l = [0] ∨ l = [1]) (Decoder.exact 1))

/-- The byte of a vote type. -/
def VoteType.byte : VoteType → UInt8
  | prevote => 0
  | precommit => 1

/-- The kind of a vote is read back. -/
lemma decodes_voteType : Decodes (fun _ => True)
    (fun t : VoteType => [t.byte]) voteTypeDecoder := by
  have hback : ∀ l : List UInt8, l.length = 1 ∧ (l = [0] ∨ l = [1]) →
      [(if l = [0] then VoteType.prevote else .precommit).byte] = id l := by
    rintro l ⟨-, rfl | rfl⟩ <;> rfl
  refine ((Decodes.exact 1).restrict.image _ _ hback).congr (fun t => ?_) fun _ _ => rfl
  refine iff_of_true ?_ trivial
  cases t with
  | prevote => exact ⟨[0], by simp, rfl⟩
  | precommit => exact ⟨[1], by simp, rfl⟩

/-- The bytes of the value of a vote. -/
def voteValueBytes : Option HkValueId → List UInt8
  | none => [0]
  | some id => [1] ++ id.toList

/-- A byte that says whether an id follows. -/
def voteValueDecoder : Decoder (Option HkValueId) UInt8 :=
  Decoder.orElse (Decoder.image (fun _ : List UInt8 => none) (Decoder.lit [0] (Decoder.exact 0)))
    (Decoder.image some (Decoder.lit [1] valueIdDecoder))

/-- The value of a vote is read back. -/
lemma decodes_voteValue : Decodes (fun _ => True) voteValueBytes voteValueDecoder := by
  have hnil := Format.tagged (Decodes.exact 0) [0] (fun _ => none) voteValueBytes (by
    intro l hl
    rw [List.eq_nil_of_length_eq_zero hl]
    rfl)
  have hval := Format.tagged decodes_valueId [1] some voteValueBytes fun _ _ => rfl
  refine (hnil.or hval (by decide)).decodes.congr (fun v => iff_of_true ?_ trivial) fun _ _ => rfl
  cases v with
  | none => exact .inl ⟨[], rfl, rfl⟩
  | some id => exact .inr ⟨id, trivial, rfl⟩

/-- The bytes of what changes. -/
def SetChange.bytes : SetChange → List UInt8
  | .admitSeat rootPk publicKey votingPower =>
    [1] ++ putBytes rootPk ++ putBytes publicKey ++ leBytes votingPower
  | .remove rootPk => [2] ++ putBytes rootPk
  | .setPower rootPk votingPower => [3] ++ putBytes rootPk ++ leBytes votingPower

/-- A byte for the kind of a change, then its fields. -/
def setChangeDecoder : Decoder SetChange UInt8 :=
  Decoder.orElse
    (Decoder.image (fun p : List UInt8 × List UInt8 × ℕ => .admitSeat p.1 p.2.1 p.2.2)
      (Decoder.lit [1] (bytesDecoder.seq fun _ => bytesDecoder.seq fun _ => u64Decoder)))
    (Decoder.orElse (Decoder.image .remove (Decoder.lit [2] bytesDecoder))
      (Decoder.image (fun p : List UInt8 × ℕ => .setPower p.1 p.2)
        (Decoder.lit [3] (bytesDecoder.seq fun _ => u64Decoder))))

/-- A change of the set is read back. -/
lemma decodes_setChange : Decodes SetChange.Fits SetChange.bytes setChangeDecoder := by
  have hadmission := Format.tagged (decodes_bytes.append (decodes_bytes.append decodes_u64)) [1]
    (fun p => .admitSeat p.1 p.2.1 p.2.2) SetChange.bytes fun p _ => by simp [SetChange.bytes]
  have hremove := Format.tagged decodes_bytes [2] .remove SetChange.bytes fun p _ => by
    simp [SetChange.bytes]
  have hpower := Format.tagged (decodes_bytes.append decodes_u64) [3] (fun p => .setPower p.1 p.2)
    SetChange.bytes fun p _ => by simp [SetChange.bytes]
  refine (hadmission.or (hremove.or hpower (by decide)) (by decide)).decodes.congr (fun c => ?_)
    fun _ _ => rfl
  cases c with
  | admitSeat rootPk publicKey votingPower => simp [SetChange.Fits]
  | remove rootPk => simp [SetChange.Fits]
  | setPower rootPk votingPower => simp [SetChange.Fits]

/-! ## Decoders of the messages -/

/-- A domain tag and the zero byte behind it. -/
def tag (domain : String) : List UInt8 := domain.toUTF8.toList ++ [0]

/-- The fields of a set change after its tag. -/
def setChangeBodyDecoder : Decoder TaggedMessage UInt8 :=
  Decoder.image (fun p : String × SetChange × ℕ × ℕ => .setChange ⟨p.1, p.2.1, p.2.2.1, p.2.2.2⟩)
    (Decoder.lit (tag DOM_SET_CHANGE)
      (stringDecoder.seq fun _ => setChangeDecoder.seq fun _ => u64Decoder.seq fun _ => u64Decoder))

/-- The fields of a rotation of the older domain after its tag. -/
def rotationV1Decoder : Decoder TaggedMessage UInt8 :=
  Decoder.image (fun p : List UInt8 × List UInt8 × ℕ × ℕ =>
      .rotation .v1 "" p.1 p.2.1 p.2.2.1 p.2.2.2)
    (Decoder.lit (tag DOM_ROTATION_V1)
      (bytesDecoder.seq fun _ => bytesDecoder.seq fun _ => u64Decoder.seq fun _ => u64Decoder))

/-- The fields of a rotation of the newer domain after its tag, the chain among them. -/
def rotationV2Decoder : Decoder TaggedMessage UInt8 :=
  Decoder.image (fun p : String × List UInt8 × List UInt8 × ℕ × ℕ =>
      .rotation .v2 p.1 p.2.1 p.2.2.1 p.2.2.2.1 p.2.2.2.2)
    (Decoder.lit (tag DOM_ROTATION_V2)
      (stringDecoder.seq fun _ => bytesDecoder.seq fun _ => bytesDecoder.seq fun _ =>
        u64Decoder.seq fun _ => u64Decoder))

/-- The fields of a vote after its tag. -/
def voteDecoder : Decoder TaggedMessage UInt8 :=
  Decoder.image (fun p : VoteType × ℕ × Round × Option HkValueId × HkAddress HkValueId =>
      .vote ⟨p.1, p.2.1, p.2.2.1, p.2.2.2.1, p.2.2.2.2, none⟩)
    (Decoder.lit (tag DOM_SIGN_VOTE)
      (voteTypeDecoder.seq fun _ => u64Decoder.seq fun _ => roundDecoder.seq fun _ =>
        voteValueDecoder.seq fun _ => addressDecoder))

/-- The fields of a proposal after its tag. -/
def proposalDecoder : Decoder TaggedMessage UInt8 :=
  Decoder.image (fun p : ℕ × Round × Round × HkValueId × List UInt8 × HkAddress HkValueId =>
      .proposal ⟨p.1, p.2.1, ⟨p.2.2.2.1, p.2.2.2.2.1⟩, p.2.2.1, p.2.2.2.2.2⟩)
    (Decoder.lit (tag DOM_SIGN_PROPOSAL)
      (u64Decoder.seq fun _ => roundDecoder.seq fun _ => roundDecoder.seq fun _ =>
        valueIdDecoder.seq fun _ => bytesDecoder.seq fun _ => addressDecoder))

/-- The fields of an opening part after its tag and kind. -/
def initDecoder : Decoder TaggedMessage UInt8 :=
  Decoder.image (fun p : ℕ × Round × Round × HkAddress HkValueId =>
      .part (.init ⟨p.1, p.2.1, p.2.2.1, p.2.2.2⟩))
    (Decoder.lit (tag DOM_SIGN_PART ++ [0])
      (u64Decoder.seq fun _ => roundDecoder.seq fun _ => roundDecoder.seq fun _ => addressDecoder))

/-- The batch of a part after its tag and kind. -/
def txBatchDecoder : Decoder TaggedMessage UInt8 :=
  Decoder.image (fun data => .part (.txBatch data))
    (Decoder.lit (tag DOM_SIGN_PART ++ [1]) bytesDecoder)

/-- The value id of a closing part after its tag and kind. -/
def finDecoder : Decoder TaggedMessage UInt8 :=
  Decoder.image (fun valueId => .part (.fin valueId))
    (Decoder.lit (tag DOM_SIGN_PART ++ [2]) valueIdDecoder)

/-- The decoder that the tag, and the kind of a part, choose. -/
def taggedDecoder : Decoder TaggedMessage UInt8 :=
  setChangeBodyDecoder.orElse <| rotationV1Decoder.orElse <| rotationV2Decoder.orElse <|
    voteDecoder.orElse <| proposalDecoder.orElse <| initDecoder.orElse <|
      txBatchDecoder.orElse finDecoder

/-- The message that the bytes are the sign bytes of, if any. -/
def parseTagged (bytes : List UInt8) : Option TaggedMessage :=
  match taggedDecoder bytes with
  | some (m, []) => some m
  | _ => none

/-- A set change is its tag and its fields. -/
lemma format_setChange :
    Format [tag DOM_SET_CHANGE] (fun m => ∃ p : String × SetChange × ℕ × ℕ,
        (ShortString p.1 ∧ p.2.1.Fits ∧ p.2.2.1 < 2 ^ 64 ∧ p.2.2.2 < 2 ^ 64) ∧
          .setChange ⟨p.1, p.2.1, p.2.2.1, p.2.2.2⟩ = m)
      TaggedMessage.signBytes setChangeBodyDecoder := by
  refine Format.tagged (decodes_string.append (decodes_setChange.append
    (decodes_u64.append decodes_u64))) _ _ _ ?_
  rintro ⟨chainId, change, notBefore, notAfter⟩ -
  cases change <;> simp [TaggedMessage.signBytes, SetChangeBody.signingBytes, SetChange.bytes, tag]

/-- A rotation of the older domain is its tag and its fields, without the chain. -/
lemma format_rotationV1 :
    Format [tag DOM_ROTATION_V1] (fun m => ∃ p : List UInt8 × List UInt8 × ℕ × ℕ,
        (ShortList p.1 ∧ ShortList p.2.1 ∧ p.2.2.1 < 2 ^ 64 ∧ p.2.2.2 < 2 ^ 64) ∧
          .rotation .v1 "" p.1 p.2.1 p.2.2.1 p.2.2.2 = m)
      TaggedMessage.signBytes rotationV1Decoder := by
  refine Format.tagged (decodes_bytes.append (decodes_bytes.append
    (decodes_u64.append decodes_u64))) _ _ _ fun p _ => ?_
  simp [TaggedMessage.signBytes, RotationCert.signingBytes, tag]

/-- A rotation of the newer domain is its tag and its fields. -/
lemma format_rotationV2 :
    Format [tag DOM_ROTATION_V2] (fun m => ∃ p : String × List UInt8 × List UInt8 × ℕ × ℕ,
        (ShortString p.1 ∧ ShortList p.2.1 ∧ ShortList p.2.2.1 ∧ p.2.2.2.1 < 2 ^ 64 ∧
          p.2.2.2.2 < 2 ^ 64) ∧
          .rotation .v2 p.1 p.2.1 p.2.2.1 p.2.2.2.1 p.2.2.2.2 = m)
      TaggedMessage.signBytes rotationV2Decoder := by
  refine Format.tagged (decodes_string.append (decodes_bytes.append (decodes_bytes.append
    (decodes_u64.append decodes_u64)))) _ _ _ fun p _ => ?_
  simp [TaggedMessage.signBytes, RotationCert.signingBytes, tag]

/-- A vote is its tag and its fields, without the extension. -/
lemma format_vote :
    Format [tag DOM_SIGN_VOTE]
      (fun m => ∃ p : VoteType × ℕ × Round × Option HkValueId × HkAddress HkValueId,
        (True ∧ p.2.1 < 2 ^ 64 ∧ p.2.2.1.Fits ∧ True ∧ p.2.2.2.2.Fits) ∧
          .vote ⟨p.1, p.2.1, p.2.2.1, p.2.2.2.1, p.2.2.2.2, none⟩ = m)
      TaggedMessage.signBytes voteDecoder := by
  refine Format.tagged (decodes_voteType.append (decodes_u64.append (decodes_round.append
    (decodes_voteValue.append decodes_address)))) _ _ _ ?_
  rintro ⟨typ, height, round, value, address⟩ -
  cases typ <;> cases value <;>
    simp [TaggedMessage.signBytes, HkVote.toSignBytes, VoteType.byte, voteValueBytes, tag]

/-- A proposal is its tag and its fields. -/
lemma format_proposal :
    Format [tag DOM_SIGN_PROPOSAL]
      (fun m => ∃ p : ℕ × Round × Round × HkValueId × List UInt8 × HkAddress HkValueId,
        (p.1 < 2 ^ 64 ∧ p.2.1.Fits ∧ p.2.2.1.Fits ∧ True ∧ ShortList p.2.2.2.2.1 ∧
          p.2.2.2.2.2.Fits) ∧
          .proposal ⟨p.1, p.2.1, ⟨p.2.2.2.1, p.2.2.2.2.1⟩, p.2.2.1, p.2.2.2.2.2⟩ = m)
      TaggedMessage.signBytes proposalDecoder := by
  refine Format.tagged (decodes_u64.append (decodes_round.append (decodes_round.append
    (decodes_valueId.append (decodes_bytes.append decodes_address))))) _ _ _ fun p _ => ?_
  simp [TaggedMessage.signBytes, HkProposal.toSignBytes, putBytes, tag]

/-- An opening part is its tag, its kind and its fields. -/
lemma format_init :
    Format [tag DOM_SIGN_PART ++ [0]]
      (fun m => ∃ p : ℕ × Round × Round × HkAddress HkValueId,
        (p.1 < 2 ^ 64 ∧ p.2.1.Fits ∧ p.2.2.1.Fits ∧ p.2.2.2.Fits) ∧
          .part (.init ⟨p.1, p.2.1, p.2.2.1, p.2.2.2⟩) = m)
      TaggedMessage.signBytes initDecoder := by
  refine Format.tagged (decodes_u64.append (decodes_round.append (decodes_round.append
    decodes_address))) _ _ _ fun p _ => ?_
  simp [TaggedMessage.signBytes, HkProposalPart.toSignBytes, tag]

/-- A part with a batch is its tag, its kind and the batch. -/
lemma format_txBatch :
    Format [tag DOM_SIGN_PART ++ [1]] (fun m => ∃ data, ShortList data ∧ .part (.txBatch data) = m)
      TaggedMessage.signBytes txBatchDecoder := by
  refine Format.tagged decodes_bytes _ _ _ fun data _ => ?_
  simp [TaggedMessage.signBytes, HkProposalPart.toSignBytes, putBytes, tag]

/-- A closing part is its tag, its kind and the value id. -/
lemma format_fin :
    Format [tag DOM_SIGN_PART ++ [2]] (fun m => ∃ valueId, True ∧ .part (.fin valueId) = m)
      TaggedMessage.signBytes finDecoder := by
  refine Format.tagged decodes_valueId _ _ _ fun valueId _ => ?_
  simp [TaggedMessage.signBytes, HkProposalPart.toSignBytes, tag]

/-- No tag is the start of another. -/
lemma tags_apart : [tag DOM_SET_CHANGE, tag DOM_ROTATION_V1, tag DOM_ROTATION_V2, tag DOM_SIGN_VOTE,
    tag DOM_SIGN_PROPOSAL, tag DOM_SIGN_PART ++ [0], tag DOM_SIGN_PART ++ [1],
    tag DOM_SIGN_PART ++ [2]].Pairwise fun p q => ¬ p <+: q ∧ ¬ q <+: p := by
  simp only [tag, toList_eq_data]
  decide

/-- The decoder reads exactly the messages in range that carry nothing unsigned. -/
lemma decodes_tagged :
    Decodes (fun m => m.Fits ∧ m.signedContent = m) TaggedMessage.signBytes taggedDecoder := by
  have happart := tags_apart
  simp only [List.pairwise_cons] at happart
  obtain ⟨hset, hv1, hv2, hvote, hproposal, hinit, hbatch, -⟩ := happart
  have hsingle : ∀ {p : List UInt8} {qs : List (List UInt8)},
      (∀ q ∈ qs, ¬ p <+: q ∧ ¬ q <+: p) → ∀ p' ∈ [p], ∀ q ∈ qs, ¬ p' <+: q ∧ ¬ q <+: p' := by
    intro p qs h p' hp'
    rw [List.mem_singleton.mp hp']
    exact h
  refine (format_setChange.or (format_rotationV1.or (format_rotationV2.or (format_vote.or
    (format_proposal.or (format_init.or (format_txBatch.or format_fin (hsingle hbatch))
      (hsingle hinit)) (hsingle hproposal)) (hsingle hvote)) (hsingle hv2)) (hsingle hv1))
        (hsingle hset)).decodes.congr (fun m => ?_) fun _ _ => rfl
  constructor
  · rintro (⟨p, hp, rfl⟩ | ⟨p, hp, rfl⟩ | ⟨p, hp, rfl⟩ | ⟨p, hp, rfl⟩ | ⟨p, hp, rfl⟩ | ⟨p, hp,
      rfl⟩ |
      ⟨p, hp, rfl⟩ | ⟨p, hp, rfl⟩)
    · exact ⟨hp, rfl⟩
    · exact ⟨⟨by simp [ShortString, ShortList], hp⟩, rfl⟩
    · exact ⟨hp, rfl⟩
    · exact ⟨⟨hp.2.1, hp.2.2.1, hp.2.2.2.2⟩, rfl⟩
    · exact ⟨⟨hp.1, hp.2.1, hp.2.2.1, hp.2.2.2.2⟩, rfl⟩
    · exact ⟨hp, rfl⟩
    · exact ⟨hp, rfl⟩
    · exact ⟨hp, rfl⟩
  · rintro ⟨hfits, hcontent⟩
    cases m with
    | setChange body =>
      exact .inl ⟨(body.chainId, body.change, body.notBefore, body.notAfter), hfits, rfl⟩
    | rotation domain chainId rootPk newOpPk epoch validFromHeight =>
      cases domain with
      | v1 =>
        obtain rfl : "" = chainId := by simpa [TaggedMessage.signedContent] using hcontent
        exact .inr (.inl ⟨(rootPk, newOpPk, epoch, validFromHeight), hfits.2, rfl⟩)
      | v2 =>
        exact .inr (.inr (.inl ⟨(chainId, rootPk, newOpPk, epoch, validFromHeight), hfits, rfl⟩))
    | vote v =>
      obtain ⟨typ, height, round, value, address, extension⟩ := v
      obtain rfl : none = extension := by simpa [TaggedMessage.signedContent] using hcontent
      exact .inr (.inr (.inr (.inl ⟨(typ, height, round, value, address),
        ⟨trivial, hfits.1, hfits.2.1, trivial, hfits.2.2⟩, rfl⟩)))
    | proposal p =>
      obtain ⟨height, round, ⟨id, txs⟩, polRound, address⟩ := p
      exact .inr (.inr (.inr (.inr (.inl ⟨(height, round, polRound, id, txs, address),
        ⟨hfits.1, hfits.2.1, hfits.2.2.1, trivial, hfits.2.2.2⟩, rfl⟩))))
    | part p =>
      refine .inr (.inr (.inr (.inr (.inr ?_))))
      cases p with
      | init info =>
        exact .inl ⟨(info.height, info.round, info.polRound, info.proposer), hfits, rfl⟩
      | txBatch data => exact .inr (.inl ⟨data, hfits, rfl⟩)
      | fin valueId => exact .inr (.inr ⟨valueId, trivial, rfl⟩)

/-- The decoder returns exactly the signed content of the messages with these bytes. -/
lemma parseTagged_eq_some {bytes : List UInt8} {m : TaggedMessage} :
    parseTagged bytes = some m ↔ (m.Fits ∧ m.signedContent = m) ∧ bytes = m.signBytes := by
  have hread := decodes_tagged bytes m []
  rw [List.append_nil] at hread
  rw [← hread, parseTagged]
  split
  next m' hdec => simp [hdec]
  next hnone =>
    refine iff_of_false (by simp) fun hdec => hnone m hdec

/-! ## Confusion -/

namespace TaggedMessage

/-- What is signed is signed with the same bytes. -/
lemma signBytes_signedContent (m : TaggedMessage) : m.signedContent.signBytes = m.signBytes := by
  cases m with
  | rotation domain => cases domain <;> rfl
  | _ => rfl

/-- What is signed of the signed content is all of it. -/
lemma signedContent_signedContent (m : TaggedMessage) :
    m.signedContent.signedContent = m.signedContent := by
  cases m with
  | rotation domain => cases domain <;> rfl
  | _ => rfl

/-- The signed content stays in the ranges. -/
lemma Fits.signedContent {m : TaggedMessage} (h : m.Fits) : m.signedContent.Fits := by
  cases m with
  | rotation domain =>
    cases domain with
    | v1 => exact ⟨by simp [ShortString, ShortList], h.2⟩
    | v2 => exact h
  | _ => exact h

/-- The bytes of a message read back as what of it is signed. -/
lemma parseTagged_signBytes {m : TaggedMessage} (h : m.Fits) :
    parseTagged m.signBytes = some m.signedContent :=
  parseTagged_eq_some.mpr
    ⟨⟨h.signedContent, m.signedContent_signedContent⟩, m.signBytes_signedContent.symm⟩

end TaggedMessage

/-- Whatever extensions are signed: equal bytes are signed for equal contents only, among all
messages of all kinds and these extensions, if and only if no extension is itself a domain tag, a
zero byte and the fields of one of the formats. -/
theorem signBytes_unconfused (extensions : Set (List UInt8)) :
    (∀ m m' : SignedMessage, m.From extensions → m'.From extensions →
      m.signBytes = m'.signBytes → m.signedContent = m'.signedContent) ↔
    ∀ extension ∈ extensions, parseTagged extension = none := by
  constructor
  · intro hclear extension hmem
    by_contra hsome
    obtain ⟨m, hparse⟩ := Option.ne_none_iff_exists'.mp hsome
    obtain ⟨⟨hfits, -⟩, hbytes⟩ := parseTagged_eq_some.mp hparse
    have hsame := hclear (.voteExtension extension) (.tagged m) hmem hfits hbytes
    cases hsame
  · intro hnone m m' hm hm' hbytes
    have hmixed : ∀ (t : TaggedMessage) (e : List UInt8), t.Fits → e ∈ extensions →
        t.signBytes ≠ e := by
      rintro t _ ht he rfl
      have hread := TaggedMessage.parseTagged_signBytes ht
      rw [hnone _ he] at hread
      cases hread
    cases m with
    | tagged m =>
      cases m' with
      | tagged m' =>
        have hparse := TaggedMessage.parseTagged_signBytes hm
        rw [show m.signBytes = m'.signBytes from hbytes,
          TaggedMessage.parseTagged_signBytes hm'] at hparse
        exact congrArg SignedMessage.tagged (Option.some.inj hparse).symm
      | voteExtension e => exact absurd hbytes (hmixed m e hm hm')
    | voteExtension e =>
      cases m' with
      | tagged m' => exact absurd hbytes.symm (hmixed m' e hm' hm)
      | voteExtension e' => exact congrArg SignedMessage.voteExtension hbytes

/-- A precommit. -/
def precommitSeven : HkVote :=
  ⟨.precommit, 7, some 0, some (Vector.replicate 32 1), ⟨5⟩, none⟩

/-- An extension made of the bytes of a precommit is signed as that precommit. -/
theorem voteExtension_signed_as_vote :
    precommitSeven.Fits ∧
    (SignedMessage.voteExtension precommitSeven.toSignBytes).signBytes =
      (SignedMessage.tagged (.vote precommitSeven)).signBytes ∧
    (SignedMessage.voteExtension precommitSeven.toSignBytes).signedContent ≠
      (SignedMessage.tagged (.vote precommitSeven)).signedContent := by
  refine ⟨⟨by decide, ?_, by simp [precommitSeven, HkAddress.Fits]⟩, rfl, nofun⟩
  rintro n hn
  obtain rfl := Option.some.inj hn
  decide

end HashKinetics
