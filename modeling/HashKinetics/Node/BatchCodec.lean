import HashKinetics.Consensus.SignBytes

/-!
# The bytes of a batch

A batch without set changes is written as the older version of the format: its fields one after the
other, the parent commitment first.  A batch with set changes is written behind a magic prefix, with
the set changes as its last field.  A reader tells the two apart by the prefix alone, so it reads
back what was written as long as the parent commitment itself does not begin with the prefix.

How the fields are serialised is left to a parameter; a record is the sequence of its fields.
-/

namespace HashKinetics

open Foundations

/-- How a type is serialised, and read from the front of a list of bytes. -/
structure Bincode (α : Type) where
  serialize : α → List UInt8
  read : Decoder α UInt8

/-- What was serialised is read back, whatever follows it. -/
def Bincode.RoundTrips {α : Type} (c : Bincode α) (a : α) : Prop := Reads c.serialize c.read a

/-- What follows the value is ignored. -/
def Bincode.deserialize {α : Type} (c : Bincode α) (bytes : List UInt8) : Option α :=
  (c.read bytes).map Prod.fst

namespace Bincode

variable {α β γ : Type}

lemma RoundTrips.deserialize {c : Bincode α} {a : α} (h : c.RoundTrips a) :
    c.deserialize (c.serialize a) = some a := by
  have hread := h []
  rw [List.append_nil] at hread
  rw [Bincode.deserialize, hread]
  rfl

/-- An array of thirty-two bytes is written as it is. -/
def array32 : Bincode HkValueId := ⟨Vector.toList, valueIdDecoder⟩

lemma array32_roundTrips (a : HkValueId) : array32.RoundTrips a :=
    Reads.of_decodes decodes_valueId trivial

/-- Two fields, one after the other. -/
def pair (c : Bincode α) (d : Bincode β) : Bincode (α × β) where
  serialize p := c.serialize p.1 ++ d.serialize p.2
  read := Decoder.seq c.read fun _ => d.read

lemma RoundTrips.pair {c : Bincode α} {d : Bincode β} {a : α} {b : β} (ha : c.RoundTrips a)
    (hb : d.RoundTrips b) : (c.pair d).RoundTrips (a, b) :=
  Reads.append ha hb

/-- A record made of its fields. -/
def record (c : Bincode α) (fields : γ → α) (make : α → γ) : Bincode γ where
  serialize r := c.serialize (fields r)
  read := Decoder.image make c.read

lemma RoundTrips.record {c : Bincode α} {fields : γ → α} {make : α → γ} {r : γ}
    (h : c.RoundTrips (fields r)) (hmake : make (fields r) = r) :
    (c.record fields make).RoundTrips r := by
  have hread :
    Reads (c.record fields make).serialize (c.record fields make).read (make (fields r)) :=
    Reads.image h make (congrArg (fun r => c.serialize (fields r)) hmake)
  exact hmake ▸ hread

end Bincode

/-- How the fields of a batch after the parent commitment are serialised. -/
structure BatchFields where
  txs : Bincode (List (SignedTx HkValueId))
  rotations : Bincode (List RotationCert)
  aggProof : Bincode (List UInt8)
  setChanges : Bincode (List SetChangeCert)

def BATCH_V2_MAGIC : List UInt8 := "HK-BLK-2".toUTF8.toList

/-- The older layout of a batch: the one without set changes. -/
structure BatchV1 where
  parentAppHash : HkValueId
  txs : List (SignedTx HkValueId)
  rotations : List RotationCert
  aggProof : List UInt8

namespace BatchV1

/-- The layout of the older version. -/
def bincode (fields : BatchFields) : Bincode BatchV1 :=
  (Bincode.array32.pair (fields.txs.pair (fields.rotations.pair fields.aggProof))).record
    (fun b => (b.parentAppHash, b.txs, b.rotations, b.aggProof))
    fun (parentAppHash, txs, rotations, aggProof) => ⟨parentAppHash, txs, rotations, aggProof⟩

/-- The batch that the older layout stands for. -/
def toBatch (b : BatchV1) : Batch HkValueId where
  parentAppHash := b.parentAppHash
  txs := b.txs
  rotations := b.rotations
  aggProof := b.aggProof
  setChanges := []

/-- Every field of the batch is read back. -/
structure RoundTrips (fields : BatchFields) (b : BatchV1) : Prop where
  txs : fields.txs.RoundTrips b.txs
  rotations : fields.rotations.RoundTrips b.rotations
  aggProof : fields.aggProof.RoundTrips b.aggProof

end BatchV1

namespace Batch

/-- The layout of the current version. -/
def bincode (fields : BatchFields) : Bincode (Batch HkValueId) :=
  (Bincode.array32.pair (fields.txs.pair (fields.rotations.pair
    (fields.aggProof.pair fields.setChanges)))).record
    (fun b => (b.parentAppHash, b.txs, b.rotations, b.aggProof, b.setChanges))
    fun (parentAppHash, txs, rotations, aggProof, setChanges) =>
      { parentAppHash, txs, rotations, aggProof, setChanges }

/-- The fields that the older layout has. -/
def toV1 (b : Batch HkValueId) : BatchV1 := ⟨b.parentAppHash, b.txs, b.rotations, b.aggProof⟩

/-- The bytes of a batch: the older layout as long as there is no set change. -/
def encode (fields : BatchFields) (b : Batch HkValueId) : List UInt8 :=
  if b.setChanges.isEmpty then (BatchV1.bincode fields).serialize b.toV1
  else BATCH_V2_MAGIC ++ (bincode fields).serialize b

/-- A batch from its bytes, in the layout that their beginning tells. -/
def decode (fields : BatchFields) (bytes : List UInt8) : Option (Batch HkValueId) :=
  if bytes.isEmpty then none
  else if BATCH_V2_MAGIC <+: bytes then
    (bincode fields).deserialize (bytes.drop BATCH_V2_MAGIC.length)
  else ((BatchV1.bincode fields).deserialize bytes).map BatchV1.toBatch

/-- Every field of the batch is read back. -/
structure RoundTrips (fields : BatchFields) (b : Batch HkValueId) : Prop where
  older : b.toV1.RoundTrips fields
  setChanges : fields.setChanges.RoundTrips b.setChanges

/-- The parent commitment begins with the prefix of the current version. -/
def Ambiguous (parentAppHash : HkValueId) : Prop := BATCH_V2_MAGIC <+: parentAppHash.toList

instance (parentAppHash : HkValueId) : Decidable (Ambiguous parentAppHash) :=
  inferInstanceAs (Decidable (_ <+: _))

end Batch

section Layouts

variable {fields : BatchFields}

lemma BatchV1.RoundTrips.bincode {b : BatchV1} (h : b.RoundTrips fields) :
    (BatchV1.bincode fields).RoundTrips b :=
  Bincode.RoundTrips.record ((Bincode.array32_roundTrips _).pair
    (h.txs.pair (h.rotations.pair h.aggProof))) rfl

lemma Batch.RoundTrips.bincode {b : Batch HkValueId} (h : b.RoundTrips fields) :
    (Batch.bincode fields).RoundTrips b :=
  Bincode.RoundTrips.record ((Bincode.array32_roundTrips _).pair
    (h.older.txs.pair (h.older.rotations.pair (h.older.aggProof.pair h.setChanges)))) rfl

/-- The bytes of the older version start with the parent commitment. -/
lemma BatchV1.parentAppHash_prefix (fields : BatchFields) (b : BatchV1) :
    b.parentAppHash.toList <+: (BatchV1.bincode fields).serialize b :=
  List.prefix_append _ _

lemma length_BATCH_V2_MAGIC : BATCH_V2_MAGIC.length = 8 := by decide +kernel

/-- The bytes of the older version begin with the prefix only when the parent commitment does. -/
lemma BatchV1.not_magic_prefix {b : BatchV1} (h : ¬ Batch.Ambiguous b.parentAppHash) :
    ¬ BATCH_V2_MAGIC <+: (BatchV1.bincode fields).serialize b := by
  intro hmagic
  refine h (List.prefix_of_prefix_length_le hmagic (b.parentAppHash_prefix fields) ?_)
  rw [length_BATCH_V2_MAGIC, Vector.length_toList]
  decide

/-- A reader of today reads the bytes of the older version. -/
lemma BatchV1.decode_serialize {b : BatchV1} (h : b.RoundTrips fields)
    (hparent : ¬ Batch.Ambiguous b.parentAppHash) :
    Batch.decode fields ((BatchV1.bincode fields).serialize b) = some b.toBatch := by
  have hsome : ((BatchV1.bincode fields).serialize b).isEmpty = false := by
    have hlen := (b.parentAppHash_prefix fields).length_le
    rw [Vector.length_toList] at hlen
    rw [List.isEmpty_eq_false_iff_exists_mem]
    exact List.exists_mem_of_length_pos (by omega)
  rw [Batch.decode, hsome, if_neg Bool.false_ne_true, if_neg (BatchV1.not_magic_prefix hparent),
    h.bincode.deserialize]
  rfl

end Layouts

/-- What the encoder writes is read back; without set changes it is what the older version writes,
and all that the older version wrote is still read. -/
theorem Batch.decode_encode {fields : BatchFields} {b : Batch HkValueId} (h : b.RoundTrips fields)
    (hparent : ¬ Ambiguous b.parentAppHash) :
    decode fields (encode fields b) = some b ∧
      (b.setChanges = [] → encode fields b = (BatchV1.bincode fields).serialize b.toV1) ∧
      ∀ v : BatchV1, v.RoundTrips fields → ¬ Ambiguous v.parentAppHash →
        decode fields ((BatchV1.bincode fields).serialize v) = some v.toBatch := by
  refine ⟨?_, fun hnone => ?_, fun v hv hvparent => BatchV1.decode_serialize hv hvparent⟩
  · rw [encode]
    split_ifs with hempty
    · have hnone : b.setChanges = [] := List.isEmpty_iff.mp hempty
      rw [BatchV1.decode_serialize h.older hparent]
      obtain ⟨⟨rotations, setChanges⟩, parentAppHash, txs, aggProof⟩ := b
      subst hnone
      rfl
    · have hsome : (BATCH_V2_MAGIC ++ (bincode fields).serialize b).isEmpty = false := by
        rw [List.isEmpty_eq_false_iff_exists_mem]
        apply List.exists_mem_of_length_pos
        rw [List.length_append, length_BATCH_V2_MAGIC]
        omega
      rw [decode, hsome, if_neg Bool.false_ne_true, if_pos (List.prefix_append _ _), List.drop_left,
        h.bincode.deserialize]
  · rw [encode, hnone]
    rfl

namespace Concrete

/-- The serialisation of one value of a type, as bytes. -/
def literalBincode {α : Type} (a : α) (bytes : List UInt8) : Bincode α where
  serialize _ := bytes
  read b := if bytes <+: b then some (a, b.drop bytes.length) else none

lemma literalBincode_roundTrips {α : Type} (a : α) (bytes : List UInt8) :
    (literalBincode a bytes).RoundTrips a := by
  intro r
  simp [literalBincode]

/-- The removal of a seat, without approvals. -/
def removalCert : SetChangeCert := ⟨⟨"hk", .remove [7], 10, 20⟩, []⟩

/-- The fields of a batch with nothing but the removal: empty lists are a zero count. -/
def removalFields : BatchFields where
  txs := literalBincode [] (leBytes 0)
  rotations := literalBincode [] (leBytes 0)
  aggProof := literalBincode [] (leBytes 0)
  setChanges := literalBincode [removalCert] <|
    leBytes 1 ++ (leBytes 2 ++ "hk".toUTF8.toList) ++ ([1, 0, 0, 0] ++ leBytes 1 ++ [7]) ++
      leBytes 10 ++ leBytes 20 ++ leBytes 0

def removalBatch : Batch HkValueId where
  parentAppHash := Vector.replicate 32 0
  txs := []
  rotations := []
  aggProof := []
  setChanges := [removalCert]

theorem removalBatch_read :
    Batch.decode removalFields (Batch.encode removalFields removalBatch) = some removalBatch :=
  (Batch.decode_encode
    ⟨⟨literalBincode_roundTrips _ _, literalBincode_roundTrips _ _, literalBincode_roundTrips _ _⟩,
      literalBincode_roundTrips _ _⟩ (by decide +kernel)).1

end Concrete

end HashKinetics
