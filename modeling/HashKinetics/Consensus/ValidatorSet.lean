import HashKinetics.Primitives

/-!
# Validators

The validator set that consensus votes with.  A validator is identified by its permanent SLH-DSA
root key; the operational key it votes with is rotated under that root, and the address derived from
its first operational key stays.  A set is never empty and always ordered by voting power, then by
address, so both facts are part of its type.
-/

namespace HashKinetics

open Foundations

/-- The domain of validator addresses. -/
def DOM_VALIDATOR_ADDR : String := "hk/v1/validator-address"

/-- The length of a root public key in bytes. -/
def ROOT_PK_LEN : ℕ := 48

/-- The length of a root signature in bytes. -/
def ROOT_SIG_LEN : ℕ := 16224

/-- The stateless signature scheme of the validators' roots. -/
class RootScheme where
  Secret : Type
  publicBytes : Secret → List UInt8
  sign : Secret → List UInt8 → List UInt8
  /-- Whether the last argument is a signature of the second under the first. -/
  rootVerify : List UInt8 → List UInt8 → List UInt8 → Bool

export RootScheme (rootVerify)

/-- Bytes with their length in front. -/
def putBytes (b : List UInt8) : List UInt8 := leBytes b.length ++ b

/-! ## Addresses and validators -/

/-- A twenty-byte validator address, the start of a digest, as a big-endian number. -/
structure HkAddress (H : Type) where
  value : ℕ

instance {H : Type} : DecidableEq (HkAddress H) := fun a b =>
  decidable_of_iff (a.value = b.value) ⟨congrArg HkAddress.mk, congrArg HkAddress.value⟩

/-- The address of a first operational key: the first twenty bytes of its digest. -/
def HkAddress.fromPublicKey {H : Type} [HashSuite H] (publicKey : List UInt8) : HkAddress H :=
  let hash : H := shake256_32 DOM_VALIDATOR_ADDR [[.bytes publicKey]]
  ⟨(List.range 20).foldl (fun acc i => acc * 256 + (byteAt hash i).toNat) 0⟩

/-- A seat: its address, its root, its operational key, its power and its epoch. -/
structure HkValidator (H : Type) where
  address : HkAddress H
  /-- The permanent root identity, fixed for life. -/
  rootPk : List UInt8
  /-- The operational key, swapped when a rotation is applied. -/
  publicKey : List UInt8
  /-- The last accepted rotation epoch; zero is the first operational key. -/
  epoch : ℕ
  votingPower : ℕ
  deriving DecidableEq

namespace HkValidator

variable {H : Type}

/-- A validator with its first operational key. -/
def new [HashSuite H] (rootPk publicKey : List UInt8) (votingPower : ℕ) : HkValidator H where
  address := .fromPublicKey publicKey
  rootPk := rootPk
  publicKey := publicKey
  epoch := 0
  votingPower := votingPower

/-- The order of a set: voting power descending, then address ascending. -/
def Before (a b : HkValidator H) : Prop :=
  b.votingPower < a.votingPower ∨
    a.votingPower = b.votingPower ∧ a.address.value ≤ b.address.value

instance : DecidableRel (Before (H := H)) := fun a b =>
  inferInstanceAs (Decidable (b.votingPower < a.votingPower ∨
    a.votingPower = b.votingPower ∧ a.address.value ≤ b.address.value))

instance : Std.Total (Before (H := H)) where
  total a b := by
    unfold Before
    omega

instance : IsTrans (HkValidator H) Before where
  trans a b c := by
    unfold Before
    omega

/-- The order looks at address and power only. -/
lemma Before.congr {a b a' b' : HkValidator H} (h : Before a b)
    (ha : a'.address = a.address ∧ a'.votingPower = a.votingPower)
    (hb : b'.address = b.address ∧ b'.votingPower = b.votingPower) : Before a' b' := by
  unfold Before at h ⊢
  rwa [ha.1, ha.2, hb.1, hb.2]

end HkValidator

/-! ## Validator sets -/

/-- A validator set: at least one seat, in the order of the protocol. -/
structure HkValidatorSet (H : Type) where
  validators : List (HkValidator H)
  ne_nil : validators ≠ []
  sorted : validators.Pairwise HkValidator.Before

namespace HkValidatorSet

variable {H : Type}

/-- A set is its list of seats. -/
@[ext] lemma ext {s t : HkValidatorSet H} (h : s.validators = t.validators) : s = t := by
  cases s
  cases t
  cases h
  rfl

instance [DecidableEq H] : DecidableEq (HkValidatorSet H) := fun s t =>
  decidable_of_iff (s.validators = t.validators) ⟨ext, congrArg validators⟩

instance : Membership (HkValidator H) (HkValidatorSet H) := ⟨fun s v => v ∈ s.validators⟩

/-- A seat of the set is one of its list. -/
lemma mem_def {v : HkValidator H} {s : HkValidatorSet H} : v ∈ s ↔ v ∈ s.validators := Iff.rfl

/-- Build a set from at least one validator; the sort is stable. -/
def new (validators : List (HkValidator H)) (h : validators ≠ []) : HkValidatorSet H where
  validators := validators.insertionSort HkValidator.Before
  ne_nil hnil := h (List.Perm.nil_eq (hnil ▸ List.perm_insertionSort _ validators)).symm
  sorted := List.pairwise_insertionSort _ _

/-- Replace seats in place, keeping their addresses and powers and so their order. -/
def mapSeats (s : HkValidatorSet H) (f : HkValidator H → HkValidator H)
    (hf : ∀ v, (f v).address = v.address ∧ (f v).votingPower = v.votingPower) :
    HkValidatorSet H where
  validators := s.validators.map f
  ne_nil := by simpa using s.ne_nil
  sorted := List.pairwise_map.mpr (s.sorted.imp fun h => h.congr (hf _) (hf _))

/-- The first seat with a root identity. -/
def findRoot (s : HkValidatorSet H) (root : List UInt8) : Option (HkValidator H) :=
  s.validators.find? fun v => v.rootPk = root

/-- The root identity holds a seat. -/
def Seated (s : HkValidatorSet H) (root : List UInt8) : Prop := ∃ v ∈ s, v.rootPk = root

instance (s : HkValidatorSet H) (root : List UInt8) : Decidable (s.Seated root) :=
  inferInstanceAs (Decidable (∃ v ∈ s.validators, v.rootPk = root))

/-- The sum of every seat's power, saturating. -/
def totalVotingPower (s : HkValidatorSet H) : ℕ :=
  s.validators.foldl (fun acc v => satAdd u64Max acc v.votingPower) 0

/-- The seats of a new set are those given. -/
@[simp] lemma mem_new {l : List (HkValidator H)} {h : l ≠ []} {v : HkValidator H} :
    v ∈ new l h ↔ v ∈ l :=
  List.mem_insertionSort _

/-- The seats of a mapped set are the images of the seats. -/
@[simp] lemma mem_mapSeats {s : HkValidatorSet H} {f : HkValidator H → HkValidator H}
    {hf : ∀ v, (f v).address = v.address ∧ (f v).votingPower = v.votingPower}
    {w : HkValidator H} : w ∈ s.mapSeats f hf ↔ ∃ v ∈ s, f v = w :=
  List.mem_map

/-- A root without a seat is not found. -/
lemma findRoot_eq_none {s : HkValidatorSet H} {root : List UInt8} :
    s.findRoot root = none ↔ ¬ s.Seated root := by
  simp [findRoot, Seated, mem_def]

/-- What is found is a seat of that root. -/
lemma mem_of_findRoot {s : HkValidatorSet H} {root : List UInt8} {v : HkValidator H}
    (h : s.findRoot root = some v) : v ∈ s ∧ v.rootPk = root :=
  ⟨List.mem_of_find?_eq_some h, by simpa using List.find?_some h⟩

end HkValidatorSet

end HashKinetics
