import HashKinetics.Foundations.OrderedMap
import HashKinetics.Foundations.FixedWidth

/-!
# Protocol primitives

The 32-byte digests, hash functions and integer widths shared by every component.  Amounts
(`u128` micro-units), times (`u64` seconds), heights and nonces are natural numbers, with the
saturating and checked operations at their widths where the protocol uses them.

Digests are an arbitrary linearly ordered type `H`: accounts, assets, mandates, channels and
commitments are all identified by values of it, as they are all `H256` in the protocol.  The two
hash functions act on structured inputs (`Piece`), so a statement may assume that one of them is
injective without contradicting the size of a digest.
-/

namespace HashKinetics

/-- The largest `u64`. -/
def u64Max : ℕ := 18446744073709551615

/-- The largest `u128`; amounts are `u128` micro-units. -/
def u128Max : ℕ := 340282366920938463463374607431768211455

/-- The type of `u128` inputs, where a result depends on their width. -/
abbrev U128 := Fin (2 ^ 128)

/-- An amount is at most the largest `u128`. -/
lemma U128.le_max (n : U128) : n.val ≤ u128Max := Nat.le_of_lt_succ n.isLt

/-- Byte strings are compared as they are. -/
instance lawfulBEq_bytes : LawfulBEq (List UInt8) := inferInstance

/-- A piece of the bytes that are fed to a hash function. -/
inductive Piece (H : Type) where
  /-- The 32 bytes of a digest. -/
  | digest (h : H)
  /-- A single byte, usually a domain tag or a kind. -/
  | byte (b : UInt8)
  /-- A little-endian `u32`. -/
  | u32 (n : ℕ)
  /-- A little-endian `u64`. -/
  | u64 (n : ℕ)
  /-- Any other bytes. -/
  | bytes (bs : List UInt8)
  deriving DecidableEq

/-- The hash functions of the protocol over a type of digests. -/
class HashSuite (H : Type) where
  /-- Domain-separated SHAKE-256; every part is length-prefixed before it is absorbed. -/
  shake256_32 : String → List (List (Piece H)) → H
  /-- SHA-256 of the concatenated parts, the hash of the spend circuit. -/
  sha : List (Piece H) → H
  /-- The digest whose 32 bytes are all equal to the given one. -/
  fill : UInt8 → H
  /-- The bytes of a digest. -/
  byteAt : H → ℕ → UInt8

export HashSuite (shake256_32 sha fill byteAt)

/-- The `u64` little-endian encoding. -/
def leBytes (n : ℕ) : List UInt8 := (List.range 8).map fun i => UInt8.ofNat (n / 256 ^ i)

/-- The number that little-endian bytes spell. -/
def ofLeBytes (bs : List UInt8) : ℕ := Nat.ofDigits 256 (bs.map UInt8.toNat)

/-- The `u64` big-endian encoding. -/
def beBytes (n : ℕ) : List UInt8 := (leBytes n).reverse

/-- The number that big-endian bytes spell. -/
def ofBeBytes (bs : List UInt8) : ℕ := ofLeBytes bs.reverse

/-- A `u64` is eight bytes. -/
@[simp] lemma length_leBytes (n : ℕ) : (leBytes n).length = 8 := by
  simp [leBytes]

/-- Most significant first, a `u64` is eight bytes too. -/
@[simp] lemma length_beBytes (n : ℕ) : (beBytes n).length = 8 := by
  simp [beBytes]

/-- A `u64` is read back from its bytes. -/
@[simp] lemma ofLeBytes_leBytes {n : ℕ} (h : n < 2 ^ 64) : ofLeBytes (leBytes n) = n :=
  Foundations.ofLeDigits_leDigits (h.trans_eq (by norm_num))

/-- Most significant first, a `u64` is read back from its bytes too. -/
@[simp] lemma ofBeBytes_beBytes {n : ℕ} (h : n < 2 ^ 64) : ofBeBytes (beBytes n) = n := by
  rw [ofBeBytes, beBytes, List.reverse_reverse, ofLeBytes_leBytes h]

/-- Two `u64` with the same bytes are equal. -/
lemma leBytes_injective {n m : ℕ} (hn : n ≤ u64Max) (hm : m ≤ u64Max) (h : leBytes n = leBytes m) :
    n = m := by
  have hlt : ∀ {k : ℕ}, k ≤ u64Max → k < 2 ^ 64 := by
    intro k hk
    simp only [u64Max] at hk
    omega
  rw [← ofLeBytes_leBytes (hlt hn), h, ofLeBytes_leBytes (hlt hm)]

/-! ## Domain tags -/

def DOM_PAYWORD_SEED : String := "hk/v1/payword-seed"
def DOM_PAYWORD_LINK : String := "hk/v1/payword-link"
def DOM_ACCOUNT_ID : String := "hk/v1/account-id"
def DOM_CHANNEL_ID : String := "hk/v1/channel-id"
def DOM_TX_MSG : String := "hk/v1/tx"
def DOM_LAMPORT_SK : String := "hk/v1/lamport-sk"
def DOM_LAMPORT_LEAF : String := "hk/v1/lamport-leaf"
def DOM_LAMPORT_PK : String := "hk/v1/lamport-pk-commit"
def DOM_AGG_COVER : String := "hk/v1/agg-cover"
def DOM_ASSET_ID : String := "hk/v1/asset-id"

end HashKinetics
