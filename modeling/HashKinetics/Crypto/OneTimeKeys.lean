import HashKinetics.Primitives

/-!
# One-time keys of accounts and channels

Lamport one-time signatures, which authenticate accounts in a self-ratcheting chain, and PayWord
hash chains, which pay through a channel.  A Lamport key or signature is the list of its 32-byte
chunks.
-/

namespace HashKinetics

variable {H : Type} [HashSuite H]

/-! ## Lamport signatures -/

namespace Lamport

/-- The chunks of a secret or public key: two for each of the 256 message bits. -/
def N_CHUNKS_SK : ℕ := 512

/-- The chunks of a signature: one for each message bit. -/
def SIG_CHUNKS : ℕ := 256

/-- Message bit `i`, big-endian within bytes, as a number. -/
def messageBit (msg : H) (i : ℕ) : ℕ :=
  ((byteAt msg (i / 8) >>> (UInt8.ofNat (7 - i % 8))) &&& 1).toNat

/-- The secret chunk `j` of the key that authorises nonce `index`. -/
def secretChunk (seed : List UInt8) (index j : ℕ) : H :=
  shake256_32 DOM_LAMPORT_SK [[.bytes seed], [.u64 index], [.u32 j]]

/-- The secret and public keys derived from a seed and an index. -/
def keygen (seed : List UInt8) (index : ℕ) : List H × List H :=
  let sk := (List.range N_CHUNKS_SK).map (secretChunk seed index)
  (sk, sk.map fun s => shake256_32 DOM_LAMPORT_LEAF [[.digest s]])

/-- The 32-byte commitment to a public key that lives in account state. -/
def pkCommit (pk : List H) : H :=
  shake256_32 DOM_LAMPORT_PK [pk.map .digest]

/-- Sign a digest: reveal one secret chunk for each message bit. -/
def sign [Inhabited H] (sk : List H) (msg : H) : List H :=
  (List.range SIG_CHUNKS).map fun i => sk[2 * i + messageBit msg i]!

/-- Each revealed chunk must hash to the public chunk its message bit selects. -/
def verify [DecidableEq H] (pk : List H) (msg : H) (sig : List H) : Bool :=
  pk.length = N_CHUNKS_SK ∧ sig.length = SIG_CHUNKS ∧
    ∀ i < SIG_CHUNKS,
      (sig[i]?.map fun c => (shake256_32 DOM_LAMPORT_LEAF [[.digest c]] : H)) =
        pk[2 * i + messageBit msg i]?

lemma messageBit_le_one (msg : H) (i : ℕ) : messageBit msg i ≤ 1 := by
  rw [messageBit, UInt8.toNat_and]
  exact Nat.and_le_right

/-- A signature made with a derived key verifies under its public key. -/
lemma verify_sign [Inhabited H] [DecidableEq H] (seed : List UInt8) (index : ℕ) (msg : H) :
    verify (keygen seed index).2 msg (sign (keygen seed index).1 msg) = true := by
  refine decide_eq_true ⟨by simp [keygen], by simp [sign], fun i hi => ?_⟩
  have hbit := messageBit_le_one msg i
  have hlt : 2 * i + messageBit msg i < N_CHUNKS_SK := by
    simp only [SIG_CHUNKS, N_CHUNKS_SK] at hi ⊢
    omega
  simp [sign, keygen, hi, hlt]

end Lamport

/-! ## PayWord chains -/

namespace Payword

/-- One link of a PayWord chain. -/
def link (w : H) : H := shake256_32 DOM_PAYWORD_LINK [[.digest w]]

/-- The chain-side settlement check: `step` links from the revealed word reach the tip. -/
def verifySettlement [DecidableEq H] (tip word : H) (step : ℕ) : Bool :=
  link^[step] word = tip

end Payword

end HashKinetics
