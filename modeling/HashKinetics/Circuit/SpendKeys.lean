import HashKinetics.Circuit.SpendTree
import HashKinetics.Foundations.Checksum
import HashKinetics.Concrete

/-!
# The spend authority in the circuit

What a wallet signs is accepted, and a signature can not be turned into one for another message:
chains can only be walked forward, and of two messages each has a chain on which it stands strictly
behind the other.
-/

namespace HashKinetics.Circuit

open Foundations

variable {H : Type} [HashSuite H]

def WOTS_CSUM_DIGITS : ℕ := 3

/-- Messages that differ in one of their thirty-two bytes. -/
def Differ (msg msg' : H) : Prop := ∃ i < 32, byteAt msg i ≠ byteAt msg' i

lemma Differ.symm {msg msg' : H} (h : Differ msg msg') : Differ msg' msg := by
  obtain ⟨i, hi, hne⟩ := h
  exact ⟨i, hi, hne.symm⟩

/-- The digits of a message are completed by three digits of their checksum. -/
lemma wotsDigits_eq (msg : H) {i : ℕ} (hi : i < WOTS_CHAINS) : wotsDigits msg i =
    withChecksum (WOTS_W - 1) WOTS_W WOTS_MSG_DIGITS WOTS_CSUM_DIGITS (messageDigit msg) i := by
  have hsum : deficit (WOTS_W - 1) WOTS_MSG_DIGITS (messageDigit msg) = checksum msg := rfl
  unfold wotsDigits withChecksum
  rw [hsum]
  by_cases hdigit : i < WOTS_MSG_DIGITS
  · rw [if_pos hdigit, if_pos hdigit]
  · rw [if_neg hdigit, if_neg hdigit]
    have hcases : i = 64 ∨ i = 65 ∨ i = 66 := by
      simp only [WOTS_CHAINS, WOTS_MSG_DIGITS] at hi hdigit
      omega
    rcases hcases with rfl | rfl | rfl <;> simp [WOTS_MSG_DIGITS, WOTS_CSUM_DIGITS, WOTS_W]

/-- Messages that differ have different digits. -/
lemma Differ.messageDigit {msg msg' : H} (h : Differ msg msg') :
    ∃ i < WOTS_MSG_DIGITS, messageDigit msg i ≠ messageDigit msg' i := by
  obtain ⟨j, hj, hne⟩ := h
  by_contra hall
  have hsame : ∀ i < 64, Circuit.messageDigit msg i = Circuit.messageDigit msg' i := by
    intro i hi
    by_contra hdiff
    exact hall ⟨i, hi, hdiff⟩
  have hhigh := hsame (2 * j) (by omega)
  have hlow := hsame (2 * j + 1) (by omega)
  have hdiv : (2 * j + 1) / 2 = j := by omega
  simp only [Circuit.messageDigit, Nat.mul_mod_right, if_true, Nat.mul_add_mod_self_left,
    Nat.one_mod, one_ne_zero, if_false, hdiv, Nat.mul_div_cancel_left j Nat.two_pos] at hhigh hlow
  exact hne (UInt8.toNat_inj.mp (by omega))

/-- The checksum has three digits. -/
lemma deficit_messageDigit_lt (msg : H) :
    deficit (WOTS_W - 1) WOTS_MSG_DIGITS (messageDigit msg) < WOTS_W ^ WOTS_CSUM_DIGITS :=
  (deficit_le _ _ _).trans_lt (by decide)

/-- On some chain the first of two messages stands strictly behind the second. -/
lemma Differ.exists_wotsDigits_lt {msg msg' : H} (h : Differ msg msg') :
    ∃ i < WOTS_CHAINS, wotsDigits msg i < wotsDigits msg' i := by
  have htop : ∀ i < WOTS_MSG_DIGITS, Circuit.messageDigit msg i ≤ WOTS_W - 1 := by
    intro i _
    exact Nat.le_pred_of_lt (messageDigit_lt msg i)
  obtain ⟨i, hi, hlt⟩ := exists_withChecksum_lt htop (deficit_messageDigit_lt msg') h.messageDigit
  refine ⟨i, hi, ?_⟩
  rw [wotsDigits_eq msg hi, wotsDigits_eq msg' hi]
  exact hlt

/-- The witness spends a note of an address with the given signature and path. -/
structure SpendWitness.Honest (w : SpendWitness H) (master : List UInt8) (h : ℕ) (msg : H)
    (sig : List H) (path : MerklePath H) : Prop where
  owner : w.inNote.owner = addressTag (spendRoot master h) w.nk
  txBinding : w.txBinding = msg
  sig : w.sig = sig
  otsPath : w.otsPath = path
  depth : w.path.siblings.length = TREE_DEPTH
  value : w.inNote.value = w.outNote.value + w.out2Note.value + w.fee
  bound : w.inNote.value ≤ u64Max

/-- The signature of a wallet is made with the seed of the key. -/
lemma sig_of_spendAuth {master : List UInt8} {h index : ℕ} {msg : H} {sig : List H}
    {path : MerklePath H} (hauth : spendAuth master h index msg = some (sig, path)) :
    sig = wotsSign (.digest (spendLeafSeed master index)) msg := by
  simp only [spendAuth, Option.bind_eq_bind, Option.bind_eq_some_iff] at hauth
  obtain ⟨siblings, -, hpair⟩ := hauth
  exact (Prod.mk.inj (Option.some.inj hpair)).1.symm

/-- For every message and every key of an address, what the wallet signs recovers to the key and
leads to the spend root, and an honest witness with it is accepted; and of two messages each stands
strictly behind the other on some chain. -/
theorem spendAuthority_sound [DecidableEq H] (master : List UInt8) {h index : ℕ}
    (hcap : h ≤ SPEND_TREE_DEPTH) (hidx : index < 2 ^ h) (msg : H) :
    (∃ sig path, spendAuth master h index msg = some (sig, path) ∧
      wotsRecoverOwner sig msg = some (wotsOwner (.digest (spendLeafSeed master index))) ∧
      Merkle.foldPath otsNode path.siblings path.index
        (wotsOwner (.digest (spendLeafSeed master index))) = spendRoot master h ∧
      ∀ w : SpendWitness H, w.Honest master h msg sig path → run w = .ok w.publics) ∧
    ∀ msg' : H, Differ msg msg' →
      (∃ i < WOTS_CHAINS, wotsDigits msg i < wotsDigits msg' i) ∧
        ∃ i < WOTS_CHAINS, wotsDigits msg' i < wotsDigits msg i := by
  refine ⟨?_, fun msg' hne => ⟨hne.exists_wotsDigits_lt, hne.symm.exists_wotsDigits_lt⟩⟩
  obtain ⟨sig, path, leaf, hauth, hlen, hrecover, hfold⟩ := spendAuth_spec master hcap hidx msg
  have hkey : leaf = wotsOwner (.digest (spendLeafSeed master index)) := by
    rw [sig_of_spendAuth hauth, wotsRecoverOwner_wotsSign] at hrecover
    exact (Option.some.inj hrecover).symm
  subst hkey
  refine ⟨sig, path, hauth, hrecover, hfold, fun w hw => ?_⟩
  refine run_eq_ok_iff.mpr ⟨hw.depth, by rw [hw.otsPath, hlen],
    ⟨wotsOwner (.digest (spendLeafSeed master index)), ?_, ?_⟩, hw.value, hw.bound, rfl⟩
  · rw [hw.sig, hw.txBinding, hrecover]
  · rw [hw.otsPath, hfold, hw.owner]

end HashKinetics.Circuit

/-- An address with four keys, its last key, and two messages. -/
theorem HashKinetics.Concrete.spendAuthority_sound_last :
    (∃ sig path, Circuit.spendAuth [7] 2 3 (1 : ℕ) = some (sig, path) ∧
      Circuit.wotsRecoverOwner sig 1 =
        some (Circuit.wotsOwner (.digest (Circuit.spendLeafSeed [7] 3)))) ∧
    ∃ i < Circuit.WOTS_CHAINS, Circuit.wotsDigits (1 : ℕ) i < Circuit.wotsDigits (2 : ℕ) i := by
  obtain ⟨⟨sig, path, hauth, hrecover, -⟩, hbehind⟩ :=
    Circuit.spendAuthority_sound [7] (show 2 ≤ Circuit.SPEND_TREE_DEPTH by decide)
      (show 3 < 2 ^ 2 by decide) (1 : ℕ)
  exact ⟨⟨sig, path, hauth, hrecover⟩, (hbehind 2 ⟨0, by decide, by decide⟩).1⟩
